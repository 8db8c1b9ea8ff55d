import RfidTool.Firmware.Reception
import RfidTool.Rfid.Connect
import RfidTool.Rfid.GetSamples
import RfidTool.Rfid.UsbTransfer

/-!
# `getSamples` over the device

From the readings of the converter to the list of samples: the samples of a `getSamples` that
returns are the runs of the levels behind 1536 readings, with the first run one short and without
the last one, whatever else went on between the packets. These readings come behind the first one
at which the handler starts, which is a falling level, or a high one that no decisive reading
comes before. Where it throws, a call of the USB library has failed, or the reception was not
over in time.
-/

namespace RfidTool.UsbInterface

open Interaction UsbDriver InterfaceUsbImpl RunLength

/-- A device that listens lets `getSamples` return. -/
theorem exists_getSamples {d : UsbDriver} (h : d.Listening)
    (hcommand : d.firmware.command ≠ PROTO_CMD_RESET) :
    ∃ samples tr d', Exec UsbLibrary firmwareInterface.getSamples d (.ok samples) tr d' := by
  obtain ⟨during, ended, hduring, hbackground, hover⟩ :=
    Firmware.exists_isOver_receiveRequest hcommand
  obtain ⟨tr₁, d₁, htransfer, h₁, -⟩ :=
    exec_transfer (show firmwareInterface.checkConnection = .ok () from rfl)
      (show receiveRequest.bRequest = _ from rfl) h hduring hbackground hover
  have hreply : d₁.reply (rxRequest PROTO_CMD_PULSE_VECTOR_READ 0 0 192) =
      some d₁.firmware.ioBuffer.toList :=
    congrArg some (List.take_of_length_le (Nat.le_of_eq Vector.length_toList))
  obtain ⟨tr₂, d₂, hread, -⟩ := h₁.exists_readsControl (direction_rxRequest _ _ _ _).2 hreply
  have hbuffer := exec_doTransferRx (show firmwareInterface.checkConnection = .ok () from rfl)
    (show ReadsControl (rxRequest PROTO_CMD_PULSE_VECTOR_READ 0 0
      (if false then firmwareInterface.sampleVectorSize + 1
        else firmwareInterface.sampleVectorSize))
      _ d₁ tr₂ d₂ from hread) Vector.length_toList nofun
  exact ⟨_, tr₁ ++ (tr₂ ++ []), d₂, htransfer.bind (hbuffer.bind (.ret _ _))⟩

end RfidTool.UsbInterface

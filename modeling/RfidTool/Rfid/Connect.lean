import RfidTool.Rfid.UsbLibrary

/-!
# The constructor over the device

The host learns the version and the sizes of the buffers from the firmware, whatever the
firmware is doing, and does not disturb it. It counts the samples as the bits of the buffer and
the pulses as the entries of four bits that seven bytes have room for.
-/

namespace RfidTool.UsbInterface

open Interaction UsbDriver

/-- The fields of an interface that is connected to the firmware. -/
def firmwareInterface : UsbInterface where
  handle := true
  version := some ⟨0, 1⟩
  pulsesMax := 14
  pulseVectorSize := 7
  pulseBits := 4
  samplesMax := 1536
  sampleVectorSize := 192
  sampleBits := 1

/-- The constructor knows the device, and has started and written nothing, or a call has
failed. -/
def Connects : Outcome UsbInterface
  | .ok device, tr, d' => device = firmwareInterface ∧ d'.Sound ∧
    ∀ e ∈ events tr, e.isStart = false ∧ ∀ data, e ≠ .dataOut data
  | .error error, _, _ => ∃ n < 0, error = .invalidResponse n

/-- A request that starts and writes nothing. -/
theorem undisturbed_of_asked {rq : SetupRequest} {f asked g : Firmware} {es : List Event}
    (h : Firmware.Asked rq (fun e => e.isQuiet) f es asked g)
    (hrq : rq.bRequest ≠ PROTO_CMD_TRANSFER_START) :
    ∀ e ∈ es, e.isStart = false ∧ ∀ data, e ≠ .dataOut data := by
  obtain ⟨before, after, rfl, hbefore, hafter, -⟩ := h.events
  have hquiet {e : Event} (he : e.isQuiet) : e.isStart = false ∧ ∀ data, e ≠ .dataOut data := by
    refine ⟨Event.isStart_of_isSetup (Event.isSetup_of_isQuiet he), ?_⟩
    rintro data rfl
    cases he
  rw [List.forall_mem_append, List.forall_mem_cons]
  exact ⟨fun e he => hquiet (hbefore e he), ⟨Event.isStart_setup hrq, nofun⟩,
    fun e he => hquiet (hafter e he)⟩

theorem connects_of_sound {d : UsbDriver} (hd : d.Sound) :
    wp UsbLibrary (connect true) Connects d := by
  unfold connect
  dsimp only
  rw [if_pos rfl, wp_bind]
  refine wp_doTransferRx rfl (fun data tr₁ d₁ hversion => ?_) fun n _ _ hneg => ⟨n, hneg, rfl⟩
  obtain ⟨hd₁, asked, hdata, hasked⟩ := reads_answerTo hd hversion (by decide)
  obtain rfl : data = [PROTO_RC_OK, 0, 1] := hdata.trans rfl
  have hquiet := undisturbed_of_asked hasked (by decide)
  refine ⟨rfl, fun _ => rfl, ?_⟩
  dsimp only
  rw [wp_bind]
  refine wp_doTransferRx rfl (fun data tr₂ d₂ hsizes => ?_) fun n _ _ hneg => ⟨n, hneg, rfl⟩
  obtain ⟨hd₂, asked', hdata', hasked'⟩ := reads_answerTo hd₁ hsizes (by decide)
  obtain rfl : data = [PROTO_RC_OK, 4, 1, 0, 192, 0, 7] := hdata'.trans rfl
  have hquiet' := undisturbed_of_asked hasked' (by decide)
  refine ⟨rfl, fun _ => rfl, ?_⟩
  refine ⟨by decide, hd₂, ?_⟩
  rw [events_append, List.forall_mem_append]
  exact ⟨hquiet, by rwa [List.append_nil]⟩

/-- Whatever the firmware is doing, the host gets to know it, or an exception with the error of
the USB library. -/
theorem wp_connect {tr : List (UsbDriver × UsbEvent)} {d : UsbDriver}
    (hrun : Run UsbDriver.step init tr d) : wp UsbLibrary (connect true) Connects d :=
  connects_of_sound (sound_of_run hrun)

/-! ## A host that goes on -/

/-- A device that listens lets the constructor come to its end. -/
theorem exists_connect {d : UsbDriver} (h : d.Listening) :
    ∃ tr d', Exec UsbLibrary (connect true) d (.ok firmwareInterface) tr d' ∧ d'.Listening ∧
      d'.firmware.control = d.firmware.control ∧ d'.firmware.command = d.firmware.command := by
  obtain ⟨tr₁, d₁, hversion, h₁, hfirmware₁⟩ :=
    exec_answerTo (show (unknown true).checkConnection = .ok () from rfl) h
      PROTO_CMD_GET_VERSION 0 0 2 (by decide) (rfl : _ = PROTO_RC_OK :: [0, 1]) rfl (by decide)
  obtain ⟨tr₂, d₂, hsizes, h₂, hfirmware₂⟩ :=
    exec_answerTo (show checkConnection { unknown true with version := some ⟨0, 1⟩ } = .ok () from
      rfl) h₁ PROTO_CMD_GET_BUFFER_SIZE 0 0 6 (by decide)
      (rfl : _ = PROTO_RC_OK :: [4, 1, 0, 192, 0, 7]) rfl (by decide)
  refine ⟨tr₁ ++ tr₂, d₂, ?_, h₂, ?_, ?_⟩
  · unfold connect
    dsimp only
    rw [if_pos rfl]
    refine hversion.bind ?_
    rw [← List.append_nil tr₂]
    exact hsizes.bind (.ret _ _)
  · rw [hfirmware₂, hfirmware₁, Firmware.control_usbFunctionSetup _ (by decide),
      Firmware.control_usbFunctionSetup _ (by decide)]
  · rw [hfirmware₂, hfirmware₁, Firmware.command_usbFunctionSetup _ (by decide) (by decide),
      Firmware.command_usbFunctionSetup _ (by decide) (by decide)]

/-- The firmware behind its start. -/
theorem wp_connect_init :
    ∃ tr d', Exec UsbLibrary (connect true) init (.ok firmwareInterface) tr d' ∧
      Connects (.ok firmwareInterface) tr d' := by
  obtain ⟨tr, d', hexec, -⟩ := exists_connect listening_init
  exact ⟨tr, d', hexec, wp_iff_exec.mp (wp_connect (.nil init)) _ _ _ hexec⟩

end RfidTool.UsbInterface

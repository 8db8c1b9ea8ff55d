import RfidTool.Firmware.Completion
import RfidTool.Rfid.UsbInterface

/-!
# The USB library over the device

`UsbLibrary` is what the library may do with a call of the host: `usb_control_msg` makes a
control transfer and returns the number of its bytes, or it fails with a negative number,
whatever has happened on the bus by then; `usleep` lets the device go on. The packets, polls
and interrupts in between come in any order that the transfers allow.

The rules for `doTransferRx` and `doTransferTx` say what is left to show of a program that
calls them. Those with `exec` are for a host that goes on.
-/

namespace RfidTool

open UsbDriver

/-- How the library may answer a call. -/
inductive UsbLibrary :
    UsbDriver → UsbCall → UsbAnswer → List (UsbDriver × UsbEvent) → UsbDriver → Prop
  | read {rq : UsbRequest} {bytes data : List UInt8} {d d' : UsbDriver}
    {tr : List (UsbDriver × UsbEvent)} (hdir : rq.bmRequestType &&& USBRQ_DIR_MASK ≠ 0)
    (h : ReadsControl rq data d tr d') :
    UsbLibrary d (.usbControlMsg rq bytes) ⟨data.length, data⟩ tr d'
  | write {rq : UsbRequest} {bytes : List UInt8} {d d' : UsbDriver}
    {tr : List (UsbDriver × UsbEvent)} (hdir : rq.bmRequestType &&& USBRQ_DIR_MASK = 0)
    (h : WritesControl rq bytes d tr d') :
    UsbLibrary d (.usbControlMsg rq bytes) ⟨bytes.length, []⟩ tr d'
  | fail {rq : UsbRequest} {bytes data : List UInt8} {returned : ℤ} {d d' : UsbDriver}
    {tr : List (UsbDriver × UsbEvent)} (hneg : returned < 0) (hrun : Run UsbDriver.step d tr d') :
    UsbLibrary d (.usbControlMsg rq bytes) ⟨returned, data⟩ tr d'
  | sleep {usec : ℕ} {d d' : UsbDriver} {tr : List (UsbDriver × UsbEvent)}
    (hrun : Run UsbDriver.step d tr d') (hquiet : ∀ p ∈ tr, p.1.Quiet p.2) :
    UsbLibrary d (.usleep usec) ⟨0, []⟩ tr d'

namespace UsbInterface

open Interaction

/-- The condition on the end of a program. -/
abbrev Outcome (ρ : Type) : Type :=
  Except InterfaceError ρ → List (UsbDriver × UsbEvent) → UsbDriver → Prop

/-- Whatever the library does, the device makes a run. -/
theorem run_of_usbLibrary {d d' : UsbDriver} {call : UsbCall} {answer : UsbAnswer}
    {tr : List (UsbDriver × UsbEvent)} (h : UsbLibrary d call answer tr d') :
    Run UsbDriver.step d tr d' := by
  cases h with
  | read _ h => exact h.run
  | write _ h => exact h.run
  | fail _ hrun => exact hrun
  | sleep hrun => exact hrun

/-- A program makes a run of the device. -/
theorem wp_run {ε ρ : Type} {program : Interaction UsbCall UsbAnswer ε ρ}
    {wanted : Except ε ρ → List (UsbDriver × UsbEvent) → UsbDriver → Prop} {d : UsbDriver}
    (h : wp UsbLibrary program wanted d) :
    wp UsbLibrary program (fun result tr d' => wanted result tr d' ∧ Run UsbDriver.step d tr d')
      d :=
  wp_and_of_env Run.nil Run.append run_of_usbLibrary h

theorem checkResponse_eq_ok {buffer : List UInt8} {bufferSize : ℕ} {checkRc : Bool}
    (hrc : checkRc → buffer.getD 0 0 = PROTO_RC_OK) :
    checkResponse buffer bufferSize bufferSize checkRc = .ok () := by
  unfold checkResponse
  rw [if_neg (not_not.mpr rfl), if_neg]
  rintro ⟨-, hcheck, hne⟩
  exact hne (hrc hcheck)

theorem direction_rxRequest (command : UInt8) (value index transferSize : UInt16) :
    (rxRequest command value index transferSize).bmRequestType &&& USBRQ_DIR_MASK ≠ 0 ∧
      (rxRequest command value index transferSize).bmRequestType &&& USBRQ_TYPE_MASK ≠ 0 := by
  change 0xc0 &&& USBRQ_DIR_MASK ≠ 0 ∧ 0xc0 &&& USBRQ_TYPE_MASK ≠ 0
  decide

theorem direction_txRequest (command : UInt8) (value index bufferSize : UInt16) :
    (txRequest command value index bufferSize).bmRequestType &&& USBRQ_DIR_MASK = 0 ∧
      (txRequest command value index bufferSize).bmRequestType &&& USBRQ_TYPE_MASK ≠ 0 := by
  change 0x40 &&& USBRQ_DIR_MASK = 0 ∧ 0x40 &&& USBRQ_TYPE_MASK ≠ 0
  decide

/-- A call that fails is an exception. -/
theorem checkResponse_of_neg {returned : ℤ} (h : returned < 0) (buffer : List UInt8)
    (bufferSize : ℕ) (checkRc : Bool) :
    checkResponse buffer bufferSize returned checkRc = .error (.invalidResponse returned) :=
  if_pos (by omega)

section

variable {device : UsbInterface} {d : UsbDriver} {index value : UInt16} {command : UInt8}

theorem wp_doTransferRx (hconnection : device.checkConnection = .ok ()) {bufferSize : UInt16}
    {checkRc : Bool} {wanted : Outcome (List UInt8)}
    (hread : ∀ data tr d',
      ReadsControl (rxRequest command value index (if checkRc then bufferSize + 1 else bufferSize))
        data d tr d' →
      data.length = (if checkRc then bufferSize + 1 else bufferSize).toNat ∧
        (checkRc → data.getD 0 0 = PROTO_RC_OK) ∧
        wanted (.ok ((if checkRc then data.drop 1 else data).take bufferSize.toNat)) tr d')
    (hfail : ∀ n tr d', n < 0 → wanted (.error (.invalidResponse n)) tr d') :
    wp UsbLibrary (device.doTransferRx bufferSize index value command checkRc) wanted d := by
  unfold doTransferRx
  rw [hconnection, wp_bind, wp_ret]
  dsimp only
  rw [wp_bind, wp_ask]
  intro answer tr d' hanswer
  dsimp only
  rw [wp_bind, wp_ret, List.nil_append]
  cases hanswer with
  | @read _ _ data _ _ _ hdir h =>
    obtain ⟨hlength, hrc, hwanted⟩ := hread _ _ _ h
    dsimp only
    rw [hlength, checkResponse_eq_ok hrc]
    exact wp_pure.mpr (by simpa using hwanted)
  | write hdir => exact absurd hdir (direction_rxRequest _ _ _ _).1
  | fail hneg =>
    rw [checkResponse_of_neg hneg]
    simpa using hfail _ _ _ hneg

theorem wp_doTransferTx (hconnection : device.checkConnection = .ok ()) {buffer : List UInt8}
    {bufferSize : UInt16} (hlength : buffer.length = bufferSize.toNat) {wanted : Outcome Unit}
    (hwrite : ∀ tr d', WritesControl (txRequest command value index bufferSize) buffer d tr d' →
      wanted (.ok ()) tr d')
    (hfail : ∀ n tr d', n < 0 → wanted (.error (.invalidResponse n)) tr d') :
    wp UsbLibrary (device.doTransferTx buffer bufferSize index value command) wanted d := by
  unfold doTransferTx
  rw [hconnection, wp_bind, wp_ret]
  dsimp only
  rw [wp_bind, wp_ask]
  intro answer tr d' hanswer
  dsimp only
  rw [wp_ret, List.nil_append, List.append_nil]
  cases hanswer with
  | read hdir => exact absurd (direction_txRequest _ _ _ _).1 hdir
  | write hdir h =>
    dsimp only
    rw [hlength, checkResponse_eq_ok (fun h => by cases h)]
    exact hwrite _ _ h
  | fail hneg =>
    rw [checkResponse_of_neg hneg]
    exact hfail _ _ _ hneg

/-- A read that is as long as it should be. -/
theorem exec_doTransferRx (hconnection : device.checkConnection = .ok ()) {bufferSize : UInt16}
    {checkRc : Bool} {data : List UInt8} {tr : List (UsbDriver × UsbEvent)} {d' : UsbDriver}
    (h : ReadsControl
      (rxRequest command value index (if checkRc then bufferSize + 1 else bufferSize)) data d tr d')
    (hlength : data.length = (if checkRc then bufferSize + 1 else bufferSize).toNat)
    (hrc : checkRc → data.getD 0 0 = PROTO_RC_OK) :
    Exec UsbLibrary (device.doTransferRx bufferSize index value command checkRc) d
      (.ok ((if checkRc then data.drop 1 else data).take bufferSize.toNat)) tr d' := by
  have hcall : UsbLibrary d (.usbControlMsg (rxRequest command value index
      (if checkRc then bufferSize + 1 else bufferSize)) []) ⟨data.length, data⟩ tr d' :=
    .read (direction_rxRequest _ _ _ _).1 h
  have hchecked : checkResponse data (if checkRc then bufferSize + 1 else bufferSize).toNat
      data.length checkRc = .ok () := by
    rw [hlength, checkResponse_eq_ok hrc]
  unfold doTransferRx
  rw [hconnection, ← List.nil_append tr]
  refine (Exec.ret (.ok ()) d).bind ?_
  rw [← List.append_nil tr]
  refine (Exec.ask hcall).bind ?_
  dsimp only
  rw [hchecked]
  exact (Exec.ret (.ok ()) d').bind (.ret _ _)

theorem exec_doTransferTx (hconnection : device.checkConnection = .ok ()) {buffer : List UInt8}
    {bufferSize : UInt16} (hlength : buffer.length = bufferSize.toNat)
    {tr : List (UsbDriver × UsbEvent)} {d' : UsbDriver}
    (h : WritesControl (txRequest command value index bufferSize) buffer d tr d') :
    Exec UsbLibrary (device.doTransferTx buffer bufferSize index value command) d (.ok ()) tr
      d' := by
  have hcall : UsbLibrary d (.usbControlMsg (txRequest command value index bufferSize) buffer)
      ⟨buffer.length, []⟩ tr d' := .write (direction_txRequest _ _ _ _).1 h
  have hchecked : checkResponse [] bufferSize.toNat buffer.length false = .ok () := by
    rw [hlength, checkResponse_eq_ok (fun h => by cases h)]
  unfold doTransferTx
  rw [hconnection, ← List.nil_append tr]
  refine (Exec.ret (.ok ()) d).bind ?_
  rw [← List.append_nil tr]
  refine (Exec.ask hcall).bind ?_
  dsimp only
  rw [hchecked]
  exact .ret _ _

end

/-- A command with an answer of its own is answered with as much of it as is wanted. -/
theorem reads_answerTo {command : UInt8} {value index size : UInt16} {data : List UInt8}
    {d d' : UsbDriver} {tr : List (UsbDriver × UsbEvent)} (hd : d.Sound)
    (h : ReadsControl (rxRequest command value index size) data d tr d')
    (hcommand : ¬IsVectorCommand command) :
    d'.Sound ∧ ∃ asked : Firmware,
      data = (rxRequest command value index size).cut (asked.answerTo ⟨command, value, index⟩) ∧
      Firmware.Asked ⟨command, value, index⟩ (fun e => e.isQuiet) d.firmware (events tr) asked
        d'.firmware := by
  have htype := (direction_rxRequest command value index size).2
  obtain ⟨hsound, c, hreply, hasked⟩ := h.spec hd htype fun hread =>
    absurd (.inl hread : IsVectorCommand command) hcommand
  refine ⟨hsound, c.firmware, ?_, hasked⟩
  rw [reply, if_neg htype, if_neg (show ¬IsVectorCommand
    (rxRequest command value index size).bRequest from hcommand)] at hreply
  exact (Option.some.inj hreply).symm

/-- The host reads the answer to a command with an answer of its own. -/
theorem exec_answerTo {device : UsbInterface} (hconnection : device.checkConnection = .ok ())
    {d : UsbDriver} (h : d.Listening) (command : UInt8) (value index bufferSize : UInt16)
    {answer : List UInt8} (hcommand : ¬IsVectorCommand command)
    (hanswer : (rxRequest command value index (bufferSize + 1)).cut
      (d.firmware.answerTo ⟨command, value, index⟩) = PROTO_RC_OK :: answer)
    (hlength : answer.length = bufferSize.toNat) (hsize : bufferSize.toNat < 65535) :
    ∃ tr d', Exec UsbLibrary (device.doTransferRx bufferSize index value command true) d
      (.ok answer) tr d' ∧ d'.Listening ∧
      d'.firmware = d.firmware.usbFunctionSetup ⟨command, value, index⟩ := by
  have htype := (direction_rxRequest command value index (bufferSize + 1)).2
  have hreply : d.reply (rxRequest command value index (bufferSize + 1)) =
      some (PROTO_RC_OK :: answer) := by
    rw [reply, if_neg htype, if_neg (show ¬IsVectorCommand
      (rxRequest command value index (bufferSize + 1)).bRequest from hcommand)]
    exact congrArg some hanswer
  obtain ⟨tr, d', hread, hnext, hfirmware⟩ := h.exists_readsControl htype hreply
  have hsum : (PROTO_RC_OK :: answer).length = (bufferSize + 1).toNat := by
    rw [UInt16.toNat_add_one hlength.symm (by omega), List.length_cons]
  have hexec : Exec UsbLibrary (device.doTransferRx bufferSize index value command true) d
      (.ok (answer.take bufferSize.toNat)) tr d' :=
    exec_doTransferRx hconnection (show ReadsControl (rxRequest command value index
      (if true then bufferSize + 1 else bufferSize)) _ d tr d' from hread) hsum fun _ => rfl
  rw [← hlength, List.take_length] at hexec
  exact ⟨tr, d', hexec, hnext, hfirmware hcommand⟩

end UsbInterface

end RfidTool

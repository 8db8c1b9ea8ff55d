import RfidTool.Rfid.UsbLibrary

/-!
# A transfer of the interface

Both `getSamples` and `putSamples` start a transfer, wait and ask for its status. `Polled` is
what the firmware sees of that: the two requests, and nothing else of the host before, between
and behind them. So the identifier is the one of the transfer, and the host goes on if and only
if the firmware is in `STATE_IDLE` without a timeout when the status is asked for.
-/

namespace RfidTool

namespace UsbInterface

open Interaction UsbDriver

/-- How a transfer may end. -/
def Transfers (request : SetupRequest) (d : UsbDriver) : Outcome Unit
  | .ok (), tr, d' => d'.Sound ∧
    ∃ ended, Firmware.Polled request d.firmware (events tr) ended d'.firmware ∧ ended.IsOver
  | .error .invalidState, tr, d' =>
    ∃ ended, Firmware.Polled request d.firmware (events tr) ended d'.firmware ∧ ¬ended.IsOver
  | .error (.invalidResponse n), _, _ => n < 0
  | .error _, _, _ => False

/-- What the host reads of the status. -/
theorem answerTo_status {f : Firmware} {index : UInt16} (hindex : index = f.id.toUInt16) :
    ∃ status high low,
      (rxRequest PROTO_CMD_TRANSFER_STATUS 0 index 4).cut
        (f.answerTo ⟨PROTO_CMD_TRANSFER_STATUS, 0, index⟩) = [PROTO_RC_OK, status, high, low] ∧
      (status = PROTO_TRANSFER_STATUS_OK ↔ f.IsOver) := by
  have hanswer : f.answerTo ⟨PROTO_CMD_TRANSFER_STATUS, 0, index⟩ =
      f.transferStatus ⟨PROTO_CMD_TRANSFER_STATUS, 0, index⟩ := rfl
  rw [hanswer, Firmware.transferStatus, if_neg (not_not.mpr hindex)]
  refine ⟨_, _, _, rfl, ?_⟩
  unfold Firmware.IsOver
  by_cases hidle : f.state = .idle
  · rw [if_pos hidle]
    cases f.timedOut with
    | true => simp [PROTO_TRANSFER_STATUS_TIMEOUT, PROTO_TRANSFER_STATUS_OK]
    | false => simp [hidle]
  · rw [if_neg hidle]
    simp [hidle, PROTO_TRANSFER_STATUS_IN_PROGRESS, PROTO_TRANSFER_STATUS_OK]

theorem wp_transfer {device : UsbInterface} (hconnection : device.checkConnection = .ok ())
    {request : SetupRequest} (hrequest : request.bRequest = PROTO_CMD_TRANSFER_START)
    {d : UsbDriver} (hd : d.Sound) :
    wp UsbLibrary (device.transfer request) (Transfers request d) d := by
  obtain ⟨command, value, index⟩ := request
  obtain rfl : command = PROTO_CMD_TRANSFER_START := hrequest
  unfold transfer
  rw [wp_bind]
  refine wp_doTransferRx hconnection (fun data tr₁ d₁ hstart => ?_) fun _ _ _ hneg => hneg
  obtain ⟨hd₁, started, hdata, hasked⟩ := reads_answerTo hd hstart (by decide)
  obtain rfl : data = [PROTO_RC_OK, started.id + 1] := hdata.trans rfl
  refine ⟨rfl, fun _ => rfl, ?_⟩
  dsimp only
  rw [wp_bind, wp_ask]
  intro answer tr₂ d₂ hsleep
  dsimp only
  cases hsleep with
  | sleep hrun hquiet =>
    rw [wp_bind]
    refine wp_doTransferRx hconnection (fun data tr₃ d₃ hstatus => ?_) fun _ _ _ hneg => hneg
    obtain ⟨hd₃, ended, hdata', hasked'⟩ := reads_answerTo (hd₁.run hrun) hstatus (by decide)
    obtain ⟨before, after, htr₁, hbefore, hafter, hfold, hfold'⟩ := hasked.events
    obtain ⟨before', after', htr₃, hbefore', hafter', hfold₃, hfold₃'⟩ := hasked'.events
    have hslept := (foldlM_project hd₁ hrun).1
    have hduring : ∀ e ∈ after ++ (events tr₂ ++ before'), e.isQuiet :=
      List.forall_mem_append.mpr ⟨hafter, List.forall_mem_append.mpr
        ⟨isQuiet_of_quiet hquiet, hbefore'⟩⟩
    have hover : (after ++ (events tr₂ ++ before')).foldlM Firmware.step
        (started.usbFunctionSetup ⟨PROTO_CMD_TRANSFER_START, value, index⟩) = .ok ended := by
      rw [List.foldlM_append, hfold']
      change (events tr₂ ++ before').foldlM Firmware.step d₁.firmware = _
      rw [List.foldlM_append, events, hslept]
      exact hfold₃
    have hcontrol := @Firmware.control_usbFunctionSetup_start started
      ⟨PROTO_CMD_TRANSFER_START, value, index⟩ rfl
    have hid : ended.id = started.id + 1 :=
      (Firmware.id_of_quiet hduring hover).trans (congrArg Control.id hcontrol)
    have hpolled : Firmware.Polled ⟨PROTO_CMD_TRANSFER_START, value, index⟩ d.firmware
        (events (tr₁ ++ (tr₂ ++ (tr₃ ++ [])))) ended d₃.firmware := by
      refine ⟨before, after ++ (events tr₂ ++ before'), after', _, started, ?_, ?_, rfl, hfold,
        hover, hfold₃'⟩
      · rw [List.append_nil, events_append, events_append, htr₁, htr₃]
        simp only [List.append_assoc, List.cons_append]
      · rw [List.forall_mem_append, List.forall_mem_append]
        exact ⟨⟨hbefore, hduring⟩, hafter'⟩
    obtain ⟨status, high, low, hanswer, hover'⟩ := answerTo_status
      (show (started.id + 1).toUInt16 = ended.id.toUInt16 by rw [hid])
    obtain rfl : data = [PROTO_RC_OK, status, high, low] := hdata'.trans hanswer
    refine ⟨rfl, fun _ => rfl, ?_⟩
    change wp UsbLibrary (if status ≠ PROTO_TRANSFER_STATUS_OK then _ else _) _ _
    by_cases hok : status = PROTO_TRANSFER_STATUS_OK
    · rw [if_neg (not_not.mpr hok)]
      exact ⟨hd₃, ended, hpolled, hover'.mp hok⟩
    · rw [if_pos hok]
      exact ⟨ended, hpolled, fun h => hok (hover'.mpr h)⟩

/-! ## A host that goes on -/

/-- A transfer that is over when the host has waited. -/
theorem exec_transfer {device : UsbInterface} (hconnection : device.checkConnection = .ok ())
    {request : SetupRequest} (hrequest : request.bRequest = PROTO_CMD_TRANSFER_START)
    {d : UsbDriver} (h : d.Listening) {during : List Event} {ended : Firmware}
    (hduring : during.foldlM Firmware.step (d.firmware.usbFunctionSetup request) = .ok ended)
    (hbackground : ∀ e ∈ during, e.isBackground) (hover : ended.IsOver) :
    ∃ tr d', Exec UsbLibrary (device.transfer request) d (.ok ()) tr d' ∧ d'.Listening ∧
      d'.firmware =
        ended.usbFunctionSetup ⟨PROTO_CMD_TRANSFER_STATUS, 0, ended.id.toUInt16⟩ := by
  obtain ⟨command, value, index⟩ := request
  obtain rfl : command = PROTO_CMD_TRANSFER_START := hrequest
  obtain ⟨tr₁, d₁, hstart, h₁, hfirmware₁⟩ := exec_answerTo hconnection h
    PROTO_CMD_TRANSFER_START value index 1 (by decide) (rfl : _ = PROTO_RC_OK :: [_]) rfl
    (by decide)
  rw [← hfirmware₁] at hduring
  obtain ⟨tr₂, hslept, hbackground₂⟩ := exists_run_of_background hduring hbackground
  have h₂ := h₁.of_run hslept hbackground₂
  have hid : ended.id = d.firmware.id + 1 := by
    have hquiet := fun e he => Event.isQuiet_of_isBackground (hbackground e he)
    have hcontrol := @Firmware.control_usbFunctionSetup_start d.firmware
      ⟨PROTO_CMD_TRANSFER_START, value, index⟩ rfl
    rw [Firmware.id_of_quiet hquiet hduring, hfirmware₁]
    exact congrArg Control.id hcontrol
  obtain ⟨status, high, low, hanswer, hok⟩ := answerTo_status (rfl : ended.id.toUInt16 = _)
  obtain ⟨tr₃, d₃, hstatus, h₃, hfirmware₃⟩ := exec_answerTo hconnection h₂
    PROTO_CMD_TRANSFER_STATUS 0 ended.id.toUInt16 3 (by decide) hanswer rfl (by decide)
  refine ⟨tr₁ ++ (tr₂ ++ (tr₃ ++ [])), d₃, ?_, h₃, hfirmware₃⟩
  have hlast : Exec UsbLibrary (if status ≠ PROTO_TRANSFER_STATUS_OK then
      Interaction.ret (.error InterfaceError.invalidState) else return ()) d₃ (.ok ()) [] d₃ := by
    rw [if_neg (not_not.mpr (hok.mpr hover))]
    exact .ret _ _
  rw [hid] at hstatus
  exact hstart.bind ((Exec.ask (.sleep hslept fun p hp =>
    quiet_of_isBackground (hbackground₂ p hp))).bind (hstatus.bind hlast))

end UsbInterface

end RfidTool

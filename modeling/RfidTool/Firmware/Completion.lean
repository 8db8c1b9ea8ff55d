import RfidTool.Firmware.ControlTransfer
import RfidTool.Firmware.Playback
import RfidTool.Firmware.Reception

/-!
# A host that goes on

`ReadsControl` and `WritesControl` say what a complete transfer has done. A device that listens
lets a host complete one: it acknowledges the request, and a host that sends one token after
every poll gets the packets of the reply, one by one, up to the short one at the end. The device
listens again behind it.
-/

namespace RfidTool.Firmware

open InterfaceUsbImpl

/-! ## A transfer -/

/-- A round of the main loop takes a finished transfer to its end. -/
theorem exists_isOver_of_finished {f g : Firmware} {es : List Event}
    (hcommand : f.command ≠ PROTO_CMD_RESET) {rq : SetupRequest}
    (hrq : rq.bRequest = PROTO_CMD_TRANSFER_START)
    (hfold : es.foldlM step (f.usbFunctionSetup rq) = .ok g) (hes : ∀ e ∈ es, e.isBackground)
    (hfinished : g.state = .finished) (htimedOut : g.timedOut = false) :
    ∃ (during : List Event) (ended : Firmware),
      during.foldlM step (f.usbFunctionSetup rq) = .ok ended ∧
      (∀ e ∈ during, e.isBackground) ∧ ended.IsOver := by
  have hkept : g.command = f.command := by
    have hquiet := fun e he => Event.isQuiet_of_isBackground (hes e he)
    rw [command_of_quiet hquiet hfold, usbFunctionSetup_start f hrq]
    rfl
  have hidle : g.step .idle = .ok g.finishTransfer := by
    rw [step, idleRound, if_neg (hkept ▸ hcommand), hfinished]
  refine ⟨es ++ [.idle], g.finishTransfer, ?_, ?_, rfl, htimedOut⟩
  · rw [List.foldlM_append, hfold]
    exact Except.bind_eq_ok_iff.mpr ⟨g, rfl, Except.bind_eq_ok_iff.mpr ⟨_, hidle, rfl⟩⟩
  · exact List.forall_mem_append.mpr ⟨hes, List.forall_mem_singleton.mpr rfl⟩

/-- A reception that finds an edge is over behind its 1536 conversions. -/
theorem exists_isOver_receiveRequest {f : Firmware} (hcommand : f.command ≠ PROTO_CMD_RESET) :
    ∃ (during : List Event) (ended : Firmware),
      during.foldlM step (f.usbFunctionSetup receiveRequest) = .ok ended ∧
      (∀ e ∈ during, e.isBackground) ∧ ended.IsOver := by
  obtain ⟨w, a, b, g, tr, hw, ha, -, hb, -, hrun, hevents, -, hfinished, htimedOut⟩ :=
    exists_reception hcommand length_alternating
  have hfold : ([Event.idle, .adc 0, .adc 255] ++ tr.map (·.2)).foldlM step
      (f.usbFunctionSetup receiveRequest) = .ok g :=
    (Run.append (.cons hw (.cons ha (.cons hb (.nil b)))) hrun).foldlM
  refine exists_isOver_of_finished hcommand rfl hfold ?_ hfinished htimedOut
  rw [hevents, List.forall_mem_append]
  refine ⟨by decide, fun e he => ?_⟩
  obtain ⟨r, -, rfl⟩ := List.mem_map.mp he
  rfl

/-- The handler comes to the end of what it plays. -/
theorem exists_played {n : ℕ} {f : Firmware} {steps : List (ℤ × Bool)}
    (h : playback n f = some steps) (hocie0a : f.ocie0a = true)
    (hinterrupts : f.interrupts = true) :
    ∃ (k : ℕ) (g : Firmware), (List.replicate k Event.timer0).foldlM step f = .ok g ∧
      g.state = .finished ∧ g.timedOut = f.timedOut := by
  induction n generalizing f steps with
  | zero => cases h
  | succ n ih =>
    rw [playback] at h
    obtain ⟨g, hg⟩ : ∃ g, f.timer0Compa = .ok g := by
      cases hcompa : f.timer0Compa with
      | ok g => exact ⟨g, rfl⟩
      | error halt =>
        rw [hcompa] at h
        cases h
    have hstep : f.step .timer0 = .ok g := by
      rw [step, if_pos (by simp [hocie0a, hinterrupts]), hg]
    have heffect := effect hstep
    generalize hcontrol : g.control = c at heffect
    have htimedOut : g.timedOut = c.timedOut := congrArg Control.timedOut hcontrol
    rw [hg] at h
    dsimp only at h
    cases heffect with
    | keep _ _ htimer => exact absurd rfl htimer
    | play =>
      split_ifs at h with hfinished
      · exact ⟨1, g, Except.bind_eq_ok_iff.mpr ⟨g, hstep, rfl⟩, hfinished, htimedOut⟩
      · obtain ⟨left, hleft, -⟩ := Option.map_eq_some_iff.mp h
        obtain ⟨k, u, hfold, hend, hsame⟩ := ih hleft
          ((congrArg Control.ocie0a hcontrol).trans hocie0a)
          ((congrArg Control.interrupts hcontrol).trans hinterrupts)
        refine ⟨k + 1, u, ?_, hend, hsame.trans htimedOut⟩
        rw [List.replicate_succ, List.foldlM_cons]
        exact Except.bind_eq_ok_iff.mpr ⟨g, hstep, hfold⟩
    | stop =>
      exact ⟨1, g, Except.bind_eq_ok_iff.mpr ⟨g, hstep, rfl⟩, congrArg Control.state hcontrol,
        htimedOut⟩

/-- The handler has what it plays from the wait. -/
theorem Awaiting.transmits {w f g : Firmware} {rs : List UInt8} {r : UInt8} (h : Awaiting w f rs)
    (htx : w.tx = true) (hstep : f.step (.adc r) = .ok g) (hentered : g.state = .tx) :
    g.opOffset = w.opOffset ∧ g.opLength = w.opLength ∧ g.ocie0a = true ∧ g.interrupts = true := by
  have heffect := effect hstep
  generalize hcontrol : g.control = c at heffect
  have hstate : g.state = c.state := congrArg Control.state hcontrol
  cases heffect with
  | keep _ hadc => cases hadc
  | wait => cases hentered.symm.trans (hstate.trans h.state)
  | timeout => cases hentered.symm.trans hstate
  | sample _ hnot | sampleLast _ hnot => exact absurd h.state hnot
  | edge =>
    exact ⟨(congrArg Control.opOffset hcontrol).trans h.opOffset,
      (congrArg Control.opLength hcontrol).trans h.opLength,
      (congrArg Control.ocie0a hcontrol).trans (h.tx.trans htx),
      (congrArg Control.interrupts hcontrol).trans h.interrupts⟩

/-- The transmission of `putSamples` starts behind an edge. -/
theorem exists_transmission {f : Firmware} (hcommand : f.command ≠ PROTO_CMD_RESET) :
    ∃ g, [Event.idle, .adc 0, .adc 255].foldlM step (f.usbFunctionSetup startRequest) = .ok g ∧
      g.state = .tx ∧ g.opOffset = 0 ∧ g.opLength = 384 ∧ g.ocie0a = true ∧ g.interrupts = true ∧
      g.timedOut = false ∧ g.sampleVector = f.sampleVector ∧ g.ioBuffer = f.ioBuffer := by
  obtain ⟨w, a, b, hstarted, hw, ha, hwaiting, hb, hentered, htimedOut⟩ :=
    exists_edge hcommand (rfl : startRequest.bRequest = _) rfl rfl (by decide)
  have hrequested := usbFunctionSetup_start f (rfl : startRequest.bRequest = _)
  have hcontrol := control_startTransfer (f.usbFunctionSetup startRequest)
  rw [← hstarted] at hcontrol
  have htx : w.tx = true := by
    refine (congrArg (·.operation.tx) hcontrol).trans ?_
    rw [hrequested]
    rfl
  have hlength : w.opLength = 384 := by
    refine (congrArg Control.opLength hcontrol).trans ?_
    rw [hrequested]
    rfl
  rw [if_pos htx] at hentered
  obtain ⟨hoffset, hsame, hocie0a, hinterrupts⟩ := hwaiting.transmits htx hb hentered
  have hstate : w.state = .waitCondition := by
    rw [hstarted]
    exact (awaiting_startTransfer (by rw [hrequested]; rfl)).state
  obtain ⟨hsample₁, hbuffer₁⟩ := tables_of_step hw nofun nofun
  obtain ⟨hsample₂, hbuffer₂⟩ := tables_of_step ha nofun fun _ => hstate
  obtain ⟨hsample₃, hbuffer₃⟩ := tables_of_step hb nofun fun _ => hwaiting.state
  refine ⟨b, (Run.cons hw (.cons ha (.cons hb (.nil b)))).foldlM, hentered,
    hoffset.trans (congrArg Control.opOffset hcontrol), hsame.trans hlength, hocie0a, hinterrupts,
    htimedOut, ?_, ?_⟩
  · rw [hsample₃, hsample₂, hsample₁, hrequested]
    rfl
  · rw [hbuffer₃, hbuffer₂, hbuffer₁, hrequested]
    rfl

/-- A transmission that finds an edge is over when its tables are played. -/
theorem exists_isOver_startRequest {f : Firmware} (hcommand : f.command ≠ PROTO_CMD_RESET)
    {whole : List (ℤ × Bool)} (hplays : Plays f.sampleVector f.ioBuffer whole) :
    ∃ (during : List Event) (ended : Firmware),
      during.foldlM step (f.usbFunctionSetup startRequest) = .ok ended ∧
      (∀ e ∈ during, e.isBackground) ∧ ended.IsOver := by
  obtain ⟨b, hedge, hentered, hoffset, hlength, hocie0a, hinterrupts, htimedOut, hsample,
    hbuffer⟩ := exists_transmission hcommand
  obtain ⟨n, hplay⟩ := hplays b hsample hbuffer hentered hoffset hlength
  obtain ⟨k, g, hfold, hfinished, hsame⟩ := exists_played hplay hocie0a hinterrupts
  have hall : ([Event.idle, .adc 0, .adc 255] ++ List.replicate k Event.timer0).foldlM step
      (f.usbFunctionSetup startRequest) = .ok g := by
    rw [List.foldlM_append, hedge]
    exact Except.bind_eq_ok_iff.mpr ⟨b, rfl, hfold⟩
  refine exists_isOver_of_finished hcommand rfl hall ?_ hfinished (hsame.trans htimedOut)
  rw [List.forall_mem_append]
  refine ⟨by decide, fun e he => ?_⟩
  rw [List.eq_of_mem_replicate he]
  rfl

end RfidTool.Firmware

namespace RfidTool.UsbDriver

open Outbox (rounds)

/-- The buffer of the receiver is free, and the device has taken over its address. -/
structure Listening (d : UsbDriver) : Prop where
  sound : d.Sound
  rx : d.usbRxLen = 0
  address : d.usbNewDeviceAddr <<< 1 = d.usbDeviceAddr

theorem listening_init : Listening init := ⟨sound_init, rfl, rfl⟩

/-- The second part of a poll prepares a packet. -/
theorem pollTx_frame {d d' : UsbDriver} (h : d.Sound) (hpoll : d.pollTx = .ok d') :
    d'.usbRxLen = d.usbRxLen ∧ d'.usbNewDeviceAddr = d.usbNewDeviceAddr ∧
      d'.usbDeviceAddr = d.usbDeviceAddr ∧
      (d.firmware.userRw = false → d'.firmware = d.firmware) := by
  unfold pollTx at hpoll
  split_ifs at hpoll with hidle
  · obtain ⟨firmware, ptr, data, hbuild, hfetched, -⟩ := usbBuildTxBlock_eq h hidle.2
    rw [hbuild] at hpoll
    cases hpoll
    refine ⟨rfl, rfl, rfl, fun hrw => ?_⟩
    cases hfetched with
    | user _ huser => exact absurd (huser.symm.trans hrw) (by decide)
    | _ => rfl
  · cases hpoll
    exact ⟨rfl, rfl, rfl, fun _ => rfl⟩

/-! ## The setup stage -/

/-- A data packet behind a token is acknowledged. -/
theorem receive_data {d : UsbDriver} {pid : UInt8} {data : List UInt8} (hpid : IsDataPid pid)
    (htok : d.usbCurrentTok ≠ 0) (hrx : d.usbRxLen = 0) (hmin : 1 ≤ data.length)
    (hmax : data.length ≤ 8) :
    d.receive (dataPacket pid data) =
      ({ d with
        usbRxBuf := d.rxBuf (dataPacket pid data), usbRxLen := (dataPacket pid data).length
        usbRxToken := d.usbCurrentTok }, some [USBPID_ACK]) := by
  have hlength := length_dataPacket pid data
  have hlong : ¬USB_BUFSIZE < (dataPacket pid data).length := by
    rw [hlength, Nat.not_lt]
    exact Nat.add_le_add_right hmax 3
  have hfirst : firstByte (d.rxBuf (dataPacket pid data)) = pid := by
    have hlist := toList_rxBuf d (Nat.not_lt.mp hlong)
    rw [dataPacket, List.cons_append] at hlist
    exact firstByte_of_toList hlist
  have hbuf : overwrite d.usbRxBuf 0 ((dataPacket pid data).take USB_BUFSIZE) =
      d.rxBuf (dataPacket pid data) := rfl
  unfold receive
  rw [hbuf]
  dsimp only
  rw [if_neg hlong, hfirst, if_pos (show pid = USBPID_DATA0 ∨ pid = USBPID_DATA1 from hpid),
    handleData, if_neg htok, if_neg (not_not.mpr hrx), if_neg (by omega)]

/-- A token and the data packet behind it. -/
theorem Listening.exchange {d : UsbDriver} (h : d.Listening) {pid dataPid : UInt8}
    (hpid : pid = USBPID_SETUP ∨ pid = USBPID_OUT) (hdata : IsDataPid dataPid) {data : List UInt8}
    (hmin : 1 ≤ data.length) (hmax : data.length ≤ 8) :
    ∃ (token packet : Vector UInt8 11) (b c : UsbDriver),
      b = { d with usbRxBuf := token, usbCurrentTok := pid } ∧
      c = { b with
        usbRxBuf := packet, usbRxLen := data.length + 3, usbRxToken := pid
        usbCurrentTok := pid } ∧
      d.receive [pid, d.usbNewDeviceAddr, 0] = (b, none) ∧
      b.receive (dataPacket dataPid data) = (c, some [USBPID_ACK]) := by
  obtain ⟨token, htoken⟩ : ∃ token, d.rxBuf [pid, d.usbNewDeviceAddr, 0] = token := ⟨_, rfl⟩
  obtain ⟨b, hb⟩ : ∃ b, ({ d with usbRxBuf := token, usbCurrentTok := pid } : UsbDriver) = b :=
    ⟨_, rfl⟩
  have hreceive := receive_token hpid h.address 0
  rw [htoken, hb] at hreceive
  have htok : b.usbCurrentTok = pid := by rw [← hb]
  have hne : b.usbCurrentTok ≠ 0 := by
    rw [htok]
    rcases hpid with rfl | rfl <;> decide
  have hack := receive_data hdata hne (show b.usbRxLen = 0 by rw [← hb]; exact h.rx) hmin hmax
  rw [length_dataPacket, htok] at hack
  exact ⟨token, _, b, _, hb.symm, rfl, hreceive, hack⟩

/-- A vendor request leaves the address alone. -/
theorem address_processSetup (d : UsbDriver) {rq : UsbRequest}
    (htype : rq.bmRequestType &&& USBRQ_TYPE_MASK ≠ 0) :
    (d.processSetup rq).usbNewDeviceAddr = d.usbNewDeviceAddr ∧
      (d.processSetup rq).usbDeviceAddr = d.usbDeviceAddr := by
  rw [processSetup_eq, if_pos htype]
  unfold limited
  split_ifs <;> exact ⟨rfl, rfl⟩

/-- A reply depends on the firmware and on the configuration. -/
theorem reply_congr {c d : UsbDriver} (hfirmware : c.firmware = d.firmware)
    (hconfiguration : c.usbConfiguration = d.usbConfiguration) (rq : UsbRequest) :
    c.reply rq = d.reply rq := by
  unfold reply standardReply
  rw [hfirmware, hconfiguration]

/-- A device that listens acknowledges a request. -/
theorem Listening.exists_request {d : UsbDriver} (h : d.Listening) (rq : UsbRequest) :
    ∃ b c, (d.receive [USBPID_SETUP, d.usbNewDeviceAddr, 0]).1 = b ∧
      b.receive (dataPacket USBPID_DATA0 rq.bytes) = (c, some [USBPID_ACK]) ∧ c.Sound ∧
      c.usbRxLen = 11 ∧ c.usbRxToken = USBPID_SETUP ∧ c.request = rq ∧
      c.firmware = d.firmware ∧ c.usbConfiguration = d.usbConfiguration ∧
      c.usbNewDeviceAddr <<< 1 = c.usbDeviceAddr := by
  have hlength : rq.bytes.length = 8 := rfl
  obtain ⟨token, packet, b, c, hb, hc, hreceive, hack⟩ := h.exchange (.inl rfl)
    (.inl rfl : IsDataPid USBPID_DATA0) (show 1 ≤ rq.bytes.length by omega) hlength.le
  have hsound : b.Sound := by
    have hnext := sound_receive h.sound [USBPID_SETUP, d.usbNewDeviceAddr, 0]
    rwa [hreceive] at hnext
  have hsound' : c.Sound := by
    have hnext := sound_receive hsound (dataPacket USBPID_DATA0 rq.bytes)
    rwa [hack] at hnext
  obtain ⟨hstored, hlist⟩ := stored_of_ack (.inl rfl) hlength hack
  refine ⟨b, c, congrArg Prod.fst hreceive, hack, hsound', congrArg usbRxLen hstored, ?_, ?_, ?_,
    ?_, ?_⟩
  · rw [hc]
  · rw [hstored]
    exact request_of_toList hlist
  · rw [hc, hb]
  · rw [hc, hb]
  · rw [hc, hb]
    exact h.address

/-- It prepares the reply. -/
theorem Listening.setup {d : UsbDriver} (h : d.Listening) {rq : UsbRequest}
    (htype : rq.bmRequestType &&& USBRQ_TYPE_MASK ≠ 0) :
    ∃ tr d', SetupStage rq d tr d' ∧ d'.Listening ∧
      d'.outbox = (prepared (d.reply rq)).fill ∧
      (¬IsVectorCommand rq.bRequest → d'.firmware = d.firmware.usbFunctionSetup rq.setup) := by
  obtain ⟨b, c, hreceive, hack, hsound, hlen, htoken, hrequest, hfirmware, hconfiguration,
    haddress⟩ := h.exists_request rq
  obtain ⟨d', hpoll⟩ : ∃ d', c.poll = .ok d' := by
    rcases poll_cases hsound with ⟨d', hpoll, -⟩ | ⟨-, -, hnot, -⟩
    · exact ⟨d', hpoll⟩
    · exact absurd htoken hnot
  have houtbox := outbox_poll_setup hsound hlen htoken hpoll
  rw [hrequest, reply_congr hfirmware hconfiguration] at houtbox
  obtain ⟨hprocessed, htx⟩ := pollTx_of_setup hsound hlen htoken hpoll
  rw [hrequest] at hprocessed htx
  obtain ⟨hrx, hnew, hold, hsame⟩ := pollTx_frame hprocessed htx
  obtain ⟨hnew', hold'⟩ := address_processSetup c htype
  have hprocess := firmware_processSetup c rq
  rw [if_pos htype, hfirmware] at hprocess
  have hnone : Run step (d.receive [USBPID_SETUP, d.usbNewDeviceAddr, 0]).1 [] b := by
    rw [hreceive]
    exact .nil b
  refine ⟨_, d', .intro (.nil d) (List.forall_mem_nil _) h.address hnone
    (List.forall_mem_nil _) hack (.nil c) (List.forall_mem_nil _) hpoll, ⟨?_, hrx, ?_⟩, houtbox, ?_⟩
  · exact (sound_step hsound (show c.step .poll = .ok d' from hpoll)).1
  · have hnew : d'.usbNewDeviceAddr = c.usbNewDeviceAddr := hnew.trans hnew'
    have hold : d'.usbDeviceAddr = c.usbDeviceAddr := hold.trans hold'
    rw [hnew, hold, haddress]
  · intro hvector
    have hrw : (d.firmware.usbFunctionSetup rq.setup).userRw = false := by
      rcases setupLength_cases d.firmware rq.setup with ⟨-, hyes, -⟩ | ⟨-, -, hrw⟩
      · exact absurd hyes hvector
      · exact hrw
    exact (hsame ((congrArg Firmware.userRw hprocess).trans hrw)).trans hprocess

/-! ## Reading -/

/-- A token takes the packet in the slot. -/
theorem Listening.take {d : UsbDriver} (h : d.Listening) :
    ∃ a, d.step (.packet [USBPID_IN, d.usbNewDeviceAddr, 0]) = .ok a ∧
      d.ops (.packet [USBPID_IN, d.usbNewDeviceAddr, 0]) = [.take] ∧ a.Listening ∧
      a.firmware = d.firmware := by
  have hlist : (d.rxBuf [USBPID_IN, d.usbNewDeviceAddr, 0]).toList =
      USBPID_IN :: d.usbNewDeviceAddr :: 0 :: d.usbRxBuf.toList.drop 3 :=
    toList_rxBuf d (Nat.le_of_ble_eq_true rfl)
  have hin : d.isIn [USBPID_IN, d.usbNewDeviceAddr, 0] = true := by
    have hdevice : ({ d with usbRxBuf := d.rxBuf [USBPID_IN, d.usbNewDeviceAddr, 0] } :
        UsbDriver).isForDevice = true := isForDevice_of_toList hlist h.address
    rw [isIn, firstByte_of_toList hlist, hdevice]
    rfl
  have hsound := sound_receive h.sound [USBPID_IN, d.usbNewDeviceAddr, 0]
  have hreceived := d.received [USBPID_IN, d.usbNewDeviceAddr, 0]
  refine ⟨(d.receive [USBPID_IN, d.usbNewDeviceAddr, 0]).1, rfl, if_pos ⟨h.rx, hin⟩, ?_⟩
  generalize (d.receive [USBPID_IN, d.usbNewDeviceAddr, 0]).1 = a,
    (d.receive [USBPID_IN, d.usbNewDeviceAddr, 0]).2 = answer at *
  cases hreceived with
  | unready => exact ⟨⟨hsound, h.rx, h.address⟩, rfl⟩
  | sent => exact ⟨⟨hsound, h.rx, rfl⟩, rfl⟩
  | busy hnot => exact absurd h.rx hnot
  | ignored hnot | status hnot | stored hnot => simp [hin] at hnot

/-- A poll prepares the next packet. -/
theorem Listening.fill {d : UsbDriver} (h : d.Listening) :
    ∃ d', d.pollTx = .ok d' ∧ d.step .poll = .ok d' ∧ d'.Listening ∧
      (d.firmware.userRw = false → d'.firmware = d.firmware) := by
  have hrx := h.rx
  have hpollRx : d.pollRx = .ok d := if_neg (by omega)
  obtain ⟨d', htx, hsound, -⟩ := pollTx_spec h.sound
  obtain ⟨hrx', hnew, hold, hsame⟩ := pollTx_frame h.sound htx
  refine ⟨d', htx, ?_, ⟨hsound, hrx'.trans h.rx, ?_⟩, hsame⟩
  · rw [step, poll, hpollRx]
    exact htx
  · rw [hnew, hold, h.address]

/-- The host sends `n` tokens, each of them behind a poll. -/
theorem Listening.rounds {d : UsbDriver} (h : d.Listening) (n : ℕ) :
    ∃ es d', Run step d es d' ∧ (∀ p ∈ es, p.1.Quiet p.2 ∧ p.1.Undisturbed p.2) ∧ d'.Listening ∧
      (d.firmware.userRw = false → d'.firmware = d.firmware) ∧
      Outbox.rounds true (es.flatMap fun p => p.1.ops p.2) = n := by
  induction n generalizing d with
  | zero => exact ⟨[], d, .nil d, List.forall_mem_nil _, h, fun _ => rfl, rfl⟩
  | succ n ih =>
    obtain ⟨a, ha, hops, hlistening, hfirmware⟩ := h.take
    obtain ⟨b, -, hb, hnext, hsame⟩ := hlistening.fill
    obtain ⟨es, d', hrun, hquiet, hend, hsame', hrounds⟩ := ih hnext
    refine ⟨_, d', .cons ha (.cons hb hrun), ?_, hend, fun hrw => ?_, ?_⟩
    · refine List.forall_mem_cons.mpr ⟨⟨trivial, trivial⟩, List.forall_mem_cons.mpr ⟨?_, hquiet⟩⟩
      exact ⟨hlistening.rx, hlistening.rx⟩
    · have hfirmware' : b.firmware = d.firmware := (hsame (hfirmware ▸ hrw)).trans hfirmware
      rw [hsame' (hfirmware' ▸ hrw), hfirmware']
    · rw [List.flatMap_cons, List.flatMap_cons, hops]
      exact congrArg (· + 1) hrounds

/-- The packets of a message end with a short one. -/
theorem exists_short_packet (pid : UInt8) (data : List UInt8) :
    ∃ packet ∈ packets pid data, (body packet).length < 8 := by
  fun_induction packets pid data with
  | case1 pid data hlast =>
    have hbody := congrArg List.length (body_dataPacket pid data)
    exact ⟨_, List.mem_singleton_self _, hbody.trans_lt hlast⟩
  | case2 pid data hfull ih =>
    obtain ⟨packet, hmem, hshort⟩ := ih
    exact ⟨packet, List.mem_cons_of_mem _ hmem, hshort⟩

/-- What a prepared message sends. -/
theorem output_prepared (data : List UInt8) (ops : List Outbox.Op) :
    Outbox.sender.output (prepared (some data)).fill ops =
      (packets USBPID_DATA1 data).take (Outbox.rounds true ops) := by
  obtain ⟨packet, hmem, -⟩ := exists_short_packet USBPID_DATA1 data
  rw [Outbox.output_eq_take, Outbox.contents_fill, prepared]
  obtain ⟨first, queue, hpackets⟩ := List.exists_cons_of_ne_nil (List.ne_nil_of_mem hmem)
  rw [hpackets]
  rfl

/-- A device that listens lets the host read its reply to the end. -/
theorem Listening.exists_readsControl {d : UsbDriver} (h : d.Listening) {rq : UsbRequest}
    (htype : rq.bmRequestType &&& USBRQ_TYPE_MASK ≠ 0) {data : List UInt8}
    (hreply : d.reply rq = some data) :
    ∃ tr d', ReadsControl rq data d tr d' ∧ d'.Listening ∧
      (¬IsVectorCommand rq.bRequest → d'.firmware = d.firmware.usbFunctionSetup rq.setup) := by
  obtain ⟨setup, c, hsetup, hc, houtbox, hrequested⟩ := h.setup htype
  obtain ⟨es, d', hrun, hquiet, hend, hsame, hrounds⟩ :=
    hc.rounds (packets USBPID_DATA1 data).length
  have hdelivered : (es.flatMap fun p => p.1.delivered p.2) = packets USBPID_DATA1 data := by
    rw [← (outbox_run hc.sound hrun fun p hp => (hquiet p hp).2).2, houtbox, hreply,
      output_prepared, hrounds, List.take_length]
  have hblocks : blocks es = ((packets USBPID_DATA1 data).take
      (packets USBPID_DATA1 data).length).map body := by
    rw [blocks, hdelivered, List.take_length]
  have hcomplete : Complete rq.wLength.toNat (blocks es) := by
    obtain ⟨packet, hmem, hshort⟩ := exists_short_packet USBPID_DATA1 data
    rw [blocks, hdelivered]
    exact .inl ⟨_, List.mem_map_of_mem hmem, hshort⟩
  have hall : data = (blocks es).flatten := by
    rw [hblocks] at hcomplete ⊢
    exact (hcomplete.flatten_eq (length_reply hreply)).symm
  refine ⟨setup ++ es, d', ⟨setup, es, c, rfl, hsetup, hrun, fun p hp => (hquiet p hp).1,
    hcomplete, hall⟩, hend, fun hvector => ?_⟩
  have hrw : (d.firmware.usbFunctionSetup rq.setup).userRw = false := by
    rcases setupLength_cases d.firmware rq.setup with ⟨-, hyes, -⟩ | ⟨-, -, hrw⟩
    · exact absurd hyes hvector
    · exact hrw
  rw [hsame (hrequested hvector ▸ hrw), hrequested hvector]

/-! ## Writing nothing -/

/-- A device that listens lets the host complete a request that writes nothing. -/
theorem Listening.exists_writesControl_nil {d : UsbDriver} (h : d.Listening) {rq : UsbRequest}
    (htype : rq.bmRequestType &&& USBRQ_TYPE_MASK ≠ 0) {data : List UInt8}
    (hreply : d.reply rq = some data) : ∃ tr d', WritesControl rq [] d tr d' := by
  obtain ⟨setup, c, hsetup, hc, houtbox, -⟩ := h.setup htype
  obtain ⟨a, ha, hops, -⟩ := hc.take
  have hrun : Run step c [(c, .packet [USBPID_IN, c.usbNewDeviceAddr, 0])] a := .cons ha (.nil a)
  obtain ⟨-, hsent⟩ := outbox_run hc.sound hrun (List.forall_mem_singleton.mpr trivial)
  rw [List.flatMap_singleton, List.flatMap_singleton, hops, houtbox, hreply, output_prepared]
    at hsent
  obtain ⟨packet, hmem, -⟩ := exists_short_packet USBPID_DATA1 data
  obtain ⟨first, queue, hpackets⟩ := List.exists_cons_of_ne_nil (List.ne_nil_of_mem hmem)
  have hdelivered : c.delivered (.packet [USBPID_IN, c.usbNewDeviceAddr, 0]) = [first] := by
    rw [← hsent, hpackets]
    rfl
  refine ⟨_, a, setup, [], c, c, _, rfl, hsetup, .nil c, ha, List.forall_mem_nil _, rfl, ?_⟩
  rw [hdelivered]
  exact List.cons_ne_nil _ _

/-! ## Writing a vector -/

/-- The first bytes of a write move the offset. -/
theorem ioBufferOffset_ne_of_write {v : DataVector} {f g : Firmware} {data : List UInt8}
    (hcommand : f.command = v.writeCommand) (hoffset : f.ioBufferOffset = 0) (hne : data ≠ [])
    (hmax : data.length ≤ 8) (h : f.usbFunctionWrite data = .ok g) :
    g.ioBufferOffset - f.ioBufferOffset ≠ 0 := by
  obtain ⟨b, data, rfl⟩ := List.exists_cons_of_ne_nil hne
  have hall : ∀ k ≤ 7, (1 : UInt8) + UInt8.ofNat k ≠ 0 := by decide
  have hmoves {n : ℕ} (hn : 0 < n) {dst : Vector UInt8 n} {r : Vector UInt8 n × UInt8}
      (hloop : Firmware.writeLoop dst 0 (b :: data) = .ok r) : r.2 ≠ 0 := by
    rw [Firmware.writeLoop, if_neg (by simpa using hn.ne),
      dif_pos (show (0 : UInt8).toNat < n from hn)] at hloop
    obtain ⟨k, hk, hr⟩ := Firmware.writeLoop_offset hloop
    rw [hr]
    exact hall k (by simpa using hk.trans (Nat.le_of_succ_le_succ hmax))
  rw [hoffset, UInt8.sub_zero]
  unfold Firmware.usbFunctionWrite at h
  rw [hoffset] at h
  cases v with
  | sampleVector =>
    rw [if_pos (show f.command = PROTO_CMD_SAMPLE_VECTOR_WRITE from hcommand)] at h
    obtain ⟨r, hloop, hg⟩ := Except.bind_eq_ok_iff.mp h
    cases hg
    exact hmoves (by decide) hloop
  | ioBuffer =>
    have hnot : f.command ≠ PROTO_CMD_SAMPLE_VECTOR_WRITE := by
      rw [hcommand]
      decide
    rw [if_neg hnot, if_pos (show f.command = PROTO_CMD_PULSE_VECTOR_WRITE from hcommand)] at h
    obtain ⟨r, hloop, hg⟩ := Except.bind_eq_ok_iff.mp h
    cases hg
    exact hmoves (by decide) hloop

/-- Something is left to send. -/
theorem contents_outbox_ne_nil {d : UsbDriver} :
    d.outbox.contents ≠ [] ↔ d.usbTxLen &&& 0x10 = 0 ∨ d.usbMsgLen ≠ USB_NO_MSG := by
  unfold outbox Outbox.contents
  by_cases htx : d.usbTxLen &&& 0x10 = 0
  · simp [htx]
  · by_cases hmsg : d.usbMsgLen = USB_NO_MSG
    · simp [htx, hmsg]
    · obtain ⟨packet, hmem, -⟩ :=
        exists_short_packet (nextPid (firstByte d.usbTxBuf)) d.remaining
      simp [htx, hmsg, List.ne_nil_of_mem hmem]

section

variable {v : DataVector} {f : Firmware} {d d' : UsbDriver} {written : List UInt8}

/-- The first part of a poll writes the packet that waits, and prepares the status stage. -/
theorem Writing.pollRx_status (h : Writing v f d written) (hf : f.ioBufferOffset = 0)
    (hrx : d.usbRxLen ≠ 0) (htoken : d.usbRxToken ≠ USBPID_SETUP) (hpoll : d.pollRx = .ok d') :
    ∃ firmware usbMsgLen, d' = { d with firmware, usbMsgLen, usbRxLen := 0 } ∧
      (usbMsgLen ≠ USB_NO_MSG ∨ usbMsgLen = d.usbMsgLen ∧ written ≠ []) := by
  obtain ⟨hmin, hmax⟩ := h.sound.rx.resolve_left hrx
  have hlength := length_payload hmax
  unfold UsbDriver.pollRx at hpoll
  rw [if_pos (by omega), usbProcessRx, if_neg htoken] at hpoll
  obtain ⟨d₁, hout, hd'⟩ := Except.bind_eq_ok_iff.mp hpoll
  change d.processOut d.payload = .ok d₁ at hout
  rw [processOut, if_pos h.userRw] at hout
  obtain ⟨firmware, hwrite, hout⟩ := Except.bind_eq_ok_iff.mp hout
  obtain ⟨k, hk, hoffset⟩ := Firmware.usbFunctionWrite_offset hwrite
  have hne : UInt8.ofNat k ≠ 0xff := by
    have hall : ∀ k ≤ 8, UInt8.ofNat k ≠ 0xff := by decide
    exact hall k (by omega)
  dsimp only at hout
  rw [if_neg (hoffset ▸ hne)] at hout
  split_ifs at hout with hmoved
  · cases hout
    cases hd'
    exact ⟨firmware, 0, rfl, .inl (by decide)⟩
  · cases hout
    cases hd'
    refine ⟨firmware, d.usbMsgLen, rfl, .inr ⟨rfl, ?_⟩⟩
    rintro rfl
    obtain ⟨g, hg, hagree⟩ := h.agree
    rw [Firmware.usbFunctionWrite_nil] at hg
    cases hg
    refine ioBufferOffset_ne_of_write h.command (hagree.offset.trans hf) ?_ (by omega) hwrite
      (not_not.mp hmoved)
    exact List.ne_nil_of_length_pos (by omega)

/-- A write that goes on. -/
structure Accepting (v : DataVector) (f : Firmware) (d : UsbDriver) (written : List UInt8) :
    Prop where
  listening : d.Listening
  writing : Writing v f d written
  status : written ≠ [] → d.outbox.contents ≠ []

/-- The host sends a packet, and it waits. -/
theorem Accepting.exists_packet (h : Accepting v f d written) {block : List UInt8}
    (hmin : 1 ≤ block.length) (hmax : block.length ≤ 8) :
    ∃ b c packet, d.step (.packet [USBPID_OUT, d.usbNewDeviceAddr, 0]) = .ok b ∧
      b.step (.packet (dataPacket USBPID_DATA1 block)) = .ok c ∧ b.usbRxLen = 0 ∧
      d.accepted (.packet [USBPID_OUT, d.usbNewDeviceAddr, 0]) = [] ∧
      b.accepted (.packet (dataPacket USBPID_DATA1 block)) = block ∧
      c = { d with
        usbRxBuf := packet, usbRxLen := block.length + 3, usbRxToken := USBPID_OUT
        usbCurrentTok := USBPID_OUT } ∧
      Writing v f c written ∧ c.payload = block := by
  have hzero := h.listening.rx
  obtain ⟨token, packet, b, c, hb, hc, hreceive, hack⟩ := h.listening.exchange (.inr rfl)
    (.inr rfl : IsDataPid USBPID_DATA1) hmin hmax
  have hb' := h.writing.receive hzero [USBPID_OUT, d.usbNewDeviceAddr, 0]
  rw [hreceive] at hb'
  have hrxb : b.usbRxLen = 0 := by
    rw [hb]
    exact hzero
  have hc' := hb'.writing.receive hrxb (dataPacket USBPID_DATA1 block)
  rw [hack] at hc'
  have hrxc : c.usbRxLen ≠ 0 := by
    rw [hc]
    exact Nat.succ_ne_zero _
  have hnone : d.accepted (.packet [USBPID_OUT, d.usbNewDeviceAddr, 0]) = [] := by
    rw [accepted, answer, hreceive]
    exact if_neg (by simp)
  have haccepted : b.accepted (.packet (dataPacket USBPID_DATA1 block)) = block := by
    rw [accepted, answer, hack, if_pos rfl, body_dataPacket]
  refine ⟨b, c, packet, ?_, ?_, hrxb, hnone, haccepted, by rw [hc, hb], hc'.writing, ?_⟩
  · rw [step_packet, hreceive]
  · rw [step_packet, hack]
  · have hwaiting := hc'.waiting
    rw [haccepted, waiting, if_neg hrxc, waiting, if_pos hrxb, List.append_nil] at hwaiting
    exact List.append_cancel_left hwaiting

/-- The poll of a write processes what waits. -/
theorem Writing.exists_poll (h : Writing v f d written) : ∃ d', d.poll = .ok d' := by
  rcases poll_cases h.sound with ⟨d', hpoll, -⟩ | ⟨-, -, -, -, hsample, hpulse, -⟩
  · exact ⟨d', hpoll⟩
  · have hcommand := h.command
    cases v with
    | sampleVector => exact absurd hcommand hsample
    | ioBuffer => exact absurd hcommand hpulse

/-- The host sends a packet, and the main loop comes to it. -/
theorem Accepting.block (h : Accepting v f d written) (hf : f.ioBufferOffset = 0)
    {block : List UInt8} (hmin : 1 ≤ block.length) (hmax : block.length ≤ 8) :
    ∃ tr d', Run step d tr d' ∧ (∀ p ∈ tr, p.1.Attended p.2) ∧
      (tr.flatMap fun p => p.1.accepted p.2) = block ∧ Accepting v f d' (written ++ block) := by
  obtain ⟨b, c, packet, hstepb, hstepc, hrxb, hnone, haccepted, hc, hwaiting, hpayload⟩ :=
    h.exists_packet hmin hmax
  have hrxc : c.usbRxLen ≠ 0 := by
    rw [hc]
    exact Nat.succ_ne_zero _
  have htoken : c.usbRxToken ≠ USBPID_SETUP := by
    rw [hc]
    exact (by decide : USBPID_OUT ≠ USBPID_SETUP)
  obtain ⟨d', hpoll⟩ := hwaiting.exists_poll
  obtain ⟨c₁, hrx, htx⟩ := Except.bind_eq_ok_iff.mp hpoll
  obtain ⟨hwriting, hempty⟩ := hwaiting.pollRx hrxc htoken hrx
  obtain ⟨firmware, usbMsgLen, hc₁, hmsg⟩ := hwaiting.pollRx_status hf hrxc htoken hrx
  obtain ⟨hrx', hnew, hold, -⟩ := pollTx_frame hwriting.sound htx
  rw [hpayload] at hwriting
  have hwriting' := (hwriting.pollTx htx).1
  have hstep : c.step .poll = .ok d' := hpoll
  refine ⟨_, d', .cons hstepb (.cons hstepc (.cons hstep (.nil d'))), ?_, ?_,
    ⟨hwriting'.sound, hrx'.trans hempty, ?_⟩, hwriting', fun _ => ?_⟩
  · refine List.forall_mem_cons.mpr ⟨h.listening.rx, List.forall_mem_cons.mpr ⟨hrxb, ?_⟩⟩
    exact List.forall_mem_singleton.mpr (.inr htoken)
  · rw [List.flatMap_cons, List.flatMap_cons, hnone, haccepted]
    exact List.append_nil _
  · rw [hnew, hold, hc₁, hc]
    exact h.listening.address
  · rw [outbox_pollTx hwriting.sound htx, Outbox.contents_fill, contents_outbox_ne_nil, hc₁]
    rcases hmsg with hmsg | ⟨hsame, hne⟩
    · exact .inr hmsg
    · have hcontents := contents_outbox_ne_nil.mp (h.status hne)
      rw [hsame, hc]
      exact hcontents

/-- The host sends all of its data. -/
theorem Accepting.write (h : Accepting v f d written) (hf : f.ioBufferOffset = 0)
    (data : List UInt8) :
    ∃ tr d', Run step d tr d' ∧ (∀ p ∈ tr, p.1.Attended p.2) ∧
      (tr.flatMap fun p => p.1.accepted p.2) = data ∧ Accepting v f d' (written ++ data) := by
  induction hn : data.length using Nat.strong_induction_on generalizing d written data with
  | _ n ih =>
    by_cases hdata : data = []
    · subst hdata
      exact ⟨[], d, .nil d, List.forall_mem_nil _, rfl, by rwa [List.append_nil]⟩
    · have hpos := List.length_pos_iff.mpr hdata
      obtain ⟨tr, c, hrun, hattended, haccepted, hc⟩ := h.block hf
        (show 1 ≤ (data.take 8).length by rw [List.length_take]; omega) (List.length_take_le _ _)
      obtain ⟨tr', d', hrun', hattended', haccepted', hd'⟩ := ih (data.drop 8).length
        (by rw [List.length_drop]; omega) hc (data.drop 8) rfl
      refine ⟨tr ++ tr', d', hrun.append hrun', List.forall_mem_append.mpr ⟨hattended, hattended'⟩,
        ?_, ?_⟩
      · rw [List.flatMap_append, haccepted, haccepted', List.take_append_drop]
      · rwa [List.append_assoc, List.take_append_drop] at hd'

end

/-- A device that listens lets the host write a vector. -/
theorem Listening.exists_writesControl {d : UsbDriver} (h : d.Listening) {v : DataVector}
    {rq : UsbRequest} (htype : rq.bmRequestType &&& USBRQ_TYPE_MASK ≠ 0)
    (hdir : rq.bmRequestType &&& USBRQ_DIR_MASK = 0) (hcommand : rq.bRequest = v.writeCommand)
    {data : List UInt8} (hdata : data ≠ []) :
    ∃ tr d', WritesControl rq data d tr d' ∧ d'.Listening ∧
      d'.firmware.command = v.writeCommand := by
  obtain ⟨setup, c, hsetup, hc, -⟩ := h.setup htype
  obtain ⟨u, before, -, hbefore, -, hpoll, hlen, htoken, rfl⟩ := hsetup.spec
  obtain ⟨hwriting, -⟩ :=
    writing_poll (h.sound.run hbefore) hlen htoken htype hdir hcommand hpoll
  have hoffset : (u.firmware.usbFunctionSetup u.request.setup).ioBufferOffset = 0 := by
    rw [Firmware.usbFunctionSetup_vector u.firmware (show IsVectorCommand u.request.bRequest from
      hcommand ▸ v.isVectorCommand_write)]
  have haccepting : Accepting v (u.firmware.usbFunctionSetup u.request.setup) c [] :=
    ⟨hc, hwriting, fun hne => absurd rfl hne⟩
  obtain ⟨es, w, hes, hattended, haccepted, hw⟩ := haccepting.write hoffset data
  obtain ⟨a, htx, hfill, ha, -⟩ := hw.listening.fill
  obtain ⟨d', htake, hops, hd', hfirmware⟩ := ha.take
  have hrun : Run step w [(w, .poll), (a, .packet [USBPID_IN, a.usbNewDeviceAddr, 0])] d' :=
    .cons hfill (.cons htake (.nil d'))
  have hundisturbed : ∀ p ∈ [(w, UsbEvent.poll), (a, .packet [USBPID_IN, a.usbNewDeviceAddr, 0])],
      p.1.Undisturbed p.2 :=
    List.forall_mem_cons.mpr ⟨hw.listening.rx, List.forall_mem_singleton.mpr trivial⟩
  obtain ⟨-, hsent⟩ := outbox_run hw.listening.sound hrun hundisturbed
  have hdelivered : a.delivered (.packet [USBPID_IN, a.usbNewDeviceAddr, 0]) ≠ [] := by
    have hcontents := hw.status hdata
    obtain ⟨packet, packets, hpackets⟩ := List.exists_cons_of_ne_nil hcontents
    rw [List.flatMap_cons, List.flatMap_singleton, List.flatMap_cons, List.flatMap_singleton, hops,
      Outbox.output_eq_take, hpackets] at hsent
    have hfirst : [packet] = a.delivered (.packet [USBPID_IN, a.usbNewDeviceAddr, 0]) := hsent
    rw [← hfirst]
    exact List.cons_ne_nil _ _
  refine ⟨_, d', ⟨setup, es ++ [(w, .poll)], c, a, _, rfl, hsetup,
    hes.append (.cons hfill (.nil a)), htake, ?_, ?_, hdelivered⟩, hd',
    hfirmware ▸ (hw.writing.pollTx htx).1.command⟩
  · exact List.forall_mem_append.mpr ⟨hattended,
      List.forall_mem_singleton.mpr (.inl hw.listening.rx)⟩
  · rw [List.flatMap_append, haccepted]
    exact List.append_nil _

/-! ## Waiting -/

/-- What the firmware does without the host, it does behind the driver. -/
theorem exists_run_of_background {es : List Event} {d : UsbDriver} {g : Firmware}
    (hfold : es.foldlM Firmware.step d.firmware = .ok g) (hes : ∀ e ∈ es, e.isBackground) :
    ∃ tr, Run step d tr { d with firmware := g } ∧ ∀ p ∈ tr, p.2.isBackground := by
  induction es generalizing d with
  | nil =>
    cases hfold
    exact ⟨[], .nil d, List.forall_mem_nil _⟩
  | cons e es ih =>
    rw [List.foldlM_cons] at hfold
    obtain ⟨f, hstep, hfold⟩ := Except.bind_eq_ok_iff.mp hfold
    rw [List.forall_mem_cons] at hes
    obtain ⟨x, hx, hnext⟩ : ∃ x : UsbEvent, x.isBackground ∧
        d.step x = .ok { d with firmware := f } := by
      have hfire : d.fire e = .ok { d with firmware := f } := by
        rw [fire, hstep]
        rfl
      cases e with
      | idle => exact ⟨.idle, rfl, hfire⟩
      | adc adch => exact ⟨.adc adch, rfl, hfire⟩
      | timer0 => exact ⟨.timer0, rfl, hfire⟩
      | _ => cases hes.1
    obtain ⟨tr, hrun, hall⟩ := @ih { d with firmware := f } hfold hes.2
    exact ⟨_, .cons hnext hrun, List.forall_mem_cons.mpr ⟨hx, hall⟩⟩

/-- The firmware is the only thing that changes without the host. -/
theorem Listening.of_run {d d' : UsbDriver} {es : List (UsbDriver × UsbEvent)} (h : d.Listening)
    (hrun : Run step d es d') (hbackground : ∀ p ∈ es, p.2.isBackground) : d'.Listening := by
  have hsound := h.sound.run hrun
  obtain ⟨firmware, rfl⟩ := run_background hrun hbackground
  exact ⟨hsound, h.rx, h.address⟩

end RfidTool.UsbDriver

import RfidTool.Firmware.UsbRead

/-!
# Control writes

Behind a request that writes one of the vectors, the data packets that the device acknowledges
are written to it in order, none of them twice: `written` is in the vector, and what is
acknowledged on top of it waits for the main loop in the buffer of the receiver. Every packet
that arrives goes into that one buffer, so the main loop has to come before the next packet.
The status stage is a packet without data, which is not prepared before the first byte is
written. The PID of the data packets is not checked: one that the host repeats counts twice.
-/

namespace RfidTool

namespace Firmware

/-- Two states in which a write to a vector goes on alike. -/
structure Agree (v : DataVector) (f g : Firmware) : Prop where
  command : g.command = f.command
  offset : g.ioBufferOffset = f.ioBufferOffset
  bytes : g.bytes v = f.bytes v

theorem usbFunctionWrite_congr {v : DataVector} {f g f' : Firmware} {data : List UInt8}
    (hcommand : f.command = v.writeCommand) (h : Agree v f g)
    (hwrite : f.usbFunctionWrite data = .ok f') :
    ∃ g', g.usbFunctionWrite data = .ok g' ∧ Agree v f' g' := by
  have hcommand' := h.command.trans hcommand
  cases v with
  | ioBuffer =>
    have hne : f.command ≠ PROTO_CMD_SAMPLE_VECTOR_WRITE := by
      rw [hcommand]
      decide
    have hne' : g.command ≠ PROTO_CMD_SAMPLE_VECTOR_WRITE := h.command ▸ hne
    have hbuffer : g.ioBuffer = f.ioBuffer := Vector.toList_inj.mp h.bytes
    rw [usbFunctionWrite, if_neg hne, if_pos (show f.command = PROTO_CMD_PULSE_VECTOR_WRITE from
      hcommand)] at hwrite
    obtain ⟨⟨ioBuffer, ioBufferOffset⟩, hloop, hf'⟩ := Except.bind_eq_ok_iff.mp hwrite
    cases hf'
    refine ⟨{ g with ioBuffer, ioBufferOffset }, ?_, h.command, rfl, rfl⟩
    rw [usbFunctionWrite, if_neg hne', if_pos (show g.command = PROTO_CMD_PULSE_VECTOR_WRITE from
      hcommand'), h.offset, hbuffer, hloop]
    rfl
  | sampleVector =>
    have hbuffer : g.sampleVector = f.sampleVector := Vector.toList_inj.mp h.bytes
    rw [usbFunctionWrite, if_pos (show f.command = PROTO_CMD_SAMPLE_VECTOR_WRITE from
      hcommand)] at hwrite
    obtain ⟨⟨sampleVector, ioBufferOffset⟩, hloop, hf'⟩ := Except.bind_eq_ok_iff.mp hwrite
    cases hf'
    refine ⟨{ g with sampleVector, ioBufferOffset }, ?_, h.command, rfl, rfl⟩
    rw [usbFunctionWrite, if_pos (show g.command = PROTO_CMD_SAMPLE_VECTOR_WRITE from
      hcommand'), h.offset, hbuffer, hloop]
    rfl

theorem command_usbFunctionWrite {f g : Firmware} {data : List UInt8}
    (h : f.usbFunctionWrite data = .ok g) : g.command = f.command := by
  obtain ⟨sampleVector, ioBuffer, offset, rfl, -⟩ := usbFunctionWrite_eq_ok h
  rfl

end Firmware

namespace UsbDriver

/-- What a data packet carries. -/
def body (bytes : List UInt8) : List UInt8 := (bytes.drop 1).take (bytes.length - 3)

/-- The data that the device acknowledges in a step. -/
def accepted (d : UsbDriver) (e : UsbEvent) : List UInt8 :=
  match e with
  | .packet bytes => if d.answer (.packet bytes) = some [USBPID_ACK] then body bytes else []
  | _ => []

/-- The acknowledged data that the main loop has not seen. -/
def waiting (d : UsbDriver) : List UInt8 := if d.usbRxLen = 0 then [] else d.payload

/-- What may happen during a write to a vector: packets behind which the main loop has come, no
other request, and no samples that go into the same vector. -/
def WriteStage (v : DataVector) (d : UsbDriver) : UsbEvent → Prop
  | .packet _ => d.usbRxLen = 0
  | .poll => d.usbRxLen = 0 ∨ d.usbRxToken ≠ USBPID_SETUP
  | .adc _ => v ≠ .ioBuffer
  | _ => True

/-- The driver has written `written` since the state `f` of the firmware. -/
structure Writing (v : DataVector) (f : Firmware) (d : UsbDriver) (written : List UInt8) :
    Prop where
  sound : d.Sound
  userRw : d.firmware.userRw = true
  command : d.firmware.command = v.writeCommand
  agree : ∃ g, f.usbFunctionWrite written = .ok g ∧ g.Agree v d.firmware
  msg : d.usbMsgLen = USB_NO_MSG ∨ d.usbMsgLen = 0 ∧ written ≠ []
  slot : d.outbox.slot = none ∨ written ≠ [] ∧
    ∃ pid, IsDataPid pid ∧ d.outbox.slot = some (dataPacket pid [])

theorem body_dataPacket (pid : UInt8) (data : List UInt8) : body (dataPacket pid data) = data := by
  rw [body, length_dataPacket, dataPacket, List.drop_succ_cons, List.drop_zero,
    UsbCrc16.usbCrc16Append, Nat.add_sub_cancel]
  exact List.take_left

section

variable {v : DataVector} {f : Firmware} {d d' : UsbDriver} {written : List UInt8}

/-- The second part of a poll prepares the status stage at most. -/
theorem Writing.pollTx (h : Writing v f d written) (hpoll : d.pollTx = .ok d') :
    Writing v f d' written ∧ d'.waiting = d.waiting := by
  have houtbox := outbox_pollTx h.sound hpoll
  have hsound : d'.Sound := by
    obtain ⟨d'', hpoll', hsound, -⟩ := pollTx_spec h.sound
    rw [hpoll] at hpoll'
    cases hpoll'
    exact hsound
  unfold UsbDriver.pollTx at hpoll
  split_ifs at hpoll with hidle
  · obtain ⟨hzero, hne⟩ := h.msg.resolve_left hidle.2
    obtain ⟨firmware, ptr, data, hbuild, hfetched, hlength⟩ := usbBuildTxBlock_eq h.sound hidle.2
    have hwant : d.wantLen.toNat = 0 := by
      rw [toNat_wantLen, hzero]
      rfl
    rw [hwant] at hfetched hlength
    obtain rfl : data = [] := List.eq_nil_of_length_eq_zero (Nat.le_zero.mp hlength)
    obtain rfl : firmware = d.firmware := by
      cases hfetched with
      | none => rfl
      | user hlen => exact absurd rfl hlen
      | message hlen => exact absurd rfl hlen
    have hremaining : d.remaining = [] := by
      rw [remaining, hzero]
      exact List.take_zero
    have hslot : d.outbox.fill.slot = some (dataPacket (nextPid (firstByte d.usbTxBuf)) []) := by
      unfold outbox
      rw [if_neg hidle.1, if_neg hidle.2, hremaining, packets_of_lt (by decide), Outbox.fill_cons]
    rw [hpoll] at hbuild
    cases hbuild
    refine ⟨⟨hsound, h.userRw, h.command, h.agree, .inl rfl,
      .inr ⟨hne, nextPid (firstByte d.usbTxBuf), ?_, ?_⟩⟩, rfl⟩
    · exact (h.sound.pid (.inr h.userRw)).toggle
    · rw [houtbox]
      exact hslot
  · cases hpoll
    exact ⟨h, rfl⟩

/-- The first part writes the packet that waits. -/
theorem Writing.pollRx (h : Writing v f d written) (hrx : d.usbRxLen ≠ 0)
    (htoken : d.usbRxToken ≠ USBPID_SETUP) (hpoll : d.pollRx = .ok d') :
    Writing v f d' (written ++ d.payload) ∧ d'.usbRxLen = 0 := by
  obtain ⟨hmin, hmax⟩ := h.sound.rx.resolve_left hrx
  have hlength := length_payload hmax
  have hsound : d'.Sound ∧ d'.usbRxLen = 0 := by
    rcases pollRx_cases h.sound with ⟨d'', hpoll', hsound, hzero, -⟩ | ⟨hfault, -⟩
    · rw [hpoll] at hpoll'
      cases hpoll'
      exact ⟨hsound, hzero⟩
    · rw [hpoll] at hfault
      cases hfault
  have hne : written ++ d.payload ≠ [] := by
    intro hnil
    rw [(List.append_eq_nil_iff.mp hnil).2, List.length_nil] at hlength
    omega
  unfold UsbDriver.pollRx at hpoll
  rw [if_pos (by omega), usbProcessRx, if_neg htoken] at hpoll
  change (d.processOut d.payload >>= _) = _ at hpoll
  rcases processOut_cases h.sound.dataPhase d.payload (by omega) with
    ⟨firmware, usbMsgLen, hout, hstep, -, hrw, hmsg, -⟩ | ⟨hfault, -⟩
  · rw [hout] at hpoll
    cases hpoll
    have hwrite : d.firmware.usbFunctionWrite d.payload = .ok firmware :=
      (if_pos h.userRw).symm.trans hstep
    obtain ⟨g, hg, hagree⟩ := h.agree
    have hcommand : g.command = v.writeCommand := hagree.command.symm.trans h.command
    refine ⟨⟨hsound.1, hrw.trans h.userRw, ?_, ?_, ?_, ?_⟩, rfl⟩
    · exact (Firmware.command_usbFunctionWrite hwrite).trans h.command
    · obtain ⟨g', hg', hagree'⟩ := Firmware.usbFunctionWrite_congr h.command
        ⟨hagree.command.symm, hagree.offset.symm, hagree.bytes.symm⟩ hwrite
      refine ⟨g', ?_, hagree'.command.symm, hagree'.offset.symm, hagree'.bytes.symm⟩
      rw [Firmware.usbFunctionWrite_append, hg]
      exact hg'
    · rcases hmsg with hsame | ⟨hzero, -⟩
      · rcases h.msg with hno | ⟨hzero, -⟩
        · exact .inl (hsame.trans hno)
        · exact .inr ⟨hsame.trans hzero, hne⟩
      · exact .inr ⟨hzero, hne⟩
    · rcases h.slot with hnone | ⟨-, hstatus⟩
      · exact .inl hnone
      · exact .inr ⟨hne, hstatus⟩
  · rw [hfault] at hpoll
    cases hpoll

/-- The main loop and the handlers leave the write alone. -/
theorem Writing.fire (h : Writing v f d written) {e : Event} (he : e.isBackground)
    (hquiet : e.isAdc → v ≠ .ioBuffer) (hfire : d.fire e = .ok d') :
    Writing v f d' written ∧ d'.waiting = d.waiting := by
  obtain ⟨firmware, hstep, hd'⟩ := Except.bind_eq_ok_iff.mp hfire
  obtain ⟨⟨husb, -, hsample⟩, hbuffer⟩ := Firmware.kept_of_step he hstep
  have hsound := (sound_fire h.sound hfire fun g hg => userRw_eq_of_usb
    (Firmware.kept_of_step he hg).1.usb).1
  simp only [Firmware.usb, Prod.mk.injEq] at husb
  obtain ⟨hcommand, hoffset, hrw⟩ := husb
  have hbytes : firmware.bytes v = d.firmware.bytes v := by
    cases v with
    | ioBuffer => exact congrArg Vector.toList (hbuffer (by simpa using fun h => hquiet h rfl))
    | sampleVector => exact congrArg Vector.toList hsample
  cases hd'
  obtain ⟨g, hg, hagree⟩ := h.agree
  refine ⟨⟨hsound, hrw.trans h.userRw, hcommand.trans h.command, ⟨g, hg, ?_⟩, h.msg, h.slot⟩, rfl⟩
  exact ⟨hcommand.trans hagree.command, hoffset.trans hagree.offset, hbytes.trans hagree.bytes⟩

/-- What a step adds to a write. -/
structure Advance (v : DataVector) (f : Firmware) (d d' : UsbDriver) (e : UsbEvent)
    (written written' : List UInt8) : Prop where
  writing : Writing v f d' written'
  le : written <+: written'
  waiting : written' ++ d'.waiting = written ++ d.waiting ++ d.accepted e
  status : ∀ bytes ∈ d.delivered e,
    written ≠ [] ∧ ∃ pid, IsDataPid pid ∧ bytes = dataPacket pid []

/-- The bytes that wait behind a packet that is stored. -/
theorem payload_stored {packet : List UInt8} (hmin : 4 ≤ packet.length)
    (hmax : packet.length ≤ 11) (d : UsbDriver) (usbRxToken : UInt8) :
    ({ d with usbRxBuf := d.rxBuf packet, usbRxLen := packet.length, usbRxToken } :
      UsbDriver).waiting = body packet := by
  have hbuf : (d.rxBuf packet).toList = packet ++ d.usbRxBuf.toList.drop packet.length := by
    rw [rxBuf, List.take_of_length_le (show packet.length ≤ USB_BUFSIZE from hmax),
      toList_overwrite _ _ _ (by omega), List.take_zero, List.nil_append, Nat.zero_add]
  rw [waiting, if_neg (show ¬packet.length = 0 by omega)]
  change ((d.rxBuf packet).toList.drop 1).take (packet.length - 3) = _
  rw [hbuf, List.drop_append_of_le_length (by omega),
    List.take_append_of_le_length (by simp; omega), body]

/-- A packet that is ready is the one of the status stage. -/
theorem Writing.ready (h : Writing v f d written) (htx : d.usbTxLen &&& 0x10 = 0) :
    written ≠ [] ∧ ∃ pid, IsDataPid pid ∧
      d.usbTxBuf.toList.take (d.usbTxLen.toNat - 1) = dataPacket pid [] := by
  have hfull : d.outbox.slot = some (d.usbTxBuf.toList.take (d.usbTxLen.toNat - 1)) := if_pos htx
  rcases h.slot with hslot | ⟨hne, pid, hpid, hslot⟩
  · rw [hfull] at hslot
    cases hslot
  · rw [hfull] at hslot
    exact ⟨hne, pid, hpid, Option.some.inj hslot⟩

theorem Writing.receive (h : Writing v f d written) (hrx : d.usbRxLen = 0)
    (packet : List UInt8) :
    Advance v f d (d.receive packet).1 (.packet packet) written written := by
  have hsound := sound_receive h.sound packet
  have hreceived := d.received packet
  have haccepted : d.accepted (.packet packet) =
      if (d.receive packet).2 = some [USBPID_ACK] then body packet else [] := rfl
  have hdelivered : d.delivered (.packet packet) =
      (d.receive packet).2.toList.filter fun bytes => decide (3 ≤ bytes.length) := rfl
  have hnone : d.waiting = [] := if_pos hrx
  have hempty : (USBPID_NAK &&& 0x10 = 0) = False := eq_false (by decide)
  generalize (d.receive packet).1 = d', (d.receive packet).2 = answer at *
  refine ⟨?_, List.prefix_rfl, ?_, ?_⟩
  · cases hreceived with
    | sent =>
      refine ⟨hsound, h.userRw, h.command, h.agree, h.msg, .inl ?_⟩
      simp only [outbox, hempty, if_false]
    | _ => exact ⟨hsound, h.userRw, h.command, h.agree, h.msg, h.slot⟩
  · rw [hnone, List.append_nil, haccepted]
    refine congrArg (written ++ ·) ?_
    cases hreceived with
    | ignored => exact (if_pos hrx).trans (if_neg (by simp)).symm
    | busy hne => exact absurd hrx hne
    | status _ _ hcnt =>
      have hbody : body packet = [] := by
        rw [body, show packet.length - 3 = 0 by omega, List.take_zero]
      rw [if_pos rfl, hbody]
      exact if_pos hrx
    | stored _ _ _ hmin hmax =>
      rw [if_pos rfl]
      exact payload_stored hmin hmax d d.usbCurrentTok
    | unready _ _ htx =>
      have hnak : d.usbTxLen ≠ USBPID_ACK := by
        rcases h.sound.tx with hnak | ⟨pid, data, -, hready⟩
        · rw [hnak]
          decide
        · rw [hready.2.1] at htx
          exact absurd (and_ofNat_add_four hready.1) htx
      exact (if_pos hrx).trans (if_neg (by simpa using hnak)).symm
    | sent _ _ htx =>
      obtain ⟨-, pid, -, hready⟩ := h.ready htx
      rw [hready]
      refine (if_pos hrx).trans (if_neg fun hack => ?_).symm
      have hlength := congrArg List.length (Option.some.inj hack)
      rw [length_dataPacket] at hlength
      cases hlength
  · rw [hdelivered]
    cases hreceived with
    | sent _ _ htx =>
      obtain ⟨hne, pid, hpid, hready⟩ := h.ready htx
      intro bytes hmem
      have hbytes := Option.some.inj (Option.mem_toList.mp (List.mem_of_mem_filter hmem))
      exact ⟨hne, pid, hpid, hbytes ▸ hready⟩
    | unready =>
      intro bytes hmem
      have hlength := List.of_mem_filter hmem
      have hbytes := Option.some.inj (Option.mem_toList.mp (List.mem_of_mem_filter hmem))
      rw [← hbytes] at hlength
      exact absurd hlength (by simp)
    | _ => exact List.forall_mem_nil _

/-- Every step of a write stage adds to the write what the device acknowledges. -/
theorem Writing.step (h : Writing v f d written) {e : UsbEvent} (hstage : d.WriteStage v e)
    (hstep : d.step e = .ok d') : ∃ written', Advance v f d d' e written written' := by
  have hfired (hfire : Writing v f d' written ∧ d'.waiting = d.waiting)
      (haccepted : d.accepted e = []) (hdelivered : d.delivered e = []) :
      Advance v f d d' e written written := by
    refine ⟨hfire.1, List.prefix_rfl, ?_, ?_⟩
    · rw [hfire.2, haccepted, List.append_nil]
    · rw [hdelivered]
      exact List.forall_mem_nil _
  cases e with
  | packet bytes =>
    cases hstep
    exact ⟨written, h.receive hstage bytes⟩
  | poll =>
    obtain ⟨d₁, hrx, htx⟩ := Except.bind_eq_ok_iff.mp hstep
    by_cases hzero : d.usbRxLen = 0
    · rw [UsbDriver.pollRx, if_neg (by omega)] at hrx
      cases hrx
      exact ⟨written, hfired (h.pollTx htx) rfl rfl⟩
    · obtain ⟨hwriting, hempty⟩ := h.pollRx hzero (hstage.resolve_left hzero) hrx
      obtain ⟨hwriting', hwaiting⟩ := hwriting.pollTx htx
      refine ⟨written ++ d.payload, hwriting', List.prefix_append _ _, ?_, List.forall_mem_nil _⟩
      rw [hwaiting, show d₁.waiting = [] from if_pos hempty, show d.waiting = d.payload from
        if_neg hzero]
      rfl
  | idle => exact ⟨written, hfired (h.fire rfl (fun hadc => by cases hadc) hstep) rfl rfl⟩
  | adc adch => exact ⟨written, hfired (h.fire rfl (fun _ => hstage) hstep) rfl rfl⟩
  | timer0 => exact ⟨written, hfired (h.fire rfl (fun hadc => by cases hadc) hstep) rfl rfl⟩
  | reset =>
    cases hstep
    obtain ⟨hphase, hrx, htx, hpid, hmsg⟩ := h.sound
    exact ⟨written, hfired ⟨⟨⟨hphase, hrx, htx, hpid, hmsg⟩, h.userRw, h.command, h.agree, h.msg,
      h.slot⟩, rfl⟩ rfl rfl⟩

theorem Writing.run {tr : List (UsbDriver × UsbEvent)} (h : Writing v f d written)
    (hrun : Run UsbDriver.step d tr d') (hstage : ∀ p ∈ tr, p.1.WriteStage v p.2) :
    ∃ written', Writing v f d' written' ∧ written <+: written' ∧
      written' ++ d'.waiting =
        written ++ d.waiting ++ tr.flatMap (fun p => p.1.accepted p.2) ∧
      ∀ p ∈ tr, ∀ bytes ∈ p.1.delivered p.2,
        written' ≠ [] ∧ ∃ pid, IsDataPid pid ∧ bytes = dataPacket pid [] := by
  induction hrun generalizing written with
  | nil => exact ⟨written, h, List.prefix_rfl, by simp, List.forall_mem_nil _⟩
  | cons head _ ih =>
    rw [List.forall_mem_cons] at hstage
    obtain ⟨written₁, hadvance⟩ := h.step hstage.1 head
    obtain ⟨written', hwriting, hle, hwaiting, hstatus⟩ := ih hadvance.writing hstage.2
    refine ⟨written', hwriting, hadvance.le.trans hle, ?_, List.forall_mem_cons.mpr ⟨?_, hstatus⟩⟩
    · rw [hwaiting, hadvance.waiting, List.flatMap_cons, List.append_assoc]
    · intro bytes hbytes
      obtain ⟨hne, hpacket⟩ := hadvance.status bytes hbytes
      refine ⟨fun hnil => hne ?_, hpacket⟩
      exact List.prefix_nil.mp (hnil ▸ hadvance.le.trans hle)

/-- The request itself writes nothing, and is answered with nothing. -/
theorem writing_poll (h : d.Sound) (hlen : d.usbRxLen = 11) (htoken : d.usbRxToken = USBPID_SETUP)
    (htype : d.request.bmRequestType &&& USBRQ_TYPE_MASK ≠ 0)
    (hdir : d.request.bmRequestType &&& USBRQ_DIR_MASK = 0)
    (hcommand : d.request.bRequest = v.writeCommand) (hpoll : d.poll = .ok d') :
    Writing v (d.firmware.usbFunctionSetup d.request.setup) d' [] ∧ d'.waiting = [] := by
  have hvector : IsVectorCommand d.request.setup.bRequest :=
    show IsVectorCommand d.request.bRequest from hcommand ▸ v.isVectorCommand_write
  have hfirmware := firmware_processSetup d d.request
  rw [if_pos htype] at hfirmware
  have hstate := Firmware.usbFunctionSetup_vector d.firmware hvector
  have houtbox := outbox_processSetup d d.request
  rw [reply, if_neg htype, if_pos (show IsVectorCommand d.request.bRequest from hvector),
    if_pos (.inl hdir)] at houtbox
  have hmsg : (d.processSetup d.request).usbMsgLen = USB_NO_MSG := by
    have hno : (d.aborted.functionSetup d.request).2 = USB_NO_MSG := by
      rcases setupLength_cases d.firmware d.request.setup with ⟨hlen, -⟩ | ⟨-, hnot, -⟩
      · exact hlen
      · exact absurd hvector hnot
    rw [processSetup_eq, if_pos htype, limited, if_pos hno]
    exact (if_neg (not_not.mpr hdir)).trans hno
  have hsetup := sound_processSetup h d.request
  rw [poll, UsbDriver.pollRx, if_pos (by omega), usbProcessRx, if_pos htoken,
    if_neg (by omega)] at hpoll
  change ({ d.processSetup d.request with usbRxLen := 0 } : UsbDriver).pollTx = .ok d' at hpoll
  have hwriting : Writing v (d.firmware.usbFunctionSetup d.request.setup)
      { d.processSetup d.request with usbRxLen := 0 } [] := by
    refine ⟨⟨hsetup.dataPhase, .inl rfl, hsetup.tx, hsetup.pid, hsetup.msg⟩, ?_, ?_, ?_, .inl hmsg,
      .inl (congrArg Outbox.slot houtbox)⟩
    · dsimp only
      rw [hfirmware, hstate]
    · dsimp only
      rw [hfirmware, hstate]
      exact hcommand
    · refine ⟨_, Firmware.usbFunctionWrite_nil _, ?_⟩
      dsimp only
      rw [hfirmware]
      exact ⟨rfl, rfl, rfl⟩
  obtain ⟨hwriting', hwaiting⟩ := hwriting.pollTx hpoll
  exact ⟨hwriting', hwaiting.trans (if_pos rfl)⟩

end

/-- What is written behind a request. -/
theorem written_of_setup {v : DataVector} {es : List (UsbDriver × UsbEvent)} {d d' : UsbDriver}
    (h : d.Sound) (hlen : d.usbRxLen = 11) (htoken : d.usbRxToken = USBPID_SETUP)
    (htype : d.request.bmRequestType &&& USBRQ_TYPE_MASK ≠ 0)
    (hdir : d.request.bmRequestType &&& USBRQ_DIR_MASK = 0)
    (hcommand : d.request.bRequest = v.writeCommand) (hwrite : Run step d ((d, .poll) :: es) d')
    (hstage : ∀ p ∈ es, p.1.WriteStage v p.2) :
    ∃ written, written ++ d'.waiting = (es.flatMap fun p => p.1.accepted p.2) ∧
      d'.firmware.bytes v =
        written.take v.size ++ (d.firmware.bytes v).drop written.length ∧
      ∀ p ∈ es, ∀ bytes ∈ p.1.delivered p.2,
        written ≠ [] ∧ ∃ pid, IsDataPid pid ∧ bytes = dataPacket pid [] := by
  cases hwrite with
  | cons head tail =>
    obtain ⟨hwriting, hempty⟩ := writing_poll h hlen htoken htype hdir hcommand head
    obtain ⟨written, ⟨-, -, -, ⟨g, hg, hagree⟩, -, -⟩, -, hwaiting, hstatus⟩ :=
      hwriting.run tail hstage
    rw [hempty, List.append_nil, List.nil_append] at hwaiting
    refine ⟨written, hwaiting, ?_, hstatus⟩
    have hvector : IsVectorCommand d.request.setup.bRequest :=
      show IsVectorCommand d.request.bRequest from hcommand ▸ v.isVectorCommand_write
    rw [Firmware.usbFunctionSetup_vector d.firmware hvector] at hg
    obtain ⟨g', hg', -, hbytes, -⟩ := Firmware.usbFunctionWrite_vector (v := v)
      (f := { d.firmware with
        ioBufferOffset := 0, command := d.request.setup.bRequest, userRw := true })
      hcommand rfl written
    rw [hg] at hg'
    cases hg'
    rw [hagree.bytes, hbytes]
    cases v <;> rfl

/-- Behind a request that writes a vector, the vector starts with the bytes that the device has
acknowledged, in order and each of them once, but for those that still wait for the main loop.
The host is sent nothing but empty packets, and none before something is written. -/
theorem run_writes (v : DataVector) {tr es : List (UsbDriver × UsbEvent)} {d d' : UsbDriver}
    (hrun : Run step init tr d) (hlen : d.usbRxLen = 11) (htoken : d.usbRxToken = USBPID_SETUP)
    (htype : d.request.bmRequestType &&& USBRQ_TYPE_MASK ≠ 0)
    (hdir : d.request.bmRequestType &&& USBRQ_DIR_MASK = 0)
    (hcommand : d.request.bRequest = v.writeCommand) (hwrite : Run step d ((d, .poll) :: es) d')
    (hstage : ∀ p ∈ es, p.1.WriteStage v p.2) :
    ∃ written, written ++ d'.waiting = (es.flatMap fun p => p.1.accepted p.2) ∧
      d'.firmware.bytes v =
        written.take v.size ++ (d.firmware.bytes v).drop written.length ∧
      ∀ p ∈ es, ∀ bytes ∈ p.1.delivered p.2,
        written ≠ [] ∧ ∃ pid, IsDataPid pid ∧ bytes = dataPacket pid [] :=
  written_of_setup (sound_of_run hrun) hlen htoken htype hdir hcommand hwrite hstage

/-- A request to write `sampleVector`. -/
def askWrite : List UsbEvent :=
  [.packet [USBPID_SETUP, 0, 0],
    .packet (dataPacket USBPID_DATA0 [0x40, PROTO_CMD_SAMPLE_VECTOR_WRITE, 0, 0, 0, 0, 2, 0])]

/-- Two bytes, and the status stage. -/
def sendSamples : List UsbEvent :=
  [.packet [USBPID_OUT, 0, 0], .packet (dataPacket USBPID_DATA1 [1, 2]), .poll,
    .packet [USBPID_IN, 0, 0]]

set_option maxRecDepth 2000 in
/-- The host writes the front of `sampleVector`. -/
theorem run_writes_sendSamples :
    ∃ d d', askWrite.foldlM step init = .ok d ∧ (.poll :: sendSamples).foldlM step d = .ok d' ∧
      d'.firmware.bytes .sampleVector = [1, 2, 0, 0, 0, 0, 0] := by
  obtain ⟨d, hd⟩ : ∃ d, askWrite.foldlM step init = .ok d := ⟨_, rfl⟩
  obtain ⟨d', hd'⟩ : ∃ d', (.poll :: sendSamples).foldlM step d = .ok d' := by
    cases hd
    exact ⟨_, rfl⟩
  have hrun := Run.of_foldlM hd'
  have hempty : d'.waiting = [] := by
    cases hd
    cases hd'
    rfl
  refine ⟨d, d', hd, hd', ?_⟩
  cases hd
  have hsetup : Run step init (trace step init askWrite) _ := Run.of_foldlM rfl
  obtain ⟨written, hwaiting, hbytes, -⟩ :=
    run_writes .sampleVector hsetup rfl rfl (by decide) (by decide) rfl hrun (by
      refine List.forall_mem_cons.mpr ⟨rfl, List.forall_mem_cons.mpr ⟨rfl, ?_⟩⟩
      refine List.forall_mem_cons.mpr ⟨.inr (by decide), List.forall_mem_cons.mpr ⟨rfl, ?_⟩⟩
      exact List.forall_mem_nil _)
  rw [hempty, List.append_nil] at hwaiting
  obtain rfl : written = [1, 2] := hwaiting
  exact hbytes

end UsbDriver

end RfidTool

import RfidTool.Firmware.Background
import RfidTool.Firmware.UsbSafety
import RfidTool.Firmware.Vectors
import RfidTool.Library.Outbox

/-!
# Control reads

The main loop prepares the packets of a reply and the interrupt handler of the bus sends them,
in whatever order the polls and the tokens of the host come. `outbox` is what the driver still
has to send, as an `Outbox` of packets, and every step of the driver is the operations `ops` on
it. So what the host receives behind a request is the front of `packets`, the reply cut into
blocks of eight bytes with alternating PIDs and a short one at the end.

`reply` says what the device answers to a request, without pointers and buffers.
-/

namespace RfidTool

/-- The PID of the packet behind the one with `pid`. -/
def nextPid (pid : UInt8) : UInt8 := pid ^^^ (USBPID_DATA0 ^^^ USBPID_DATA1)

/-- The packets of a message, the first one with the given PID. -/
def packets (pid : UInt8) (data : List UInt8) : List (List UInt8) :=
  if data.length < 8 then [dataPacket pid data]
  else dataPacket pid (data.take 8) :: packets (nextPid pid) (data.drop 8)
termination_by data.length

theorem packets_of_lt {data : List UInt8} (h : data.length < 8) (pid : UInt8) :
    packets pid data = [dataPacket pid data] := by
  rw [packets, if_pos h]

theorem packets_of_le {data : List UInt8} (h : 8 ≤ data.length) (pid : UInt8) :
    packets pid data =
      dataPacket pid (data.take 8) :: packets (nextPid pid) (data.drop 8) := by
  rw [packets, if_neg (Nat.not_lt.mpr h)]

instance (command : UInt8) : Decidable (IsVectorCommand command) :=
  inferInstanceAs (Decidable (_ ∨ _ ∨ _ ∨ _))

namespace Firmware

/-- The bytes that a read command reads. -/
def source (f : Firmware) : List UInt8 :=
  if f.command = PROTO_CMD_SAMPLE_VECTOR_READ then f.sampleVector.toList
  else if f.command = PROTO_CMD_PULSE_VECTOR_READ then f.ioBuffer.toList
  else []

/-- A read returns the next bytes of its source, and moves the offset behind them. -/
theorem usbFunctionRead_eq {f : Firmware} (hphase : f.DataPhase) (hrw : f.userRw) (len : ℕ) :
    ∃ offset : UInt8,
      f.usbFunctionRead len = .ok ({ f with ioBufferOffset := offset },
        (f.source.drop f.ioBufferOffset.toNat).take len) ∧
      f.source.drop offset.toNat = (f.source.drop f.ioBufferOffset.toNat).drop len := by
  have hle := hphase.offset hrw
  unfold source
  by_cases hsample : f.command = PROTO_CMD_SAMPLE_VECTOR_READ
  · have hsize : f.ioBufferOffset.toNat ≤ 7 := by
      rwa [show arraySize f.command = 7 by rw [hsample]; rfl] at hle
    obtain ⟨offset, hread, -, hrest⟩ :=
      usbFunctionRead_vector (v := .sampleVector) hsample hsize len
    rw [if_pos hsample]
    exact ⟨offset, hread, hrest⟩
  rw [if_neg hsample]
  by_cases hpulse : f.command = PROTO_CMD_PULSE_VECTOR_READ
  · have hsize : f.ioBufferOffset.toNat ≤ 192 := by
      rwa [show arraySize f.command = 192 by rw [hpulse]; rfl] at hle
    obtain ⟨offset, hread, -, hrest⟩ :=
      usbFunctionRead_vector (v := .ioBuffer) hpulse hsize len
    rw [if_pos hpulse]
    exact ⟨offset, hread, hrest⟩
  · rw [if_neg hpulse, usbFunctionRead, if_neg hsample, if_neg hpulse]
    exact ⟨f.ioBufferOffset, by simp, by simp⟩

/-- The answer to a command without a data stage of its own. -/
def answerTo (f : Firmware) (rq : SetupRequest) : List UInt8 :=
  if rq.bRequest = PROTO_CMD_COIL_ENABLE then []
  else if rq.bRequest = PROTO_CMD_GET_VERSION then [PROTO_RC_OK, 0, 1]
  else if rq.bRequest = PROTO_CMD_GET_BUFFER_SIZE then [PROTO_RC_OK, 4, 1, 0, 192, 0, 7]
  else if rq.bRequest = PROTO_CMD_RESET then [PROTO_RC_OK]
  else if rq.bRequest = PROTO_CMD_TRANSFER_START then [PROTO_RC_OK, f.id + 1]
  else if rq.bRequest = PROTO_CMD_TRANSFER_STATUS then f.transferStatus rq
  else [PROTO_RC_INVALID_CMD]

theorem take_response_respond (f : Firmware) (bytes : List UInt8) (h : bytes.length ≤ 7) :
    (f.respond bytes).response.toList.take bytes.length = bytes := by
  have hresponse : (f.respond bytes).response = overwrite f.response 0 bytes := by
    unfold respond overwrite
    simp only [Nat.zero_add]
  rw [hresponse, toList_overwrite _ _ _ (by omega), List.take_zero, List.nil_append,
    List.take_left]

/-- The response holds the answer, as long as the function says. -/
theorem take_response (f : Firmware) (rq : SetupRequest) (h : ¬IsVectorCommand rq.bRequest) :
    (f.usbFunctionSetup rq).response.toList.take (setupLength rq).toNat = f.answerTo rq ∧
      (f.answerTo rq).length = (setupLength rq).toNat := by
  unfold usbFunctionSetup setupLength answerTo
  extract_lets f'
  by_cases hcoil : rq.bRequest = PROTO_CMD_COIL_ENABLE
  · rw [if_pos hcoil, if_pos hcoil, if_pos hcoil]
    exact ⟨List.take_zero, rfl⟩
  rw [if_neg hcoil, if_neg hcoil, if_neg hcoil]
  by_cases hversion : rq.bRequest = PROTO_CMD_GET_VERSION
  · rw [if_pos hversion, if_pos hversion, if_pos hversion]
    exact ⟨take_response_respond f' [_, _, _] (show 3 ≤ 7 by decide), rfl⟩
  rw [if_neg hversion, if_neg hversion, if_neg hversion]
  by_cases hsize : rq.bRequest = PROTO_CMD_GET_BUFFER_SIZE
  · rw [if_pos hsize, if_pos hsize, if_pos hsize]
    exact ⟨take_response_respond f' [_, _, _, _, _, _, _] (show 7 ≤ 7 by decide), rfl⟩
  rw [if_neg hsize, if_neg hsize, if_neg hsize]
  by_cases hreset : rq.bRequest = PROTO_CMD_RESET
  · rw [if_pos hreset, if_pos hreset, if_pos hreset]
    exact ⟨take_response_respond _ [_] (show 1 ≤ 7 by decide), rfl⟩
  rw [if_neg hreset, if_neg hreset, if_neg hreset]
  by_cases hstart : rq.bRequest = PROTO_CMD_TRANSFER_START
  · rw [if_pos hstart, if_pos hstart, if_pos hstart]
    exact ⟨take_response_respond _ [_, _] (show 2 ≤ 7 by decide), rfl⟩
  rw [if_neg hstart, if_neg hstart, if_neg hstart]
  by_cases hstatus : rq.bRequest = PROTO_CMD_TRANSFER_STATUS
  · have hlength : (f.transferStatus rq).length = 4 := by
      unfold transferStatus
      split_ifs <;> rfl
    have htake := take_response_respond f' (f'.transferStatus rq) (by
      rw [show (f'.transferStatus rq).length = 4 from hlength]
      decide)
    rw [show (f'.transferStatus rq).length = 4 from hlength] at htake
    rw [if_pos hstatus, if_pos hstatus, if_pos hstatus]
    exact ⟨htake, hlength⟩
  rw [if_neg hstatus, if_neg hstatus, if_neg hstatus,
    if_neg (show ¬(_ ∨ _ ∨ _ ∨ _) from h), if_neg (show ¬(_ ∨ _ ∨ _ ∨ _) from h)]
  exact ⟨take_response_respond f' [_] (show 1 ≤ 7 by decide), rfl⟩

end Firmware

/-- What the host wants of an answer. A length of more than one byte is no limit. -/
def UsbRequest.cut (rq : UsbRequest) (data : List UInt8) : List UInt8 :=
  if rq.wLength.toNat < 256 then data.take rq.wLength.toNat else data

namespace UsbDriver

open Outbox (Op sender rounds)

/-! ## The outbox -/

/-- The bytes behind the one that the next packet starts with. -/
def unread (d : UsbDriver) : List UInt8 :=
  if d.firmware.userRw then d.firmware.source.drop d.firmware.ioBufferOffset.toNat
  else (d.memory d.usbMsgPtr.object).drop d.usbMsgPtr.offset

/-- The bytes of the message that are in no packet yet. -/
def remaining (d : UsbDriver) : List UInt8 := d.unread.take d.usbMsgLen.toNat

/-- The packets that are still to be sent. -/
def outbox (d : UsbDriver) : Outbox (List UInt8) where
  slot :=
    if d.usbTxLen &&& 0x10 = 0 then some (d.usbTxBuf.toList.take (d.usbTxLen.toNat - 1)) else none
  queue :=
    if d.usbMsgLen = USB_NO_MSG then [] else packets (nextPid (firstByte d.usbTxBuf)) d.remaining

/-- What a step does to the outbox. -/
def ops (d : UsbDriver) : UsbEvent → List Op
  | .packet bytes => if d.usbRxLen = 0 ∧ d.isIn bytes then [.take] else []
  | .poll => [.fill]
  | _ => []

/-- The data packet that is sent in a step. -/
def delivered (d : UsbDriver) (e : UsbEvent) : List (List UInt8) :=
  (d.answer e).toList.filter fun bytes => decide (3 ≤ bytes.length)

/-- The main loop processes no packet, and the firmware does not sample into the buffer that is
read. -/
def Undisturbed (d : UsbDriver) : UsbEvent → Prop
  | .poll => d.usbRxLen = 0
  | .adc _ => ¬(d.firmware.userRw ∧ d.firmware.command = PROTO_CMD_PULSE_VECTOR_READ)
  | _ => True

theorem toNat_wantLen (d : UsbDriver) : d.wantLen.toNat = min d.usbMsgLen.toNat 8 := by
  unfold wantLen
  split_ifs with h
  · rw [gt_iff_lt, UInt8.lt_iff_toNat_lt] at h
    exact (Nat.min_eq_right (Nat.le_of_lt h)).symm
  · rw [UInt8.not_lt, UInt8.le_iff_toNat_le] at h
    exact (Nat.min_eq_left h).symm

/-- A fetch takes the next bytes. -/
theorem Fetched.unread {d : UsbDriver} {len : ℕ} {firmware : Firmware} {ptr : MsgPtr}
    {data : List UInt8} (h : d.Fetched len firmware ptr data) (hphase : d.firmware.DataPhase) :
    data = d.unread.take len ∧
      ({ d with firmware, usbMsgPtr := ptr } : UsbDriver).unread = d.unread.drop len := by
  cases h with
  | none hlen =>
    rw [hlen]
    exact ⟨List.take_zero.symm, rfl⟩
  | user hlen hrw hread =>
    obtain ⟨offset, hread', hrest⟩ := Firmware.usbFunctionRead_eq hphase hrw len
    rw [hread'] at hread
    cases hread
    have hunread : d.unread = d.firmware.source.drop d.firmware.ioBufferOffset.toNat := if_pos hrw
    rw [hunread, ← hrest]
    exact ⟨rfl, if_pos hrw⟩
  | message hlen hrw hpoints =>
    have hunread : d.unread = (d.memory d.usbMsgPtr.object).drop d.usbMsgPtr.offset :=
      if_neg (by simp [hrw])
    rw [hunread, List.drop_drop]
    exact ⟨rfl, if_neg (by simp [hrw])⟩

theorem Fetched.object {d : UsbDriver} {len : ℕ} {firmware : Firmware} {ptr : MsgPtr}
    {data : List UInt8} (h : d.Fetched len firmware ptr data) :
    ptr.object = d.usbMsgPtr.object := by
  cases h <;> rfl

/-- A message that is longer than the default reply does not lie in the buffer of the
transmitter. -/
theorem object_ne_dataPtr {d : UsbDriver} (hrw : d.firmware.userRw = false)
    (h : 2 < d.unread.length) : d.usbMsgPtr.object ≠ .dataPtr := by
  intro hobject
  rw [unread, if_neg (by simp [hrw]), List.length_drop, length_memory, hobject] at h
  change 2 < 2 - _ at h
  omega

theorem unread_usbTxBuf {d : UsbDriver} (usbTxBuf : Vector UInt8 11)
    (h : d.firmware.userRw = false → d.usbMsgPtr.object ≠ .dataPtr) :
    ({ d with usbTxBuf } : UsbDriver).unread = d.unread := by
  unfold unread
  by_cases hrw : d.firmware.userRw = true
  · rw [if_pos hrw, if_pos hrw]
  · rw [if_neg hrw, if_neg hrw]
    have hobject := h (Bool.not_eq_true _ ▸ hrw)
    dsimp only
    generalize d.usbMsgPtr = ptr at hobject
    obtain ⟨object, offset⟩ := ptr
    cases object with
    | dataPtr => exact absurd rfl hobject
    | _ => rfl

/-- The packet that is built goes from the queue into the slot. -/
theorem outbox_usbBuildTxBlock {d d' : UsbDriver} (h : d.Sound)
    (htx : d.usbTxLen &&& 0x10 ≠ 0) (hmsg : d.usbMsgLen ≠ USB_NO_MSG)
    (hbuild : d.usbBuildTxBlock = .ok d') : d'.outbox = d.outbox.fill := by
  obtain ⟨firmware, ptr, data, hbuild', hfetched, hlength⟩ := usbBuildTxBlock_eq h hmsg
  rw [hbuild] at hbuild'
  cases hbuild'
  obtain ⟨hdata, hrest⟩ := hfetched.unread h.dataPhase
  have hshort : data.length ≤ 8 := Nat.le_trans hlength d.wantLen_le.1
  have hremaining : data = d.remaining.take 8 := by
    rw [hdata, toNat_wantLen, remaining, List.take_take, Nat.min_comm]
  have hslot : (overwrite d.toggled.usbTxBuf 1 (UsbCrc16.usbCrc16Append data)).toList.take
      ((UInt8.ofNat (data.length + 4)).toNat - 1) =
        dataPacket (nextPid (firstByte d.usbTxBuf)) data := by
    have hall : ∀ n ≤ 8, (UInt8.ofNat (n + 4)).toNat - 1 = n + 3 := by decide
    rw [hall _ hshort]
    exact take_overwrite d hshort
  have hpid : firstByte (overwrite d.toggled.usbTxBuf 1 (UsbCrc16.usbCrc16Append data)) =
      nextPid (firstByte d.usbTxBuf) := by
    rw [firstByte_overwrite _ (by decide) (by rw [UsbCrc16.length_usbCrc16Append]; omega)]
    exact Vector.getElem_set_self _
  have houtbox : d.outbox = ⟨none, packets (nextPid (firstByte d.usbTxBuf)) d.remaining⟩ := by
    unfold outbox
    rw [if_neg htx, if_neg hmsg]
  rw [houtbox]
  unfold outbox
  dsimp only
  rw [if_pos (and_ofNat_add_four hshort), hslot, hpid]
  rcases Nat.lt_or_ge d.remaining.length 8 with hlast | hfull
  · have hall : data = d.remaining := by
      rw [hremaining, List.take_of_length_le (Nat.le_of_lt hlast)]
    have hend : data.length + 4 < 12 := by
      rw [hall]
      omega
    rw [if_pos hend, if_pos rfl, packets_of_lt hlast, Outbox.fill_cons, hall]
  · have hlen : data.length = 8 := by
      rw [hremaining, List.length_take]
      omega
    have hmin : 8 ≤ d.usbMsgLen.toNat :=
      Nat.le_trans hfull (List.length_take_le _ _)
    have hwant : d.wantLen.toNat = 8 := by
      rw [toNat_wantLen]
      omega
    have hleft : (d.usbMsgLen - d.wantLen).toNat = d.usbMsgLen.toNat - 8 := by
      rw [UInt8.toNat_sub_of_le _ _ (UInt8.le_iff_toNat_le.mpr d.wantLen_le.2), hwant]
    have hne : d.usbMsgLen - d.wantLen ≠ USB_NO_MSG := by
      intro heq
      have hlt := d.usbMsgLen.toNat_lt
      rw [heq] at hleft
      change 255 = _ at hleft
      omega
    have hrw := (hfetched.firmware h.dataPhase).2
    have hobject : firmware.userRw = false → ptr.object ≠ .dataPtr := by
      intro hnot
      have hlong : 8 ≤ d.unread.length := Nat.le_trans hfull (List.length_take_le' _ _)
      rw [hfetched.object]
      exact object_ne_dataPtr (hrw.symm.trans hnot) (by omega)
    have hunread := unread_usbTxBuf (d := { d with firmware, usbMsgPtr := ptr })
      (overwrite d.toggled.usbTxBuf 1 (UsbCrc16.usbCrc16Append data)) hobject
    rw [hrest, hwant] at hunread
    have hnext : d.remaining.drop 8 =
        ({ d with
          firmware, usbMsgPtr := ptr
          usbTxBuf := overwrite d.toggled.usbTxBuf 1 (UsbCrc16.usbCrc16Append data) } :
            UsbDriver).unread.take (d.usbMsgLen - d.wantLen).toNat := by
      rw [hunread, hleft, remaining, List.drop_take]
    rw [if_neg (show ¬data.length + 4 < 12 by omega), if_neg hne, packets_of_le hfull,
      Outbox.fill_cons, ← hremaining, hnext]
    rfl

/-- The second part of a poll fills the slot. -/
theorem outbox_pollTx {d d' : UsbDriver} (h : d.Sound) (hpoll : d.pollTx = .ok d') :
    d'.outbox = d.outbox.fill := by
  unfold pollTx at hpoll
  split_ifs at hpoll with hidle
  · exact outbox_usbBuildTxBlock h hidle.1 hidle.2 hpoll
  · cases hpoll
    unfold outbox
    by_cases htx : d.usbTxLen &&& 0x10 = 0
    · rw [if_pos htx, Outbox.fill_of_some]
    · have hmsg : d.usbMsgLen = USB_NO_MSG := by
        by_contra hne
        exact hidle ⟨htx, hne⟩
      rw [if_neg htx, if_pos hmsg, Outbox.fill_nil]

/-- A poll without a received packet fills the slot. -/
theorem outbox_poll {d d' : UsbDriver} (h : d.Sound) (hrx : d.usbRxLen = 0)
    (hpoll : d.poll = .ok d') : d'.outbox = d.outbox.fill := by
  rw [poll, pollRx, if_neg (by omega)] at hpoll
  change d.pollTx = .ok d' at hpoll
  exact outbox_pollTx h hpoll

/-- A packet takes the one in the slot, if it asks for it. -/
theorem outbox_receive {d : UsbDriver} (h : d.Sound) (packet : List UInt8) :
    sender.final d.outbox (d.ops (.packet packet)) = (d.receive packet).1.outbox ∧
      sender.output d.outbox (d.ops (.packet packet)) = d.delivered (.packet packet) := by
  have hreceived := d.received packet
  have hops : d.ops (.packet packet) = if d.usbRxLen = 0 ∧ d.isIn packet then [.take] else [] := rfl
  have hsent : d.delivered (.packet packet) =
      (d.receive packet).2.toList.filter fun bytes => decide (3 ≤ bytes.length) := rfl
  rw [hops, hsent]
  generalize (d.receive packet).1 = d', (d.receive packet).2 = reply at hreceived
  cases hreceived with
  | unready hin hrx htx =>
    have hslot : d.outbox.slot = none := if_neg htx
    rw [if_pos ⟨hrx, hin⟩, Transducer.final_cons, Transducer.output_cons, Outbox.step_take, hslot]
    refine ⟨?_, rfl⟩
    rw [Transducer.final_nil, ← hslot]
    rfl
  | sent hin hrx htx =>
    have hslot : d.outbox.slot = some (d.usbTxBuf.toList.take (d.usbTxLen.toNat - 1)) := if_pos htx
    have hempty : (if USBPID_NAK &&& 0x10 = 0 then
        some (d.usbTxBuf.toList.take (USBPID_NAK.toNat - 1)) else none) = none :=
      if_neg (by decide)
    rw [if_pos ⟨hrx, hin⟩, Transducer.final_cons, Transducer.output_cons, Outbox.step_take, hslot]
    refine ⟨congrArg (Outbox.mk · d.outbox.queue) hempty.symm, ?_⟩
    rcases h.tx with hnak | ⟨pid, data, -, hready⟩
    · rw [hnak] at htx
      exact absurd htx (by decide)
    · have hlength : 3 ≤ (dataPacket pid data).length := by
        rw [length_dataPacket]
        omega
      rw [hready.take_eq, Option.toList_some, List.filter_cons_of_pos (by simpa using hlength)]
      rfl
  | busy hrx =>
    rw [if_neg fun hyes => hrx hyes.1]
    exact ⟨rfl, rfl⟩
  | ignored hin =>
    rw [if_neg fun hyes => by simp [hin] at hyes]
    exact ⟨rfl, rfl⟩
  | status hin =>
    rw [if_neg fun hyes => by simp [hin] at hyes]
    exact ⟨rfl, rfl⟩
  | stored hin =>
    rw [if_neg fun hyes => by simp [hin] at hyes]
    exact ⟨rfl, rfl⟩

/-- The main loop and the handlers leave the outbox alone. -/
theorem outbox_fire {d d' : UsbDriver} {e : Event} (he : e.isBackground)
    (hquiet : e.isAdc → ¬(d.firmware.userRw ∧ d.firmware.command = PROTO_CMD_PULSE_VECTOR_READ))
    (hfire : d.fire e = .ok d') : d'.outbox = d.outbox := by
  obtain ⟨firmware, hstep, hd'⟩ := Except.bind_eq_ok_iff.mp hfire
  cases hd'
  obtain ⟨⟨husb, hresponse, hsample⟩, hbuffer⟩ := Firmware.kept_of_step he hstep
  simp only [Firmware.usb, Prod.mk.injEq] at husb
  obtain ⟨hcommand, hoffset, hrw⟩ := husb
  have hunread : ({ d with firmware } : UsbDriver).unread = d.unread := by
    unfold unread
    dsimp only
    rw [hrw, hoffset]
    by_cases huser : d.firmware.userRw = true
    · rw [if_pos huser, if_pos huser]
      unfold Firmware.source
      rw [hcommand, hsample]
      by_cases hpulse : d.firmware.command = PROTO_CMD_PULSE_VECTOR_READ
      · rw [hbuffer (by simpa using fun hadc => hquiet hadc ⟨huser, hpulse⟩)]
      · rw [if_neg hpulse, if_neg hpulse]
    · rw [if_neg huser, if_neg huser]
      congr 1
      cases d.usbMsgPtr.object with
      | response => exact congrArg Vector.toList hresponse
      | _ => rfl
  unfold outbox remaining
  rw [hunread]

/-- Every step of the driver is its operations on the outbox. -/
theorem outbox_step {d d' : UsbDriver} {e : UsbEvent} (h : d.Sound) (hquiet : d.Undisturbed e)
    (hstep : d.step e = .ok d') :
    sender.final d.outbox (d.ops e) = d'.outbox ∧
      sender.output d.outbox (d.ops e) = d.delivered e := by
  cases e with
  | packet bytes =>
    cases hstep
    exact outbox_receive h bytes
  | poll => exact ⟨(outbox_poll h hquiet hstep).symm, rfl⟩
  | idle => exact ⟨(outbox_fire rfl (fun hadc => by cases hadc) hstep).symm, rfl⟩
  | adc adch => exact ⟨(outbox_fire rfl (fun _ => hquiet) hstep).symm, rfl⟩
  | timer0 => exact ⟨(outbox_fire rfl (fun hadc => by cases hadc) hstep).symm, rfl⟩
  | reset =>
    cases hstep
    exact ⟨rfl, rfl⟩

theorem outbox_run {d d' : UsbDriver} {tr : List (UsbDriver × UsbEvent)} (h : d.Sound)
    (hrun : Run step d tr d') (hquiet : ∀ p ∈ tr, p.1.Undisturbed p.2) :
    sender.final d.outbox (tr.flatMap fun p => p.1.ops p.2) = d'.outbox ∧
      sender.output d.outbox (tr.flatMap fun p => p.1.ops p.2) =
        tr.flatMap fun p => p.1.delivered p.2 := by
  induction hrun with
  | nil => exact ⟨rfl, rfl⟩
  | cons head _ ih =>
    rw [List.forall_mem_cons] at hquiet
    obtain ⟨hfinal, hsent⟩ := outbox_step h hquiet.1 head
    obtain ⟨hfinal', hsent'⟩ := ih (sound_step h head).1 hquiet.2
    rw [List.flatMap_cons, List.flatMap_cons, Transducer.final_append, Transducer.output_append,
      hfinal, hsent, hsent']
    exact ⟨hfinal', rfl⟩

/-! ## Replies -/

/-- The descriptor that the host asks for. -/
def descriptor (rq : UsbRequest) : List UInt8 :=
  if (rq.wValue >>> 8).toUInt8 = USBDESCR_DEVICE then usbDescriptorDevice
  else if (rq.wValue >>> 8).toUInt8 = USBDESCR_CONFIG then usbDescriptorConfiguration
  else if (rq.wValue >>> 8).toUInt8 = USBDESCR_STRING then
    if rq.wValue.toUInt8 = 0 then usbDescriptorString0
    else if rq.wValue.toUInt8 = 2 then usbDescriptorStringDevice
    else []
  else []

/-- The answer to a standard request. -/
def standardReply (d : UsbDriver) (rq : UsbRequest) : List UInt8 :=
  if rq.bRequest = USBRQ_GET_STATUS then [0, 0]
  else if rq.bRequest = USBRQ_GET_DESCRIPTOR then descriptor rq
  else if rq.bRequest = USBRQ_GET_CONFIGURATION then [d.usbConfiguration]
  else if rq.bRequest = USBRQ_GET_INTERFACE then [0]
  else []

/-- The answer to a request, if there is one: what the host asks for of a vector, or the
response, no longer than the host wants it. -/
def reply (d : UsbDriver) (rq : UsbRequest) : Option (List UInt8) :=
  if rq.bmRequestType &&& USBRQ_TYPE_MASK = 0 then some (rq.cut (d.standardReply rq))
  else if IsVectorCommand rq.bRequest then
    if rq.bmRequestType &&& USBRQ_DIR_MASK = 0 ∨ rq.wLength.toNat % 256 = 255 then none
    else some ((Firmware.source { d.firmware with command := rq.bRequest }).take
      (rq.wLength.toNat % 256))
  else some (rq.cut (d.firmware.answerTo rq.setup))

/-- The outbox of a driver that has processed a request. -/
def prepared : Option (List UInt8) → Outbox (List UInt8)
  | none => ⟨none, []⟩
  | some data => ⟨none, packets USBPID_DATA1 data⟩

theorem ofNat_of_shiftRight {x : UInt16} (h : x >>> 8 = 0) :
    x.toNat < 256 ∧ x.toUInt8.toNat = x.toNat := by
  have hzero := congrArg UInt16.toNat h
  rw [UInt16.toNat_shiftRight] at hzero
  simp only [UInt16.reduceToNat, Nat.reduceMod, Nat.shiftRight_eq_div_pow] at hzero
  refine ⟨by omega, ?_⟩
  rw [UInt16.toNat_toUInt8]
  omega

/-- The length of the message is the one of the reply, cut to what the host wants. -/
theorem outbox_limited {d : UsbDriver} {rq : UsbRequest} {replyLen : UInt8}
    (hno : replyLen ≠ USB_NO_MSG) (htx : d.usbTxLen = USBPID_NAK)
    (hpid : firstByte d.usbTxBuf = USBPID_DATA0) {data : List UInt8}
    (hdata : d.unread.take replyLen.toNat = data) (hlength : data.length = replyLen.toNat) :
    (d.limited rq replyLen).outbox = prepared (some (rq.cut data)) := by
  have hslot : ¬USBPID_NAK &&& 0x10 = 0 := by decide
  have hnext : nextPid USBPID_DATA0 = USBPID_DATA1 := by decide
  unfold limited
  rw [if_neg hno]
  by_cases hcut : rq.wLength >>> 8 = 0 ∧ replyLen > rq.wLength.toUInt8
  · obtain ⟨hsmall, hwant⟩ := ofNat_of_shiftRight hcut.1
    have hlt := UInt8.lt_iff_toNat_lt.mp hcut.2
    have hne : rq.wLength.toUInt8 ≠ USB_NO_MSG := by
      intro heq
      have hmax := replyLen.toNat_lt
      rw [heq] at hlt
      change 255 < _ at hlt
      omega
    have hmessage : d.unread.take rq.wLength.toUInt8.toNat = rq.cut data := by
      rw [UsbRequest.cut, if_pos hsmall, ← hdata, List.take_take, hwant, Nat.min_eq_left]
      omega
    rw [if_pos hcut]
    change (Outbox.mk (ite (d.usbTxLen &&& 0x10 = 0) _ _)
      (ite (rq.wLength.toUInt8 = USB_NO_MSG) []
        (packets (nextPid (firstByte d.usbTxBuf)) (d.unread.take rq.wLength.toUInt8.toNat)))) = _
    rw [htx, if_neg hslot, if_neg hne, hpid, hnext, hmessage]
    rfl
  · have hmessage : rq.cut data = data := by
      rw [UsbRequest.cut]
      split_ifs with hsmall
      · have hzero : rq.wLength >>> 8 = 0 := by
          rw [← UInt16.toNat_inj, UInt16.toNat_shiftRight]
          simp only [UInt16.reduceToNat, Nat.reduceMod, Nat.shiftRight_eq_div_pow]
          omega
        have hle : ¬replyLen > rq.wLength.toUInt8 := fun hgt => hcut ⟨hzero, hgt⟩
        rw [gt_iff_lt, UInt8.lt_iff_toNat_lt, (ofNat_of_shiftRight hzero).2] at hle
        exact List.take_of_length_le (by omega)
      · rfl
    rw [if_neg hcut]
    change (Outbox.mk (ite (d.usbTxLen &&& 0x10 = 0) _ _)
      (ite (replyLen = USB_NO_MSG) []
        (packets (nextPid (firstByte d.usbTxBuf)) (d.unread.take replyLen.toNat)))) = _
    rw [htx, if_neg hslot, if_neg hno, hpid, hnext, hdata, hmessage]
    rfl

/-- A data stage that the firmware handles itself. -/
theorem outbox_limited_vector {d : UsbDriver} {rq : UsbRequest} (htx : d.usbTxLen = USBPID_NAK)
    (hpid : firstByte d.usbTxBuf = USBPID_DATA0) (hrw : d.firmware.userRw = true)
    (hoffset : d.firmware.ioBufferOffset = 0) :
    (d.limited rq USB_NO_MSG).outbox =
      prepared (if rq.bmRequestType &&& USBRQ_DIR_MASK = 0 ∨ rq.wLength.toNat % 256 = 255 then none
        else some (d.firmware.source.take (rq.wLength.toNat % 256))) := by
  have hslot : ¬USBPID_NAK &&& 0x10 = 0 := by decide
  have hnext : nextPid USBPID_DATA0 = USBPID_DATA1 := by decide
  have hwant : rq.wLength.toUInt8.toNat = rq.wLength.toNat % 256 := UInt16.toNat_toUInt8 _
  have hno : rq.wLength.toUInt8 = USB_NO_MSG ↔ rq.wLength.toNat % 256 = 255 := by
    rw [← UInt8.toNat_inj, hwant]
    rfl
  have hsame : ({ d.firmware with userRw := true } : Firmware) = d.firmware := by
    rw [← hrw]
  have hunread : d.unread = d.firmware.source := by
    rw [unread, if_pos hrw, hoffset, UInt8.toNat_zero, List.drop_zero]
  unfold limited
  rw [if_pos rfl, hsame]
  change (Outbox.mk (ite (d.usbTxLen &&& 0x10 = 0) _ _)
    (ite (ite (rq.bmRequestType &&& USBRQ_DIR_MASK ≠ 0) rq.wLength.toUInt8 USB_NO_MSG =
        USB_NO_MSG) []
      (packets (nextPid (firstByte d.usbTxBuf))
        (d.unread.take (ite (rq.bmRequestType &&& USBRQ_DIR_MASK ≠ 0)
          rq.wLength.toUInt8 USB_NO_MSG).toNat)))) = _
  rw [htx, if_neg hslot, hpid, hnext, hunread]
  by_cases hdir : rq.bmRequestType &&& USBRQ_DIR_MASK = 0
  · rw [if_neg (not_not.mpr hdir), if_pos rfl, if_pos (.inl hdir)]
    rfl
  rw [if_pos hdir]
  by_cases hlength : rq.wLength.toUInt8 = USB_NO_MSG
  · rw [if_pos hlength, if_pos (.inr (hno.mp hlength))]
    rfl
  · rw [if_neg hlength, if_neg (by rw [← hno]; tauto), hwant]
    rfl

theorem unread_message {d : UsbDriver} (h : d.firmware.userRw = false) :
    d.unread = (d.memory d.usbMsgPtr.object).drop d.usbMsgPtr.offset := if_neg (by simp [h])

theorem take_message {d : UsbDriver} (h : d.firmware.userRw = false) {len : UInt8}
    {data : List UInt8}
    (hdata : ((d.memory d.usbMsgPtr.object).drop d.usbMsgPtr.offset).take len.toNat = data) :
    d.unread.take len.toNat = data := by
  rw [unread_message h, hdata]

/-- The default reply at the end of the buffer of the transmitter. -/
theorem drop_usbTxBuf (usbTxBuf : Vector UInt8 11) (h9 : 9 < 11) (h10 : 10 < 11) :
    ((usbTxBuf.set 9 0 h9).toList.drop 9).take 1 = [0] ∧
      ((usbTxBuf.set 9 0 h9).set 10 0 h10).toList.drop 9 = [0, 0] := by
  have hlength : usbTxBuf.toList.length = 11 := usbTxBuf.length_toList
  simp only [Vector.toList_set]
  generalize usbTxBuf.toList = bytes at hlength
  match bytes, hlength with
  | [_, _, _, _, _, _, _, _, _, _, _], _ => exact ⟨rfl, rfl⟩

theorem take_descriptor {d : UsbDriver} (h : d.firmware.userRw = false) (rq : UsbRequest) :
    (d.usbDriverDescriptor rq).1.unread.take (d.usbDriverDescriptor rq).2.toNat = descriptor rq ∧
      (descriptor rq).length = (d.usbDriverDescriptor rq).2.toNat := by
  unfold usbDriverDescriptor descriptor
  dsimp only
  by_cases hdevice : (rq.wValue >>> 8).toUInt8 = USBDESCR_DEVICE
  · rw [if_pos hdevice, if_pos hdevice]
    exact ⟨take_message (by exact h) rfl, rfl⟩
  rw [if_neg hdevice, if_neg hdevice]
  by_cases hconfig : (rq.wValue >>> 8).toUInt8 = USBDESCR_CONFIG
  · rw [if_pos hconfig, if_pos hconfig]
    exact ⟨take_message (by exact h) rfl, rfl⟩
  rw [if_neg hconfig, if_neg hconfig]
  by_cases hstring : (rq.wValue >>> 8).toUInt8 = USBDESCR_STRING
  · rw [if_pos hstring, if_pos hstring]
    by_cases hlanguage : rq.wValue.toUInt8 = 0
    · rw [if_pos hlanguage, if_pos hlanguage]
      exact ⟨take_message (by exact h) rfl, rfl⟩
    rw [if_neg hlanguage, if_neg hlanguage]
    by_cases hproduct : rq.wValue.toUInt8 = 2
    · rw [if_pos hproduct, if_pos hproduct]
      exact ⟨take_message (by exact h) rfl, rfl⟩
    rw [if_neg hproduct, if_neg hproduct]
    exact ⟨List.take_zero, rfl⟩
  rw [if_neg hstring, if_neg hstring]
  exact ⟨List.take_zero, rfl⟩

/-- The message of a standard request. -/
theorem take_standardReply {d : UsbDriver} (h : d.firmware.userRw = false) (rq : UsbRequest) :
    (d.usbDriverSetup rq).1.unread.take (d.usbDriverSetup rq).2.toNat = d.standardReply rq ∧
      (d.standardReply rq).length = (d.usbDriverSetup rq).2.toNat := by
  obtain ⟨hone, htwo⟩ := drop_usbTxBuf d.usbTxBuf (by decide) (by decide)
  unfold usbDriverSetup standardReply
  dsimp only
  by_cases hstatus : rq.bRequest = USBRQ_GET_STATUS
  · rw [if_pos hstatus, if_pos hstatus]
    refine ⟨take_message (by exact h) ?_, rfl⟩
    change (((d.usbTxBuf.set 9 0).set 10 0).toList.drop 9).take 2 = _
    rw [htwo]
    rfl
  rw [if_neg hstatus, if_neg hstatus]
  by_cases haddress : rq.bRequest = USBRQ_SET_ADDRESS
  · rw [if_pos haddress, haddress]
    exact ⟨List.take_zero, rfl⟩
  rw [if_neg haddress]
  by_cases hdescriptor : rq.bRequest = USBRQ_GET_DESCRIPTOR
  · rw [if_pos hdescriptor, if_pos hdescriptor]
    exact take_descriptor (d := { d with usbTxBuf := d.usbTxBuf.set 9 0 }) h rq
  rw [if_neg hdescriptor, if_neg hdescriptor]
  by_cases hgetConfiguration : rq.bRequest = USBRQ_GET_CONFIGURATION
  · rw [if_pos hgetConfiguration, if_pos hgetConfiguration]
    exact ⟨take_message (by exact h) rfl, rfl⟩
  rw [if_neg hgetConfiguration, if_neg hgetConfiguration]
  by_cases hsetConfiguration : rq.bRequest = USBRQ_SET_CONFIGURATION
  · rw [if_pos hsetConfiguration, hsetConfiguration]
    exact ⟨List.take_zero, rfl⟩
  rw [if_neg hsetConfiguration]
  by_cases hinterface : rq.bRequest = USBRQ_GET_INTERFACE
  · rw [if_pos hinterface, if_pos hinterface]
    exact ⟨take_message (by exact h) hone, rfl⟩
  rw [if_neg hinterface, if_neg hinterface]
  exact ⟨List.take_zero, rfl⟩

/-- Behind a request the outbox holds the reply. -/
theorem outbox_processSetup (d : UsbDriver) (rq : UsbRequest) :
    (d.processSetup rq).outbox = prepared (d.reply rq) := by
  have hpid : firstByte (d.usbTxBuf.set 0 USBPID_DATA0) = USBPID_DATA0 := Vector.getElem_set_self _
  rw [processSetup_eq, reply]
  by_cases htype : rq.bmRequestType &&& USBRQ_TYPE_MASK = 0
  · rw [if_neg (not_not.mpr htype), if_pos htype]
    obtain ⟨hframe, hbuf, hshort, -⟩ := prepared_usbDriverSetup d.aborted rq rfl
    obtain ⟨htake, hlength⟩ := take_standardReply (d := d.aborted) rfl rq
    refine outbox_limited ?_ ?_ (hbuf.trans hpid) htake hlength
    · intro hno
      rw [hno] at hshort
      exact absurd hshort (by decide)
    · rw [hframe]
      rfl
  rw [if_pos htype, if_neg htype]
  rcases setupLength_cases d.aborted.firmware rq.setup with ⟨hlen, hvector, -⟩ | ⟨hle, hnot, hrw⟩
  · have hfirmware : (d.aborted.functionSetup rq).1.firmware =
        { d.firmware with ioBufferOffset := 0, command := rq.bRequest, userRw := true } :=
      Firmware.usbFunctionSetup_vector d.aborted.firmware hvector
    have hsource : Firmware.source (d.aborted.functionSetup rq).1.firmware =
        Firmware.source { d.firmware with command := rq.bRequest } := by
      rw [hfirmware]
      rfl
    rw [if_pos (show IsVectorCommand rq.bRequest from hvector), ← hsource,
      show (d.aborted.functionSetup rq).2 = USB_NO_MSG from hlen]
    exact outbox_limited_vector rfl hpid (by rw [hfirmware]) (by rw [hfirmware])
  · rw [if_neg (show ¬IsVectorCommand rq.bRequest from hnot)]
    obtain ⟨htake, hlength⟩ := Firmware.take_response d.aborted.firmware rq.setup hnot
    refine outbox_limited ?_ rfl hpid ?_ hlength
    · intro hno
      rw [show Firmware.setupLength rq.setup = USB_NO_MSG from hno] at hle
      exact absurd hle (by decide)
    · rw [unread_message hrw]
      by_cases hzero : Firmware.setupLength rq.setup = 0
      · rw [hzero] at hlength
        have hempty : d.firmware.answerTo rq.setup = [] := List.length_eq_zero_iff.mp hlength
        rw [show (d.aborted.functionSetup rq).2 = 0 from hzero, hempty]
        exact List.take_zero
      · rw [show (d.aborted.functionSetup rq).1.usbMsgPtr = ⟨.response, 0⟩ from if_pos hzero]
        exact htake

/-! ## Reading -/

/-- The first part of a poll that processes a request. -/
theorem pollTx_of_setup {d d' : UsbDriver} (h : d.Sound) (hlen : d.usbRxLen = 11)
    (htoken : d.usbRxToken = USBPID_SETUP) (hpoll : d.poll = .ok d') :
    ({ d.processSetup d.request with usbRxLen := 0 } : UsbDriver).Sound ∧
      ({ d.processSetup d.request with usbRxLen := 0 } : UsbDriver).pollTx = .ok d' := by
  rw [poll, pollRx, if_pos (by omega), usbProcessRx, if_pos htoken, if_neg (by omega)] at hpoll
  have hsetup := sound_processSetup h d.request
  exact ⟨⟨hsetup.dataPhase, .inl rfl, hsetup.tx, hsetup.pid, hsetup.msg⟩, hpoll⟩

/-- A poll that processes a request. -/
theorem outbox_poll_setup {d d' : UsbDriver} (h : d.Sound) (hlen : d.usbRxLen = 11)
    (htoken : d.usbRxToken = USBPID_SETUP) (hpoll : d.poll = .ok d') :
    d'.outbox = (prepared (d.reply d.request)).fill := by
  obtain ⟨hsound, htx⟩ := pollTx_of_setup h hlen htoken hpoll
  rw [outbox_pollTx hsound htx, ← outbox_processSetup]
  rfl

/-- What is sent behind a request. -/
theorem delivered_of_setup {es : List (UsbDriver × UsbEvent)} {d d' : UsbDriver} (h : d.Sound)
    (hlen : d.usbRxLen = 11) (htoken : d.usbRxToken = USBPID_SETUP)
    (hread : Run step d ((d, .poll) :: es) d') (hquiet : ∀ p ∈ es, p.1.Undisturbed p.2) :
    (es.flatMap fun p => p.1.delivered p.2) =
      ((d.reply d.request).elim [] (packets USBPID_DATA1)).take
        (rounds true (es.flatMap fun p => p.1.ops p.2)) := by
  cases hread with
  | cons head tail =>
    have houtbox := outbox_poll_setup h hlen htoken head
    obtain ⟨-, hsent⟩ := outbox_run (sound_step h head).1 tail hquiet
    rw [← hsent, houtbox]
    cases d.reply d.request with
    | none =>
      rw [Outbox.output_eq_nil (by rfl), Option.elim_none, List.take_nil]
    | some data =>
      rw [Outbox.output_eq_take, Outbox.contents_fill, Option.elim_some]
      obtain ⟨packet, queue, hpackets⟩ : ∃ packet queue, packets USBPID_DATA1 data =
          packet :: queue := by
        rcases Nat.lt_or_ge data.length 8 with h | h
        · exact ⟨_, _, packets_of_lt h _⟩
        · exact ⟨_, _, packets_of_le h _⟩
      rw [prepared, hpackets]
      rfl

/-- Behind a request the host is sent the packets of the reply, each of them once and in order,
whatever the order of its tokens and of the polls of the main loop: one packet for each token
that comes behind a poll. -/
theorem run_reads {tr es : List (UsbDriver × UsbEvent)} {d d' : UsbDriver}
    (hrun : Run step init tr d) (hlen : d.usbRxLen = 11) (htoken : d.usbRxToken = USBPID_SETUP)
    (hread : Run step d ((d, .poll) :: es) d') (hquiet : ∀ p ∈ es, p.1.Undisturbed p.2) :
    (es.flatMap fun p => p.1.delivered p.2) =
      ((d.reply d.request).elim [] (packets USBPID_DATA1)).take
        (rounds true (es.flatMap fun p => p.1.ops p.2)) :=
  delivered_of_setup (sound_of_run hrun) hlen htoken hread hquiet

/-- The packets of a request for the descriptor of the device. -/
def askDescriptor : List UsbEvent :=
  [.packet [USBPID_SETUP, 0, 0],
    .packet (dataPacket USBPID_DATA0 [0x80, USBRQ_GET_DESCRIPTOR, 0, USBDESCR_DEVICE, 0, 0, 18, 0])]

/-- Four tokens for the reply, of which the second one comes before a poll. -/
def readDescriptor : List UsbEvent :=
  [.packet [USBPID_IN, 0, 0], .packet [USBPID_IN, 0, 0], .poll, .packet [USBPID_IN, 0, 0], .poll,
    .packet [USBPID_IN, 0, 0]]

/-- The host reads the eighteen bytes of the descriptor. -/
theorem run_reads_readDescriptor :
    ∃ d d', askDescriptor.foldlM step init = .ok d ∧
      (.poll :: readDescriptor).foldlM step d = .ok d' ∧
      ((trace step d (.poll :: readDescriptor)).tail.flatMap fun p => p.1.delivered p.2) =
        [dataPacket USBPID_DATA1 (usbDescriptorDevice.take 8),
          dataPacket USBPID_DATA0 ((usbDescriptorDevice.drop 8).take 8),
          dataPacket USBPID_DATA1 (usbDescriptorDevice.drop 16)] := by
  obtain ⟨d, hd⟩ : ∃ d, askDescriptor.foldlM step init = .ok d := ⟨_, rfl⟩
  obtain ⟨d', hd'⟩ : ∃ d', (.poll :: readDescriptor).foldlM step d = .ok d' := by
    cases hd
    exact ⟨_, rfl⟩
  have hrun := Run.of_foldlM hd'
  have hreply : d.reply d.request = some usbDescriptorDevice := by
    cases hd
    rfl
  refine ⟨d, d', hd, hd', ?_⟩
  cases hd
  have hsetup : Run step init (trace step init askDescriptor) _ := Run.of_foldlM rfl
  refine (run_reads hsetup rfl rfl hrun ?_).trans ?_
  · refine List.forall_mem_cons.mpr ⟨trivial, List.forall_mem_cons.mpr ⟨trivial, ?_⟩⟩
    refine List.forall_mem_cons.mpr ⟨rfl, List.forall_mem_cons.mpr ⟨trivial, ?_⟩⟩
    refine List.forall_mem_cons.mpr ⟨rfl, List.forall_mem_cons.mpr ⟨trivial, ?_⟩⟩
    exact List.forall_mem_nil _
  · rw [hreply, Option.elim_some, packets_of_le (by decide), packets_of_le (by decide),
      packets_of_lt (by decide)]
    rfl

end UsbDriver

end RfidTool

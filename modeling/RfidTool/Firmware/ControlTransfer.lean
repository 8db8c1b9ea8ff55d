import RfidTool.Firmware.UsbWrite

/-!
# Control transfers

What a host makes of the packets: a setup stage that the device acknowledges, and a data stage
that goes on until the host has all or the status stage has come. `ReadsControl` and
`WritesControl` are the transfers that a host takes for complete, with their data. The driver has
one buffer for all that it receives, so the main loop has to come to an acknowledged request, and
to each packet of a write, before the next packet of the host. But for that, whatever the order
of the tokens, the polls and the interrupts, a complete read has read the reply, and behind a
complete write the vector starts with what was written.

What the firmware sees of a transfer is `Firmware.Asked`: nothing before the request, and
nothing but its data stage behind it.
-/

namespace RfidTool

/-- The eight bytes of a request. -/
def UsbRequest.bytes (rq : UsbRequest) : List UInt8 :=
  [rq.bmRequestType, rq.bRequest, rq.wValue.toUInt8, (rq.wValue >>> 8).toUInt8, rq.wIndex.toUInt8,
    (rq.wIndex >>> 8).toUInt8, rq.wLength.toUInt8, (rq.wLength >>> 8).toUInt8]

theorem UInt16.or_bytes (x : UInt16) :
    x.toUInt8.toUInt16 ||| (x >>> 8).toUInt8.toUInt16 <<< 8 = x := by
  have hlt := x.toNat_lt
  have hlow : x.toNat % 256 < 2 ^ 8 := Nat.mod_lt _ (by decide)
  have hor := Nat.shiftLeft_add_eq_or_of_lt hlow (x.toNat / 256)
  rw [← UInt16.toNat_inj, UInt16.toNat_or, UInt16.toNat_shiftLeft, UInt8.toNat_toUInt16,
    UInt8.toNat_toUInt16, UInt16.toNat_toUInt8, UInt16.toNat_toUInt8, UInt16.toNat_shiftRight]
  simp only [UInt16.reduceToNat, Nat.reduceMod, Nat.shiftRight_eq_div_pow, Nat.shiftLeft_eq,
    Nat.reducePow] at hor ⊢
  rw [Nat.mod_eq_of_lt (show x.toNat / 256 < 256 by omega),
    Nat.mod_eq_of_lt (show x.toNat / 256 * 256 < 65536 by omega), Nat.or_comm, ← hor]
  omega

/-- The events between which the host does nothing. -/
def UsbEvent.isBackground : UsbEvent → Bool
  | .idle | .adc _ | .timer0 => true
  | _ => false

namespace UsbDriver

/-! ## The setup stage -/

/-- The main loop finds no packet. -/
def Quiet (d : UsbDriver) : UsbEvent → Prop
  | .poll => d.usbRxLen = 0
  | _ => True

/-- The host sends a request that the device acknowledges, and the main loop processes it. -/
inductive SetupStage (rq : UsbRequest) :
    UsbDriver → List (UsbDriver × UsbEvent) → UsbDriver → Prop
  | intro {d a b b' c d' : UsbDriver} {before token wait : List (UsbDriver × UsbEvent)}
    {address endpoint : UInt8}
    (hbefore : Run step d before a) (hquiet : ∀ p ∈ before, p.1.Quiet p.2)
    (haddress : address <<< 1 = a.usbDeviceAddr)
    (htoken : Run step (a.receive [USBPID_SETUP, address, endpoint]).1 token b)
    (hbackground : ∀ p ∈ token, p.2.isBackground)
    (hack : b.receive (dataPacket USBPID_DATA0 rq.bytes) = (b', some [USBPID_ACK]))
    (hwait : Run step b' wait c) (hbackground' : ∀ p ∈ wait, p.2.isBackground)
    (hpoll : c.step .poll = .ok d') :
    SetupStage rq d
      (before ++ (a, .packet [USBPID_SETUP, address, endpoint]) ::
        (token ++ (b, .packet (dataPacket USBPID_DATA0 rq.bytes)) :: (wait ++ [(c, .poll)]))) d'

theorem quiet_of_isBackground {d : UsbDriver} {e : UsbEvent} (h : e.isBackground) : d.Quiet e := by
  cases e with
  | poll => cases h
  | _ => trivial

/-- Without the host only the firmware changes. -/
theorem run_background {d d' : UsbDriver} {tr : List (UsbDriver × UsbEvent)}
    (hrun : Run step d tr d') (hbackground : ∀ p ∈ tr, p.2.isBackground) :
    ∃ firmware, d' = { d with firmware } := by
  induction hrun with
  | nil d => exact ⟨d.firmware, rfl⟩
  | @cons s t u e es head _ ih =>
    rw [List.forall_mem_cons] at hbackground
    obtain ⟨firmware, rfl⟩ := ih hbackground.2
    have hfire {x : Event} (hfire : s.fire x = .ok t) :
        ∃ g, ({ t with firmware } : UsbDriver) = { s with firmware := g } := by
      obtain ⟨g, -, ht⟩ := Except.bind_eq_ok_iff.mp hfire
      cases ht
      exact ⟨firmware, rfl⟩
    cases e with
    | idle => exact hfire head
    | adc adch => exact hfire head
    | timer0 => exact hfire head
    | _ => cases hbackground.1

theorem firstByte_of_toList {buffer : Vector UInt8 11} {byte : UInt8} {bytes : List UInt8}
    (h : buffer.toList = byte :: bytes) : firstByte buffer = byte := by
  have hget : buffer.toList[0]? = some byte := by rw [h]; rfl
  rw [List.getElem?_eq_getElem (by simp), Vector.getElem_toList] at hget
  exact Option.some.inj hget

theorem isForDevice_of_toList {d : UsbDriver} {pid address : UInt8} {bytes : List UInt8}
    (h : d.usbRxBuf.toList = pid :: address :: bytes)
    (haddress : address <<< 1 = d.usbDeviceAddr) : d.isForDevice = true := by
  have hget : d.usbRxBuf.toList[1]? = some address := by rw [h]; rfl
  rw [List.getElem?_eq_getElem (by simp), Vector.getElem_toList, Option.some.injEq] at hget
  rw [isForDevice, hget, haddress]
  exact beq_self_eq_true _

/-- A short packet lies in front of what was in the buffer. -/
theorem toList_rxBuf (d : UsbDriver) {packet : List UInt8} (h : packet.length ≤ 11) :
    (d.rxBuf packet).toList = packet ++ d.usbRxBuf.toList.drop packet.length := by
  rw [rxBuf, List.take_of_length_le (show packet.length ≤ USB_BUFSIZE from h),
    toList_overwrite _ _ _ (by omega), List.take_zero, List.nil_append, Nat.zero_add]

/-- A token for the device is remembered. -/
theorem receive_token {d : UsbDriver} {pid address : UInt8}
    (hpid : pid = USBPID_SETUP ∨ pid = USBPID_OUT) (h : address <<< 1 = d.usbDeviceAddr)
    (endpoint : UInt8) :
    d.receive [pid, address, endpoint] =
      ({ d with usbRxBuf := d.rxBuf [pid, address, endpoint], usbCurrentTok := pid }, none) := by
  have hlist : (d.rxBuf [pid, address, endpoint]).toList =
      pid :: address :: endpoint :: d.usbRxBuf.toList.drop 3 :=
    toList_rxBuf d (Nat.le_of_ble_eq_true rfl)
  have hfirst : firstByte (d.rxBuf [pid, address, endpoint]) = pid := firstByte_of_toList hlist
  have hdevice : ({ d with usbRxBuf := d.rxBuf [pid, address, endpoint] } :
      UsbDriver).isForDevice = true := isForDevice_of_toList hlist h
  have hbuf : overwrite d.usbRxBuf 0 ([pid, address, endpoint].take USB_BUFSIZE) =
      d.rxBuf [pid, address, endpoint] := rfl
  have hnot : ¬(pid = USBPID_DATA0 ∨ pid = USBPID_DATA1) ∧ pid ≠ USBPID_IN := by
    rcases hpid with rfl | rfl <;> decide
  unfold receive
  rw [hbuf]
  dsimp only
  rw [if_neg (show ¬USB_BUFSIZE < [pid, address, endpoint].length from (by decide : ¬11 < 3)),
    hfirst, if_neg hnot.1, hdevice, if_neg (by decide), if_neg hnot.2, if_pos hpid]

/-- The request that lies in the buffer behind a setup packet. -/
theorem request_of_toList {d : UsbDriver} {pid low high : UInt8} {rq : UsbRequest}
    (h : d.usbRxBuf.toList = pid :: rq.bytes ++ [low, high]) : d.request = rq := by
  have hbuffer : d.usbRxBuf = #v[pid, rq.bmRequestType, rq.bRequest, rq.wValue.toUInt8,
      (rq.wValue >>> 8).toUInt8, rq.wIndex.toUInt8, (rq.wIndex >>> 8).toUInt8,
      rq.wLength.toUInt8, (rq.wLength >>> 8).toUInt8, low, high] := Vector.toList_inj.mp h
  have hfields : d.request = UsbRequest.mk rq.bmRequestType rq.bRequest
      (rq.wValue.toUInt8.toUInt16 ||| (rq.wValue >>> 8).toUInt8.toUInt16 <<< 8)
      (rq.wIndex.toUInt8.toUInt16 ||| (rq.wIndex >>> 8).toUInt8.toUInt16 <<< 8)
      (rq.wLength.toUInt8.toUInt16 ||| (rq.wLength >>> 8).toUInt8.toUInt16 <<< 8) := by
    unfold request
    rw [hbuffer]
    rfl
  rw [hfields, UInt16.or_bytes, UInt16.or_bytes, UInt16.or_bytes]

/-- A data packet that is acknowledged is the packet of the receiver. -/
theorem stored_of_ack {d d' : UsbDriver} {pid : UInt8} {data : List UInt8} (hpid : IsDataPid pid)
    (hlength : data.length = 8)
    (h : d.receive (dataPacket pid data) = (d', some [USBPID_ACK])) :
    d' = { d with
        usbRxBuf := d.rxBuf (dataPacket pid data), usbRxLen := 11
        usbRxToken := d.usbCurrentTok } ∧
      (d.rxBuf (dataPacket pid data)).toList = dataPacket pid data := by
  have hcount : (dataPacket pid data).length = 11 := by rw [length_dataPacket, hlength]
  have hlist : (d.rxBuf (dataPacket pid data)).toList = dataPacket pid data := by
    rw [toList_rxBuf d hcount.le, List.drop_of_length_le (by simp [hcount]), List.append_nil]
  have hin : d.isIn (dataPacket pid data) = false := by
    have hne : pid ≠ USBPID_IN := by
      rcases hpid with rfl | rfl <;> decide
    simp [isIn, firstByte_of_toList hlist, hne]
  have hreceived := d.received (dataPacket pid data)
  rw [h] at hreceived
  refine ⟨?_, hlist⟩
  generalize hanswer : some [USBPID_ACK] = answer at hreceived
  cases hreceived with
  | stored => rw [hcount]
  | status _ _ hshort => omega
  | ignored => cases hanswer
  | busy => cases hanswer
  | unready hyes => simp [hin] at hyes
  | sent hyes => simp [hin] at hyes

theorem step_packet (d : UsbDriver) (bytes : List UInt8) :
    d.step (.packet bytes) = .ok (d.receive bytes).1 := rfl

/-- Behind the setup stage the request is processed. -/
theorem SetupStage.spec {rq : UsbRequest} {d d' : UsbDriver} {tr : List (UsbDriver × UsbEvent)}
    (h : SetupStage rq d tr d') :
    ∃ c before, tr = before ++ [(c, .poll)] ∧ Run step d before c ∧
      (∀ p ∈ before, p.1.Quiet p.2) ∧ c.step .poll = .ok d' ∧ c.usbRxLen = 11 ∧
      c.usbRxToken = USBPID_SETUP ∧ c.request = rq := by
  cases h with
  | @intro a b b' c _ before token wait address endpoint hbefore hquiet haddress htoken
      hbackground hack hwait hbackground' hpoll =>
    have htokenStep := step_packet a [USBPID_SETUP, address, endpoint]
    have hdataStep := step_packet b (dataPacket USBPID_DATA0 rq.bytes)
    rw [hack] at hdataStep
    have hrun := hbefore.append (.cons htokenStep (htoken.append (.cons hdataStep hwait)))
    refine ⟨c, _, ?_, hrun, ?_, hpoll, ?_⟩
    · simp only [List.append_assoc, List.cons_append]
    · intro p hp
      simp only [List.mem_append, List.mem_cons] at hp
      rcases hp with hp | rfl | hp | rfl | hp
      · exact hquiet p hp
      · trivial
      · exact quiet_of_isBackground (hbackground p hp)
      · trivial
      · exact quiet_of_isBackground (hbackground' p hp)
    · rw [receive_token (.inl rfl) haddress endpoint] at htoken
      obtain ⟨firmware, rfl⟩ := run_background htoken hbackground
      obtain ⟨rfl, hlist⟩ := stored_of_ack (.inl rfl) rfl hack
      obtain ⟨firmware', rfl⟩ := run_background hwait hbackground'
      exact ⟨rfl, rfl, request_of_toList hlist⟩

/-- A token right behind the acknowledged request overwrites it, and the reset is lost. -/
example : ∃ d, [UsbEvent.packet [USBPID_SETUP, 0, 0],
      .packet (dataPacket USBPID_DATA0 (UsbRequest.bytes ⟨0x40, PROTO_CMD_RESET, 0, 0, 0⟩)),
      .packet [USBPID_IN, 0, 0], .poll].foldlM step init = .ok d ∧
    d.firmware.command = PROTO_CMD_NOP := ⟨_, rfl, rfl⟩

theorem SetupStage.run {rq : UsbRequest} {d d' : UsbDriver} {tr : List (UsbDriver × UsbEvent)}
    (h : SetupStage rq d tr d') : Run step d tr d' := by
  obtain ⟨c, before, rfl, hbefore, -, hpoll, -⟩ := h.spec
  exact hbefore.append (.cons hpoll (.nil _))

/-! ## Reading -/

/-- What the host has received: the contents of the data packets. -/
def blocks (tr : List (UsbDriver × UsbEvent)) : List (List UInt8) :=
  (tr.flatMap fun p => p.1.delivered p.2).map body

/-- A short packet has come, or all that is wanted. -/
def Complete (wanted : ℕ) (blocks : List (List UInt8)) : Prop :=
  (∃ block ∈ blocks, block.length < 8) ∨ wanted ≠ 0 ∧ blocks.flatten.length = wanted

/-- The host reads `data`. -/
def ReadsControl (rq : UsbRequest) (data : List UInt8) (d : UsbDriver)
    (tr : List (UsbDriver × UsbEvent)) (d' : UsbDriver) : Prop :=
  ∃ setup es c, tr = setup ++ es ∧ SetupStage rq d setup c ∧ Run step c es d' ∧
    (∀ p ∈ es, p.1.Quiet p.2) ∧ Complete rq.wLength.toNat (blocks es) ∧ data = (blocks es).flatten

theorem ReadsControl.run {rq : UsbRequest} {data : List UInt8} {d d' : UsbDriver}
    {tr : List (UsbDriver × UsbEvent)} (h : ReadsControl rq data d tr d') : Run step d tr d' := by
  obtain ⟨setup, es, c, rfl, hsetup, hes, -⟩ := h
  exact hsetup.run.append hes

/-- The front of the packets of a message. -/
theorem flatten_take_packets (pid : UInt8) (data : List UInt8) (n : ℕ) :
    (((packets pid data).take n).map body).flatten = data.take (8 * n) ∧
      ((∃ block ∈ ((packets pid data).take n).map body, block.length < 8) →
        data.length ≤ 8 * n) := by
  induction n generalizing pid data with
  | zero => simp
  | succ n ih =>
    rcases Nat.lt_or_ge data.length 8 with hlast | hfull
    · rw [packets_of_lt hlast, List.take_succ_cons, List.take_nil, List.map_singleton,
        body_dataPacket, List.flatten_singleton, List.take_of_length_le (by omega)]
      exact ⟨rfl, fun _ => by omega⟩
    · obtain ⟨hflatten, hshort⟩ := ih (nextPid pid) (data.drop 8)
      rw [packets_of_le hfull, List.take_succ_cons, List.map_cons, body_dataPacket,
        List.flatten_cons, hflatten, Nat.mul_succ, Nat.add_comm, List.take_add]
      refine ⟨rfl, fun ⟨block, hmem, hlt⟩ => ?_⟩
      rcases List.mem_cons.mp hmem with rfl | hmem
      · rw [List.length_take] at hlt
        omega
      · have hle := hshort ⟨block, hmem, hlt⟩
        rw [List.length_drop] at hle
        omega

/-- A complete part of the packets is all of them. -/
theorem Complete.flatten_eq {wanted n : ℕ} {pid : UInt8} {data : List UInt8}
    (h : Complete wanted (((packets pid data).take n).map body)) (hle : data.length ≤ wanted) :
    (((packets pid data).take n).map body).flatten = data := by
  obtain ⟨hflatten, hshort⟩ := flatten_take_packets pid data n
  unfold Complete at h
  rw [hflatten] at h ⊢
  refine List.take_of_length_le ?_
  rcases h with hlast | ⟨-, hlength⟩
  · exact hshort hlast
  · rw [List.length_take] at hlength
    omega

theorem length_cut (rq : UsbRequest) {data : List UInt8} (h : data.length < 256) :
    (rq.cut data).length ≤ rq.wLength.toNat := by
  unfold UsbRequest.cut
  split_ifs with hshort
  · exact List.length_take_le _ _
  · omega

theorem length_descriptor (rq : UsbRequest) : (descriptor rq).length < 256 := by
  unfold descriptor
  split_ifs <;> decide

theorem length_standardReply (d : UsbDriver) (rq : UsbRequest) :
    (d.standardReply rq).length < 256 := by
  unfold standardReply
  split_ifs with hstatus hdescriptor
  · simp
  · exact length_descriptor rq
  all_goals simp

/-- A reply is no longer than the host wants. -/
theorem length_reply {d : UsbDriver} {rq : UsbRequest} {data : List UInt8}
    (h : d.reply rq = some data) : data.length ≤ rq.wLength.toNat := by
  unfold reply at h
  by_cases htype : rq.bmRequestType &&& USBRQ_TYPE_MASK = 0
  · rw [if_pos htype] at h
    cases h
    exact length_cut rq (length_standardReply d rq)
  rw [if_neg htype] at h
  by_cases hvector : IsVectorCommand rq.bRequest
  · rw [if_pos hvector] at h
    split_ifs at h
    cases h
    exact Nat.le_trans (List.length_take_le _ _) (Nat.mod_le _ _)
  · rw [if_neg hvector] at h
    cases h
    obtain ⟨-, hlength⟩ := Firmware.take_response d.firmware rq.setup hvector
    refine length_cut rq ?_
    rw [hlength]
    exact UInt8.toNat_lt _

/-! ## What the firmware sees of it -/

/-- The events of the firmware in a run. -/
def events (tr : List (UsbDriver × UsbEvent)) : List Event := tr.flatMap fun p => p.1.project p.2

theorem events_append (tr tr' : List (UsbDriver × UsbEvent)) :
    events (tr ++ tr') = events tr ++ events tr' := List.flatMap_append

/-- What the events of a run keep holds all the time. -/
theorem forall_firmware (I : Firmware → Prop) (C : Event → Prop)
    (hI : ∀ f e g, I f → C e → f.step e = .ok g → I g) {tr : List (UsbDriver × UsbEvent)}
    {d d' : UsbDriver} (hd : d.Sound) (hrun : Run step d tr d') (hC : ∀ e ∈ events tr, C e)
    (h : I d.firmware) : (∀ p ∈ tr, I p.1.firmware) ∧ I d'.firmware := by
  induction hrun with
  | nil => exact ⟨List.forall_mem_nil _, h⟩
  | @cons s t u e es head _ ih =>
    obtain ⟨hsound, hfold, -⟩ := sound_step hd head
    rw [events, List.flatMap_cons, List.forall_mem_append] at hC
    have hnext : I t.firmware := by
      refine (Run.of_foldlM hfold).invariant I (fun _ => C) hI h fun p hp => hC.1 _ ?_
      exact mem_of_mem_trace hp
    obtain ⟨hall, hlast⟩ := ih hsound hC.2 hnext
    exact ⟨List.forall_mem_cons.mpr ⟨h, hall⟩, hlast⟩

/-- Without a transfer a reachable firmware is at rest. -/
theorem resting_of_run {tr : List (UsbDriver × UsbEvent)} {d : UsbDriver}
    (hrun : Run step init tr d) (hidle : d.firmware.state = .idle) : d.firmware.Resting :=
  Firmware.resting_of_foldlM (fun _ => Firmware.resting_init) (foldlM_project sound_init hrun).1
    hidle

theorem isQuiet_projectTx {d : UsbDriver} {e : Event} (h : e ∈ d.projectTx) : e.isQuiet := by
  unfold projectTx at h
  split_ifs at h
  · rw [List.mem_singleton.mp h]
    rfl
  · cases h

/-- The firmware sees nothing of the host between the requests. -/
theorem isQuiet_of_quiet {tr : List (UsbDriver × UsbEvent)} (h : ∀ p ∈ tr, p.1.Quiet p.2) :
    ∀ e ∈ events tr, e.isQuiet := by
  intro e he
  obtain ⟨⟨d, x⟩, hp, he⟩ := List.mem_flatMap.mp he
  have hquiet := h _ hp
  cases x with
  | poll =>
    have hzero : d.usbRxLen = 0 := hquiet
    have hrx : d.pollRx = .ok d := if_neg (by omega)
    rw [project_poll, projectRx, if_pos hzero, hrx, List.nil_append] at he
    exact isQuiet_projectTx he
  | packet | reset => cases he
  | idle | adc | timer0 =>
    rw [List.mem_singleton.mp he]
    rfl

/-- The poll that processes a vendor request. -/
theorem project_poll_setup {c : UsbDriver} (hlen : c.usbRxLen = 11)
    (htoken : c.usbRxToken = USBPID_SETUP)
    (htype : c.request.bmRequestType &&& USBRQ_TYPE_MASK ≠ 0) :
    ∃ after, c.project .poll = .setup c.request.setup :: after ∧ ∀ e ∈ after, e.isQuiet := by
  refine ⟨(c.pollRx.toOption.map projectTx).getD [], ?_, fun e he => ?_⟩
  · rw [project_poll, projectRx, if_neg (by omega), if_pos htoken, if_neg (not_not.mpr hlen),
      if_pos htype]
    rfl
  · cases hrx : c.pollRx.toOption with
    | none =>
      rw [hrx] at he
      cases he
    | some d =>
      rw [hrx] at he
      exact isQuiet_projectTx he

theorem asked_of_run {Stage : Event → Prop} (hstage : ∀ e : Event, e.isQuiet → Stage e)
    {rq : UsbRequest} {c d d' : UsbDriver} {before es : List (UsbDriver × UsbEvent)}
    (hd : d.Sound) (hbefore : Run step d before c) (hquiet : ∀ p ∈ before, p.1.Quiet p.2)
    (hlen : c.usbRxLen = 11) (htoken : c.usbRxToken = USBPID_SETUP) (hrequest : c.request = rq)
    (htype : rq.bmRequestType &&& USBRQ_TYPE_MASK ≠ 0)
    (hrun : Run step c ((c, .poll) :: es) d') (hes : ∀ e ∈ events es, Stage e) :
    Firmware.Asked rq.setup Stage d.firmware (events (before ++ (c, .poll) :: es)) c.firmware
      d'.firmware := by
  subst hrequest
  have hc := hd.run hbefore
  obtain ⟨after, hproject, hafter⟩ := project_poll_setup hlen htoken htype
  have hfold := (foldlM_project hc hrun).1
  rw [List.flatMap_cons, hproject, List.cons_append, List.foldlM_cons] at hfold
  refine ⟨events before, after ++ events es, ?_, isQuiet_of_quiet hquiet, ?_,
    (foldlM_project hd hbefore).1, hfold⟩
  · rw [events, List.flatMap_append, List.flatMap_cons, hproject]
    rfl
  · exact List.forall_mem_append.mpr ⟨fun e he => hstage e (hafter e he), hes⟩

/-- What the request leaves, and the data stage keeps, holds until the end. -/
theorem firmware_of_request {Stage : Event → Prop} (hstage : ∀ e : Event, e.isQuiet → Stage e)
    (I : Firmware → Prop) (hI : ∀ f e g, I f → Stage e → f.step e = .ok g → I g)
    {c d' : UsbDriver} {es : List (UsbDriver × UsbEvent)} (hc : c.Sound) (hlen : c.usbRxLen = 11)
    (htoken : c.usbRxToken = USBPID_SETUP)
    (htype : c.request.bmRequestType &&& USBRQ_TYPE_MASK ≠ 0)
    (hrun : Run step c ((c, .poll) :: es) d') (hes : ∀ e ∈ events es, Stage e)
    (h : I (c.firmware.usbFunctionSetup c.request.setup)) :
    (∀ p ∈ es, I p.1.firmware) ∧ I d'.firmware := by
  cases hrun with
  | cons head tail =>
    obtain ⟨hsound, hfold, -⟩ := sound_step hc head
    obtain ⟨after, hproject, hafter⟩ := project_poll_setup hlen htoken htype
    rw [hproject, List.foldlM_cons] at hfold
    refine forall_firmware I Stage hI hsound tail hes ?_
    have hreq : Run Firmware.step (c.firmware.usbFunctionSetup c.request.setup)
        (trace Firmware.step (c.firmware.usbFunctionSetup c.request.setup) after) _ :=
      Run.of_foldlM hfold
    refine hreq.invariant I (fun _ => Stage) hI h fun p hp => ?_
    exact hstage _ (hafter _ (mem_of_mem_trace hp))

theorem undisturbed_of_quiet {d : UsbDriver} {e : UsbEvent} (h : d.Quiet e)
    (hfirmware : ¬(d.firmware.userRw ∧ d.firmware.command = PROTO_CMD_PULSE_VECTOR_READ)) :
    d.Undisturbed e := by
  cases e with
  | poll => exact h
  | adc => exact hfirmware
  | _ => trivial

/-- A handler that does not run disturbs nothing. -/
theorem undisturbed_of_resting {d d' : UsbDriver} {e : UsbEvent} (h : d.Quiet e)
    (hresting : d.firmware.Resting) (hstep : d.step e = .ok d') : d.Undisturbed e := by
  cases e with
  | poll => exact h
  | adc =>
    obtain ⟨firmware, hfire, -⟩ := Except.bind_eq_ok_iff.mp hstep
    cases (hresting.not_handler hfire).1
  | _ => trivial

/-- What is received behind a request is the reply, once it is complete. -/
theorem reply_of_complete {es : List (UsbDriver × UsbEvent)} {c d' : UsbDriver} (hc : c.Sound)
    (hlen : c.usbRxLen = 11) (htoken : c.usbRxToken = USBPID_SETUP)
    (hrun : Run step c ((c, .poll) :: es) d') (hquiet : ∀ p ∈ es, p.1.Undisturbed p.2)
    (hcomplete : Complete c.request.wLength.toNat (blocks es)) :
    c.reply c.request = some (blocks es).flatten := by
  have hdelivered := delivered_of_setup hc hlen htoken hrun hquiet
  unfold blocks at hcomplete ⊢
  rw [hdelivered] at hcomplete ⊢
  cases hreply : c.reply c.request with
  | none =>
    rw [hreply, Option.elim_none, List.take_nil, List.map_nil] at hcomplete
    rcases hcomplete with ⟨block, hmem, -⟩ | ⟨hne, hzero⟩
    · cases hmem
    · exact absurd hzero.symm hne
  | some data =>
    rw [hreply, Option.elim_some] at hcomplete
    rw [Option.elim_some, hcomplete.flatten_eq (length_reply hreply)]

/-- A complete read has read the reply that the device gives at the request. -/
theorem ReadsControl.spec {rq : UsbRequest} {data : List UInt8} {d d' : UsbDriver}
    {tr : List (UsbDriver × UsbEvent)} (h : ReadsControl rq data d tr d') (hd : d.Sound)
    (htype : rq.bmRequestType &&& USBRQ_TYPE_MASK ≠ 0)
    (hresting : rq.bRequest = PROTO_CMD_PULSE_VECTOR_READ → d.firmware.Resting) :
    d'.Sound ∧ ∃ c : UsbDriver, c.reply rq = some data ∧
      Firmware.Asked rq.setup (fun e => e.isQuiet) d.firmware (events tr) c.firmware
        d'.firmware := by
  obtain ⟨setup, es, u, rfl, hsetup, hes, hquiet, hcomplete, rfl⟩ := h
  obtain ⟨c, before, rfl, hbefore, hbeforeQuiet, hpoll, hlen, htoken, rfl⟩ := hsetup.spec
  have hc := hd.run hbefore
  have hrun : Run step c ((c, .poll) :: es) d' := .cons hpoll hes
  have hasked := asked_of_run (fun _ h => h) hd hbefore hbeforeQuiet hlen htoken rfl htype hrun
    (isQuiet_of_quiet hquiet)
  rw [List.append_assoc, List.singleton_append]
  refine ⟨hc.run hrun, c, reply_of_complete hc hlen htoken hrun ?_ hcomplete, hasked⟩
  by_cases hread : c.request.bRequest = PROTO_CMD_PULSE_VECTOR_READ
  · have hrest : (c.firmware.usbFunctionSetup c.request.setup).Resting := by
      refine Firmware.Resting.step (e := .setup c.request.setup) ?_ (Event.isStart_setup ?_) rfl
      · exact (forall_firmware _ _ Firmware.resting_of_isQuiet hd hbefore
          (isQuiet_of_quiet hbeforeQuiet) (hresting hread)).2
      · rw [show c.request.setup.bRequest = _ from hread]
        decide
    have hall := (firmware_of_request (fun _ h => h) Firmware.Resting Firmware.resting_of_isQuiet
      hc hlen htoken htype hrun (isQuiet_of_quiet hquiet) hrest).1
    intro p hp
    obtain ⟨t, ht⟩ := hes.exists_step hp
    exact undisturbed_of_resting (hquiet p hp) (hall p hp) ht
  · have hall := firmware_of_request (fun _ h => h)
      (fun f => ¬(f.userRw ∧ f.command = PROTO_CMD_PULSE_VECTOR_READ)) ?_ hc hlen htoken htype hrun
      (isQuiet_of_quiet hquiet) ?_
    · exact fun p hp => undisturbed_of_quiet (hquiet p hp) (hall.1 p hp)
    · intro f e g hf he hstep
      obtain ⟨hcommand, hrw, -⟩ := Firmware.quiet_of_step he hstep
      rw [hcommand, hrw]
      exact hf
    · rintro ⟨hrw, hcommand⟩
      rcases Firmware.usbFunctionSetup_cases c.firmware c.request.setup with
        ⟨bytes, h⟩ | ⟨on, h⟩ | ⟨-, bytes, h⟩ | ⟨-, bytes, h⟩ | ⟨-, h⟩
      · rw [h] at hrw
        cases hrw
      · rw [h] at hrw
        cases hrw
      · rw [h] at hrw
        cases hrw
      · rw [h] at hrw
        cases hrw
      · rw [h] at hcommand
        exact hread hcommand

/-! ## Writing -/

/-- The main loop comes between two packets of the host, and finds no other request. -/
def Attended (d : UsbDriver) : UsbEvent → Prop
  | .packet _ => d.usbRxLen = 0
  | .poll => d.usbRxLen = 0 ∨ d.usbRxToken ≠ USBPID_SETUP
  | _ => True

/-- The host writes `data`: the device acknowledges it, and sends the packet of the status
stage at last. -/
def WritesControl (rq : UsbRequest) (data : List UInt8) (d : UsbDriver)
    (tr : List (UsbDriver × UsbEvent)) (d' : UsbDriver) : Prop :=
  ∃ setup es u a e, tr = setup ++ (es ++ [(a, e)]) ∧ SetupStage rq d setup u ∧ Run step u es a ∧
    a.step e = .ok d' ∧ (∀ p ∈ es, p.1.Attended p.2) ∧
    (es.flatMap fun p => p.1.accepted p.2) = data ∧ a.delivered e ≠ []

theorem WritesControl.run {rq : UsbRequest} {data : List UInt8} {d d' : UsbDriver}
    {tr : List (UsbDriver × UsbEvent)} (h : WritesControl rq data d tr d') : Run step d tr d' := by
  obtain ⟨setup, es, u, a, e, rfl, hsetup, hes, hstep, -⟩ := h
  exact hsetup.run.append (hes.append (.cons hstep (.nil _)))

/-- A data packet is sent while the buffer of the receiver is free. -/
theorem of_delivered {d d' : UsbDriver} {e : UsbEvent} (hstep : d.step e = .ok d')
    (hdelivered : d.delivered e ≠ []) :
    d.Attended e ∧ d.accepted e = [] ∧ d'.waiting = [] ∧ d.project e = [] := by
  cases e with
  | packet bytes =>
    have haccepted : d.accepted (.packet bytes) =
        if (d.receive bytes).2 = some [USBPID_ACK] then body bytes else [] := rfl
    have hreceived := d.received bytes
    have hanswer : (d.receive bytes).2.toList.filter (fun bytes => decide (3 ≤ bytes.length)) ≠
        [] := hdelivered
    cases hstep
    generalize (d.receive bytes).1 = d', (d.receive bytes).2 = answer at *
    cases hreceived with
    | sent _ hrx htx =>
      refine ⟨hrx, ?_, if_pos hrx, rfl⟩
      rw [haccepted]
      refine if_neg fun hack => hanswer ?_
      rw [hack]
      rfl
    | _ => exact absurd rfl hanswer
  | _ => exact absurd rfl hdelivered

theorem writeStage_of_attended {d d' : UsbDriver} {e : UsbEvent} (h : d.Attended e)
    (hresting : d.firmware.Resting) (hstep : d.step e = .ok d') (v : DataVector) :
    d.WriteStage v e := by
  cases e with
  | adc adch =>
    obtain ⟨firmware, hfire, -⟩ := Except.bind_eq_ok_iff.mp hstep
    cases (hresting.not_handler hfire).1
  | _ => exact h

/-- The firmware sees no other request in a data stage. -/
theorem isSetup_of_attended {d : UsbDriver} {e : UsbEvent} (h : d.Attended e) :
    ∀ x ∈ d.project e, x.isSetup = false := by
  intro x hx
  cases e with
  | poll =>
    rw [project_poll, List.mem_append] at hx
    rcases hx with hx | hx
    · unfold projectRx at hx
      split_ifs at hx with hzero hsetup
      · cases hx
      · exact absurd hsetup (h.resolve_left hzero)
      · exact absurd hsetup (h.resolve_left hzero)
      · exact absurd hsetup (h.resolve_left hzero)
      · rw [List.mem_singleton.mp hx]
        rfl
    · cases hrx : d.pollRx.toOption with
      | none =>
        rw [hrx] at hx
        cases hx
      | some u =>
        rw [hrx] at hx
        exact Event.isSetup_of_isQuiet (isQuiet_projectTx hx)
  | packet | reset => cases hx
  | idle | adc | timer0 =>
    rw [List.mem_singleton.mp hx]
    rfl

end UsbDriver

namespace Firmware

/-- A write leaves the other vector alone. -/
theorem other_usbFunctionWrite {v : DataVector} {f g : Firmware} {data : List UInt8}
    (hcommand : f.command = v.writeCommand) (h : f.usbFunctionWrite data = .ok g) :
    g.command = f.command ∧ g.bytes v.other = f.bytes v.other := by
  obtain ⟨sampleVector, ioBuffer, offset, rfl, hbuffer⟩ := usbFunctionWrite_eq_ok h
  refine ⟨rfl, ?_⟩
  cases v with
  | sampleVector =>
    refine congrArg Vector.toList (hbuffer ?_)
    rw [hcommand]
    decide
  | ioBuffer =>
    have hne : f.command ≠ PROTO_CMD_SAMPLE_VECTOR_WRITE := by
      rw [hcommand]
      decide
    rw [usbFunctionWrite, if_neg hne, if_pos (show f.command = PROTO_CMD_PULSE_VECTOR_WRITE from
      hcommand)] at h
    obtain ⟨r, -, hg⟩ := Except.bind_eq_ok_iff.mp h
    exact congrArg Vector.toList (congrArg Firmware.sampleVector (Except.ok.inj hg)).symm

/-- In the data stage of a write the firmware stays at rest. -/
theorem Resting.writing {v : DataVector} {l : List UInt8} {f g : Firmware} {e : Event}
    (h : f.Resting ∧ f.command = v.writeCommand ∧ f.bytes v.other = l) (he : e.isSetup = false)
    (hstep : f.step e = .ok g) :
    g.Resting ∧ g.command = v.writeCommand ∧ g.bytes v.other = l := by
  obtain ⟨hresting, hcommand, hother⟩ := h
  refine ⟨hresting.step (Event.isStart_of_isSetup he) hstep, ?_⟩
  suffices hsame : g.command = f.command ∧ g.bytes v.other = f.bytes v.other from
    ⟨hsame.1.trans hcommand, hsame.2.trans hother⟩
  by_cases hquiet : e.isQuiet
  · obtain ⟨hsame, -, hsample, hbuffer⟩ := quiet_of_step hquiet hstep
    refine ⟨hsame, ?_⟩
    cases v with
    | ioBuffer => exact congrArg Vector.toList hsample
    | sampleVector => exact congrArg Vector.toList (hbuffer (hresting.not_handler hstep).1)
  · cases e with
    | setup | standard => cases he
    | dataOut data =>
      rcases step_dataOut_eq_ok hstep with rfl | ⟨-, hwrite⟩
      · exact ⟨rfl, rfl⟩
      · exact other_usbFunctionWrite hcommand hwrite
    | _ => exact absurd rfl hquiet

end Firmware

namespace UsbDriver

/-- A write from the poll that processes its request. -/
theorem WritesControl.split {rq : UsbRequest} {data : List UInt8} {d d' : UsbDriver}
    {tr : List (UsbDriver × UsbEvent)} (h : WritesControl rq data d tr d') :
    ∃ c before after, tr = before ++ (c, .poll) :: after ∧ Run step d before c ∧
      (∀ p ∈ before, p.1.Quiet p.2) ∧ Run step c ((c, .poll) :: after) d' ∧ c.usbRxLen = 11 ∧
      c.usbRxToken = USBPID_SETUP ∧ c.request = rq ∧ (∀ p ∈ after, p.1.Attended p.2) ∧
      (after.flatMap fun p => p.1.accepted p.2) = data ∧ d'.waiting = [] := by
  obtain ⟨setup, es, u, a, e, rfl, hsetup, hes, hstep, hattended, rfl, hdelivered⟩ := h
  obtain ⟨c, before, rfl, hbefore, hquiet, hpoll, hlen, htoken, hrq⟩ := hsetup.spec
  obtain ⟨hlast, haccepted, hwaiting, -⟩ := of_delivered hstep hdelivered
  refine ⟨c, before, es ++ [(a, e)], ?_, hbefore, hquiet,
    .cons hpoll (hes.append (.cons hstep (.nil _))), hlen, htoken, hrq, ?_, ?_, hwaiting⟩
  · rw [List.append_assoc, List.singleton_append]
  · exact List.forall_mem_append.mpr ⟨hattended, List.forall_mem_singleton.mpr hlast⟩
  · rw [List.flatMap_append, List.flatMap_singleton, haccepted, List.append_nil]

/-- The firmware sees the request of a write, and no other one behind it. -/
theorem asked_of_attended {rq : UsbRequest} {d c d' : UsbDriver}
    {before after : List (UsbDriver × UsbEvent)} (hd : d.Sound) (hbefore : Run step d before c)
    (hquiet : ∀ p ∈ before, p.1.Quiet p.2) (hlen : c.usbRxLen = 11)
    (htoken : c.usbRxToken = USBPID_SETUP) (hrq : c.request = rq)
    (htype : rq.bmRequestType &&& USBRQ_TYPE_MASK ≠ 0)
    (hrun : Run step c ((c, .poll) :: after) d') (hattended : ∀ p ∈ after, p.1.Attended p.2) :
    (∀ x ∈ events after, x.isSetup = false) ∧
      Firmware.Asked rq.setup (fun e => e.isSetup = false) d.firmware
        (events (before ++ (c, .poll) :: after)) c.firmware d'.firmware := by
  have hsetups : ∀ x ∈ events after, x.isSetup = false := by
    intro x hx
    obtain ⟨p, hp, hx⟩ := List.mem_flatMap.mp hx
    exact isSetup_of_attended (hattended p hp) x hx
  exact ⟨hsetups, asked_of_run (fun _ => Event.isSetup_of_isQuiet) hd hbefore hquiet hlen htoken
    hrq htype hrun hsetups⟩

theorem WritesControl.asked {rq : UsbRequest} {data : List UInt8} {d d' : UsbDriver}
    {tr : List (UsbDriver × UsbEvent)} (h : WritesControl rq data d tr d') (hd : d.Sound)
    (htype : rq.bmRequestType &&& USBRQ_TYPE_MASK ≠ 0) :
    ∃ asked, Firmware.Asked rq.setup (fun e => e.isSetup = false) d.firmware (events tr) asked
      d'.firmware := by
  obtain ⟨c, before, after, rfl, hbefore, hquiet, hrun, hlen, htoken, hrq, hattended, -⟩ := h.split
  exact ⟨_, (asked_of_attended hd hbefore hquiet hlen htoken hrq htype hrun hattended).2⟩

/-- Behind a complete write the vector starts with what was written, and nothing else has
changed for a firmware at rest. -/
theorem WritesControl.spec {rq : UsbRequest} {data : List UInt8} {d d' : UsbDriver}
    {tr : List (UsbDriver × UsbEvent)} (h : WritesControl rq data d tr d') (hd : d.Sound)
    (htype : rq.bmRequestType &&& USBRQ_TYPE_MASK ≠ 0)
    (hdir : rq.bmRequestType &&& USBRQ_DIR_MASK = 0) (v : DataVector)
    (hcommand : rq.bRequest = v.writeCommand) (hresting : d.firmware.Resting) :
    d'.Sound ∧ d'.firmware.Resting ∧
      d'.firmware.bytes v = data.take v.size ++ (d.firmware.bytes v).drop data.length ∧
      d'.firmware.bytes v.other = d.firmware.bytes v.other ∧
      ∃ asked, Firmware.Asked rq.setup (fun e => e.isSetup = false) d.firmware (events tr) asked
        d'.firmware := by
  obtain ⟨c, before, after, rfl, hbefore, hquiet, hrun, hlen, htoken, rfl, hattended, rfl,
    hwaiting⟩ := h.split
  have hc := hd.run hbefore
  obtain ⟨hsetups, hasked⟩ :=
    asked_of_attended hd hbefore hquiet hlen htoken rfl htype hrun hattended
  have hrest : c.firmware.Resting ∧ ∀ w, c.firmware.bytes w = d.firmware.bytes w := by
    refine (forall_firmware (fun f => f.Resting ∧ ∀ w, f.bytes w = d.firmware.bytes w) _ ?_ hd
      hbefore (isQuiet_of_quiet hquiet) ⟨hresting, fun _ => rfl⟩).2
    intro f x g hf hx hstep
    obtain ⟨-, -, hsample, hbuffer⟩ := Firmware.quiet_of_step hx hstep
    refine ⟨Firmware.resting_of_isQuiet f x g hf.1 hx hstep, fun w => Eq.trans ?_ (hf.2 w)⟩
    cases w with
    | ioBuffer => exact congrArg Vector.toList (hbuffer (hf.1.not_handler hstep).1)
    | sampleVector => exact congrArg Vector.toList hsample
  have hvector : IsVectorCommand c.request.setup.bRequest :=
    show IsVectorCommand c.request.bRequest from hcommand ▸ v.isVectorCommand_write
  have hrequest := Firmware.usbFunctionSetup_vector c.firmware hvector
  obtain ⟨hall, hend⟩ := firmware_of_request (fun _ => Event.isSetup_of_isQuiet)
    (fun f => f.Resting ∧ f.command = v.writeCommand ∧
      f.bytes v.other = d.firmware.bytes v.other)
    (fun f x g => Firmware.Resting.writing) hc hlen htoken htype hrun hsetups (by
      rw [hrequest]
      refine ⟨hrest.1.of_control rfl, hcommand, ?_⟩
      rw [← hrest.2]
      cases v <;> rfl)
  obtain ⟨written, hwritten, hbytes, -⟩ := written_of_setup (v := v) hc hlen htoken htype hdir
    hcommand hrun (by
      intro p hp
      cases hrun with
      | cons _ htail =>
        obtain ⟨t, ht⟩ := htail.exists_step hp
        exact writeStage_of_attended (hattended p hp) (hall p hp).1 ht v)
  rw [hwaiting, List.append_nil] at hwritten
  refine ⟨hc.run hrun, hend.1, ?_, hend.2.2, _, hasked⟩
  rw [hbytes, hwritten, hrest.2]

end UsbDriver

end RfidTool

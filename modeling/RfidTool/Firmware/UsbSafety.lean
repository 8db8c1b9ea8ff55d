import RfidTool.Firmware.DataPhase
import RfidTool.Firmware.UsbDriver

/-!
# Safety of the USB driver

`Received` lists what a packet from the host can do, one constructor for each way through the
receiver. `Sound` is the invariant of the driver, whatever the host sends: a reply in the
buffer of the transmitter is a data packet with its checksum, and what is left of a message
lies within the object that `usbMsgPtr` points into. So the device only ever answers with an
acknowledgement, a refusal or such a packet, and the one step that faults is the data packet
that `Misdirected` describes.

`project` is what a step of the driver does to the firmware, as a list of its events. A run of
the driver is a run of the firmware by the projections of its steps.
-/

namespace RfidTool

/-- The packet carries data. -/
def IsDataPid (pid : UInt8) : Prop := pid = USBPID_DATA0 ∨ pid = USBPID_DATA1

/-- A data packet as it is sent. -/
def dataPacket (pid : UInt8) (data : List UInt8) : List UInt8 :=
  pid :: UsbCrc16.usbCrc16Append data

/-- A packet that the host can expect. -/
def IsAnswer (bytes : List UInt8) : Prop :=
  bytes = [USBPID_ACK] ∨ bytes = [USBPID_NAK] ∨
    ∃ pid data, IsDataPid pid ∧ data.length ≤ 8 ∧ bytes = dataPacket pid data

/-- An event with the sizes that the driver passes on. -/
def Event.Sized : Event → Prop
  | .dataOut data => 1 ≤ data.length ∧ data.length ≤ 8
  | .dataIn len => 1 ≤ len ∧ len ≤ 8
  | _ => True

theorem IsDataPid.toggle {pid : UInt8} (h : IsDataPid pid) :
    IsDataPid (pid ^^^ (USBPID_DATA0 ^^^ USBPID_DATA1)) := by
  rcases h with rfl | rfl
  · exact .inr rfl
  · exact .inl rfl

theorem length_dataPacket (pid : UInt8) (data : List UInt8) :
    (dataPacket pid data).length = data.length + 3 := by
  rw [dataPacket, List.length_cons, UsbCrc16.length_usbCrc16Append]

/-- A write moves the offset by the number of bytes written. -/
theorem Firmware.writeLoop_offset {n : ℕ} {dst : Vector UInt8 n} {offset : UInt8}
    {data : List UInt8} {r : Vector UInt8 n × UInt8} (h : writeLoop dst offset data = .ok r) :
    ∃ k ≤ data.length, r.2 = offset + UInt8.ofNat k := by
  induction data generalizing dst offset with
  | nil =>
    cases h
    exact ⟨0, Nat.zero_le _, (UInt8.add_zero _).symm⟩
  | cons b data ih =>
    rw [writeLoop] at h
    split_ifs at h
    · cases h
      exact ⟨0, Nat.zero_le _, (UInt8.add_zero _).symm⟩
    · obtain ⟨k, hle, hr⟩ := ih h
      refine ⟨k + 1, Nat.succ_le_succ hle, ?_⟩
      rw [hr, UInt8.add_assoc, UInt8.ofNat_add, UInt8.add_comm (UInt8.ofNat k)]
      rfl

theorem Firmware.usbFunctionWrite_offset {f g : Firmware} {data : List UInt8}
    (h : f.usbFunctionWrite data = .ok g) :
    ∃ k ≤ data.length, g.ioBufferOffset - f.ioBufferOffset = UInt8.ofNat k := by
  have hmoved : ∃ k ≤ data.length, g.ioBufferOffset = f.ioBufferOffset + UInt8.ofNat k := by
    unfold usbFunctionWrite at h
    split_ifs at h
    all_goals
      obtain ⟨r, hloop, hg⟩ := Except.bind_eq_ok_iff.mp h
      cases hg
      exact writeLoop_offset hloop
  obtain ⟨k, hle, hk⟩ := hmoved
  exact ⟨k, hle, by rw [hk, UInt8.add_comm, UInt8.add_sub_cancel]⟩

namespace UsbDriver

/-! ## The receiver -/

/-- The buffer of the receiver behind a packet. -/
def rxBuf (d : UsbDriver) (packet : List UInt8) : Vector UInt8 11 :=
  overwrite d.usbRxBuf 0 (packet.take USB_BUFSIZE)

/-- The packet is an IN token for the device. -/
def isIn (d : UsbDriver) (packet : List UInt8) : Bool :=
  decide (packet.length ≤ USB_BUFSIZE) && firstByte (d.rxBuf packet) == USBPID_IN &&
    ({ d with usbRxBuf := d.rxBuf packet } : UsbDriver).isForDevice

/-- What a packet does, and the answer to it. -/
inductive Received (d : UsbDriver) (packet : List UInt8) :
    UsbDriver → Option (List UInt8) → Prop
  | ignored {usbCurrentTok : UInt8} (hin : d.isIn packet = false)
    (htok : usbCurrentTok = d.usbCurrentTok ∨ usbCurrentTok = 0 ∨
      usbCurrentTok = USBPID_SETUP ∨ usbCurrentTok = USBPID_OUT) :
    Received d packet { d with usbRxBuf := d.rxBuf packet, usbCurrentTok } none
  | busy (hrx : d.usbRxLen ≠ 0) :
    Received d packet { d with usbRxBuf := d.rxBuf packet } (some [USBPID_NAK])
  | status (hin : d.isIn packet = false) (hrx : d.usbRxLen = 0) (hcnt : packet.length < 4) :
    Received d packet { d with usbRxBuf := d.rxBuf packet } (some [USBPID_ACK])
  | stored (hin : d.isIn packet = false) (hrx : d.usbRxLen = 0) (htok : d.usbCurrentTok ≠ 0)
    (hmin : 4 ≤ packet.length) (hmax : packet.length ≤ 11) :
    Received d packet
      { d with
        usbRxBuf := d.rxBuf packet, usbRxLen := packet.length, usbRxToken := d.usbCurrentTok }
      (some [USBPID_ACK])
  | unready (hin : d.isIn packet = true) (hrx : d.usbRxLen = 0) (htx : d.usbTxLen &&& 0x10 ≠ 0) :
    Received d packet { d with usbRxBuf := d.rxBuf packet } (some [d.usbTxLen])
  | sent (hin : d.isIn packet = true) (hrx : d.usbRxLen = 0) (htx : d.usbTxLen &&& 0x10 = 0) :
    Received d packet
      { d with
        usbRxBuf := d.rxBuf packet, usbTxLen := USBPID_NAK
        usbDeviceAddr := d.usbNewDeviceAddr <<< 1 }
      (some (d.usbTxBuf.toList.take (d.usbTxLen.toNat - 1)))

theorem received (d : UsbDriver) (packet : List UInt8) :
    Received d packet (d.receive packet).1 (d.receive packet).2 := by
  have hbuf : overwrite d.usbRxBuf 0 (packet.take USB_BUFSIZE) = d.rxBuf packet := rfl
  unfold receive
  rw [hbuf]
  dsimp only
  by_cases hlong : USB_BUFSIZE < packet.length
  · have hin : d.isIn packet = false := by simp [isIn, Nat.not_le.mpr hlong]
    rw [if_pos hlong]
    exact .ignored hin (.inr (.inl rfl))
  rw [if_neg hlong]
  by_cases hdata : firstByte (d.rxBuf packet) = USBPID_DATA0 ∨
      firstByte (d.rxBuf packet) = USBPID_DATA1
  · have hin : d.isIn packet = false := by
      have hne : firstByte (d.rxBuf packet) ≠ USBPID_IN := by
        rcases hdata with h | h <;> rw [h] <;> decide
      simp [isIn, hne]
    rw [if_pos hdata, handleData]
    dsimp only
    by_cases htok : d.usbCurrentTok = 0
    · rw [if_pos htok]
      exact @Received.ignored d packet d.usbCurrentTok hin (.inl rfl)
    rw [if_neg htok]
    by_cases hrx : d.usbRxLen ≠ 0
    · rw [if_pos hrx]
      exact .busy hrx
    rw [if_neg hrx]
    rw [not_not] at hrx
    by_cases hcnt : packet.length < 4
    · rw [if_pos hcnt]
      exact .status hin hrx hcnt
    · rw [if_neg hcnt]
      exact .stored hin hrx htok (Nat.not_lt.mp hcnt) (Nat.not_lt.mp hlong)
  rw [if_neg hdata]
  by_cases hfor : ({ d with usbRxBuf := d.rxBuf packet } : UsbDriver).isForDevice = true
  · by_cases htoken : firstByte (d.rxBuf packet) = USBPID_IN
    · have hin : d.isIn packet = true := by
        simp [isIn, Nat.not_lt.mp hlong, htoken, hfor]
      rw [if_neg (by simp [hfor]), if_pos htoken, handleIn]
      dsimp only
      by_cases hrx : 1 ≤ d.usbRxLen
      · rw [if_pos hrx]
        exact .busy (by omega)
      rw [if_neg hrx]
      by_cases htx : d.usbTxLen &&& 0x10 ≠ 0
      · rw [if_pos htx]
        exact .unready hin (by omega) htx
      · rw [if_neg htx]
        exact .sent hin (by omega) (not_not.mp htx)
    · have hin : d.isIn packet = false := by simp [isIn, htoken]
      rw [if_neg (by simp [hfor]), if_neg htoken]
      split_ifs with hsetup
      · exact .ignored hin (.inr (.inr hsetup))
      · exact .ignored hin (.inr (.inl rfl))
  · have hin : d.isIn packet = false := by simp [isIn, hfor]
    rw [if_pos (by simp [hfor])]
    exact .ignored hin (.inr (.inl rfl))

/-! ## Messages -/

/-- The number of bytes of an object. -/
def size : MsgObject → ℕ
  | .null => 0
  | .response => 7
  | .dataPtr => 2
  | .usbConfiguration => 1
  | .usbDescriptorDevice | .usbDescriptorConfiguration => 18
  | .usbDescriptorString0 => 4
  | .usbDescriptorStringDevice => 20

theorem length_memory (d : UsbDriver) (object : MsgObject) :
    (d.memory object).length = size object := by
  cases object <;> simp [memory, size, usbDescriptorDevice, usbDescriptorConfiguration,
    usbDescriptorString0, usbDescriptorStringDevice]

/-- The first `len` bytes behind the pointer are bytes of its object. -/
def Points (d : UsbDriver) (len : ℕ) : Prop :=
  d.msgPtrIsRom = d.usbMsgPtr.object.isRom ∧ d.usbMsgPtr.offset + len ≤ size d.usbMsgPtr.object

/-- A packet is in the buffer of the transmitter. -/
def Ready (d : UsbDriver) (pid : UInt8) (data : List UInt8) : Prop :=
  data.length ≤ 8 ∧ d.usbTxLen = UInt8.ofNat (data.length + 4) ∧
    d.usbTxBuf.toList.take (data.length + 3) = dataPacket pid data

/-- The invariant of the driver. -/
structure Sound (d : UsbDriver) : Prop where
  dataPhase : d.firmware.DataPhase
  rx : d.usbRxLen = 0 ∨ 4 ≤ d.usbRxLen ∧ d.usbRxLen ≤ 11
  tx : d.usbTxLen = USBPID_NAK ∨ ∃ pid data, IsDataPid pid ∧ d.Ready pid data
  pid : d.usbMsgLen ≠ USB_NO_MSG ∨ d.firmware.userRw → IsDataPid (firstByte d.usbTxBuf)
  msg : d.usbMsgLen ≠ USB_NO_MSG → d.firmware.userRw = false → d.usbMsgLen ≠ 0 →
    d.Points d.usbMsgLen.toNat

theorem sound_init : Sound init where
  dataPhase := Firmware.dataPhase_init
  rx := .inl rfl
  tx := .inl rfl
  pid h := by
    rcases h with h | h
    · exact absurd rfl h
    · cases h
  msg h := absurd rfl h

/-- A length and a handshake token are told apart. -/
theorem and_ofNat_add_four {n : ℕ} (h : n ≤ 8) : UInt8.ofNat (n + 4) &&& 0x10 = 0 := by
  have hall : ∀ n ≤ 8, UInt8.ofNat (n + 4) &&& 0x10 = 0 := by decide
  exact hall n h

/-- What is sent from the buffer. -/
theorem Ready.take_eq {d : UsbDriver} {pid : UInt8} {data : List UInt8} (h : d.Ready pid data) :
    d.usbTxBuf.toList.take (d.usbTxLen.toNat - 1) = dataPacket pid data := by
  have hall : ∀ n ≤ 8, (UInt8.ofNat (n + 4)).toNat - 1 = n + 3 := by decide
  rw [h.2.1, hall _ h.1, h.2.2]

/-! ## Fetching the bytes of a packet -/

theorem readMsg_eq (d : UsbDriver) (ptr : MsgPtr) (len : ℕ)
    (hrom : d.msgPtrIsRom = ptr.object.isRom) (hle : ptr.offset + len ≤ size ptr.object) :
    d.readMsg ptr len = .ok (((d.memory ptr.object).drop ptr.offset).take len) := by
  induction len generalizing ptr with
  | zero => simp [readMsg]
  | succ len ih =>
    have hlt : ptr.offset < (d.memory ptr.object).length := by
      rw [length_memory]
      omega
    have hnext := ih { ptr with offset := ptr.offset + 1 } hrom (by dsimp only; omega)
    rw [readMsg, load, if_pos hrom, List.getElem?_eq_getElem hlt]
    dsimp only [bind, Except.bind]
    rw [hnext, List.drop_eq_getElem_cons hlt, List.take_succ_cons]
    rfl

/-- The bytes of the next packet, with what the fetch changes. -/
inductive Fetched (d : UsbDriver) (len : ℕ) : Firmware → MsgPtr → List UInt8 → Prop
  | none (hlen : len = 0) : Fetched d len d.firmware d.usbMsgPtr []
  | user (hlen : len ≠ 0) (hrw : d.firmware.userRw) {firmware : Firmware} {data : List UInt8}
    (hread : d.firmware.usbFunctionRead len = .ok (firmware, data)) :
    Fetched d len firmware d.usbMsgPtr data
  | message (hlen : len ≠ 0) (hrw : d.firmware.userRw = false) (hpoints : d.Points len) :
    Fetched d len d.firmware { d.usbMsgPtr with offset := d.usbMsgPtr.offset + len }
      (((d.memory d.usbMsgPtr.object).drop d.usbMsgPtr.offset).take len)

/-- A read returns as many bytes as it is asked for at most. -/
theorem length_usbFunctionRead {f g : Firmware} {len : ℕ} {data : List UInt8}
    (hphase : f.DataPhase) (hrw : f.userRw) (h : f.usbFunctionRead len = .ok (g, data)) :
    data.length ≤ len := by
  have hle := hphase.offset hrw
  unfold Firmware.usbFunctionRead at h
  split_ifs at h with hsample hpulse
  · have hsize : arraySize f.command = 7 := by rw [hsample]; rfl
    obtain ⟨offset, hloop, -⟩ :=
      Firmware.readLoop_eq (by decide) f.sampleVector f.ioBufferOffset len (hsize ▸ hle)
    rw [hloop] at h
    cases h
    exact List.length_take_le _ _
  · have hsize : arraySize f.command = 192 := by rw [hpulse]; rfl
    obtain ⟨offset, hloop, -⟩ :=
      Firmware.readLoop_eq (by decide) f.ioBuffer f.ioBufferOffset len (hsize ▸ hle)
    rw [hloop] at h
    cases h
    exact List.length_take_le _ _
  · cases h
    exact Nat.zero_le _

theorem usbDeviceRead_eq {d : UsbDriver} {len : ℕ} (hphase : d.firmware.DataPhase)
    (hpoints : len ≠ 0 → d.firmware.userRw = false → d.Points len) :
    ∃ firmware ptr data,
      d.usbDeviceRead len = .ok ({ d with firmware, usbMsgPtr := ptr }, data) ∧
      d.Fetched len firmware ptr data ∧ data.length ≤ len := by
  unfold usbDeviceRead
  by_cases hlen : len = 0
  · rw [if_pos hlen]
    exact ⟨_, _, _, rfl, .none hlen, Nat.zero_le _⟩
  rw [if_neg hlen]
  by_cases hrw : d.firmware.userRw = true
  · obtain ⟨⟨firmware, data⟩, hread, -⟩ := Firmware.dataPhase_read hphase hrw len
    rw [if_pos hrw, hread]
    exact ⟨_, _, _, rfl, .user hlen hrw hread, length_usbFunctionRead hphase hrw hread⟩
  · rw [Bool.not_eq_true] at hrw
    have hp := hpoints hlen hrw
    rw [if_neg (by simp [hrw]), readMsg_eq d d.usbMsgPtr len hp.1 hp.2]
    exact ⟨_, _, _, rfl, .message hlen hrw hp, List.length_take_le _ _⟩

theorem wantLen_le (d : UsbDriver) : d.wantLen.toNat ≤ 8 ∧ d.wantLen.toNat ≤ d.usbMsgLen.toNat := by
  unfold wantLen
  split_ifs with h
  · rw [gt_iff_lt, UInt8.lt_iff_toNat_lt] at h
    exact ⟨Nat.le_refl _, Nat.le_of_lt h⟩
  · rw [UInt8.not_lt, UInt8.le_iff_toNat_le] at h
    exact ⟨h, Nat.le_refl _⟩

theorem memory_toggled (d : UsbDriver) (object : MsgObject) :
    d.toggled.memory object = d.memory object := by
  cases object with
  | dataPtr =>
    change (d.usbTxBuf.set 0 _).toList.drop 9 = d.usbTxBuf.toList.drop 9
    rw [Vector.toList_set, List.drop_set_of_lt (by decide)]
  | _ => rfl

/-- Building a packet puts it into the buffer, and ends the message if it is a short one. -/
theorem usbBuildTxBlock_eq {d : UsbDriver} (h : d.Sound) (hmsg : d.usbMsgLen ≠ USB_NO_MSG) :
    ∃ firmware ptr data,
      d.usbBuildTxBlock = .ok { d with
        firmware
        usbMsgPtr := ptr
        usbTxBuf := overwrite d.toggled.usbTxBuf 1 (UsbCrc16.usbCrc16Append data)
        usbTxLen := UInt8.ofNat (data.length + 4)
        usbMsgLen := if data.length + 4 < 12 then USB_NO_MSG else d.usbMsgLen - d.wantLen } ∧
      d.Fetched d.wantLen.toNat firmware ptr data ∧ data.length ≤ d.wantLen.toNat := by
  have hpoints : d.wantLen.toNat ≠ 0 → d.firmware.userRw = false →
      d.toggled.Points d.wantLen.toNat := by
    intro hlen hrw
    have hle := d.wantLen_le
    have hne : d.usbMsgLen ≠ 0 := by
      rintro hzero
      rw [hzero] at hle
      exact hlen (Nat.le_zero.mp hle.2)
    obtain ⟨hrom, hsize⟩ := h.msg hmsg hrw hne
    exact ⟨hrom, Nat.le_trans (Nat.add_le_add_left hle.2 _) hsize⟩
  obtain ⟨firmware, ptr, data, hread, hfetched, hlength⟩ :=
    usbDeviceRead_eq (d := d.toggled) h.dataPhase hpoints
  have hshort : data.length ≤ 8 := Nat.le_trans hlength d.wantLen_le.1
  refine ⟨firmware, ptr, data, ?_, ?_, hlength⟩
  · change d.toggled.usbDeviceRead d.wantLen.toNat >>= _ = _
    rw [hread]
    exact if_pos hshort
  · cases hfetched with
    | none hlen => exact .none hlen
    | user hlen hrw hread => exact Fetched.user (d := d) hlen hrw hread
    | message hlen hrw hp =>
      rw [memory_toggled]
      exact .message hlen hrw hp

/-- The packet that is built. -/
theorem take_overwrite (d : UsbDriver) {data : List UInt8} (hdata : data.length ≤ 8) :
    (overwrite d.toggled.usbTxBuf 1 (UsbCrc16.usbCrc16Append data)).toList.take
        (data.length + 3) =
      dataPacket (firstByte d.usbTxBuf ^^^ (USBPID_DATA0 ^^^ USBPID_DATA1)) data := by
  have hlength := UsbCrc16.length_usbCrc16Append data
  have hfirst : d.toggled.usbTxBuf.toList.take 1 =
      [firstByte d.usbTxBuf ^^^ (USBPID_DATA0 ^^^ USBPID_DATA1)] := by
    change (d.usbTxBuf.set 0 _).toList.take 1 = _
    rw [Vector.toList_set, List.take_add_one, List.take_zero, List.getElem?_set_self (by simp)]
    rfl
  rw [toList_overwrite _ _ _ (by omega), hfirst, List.take_append_of_le_length (by simp; omega),
    List.take_of_length_le (by simp; omega)]
  rfl

/-- What a fetch leaves of the data phase. -/
theorem Fetched.firmware {d : UsbDriver} {len : ℕ} {firmware : Firmware} {ptr : MsgPtr}
    {data : List UInt8} (h : d.Fetched len firmware ptr data) (hphase : d.firmware.DataPhase) :
    firmware.DataPhase ∧ firmware.userRw = d.firmware.userRw := by
  cases h with
  | none => exact ⟨hphase, rfl⟩
  | user _ hrw hread =>
    obtain ⟨r, hr, hphase'⟩ := Firmware.dataPhase_read hphase hrw len
    obtain ⟨offset, hoffset⟩ := Firmware.usbFunctionRead_eq_ok hread
    replace hoffset : firmware = { d.firmware with ioBufferOffset := offset } := hoffset
    rw [hread] at hr
    cases hr
    exact ⟨hphase', by rw [hoffset]⟩
  | message => exact ⟨hphase, rfl⟩

theorem firstByte_overwrite (buffer : Vector UInt8 11) {start : ℕ} (hstart : 0 < start)
    {bytes : List UInt8} (h : start + bytes.length ≤ 11) :
    firstByte (overwrite buffer start bytes) = firstByte buffer := by
  have heq : (overwrite buffer start bytes).toList[0]? = buffer.toList[0]? := by
    rw [toList_overwrite _ _ _ h, List.append_assoc,
      List.getElem?_append_left (by simp; omega), List.getElem?_take_of_lt hstart]
  rw [List.getElem?_eq_getElem (by simp), List.getElem?_eq_getElem (by simp),
    Vector.getElem_toList, Vector.getElem_toList] at heq
  exact Option.some.inj heq

/-- The second part of the poll does not fail. -/
theorem sound_pollTx {d : UsbDriver} (h : d.Sound) : ∃ d', d.pollTx = .ok d' ∧ d'.Sound := by
  unfold pollTx
  by_cases hidle : d.usbTxLen &&& 0x10 ≠ 0 ∧ d.usbMsgLen ≠ USB_NO_MSG
  · rw [if_pos hidle]
    obtain ⟨firmware, ptr, data, hbuild, hfetched, hlength⟩ := usbBuildTxBlock_eq h hidle.2
    obtain ⟨hphase, hrw⟩ := hfetched.firmware h.dataPhase
    have hshort : data.length ≤ 8 := Nat.le_trans hlength d.wantLen_le.1
    have hpid := h.pid (.inl hidle.2)
    have hfirst : firstByte (overwrite d.toggled.usbTxBuf 1 (UsbCrc16.usbCrc16Append data)) =
        firstByte d.usbTxBuf ^^^ (USBPID_DATA0 ^^^ USBPID_DATA1) := by
      rw [firstByte_overwrite _ (by decide) (by rw [UsbCrc16.length_usbCrc16Append]; omega)]
      exact Vector.getElem_set_self _
    refine ⟨_, hbuild, hphase, h.rx, .inr ⟨_, data, hpid.toggle, hshort, rfl, ?_⟩, ?_, ?_⟩
    · exact take_overwrite d hshort
    · intro _
      dsimp only
      rw [hfirst]
      exact hpid.toggle
    · dsimp only
      intro hnext hnot hne
      split_ifs at hnext hne ⊢ with hend
      · exact absurd rfl hnext
      · rw [hrw] at hnot
        have hlen : d.wantLen.toNat = 8 := by
          have hle := d.wantLen_le.1
          omega
        have hle : d.wantLen ≤ d.usbMsgLen := UInt8.le_iff_toNat_le.mpr d.wantLen_le.2
        have hne' : d.usbMsgLen ≠ 0 := by
          intro hzero
          have hle' := d.wantLen_le.2
          rw [hzero, hlen] at hle'
          exact absurd hle' (by decide)
        obtain ⟨hrom, hsize⟩ := h.msg hidle.2 hnot hne'
        cases hfetched with
        | none hzero => omega
        | user _ hrw' => simp [hnot] at hrw'
        | message =>
          refine ⟨hrom, ?_⟩
          have hle' := UInt8.le_iff_toNat_le.mp hle
          rw [UInt8.toNat_sub_of_le _ _ hle]
          dsimp only
          omega
  · rw [if_neg hidle]
    exact ⟨d, rfl, h⟩

/-! ## Requests -/

/-- The length of a reply, or no message for a data stage that the firmware handles itself. -/
theorem setupLength_cases (f : Firmware) (rq : SetupRequest) :
    Firmware.setupLength rq = USB_NO_MSG ∧ IsVectorCommand rq.bRequest ∧
        (f.usbFunctionSetup rq).userRw = true ∨
      (Firmware.setupLength rq).toNat ≤ 7 ∧ ¬IsVectorCommand rq.bRequest ∧
        (f.usbFunctionSetup rq).userRw = false := by
  by_cases hvector : IsVectorCommand rq.bRequest
  · refine .inl ⟨?_, hvector, ?_⟩
    · unfold Firmware.setupLength
      rcases hvector with h | h | h | h <;> rw [h] <;> rfl
    · rw [Firmware.usbFunctionSetup_vector f hvector]
  · refine .inr ⟨?_, hvector, ?_⟩
    · unfold Firmware.setupLength
      rw [if_neg (show ¬(_ ∨ _ ∨ _ ∨ _) from hvector)]
      split_ifs <;> decide
    · rcases Firmware.usbFunctionSetup_cases f rq with
        ⟨bytes, h⟩ | ⟨on, h⟩ | ⟨-, bytes, h⟩ | ⟨-, bytes, h⟩ | ⟨hyes, -⟩
      · rw [h]
        rfl
      · rw [h]
      · rw [h]
        rfl
      · rw [h]
        rfl
      · exact absurd hyes hvector

/-- What a standard request leaves: the firmware as it was, and a reply within an object. -/
structure Prepared (d d' : UsbDriver) (len : UInt8) : Prop where
  frame : d' = { d with
    usbTxBuf := d'.usbTxBuf, usbMsgPtr := d'.usbMsgPtr, msgPtrIsRom := d'.msgPtrIsRom
    usbNewDeviceAddr := d'.usbNewDeviceAddr, usbConfiguration := d'.usbConfiguration }
  first : firstByte d'.usbTxBuf = firstByte d.usbTxBuf
  short : len.toNat ≤ 20
  points : len ≠ 0 → d'.Points len.toNat

theorem prepared_usbDriverDescriptor (d : UsbDriver) (rq : UsbRequest) :
    d.Prepared (d.usbDriverDescriptor rq).1 (d.usbDriverDescriptor rq).2 := by
  unfold usbDriverDescriptor
  dsimp only
  by_cases hdevice : (rq.wValue >>> 8).toUInt8 = USBDESCR_DEVICE
  · rw [if_pos hdevice]
    exact ⟨rfl, rfl, by dsimp only; decide, fun _ => ⟨rfl, Nat.le_refl 18⟩⟩
  rw [if_neg hdevice]
  by_cases hconfig : (rq.wValue >>> 8).toUInt8 = USBDESCR_CONFIG
  · rw [if_pos hconfig]
    exact ⟨rfl, rfl, by dsimp only; decide, fun _ => ⟨rfl, Nat.le_refl 18⟩⟩
  rw [if_neg hconfig]
  by_cases hstring : (rq.wValue >>> 8).toUInt8 = USBDESCR_STRING
  · rw [if_pos hstring]
    by_cases hlanguage : rq.wValue.toUInt8 = 0
    · rw [if_pos hlanguage]
      exact ⟨rfl, rfl, by dsimp only; decide, fun _ => ⟨rfl, Nat.le_refl 4⟩⟩
    rw [if_neg hlanguage]
    by_cases hproduct : rq.wValue.toUInt8 = 2
    · rw [if_pos hproduct]
      exact ⟨rfl, rfl, by dsimp only; decide, fun _ => ⟨rfl, Nat.le_refl 20⟩⟩
    rw [if_neg hproduct]
    exact ⟨rfl, rfl, by dsimp only; decide, fun h => absurd rfl h⟩
  rw [if_neg hstring]
  exact ⟨rfl, rfl, by dsimp only; decide, fun h => absurd rfl h⟩

theorem prepared_usbDriverSetup (d : UsbDriver) (rq : UsbRequest) (hrom : d.msgPtrIsRom = false) :
    d.Prepared (d.usbDriverSetup rq).1 (d.usbDriverSetup rq).2 := by
  have hfirst : firstByte (d.usbTxBuf.set 9 0) = firstByte d.usbTxBuf :=
    Vector.getElem_set_ne _ _ (by decide)
  unfold usbDriverSetup
  dsimp only
  by_cases hstatus : rq.bRequest = USBRQ_GET_STATUS
  · rw [if_pos hstatus]
    refine ⟨rfl, ?_, by dsimp only; decide, fun _ => ⟨hrom, Nat.le_refl 2⟩⟩
    have hsecond : firstByte ((d.usbTxBuf.set 9 0).set 10 0) = firstByte (d.usbTxBuf.set 9 0) :=
      Vector.getElem_set_ne _ _ (by decide)
    exact hsecond.trans hfirst
  rw [if_neg hstatus]
  by_cases haddress : rq.bRequest = USBRQ_SET_ADDRESS
  · rw [if_pos haddress]
    exact ⟨rfl, hfirst, by dsimp only; decide, fun h => absurd rfl h⟩
  rw [if_neg haddress]
  by_cases hdescriptor : rq.bRequest = USBRQ_GET_DESCRIPTOR
  · rw [if_pos hdescriptor]
    obtain ⟨hframe, hbuf, hshort, hpoints⟩ :=
      prepared_usbDriverDescriptor { d with usbTxBuf := d.usbTxBuf.set 9 0 } rq
    exact ⟨by rw [hframe], hbuf.trans hfirst, hshort, hpoints⟩
  rw [if_neg hdescriptor]
  by_cases hgetConfiguration : rq.bRequest = USBRQ_GET_CONFIGURATION
  · rw [if_pos hgetConfiguration]
    exact ⟨rfl, hfirst, by dsimp only; decide, fun _ => ⟨hrom, Nat.le_refl 1⟩⟩
  rw [if_neg hgetConfiguration]
  by_cases hsetConfiguration : rq.bRequest = USBRQ_SET_CONFIGURATION
  · rw [if_pos hsetConfiguration]
    exact ⟨rfl, hfirst, by dsimp only; decide, fun h => absurd rfl h⟩
  rw [if_neg hsetConfiguration]
  by_cases hinterface : rq.bRequest = USBRQ_GET_INTERFACE
  · rw [if_pos hinterface]
    exact ⟨rfl, hfirst, by dsimp only; decide, fun _ => ⟨hrom, Nat.le_succ 1⟩⟩
  rw [if_neg hinterface]
  exact ⟨rfl, hfirst, by dsimp only; decide, fun h => absurd rfl h⟩

/-- The end of `usbProcessRx` for a request. -/
def limited (d : UsbDriver) (rq : UsbRequest) (replyLen : UInt8) : UsbDriver :=
  if replyLen = USB_NO_MSG then
    { d with
      usbMsgLen :=
        if rq.bmRequestType &&& USBRQ_DIR_MASK ≠ 0 then rq.wLength.toUInt8 else replyLen
      firmware := { d.firmware with userRw := true }
      msgPtrIsRom := false }
  else if rq.wLength >>> 8 = 0 ∧ replyLen > rq.wLength.toUInt8 then
    { d with usbMsgLen := rq.wLength.toUInt8 }
  else { d with usbMsgLen := replyLen }

theorem processSetup_eq (d : UsbDriver) (rq : UsbRequest) :
    d.processSetup rq =
      if rq.bmRequestType &&& USBRQ_TYPE_MASK ≠ 0 then
        (d.aborted.functionSetup rq).1.limited rq (d.aborted.functionSetup rq).2
      else (d.aborted.usbDriverSetup rq).1.limited rq (d.aborted.usbDriverSetup rq).2 := by
  unfold processSetup
  by_cases htype : rq.bmRequestType &&& USBRQ_TYPE_MASK ≠ 0
  · rw [if_pos htype]
    simp only [if_pos htype]
    rfl
  · rw [if_neg htype]
    simp only [if_neg htype]
    rfl

/-- The reply is cut to the length that the host asks for, or is the one of a data stage. -/
theorem sound_limited {d : UsbDriver} {rq : UsbRequest} {replyLen : UInt8}
    (hphase : replyLen = USB_NO_MSG → d.firmware.userRw = true) (hd : d.firmware.DataPhase)
    (hrx : d.usbRxLen = 0 ∨ 4 ≤ d.usbRxLen ∧ d.usbRxLen ≤ 11) (htx : d.usbTxLen = USBPID_NAK)
    (hpid : firstByte d.usbTxBuf = USBPID_DATA0)
    (hmsg : replyLen ≠ USB_NO_MSG → replyLen ≠ 0 → d.Points replyLen.toNat) :
    (d.limited rq replyLen).Sound := by
  unfold limited
  by_cases hno : replyLen = USB_NO_MSG
  · have hsame : ({ d.firmware with userRw := true } : Firmware) = d.firmware := by
      rw [← hphase hno]
    rw [if_pos hno, hsame]
    refine ⟨hd, hrx, .inl htx, fun _ => .inl hpid, fun _ h => ?_⟩
    exact absurd (h.symm.trans (hphase hno)) (by decide)
  rw [if_neg hno]
  split_ifs with hcut
  · refine ⟨hd, hrx, .inl htx, fun _ => .inl hpid, fun _ _ hne => ?_⟩
    have hlt := UInt8.lt_iff_toNat_lt.mp hcut.2
    have hzero : replyLen ≠ 0 := by
      rintro rfl
      exact absurd hlt (Nat.not_lt_zero _)
    obtain ⟨hrom, hsize⟩ := hmsg hno hzero
    exact ⟨hrom, Nat.le_trans (Nat.add_le_add_left (Nat.le_of_lt hlt) _) hsize⟩
  · exact ⟨hd, hrx, .inl htx, fun _ => .inl hpid, fun _ _ hne => hmsg hno hne⟩

theorem sound_processSetup {d : UsbDriver} (h : d.Sound) (rq : UsbRequest) :
    (d.processSetup rq).Sound := by
  have hpid : firstByte (d.usbTxBuf.set 0 USBPID_DATA0) = USBPID_DATA0 := Vector.getElem_set_self _
  rw [processSetup_eq]
  split_ifs with htype
  · refine sound_limited ?_ (Firmware.dataPhase_usbFunctionSetup _ _) h.rx rfl hpid ?_
    · intro hno
      rcases setupLength_cases d.aborted.firmware rq.setup with ⟨-, -, hrw⟩ | ⟨hle, -⟩
      · exact hrw
      · rw [show Firmware.setupLength rq.setup = USB_NO_MSG from hno] at hle
        exact absurd hle (by decide)
    · intro hno hne
      rcases setupLength_cases d.aborted.firmware rq.setup with ⟨hlen, -⟩ | ⟨hle, -⟩
      · exact absurd hlen hno
      · have hptr : (d.aborted.functionSetup rq).1.usbMsgPtr = ⟨.response, 0⟩ := if_pos hne
        refine ⟨?_, ?_⟩
        · rw [hptr]
          rfl
        · rw [hptr]
          exact Nat.le_trans (Nat.le_of_eq (Nat.zero_add _)) hle
  · obtain ⟨hframe, hbuf, hshort, hpoints⟩ := prepared_usbDriverSetup d.aborted rq rfl
    refine sound_limited ?_ ?_ ?_ ?_ (hbuf.trans hpid) fun _ hne => hpoints hne
    · intro hno
      rw [hno] at hshort
      exact absurd hshort (by decide)
    · rw [hframe]
      exact Firmware.dataPhase_of_not_userRw rfl
    · rw [hframe]
      exact h.rx
    · rw [hframe]
      rfl

/-! ## Received data -/

/-- The bytes of the data packet that waits for the main loop. -/
def payload (d : UsbDriver) : List UInt8 := (d.usbRxBuf.toList.drop 1).take (d.usbRxLen - 3)

theorem length_payload {d : UsbDriver} (h : d.usbRxLen ≤ 11) :
    d.payload.length = d.usbRxLen - 3 := by
  unfold payload
  rw [List.length_take, List.length_drop, Vector.length_toList]
  omega

/-- The main loop passes data on to a command that does not take it. -/
def Misdirected (d : UsbDriver) : Prop :=
  d.usbRxLen ≠ 0 ∧ d.usbRxToken ≠ USBPID_SETUP ∧ d.firmware.Misdirected (.dataOut d.payload)

/-- A data packet is written, and the status stage is prepared when some of it was. -/
theorem processOut_cases {d : UsbDriver} (hd : d.firmware.DataPhase) (data : List UInt8)
    (hdata : data.length ≤ 8) :
    (∃ firmware usbMsgLen, d.processOut data = .ok { d with firmware, usbMsgLen } ∧
        d.firmware.step (.dataOut data) = .ok firmware ∧ firmware.DataPhase ∧
        firmware.userRw = d.firmware.userRw ∧
        (usbMsgLen = d.usbMsgLen ∨ usbMsgLen = 0 ∧ d.firmware.userRw = true) ∧
        ¬d.firmware.Misdirected (.dataOut data)) ∨
      d.processOut data = .error .fault ∧ d.firmware.Misdirected (.dataOut data) := by
  unfold processOut
  by_cases hrw : d.firmware.userRw = true
  · rw [if_pos hrw]
    rcases Firmware.dataPhase_write hd hrw data with
      ⟨⟨firmware, hwrite, hphase, -⟩, hmis⟩ | ⟨hfault, hmis⟩
    · left
      obtain ⟨k, hk, hoffset⟩ := Firmware.usbFunctionWrite_offset hwrite
      obtain ⟨sampleVector, ioBuffer, ioBufferOffset, hfirmware, -⟩ :=
        Firmware.usbFunctionWrite_eq_ok hwrite
      have hne : UInt8.ofNat k ≠ 0xff := by
        have hall : ∀ k ≤ 8, UInt8.ofNat k ≠ 0xff := by decide
        exact hall k (by omega)
      have hstep : d.firmware.step (.dataOut data) = .ok firmware := (if_pos hrw).trans hwrite
      have hsame : firmware.userRw = d.firmware.userRw := by rw [hfirmware]
      rw [hwrite]
      dsimp only [bind, Except.bind]
      rw [hoffset, if_neg hne]
      split_ifs
      · exact ⟨firmware, 0, rfl, hstep, hphase, hsame, .inr ⟨rfl, hrw⟩, hmis⟩
      · exact ⟨firmware, d.usbMsgLen, rfl, hstep, hphase, hsame, .inl rfl, hmis⟩
    · right
      rw [hfault]
      exact ⟨rfl, hmis⟩
  · left
    rw [if_neg hrw]
    refine ⟨d.firmware, d.usbMsgLen, rfl, if_neg hrw, hd, rfl, .inl rfl, ?_⟩
    exact fun hmis => hrw hmis.1

/-! ## Steps -/

/-- The events of the firmware in the first part of a poll. -/
def projectRx (d : UsbDriver) : List Event :=
  if d.usbRxLen = 0 then []
  else if d.usbRxToken = USBPID_SETUP then
    if d.usbRxLen ≠ 11 then []
    else if d.request.bmRequestType &&& USBRQ_TYPE_MASK ≠ 0 then [.setup d.request.setup]
    else [.standard]
  else [.dataOut d.payload]

/-- The events in the second part. -/
def projectTx (d : UsbDriver) : List Event :=
  if d.usbTxLen &&& 0x10 ≠ 0 ∧ d.usbMsgLen ≠ USB_NO_MSG ∧ d.wantLen ≠ 0 then
    [.dataIn d.wantLen.toNat]
  else []

/-- The events of the firmware in a step. -/
def project (d : UsbDriver) : UsbEvent → List Event
  | .poll => d.projectRx ++ (d.pollRx.toOption.map projectTx).getD []
  | .idle => [.idle]
  | .adc adch => [.adc adch]
  | .timer0 => [.timer0]
  | _ => []

theorem project_poll (d : UsbDriver) :
    d.project .poll = d.projectRx ++ (d.pollRx.toOption.map projectTx).getD [] := rfl

theorem firmware_limited {d : UsbDriver} {rq : UsbRequest} {replyLen : UInt8}
    (hphase : replyLen = USB_NO_MSG → d.firmware.userRw = true) :
    (d.limited rq replyLen).firmware = d.firmware := by
  unfold limited
  by_cases hno : replyLen = USB_NO_MSG
  · rw [if_pos hno, ← hphase hno]
  · rw [if_neg hno]
    split_ifs <;> rfl

theorem firmware_processSetup (d : UsbDriver) (rq : UsbRequest) :
    (d.processSetup rq).firmware =
      if rq.bmRequestType &&& USBRQ_TYPE_MASK ≠ 0 then d.firmware.usbFunctionSetup rq.setup
      else { d.firmware with userRw := false } := by
  rw [processSetup_eq]
  split_ifs with htype
  · refine (firmware_limited ?_).trans rfl
    intro hno
    rcases setupLength_cases d.aborted.firmware rq.setup with ⟨-, -, hrw⟩ | ⟨hle, -⟩
    · exact hrw
    · rw [show Firmware.setupLength rq.setup = USB_NO_MSG from hno] at hle
      exact absurd hle (by decide)
  · obtain ⟨hframe, -, hshort, -⟩ := prepared_usbDriverSetup d.aborted rq rfl
    refine (firmware_limited ?_).trans ?_
    · intro hno
      rw [hno] at hshort
      exact absurd hshort (by decide)
    · rw [hframe]
      rfl

/-- The first part of a poll. -/
theorem pollRx_cases {d : UsbDriver} (h : d.Sound) :
    (∃ d', d.pollRx = .ok d' ∧ d'.Sound ∧ d'.usbRxLen = 0 ∧
        d.projectRx.foldlM Firmware.step d.firmware = .ok d'.firmware ∧
        (∀ e ∈ d.projectRx, e.Sized) ∧ ¬d.Misdirected) ∨
      d.pollRx = .error .fault ∧ d.Misdirected := by
  unfold pollRx projectRx
  by_cases hzero : d.usbRxLen = 0
  · rw [if_neg (by omega), if_pos hzero]
    exact .inl ⟨d, rfl, h, hzero, rfl, List.forall_mem_nil _, fun hmis => hmis.1 hzero⟩
  obtain ⟨hmin, hmax⟩ := h.rx.resolve_left hzero
  rw [if_pos (by omega), if_neg hzero, usbProcessRx]
  by_cases hsetup : d.usbRxToken = USBPID_SETUP
  · have hmis : ¬d.Misdirected := fun hmis => hmis.2.1 hsetup
    rw [if_pos hsetup, if_pos hsetup]
    by_cases hlen : d.usbRxLen = 11
    · have hsound := sound_processSetup h d.request
      have hfirmware := firmware_processSetup d d.request
      rw [if_neg (by omega), if_neg (not_not.mpr hlen)]
      refine .inl ⟨{ d.processSetup d.request with usbRxLen := 0 }, rfl, ?_, rfl, ?_, ?_, hmis⟩
      · exact ⟨hsound.dataPhase, .inl rfl, hsound.tx, hsound.pid, hsound.msg⟩
      · dsimp only
        rw [hfirmware]
        split_ifs
        · rfl
        · rfl
      · split_ifs <;> simp [Event.Sized]
    · rw [if_pos (by omega), if_pos hlen]
      refine .inl ⟨{ d with usbRxLen := 0 }, rfl, ?_, rfl, rfl, List.forall_mem_nil _, hmis⟩
      exact ⟨h.dataPhase, .inl rfl, h.tx, h.pid, h.msg⟩
  · have hlength := length_payload hmax
    rw [if_neg hsetup, if_neg hsetup]
    change (∃ d', (d.processOut d.payload >>= _) = _ ∧ _) ∨ (d.processOut d.payload >>= _) = _ ∧ _
    rcases processOut_cases h.dataPhase d.payload (by omega) with
      ⟨firmware, usbMsgLen, hout, hstep, hphase, hrw, hmsg, hmis⟩ | ⟨hfault, hmis⟩
    · rw [hout]
      refine .inl ⟨{ d with firmware, usbMsgLen, usbRxLen := 0 }, rfl, ?_, rfl, ?_, ?_,
        fun hbad => hmis hbad.2.2⟩
      · refine ⟨hphase, .inl rfl, h.tx, ?_, ?_⟩
        · dsimp only
          rw [hrw]
          rcases hmsg with rfl | ⟨-, huser⟩
          · exact h.pid
          · exact fun _ => h.pid (.inr huser)
        · dsimp only
          rw [hrw]
          rcases hmsg with rfl | ⟨-, huser⟩
          · exact h.msg
          · exact fun _ hnot => absurd (hnot.symm.trans huser) (by decide)
      · rw [List.foldlM_cons, hstep]
        rfl
      · rw [List.forall_mem_singleton]
        exact ⟨by omega, by omega⟩
    · rw [hfault]
      exact .inr ⟨rfl, hzero, hsetup, hmis⟩

/-- The second part. -/
theorem pollTx_spec {d : UsbDriver} (h : d.Sound) :
    ∃ d', d.pollTx = .ok d' ∧ d'.Sound ∧
      d.projectTx.foldlM Firmware.step d.firmware = .ok d'.firmware ∧
      ∀ e ∈ d.projectTx, e.Sized := by
  obtain ⟨d', hpoll, hsound⟩ := sound_pollTx h
  refine ⟨d', hpoll, hsound, ?_, ?_⟩
  · unfold pollTx at hpoll
    unfold projectTx
    by_cases hidle : d.usbTxLen &&& 0x10 ≠ 0 ∧ d.usbMsgLen ≠ USB_NO_MSG
    · rw [if_pos hidle] at hpoll
      obtain ⟨firmware, ptr, data, hbuild, hfetched, -⟩ := usbBuildTxBlock_eq h hidle.2
      rw [hbuild] at hpoll
      cases hpoll
      by_cases hwant : d.wantLen = 0
      · rw [if_neg (by simp [hwant])]
        cases hfetched with
        | none => rfl
        | user hlen => simp [hwant] at hlen
        | message => rfl
      · have hlen : d.wantLen.toNat ≠ 0 := UInt8.toNat_inj.not.mpr hwant
        rw [if_pos ⟨hidle.1, hidle.2, hwant⟩, List.foldlM_cons, Firmware.step]
        cases hfetched with
        | none hzero => exact absurd hzero hlen
        | user _ hrw hread =>
          rw [if_pos hrw, hread]
          rfl
        | message _ hrw =>
          rw [if_neg (by simp [hrw])]
          rfl
    · rw [if_neg hidle] at hpoll
      cases hpoll
      rw [if_neg fun hyes => hidle ⟨hyes.1, hyes.2.1⟩]
      rfl
  · unfold projectTx
    split_ifs with hwant
    · rw [List.forall_mem_singleton]
      have hlen : d.wantLen.toNat ≠ 0 := UInt8.toNat_inj.not.mpr hwant.2.2
      exact ⟨Nat.pos_of_ne_zero hlen, d.wantLen_le.1⟩
    · exact List.forall_mem_nil _

/-- A handler or an idle round of the firmware keeps the data phase. -/
theorem sound_fire {d d' : UsbDriver} {e : Event} (h : d.Sound) (hfire : d.fire e = .ok d')
    (husb : ∀ g, d.firmware.step e = .ok g → g.userRw = d.firmware.userRw) :
    d'.Sound ∧ d.firmware.step e = .ok d'.firmware := by
  obtain ⟨firmware, hstep, hd'⟩ := Except.bind_eq_ok_iff.mp hfire
  cases hd'
  refine ⟨⟨h.dataPhase.step hstep, h.rx, h.tx, ?_, ?_⟩, hstep⟩
  · dsimp only
    rw [husb _ hstep]
    exact h.pid
  · dsimp only
    rw [husb _ hstep]
    exact h.msg

theorem sound_receive {d : UsbDriver} (h : d.Sound) (packet : List UInt8) :
    (d.receive packet).1.Sound := by
  have hreceived := d.received packet
  generalize (d.receive packet).1 = d', (d.receive packet).2 = reply at hreceived
  cases hreceived with
  | stored _ _ _ hmin hmax => exact ⟨h.dataPhase, .inr ⟨hmin, hmax⟩, h.tx, h.pid, h.msg⟩
  | sent => exact ⟨h.dataPhase, h.rx, .inl rfl, h.pid, h.msg⟩
  | _ => exact ⟨h.dataPhase, h.rx, h.tx, h.pid, h.msg⟩

theorem userRw_eq_of_usb {f g : Firmware} (h : g.usb = f.usb) : g.userRw = f.userRw := by
  simp only [Firmware.usb, Prod.mk.injEq] at h
  exact h.2.2

theorem usb_step_adc {f g : Firmware} {adch : UInt8} (h : f.step (.adc adch) = .ok g) :
    g.usb = f.usb := by
  obtain ⟨-, ⟨-, rfl⟩ | ⟨-, hstore⟩⟩ := Firmware.step_adc_eq_ok h
  · exact Firmware.usb_adcWait _ _
  · have husb := Firmware.usb_adcStore hstore
    exact husb

theorem usb_step_timer0 {f g : Firmware} (h : f.step .timer0 = .ok g) : g.usb = f.usb :=
  Firmware.usb_timer0Compa (Firmware.step_timer0_eq_ok h).2

/-- A poll comes back unless the packet that waits is misdirected. -/
theorem poll_cases {d : UsbDriver} (h : d.Sound) :
    (∃ d', d.poll = .ok d' ∧ d'.Sound ∧
        (d.project .poll).foldlM Firmware.step d.firmware = .ok d'.firmware ∧
        (∀ e ∈ d.project .poll, e.Sized) ∧ ¬d.Misdirected) ∨
      d.poll = .error .fault ∧ d.Misdirected := by
  unfold poll project
  rcases pollRx_cases h with ⟨d₁, hrx, hsound, -, hfold, hsized, hmis⟩ | ⟨hfault, hmis⟩
  · obtain ⟨d₂, htx, hsound₂, hfold₂, hsized₂⟩ := pollTx_spec hsound
    rw [hrx]
    refine .inl ⟨d₂, htx, hsound₂, ?_, ?_, hmis⟩
    · rw [List.foldlM_append, hfold]
      exact hfold₂
    · intro e he
      rcases List.mem_append.mp he with he | he
      · exact hsized e he
      · exact hsized₂ e he
  · rw [hfault]
    exact .inr ⟨rfl, hmis⟩

/-- A step keeps the invariant, and does to the firmware what its projection says. -/
theorem sound_step {d d' : UsbDriver} {e : UsbEvent} (h : d.Sound) (hstep : d.step e = .ok d') :
    d'.Sound ∧ (d.project e).foldlM Firmware.step d.firmware = .ok d'.firmware ∧
      ∀ x ∈ d.project e, x.Sized := by
  have hone {e : Event} (hsound : d'.Sound) (hfirmware : d.firmware.step e = .ok d'.firmware)
      (hsized : e.Sized) : d'.Sound ∧ [e].foldlM Firmware.step d.firmware = .ok d'.firmware ∧
        ∀ x ∈ [e], x.Sized := by
    refine ⟨hsound, ?_, List.forall_mem_singleton.mpr hsized⟩
    rw [List.foldlM_cons, hfirmware]
    rfl
  cases e with
  | packet bytes =>
    have hsound := sound_receive h bytes
    have hreceived := d.received bytes
    cases hstep
    refine ⟨hsound, ?_, List.forall_mem_nil _⟩
    generalize (d.receive bytes).1 = d', (d.receive bytes).2 = reply at hreceived
    cases hreceived <;> rfl
  | poll =>
    rcases poll_cases h with ⟨d₁, hpoll, hsound, hfold, hsized, -⟩ | ⟨hfault, -⟩
    · cases hpoll.symm.trans hstep
      exact ⟨hsound, hfold, hsized⟩
    · cases hfault.symm.trans hstep
  | idle =>
    obtain ⟨hsound, hfirmware⟩ := sound_fire h hstep fun g hg =>
      userRw_eq_of_usb (Firmware.usb_idleRound hg)
    exact hone hsound hfirmware trivial
  | adc adch =>
    obtain ⟨hsound, hfirmware⟩ := sound_fire h hstep fun g hg =>
      userRw_eq_of_usb (usb_step_adc hg)
    exact hone hsound hfirmware trivial
  | timer0 =>
    obtain ⟨hsound, hfirmware⟩ := sound_fire h hstep fun g hg =>
      userRw_eq_of_usb (usb_step_timer0 hg)
    exact hone hsound hfirmware trivial
  | reset =>
    cases hstep
    exact ⟨⟨h.dataPhase, h.rx, h.tx, h.pid, h.msg⟩, rfl, List.forall_mem_nil _⟩

/-- What the device sends. -/
theorem isAnswer_answer {d : UsbDriver} (h : d.Sound) {e : UsbEvent} {bytes : List UInt8}
    (hanswer : d.answer e = some bytes) : IsAnswer bytes := by
  cases e with
  | packet packet =>
    have hreceived := d.received packet
    rw [answer] at hanswer
    rw [hanswer] at hreceived
    generalize (d.receive packet).1 = d' at hreceived
    cases hreceived with
    | busy => exact .inr (.inl rfl)
    | status => exact .inl rfl
    | stored => exact .inl rfl
    | unready hin hrx htx =>
      rcases h.tx with hnak | ⟨pid, data, -, hready⟩
      · rw [hnak]
        exact .inr (.inl rfl)
      · rw [hready.2.1] at htx
        exact absurd (and_ofNat_add_four hready.1) htx
    | sent hin hrx htx =>
      rcases h.tx with hnak | ⟨pid, data, hpid, hready⟩
      · rw [hnak] at htx
        exact absurd htx (by decide)
      · exact .inr (.inr ⟨pid, data, hpid, hready.1, hready.take_eq⟩)
  | _ => cases hanswer

/-! ## Runs -/

theorem Sound.run {tr : List (UsbDriver × UsbEvent)} {d d' : UsbDriver} (h : d.Sound)
    (hrun : Run UsbDriver.step d tr d') : d'.Sound := by
  refine hrun.invariant Sound (fun _ _ => True) ?_ h fun _ _ => trivial
  exact fun d e d' h _ hstep => (sound_step h hstep).1

theorem sound_of_run {tr : List (UsbDriver × UsbEvent)} {d : UsbDriver}
    (hrun : Run step init tr d) : d.Sound := sound_init.run hrun

/-- Whatever the host sends, an answer of the device is an acknowledgement, a refusal or a data
packet with its checksum, and the main loop processes every packet but a misdirected one. -/
theorem run_answers {tr : List (UsbDriver × UsbEvent)} {d : UsbDriver}
    (hrun : Run step init tr d) :
    (∀ e bytes, d.answer e = some bytes → IsAnswer bytes) ∧
      ((∃ d', d.step .poll = .ok d') ↔ ¬d.Misdirected) := by
  have hsound := sound_of_run hrun
  refine ⟨fun e bytes => isAnswer_answer hsound, ?_⟩
  rcases poll_cases hsound with ⟨d', hpoll, -, -, -, hmis⟩ | ⟨hfault, hmis⟩
  · exact ⟨fun _ => hmis, fun _ => ⟨d', hpoll⟩⟩
  · refine ⟨fun ⟨d', hpoll⟩ => ?_, fun hnot => absurd hmis hnot⟩
    cases hfault.symm.trans hpoll

/-- The packets of a request for the version. -/
def askVersion : List UsbEvent :=
  [.packet [USBPID_SETUP, 0, 0], .packet (dataPacket USBPID_DATA0 [0xc0, 1, 0, 0, 0, 0, 3, 0]),
    .poll]

/-- Behind a request for the version. -/
theorem run_answers_askVersion :
    ∃ d, askVersion.foldlM step init = .ok d ∧
      (∀ e bytes, d.answer e = some bytes → IsAnswer bytes) ∧
      ((∃ d', d.step .poll = .ok d') ↔ ¬d.Misdirected) := by
  obtain ⟨d, hd⟩ : ∃ d, askVersion.foldlM step init = .ok d := ⟨_, rfl⟩
  exact ⟨d, hd, run_answers (Run.of_foldlM hd)⟩

/-- What a run of the driver does to the firmware. -/
theorem foldlM_project {d d' : UsbDriver} {tr : List (UsbDriver × UsbEvent)} (h : d.Sound)
    (hrun : Run step d tr d') :
    (tr.flatMap fun p => p.1.project p.2).foldlM Firmware.step d.firmware = .ok d'.firmware ∧
      ∀ e ∈ (tr.flatMap fun p => p.1.project p.2), e.Sized := by
  induction hrun with
  | nil => exact ⟨rfl, List.forall_mem_nil _⟩
  | cons head _ ih =>
    obtain ⟨hsound, hfold, hsized⟩ := sound_step h head
    obtain ⟨hrest, hsized'⟩ := ih hsound
    rw [List.flatMap_cons]
    refine ⟨?_, List.forall_mem_append.mpr ⟨hsized, hsized'⟩⟩
    rw [List.foldlM_append, hfold]
    exact hrest

/-- A run of the driver is a run of the firmware by the projections of its steps, with data
packets of one to eight bytes. -/
theorem run_refines {tr : List (UsbDriver × UsbEvent)} {d : UsbDriver}
    (hrun : Run step init tr d) :
    ∃ tr' : List (Firmware × Event),
      tr'.map (·.2) = (tr.flatMap fun p => p.1.project p.2) ∧
      Run Firmware.step Firmware.init tr' d.firmware ∧ ∀ p ∈ tr', p.2.Sized := by
  obtain ⟨hfold, hsized⟩ := foldlM_project sound_init hrun
  obtain ⟨tr', hevents, hrun'⟩ := Run.exists_of_foldlM hfold
  refine ⟨tr', hevents, hrun', fun p hp => hsized _ ?_⟩
  rw [← hevents]
  exact List.mem_map_of_mem hp

/-- The events of a request for the version. -/
theorem run_refines_askVersion :
    ∃ d, askVersion.foldlM step init = .ok d ∧
      ∃ tr' : List (Firmware × Event),
        tr'.map (·.2) =
          ((trace step init askVersion).flatMap fun p => p.1.project p.2) ∧
        Run Firmware.step Firmware.init tr' d.firmware ∧ ∀ p ∈ tr', p.2.Sized := by
  obtain ⟨d, hd⟩ : ∃ d, askVersion.foldlM step init = .ok d := ⟨_, rfl⟩
  exact ⟨d, hd, run_refines (Run.of_foldlM hd)⟩

end UsbDriver

end RfidTool

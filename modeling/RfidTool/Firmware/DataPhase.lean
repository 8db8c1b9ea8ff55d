import RfidTool.Firmware.Control

/-!
# The data phase

The two functions of the data phase share `ioBufferOffset` and compare it for equality
with the size of the array that the last command selected. `DataPhase` says that the
offset is within that array while the driver calls them, and every run keeps it. A
read command has no destination: `usbFunctionWrite` then compares with the size zero,
and an offset that a read has moved sends it through the null pointer. `Misdirected`
is that step, and the only one that leaves the arrays.
-/

namespace RfidTool

/-- The size of the array that a command selects. -/
def arraySize (command : UInt8) : ℕ :=
  if command = PROTO_CMD_SAMPLE_VECTOR_READ ∨ command = PROTO_CMD_SAMPLE_VECTOR_WRITE then 7
  else 192

/-- What a host can send: a request, a packet of one to eight bytes, or a poll. -/
def Event.IsUsb : Event → Prop
  | .setup _ => True
  | .standard => True
  | .dataOut data => 1 ≤ data.length ∧ data.length ≤ 8
  | .dataIn len => len ≤ 8
  | _ => False

namespace Firmware

/-- The data phase stays within the array that the command selected, and a packet
changes no array but the one of its write command. -/
def Contained (f : Firmware) : Event → Prop
  | .dataOut data => ∃ g, f.step (.dataOut data) = .ok g ∧
      (f.command ≠ PROTO_CMD_SAMPLE_VECTOR_WRITE → g.sampleVector = f.sampleVector) ∧
      (f.command ≠ PROTO_CMD_PULSE_VECTOR_WRITE → g.ioBuffer = f.ioBuffer)
  | .dataIn len => ∃ g, f.step (.dataIn len) = .ok g
  | _ => True

/-- Data arrives for a command that is not a write command, with the offset moved. -/
def Misdirected (f : Firmware) : Event → Prop
  | .dataOut data => f.userRw ∧ f.command ≠ PROTO_CMD_SAMPLE_VECTOR_WRITE ∧
      f.command ≠ PROTO_CMD_PULSE_VECTOR_WRITE ∧ f.ioBufferOffset ≠ 0 ∧ data ≠ []
  | _ => False

/-- The driver calls the functions of the data phase only for a command that has one,
with the offset within its array. -/
structure DataPhase (f : Firmware) : Prop where
  command : f.userRw → IsVectorCommand f.command
  offset : f.userRw → f.ioBufferOffset.toNat ≤ arraySize f.command

theorem dataPhase_init : DataPhase init where
  command h := by cases h
  offset h := by cases h

/-- The variables of the data phase. -/
def usb (f : Firmware) : UInt8 × UInt8 × Bool := (f.command, f.ioBufferOffset, f.userRw)

theorem DataPhase.of_usb {f g : Firmware} (h : DataPhase f) (heq : g.usb = f.usb) :
    DataPhase g := by
  simp only [usb, Prod.mk.injEq] at heq
  obtain ⟨hcommand, hoffset, huserRw⟩ := heq
  constructor
  · rw [huserRw, hcommand]
    exact h.command
  · rw [huserRw, hcommand, hoffset]
    exact h.offset

/-! ## The loops -/

/-- The loop of a write overwrites its destination from the offset on and drops what does
not fit. -/
theorem writeLoop_eq {n : ℕ} (hn : n < 256) (dst : Vector UInt8 n) (offset : UInt8)
    (data : List UInt8) (hle : offset.toNat ≤ n) :
    ∃ dst' offset', writeLoop dst offset data = .ok (dst', offset') ∧ offset'.toNat ≤ n ∧
      dst'.toList = dst.toList.take offset.toNat ++ data.take (n - offset.toNat) ++
        dst.toList.drop (offset.toNat + data.length) := by
  induction data generalizing dst offset with
  | nil => exact ⟨dst, offset, rfl, hle, by simp⟩
  | cons b data ih =>
    rw [writeLoop]
    split_ifs with hend hlt
    · refine ⟨dst, offset, rfl, hle, ?_⟩
      have hlength : dst.toList.length = n := dst.length_toList
      rw [hend, Nat.sub_self, List.take_zero, List.append_nil,
        List.drop_of_length_le (by omega), List.append_nil, List.take_of_length_le (by omega)]
    · have hnext := UInt8.toNat_add_one (x := offset) rfl (by omega)
      obtain ⟨dst', offset', hloop, hle', hdst⟩ :=
        ih (dst.set offset.toNat b) (offset + 1) (by omega)
      refine ⟨dst', offset', hloop, hle', ?_⟩
      have hlength : offset.toNat < dst.toList.length := by rwa [dst.length_toList]
      have hfront : (dst.toList.set offset.toNat b).take (offset.toNat + 1) =
          dst.toList.take offset.toNat ++ [b] := by
        rw [List.take_add_one, List.take_set_of_le (Nat.le_refl _), List.getElem?_set_self hlength]
        rfl
      have hsplit : n - offset.toNat = n - (offset.toNat + 1) + 1 := by omega
      rw [hdst, hnext, Vector.toList_set, hfront, List.drop_set_of_lt (by omega), hsplit,
        List.take_succ_cons, List.length_cons]
      simp [Nat.add_assoc, Nat.add_comm 1]
    · omega

/-- From the start of its destination it overwrites the front. -/
theorem writeLoop_front {n : ℕ} (hn : n < 256) (dst : Vector UInt8 n) (data : List UInt8) :
    ∃ dst' offset', writeLoop dst 0 data = .ok (dst', offset') ∧
      dst'.toList = data.take n ++ dst.toList.drop data.length := by
  obtain ⟨dst', offset', hloop, -, hdst⟩ := writeLoop_eq hn dst 0 data (Nat.zero_le n)
  rw [UInt8.toNat_zero, List.take_zero, List.nil_append, Nat.sub_zero, Nat.zero_add] at hdst
  exact ⟨dst', offset', hloop, hdst⟩

/-- The loop of a read returns the bytes behind the offset, up to the end of its source. -/
theorem readLoop_eq {n : ℕ} (hn : n < 256) (src : Vector UInt8 n) (offset : UInt8) (len : ℕ)
    (hle : offset.toNat ≤ n) :
    ∃ offset', readLoop src offset len = .ok ((src.toList.drop offset.toNat).take len, offset') ∧
      offset'.toNat ≤ n ∧
      src.toList.drop offset'.toNat = (src.toList.drop offset.toNat).drop len := by
  induction len generalizing offset with
  | zero => exact ⟨offset, by simp [readLoop], hle, by simp⟩
  | succ len ih =>
    rw [readLoop]
    split_ifs with hend hlt
    · exact ⟨offset, by simp [hend], hle, by simp [hend]⟩
    · have hnext := UInt8.toNat_add_one (x := offset) rfl (by omega)
      obtain ⟨offset', hloop, hle', hrest⟩ := ih (offset + 1) (by omega)
      have hdrop : src.toList.drop offset.toNat =
          src[offset.toNat] :: src.toList.drop (offset.toNat + 1) := by
        rw [List.drop_eq_getElem_cons (by simpa using hlt), Vector.getElem_toList]
      refine ⟨offset', ?_, hle', ?_⟩
      · rw [hloop, hnext, hdrop, List.take_succ_cons]
        rfl
      · rw [hrest, hnext, hdrop, List.drop_succ_cons]
    · omega

/-- Without a destination the loop stops at once, or faults. -/
theorem writeLoop_null (offset : UInt8) (data : List UInt8) :
    writeLoop #v[] offset data =
      if offset ≠ 0 ∧ data ≠ [] then .error .fault else .ok (#v[], offset) := by
  have hzero : offset.toNat = 0 ↔ offset = 0 := UInt8.toNat_inj (b := 0)
  cases data with
  | nil => simp [writeLoop]
  | cons b data =>
    rw [writeLoop]
    split_ifs <;> grind

/-! ## Steps -/

theorem dataPhase_of_not_userRw {f : Firmware} (h : f.userRw = false) : DataPhase f where
  command htrue := by simp [h] at htrue
  offset htrue := by simp [h] at htrue

/-- A request rewinds the offset, or takes the driver out of the data phase. -/
theorem dataPhase_usbFunctionSetup (f : Firmware) (rq : SetupRequest) :
    DataPhase (f.usbFunctionSetup rq) := by
  rcases usbFunctionSetup_cases f rq with
    ⟨bytes, h⟩ | ⟨on, h⟩ | ⟨-, bytes, h⟩ | ⟨-, bytes, h⟩ | ⟨hvector, h⟩
  · rw [h]
    exact dataPhase_of_not_userRw rfl
  · rw [h]
    exact dataPhase_of_not_userRw rfl
  · rw [h]
    exact dataPhase_of_not_userRw rfl
  · rw [h]
    exact dataPhase_of_not_userRw rfl
  · rw [h]
    exact ⟨fun _ => hvector, fun _ => Nat.zero_le _⟩

theorem usb_adcStore {f g : Firmware} (h : f.adcStore = .ok g) : g.usb = f.usb := by
  obtain ⟨byte, -, h⟩ := Except.bind_eq_ok_iff.mp h
  obtain ⟨f', hwrite, h⟩ := Except.bind_eq_ok_iff.mp h
  obtain ⟨-, ioBuffer, rfl⟩ := writeIoBuffer_eq_ok hwrite
  dsimp only at h
  split_ifs at h
  all_goals
    cases h
    rfl

theorem usb_adcWait (f : Firmware) (oldSignal : UInt8) : (f.adcWait oldSignal).usb = f.usb := by
  unfold adcWait
  split_ifs <;> rfl

theorem usb_timer0Compa {f g : Firmware} (h : f.timer0Compa = .ok g) : g.usb = f.usb := by
  unfold timer0Compa at h
  split_ifs at h
  · cases h
    rfl
  · obtain ⟨byte, -, h⟩ := Except.bind_eq_ok_iff.mp h
    dsimp only at h
    split_ifs at h
    · cases h
      rfl
    · obtain ⟨width, -, h⟩ := Except.bind_eq_ok_iff.mp h
      cases h
      rfl

theorem usb_startTransfer (f : Firmware) : f.startTransfer.usb = f.usb := by
  unfold startTransfer
  dsimp only
  split_ifs <;> rfl

theorem usb_idleRound {f g : Firmware} (h : f.idleRound = .ok g) : g.usb = f.usb := by
  rcases idleRound_eq_ok h with ⟨-, rfl⟩ | ⟨-, rfl⟩ | ⟨-, -, rfl⟩
  · exact usb_startTransfer f
  · rfl
  · rfl

/-- A packet of a data phase is contained and keeps the phase, or it is misdirected and
faults. -/
theorem dataPhase_write {f : Firmware} (h : DataPhase f) (hrw : f.userRw) (data : List UInt8) :
    (∃ g, f.usbFunctionWrite data = .ok g ∧ DataPhase g ∧
        (f.command ≠ PROTO_CMD_SAMPLE_VECTOR_WRITE → g.sampleVector = f.sampleVector) ∧
        (f.command ≠ PROTO_CMD_PULSE_VECTOR_WRITE → g.ioBuffer = f.ioBuffer)) ∧
        ¬f.Misdirected (.dataOut data) ∨
      f.usbFunctionWrite data = .error .fault ∧ f.Misdirected (.dataOut data) := by
  have hle := h.offset hrw
  unfold usbFunctionWrite
  by_cases hsample : f.command = PROTO_CMD_SAMPLE_VECTOR_WRITE
  · have hsize : arraySize f.command = 7 := by rw [hsample]; rfl
    rw [hsize] at hle
    obtain ⟨dst, offset, hloop, hoffset, -⟩ :=
      writeLoop_eq (by decide) f.sampleVector f.ioBufferOffset data hle
    refine .inl ⟨⟨{ f with sampleVector := dst, ioBufferOffset := offset }, ?_, ?_, ?_, ?_⟩, ?_⟩
    · rw [if_pos hsample, hloop]
      rfl
    · exact ⟨h.command, fun _ => le_of_le_of_eq hoffset hsize.symm⟩
    · exact fun hne => absurd hsample hne
    · exact fun _ => rfl
    · exact fun hmis => hmis.2.1 hsample
  by_cases hpulse : f.command = PROTO_CMD_PULSE_VECTOR_WRITE
  · have hsize : arraySize f.command = 192 := by rw [hpulse]; rfl
    rw [hsize] at hle
    obtain ⟨dst, offset, hloop, hoffset, -⟩ :=
      writeLoop_eq (by decide) f.ioBuffer f.ioBufferOffset data hle
    refine .inl ⟨⟨{ f with ioBuffer := dst, ioBufferOffset := offset }, ?_, ?_, ?_, ?_⟩, ?_⟩
    · rw [if_neg hsample, if_pos hpulse, hloop]
      rfl
    · exact ⟨h.command, fun _ => le_of_le_of_eq hoffset hsize.symm⟩
    · exact fun _ => rfl
    · exact fun hne => absurd hpulse hne
    · exact fun hmis => hmis.2.2.1 hpulse
  rw [if_neg hsample, if_neg hpulse, writeLoop_null]
  by_cases hnull : f.ioBufferOffset ≠ 0 ∧ data ≠ []
  · exact .inr ⟨by rw [if_pos hnull]; rfl, hrw, hsample, hpulse, hnull⟩
  · refine .inl ⟨⟨f, ?_, h, fun _ => rfl, fun _ => rfl⟩, fun hmis => hnull hmis.2.2.2⟩
    rw [if_neg hnull]
    rfl

/-- A poll of a data phase comes back and keeps the phase. -/
theorem dataPhase_read {f : Firmware} (h : DataPhase f) (hrw : f.userRw) (len : ℕ) :
    ∃ r, f.usbFunctionRead len = .ok r ∧ DataPhase r.1 := by
  have hle := h.offset hrw
  unfold usbFunctionRead
  by_cases hsample : f.command = PROTO_CMD_SAMPLE_VECTOR_READ
  · have hsize : arraySize f.command = 7 := by rw [hsample]; rfl
    rw [hsize] at hle
    obtain ⟨offset, hloop, hend, -⟩ :=
      readLoop_eq (by decide) f.sampleVector f.ioBufferOffset len hle
    refine ⟨_, by rw [if_pos hsample, hloop]; rfl, h.command, fun _ => ?_⟩
    exact le_of_le_of_eq hend hsize.symm
  by_cases hpulse : f.command = PROTO_CMD_PULSE_VECTOR_READ
  · have hsize : arraySize f.command = 192 := by rw [hpulse]; rfl
    rw [hsize] at hle
    obtain ⟨offset, hloop, hend, -⟩ :=
      readLoop_eq (by decide) f.ioBuffer f.ioBufferOffset len hle
    refine ⟨_, by rw [if_neg hsample, if_pos hpulse, hloop]; rfl, h.command, fun _ => ?_⟩
    exact le_of_le_of_eq hend hsize.symm
  rw [if_neg hsample, if_neg hpulse]
  exact ⟨(f, []), rfl, h⟩

/-- A step keeps the data phase. -/
theorem DataPhase.step {f g : Firmware} {e : Event} (h : DataPhase f) (hstep : f.step e = .ok g) :
    DataPhase g := by
  cases e with
  | setup rq =>
    cases hstep
    exact dataPhase_usbFunctionSetup f rq
  | standard =>
    cases hstep
    exact dataPhase_of_not_userRw rfl
  | dataOut data =>
    rcases step_dataOut_eq_ok hstep with rfl | ⟨hrw, hwrite⟩
    · exact h
    · rcases dataPhase_write h hrw data with ⟨⟨g', hg', hphase, -⟩, -⟩ | ⟨hfault, -⟩
      · rw [hg'] at hwrite
        cases hwrite
        exact hphase
      · rw [hfault] at hwrite
        cases hwrite
  | dataIn len =>
    simp only [Firmware.step] at hstep
    split_ifs at hstep with hrw
    · obtain ⟨r, hr, hphase⟩ := dataPhase_read h hrw len
      rw [hr] at hstep
      cases hstep
      exact hphase
    · cases hstep
      exact h
  | idle => exact h.of_usb (usb_idleRound hstep)
  | adc adch =>
    obtain ⟨-, ⟨-, rfl⟩ | ⟨-, hstore⟩⟩ := step_adc_eq_ok hstep
    · exact h.of_usb (usb_adcWait _ _)
    · have husb := usb_adcStore hstore
      exact h.of_usb husb
  | timer0 => exact h.of_usb (usb_timer0Compa (step_timer0_eq_ok hstep).2)

/-- In a data phase the step is contained unless it is misdirected. -/
theorem DataPhase.contained_iff {f : Firmware} (h : DataPhase f) (e : Event) :
    f.Contained e ↔ ¬f.Misdirected e := by
  cases e with
  | dataOut data =>
    simp only [Contained, Firmware.step]
    by_cases hrw : f.userRw = true
    · rw [if_pos hrw]
      rcases dataPhase_write h hrw data with ⟨⟨g, hg, -, hkeep⟩, hmis⟩ | ⟨hfault, hmis⟩
      · exact ⟨fun _ => hmis, fun _ => ⟨g, hg, hkeep⟩⟩
      · rw [hfault]
        simp [hmis]
    · rw [if_neg hrw]
      exact ⟨fun _ hmis => hrw hmis.1, fun _ => ⟨f, rfl, fun _ => rfl, fun _ => rfl⟩⟩
  | dataIn len =>
    simp only [Contained, Misdirected, Firmware.step, not_false_eq_true, iff_true]
    split_ifs with hrw
    · obtain ⟨r, hr, -⟩ := dataPhase_read h hrw len
      exact ⟨r.1, by rw [hr]; rfl⟩
    · exact ⟨f, rfl⟩
  | _ => simp [Contained, Misdirected]

/-- In every state that a run reaches, the next step of the data phase is contained if
and only if it is not misdirected. -/
theorem run_contained_iff {tr : List (Firmware × Event)} {f : Firmware}
    (hrun : Run step init tr f) (e : Event) : f.Contained e ↔ ¬f.Misdirected e := by
  have hphase : DataPhase f := by
    refine hrun.invariant DataPhase (fun _ _ => True) ?_ dataPhase_init fun _ _ => trivial
    intro f e g hf _ hstep
    exact hf.step hstep
  exact hphase.contained_iff e

/-- A request to read `ioBuffer`. -/
def readPulses : SetupRequest := ⟨PROTO_CMD_PULSE_VECTOR_READ, 0, 0⟩

/-- The first poll of a read. -/
def firstPoll : List Event := [.setup readPulses, .dataIn 8]

/-- The second poll is contained. -/
theorem run_contained_iff_secondPoll :
    ∃ f, firstPoll.foldlM step init = .ok f ∧ (f.Contained (.dataIn 8) ↔
      ¬f.Misdirected (.dataIn 8)) := by
  obtain ⟨f, hf⟩ : ∃ f, firstPoll.foldlM step init = .ok f := ⟨_, rfl⟩
  exact ⟨f, hf, run_contained_iff (Run.of_foldlM hf) _⟩

/-- A byte that is sent into a read goes through the null pointer. -/
theorem not_contained :
    ¬∀ tr f e, Run step init tr f → (∀ p ∈ tr, p.2.IsUsb) → e.IsUsb → f.Contained e := by
  intro h
  obtain ⟨f, hf⟩ : ∃ f, firstPoll.foldlM step init = .ok f := ⟨_, rfl⟩
  have husb : ∀ p ∈ trace step init firstPoll, p.2.IsUsb := by
    refine List.forall_mem_cons.mpr ⟨trivial, List.forall_mem_cons.mpr ⟨Nat.le_refl 8, ?_⟩⟩
    exact List.forall_mem_nil _
  obtain ⟨g, hg, -⟩ := h _ f (.dataOut [1]) (Run.of_foldlM hf) husb ⟨by decide, by decide⟩
  cases hf
  cases hg

end Firmware

end RfidTool

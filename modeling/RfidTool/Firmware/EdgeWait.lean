import RfidTool.Firmware.Control
import RfidTool.Library.Hysteresis
import RfidTool.Rfid.InterfaceUsbImpl

/-!
# Waiting for an edge

In `STATE_WAIT_CONDITION` every conversion compares the level before it with the level
behind it and counts the timeout down, whatever the host and the main loop do between
the conversions. `EdgeWait` says what the wait should be, at every point of a run. The
handlers break it in two ways. `adcLastSignal` is -1 as long as no reading was decisive,
but the handler copies it to an unsigned variable, in which an unknown level is 255:
for the falling edge it counts as the high one, and `Misread` are the readings that
begin so. And a transmission that was overtaken by the request for the transfer has
left `OCIE0A` set, so that the handler of `TIMER0_COMPA` goes on while the transfer waits.
-/

namespace RfidTool

/-- The reading of a conversion. -/
def Event.reading : Event → Option UInt8
  | .adc adch => some adch
  | _ => none

theorem Event.reading_of_isAdc {e : Event} (h : e.isAdc = false) : e.reading = none := by
  cases e with
  | adc => cases h
  | _ => rfl

namespace Firmware

open Hysteresis InterfaceUsbImpl

/-- `adcLastSignal` for a level. -/
def signal : Option Bool → Int8
  | none => -1
  | some false => 0
  | some true => 1

/-- The readings of a run. -/
def readings (tr : List (Firmware × Event)) : List UInt8 := tr.filterMap (·.2.reading)

/-- The host uploads to `ioBuffer`. -/
def Uploads (f : Firmware) : Event → Prop
  | .dataOut _ => f.command = PROTO_CMD_PULSE_VECTOR_WRITE
  | _ => False

/-- The wait of `w` is not over: no reading has completed an edge, and the timeout is not
exhausted. -/
def Pending (w : Firmware) (readings : List UInt8) : Prop :=
  readings.length ≤ w.timeout.toNat ∧
    ∀ k < readings.length, ¬EdgeAt ADC_LO ADC_HI w.fallingEdge readings k

/-- A run has left the offset alone, and `ioBuffer` to the host. -/
def Untouched (w : Firmware) (tr : List (Firmware × Event)) (f : Firmware) : Prop :=
  f.opOffset = w.opOffset ∧ ((∀ p ∈ tr, ¬p.1.Uploads p.2) → f.ioBuffer = w.ioBuffer)

/-- What a transfer should do that waits in `w`, at every point of the run `tr`: wait up to
the first edge of the levels that earlier readings decided, start there, and give up when
the timeout is counted down. -/
structure EdgeWait (w : Firmware) (tr : List (Firmware × Event)) : Prop where
  waits : ∀ {before f}, before <+: tr → Run step w before f → w.Pending (readings before) →
    f.state = .waitCondition ∧ Untouched w before f ∧ ∀ r, ∃ g, f.step (.adc r) = .ok g
  leaves : ∀ {before f r g}, before ++ [(f, .adc r)] <+: tr →
    Run step w (before ++ [(f, .adc r)]) g → w.Pending (readings before) →
    EdgeAt ADC_LO ADC_HI w.fallingEdge (readings before ++ [r]) (readings before).length →
    g.state = (if w.tx then .tx else .rx) ∧ Untouched w (before ++ [(f, .adc r)]) g
  expires : ∀ {before f r g}, before ++ [(f, .adc r)] <+: tr →
    Run step w (before ++ [(f, .adc r)]) g → w.Pending (readings before) →
    (readings before).length = w.timeout.toNat →
    ¬EdgeAt ADC_LO ADC_HI w.fallingEdge (readings before ++ [r]) (readings before).length →
    g.state = .finished ∧ g.timedOut = true ∧ Untouched w (before ++ [(f, .adc r)]) g

/-- A falling edge is requested, and the first decisive reading before the timeout is a
high one. -/
def Misread (f : Firmware) (readings : List UInt8) : Prop :=
  f.fallingEdge ∧ ∃ k, ∃ hk : k < readings.length, k ≤ f.timeout.toNat ∧
    (∀ r ∈ readings.take k, Undecided ADC_LO ADC_HI r) ∧ ADC_HI ≤ readings[k]

/-- The edge as the handler sees it. -/
def seesEdge (falling : Bool) (old new : Option Bool) : Bool :=
  if falling then old ≠ some false && new == some false else old == some false && new ≠ some false

theorem adcSignal_eq {f : Firmware} {l : Option Bool} (h : f.adcLastSignal = signal l)
    (adch : UInt8) : f.adcSignal adch = signal (next ADC_LO ADC_HI l adch) := by
  unfold adcSignal next
  rw [h]
  split_ifs <;> rfl

theorem isEdge_eq {f : Firmware} {new : Option Bool} (h : f.adcLastSignal = signal new)
    (old : Option Bool) : f.isEdge (signal old).toUInt8 = seesEdge f.fallingEdge old new := by
  unfold isEdge seesEdge
  rw [h]
  rcases old with - | - | - <;> rcases new with - | - | - <;> rfl

/-- The handler sees the edges, and one more for the falling edge. -/
theorem seesEdge_iff {falling : Bool} {old : Option Bool} {reading : UInt8} :
    seesEdge falling old (next ADC_LO ADC_HI old reading) ↔
      IsEdge falling old (next ADC_LO ADC_HI old reading) ∨
        falling = true ∧ old = none ∧ ADC_HI ≤ reading := by
  have hhigh := @next_none_eq_false_iff _ _ _ ADC_LO ADC_HI reading
  rw [← hhigh]
  have hnone := @next_eq_none_iff _ _ _ ADC_LO ADC_HI old reading
  unfold seesEdge IsEdge
  rcases old with - | - | - <;> cases falling <;> simp
  · rcases hnext : next ADC_LO ADC_HI (some false) reading with - | - | - <;> simp_all

/-! ## Steps that leave the transfer as it is -/

theorem readings_cons (p : Firmware × Event) (tr : List (Firmware × Event)) :
    readings (p :: tr) = p.2.reading.toList ++ readings tr := by
  unfold readings
  cases h : p.2.reading <;> simp [h]

theorem readings_append (tr tr' : List (Firmware × Event)) :
    readings (tr ++ tr') = readings tr ++ readings tr' := List.filterMap_append

theorem readings_singleton (f : Firmware) (e : Event) : readings [(f, e)] = e.reading.toList := by
  rw [readings_cons, readings, List.filterMap_nil, List.append_nil]

/-- An event that is neither a handler nor a round that changes the state. -/
theorem quiet_step {f g : Firmware} {e : Event} (hstep : f.step e = .ok g)
    (hstart : e.isStart = false) (hadc : e.isAdc = false) (htimer : e ≠ .timer0)
    (hidle : e = .idle → f.state ≠ .starting ∧ f.state ≠ .finished) :
    g.control = f.control ∧ g.adcLastSignal = f.adcLastSignal ∧ g.timeout = f.timeout ∧
      (¬f.Uploads e → g.ioBuffer = f.ioBuffer) := by
  cases e with
  | setup rq =>
    cases hstep
    have hrq : rq.bRequest ≠ PROTO_CMD_TRANSFER_START := by simpa [Event.isStart] using hstart
    refine ⟨control_usbFunctionSetup f hrq, ?_⟩
    rcases usbFunctionSetup_cases f rq with
      ⟨bytes, h⟩ | ⟨on, h⟩ | ⟨-, bytes, h⟩ | ⟨hrq', -⟩ | ⟨-, h⟩
    · rw [h]
      exact ⟨rfl, rfl, fun _ => rfl⟩
    · rw [h]
      exact ⟨rfl, rfl, fun _ => rfl⟩
    · rw [h]
      exact ⟨rfl, rfl, fun _ => rfl⟩
    · exact absurd hrq' hrq
    · rw [h]
      exact ⟨rfl, rfl, fun _ => rfl⟩
  | standard =>
    cases hstep
    exact ⟨rfl, rfl, rfl, fun _ => rfl⟩
  | dataOut data =>
    rcases step_dataOut_eq_ok hstep with rfl | ⟨hrw, hwrite⟩
    · exact ⟨rfl, rfl, rfl, fun _ => rfl⟩
    · obtain ⟨sampleVector, ioBuffer, offset, rfl, hkeep⟩ := usbFunctionWrite_eq_ok hwrite
      exact ⟨rfl, rfl, rfl, hkeep⟩
  | dataIn len =>
    obtain ⟨offset, rfl⟩ := step_dataIn_eq_ok hstep
    exact ⟨rfl, rfl, rfl, fun _ => rfl⟩
  | idle =>
    obtain ⟨hstarting, hfinished⟩ := hidle rfl
    rcases idleRound_eq_ok hstep with ⟨hstate, -⟩ | ⟨hstate, -⟩ | ⟨-, -, rfl⟩
    · exact absurd hstate hstarting
    · exact absurd hstate hfinished
    · exact ⟨rfl, rfl, rfl, fun _ => rfl⟩
  | adc adch => cases hadc
  | timer0 => exact absurd rfl htimer

/-- The states that a transfer does not come back from to its wait. -/
def Left (f : Firmware) : Prop := f.state ≠ .waitCondition ∧ f.state ≠ .starting

/-- Nothing but another request leads back to `STATE_WAIT_CONDITION`. -/
theorem Left.step {f g : Firmware} {e : Event} (h : f.Left) (hstart : e.isStart = false)
    (hstep : f.step e = .ok g) : g.Left := by
  have heffect := effect hstep
  generalize hcontrol : g.control = c at heffect
  have hstate : g.state = c.state := congrArg Control.state hcontrol
  unfold Left
  rw [hstate]
  cases heffect with
  | start hrq => simp [Event.isStart, hrq] at hstart
  | keep => exact h
  | begin hstarting => exact absurd hstarting h.2
  | finish => simp
  | edge _ hwait => exact absurd hwait h.1
  | wait _ hwait => exact absurd hwait h.1
  | timeout _ hwait => exact absurd hwait h.1
  | sample => exact h
  | sampleLast => simp
  | play => exact h
  | stop => simp

/-! ## A conversion -/

/-- The handler sees an edge at the reading with index `k`. -/
def SeesEdgeAt (falling : Bool) (rs : List UInt8) (k : ℕ) : Prop :=
  seesEdge falling (level ADC_LO ADC_HI none (rs.take k))
    (level ADC_LO ADC_HI none (rs.take (k + 1)))

theorem seesEdgeAt_iff {falling : Bool} {rs : List UInt8} {k : ℕ} (hk : k < rs.length) :
    SeesEdgeAt falling rs k ↔ EdgeAt ADC_LO ADC_HI falling rs k ∨
      falling = true ∧ (∀ r ∈ rs.take k, Undecided ADC_LO ADC_HI r) ∧ ADC_HI ≤ rs[k] := by
  unfold SeesEdgeAt EdgeAt
  rw [level_take_succ none hk, seesEdge_iff, level_eq_none_iff]
  simp

/-- What comes later is not seen. -/
theorem seesEdgeAt_append {falling : Bool} {rs : List UInt8} {k : ℕ} (hk : k < rs.length)
    (rs' : List UInt8) : SeesEdgeAt falling (rs ++ rs') k ↔ SeesEdgeAt falling rs k := by
  unfold SeesEdgeAt
  rw [List.take_append_of_le_length (Nat.le_of_lt hk), List.take_append_of_le_length hk]

theorem seesEdgeAt_last {falling : Bool} {rs : List UInt8} {r : UInt8} :
    SeesEdgeAt falling (rs ++ [r]) rs.length ↔
      seesEdge falling (level ADC_LO ADC_HI none rs)
        (next ADC_LO ADC_HI (level ADC_LO ADC_HI none rs) r) := by
  unfold SeesEdgeAt
  rw [List.take_left, List.take_of_length_le (by simp), level_append]
  rfl

/-- `f` is the transfer `w` while it waits, behind the readings `rs`, in which the handler
has seen no edge. -/
structure Awaiting (w f : Firmware) (rs : List UInt8) : Prop where
  state : f.state = .waitCondition
  adie : f.adie
  interrupts : f.interrupts
  fallingEdge : f.fallingEdge = w.fallingEdge
  tx : f.tx = w.tx
  opLength : f.opLength = w.opLength
  opOffset : f.opOffset = w.opOffset
  signal : f.adcLastSignal = signal (level ADC_LO ADC_HI none rs)
  timeout : f.timeout.toNat + rs.length = w.timeout.toNat
  unseen : ∀ k < rs.length, ¬SeesEdgeAt w.fallingEdge rs k

theorem step_adc_waiting {f : Firmware} (adch : UInt8) (hadie : f.adie)
    (hinterrupts : f.interrupts) (hstate : f.state = .waitCondition) :
    f.step (.adc adch) =
      .ok (({ f with adcLastSignal := f.adcSignal adch }).adcWait f.adcLastSignal.toUInt8) := by
  rw [step, if_pos (by simp [hadie, hinterrupts]), adcVect_eq, if_pos hstate]

/-- The transfer behind its `STATE_STARTING` round. -/
theorem awaiting_startTransfer {f : Firmware} (hedge : f.edgeStart) :
    Awaiting f.startTransfer f.startTransfer [] := by
  have hstate : f.startTransfer.state = .waitCondition := by
    rw [startTransfer, hedge]
    rfl
  obtain ⟨hadie, hinterrupts, hsignal⟩ : f.startTransfer.adie = true ∧
      f.startTransfer.interrupts = true ∧ f.startTransfer.adcLastSignal = -1 := by
    unfold startTransfer
    dsimp only
    split_ifs
    all_goals exact ⟨rfl, rfl, rfl⟩
  exact ⟨hstate, hadie, hinterrupts, rfl, rfl, rfl, rfl, hsignal, rfl, by simp⟩

section

variable {w f g : Firmware} {rs : List UInt8} {e : Event} {r : UInt8}

/-- A transfer that waits is where it should be. -/
theorem Awaiting.pending (h : Awaiting w f rs) : w.Pending rs := by
  have hcount := h.timeout
  refine ⟨by omega, fun k hk hedge => h.unseen k hk ?_⟩
  exact (seesEdgeAt_iff hk).mpr (.inl hedge)

/-- The handler starts the transfer, counts the timeout down, or gives up. -/
theorem Awaiting.step_adc (h : Awaiting w f rs) (hstep : f.step (.adc r) = .ok g) :
    g.opOffset = f.opOffset ∧ g.ioBuffer = f.ioBuffer ∧
      (SeesEdgeAt w.fallingEdge (rs ++ [r]) rs.length ∧ g.state = (if w.tx then .tx else .rx) ∨
        ¬SeesEdgeAt w.fallingEdge (rs ++ [r]) rs.length ∧ Awaiting w g (rs ++ [r]) ∨
        ¬SeesEdgeAt w.fallingEdge (rs ++ [r]) rs.length ∧ rs.length = w.timeout.toNat ∧
          g.state = .finished ∧ g.timedOut = true) := by
  have hcount := h.timeout
  have hsignal := adcSignal_eq h.signal r
  rw [step_adc_waiting r h.adie h.interrupts h.state, adcWait, h.signal,
    isEdge_eq hsignal] at hstep
  dsimp only at hstep
  rw [seesEdgeAt_last, ← h.fallingEdge, ← h.tx]
  split_ifs at hstep with hedge htx htimeout
  · cases hstep
    rw [if_pos htx]
    exact ⟨rfl, rfl, .inl ⟨hedge, rfl⟩⟩
  · cases hstep
    rw [if_neg htx]
    exact ⟨rfl, rfl, .inl ⟨hedge, rfl⟩⟩
  · cases hstep
    have hleft : (f.timeout - 1).toNat = f.timeout.toNat - 1 ∧ 1 ≤ f.timeout.toNat := by
      have hpos : 1 ≤ f.timeout.toNat := by
        by_contra hzero
        exact htimeout (UInt16.toNat_inj.mp (by simpa using hzero))
      exact ⟨UInt16.toNat_sub_of_le _ _ (UInt16.le_iff_toNat_le.mpr hpos), hpos⟩
    refine ⟨rfl, rfl, .inr (.inl ⟨hedge, h.state, h.adie, h.interrupts, h.fallingEdge, h.tx,
      h.opLength, h.opOffset, ?_, ?_, ?_⟩)⟩
    · rw [level_append]
      exact hsignal
    · dsimp only
      rw [hleft.1, List.length_append, List.length_singleton]
      omega
    · intro k hk
      rw [List.length_append, List.length_singleton] at hk
      rcases Nat.lt_succ_iff_lt_or_eq.mp hk with hlt | rfl
      · rw [seesEdgeAt_append hlt]
        exact h.unseen k hlt
      · rw [seesEdgeAt_last, ← h.fallingEdge]
        exact hedge
  · cases hstep
    have hzero : f.timeout.toNat = 0 := congrArg UInt16.toNat (not_not.mp htimeout)
    exact ⟨rfl, rfl, .inr (.inr ⟨hedge, by omega, rfl, rfl⟩)⟩

/-- A conversion of the wait sets the flag of the timeout, and ends the transfer. -/
theorem timedOut_of_adc {f g : Firmware} {r : UInt8} (hstep : f.step (.adc r) = .ok g) :
    g.timedOut = f.timedOut ∨ f.state = .waitCondition ∧ g.state = .finished := by
  have heffect := effect hstep
  generalize hcontrol : g.control = c at heffect
  have hstate : g.state = c.state := congrArg Control.state hcontrol
  have htimedOut : g.timedOut = c.timedOut := congrArg Control.timedOut hcontrol
  cases heffect with
  | timeout _ hwait => exact .inr ⟨hwait, hstate⟩
  | keep _ hadc => cases hadc
  | _ => exact .inl htimedOut

theorem Awaiting.exists_adc (h : Awaiting w f rs) (r : UInt8) : ∃ g, f.step (.adc r) = .ok g :=
  ⟨_, step_adc_waiting r h.adie h.interrupts h.state⟩

/-- The conversion that completes the edge starts the transfer. -/
theorem Awaiting.enters (h : Awaiting w f rs) (hstep : f.step (.adc r) = .ok g)
    (hedge : SeesEdgeAt w.fallingEdge (rs ++ [r]) rs.length) :
    g.state = (if w.tx then .tx else .rx) ∧ g.timedOut = f.timedOut := by
  have hstate : g.state = (if w.tx then .tx else .rx) := by
    obtain ⟨-, -, ⟨-, hstate⟩ | ⟨hnot, -⟩ | ⟨hnot, -⟩⟩ := h.step_adc hstep
    · exact hstate
    · exact absurd hedge hnot
    · exact absurd hedge hnot
  refine ⟨hstate, (timedOut_of_adc hstep).resolve_right fun ⟨_, hfinished⟩ => ?_⟩
  rw [hstate] at hfinished
  split_ifs at hfinished

/-- Any other one does not, while the timeout lasts. -/
theorem Awaiting.waits (h : Awaiting w f rs) (hstep : f.step (.adc r) = .ok g)
    (hedge : ¬SeesEdgeAt w.fallingEdge (rs ++ [r]) rs.length)
    (hleft : rs.length ≠ w.timeout.toNat) :
    Awaiting w g (rs ++ [r]) ∧ g.timedOut = f.timedOut := by
  have hnext : Awaiting w g (rs ++ [r]) := by
    obtain ⟨-, -, ⟨hseen, -⟩ | ⟨-, hnext⟩ | ⟨-, hzero, -⟩⟩ := h.step_adc hstep
    · exact absurd hseen hedge
    · exact hnext
    · exact absurd hzero hleft
  refine ⟨hnext, (timedOut_of_adc hstep).resolve_right fun ⟨_, hfinished⟩ => ?_⟩
  cases hnext.state.symm.trans hfinished

/-- A step that is no handler does not end the wait. -/
theorem Awaiting.step_quiet (h : Awaiting w f rs) (hstart : e.isStart = false)
    (hadc : e.isAdc = false) (htimer : e ≠ .timer0) (hstep : f.step e = .ok g) :
    Awaiting w g rs := by
  obtain ⟨hcontrol, hsignal, htimeout, -⟩ :=
    quiet_step hstep hstart hadc htimer (by simp [h.state])
  exact ⟨(congrArg Control.state hcontrol).trans h.state,
    (congrArg Control.adie hcontrol).trans h.adie,
    (congrArg Control.interrupts hcontrol).trans h.interrupts,
    (congrArg (·.operation.fallingEdge) hcontrol).trans h.fallingEdge,
    (congrArg (·.operation.tx) hcontrol).trans h.tx,
    (congrArg Control.opLength hcontrol).trans h.opLength,
    (congrArg Control.opOffset hcontrol).trans h.opOffset,
    hsignal.trans h.signal, by rw [htimeout, h.timeout], h.unseen⟩

/-- The wait goes on, or it is over for good. -/
theorem Awaiting.step (h : Awaiting w f rs) (hstart : e.isStart = false) (htimer : e ≠ .timer0)
    (hstep : f.step e = .ok g) : Awaiting w g (rs ++ e.reading.toList) ∨ g.Left := by
  by_cases hadc : e.isAdc
  · cases e with
    | adc r =>
      obtain ⟨-, -, ⟨-, hstate⟩ | ⟨-, hnext⟩ | ⟨-, -, hstate, -⟩⟩ := h.step_adc hstep
      · right
        unfold Left
        rw [hstate]
        split_ifs <;> simp
      · exact .inl hnext
      · exact .inr ⟨by simp [hstate], by simp [hstate]⟩
    | _ => cases hadc
  · have hadc : e.isAdc = false := Bool.eq_false_iff.mpr hadc
    rw [Event.reading_of_isAdc hadc, Option.toList_none, List.append_nil]
    exact .inl (h.step_quiet hstart hadc htimer hstep)

/-- The handler of `TIMER0_COMPA` has no business here. -/
theorem Awaiting.step_timer0 (h : Awaiting w f rs) (hstep : f.step .timer0 = .ok g) :
    g.state ≠ .waitCondition ∨ g.opOffset ≠ w.opOffset := by
  have heffect := effect hstep
  generalize hcontrol : g.control = c at heffect
  cases heffect with
  | play =>
    right
    rw [show g.opOffset = f.opOffset + 1 from congrArg Control.opOffset hcontrol, h.opOffset]
    simp
  | stop =>
    left
    rw [show g.state = .finished from congrArg Control.state hcontrol]
    simp
  | keep _ _ htimer => exact absurd rfl htimer

end

/-! ## The wait -/

/-- As long as the handler sees no edge the transfer waits. -/
theorem Awaiting.run {w f g : Firmware} {rs : List UInt8} {tr : List (Firmware × Event)}
    (hrun : Run Firmware.step f tr g) (h : Awaiting w f rs)
    (hother : ∀ p ∈ tr, p.2.isStart = false)
    (htimer : ∀ p ∈ tr, p.1.state = .waitCondition → p.2 ≠ .timer0)
    (hlen : (rs ++ readings tr).length ≤ w.timeout.toNat)
    (hunseen : ∀ k < (rs ++ readings tr).length, ¬SeesEdgeAt w.fallingEdge (rs ++ readings tr) k) :
    Awaiting w g (rs ++ readings tr) ∧
      ((∀ p ∈ tr, ¬p.1.Uploads p.2) → g.ioBuffer = f.ioBuffer) := by
  induction hrun generalizing rs with
  | nil => exact ⟨by simpa [readings] using h, fun _ => rfl⟩
  | @cons f t u e es head tail ih =>
    rw [List.forall_mem_cons] at hother htimer
    rw [List.forall_mem_cons]
    rw [readings_cons, ← List.append_assoc] at hlen hunseen ⊢
    obtain ⟨hnext, hbuffer⟩ : Awaiting w t (rs ++ e.reading.toList) ∧
        (¬f.Uploads e → t.ioBuffer = f.ioBuffer) := by
      by_cases hadc : e.isAdc
      · cases e with
        | adc r =>
          have hk : rs.length < (rs ++ [r]).length := by simp
          have hlast := hunseen rs.length (by simp [Event.reading])
          rw [Event.reading, Option.toList_some, seesEdgeAt_append hk] at hlast
          have hshort : rs.length < w.timeout.toNat := by
            simp only [Event.reading, Option.toList_some, List.length_append,
              List.length_singleton] at hlen
            omega
          obtain ⟨-, hkeep, ⟨hedge, -⟩ | ⟨-, hnext⟩ | ⟨-, hfull, -⟩⟩ := h.step_adc head
          · exact absurd hedge hlast
          · exact ⟨hnext, fun _ => hkeep⟩
          · omega
        | _ => cases hadc
      · have hadc : e.isAdc = false := Bool.eq_false_iff.mpr hadc
        have hplayer := htimer.1 h.state
        rw [Event.reading_of_isAdc hadc, Option.toList_none, List.append_nil]
        refine ⟨h.step_quiet hother.1 hadc hplayer head, ?_⟩
        exact (quiet_step head hother.1 hadc hplayer (by simp [h.state])).2.2.2
    obtain ⟨hend, hrest⟩ := ih hnext hother.2 htimer.2 hlen hunseen
    exact ⟨hend, fun ⟨hup, hups⟩ => (hrest hups).trans (hbuffer hup)⟩

/-- A transfer that waits at the end of a run has waited all the time. -/
theorem Awaiting.run_waiting {w f g : Firmware} {rs : List UInt8} {tr : List (Firmware × Event)}
    (hrun : Run Firmware.step f tr g) (h : Awaiting w f rs)
    (hother : ∀ p ∈ tr, p.2.isStart = false)
    (htimer : ∀ p ∈ tr, p.1.state = .waitCondition → p.2 ≠ .timer0)
    (hwait : g.state = .waitCondition) : Awaiting w g (rs ++ readings tr) := by
  induction hrun generalizing rs with
  | nil => simpa [readings] using h
  | @cons f t u e es head tail ih =>
    rw [List.forall_mem_cons] at hother htimer
    rw [readings_cons, ← List.append_assoc]
    rcases h.step hother.1 (htimer.1 h.state) head with hnext | hleft
    · exact ih hnext hother.2 htimer.2 hwait
    · have hlast : u.Left := by
        refine tail.invariant Left (fun _ e => e.isStart = false) ?_ hleft hother.2
        intro f e g hf he hstep
        exact hf.step he hstep
      exact absurd hwait hlast.1

theorem Misread.of_prefix {w : Firmware} {rs rs' : List UInt8} (h : w.Misread rs)
    (hfront : rs <+: rs') : w.Misread rs' := by
  obtain ⟨hfalling, k, hk, hle, hundecided, hhigh⟩ := h
  obtain ⟨rest, rfl⟩ := hfront
  have hk' : k < (rs ++ rest).length := by
    rw [List.length_append]
    omega
  refine ⟨hfalling, k, hk', hle, ?_, ?_⟩
  · rwa [List.take_append_of_le_length (Nat.le_of_lt hk)]
  · rwa [List.getElem_append_left hk]

/-- Without a misread level the handler sees edges only. -/
theorem Pending.unseen {w : Firmware} {rs : List UInt8} (h : w.Pending rs) (hmis : ¬w.Misread rs) :
    ∀ k < rs.length, ¬SeesEdgeAt w.fallingEdge rs k := by
  intro k hk hsees
  rcases (seesEdgeAt_iff hk).mp hsees with hedge | ⟨hfalling, hundecided, hhigh⟩
  · exact h.2 k hk hedge
  · exact hmis ⟨hfalling, k, hk, Nat.le_trans (Nat.le_of_lt hk) h.1, hundecided, hhigh⟩

/-- The wait is as it should be when no level is misread and the player stands still. -/
theorem Awaiting.edgeWait {w : Firmware} {tr : List (Firmware × Event)} (h : Awaiting w w [])
    (hother : ∀ p ∈ tr, p.2.isStart = false) (hmis : ¬w.Misread (readings tr))
    (htimer : ∀ p ∈ tr, p.1.state = .waitCondition → p.2 ≠ .timer0) : EdgeWait w tr := by
  have hawait {before : List (Firmware × Event)} {f : Firmware} (hfront : before <+: tr)
      (hbefore : Run Firmware.step w before f) (hpending : w.Pending (readings before)) :
      Awaiting w f (readings before) ∧ Untouched w before f := by
    have hunseen := hpending.unseen fun hbad => hmis (hbad.of_prefix (hfront.filterMap _))
    obtain ⟨hend, hbuffer⟩ := h.run hbefore (fun p hp => hother p (hfront.subset hp))
      (fun p hp => htimer p (hfront.subset hp)) hpending.1 hunseen
    exact ⟨hend, hend.opOffset, hbuffer⟩
  have hstep {before : List (Firmware × Event)} {f g : Firmware} {r : UInt8}
      (hfront : before ++ [(f, .adc r)] <+: tr)
      (hbefore : Run Firmware.step w (before ++ [(f, .adc r)]) g)
      (hpending : w.Pending (readings before)) :
      Awaiting w f (readings before) ∧ f.step (.adc r) = .ok g ∧
        Untouched w (before ++ [(f, .adc r)]) g := by
    obtain ⟨g', hto, hhead, hend⟩ := hbefore.split_cons
    cases hend
    obtain ⟨hwait, hoffset, hbuffer⟩ :=
      hawait ((List.prefix_append _ _).trans hfront) hto hpending
    obtain ⟨hoffset', hbuffer', -⟩ := hwait.step_adc hhead
    refine ⟨hwait, hhead, hoffset'.trans hoffset, fun hups => hbuffer'.trans (hbuffer ?_)⟩
    exact fun p hp => hups p (List.mem_append_left _ hp)
  constructor
  · intro before f hfront hbefore hpending
    obtain ⟨hwait, huntouched⟩ := hawait hfront hbefore hpending
    exact ⟨hwait.state, huntouched, hwait.exists_adc⟩
  · intro before f r g hfront hbefore hpending hedge
    obtain ⟨hwait, hhead, huntouched⟩ := hstep hfront hbefore hpending
    have hsees := (seesEdgeAt_iff (by simp)).mpr (.inl hedge)
    exact ⟨(hwait.enters hhead hsees).1, huntouched⟩
  · intro before f r g hfront hbefore hpending hfull hedge
    obtain ⟨hwait, hhead, huntouched⟩ := hstep hfront hbefore hpending
    have hlength : (readings before).length < (readings before ++ [r]).length := by simp
    have hnot : ¬SeesEdgeAt w.fallingEdge (readings before ++ [r]) (readings before).length := by
      rw [seesEdgeAt_iff hlength]
      rintro (hsees | ⟨hfalling, hundecided, hhigh⟩)
      · exact hedge hsees
      · refine hmis (Misread.of_prefix ⟨hfalling, _, hlength, hfull.le, hundecided, hhigh⟩ ?_)
        have hall := hfront.filterMap (fun p : Firmware × Event => p.2.reading)
        rwa [← readings, ← readings, readings_append, readings_singleton] at hall
    obtain ⟨-, -, ⟨hsees, -⟩ | ⟨-, hnext⟩ | ⟨-, -, hstate, htimedOut⟩⟩ := hwait.step_adc hhead
    · exact absurd hsees hnot
    · have hcount := hnext.timeout
      rw [List.length_append, List.length_singleton] at hcount
      omega
    · exact ⟨hstate, htimedOut, huntouched⟩

/-- The player does not run in a wait that is as it should be. -/
theorem EdgeWait.ne_timer0 {w f g : Firmware} {tr before : List (Firmware × Event)}
    {e : Event} (h : EdgeWait w tr) (hfront : before ++ [(f, e)] <+: tr)
    (hbefore : Run Firmware.step w before f) (hstep : f.step e = .ok g)
    (hwait : Awaiting w f (readings before)) : e ≠ .timer0 := by
  rintro rfl
  have hsame : readings (before ++ [(f, .timer0)]) = readings before := by
    rw [readings_append, readings_singleton]
    exact List.append_nil _
  obtain ⟨hstate, ⟨hoffset, -⟩, -⟩ := h.waits hfront (hbefore.append (.cons hstep (.nil g)))
    (hsame ▸ hwait.pending)
  rcases hwait.step_timer0 hstep with hne | hne
  · exact hne hstate
  · exact hne hoffset

/-- In such a wait every state is one of a transfer that waits, or behind the wait. -/
theorem EdgeWait.awaiting {w f : Firmware} {tr before : List (Firmware × Event)}
    (h : EdgeWait w tr) (hw : Awaiting w w []) (hother : ∀ p ∈ tr, p.2.isStart = false)
    (hfront : before <+: tr) (hbefore : Run Firmware.step w before f) :
    Awaiting w f (readings before) ∨ f.Left := by
  induction before using List.reverseRecOn generalizing f with
  | nil =>
    cases hbefore
    exact .inl hw
  | append_singleton before p ih =>
    obtain ⟨a, e⟩ := p
    obtain ⟨g, hto, hstep, hend⟩ := hbefore.split_cons
    cases hend
    have hstart : e.isStart = false := hother (a, e) (hfront.subset (by simp))
    rcases ih ((List.prefix_append _ _).trans hfront) hto with hwait | hleft
    · rw [readings_append, readings_singleton]
      exact hwait.step hstart (h.ne_timer0 hfront hto hstep hwait) hstep
    · exact .inr (hleft.step hstart hstep)

/-- The step of a reading. -/
theorem exists_step_of_readings {tr : List (Firmware × Event)} {k : ℕ}
    (hk : k < (readings tr).length) :
    ∃ before f after, tr = before ++ (f, .adc (readings tr)[k]) :: after ∧
      readings before = (readings tr).take k := by
  induction tr generalizing k with
  | nil => simp [readings] at hk
  | cons p tr ih =>
    obtain ⟨f, e⟩ := p
    have hcons := readings_cons (f, e) tr
    rcases hreading : e.reading with - | r
    · have hsame : readings ((f, e) :: tr) = readings tr := by simp [hcons, hreading]
      obtain ⟨before, f', after, htr, hbefore⟩ := ih (hsame ▸ hk)
      refine ⟨(f, e) :: before, f', after, ?_, ?_⟩
      · simp only [hsame, List.cons_append]
        exact congrArg _ htr
      · rw [hsame, ← hbefore, readings_cons]
        simp [hreading]
    · obtain rfl : e = .adc r := by
        cases e with
        | adc r' => exact congrArg Event.adc (Option.some.inj hreading)
        | _ => cases hreading
      have hsame : readings ((f, .adc r) :: tr) = r :: readings tr := hcons
      cases k with
      | zero => exact ⟨[], f, tr, by simp [hsame], by simp [readings]⟩
      | succ k =>
        have hk' : k < (readings tr).length := by
          rw [hsame, List.length_cons] at hk
          omega
        obtain ⟨before, f', after, htr, hbefore⟩ := ih hk'
        refine ⟨(f, .adc r) :: before, f', after, ?_, ?_⟩
        · simp only [hsame, List.getElem_cons_succ, List.cons_append]
          exact congrArg _ htr
        · rw [hsame, List.take_succ_cons, ← hbefore]
          rfl

/-- A misread level starts the transfer without an edge. -/
theorem EdgeWait.not_misread {w u : Firmware} {tr : List (Firmware × Event)}
    (h : EdgeWait w tr) (hw : Awaiting w w []) (hrun : Run Firmware.step w tr u)
    (hother : ∀ p ∈ tr, p.2.isStart = false) : ¬w.Misread (readings tr) := by
  rintro ⟨hfalling, k, hk, hle, hundecided, hhigh⟩
  obtain ⟨before, f, after, htr, hreadings⟩ := exists_step_of_readings hk
  generalize (readings tr)[k] = r at htr hhigh
  rw [← hreadings] at hundecided
  have hlength : (readings before).length = k := by
    rw [hreadings, List.length_take_of_le (Nat.le_of_lt hk)]
  have hfront : before ++ [(f, .adc r)] <+: tr := ⟨after, by simp [htr]⟩
  rw [htr] at hrun
  obtain ⟨g, hto, hstep, -⟩ := hrun.split_cons
  have hend : Run Firmware.step w (before ++ [(f, .adc r)]) g := hto.append (.cons hstep (.nil g))
  -- before the reading the level is unknown, so neither it nor an earlier one is an edge
  have hnone {j : ℕ} (hj : j ≤ (readings before).length) :
      ¬EdgeAt ADC_LO ADC_HI w.fallingEdge (readings before ++ [r]) j := by
    rintro ⟨hold, -⟩
    rw [List.take_append_of_le_length hj, level_eq_none_iff.mpr ⟨rfl, fun x hx => ?_⟩] at hold
    · cases hold
    · exact hundecided x (List.mem_of_mem_take hx)
  have hpending : w.Pending (readings before) := by
    refine ⟨hlength.trans_le hle, fun j hj hedge => hnone (Nat.le_of_lt hj) ?_⟩
    unfold EdgeAt
    rwa [List.take_append_of_le_length (Nat.le_of_lt hj), List.take_append_of_le_length hj]
  have hwait := (h.awaiting hw hother ((List.prefix_append _ _).trans hfront) hto).resolve_right
    fun hleft => hleft.1 (h.waits ((List.prefix_append _ _).trans hfront) hto hpending).1
  have hsees : SeesEdgeAt w.fallingEdge (readings before ++ [r]) (readings before).length :=
    (seesEdgeAt_iff (by simp)).mpr (.inr ⟨hfalling, by simpa using hundecided, by simpa⟩)
  obtain ⟨hstate, -⟩ := hwait.enters hstep hsees
  rcases Nat.lt_or_eq_of_le hle with hlt | heq
  · have hlater : w.Pending (readings (before ++ [(f, .adc r)])) := by
      rw [readings_append, readings_singleton]
      refine ⟨by simp [Event.reading]; omega, fun j hj => hnone ?_⟩
      simp [Event.reading] at hj
      omega
    have hstate' := (h.waits hfront hend hlater).1
    rw [hstate] at hstate'
    split_ifs at hstate'
  · have hstate' := (h.expires hfront hend hpending (hlength.trans heq) (hnone le_rfl)).1
    rw [hstate] at hstate'
    split_ifs at hstate'

/-- A transfer that starts on an edge waits for it as it should, if and only if the readings
are not misread and the player does not run while it waits. -/
theorem edgeWait_iff {f w u : Firmware} {tr : List (Firmware × Event)}
    (hstate : f.state = .starting) (hedge : f.edgeStart) (hstart : f.step .idle = .ok w)
    (hrun : Run step w tr u) (hother : ∀ p ∈ tr, p.2.isStart = false) :
    EdgeWait w tr ↔ ¬w.Misread (readings tr) ∧
      ∀ p ∈ tr, p.1.state = .waitCondition → p.2 ≠ .timer0 := by
  obtain rfl := idleRound_starting hstate hstart
  have hw := awaiting_startTransfer hedge
  constructor
  · refine fun h => ⟨h.not_misread hw hrun hother, fun ⟨a, e⟩ hp hwaiting => ?_⟩
    obtain ⟨before, after, htr⟩ := List.append_of_mem hp
    have hfront : before ++ [(a, e)] <+: tr := ⟨after, by simp [htr]⟩
    rw [htr] at hrun
    obtain ⟨g, hto, hstep, -⟩ := hrun.split_cons
    refine h.ne_timer0 hfront hto hstep ?_
    exact (h.awaiting hw hother ((List.prefix_append _ _).trans hfront) hto).resolve_right
      fun hleft => hleft.1 hwaiting
  · exact fun ⟨hmis, htimer⟩ => hw.edgeWait hother hmis htimer

/-- A low reading, and a high one after requests of the host and a round of the main loop. -/
def lowThenHigh : List Event :=
  [.adc 0, .setup ⟨PROTO_CMD_TRANSFER_STATUS, 0, 1⟩, .standard, .idle, .adc 255]

/-- The reception that `getSamples` requests starts with the high reading. -/
theorem edgeWait_iff_lowThenHigh :
    ∃ w u, (init.usbFunctionSetup receiveRequest).step .idle = .ok w ∧
      lowThenHigh.foldlM step w = .ok u ∧ u.state = .rx ∧
      EdgeWait w (trace step w lowThenHigh) := by
  obtain ⟨w, hw⟩ : ∃ w, (init.usbFunctionSetup receiveRequest).step .idle = .ok w := ⟨_, rfl⟩
  obtain ⟨u, hu⟩ : ∃ u, lowThenHigh.foldlM step w = .ok u := by
    cases hw
    exact ⟨_, rfl⟩
  have hreadings : readings (trace step w lowThenHigh) = [0, 255] := by
    cases hw
    rfl
  refine ⟨w, u, hw, hu, ?_, (edgeWait_iff rfl rfl hw (Run.of_foldlM hu) ?_).mpr ⟨?_, ?_⟩⟩
  · cases hw
    cases hu
    rfl
  · intro p hp
    have hmem := mem_of_mem_trace hp
    generalize p.2 = e at hmem
    revert e
    decide
  · rw [hreadings]
    rintro ⟨-, k, hk, -, hundecided, hhigh⟩
    match k, hk with
    | 0, _ => exact absurd (show ADC_HI ≤ 0 from hhigh) (by decide)
    | 1, _ => exact absurd (hundecided 0 (by simp)) (by decide)
  · intro p hp _
    have hmem := mem_of_mem_trace hp
    generalize p.2 = e at hmem
    revert e
    decide

/-- The first reading of the reception that `getSamples` requests is a high one, and the
reception starts. -/
theorem not_edgeWait :
    ¬∀ (f w u : Firmware) (tr : List (Firmware × Event)), f.state = .starting →
      f.edgeStart = true → f.step .idle = .ok w → Run step w tr u →
      (∀ p ∈ tr, p.2.isStart = false) → EdgeWait w tr := by
  intro h
  obtain ⟨w, hw⟩ : ∃ w, (init.usbFunctionSetup receiveRequest).step .idle = .ok w := ⟨_, rfl⟩
  obtain ⟨u, hu, hstate⟩ : ∃ u, w.step (.adc 255) = .ok u ∧ u.state = .rx := by
    cases hw
    exact ⟨_, rfl, rfl⟩
  have hrun : Run step w [(w, .adc 255)] u := .cons hu (.nil u)
  have hwait := h _ w u _ rfl rfl hw hrun (List.forall_mem_singleton.mpr rfl)
  have hpending : w.Pending [255] := by
    cases hw
    exact ⟨by decide, by decide⟩
  rw [(hwait.waits List.prefix_rfl hrun hpending).1] at hstate
  cases hstate

/-- A transmission plays, and a reception on an edge is requested. -/
def overtaken : List Event := [.setup startTx, .idle, .setup receiveRequest, .idle]

/-- The player of the transmission goes on in the wait of the reception. -/
example : ∃ w g, overtaken.foldlM step init = .ok w ∧ w.state = .waitCondition ∧
    w.step .timer0 = .ok g ∧ g.opOffset = 1 :=
  ⟨_, _, rfl, rfl, rfl, rfl⟩

end Firmware

end RfidTool

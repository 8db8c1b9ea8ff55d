import RfidTool.Firmware.Control

/-!
# The handlers and their buffers

Both handlers see the end of an operation by an equality with `opLength`, and the two
modes scale `opOffset` differently. `Restrained` excludes the two steps that lose the
bound: a stored bit at `opOffset = opLength`, which the converter can do once the
operation has ended, and the start of a reception while `OCIE0A` is still set. In runs
of other steps `opOffset` never passes `opLength`, and no handler leaves its arrays.
-/

namespace RfidTool

/-- The event is a run of an interrupt handler. -/
def Event.isHandler : Event → Bool
  | .adc _ => true
  | .timer0 => true
  | _ => false

theorem Operation.length_le (op : Operation) : op.length ≤ 1536 := by
  unfold Operation.length
  split_ifs <;> decide

namespace Firmware

def Restrained (f : Firmware) : Event → Prop
  | .adc _ => f.state ≠ .waitCondition → f.opOffset ≠ f.opLength
  | .idle => f.state = .starting → f.ocie0a → f.tx
  | _ => True

structure Bounded (c : Control) : Prop where
  offset : c.opOffset ≤ c.opLength
  length : c.opLength ≤ 1536
  player : c.ocie0a → c.opLength = 384
  edge : c.state = .waitCondition → c.operation.tx → c.opLength = 384

theorem bounded_init : Bounded init.control where
  offset := by decide
  length := by decide
  player h := by cases h
  edge h := by cases h

/-- A step of an operation that has not reached its end does not pass it. -/
theorem Bounded.advance {c : Control} (h : Bounded c) (hend : c.opOffset ≠ c.opLength) :
    Bounded { c with opOffset := c.opOffset + 1 } where
  offset := by
    have hle := UInt16.le_iff_toNat_le.mp h.offset
    have hmax := UInt16.le_iff_toNat_le.mp h.length
    have hne : c.opOffset.toNat ≠ c.opLength.toNat := fun heq => hend (UInt16.toNat_inj.mp heq)
    rw [UInt16.le_iff_toNat_le, UInt16.toNat_add]
    simp only [UInt16.reduceToNat] at hmax ⊢
    omega
  length := h.length
  player := h.player
  edge := h.edge

/-- The end of an operation changes nothing but the state. -/
theorem Bounded.finish {c : Control} (h : Bounded c) :
    Bounded { c with state := .finished, ocie0a := false } where
  offset := h.offset
  length := h.length
  player h := by cases h
  edge h := by cases h

theorem Effect.bounded {f : Firmware} {e : Event} {c : Control} (h : Effect f e c)
    (hf : Bounded f.control) (he : f.Restrained e) : Bounded c := by
  cases h with
  | start => exact ⟨hf.offset, hf.length, hf.player, nofun⟩
  | keep => exact hf
  | begin hstate =>
    have hlength : f.tx → f.operation.length = 384 := fun htx => if_pos htx
    refine ⟨UInt16.zero_le, f.operation.length_le, fun hon => hlength ?_, fun _ => hlength⟩
    rcases (Bool.or_eq_true _ _).mp hon with hplays | hold
    · exact (Bool.and_eq_true _ _).mp hplays |>.1
    · exact he hstate hold
  | finish => exact ⟨hf.offset, hf.length, nofun, nofun⟩
  | edge hadie hstate =>
    refine ⟨hf.offset, hf.length, hf.edge hstate, fun hwait => ?_⟩
    dsimp only at hwait
    split_ifs at hwait
  | wait => exact hf
  | timeout => exact ⟨hf.offset, hf.length, nofun, nofun⟩
  | sample hadie hstate => exact hf.advance (he hstate)
  | sampleLast hadie hstate => exact (hf.advance (he hstate)).finish
  | play coil hocie0a hstops =>
    have hnext := hf.advance fun heq => hstops (.inl heq)
    exact ⟨hnext.offset, hnext.length, hnext.player, hnext.edge⟩
  | stop => exact ⟨hf.offset, hf.length, nofun, nofun⟩

/-- In a bounded state no handler that meets the condition faults. -/
theorem Bounded.handler_ne_fault {f : Firmware} {e : Event} (h : Bounded f.control)
    (he : f.Restrained e) (hhandler : e.isHandler) : f.step e ≠ .error .fault := by
  have hle := UInt16.le_iff_toNat_le.mp h.offset
  have hmax := UInt16.le_iff_toNat_le.mp h.length
  simp only [control, UInt16.reduceToNat] at hle hmax
  cases e with
  | adc adch =>
    by_cases henabled : (f.adie && f.interrupts) = true
    · obtain ⟨hadie, hinterrupts⟩ := (Bool.and_eq_true _ _).mp henabled
      obtain ⟨g, hg⟩ := step_adc_ok adch hadie hinterrupts fun hstate => by
        have hne : f.opOffset.toNat ≠ f.opLength.toNat :=
          fun heq => he hstate (UInt16.toNat_inj.mp heq)
        rw [bitIndex_lt_iff]
        omega
      simp [hg]
    · simp [step, henabled]
  | timer0 =>
    by_cases henabled : (f.ocie0a && f.interrupts) = true
    · obtain ⟨hocie0a, hinterrupts⟩ := (Bool.and_eq_true _ _).mp henabled
      have hlength : f.opLength = 384 := h.player hocie0a
      obtain ⟨g, hg⟩ := step_timer0_ok hocie0a hinterrupts fun hend => by
        have hne : f.opOffset.toNat ≠ f.opLength.toNat := fun heq => hend (UInt16.toNat_inj.mp heq)
        simp only [hlength, UInt16.reduceToNat] at hne hle
        simp only [UInt16.toNat_shiftRight, UInt16.reduceToNat, Nat.reduceMod,
          Nat.shiftRight_eq_div_pow, Nat.reducePow]
        omega
      simp [hg]
    · simp [step, henabled]
  | _ => cases hhandler

/-- In every state that a run of restrained steps reaches, `opOffset` is within
`opLength` and the handlers are within the arrays. -/
theorem run_bounded {tr : List (Firmware × Event)} {f : Firmware} (hrun : Run step init tr f)
    (htr : ∀ p ∈ tr, p.1.Restrained p.2) :
    f.opOffset ≤ f.opLength ∧
      ∀ e, e.isHandler → f.Restrained e → f.step e ≠ .error .fault := by
  have hbounded : Bounded f.control := by
    refine hrun.invariant (fun f => Bounded f.control) Restrained ?_ bounded_init htr
    intro f e g hf he hstep
    exact (effect hstep).bounded hf he
  exact ⟨hbounded.offset, fun e hhandler he => hbounded.handler_ne_fault he hhandler⟩

/-- A reception that starts at once stays within the buffer. -/
theorem run_bounded_startRx :
    (init.usbFunctionSetup startRx).startTransfer.opOffset ≤
        (init.usbFunctionSetup startRx).startTransfer.opLength ∧
      ∀ e, e.isHandler → (init.usbFunctionSetup startRx).startTransfer.Restrained e →
        (init.usbFunctionSetup startRx).startTransfer.step e ≠ .error .fault := by
  refine run_bounded (run_start rfl) fun p hp => ?_
  rcases List.mem_cons.mp hp with rfl | hp
  · trivial
  · rcases List.mem_singleton.mp hp with rfl
    exact fun _ h => by cases h

/-- The converter is sampling the reception. -/
structure Sampling (f : Firmware) : Prop where
  state : f.state = .rx
  adie : f.adie
  interrupts : f.interrupts
  length : f.opLength = 1536

/-- A conversion below the last bit of a reception. -/
theorem Sampling.step {f : Firmware} (h : f.Sampling) (adch : UInt8) {n : ℕ}
    (hn : f.opOffset.toNat = n) (hlt : n + 1 < 1536) :
    ∃ g, f.step (.adc adch) = .ok g ∧ g.Sampling ∧ g.opOffset.toNat = n + 1 := by
  obtain ⟨g, hg⟩ := step_adc_ok adch h.adie h.interrupts fun _ => by
    rw [bitIndex_lt_iff]
    omega
  have hnext := UInt16.toNat_add_one hn (by omega)
  have hend : f.opOffset + 1 ≠ f.opLength := by
    intro heq
    have hnat := congrArg UInt16.toNat heq
    rw [hnext, h.length] at hnat
    simp only [UInt16.reduceToNat] at hnat
    omega
  have hcontrol := control_step_adc hg (by simp [h.state])
  rw [if_neg hend] at hcontrol
  refine ⟨g, hg, ⟨?_, ?_, ?_, ?_⟩, ?_⟩
  · exact (congrArg Control.state hcontrol).trans h.state
  · exact (congrArg Control.adie hcontrol).trans h.adie
  · exact (congrArg Control.interrupts hcontrol).trans h.interrupts
  · exact (congrArg Control.opLength hcontrol).trans h.length
  · exact (congrArg (·.opOffset.toNat) hcontrol).trans hnext

theorem Sampling.run {f : Firmware} (h : f.Sampling) (adch : UInt8) (n : ℕ) {k : ℕ}
    (hk : f.opOffset.toNat = k) (hlt : k + n < 1536) :
    ∃ tr g, Run Firmware.step f tr g ∧ g.Sampling ∧ g.opOffset.toNat = k + n := by
  induction n generalizing f k with
  | zero => exact ⟨[], f, .nil f, h, hk⟩
  | succ n ih =>
    obtain ⟨g, hg, hsampling, hoffset⟩ := h.step adch hk (by omega)
    obtain ⟨tr, u, hrun, hu, hend⟩ := ih hsampling hoffset (by omega)
    exact ⟨_, u, .cons hg hrun, hu, by omega⟩

/-- One conversion too many: the converter is still enabled when the last bit of a
reception is stored, and writes behind `ioBuffer` if it completes once more. -/
theorem not_bounded :
    ¬∀ tr f, Run step init tr f →
      f.opOffset ≤ f.opLength ∧ ∀ e, e.isHandler → f.step e ≠ .error .fault := by
  intro h
  have hstart : Run step init _ (init.usbFunctionSetup startRx).startTransfer := run_start rfl
  have hsampling : (init.usbFunctionSetup startRx).startTransfer.Sampling := ⟨rfl, rfl, rfl, rfl⟩
  obtain ⟨tr, f, hrun, hf, hoffset⟩ := hsampling.run 0 1535 (k := 0) rfl (by decide)
  obtain ⟨g, hg⟩ := step_adc_ok 0 hf.adie hf.interrupts fun _ => by
    rw [bitIndex_lt_iff]
    omega
  have hend : f.opOffset + 1 = 1536 := by
    have hnat : f.opOffset = 1535 := UInt16.toNat_inj.mp hoffset
    rw [hnat]
    rfl
  have hcontrol := control_step_adc hg (by simp [hf.state])
  rw [if_pos (hend.trans hf.length.symm), hend] at hcontrol
  have hstate : g.state = .finished := congrArg Control.state hcontrol
  have hoffset : g.opOffset = 1536 := congrArg Control.opOffset hcontrol
  have hadie : g.adie = true := (congrArg Control.adie hcontrol).trans hf.adie
  have hinterrupts : g.interrupts = true :=
    (congrArg Control.interrupts hcontrol).trans hf.interrupts
  refine (h _ _ (hstart.append (hrun.append (.cons hg (.nil g))))).2 (.adc 0) rfl ?_
  simp only [step, hadie, hinterrupts, Bool.and_self, if_true]
  rw [adcVect_eq, if_neg (by simp [hstate])]
  simp [adcStore, readIoBuffer, hoffset, bind, Except.bind]

end Firmware

end RfidTool

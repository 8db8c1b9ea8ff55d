import RfidTool.Rfid.PulseTrain

/-!
# No false lock of the carrier decoder

The ranges of the dividers overlap, but samples in the short and in the long range of one
divider are pulses of some order for it, and `CarrierDecoder.Tuned` says what any order of
them leaves: at a slower divider no short pulse is ever counted, at a faster one no long
pulse, and at their own there are no errors. So a new detector synchronises to their
divider or not at all, and never leaves it.
-/

namespace RfidTool

/-- A length in the short or in the long range of the divider `r`. -/
def InRange (r : ℕ) (x : Sample) : Prop :=
  (3 * r ≤ x.getLengthUs ∧ x.getLengthUs ≤ 5 * r) ∨ (7 * r ≤ x.getLengthUs ∧ x.getLengthUs ≤ 9 * r)

instance (r : ℕ) (x : Sample) : Decidable (InRange r x) := inferInstanceAs (Decidable (_ ∨ _))

/-- A sample in range is the one of a pulse. -/
theorem InRange.exists_jittered {r : ℕ} {x : Sample} (h : InRange r x) : ∃ p, Jittered r p x := by
  rcases h with ⟨hmin, hmax⟩ | ⟨hmin, hmax⟩
  · refine ⟨⟨x.isHigh, false⟩, rfl, ?_, ?_⟩ <;> simp only [Bool.false_eq_true, if_false] <;> omega
  · refine ⟨⟨x.isHigh, true⟩, rfl, ?_, ?_⟩ <;> simp only [if_true] <;> omega

theorem exists_forall₂_jittered {r : ℕ} {xs : List Sample} (h : ∀ x ∈ xs, InRange r x) :
    ∃ ps, List.Forall₂ (Jittered r) ps xs := by
  induction xs with
  | nil => exact ⟨[], .nil⟩
  | cons x xs ih =>
    rw [List.forall_mem_cons] at h
    obtain ⟨p, hp⟩ := h.1.exists_jittered
    obtain ⟨ps, hps⟩ := ih h.2
    exact ⟨p :: ps, .cons hp hps⟩

namespace CarrierDecoder

/-- Behind a notified synchronisation there is synchronisation. -/
theorem checkSample_syncChanged {d : CarrierDecoder} {x : Sample} {divider : UInt8}
    (h : (d.checkSample x).2 = some (.syncChanged true divider)) :
    (d.checkSample x).1.hasSync = true ∧ (d.checkSample x).1.carrierDivider = divider := by
  rcases checkSample_cases d x with ⟨-, hstep⟩ | ⟨-, -, hstep⟩ | ⟨-, -, hstep⟩
  all_goals rw [hstep] at h ⊢
  · cases h
  · unfold follow at h
    dsimp only at h
    split_ifs at h
    all_goals cases h
  · rcases search_cases d.nextWindow x.getLengthUs with hsearch | ⟨hsearch, -⟩
    · rw [hsearch] at h
      cases h
    · rw [hsearch] at h ⊢
      obtain ⟨-, rfl⟩ := CarrierEvent.syncChanged.inj (Option.some.inj h)
      exact ⟨rfl, count_carrierDivider _ _⟩

/-- On samples in the ranges of `r`, a new detector notifies no synchronisation but with `r`,
behind it nothing but pulses, and it keeps the synchronisation once it has it. -/
theorem no_false_lock {r : ℕ} (hr : r = 16 ∨ r = 32 ∨ r = 64) {xs : List Sample}
    (hxs : ∀ x ∈ xs, InRange r x) :
    (∀ before divider after,
      machine.output reset xs = before ++ .syncChanged true divider :: after →
        divider.toNat = r ∧ ∀ e ∈ after, ∃ isHigh isLong, e = .newPulse isHigh isLong) ∧
    ∀ before mid after, xs = before ++ mid ++ after →
      (machine.final reset before).hasSync = true →
        (machine.final reset (before ++ mid)).hasSync = true ∧
          (machine.final reset (before ++ mid)).carrierDivider.toNat = r := by
  constructor
  · intro before divider after hout
    obtain ⟨ys, x, zs, rfl, -, hstep, hafter⟩ := Transducer.output_eq_append_cons hout
    obtain ⟨hhead, hx, hrest⟩ : (∀ y ∈ ys, InRange r y) ∧ InRange r x ∧ ∀ z ∈ zs, InRange r z := by
      simpa [or_imp, forall_and] using hxs
    obtain ⟨ps, hps⟩ := exists_forall₂_jittered hhead
    obtain ⟨p, hp⟩ := hx.exists_jittered
    obtain ⟨qs, hqs⟩ := exists_forall₂_jittered hrest
    have htuned := (Tuned.final hr hps (tuned_reset r)).checkSample hr hp
    obtain ⟨hsync, hdiv⟩ := checkSample_syncChanged hstep
    obtain ⟨-, -, -, hpulses⟩ := Tuned.follow_train hr hqs htuned hsync
    refine ⟨by rw [← hdiv, htuned.carrierDivider_eq hsync], ?_⟩
    intro e he
    rw [← hafter, machine_step, hpulses] at he
    obtain ⟨q, -, rfl⟩ := List.mem_map.mp he
    exact ⟨q.isHigh, q.isLong, rfl⟩
  · rintro before mid after rfl hsync
    have hmid : (∀ x ∈ before, InRange r x) ∧ ∀ x ∈ mid, InRange r x := by
      simp only [List.mem_append, or_imp, forall_and] at hxs
      exact hxs.1
    obtain ⟨ps, hps⟩ := exists_forall₂_jittered hmid.1
    obtain ⟨qs, hqs⟩ := exists_forall₂_jittered hmid.2
    have htuned := Tuned.final hr hps (tuned_reset r)
    obtain ⟨htuned', hsync', -, -⟩ := Tuned.follow_train hr hqs htuned hsync
    rw [Transducer.final_append]
    exact ⟨hsync', htuned'.carrierDivider_eq hsync'⟩

/-- Samples at the borders of the ranges of the divider 32. Eleven of them are errors at 16. -/
def border : List Sample :=
  List.replicate 12 ⟨288, false⟩ ++
    (List.replicate 5 [⟨96, true⟩, ⟨224, false⟩, ⟨160, true⟩, ⟨288, false⟩]).flatten

theorem no_false_lock_border :
    (∀ x ∈ border, InRange 32 x) ∧
      machine.output reset border =
        [.syncChanged false 0] ++ .syncChanged true 32 :: (machine.output reset border).drop 2 ∧
      ∀ e ∈ (machine.output reset border).drop 2, ∃ isHigh isLong, e = .newPulse isHigh isLong := by
  have hrange : ∀ x ∈ border, InRange 32 x := by decide +kernel
  have hout : machine.output reset border =
      [.syncChanged false 0] ++ .syncChanged true 32 :: (machine.output reset border).drop 2 := by
    decide +kernel
  exact ⟨hrange, hout, ((no_false_lock (.inr (.inl rfl)) hrange).1 _ _ _ hout).2⟩

end CarrierDecoder

end RfidTool

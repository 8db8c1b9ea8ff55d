import Mathlib.Tactic.Common

/-!
# Loops that may not end

The body of a loop goes on with a new state or returns a result. `run` makes a number of
rounds at most. A loop returns a result when some number of rounds is enough for it, and
diverges when none is. An invariant under which the body always goes on shows that it
diverges, one with a measure that it returns.

## Main definitions

* `Loop.run`: the result within a number of rounds.
* `Loop.Returns`, `Loop.Diverges`: what the loop does without a bound.
-/

namespace Loop

variable {σ ρ : Type*} {body : σ → σ ⊕ ρ}

/-- The result, if the loop returns within `fuel` rounds. -/
def run (body : σ → σ ⊕ ρ) : ℕ → σ → Option ρ
  | 0, _ => none
  | fuel + 1, s =>
    match body s with
    | .inl t => run body fuel t
    | .inr r => some r

/-- The loop comes to an end with the result `r`. -/
def Returns (body : σ → σ ⊕ ρ) (s : σ) (r : ρ) : Prop := ∃ fuel, run body fuel s = some r

/-- No number of rounds is enough. -/
def Diverges (body : σ → σ ⊕ ρ) (s : σ) : Prop := ∀ fuel, run body fuel s = none

theorem run_succ_of_inl {s t : σ} (h : body s = .inl t) (fuel : ℕ) :
    run body (fuel + 1) s = run body fuel t := by
  rw [run, h]

theorem run_succ_of_inr {s : σ} {r : ρ} (h : body s = .inr r) (fuel : ℕ) :
    run body (fuel + 1) s = some r := by
  rw [run, h]

/-- More rounds do not change a result. -/
theorem run_mono {s : σ} {r : ρ} {m n : ℕ} (hle : m ≤ n) (h : run body m s = some r) :
    run body n s = some r := by
  induction m generalizing s n with
  | zero => cases h
  | succ m ih =>
    obtain ⟨n, rfl⟩ := Nat.exists_eq_succ_of_ne_zero (by omega : n ≠ 0)
    cases hbody : body s with
    | inl t =>
      rw [run_succ_of_inl hbody] at h ⊢
      exact ih (Nat.le_of_succ_le_succ hle) h
    | inr r' =>
      rw [run_succ_of_inr hbody] at h ⊢
      exact h

theorem Returns.unique {s : σ} {r r' : ρ} (h : Returns body s r) (h' : Returns body s r') :
    r = r' := by
  obtain ⟨m, hm⟩ := h
  obtain ⟨n, hn⟩ := h'
  have hm' := run_mono (Nat.le_max_left m n) hm
  have hn' := run_mono (Nat.le_max_right m n) hn
  exact Option.some.inj (hm'.symm.trans hn')

theorem returns_of_inr {s : σ} {r : ρ} (h : body s = .inr r) : Returns body s r :=
  ⟨1, run_succ_of_inr h 0⟩

/-- A round at the front. -/
theorem Returns.of_inl {s t : σ} {r : ρ} (h : body s = .inl t) (hreturns : Returns body t r) :
    Returns body s r := by
  obtain ⟨fuel, hfuel⟩ := hreturns
  exact ⟨fuel + 1, (run_succ_of_inl h fuel).trans hfuel⟩

/-- Two loops in a row return what the second one does behind the result of the first. -/
theorem Returns.bind_iff {τ ω : Type*} {s : σ} {r : ρ} (h : Returns body s r)
    (body' : ρ → τ → τ ⊕ ω) (next : ρ → τ) (v : ω) :
    (∃ fuel, ((run body fuel s).bind fun r => run (body' r) fuel (next r)) = some v) ↔
      Returns (body' r) (next r) v := by
  constructor
  · rintro ⟨fuel, hfuel⟩
    obtain ⟨r', hr', hv⟩ := Option.bind_eq_some_iff.mp hfuel
    rw [h.unique ⟨fuel, hr'⟩]
    exact ⟨fuel, hv⟩
  · rintro ⟨n, hn⟩
    obtain ⟨m, hm⟩ := h
    have hm' := run_mono (Nat.le_max_left m n) hm
    have hn' := run_mono (Nat.le_max_right m n) hn
    exact ⟨max m n, Option.bind_eq_some_iff.mpr ⟨r, hm', hn'⟩⟩

/-- A loop that diverges has no result. -/
theorem Diverges.not_returns {s : σ} (h : Diverges body s) (r : ρ) : ¬ Returns body s r := by
  rintro ⟨fuel, hfuel⟩
  rw [h fuel] at hfuel
  cases hfuel

theorem Diverges.of_inl {s t : σ} (h : body s = .inl t) (hdiverges : Diverges body t) :
    Diverges body s := by
  intro fuel
  cases fuel with
  | zero => rfl
  | succ fuel => exact (run_succ_of_inl h fuel).trans (hdiverges fuel)

/-- A loop diverges when its body goes on in every state that it gets into. -/
theorem diverges_of_invariant (I : σ → Prop) (hstep : ∀ s, I s → ∃ t, body s = .inl t ∧ I t)
    {s : σ} (hs : I s) : Diverges body s := by
  intro fuel
  induction fuel generalizing s with
  | zero => rfl
  | succ fuel ih =>
    obtain ⟨t, hbody, ht⟩ := hstep s hs
    rw [run_succ_of_inl hbody]
    exact ih ht

/-- A loop returns when its body goes on only with a smaller measure. -/
theorem exists_returns (I : σ → Prop) (m : σ → ℕ) (Q : ρ → Prop)
    (hstep : ∀ s, I s → (∃ t, body s = .inl t ∧ I t ∧ m t < m s) ∨ ∃ r, body s = .inr r ∧ Q r)
    {s : σ} (hs : I s) : ∃ r, Returns body s r ∧ Q r := by
  induction hn : m s using Nat.strongRecOn generalizing s with
  | ind n ih =>
    rcases hstep s hs with ⟨t, hbody, ht, hlt⟩ | ⟨r, hbody, hr⟩
    · obtain ⟨r, hreturns, hr⟩ := ih (m t) (hn ▸ hlt) ht rfl
      exact ⟨r, hreturns.of_inl hbody, hr⟩
    · exact ⟨r, returns_of_inr hbody, hr⟩

end Loop

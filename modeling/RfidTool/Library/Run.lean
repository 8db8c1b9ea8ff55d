import Mathlib.Data.List.Basic
import Mathlib.Tactic.Common

/-!
# Runs of a step function that may stop

A `Run` is a sequence of successful steps, with the state before each of them. What
a step preserves, under a condition on the state and the event, a run preserves
when all its steps meet the condition. `Run.split` cuts a run at a step. The steps
are computations in `Except`; `Except.bind_eq_ok_iff` takes them apart.
-/

variable {σ ε χ : Type*}

theorem Except.bind_eq_ok_iff.{v} {α β : Type v} {x : Except χ α} {k : α → Except χ β} {b : β} :
    (x >>= k) = .ok b ↔ ∃ a, x = .ok a ∧ k a = .ok b := by
  cases x with
  | error e => simp [bind, Except.bind]
  | ok a => simp [bind, Except.bind]

/-- The steps from one state to another, each with the state before it. -/
inductive Run (step : σ → ε → Except χ σ) : σ → List (σ × ε) → σ → Prop where
  | nil (s : σ) : Run step s [] s
  | cons {s t u : σ} {e : ε} {es : List (σ × ε)} (head : step s e = .ok t)
    (tail : Run step t es u) : Run step s ((s, e) :: es) u

/-- The steps that the events take, up to the first one that fails. -/
def trace (step : σ → ε → Except χ σ) (s : σ) : List ε → List (σ × ε)
  | [] => []
  | e :: es =>
    match step s e with
    | .ok t => (s, e) :: trace step t es
    | .error _ => []

/-- The events of a trace. -/
theorem mem_of_mem_trace {step : σ → ε → Except χ σ} {s : σ} {es : List ε} {p : σ × ε}
    (h : p ∈ trace step s es) : p.2 ∈ es := by
  induction es generalizing s with
  | nil => cases h
  | cons e es ih =>
    unfold trace at h
    cases hstep : step s e with
    | error => simp [hstep] at h
    | ok t =>
      rw [hstep] at h
      rcases List.mem_cons.mp h with rfl | h
      · exact List.mem_cons_self
      · exact List.mem_cons_of_mem _ (ih h)

theorem trace_append {step : σ → ε → Except χ σ} {s t : σ} {es : List ε}
    (h : es.foldlM step s = .ok t) (es' : List ε) :
    trace step s (es ++ es') = trace step s es ++ trace step t es' := by
  induction es generalizing s with
  | nil =>
    cases h
    rfl
  | cons e es ih =>
    rw [List.foldlM_cons] at h
    obtain ⟨u, hu, hrest⟩ := Except.bind_eq_ok_iff.mp h
    rw [List.cons_append, trace, trace, hu]
    exact congrArg _ (ih hrest)

namespace Run

variable {step : σ → ε → Except χ σ}

/-- A list of events is executed step by step. -/
theorem of_foldlM {step : σ → ε → Except χ σ} {es : List ε} {s u : σ}
    (h : es.foldlM step s = .ok u) : Run step s (trace step s es) u := by
  induction es generalizing s with
  | nil =>
    cases h
    exact .nil _
  | cons e es ih =>
    rw [List.foldlM_cons] at h
    obtain ⟨t, ht, hrest⟩ := Except.bind_eq_ok_iff.mp h
    rw [trace, ht]
    exact .cons ht (ih hrest)

/-- The events of such a run. -/
theorem exists_of_foldlM {step : σ → ε → Except χ σ} {es : List ε} {s u : σ}
    (h : es.foldlM step s = .ok u) : ∃ tr, tr.map (·.2) = es ∧ Run step s tr u := by
  induction es generalizing s with
  | nil =>
    cases h
    exact ⟨[], rfl, .nil _⟩
  | cons e es ih =>
    rw [List.foldlM_cons] at h
    obtain ⟨t, ht, hrest⟩ := Except.bind_eq_ok_iff.mp h
    obtain ⟨tr, hevents, hrun⟩ := ih hrest
    exact ⟨(s, e) :: tr, congrArg _ hevents, .cons ht hrun⟩

theorem foldlM {s u : σ} {tr : List (σ × ε)} (h : Run step s tr u) :
    (tr.map (·.2)).foldlM step s = .ok u := by
  induction h with
  | nil => rfl
  | cons head _ ih =>
    rw [List.map_cons, List.foldlM_cons]
    exact Except.bind_eq_ok_iff.mpr ⟨_, head, ih⟩

theorem append {s t u : σ} {xs ys : List (σ × ε)} (h : Run step s xs t) (h' : Run step t ys u) :
    Run step s (xs ++ ys) u := by
  induction h with
  | nil => exact h'
  | cons head _ ih => exact .cons head (ih h')

theorem split {s u : σ} {xs ys : List (σ × ε)} (h : Run step s (xs ++ ys) u) :
    ∃ t, Run step s xs t ∧ Run step t ys u := by
  induction xs generalizing s with
  | nil => exact ⟨s, .nil s, h⟩
  | cons x xs ih =>
    cases h with
    | cons head tail =>
      obtain ⟨t, hxs, hys⟩ := ih tail
      exact ⟨t, .cons head hxs, hys⟩

/-- The step behind a part of a run. -/
theorem split_cons {s u a : σ} {e : ε} {xs ys : List (σ × ε)}
    (h : Run step s (xs ++ (a, e) :: ys) u) :
    ∃ b, Run step s xs a ∧ step a e = .ok b ∧ Run step b ys u := by
  obtain ⟨t, hxs, hys⟩ := h.split
  cases hys with
  | cons head tail => exact ⟨_, hxs, head, tail⟩

/-- The events of a run are steps. -/
theorem exists_step {s u : σ} {es : List (σ × ε)} (h : Run step s es u) {p : σ × ε}
    (hp : p ∈ es) : ∃ t, step p.1 p.2 = .ok t := by
  induction h with
  | nil => cases hp
  | cons head _ ih =>
    rcases List.mem_cons.mp hp with rfl | hp
    · exact ⟨_, head⟩
    · exact ih hp

/-- What every step keeps under a condition, a run keeps whose steps all meet it. -/
theorem invariant (I : σ → Prop) (C : σ → ε → Prop)
    (hstep : ∀ s e t, I s → C s e → step s e = .ok t → I t) {s u : σ} {es : List (σ × ε)}
    (h : Run step s es u) (hs : I s) (hC : ∀ p ∈ es, C p.1 p.2) : I u := by
  induction h with
  | nil => exact hs
  | cons head _ ih =>
    refine ih (hstep _ _ _ hs (hC _ List.mem_cons_self) head) ?_
    exact fun p hp => hC p (List.mem_cons_of_mem _ hp)

end Run

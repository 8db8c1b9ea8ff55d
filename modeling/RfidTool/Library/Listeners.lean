import RfidTool.Library.Transducer

/-!
# Listeners

A notifier that several machines listen to answers an input with the outputs of all of them,
one after the other: an `Emitter`. A transducer is a `Component` of it when every step does to
its part of the state, and outputs of its own, what the transducer does alone. Then so does a
run, whatever the other listeners are.
-/

/-- A machine that answers every input with a list of outputs. -/
structure Emitter (ρ α δ : Type*) where
  step : ρ → α → ρ × List δ

namespace Emitter

variable {ρ σ α β δ : Type*} (E : Emitter ρ α δ)

/-- The state after all inputs. -/
def final (r : ρ) (xs : List α) : ρ := xs.foldl (fun r x => (E.step r x).1) r

/-- The outputs in order. -/
def output : ρ → List α → List δ
  | _, [] => []
  | r, x :: xs => (E.step r x).2 ++ output (E.step r x).1 xs

/-- An output belongs to an input. -/
theorem exists_of_mem_output {r : ρ} {xs : List α} {y : δ} (h : y ∈ E.output r xs) :
    ∃ before x after, xs = before ++ x :: after ∧ y ∈ (E.step (E.final r before) x).2 := by
  induction xs generalizing r with
  | nil => cases h
  | cons x xs ih =>
    rw [output, List.mem_append] at h
    rcases h with h | h
    · exact ⟨[], x, xs, rfl, h⟩
    · obtain ⟨before, x', after, rfl, hmem⟩ := ih h
      exact ⟨x :: before, x', after, rfl, hmem⟩

/-- `T` works in `E` as if it were alone. -/
structure Component (T : Transducer σ α β) (state : ρ → σ) (own : δ → Option β) : Prop where
  next : ∀ r x, state (E.step r x).1 = (T.step (state r) x).1
  answer : ∀ r x, (E.step r x).2.filterMap own = (T.step (state r) x).2.toList

namespace Component

variable {E} {T : Transducer σ α β} {state : ρ → σ} {own : δ → Option β}

theorem final (h : E.Component T state own) (r : ρ) (xs : List α) :
    state (E.final r xs) = T.final (state r) xs := by
  induction xs generalizing r with
  | nil => rfl
  | cons x xs ih =>
    rw [Transducer.final_cons, ← h.next r x]
    exact ih (E.step r x).1

theorem output (h : E.Component T state own) (r : ρ) (xs : List α) :
    (E.output r xs).filterMap own = T.output (state r) xs := by
  induction xs generalizing r with
  | nil => rfl
  | cons x xs ih =>
    rw [Emitter.output, List.filterMap_append, Transducer.output_cons, h.answer, ih, h.next]

end Component

end Emitter

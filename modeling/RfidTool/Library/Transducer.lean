import Mathlib.Data.List.Induction
import Mathlib.Data.List.ReduceOption
import Mathlib.Tactic.Common

/-!
# Transducers with at most one output for each input

A `Transducer` reads one input at a time and answers it with at most one output.
`trace` keeps the answers input by input, so a position in it is a position of
the input; `output` forgets the silent steps. Machines in a row are composed by
`comp`. A simulation between two machines carries over whole runs.

## Main definitions

* `Transducer.final`, `Transducer.trace`, `Transducer.output`: runs of a machine.
* `Transducer.comp`: the second machine reads what the first one answers.
* `Transducer.Simulation`: related states stay related and answer alike.
* `Transducer.Avoids`: a run without exceptions, where a simulation may break.
-/

/-- A machine that answers every input with at most one output. -/
structure Transducer (σ α β : Type*) where
  step : σ → α → σ × Option β

namespace Transducer

variable {σ τ α β γ : Type*}

/-! ## Runs -/

/-- The state after all inputs. -/
def final (T : Transducer σ α β) (s : σ) (xs : List α) : σ :=
  xs.foldl (fun s x => (T.step s x).1) s

/-- The answers, one for each input. -/
def trace (T : Transducer σ α β) : σ → List α → List (Option β)
  | _, [] => []
  | s, x :: xs => (T.step s x).2 :: T.trace (T.step s x).1 xs

/-- The outputs in order, without the silent steps. -/
def output (T : Transducer σ α β) (s : σ) (xs : List α) : List β :=
  (T.trace s xs).reduceOption

variable (T : Transducer σ α β)

@[simp] theorem final_nil (s : σ) : T.final s [] = s := rfl

@[simp] theorem final_cons (s : σ) (x : α) (xs : List α) :
    T.final s (x :: xs) = T.final (T.step s x).1 xs := rfl

theorem final_append (s : σ) (xs ys : List α) :
    T.final s (xs ++ ys) = T.final (T.final s xs) ys := List.foldl_append

@[simp] theorem trace_nil (s : σ) : T.trace s [] = [] := rfl

@[simp] theorem trace_cons (s : σ) (x : α) (xs : List α) :
    T.trace s (x :: xs) = (T.step s x).2 :: T.trace (T.step s x).1 xs := rfl

theorem trace_append (s : σ) (xs ys : List α) :
    T.trace s (xs ++ ys) = T.trace s xs ++ T.trace (T.final s xs) ys := by
  induction xs generalizing s with
  | nil => rfl
  | cons x xs ih => simp [ih]

@[simp] theorem length_trace (s : σ) (xs : List α) : (T.trace s xs).length = xs.length := by
  induction xs generalizing s with
  | nil => rfl
  | cons x xs ih => simp [ih]

/-- The answer to an input is the one of the state that the inputs before it led to. -/
theorem getElem?_trace (s : σ) (xs : List α) (n : ℕ) :
    (T.trace s xs)[n]? = xs[n]?.map fun x => (T.step (T.final s (xs.take n)) x).2 := by
  induction xs generalizing s n with
  | nil => simp
  | cons x xs ih =>
    cases n with
    | zero => rfl
    | succ n => simp [ih]

@[simp] theorem output_nil (s : σ) : T.output s [] = [] := rfl

theorem output_cons (s : σ) (x : α) (xs : List α) :
    T.output s (x :: xs) = (T.step s x).2.toList ++ T.output (T.step s x).1 xs := by
  cases h : (T.step s x).2 <;> simp [output, h, List.reduceOption]

theorem output_append (s : σ) (xs ys : List α) :
    T.output s (xs ++ ys) = T.output s xs ++ T.output (T.final s xs) ys := by
  simp [output, trace_append, List.reduceOption_append]

theorem mem_output {s : σ} {xs : List α} {y : β} :
    y ∈ T.output s xs ↔ some y ∈ T.trace s xs := by
  simp [output, List.reduceOption_mem_iff]

theorem length_output_le_length (s : σ) (xs : List α) : (T.output s xs).length ≤ xs.length := by
  rw [← T.length_trace s xs]
  exact List.reduceOption_length_le _

variable {T} in
/-- An output comes from an input, and those around it from the inputs around it. -/
theorem output_eq_append_cons {s : σ} {xs : List α} {ys zs : List β} {y : β}
    (h : T.output s xs = ys ++ y :: zs) :
    ∃ before x after, xs = before ++ x :: after ∧ T.output s before = ys ∧
      (T.step (T.final s before) x).2 = some y ∧
      T.output (T.step (T.final s before) x).1 after = zs := by
  induction xs generalizing s ys with
  | nil => simp at h
  | cons x xs ih =>
    rw [output_cons] at h
    cases hx : (T.step s x).2 with
    | none =>
      rw [hx, Option.toList_none, List.nil_append] at h
      obtain ⟨before, x', after, rfl, hys, hstep, hzs⟩ := ih h
      exact ⟨x :: before, x', after, rfl, by rw [output_cons, hx, hys]; rfl, hstep, hzs⟩
    | some y' =>
      rw [hx, Option.toList_some, List.singleton_append] at h
      cases ys with
      | nil =>
        obtain ⟨rfl, rfl⟩ := List.cons.inj h
        exact ⟨[], x, xs, rfl, rfl, hx, rfl⟩
      | cons z ys =>
        obtain ⟨rfl, htail⟩ := List.cons.inj h
        obtain ⟨before, x', after, rfl, hys, hstep, hzs⟩ := ih htail
        exact ⟨x :: before, x', after, rfl, by rw [output_cons, hx, hys]; rfl, hstep, hzs⟩

/-- A run whose trace is silent outputs nothing. -/
theorem output_eq_nil {s : σ} {xs : List α} (h : ∀ y ∈ T.trace s xs, y = none) :
    T.output s xs = [] := by
  rw [List.eq_nil_iff_forall_not_mem]
  intro y hy
  exact absurd (h _ (T.mem_output.mp hy)) (by simp)

/-- What every step preserves, a run preserves. -/
theorem final_invariant (I : σ → Prop) (hstep : ∀ s x, I s → I (T.step s x).1)
    (s : σ) (xs : List α) (h : I s) : I (T.final s xs) := by
  induction xs generalizing s with
  | nil => exact h
  | cons x xs ih => exact ih _ (hstep s x h)

/-- What holds of no inputs, and goes on with every input, its answer and the next state,
holds of a run with all its inputs and answers. -/
theorem history_invariant (I : List α → List (Option β) → σ → Prop) {s : σ} (hinit : I [] [] s)
    (hstep : ∀ xs ys t x, I xs ys t → I (xs ++ [x]) (ys ++ [(T.step t x).2]) (T.step t x).1)
    (xs : List α) : I xs (T.trace s xs) (T.final s xs) := by
  induction xs using List.reverseRecOn with
  | nil => exact hinit
  | append_singleton xs x ih =>
    rw [trace_append, final_append]
    exact hstep _ _ _ x ih

/-! ## Machines in a row -/

/-- The machine in which `U` reads the outputs of `T`. -/
def comp (T : Transducer σ α β) (U : Transducer τ β γ) : Transducer (σ × τ) α γ where
  step s x :=
    match T.step s.1 x with
    | (s', none) => ((s', s.2), none)
    | (s', some y) => ((s', (U.step s.2 y).1), (U.step s.2 y).2)

variable {T} in
theorem comp_step_none {U : Transducer τ β γ} {s : σ} {t : τ} {x : α}
    (h : (T.step s x).2 = none) : (T.comp U).step (s, t) x = (((T.step s x).1, t), none) := by
  rcases hx : T.step s x with ⟨s', y⟩
  simp_all [comp]

variable {T} in
theorem comp_step_some {U : Transducer τ β γ} {s : σ} {t : τ} {x : α} {y : β}
    (h : (T.step s x).2 = some y) :
    (T.comp U).step (s, t) x = (((T.step s x).1, (U.step t y).1), (U.step t y).2) := by
  rcases hx : T.step s x with ⟨s', y'⟩
  simp_all [comp]

theorem output_comp (U : Transducer τ β γ) (s : σ) (t : τ) (xs : List α) :
    (T.comp U).output (s, t) xs = U.output t (T.output s xs) := by
  induction xs generalizing s t with
  | nil => rfl
  | cons x xs ih =>
    rw [output_cons, output_cons T]
    cases h : (T.step s x).2 with
    | none => rw [comp_step_none h, ih]; rfl
    | some y =>
      rw [comp_step_some h, ih, Option.toList_some, List.singleton_append, output_cons U]

/-! ## Simulation -/

/-- `R` relates states of `T` to states of `U` that answer every input alike and
go on to related states. -/
structure Simulation (T : Transducer σ α β) (U : Transducer τ α β) (R : σ → τ → Prop) : Prop where
  next : ∀ {s t}, R s t → ∀ x, R (T.step s x).1 (U.step t x).1
  answer : ∀ {s t}, R s t → ∀ x, (T.step s x).2 = (U.step t x).2

namespace Simulation

variable {T} {U : Transducer τ α β} {R : σ → τ → Prop}

theorem final (sim : Simulation T U R) {s : σ} {t : τ} (h : R s t) (xs : List α) :
    R (T.final s xs) (U.final t xs) := by
  induction xs generalizing s t with
  | nil => exact h
  | cons x xs ih => exact ih (sim.next h x)

theorem trace (sim : Simulation T U R) {s : σ} {t : τ} (h : R s t) (xs : List α) :
    T.trace s xs = U.trace t xs := by
  induction xs generalizing s t with
  | nil => rfl
  | cons x xs ih => rw [trace_cons, trace_cons, sim.answer h x, ih (sim.next h x)]

theorem output (sim : Simulation T U R) {s : σ} {t : τ} (h : R s t) (xs : List α) :
    T.output s xs = U.output t xs := by
  rw [Transducer.output, Transducer.output, sim.trace h]

end Simulation

/-! ## Simulation but for some inputs -/

/-- No input is read in a state that makes it an exception. -/
def Avoids (T : Transducer σ α β) (exc : σ → α → Prop) : σ → List α → Prop
  | _, [] => True
  | s, x :: xs => ¬ exc s x ∧ T.Avoids exc (T.step s x).1 xs

instance decidableAvoids (exc : σ → α → Prop) [∀ s x, Decidable (exc s x)] :
    ∀ (s : σ) (xs : List α), Decidable (T.Avoids exc s xs)
  | _, [] => inferInstanceAs (Decidable True)
  | s, x :: xs =>
    have := decidableAvoids exc (T.step s x).1 xs
    inferInstanceAs (Decidable (¬ exc s x ∧ T.Avoids exc (T.step s x).1 xs))

section

variable {T} {U : Transducer τ α β}

/-- `R k` bounds by `k` what `T` may still output more than `U`, when every step pays for an
output of `T` and for a larger bound with an output of `U` or with the bound before it. -/
theorem length_output_le {R : ℕ → σ → τ → Prop}
    (hstep : ∀ {k s t}, R k s t → ∀ x, ∃ k', R k' (T.step s x).1 (U.step t x).1 ∧
      (T.step s x).2.toList.length + k' ≤ (U.step t x).2.toList.length + k)
    {k : ℕ} {s : σ} {t : τ} (h : R k s t) (xs : List α) :
    (T.output s xs).length ≤ (U.output t xs).length + k := by
  induction xs generalizing k s t with
  | nil => simp
  | cons x xs ih =>
    obtain ⟨k', hnext, hpays⟩ := hstep h x
    have hrest := ih hnext
    simp only [output_cons, List.length_append]
    omega

/-- A simulation that breaks at the exceptions, where `T` misses an output that it never
makes up for: the outputs are the same if and only if there are no exceptions. -/
theorem output_eq_iff_avoids {R : σ → τ → Prop} {exc : τ → α → Prop}
    (hnext : ∀ {s t x}, R s t → ¬ exc t x →
      R (T.step s x).1 (U.step t x).1 ∧ (T.step s x).2 = (U.step t x).2)
    (hmiss : ∀ {s t x}, R s t → exc t x → (T.step s x).2 = none ∧ (U.step t x).2.isSome ∧
      ∀ ys, (T.output (T.step s x).1 ys).length ≤ (U.output (U.step t x).1 ys).length)
    {s : σ} {t : τ} (h : R s t) (xs : List α) :
    T.output s xs = U.output t xs ↔ U.Avoids exc t xs := by
  induction xs generalizing s t with
  | nil => simp [Avoids]
  | cons x xs ih =>
    rw [Avoids, output_cons, output_cons]
    by_cases hexc : exc t x
    · obtain ⟨hnone, hsome, hle⟩ := hmiss h hexc
      obtain ⟨y, hy⟩ := Option.isSome_iff_exists.mp hsome
      have hrest := hle xs
      constructor
      · intro heq
        have hlen := congrArg List.length heq
        simp only [hnone, hy, Option.toList_none, Option.toList_some, List.length_append,
          List.length_nil, List.length_singleton] at hlen
        omega
      · exact fun havoids => absurd hexc havoids.1
    · obtain ⟨hrel, hanswer⟩ := hnext h hexc
      rw [hanswer, List.append_cancel_left_eq, ih hrel]
      exact ⟨fun havoids => ⟨hexc, havoids⟩, fun havoids => havoids.2⟩

/-- A simulation up to the exceptions, which are exceptions for the simulated machine too: it
answers like the other one and meets none, if and only if the other one meets none. -/
theorem output_eq_and_avoids_iff {R : σ → τ → Prop} {exc : σ → α → Prop} {exc' : τ → α → Prop}
    (hnext : ∀ {s t x}, R s t → ¬ exc' t x → R (T.step s x).1 (U.step t x).1 ∧
      (T.step s x).2 = (U.step t x).2 ∧ ¬ exc s x)
    (hexc : ∀ {s t x}, R s t → exc' t x → exc s x)
    {s : σ} {t : τ} (h : R s t) (xs : List α) :
    T.output s xs = U.output t xs ∧ T.Avoids exc s xs ↔ U.Avoids exc' t xs := by
  induction xs generalizing s t with
  | nil => simp [Avoids]
  | cons x xs ih =>
    rw [Avoids, Avoids, output_cons, output_cons]
    by_cases hx : exc' t x
    · exact ⟨fun hboth => absurd (hexc h hx) hboth.2.1, fun havoids => absurd hx havoids.1⟩
    · obtain ⟨hrel, hanswer, hnot⟩ := hnext h hx
      rw [hanswer, List.append_cancel_left_eq]
      constructor
      · exact fun ⟨hout, havoids⟩ => ⟨hx, (ih hrel).mp ⟨hout, havoids.2⟩⟩
      · intro havoids
        obtain ⟨hout, hrest⟩ := (ih hrel).mpr havoids.2
        exact ⟨hout, hnot, hrest⟩

end

end Transducer

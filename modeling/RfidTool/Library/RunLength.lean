import Mathlib.Data.List.Chain
import Mathlib.Tactic.Common

/-!
# Run-length encoding

`runs` lists the maximal runs of equal elements with their lengths. It is computed from
left to right: `runsFrom a n` is the encoding of what follows a run of which `n`
elements are read already. The number of elements read before changes the length of
the first run and nothing else.
-/

namespace RunLength

variable {α : Type*} [DecidableEq α]

/-- The runs of `n` elements `a` and the list behind them. -/
def runsFrom (a : α) (n : ℕ) : List α → List (α × ℕ)
  | [] => [(a, n)]
  | b :: l => if b = a then runsFrom a (n + 1) l else (a, n) :: runsFrom b 1 l

/-- The runs of a list. -/
def runs : List α → List (α × ℕ)
  | [] => []
  | a :: l => runsFrom a 1 l

example : runs [true, true, false, true, true, true] = [(true, 2), (false, 1), (true, 3)] := rfl

/-- The runs in full. -/
def expand (rs : List (α × ℕ)) : List α := rs.flatMap fun r => List.replicate r.2 r.1

theorem expand_runsFrom (a : α) (n : ℕ) (l : List α) :
    expand (runsFrom a n l) = List.replicate n a ++ l := by
  induction l generalizing a n with
  | nil => simp [runsFrom, expand]
  | cons b l ih =>
    rw [runsFrom]
    split_ifs with h
    · rw [ih, h, List.replicate_succ', List.append_assoc]
      rfl
    · have hrest := ih b 1
      rw [expand] at hrest ⊢
      rw [List.flatMap_cons, hrest]
      rfl

/-- The runs in full are the list. -/
theorem expand_runs (l : List α) : expand (runs l) = l := by
  cases l with
  | nil => rfl
  | cons a l => exact expand_runsFrom a 1 l

/-- The first run is one of the element that is being read. -/
theorem fst_of_head?_runsFrom {a : α} {n : ℕ} {l : List α} {r : α × ℕ}
    (h : (runsFrom a n l).head? = some r) : r.1 = a := by
  induction l generalizing n with
  | nil =>
    cases h
    rfl
  | cons b l ih =>
    rw [runsFrom] at h
    split_ifs at h
    · exact ih h
    · cases h
      rfl

/-- Neighbouring runs are runs of different elements. -/
theorem isChain_runsFrom (a : α) (n : ℕ) (l : List α) :
    (runsFrom a n l).IsChain fun r s => s.1 ≠ r.1 := by
  induction l generalizing a n with
  | nil => exact .singleton _
  | cons b l ih =>
    rw [runsFrom]
    split_ifs with h
    · exact ih a (n + 1)
    · refine List.isChain_cons.mpr ⟨fun s hs => ?_, ih b 1⟩
      rw [fst_of_head?_runsFrom hs]
      exact h

theorem isChain_runs (l : List α) : (runs l).IsChain fun r s => s.1 ≠ r.1 := by
  cases l with
  | nil => exact .nil
  | cons a l => exact isChain_runsFrom a 1 l

theorem runsFrom_ne_nil (a : α) (n : ℕ) (l : List α) : runsFrom a n l ≠ [] := by
  induction l generalizing a n with
  | nil => simp [runsFrom]
  | cons b l ih =>
    rw [runsFrom]
    split_ifs
    · exact ih a (n + 1)
    · simp

/-- The length of the first run counts what is read before. -/
theorem exists_runsFrom_eq (a : α) (l : List α) :
    ∃ m rest, (rest = [] ↔ ∀ b ∈ l, b = a) ∧ ∀ n, runsFrom a n l = (a, n + m) :: rest := by
  induction l with
  | nil => exact ⟨0, [], by simp, fun n => rfl⟩
  | cons b l ih =>
    by_cases h : b = a
    · obtain ⟨m, rest, hrest, hruns⟩ := ih
      refine ⟨m + 1, rest, ?_, fun n => ?_⟩
      · rw [hrest, List.forall_mem_cons]
        exact ⟨fun hl => ⟨h, hl⟩, fun hl => hl.2⟩
      · rw [runsFrom, if_pos h, hruns, Nat.add_assoc, Nat.add_comm 1]
    · refine ⟨0, runsFrom b 1 l, ?_, fun n => ?_⟩
      · rw [List.forall_mem_cons]
        exact iff_of_false (runsFrom_ne_nil b 1 l) fun hl => h hl.1
      · rw [runsFrom, if_neg h]
        rfl

end RunLength

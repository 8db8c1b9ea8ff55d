import Mathlib.Data.List.Basic
import Mathlib.Algebra.Ring.Periodic
import Mathlib.Tactic.Common

/-!
# Finite segments of an infinite sequence

`segment f p n` lists the `n` entries of `f` from index `p` on. Feeding a machine
an endless signal up to some point is feeding it a segment.
-/

namespace Sequence

variable {α β : Type*}

/-- The entries `f p, …, f (p + n - 1)`. -/
def segment (f : ℕ → α) (p n : ℕ) : List α := (List.range' p n).map f

@[simp] theorem segment_zero (f : ℕ → α) (p : ℕ) : segment f p 0 = [] := rfl

theorem segment_succ (f : ℕ → α) (p n : ℕ) :
    segment f p (n + 1) = f p :: segment f (p + 1) n := rfl

@[simp] theorem length_segment (f : ℕ → α) (p n : ℕ) : (segment f p n).length = n := by
  simp [segment]

theorem segment_eq_map (f : ℕ → α) (p n : ℕ) :
    segment f p n = (List.range n).map fun i => f (p + i) := by
  simp [segment, List.range'_eq_map_range, Function.comp_def]

theorem segment_add (f : ℕ → α) (p m n : ℕ) :
    segment f p (m + n) = segment f p m ++ segment f (p + m) n := by
  simp [segment, ← List.map_append]

theorem segment_snoc (f : ℕ → α) (p n : ℕ) :
    segment f p (n + 1) = segment f p n ++ [f (p + n)] := segment_add f p n 1

@[simp] theorem getElem_segment (f : ℕ → α) (p n i : ℕ) (h : i < (segment f p n).length) :
    (segment f p n)[i] = f (p + i) := by
  simp [segment]

theorem getElem?_segment (f : ℕ → α) (p : ℕ) {n i : ℕ} (h : i < n) :
    (segment f p n)[i]? = some (f (p + i)) := by
  rw [List.getElem?_eq_getElem (by simpa using h), getElem_segment]

@[simp] theorem take_segment (f : ℕ → α) (p : ℕ) {m n : ℕ} (h : m ≤ n) :
    (segment f p n).take m = segment f p m := by
  obtain ⟨k, rfl⟩ := Nat.exists_eq_add_of_le h
  rw [segment_add, List.take_left' (length_segment f p m)]

theorem drop_segment (f : ℕ → α) (p m n : ℕ) :
    (segment f p (m + n)).drop m = segment f (p + m) n := by
  rw [segment_add, List.drop_left' (length_segment f p m)]

theorem mem_segment {f : ℕ → α} {p n : ℕ} {x : α} :
    x ∈ segment f p n ↔ ∃ i < n, f (p + i) = x := by
  constructor
  · intro h
    obtain ⟨i, hi, rfl⟩ := List.getElem_of_mem h
    exact ⟨i, by simpa using hi, by simp⟩
  · rintro ⟨i, hi, rfl⟩
    rw [← getElem_segment f p n i (by simpa using hi)]
    exact List.getElem_mem _

/-- Two sequences that agree on a range have the same segment there. -/
theorem segment_congr {f g : ℕ → α} {p q n : ℕ} (h : ∀ i < n, f (p + i) = g (q + i)) :
    segment f p n = segment g q n := by
  apply List.ext_getElem (by simp)
  intro i hi _
  simpa using h i (by simpa using hi)

/-- A segment that holds one value only. -/
theorem segment_eq_replicate {f : ℕ → α} {p n : ℕ} {x : α} (h : ∀ i < n, f (p + i) = x) :
    segment f p n = List.replicate n x := by
  apply List.ext_getElem (by simp)
  intro i hi _
  simpa using h i (by simpa using hi)

/-- A list is the segment of any sequence that extends it. -/
theorem eq_segment {f : ℕ → α} {p : ℕ} {l : List α}
    (h : ∀ i, (hi : i < l.length) → f (p + i) = l[i]) :
    l = segment f p l.length := by
  apply List.ext_getElem (by simp)
  intro i hi _
  simpa using (h i hi).symm

/-- A sequence of period `T` repeats its segments. -/
theorem segment_periodic {f : ℕ → α} {T : ℕ} (hf : Function.Periodic f T) (p n : ℕ) :
    segment f (p + T) n = segment f p n :=
  segment_congr fun i _ => by rw [Nat.add_right_comm, hf]

/-- Only the residue of the start counts in a periodic sequence. -/
theorem segment_mod {f : ℕ → α} {T : ℕ} (hf : Function.Periodic f T) (p n : ℕ) :
    segment f (p % T) n = segment f p n :=
  segment_congr fun i _ => by
    conv_rhs => rw [← Nat.mod_add_div p T, Nat.add_right_comm, mul_comm]
    exact (hf.nat_mul (p / T) (p % T + i)).symm

end Sequence

import Mathlib.Data.List.Basic
import Mathlib.Tactic.Common

/-!
# A comparator with two thresholds

A reading at or above `high` is the level `false`, a reading at or below `low` is the
level `true`, and a reading in between keeps the level. Before the first decisive
reading the level is unknown, which is `none`; from then on it is known.
-/

namespace Hysteresis

variable {α : Type*} [LE α] [DecidableLE α] (low high : α)

/-- The level after a reading. -/
def next (level : Option Bool) (reading : α) : Option Bool :=
  if high ≤ reading then some false else if reading ≤ low then some true else level

/-- The level after some readings. -/
def level (start : Option Bool) (readings : List α) : Option Bool :=
  readings.foldl (next low high) start

/-- The reading is in the undecided band. -/
def Undecided (reading : α) : Prop := ¬high ≤ reading ∧ ¬reading ≤ low

instance (reading : α) : Decidable (Undecided low high reading) :=
  inferInstanceAs (Decidable (_ ∧ _))

/-- The two levels form the requested edge. -/
def IsEdge (falling : Bool) (old new : Option Bool) : Prop :=
  old = some falling ∧ new = some !falling

instance (falling : Bool) (old new : Option Bool) : Decidable (IsEdge falling old new) :=
  inferInstanceAs (Decidable (_ ∧ _))

/-- The reading with index `k` completes the requested edge; the level is unknown
before the first reading. -/
def EdgeAt (falling : Bool) (readings : List α) (k : ℕ) : Prop :=
  IsEdge falling (level low high none (readings.take k))
    (level low high none (readings.take (k + 1)))

instance (falling : Bool) (readings : List α) (k : ℕ) :
    Decidable (EdgeAt low high falling readings k) :=
  inferInstanceAs (Decidable (IsEdge _ _ _))

variable {low high}

theorem next_eq_none_iff {l : Option Bool} {reading : α} :
    next low high l reading = none ↔ l = none ∧ Undecided low high reading := by
  unfold next Undecided
  split_ifs with hhigh hlow <;> simp [*]

/-- From an unknown level only a high reading leads to the level `false`. -/
theorem next_none_eq_false_iff {reading : α} :
    next low high none reading = some false ↔ high ≤ reading := by
  unfold next
  split_ifs with hhigh hlow <;> simp [*]

/-- A known level stays known. -/
theorem exists_next_some (b : Bool) (reading : α) :
    ∃ b', next low high (some b) reading = some b' := by
  unfold next
  split_ifs
  all_goals exact ⟨_, rfl⟩

@[simp] theorem level_nil (start : Option Bool) : level low high start [] = start := rfl

@[simp] theorem level_cons (start : Option Bool) (r : α) (rs : List α) :
    level low high start (r :: rs) = level low high (next low high start r) rs := rfl

theorem level_append (start : Option Bool) (rs rs' : List α) :
    level low high start (rs ++ rs') = level low high (level low high start rs) rs' :=
  List.foldl_append

theorem level_take_succ (start : Option Bool) {rs : List α} {k : ℕ} (hk : k < rs.length) :
    level low high start (rs.take (k + 1)) =
      next low high (level low high start (rs.take k)) rs[k] := by
  rw [List.take_succ_eq_append_getElem hk, level_append]
  rfl

/-- The level stays unknown as long as all readings are undecided. -/
theorem level_eq_none_iff {start : Option Bool} {rs : List α} :
    level low high start rs = none ↔ start = none ∧ ∀ r ∈ rs, Undecided low high r := by
  induction rs generalizing start with
  | nil => simp
  | cons r rs ih =>
    rw [level_cons, ih, next_eq_none_iff, List.forall_mem_cons, and_assoc]

theorem exists_level_some (b : Bool) (rs : List α) :
    ∃ b', level low high (some b) rs = some b' := by
  induction rs generalizing b with
  | nil => exact ⟨b, rfl⟩
  | cons r rs ih =>
    obtain ⟨b', hb'⟩ : ∃ b', next low high (some b) r = some b' := exists_next_some b r
    rw [level_cons, hb']
    exact ih b'

end Hysteresis

import Mathlib.Data.List.Basic
import Mathlib.Tactic.Common

/-!
# Cyclic redundancy checks

The remainder of a message, the lowest coefficient of the register first. `shift` divides
by the variable once; `remainder` feeds the bits of a message. Whole words may be fed at
once: `remainder_lowBits`. A message with its own remainder behind it leaves a constant,
and no burst that is as long as the register at most leaves the remainder as it was.

## Main definitions

* `Crc.shift`, `Crc.shifts`: the division by the variable.
* `Crc.remainder`: the register behind a message.
* `Crc.lowBits`: the bits of a word in the order in which they are fed.
-/

namespace Crc

variable {w : ℕ} (poly : BitVec w)

/-- One step of the division. -/
def shift (c : BitVec w) : BitVec w := if c.getLsbD 0 then (c >>> 1) ^^^ poly else c >>> 1

def shifts : ℕ → BitVec w → BitVec w
  | 0, c => c
  | n + 1, c => shifts n (shift poly c)

/-- Feed a bit. -/
def feed (c : BitVec w) (b : Bool) : BitVec w := shift poly (c ^^^ BitVec.setWidth w (.ofBool b))

/-- The register behind the bits of a message. -/
def remainder (c : BitVec w) (bits : List Bool) : BitVec w := bits.foldl (feed poly) c

/-- The lowest `n` bits of a word, in order. -/
def lowBits (n : ℕ) (k : BitVec w) : List Bool := (List.range n).map k.getLsbD

@[simp] theorem remainder_nil (c : BitVec w) : remainder poly c [] = c := rfl

@[simp] theorem remainder_cons (c : BitVec w) (b : Bool) (bits : List Bool) :
    remainder poly c (b :: bits) = remainder poly (feed poly c b) bits := rfl

theorem remainder_append (c : BitVec w) (xs ys : List Bool) :
    remainder poly c (xs ++ ys) = remainder poly (remainder poly c xs) ys := List.foldl_append

@[simp] theorem length_lowBits (n : ℕ) (k : BitVec w) : (lowBits n k).length = n := by
  simp [lowBits]

theorem lowBits_succ (n : ℕ) (k : BitVec w) :
    lowBits (n + 1) k = k.getLsbD 0 :: lowBits n (k >>> 1) := by
  unfold lowBits
  rw [List.range_succ_eq_map, List.map_cons, List.map_map]
  refine congrArg _ (List.map_congr_left ?_)
  intro i _
  rw [BitVec.getLsbD_ushiftRight, Function.comp_apply, Nat.add_comm 1 i]

theorem lowBits_append (m n : ℕ) (k : BitVec w) :
    lowBits m k ++ lowBits n (k >>> m) = lowBits (m + n) k := by
  induction m generalizing k with
  | zero => simp [lowBits]
  | succ m ih =>
    rw [lowBits_succ, Nat.succ_add, lowBits_succ, ← ih, Nat.add_comm m 1, BitVec.shiftRight_add]
    rfl

/-! ## Linearity -/

theorem shift_xor (a b : BitVec w) : shift poly (a ^^^ b) = shift poly a ^^^ shift poly b := by
  unfold shift
  rw [BitVec.getLsbD_xor, BitVec.ushiftRight_xor_distrib]
  cases a.getLsbD 0 <;> cases b.getLsbD 0
  · simp
  · simp [BitVec.xor_assoc]
  · simp [BitVec.xor_assoc, BitVec.xor_comm poly]
  · have hcancel : poly ^^^ (b >>> 1 ^^^ poly) = b >>> 1 := by
      rw [BitVec.xor_comm (b >>> 1), ← BitVec.xor_assoc, BitVec.xor_self, BitVec.zero_xor]
    simp [BitVec.xor_assoc, hcancel]

theorem shifts_xor (n : ℕ) (a b : BitVec w) :
    shifts poly n (a ^^^ b) = shifts poly n a ^^^ shifts poly n b := by
  induction n generalizing a b with
  | zero => rfl
  | succ n ih => rw [shifts, shifts, shifts, shift_xor, ih]

/-- Without its lowest bit a word is only shifted. -/
theorem shift_of_even {c : BitVec w} (h : c.getLsbD 0 = false) : shift poly c = c >>> 1 := by
  rw [shift, h]
  rfl

/-- Zeros below are shifted out. -/
theorem shifts_of_low_zero {n : ℕ} {c : BitVec w} (h : ∀ i < n, c.getLsbD i = false) :
    shifts poly n c = c >>> n := by
  induction n generalizing c with
  | zero => simp [shifts]
  | succ n ih =>
    rw [shifts, shift_of_even poly (h 0 (Nat.succ_pos n)), ih, ← BitVec.shiftRight_add,
      Nat.add_comm]
    intro i hi
    rw [BitVec.getLsbD_ushiftRight]
    exact h _ (by omega)

/-- A word is its lowest bit and the rest. -/
theorem xor_lowest (k : BitVec w) :
    (k ^^^ BitVec.setWidth w (.ofBool (k.getLsbD 0))).getLsbD 0 = false ∧
      (k ^^^ BitVec.setWidth w (.ofBool (k.getLsbD 0))) >>> 1 = k >>> 1 := by
  constructor
  · rw [BitVec.getLsbD_xor, BitVec.getLsbD_setWidth, BitVec.getLsbD_ofBool]
    by_cases hw : 0 < w
    · simp [hw]
    · obtain rfl : w = 0 := by omega
      simp
  · apply BitVec.eq_of_getLsbD_eq
    intro i _
    rw [BitVec.getLsbD_ushiftRight, BitVec.getLsbD_ushiftRight, BitVec.getLsbD_xor,
      BitVec.getLsbD_setWidth, BitVec.getLsbD_ofBool]
    simp

/-- The bits of a word are fed at once when nothing is left of it above them. -/
theorem remainder_lowBits (n : ℕ) (c k : BitVec w) (hk : k >>> n = 0) :
    remainder poly c (lowBits n k) = shifts poly n (c ^^^ k) := by
  induction n generalizing c k with
  | zero =>
    obtain rfl : k = 0 := by simpa using hk
    simp [lowBits, shifts]
  | succ n ih =>
    obtain ⟨heven, hrest⟩ := xor_lowest k
    have hhigh : (k >>> 1) >>> n = 0 := by rw [← BitVec.shiftRight_add, Nat.add_comm, hk]
    have hsplit : c ^^^ k = (c ^^^ BitVec.setWidth w (.ofBool (k.getLsbD 0))) ^^^
        (k ^^^ BitVec.setWidth w (.ofBool (k.getLsbD 0))) := by
      rw [BitVec.xor_comm k, BitVec.xor_assoc, ← BitVec.xor_assoc _ _ k, BitVec.xor_self,
        BitVec.zero_xor]
    rw [lowBits_succ, remainder_cons, ih _ _ hhigh, shifts, hsplit, shift_xor,
      shift_of_even poly heven, hrest]
    rfl

/-- A message with its own remainder behind it, added to a constant, leaves what the constant
leaves alone. -/
theorem remainder_append_remainder (c k : BitVec w) (bits : List Bool) :
    remainder poly c (bits ++ lowBits w (remainder poly c bits ^^^ k)) = shifts poly w k := by
  have hnone : (remainder poly c bits ^^^ k) >>> w = 0 := by
    apply BitVec.eq_of_getLsbD_eq
    intro i _
    rw [BitVec.getLsbD_ushiftRight, BitVec.getLsbD_of_ge _ _ (Nat.le_add_right w i)]
    simp
  rw [remainder_append, remainder_lowBits poly w _ _ hnone, ← BitVec.xor_assoc, BitVec.xor_self,
    BitVec.zero_xor]

/-! ## Bursts -/

variable {poly}

/-- The bit that is shifted out can be read back from the highest one. -/
theorem getLsbD_shift_last (hpoly : poly.msb = true) (c : BitVec w) :
    (shift poly c).getLsbD (w - 1) = c.getLsbD 0 := by
  have hw : 0 < w := by
    rcases Nat.eq_zero_or_pos w with rfl | hw
    · simp [BitVec.msb] at hpoly
    · exact hw
  have hhigh : c.getLsbD (1 + (w - 1)) = false := BitVec.getLsbD_of_ge _ _ (by omega)
  rw [BitVec.msb_eq_getLsbD_last] at hpoly
  unfold shift
  cases hc : c.getLsbD 0
  · simp [hhigh]
  · simp [hhigh, hpoly]

theorem getLsbD_shift (c : BitVec w) (i : ℕ) :
    (shift poly c).getLsbD i = (c.getLsbD (1 + i) ^^ (c.getLsbD 0 && poly.getLsbD i)) := by
  unfold shift
  cases hc : c.getLsbD 0 <;> simp

theorem getLsbD_feed (c : BitVec w) (b : Bool) (i : ℕ) (hi : 0 < i) :
    (c ^^^ BitVec.setWidth w (.ofBool b)).getLsbD i = c.getLsbD i := by
  rw [BitVec.getLsbD_xor, BitVec.getLsbD_setWidth, BitVec.getLsbD_ofBool,
    decide_eq_false (by omega : ¬i = 0)]
  simp

/-- Registers that end up equal agree above the number of bits fed. -/
theorem getLsbD_eq_of_remainder_eq (hpoly : poly.msb = true) {a b : BitVec w} {xs ys : List Bool}
    (hlength : xs.length = ys.length) (hle : xs.length ≤ w)
    (h : remainder poly a xs = remainder poly b ys) {i : ℕ} (hi : xs.length ≤ i) :
    a.getLsbD i = b.getLsbD i := by
  induction xs generalizing a b ys i with
  | nil =>
    obtain rfl := List.length_eq_zero_iff.mp hlength.symm
    rw [remainder_nil, remainder_nil] at h
    rw [h]
  | cons x xs ih =>
    obtain ⟨y, ys, rfl⟩ := List.exists_cons_of_length_eq_add_one hlength.symm
    simp only [List.length_cons] at hlength hle hi
    rw [remainder_cons, remainder_cons] at h
    have hnext {j : ℕ} (hj : xs.length ≤ j) := ih (by omega) (by omega) h hj
    have hlow := hnext (j := w - 1) (by omega)
    rw [feed, feed, getLsbD_shift_last hpoly, getLsbD_shift_last hpoly] at hlow
    have hbit := hnext (j := i - 1) (by omega)
    rw [feed, feed, getLsbD_shift, getLsbD_shift, hlow] at hbit
    rw [show 1 + (i - 1) = i by omega, getLsbD_feed a x i (by omega),
      getLsbD_feed b y i (by omega)] at hbit
    exact Bool.xor_left_inj.mp hbit

/-- Two parts that are not longer than the register leave different remainders. -/
theorem remainder_injective (hpoly : poly.msb = true) (c : BitVec w) {xs ys : List Bool}
    (hlength : xs.length = ys.length) (hle : xs.length ≤ w)
    (h : remainder poly c xs = remainder poly c ys) : xs = ys := by
  induction xs generalizing c ys with
  | nil => exact (List.length_eq_zero_iff.mp hlength.symm).symm
  | cons x xs ih =>
    obtain ⟨y, ys, rfl⟩ := List.exists_cons_of_length_eq_add_one hlength.symm
    simp only [List.length_cons] at hlength hle
    rw [remainder_cons, remainder_cons] at h
    have hlow := getLsbD_eq_of_remainder_eq hpoly (by omega) (by omega) h
      (i := w - 1) (by omega)
    rw [feed, feed, getLsbD_shift_last hpoly, getLsbD_shift_last hpoly, BitVec.getLsbD_xor,
      BitVec.getLsbD_xor, Bool.xor_right_inj, BitVec.getLsbD_setWidth, BitVec.getLsbD_setWidth,
      BitVec.getLsbD_ofBool, BitVec.getLsbD_ofBool] at hlow
    obtain rfl : x = y := by simpa [show 0 < w by omega] using hlow
    exact congrArg _ (ih _ (by omega) (by omega) h)

/-- What differs stays different. -/
theorem remainder_left_injective (hpoly : poly.msb = true) {a b : BitVec w} (bits : List Bool)
    (h : remainder poly a bits = remainder poly b bits) : a = b := by
  induction bits generalizing a b with
  | nil => exact h
  | cons x bits ih =>
    have hstep := ih h
    have hlow := getLsbD_shift_last hpoly (a ^^^ BitVec.setWidth w (.ofBool x))
    have hlow' := getLsbD_shift_last hpoly (b ^^^ BitVec.setWidth w (.ofBool x))
    rw [feed, feed] at hstep
    rw [hstep, hlow'] at hlow
    have hall (i : ℕ) := congrArg (fun c => c.getLsbD i) hstep
    simp only [getLsbD_shift, hlow, Bool.xor_left_inj] at hall
    have hxor : a ^^^ BitVec.setWidth w (.ofBool x) = b ^^^ BitVec.setWidth w (.ofBool x) := by
      apply BitVec.eq_of_getLsbD_eq
      intro i _
      rcases Nat.eq_zero_or_pos i with rfl | hi
      · exact hlow.symm
      · simpa [show 1 + (i - 1) = i by omega] using hall (i - 1)
    rw [BitVec.xor_comm a, BitVec.xor_comm b] at hxor
    exact BitVec.xor_right_inj _ |>.mp hxor

/-- Two messages that differ in one place, by `n` bits at most. -/
def Burst (n : ℕ) (sent received : List Bool) : Prop :=
  ∃ before xs ys after, sent = before ++ xs ++ after ∧ received = before ++ ys ++ after ∧
    xs.length = ys.length ∧ xs.length ≤ n ∧ xs ≠ ys

/-- A burst that is not longer than the register changes the remainder. -/
theorem remainder_ne_of_burst (hpoly : poly.msb = true) (c : BitVec w)
    {sent received : List Bool} (h : Burst w sent received) :
    remainder poly c received ≠ remainder poly c sent := by
  obtain ⟨before, xs, ys, after, rfl, rfl, hlength, hle, hne⟩ := h
  intro heq
  rw [remainder_append, remainder_append, remainder_append, remainder_append] at heq
  have hburst := remainder_left_injective hpoly after heq
  exact hne (remainder_injective hpoly _ hlength hle hburst.symm)

end Crc

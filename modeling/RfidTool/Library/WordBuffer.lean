import Mathlib.Data.List.Basic
import Mathlib.Tactic.Common

/-!
# Words written and read bit by bit

A buffer of 32-bit words seen as a sequence of bits, least significant bit of the
first word first. `bits words k` lists its first `k` bits; a bit put at index `k`
extends that list by one whatever the words held before, so a writer that goes
through the indices in order leaves exactly what it wrote.
-/

namespace WordBuffer

variable {n : ℕ}

/-- Bit `i` of the buffer; false behind its end. -/
def bit (words : Vector UInt32 n) (i : ℕ) : Bool :=
  (words[i / 32]?.getD 0).toBitVec.getLsbD (i % 32)

/-- The first `k` bits. -/
def bits (words : Vector UInt32 n) (k : ℕ) : List Bool := (List.range k).map (bit words)

/-- The word with bit `k` set or cleared by a mask, as C code does it. -/
def setBit (word k : UInt32) (b : Bool) : UInt32 :=
  if b then word ||| 1 <<< k else word &&& ~~~(1 <<< k)

/-- Put a bit at index `i`; an index behind the end leaves the words alone. -/
def put (words : Vector UInt32 n) (i : ℕ) (b : Bool) : Vector UInt32 n :=
  if h : i / 32 < n then words.set (i / 32) (setBit words[i / 32] (UInt32.ofNat (i % 32)) b) h
  else words

/-- Put a list of bits from index `i` on. -/
def putAll (words : Vector UInt32 n) : ℕ → List Bool → Vector UInt32 n
  | _, [] => words
  | i, b :: bs => putAll (put words i b) (i + 1) bs

theorem getLsbD_setBit (word k : UInt32) (b : Bool) {j : ℕ} (hk : k.toNat < 32) (hj : j < 32) :
    (setBit word k b).toBitVec.getLsbD j = if j = k.toNat then b else word.toBitVec.getLsbD j := by
  have hmask : ((1 : UInt32) <<< k).toBitVec.getLsbD j = decide (j = k.toNat) := by
    have h1 : (1 : UInt32).toBitVec = 1#32 := rfl
    have hmod : (k.toBitVec % 32).toNat = k.toNat := Nat.mod_eq_of_lt hk
    rw [UInt32.toBitVec_shiftLeft, h1, BitVec.getLsbD_shiftLeft', BitVec.getLsbD_one, hmod]
    grind
  unfold setBit
  cases b
  · simp only [Bool.false_eq_true, ↓reduceIte, UInt32.toBitVec_and, UInt32.toBitVec_not,
      BitVec.getLsbD_and, BitVec.getLsbD_not, hmask]
    grind
  · simp only [↓reduceIte, UInt32.toBitVec_or, BitVec.getLsbD_or, hmask]
    grind

/-- Putting a bit changes that bit only. -/
theorem bit_put (words : Vector UInt32 n) {i : ℕ} (hi : i < 32 * n) (b : Bool) (j : ℕ) :
    bit (put words i b) j = if j = i then b else bit words j := by
  have hword : i / 32 < n := by omega
  have hk : (UInt32.ofNat (i % 32)).toNat = i % 32 :=
    UInt32.toNat_ofNat_of_lt' (by simp [UInt32.size]; omega)
  unfold bit put
  rw [dif_pos hword]
  by_cases h : j / 32 = i / 32
  · rw [h, Vector.getElem?_set_self hword, Option.getD_some,
      getLsbD_setBit _ _ _ (by rw [hk]; omega) (by omega), hk,
      Vector.getElem?_eq_getElem hword, Option.getD_some]
    have hiff : j % 32 = i % 32 ↔ j = i := by omega
    simp only [hiff]
  · rw [Vector.getElem?_set_ne (by omega) (by omega), if_neg (by rintro rfl; exact h rfl)]

theorem bits_put (words : Vector UInt32 n) {k : ℕ} (hk : k < 32 * n) (b : Bool) :
    bits (put words k b) (k + 1) = bits words k ++ [b] := by
  simp only [bits, List.range_succ, List.map_append, List.map_cons, List.map_nil,
    bit_put words hk, ↓reduceIte]
  congr 1
  apply List.map_congr_left
  intro j hj
  rw [bit_put words hk, if_neg (by have := List.mem_range.mp hj; omega)]

/-- A list put from index `k` on follows the first `k` bits. -/
theorem bits_putAll (words : Vector UInt32 n) {k : ℕ} {bs : List Bool}
    (h : k + bs.length ≤ 32 * n) :
    bits (putAll words k bs) (k + bs.length) = bits words k ++ bs := by
  induction bs generalizing words k with
  | nil => simp [putAll]
  | cons b bs ih =>
    simp only [List.length_cons] at h
    have := ih (put words k b) (k := k + 1) (by omega)
    rw [bits_put words (by omega), List.append_assoc, List.singleton_append] at this
    rw [putAll, List.length_cons, ← this]
    congr 1
    omega

theorem putAll_append (words : Vector UInt32 n) (k : ℕ) (as bs : List Bool) :
    putAll words k (as ++ bs) = putAll (putAll words k as) (k + as.length) bs := by
  induction as generalizing words k with
  | nil => rfl
  | cons a as ih =>
    rw [List.cons_append, putAll, ih, putAll, List.length_cons]
    congr 1
    omega

/-! ## Tests against a mask -/

theorem and_mask_eq_zero {w : ℕ} (x : BitVec w) {i : ℕ} (hi : i < w) :
    x &&& (1#w <<< i) = 0#w ↔ x.getLsbD i = false := by
  rw [← BitVec.twoPow_eq, BitVec.and_twoPow]
  constructor
  · intro h
    by_contra hbit
    rw [if_pos (by simpa using hbit)] at h
    have := congrArg (BitVec.getLsbD · i) h
    simp [hi] at this
  · intro h
    simp [h]

theorem UInt16.and_mask_ne_zero (x : UInt16) {i : ℕ} (hi : i < 16) :
    x &&& (1 <<< UInt16.ofNat i) ≠ 0 ↔ x.toBitVec.getLsbD i = true := by
  have hmod : ((UInt16.ofNat i).toBitVec % 16).toNat = i := by simp; omega
  have hmask : ((1 : UInt16) <<< UInt16.ofNat i).toBitVec = 1#16 <<< i := by
    rw [UInt16.toBitVec_shiftLeft, BitVec.shiftLeft_eq', hmod]
    rfl
  rw [← Bool.not_eq_false, ← and_mask_eq_zero _ hi, ne_eq, ← UInt16.toBitVec_inj,
    UInt16.toBitVec_and, hmask]
  rfl

theorem UInt32.and_mask_ne_zero (x : UInt32) {i : ℕ} (hi : i < 32) :
    x &&& (1 <<< UInt32.ofNat i) ≠ 0 ↔ x.toBitVec.getLsbD i = true := by
  have hmod : ((UInt32.ofNat i).toBitVec % 32).toNat = i := by simp; omega
  have hmask : ((1 : UInt32) <<< UInt32.ofNat i).toBitVec = 1#32 <<< i := by
    rw [UInt32.toBitVec_shiftLeft, BitVec.shiftLeft_eq', hmod]
    rfl
  rw [← Bool.not_eq_false, ← and_mask_eq_zero _ hi, ne_eq, ← UInt32.toBitVec_inj,
    UInt32.toBitVec_and, hmask]
  rfl

end WordBuffer

import Mathlib.Data.List.Basic
import Mathlib.Tactic.Common

/-!
# Buffers written in order

A writer that goes through the indices of a buffer leaves a prefix that it wrote. Its
counter is a machine integer that does not wrap around within the buffer.

The second part is about bytes seen as a sequence of nibbles, the low nibble of a byte
first, and a writer that overwrites a byte with its low nibble and adds the high one by
a disjunction. `Packed` says what such a writer leaves of a buffer that was filled with
ones: what it wrote, behind an odd number of nibbles one zero, and ones from there on.
-/

theorem UInt8.toNat_add_one {x : UInt8} {n : ℕ} (h : x.toNat = n) (hlt : n + 1 < 256) :
    (x + 1).toNat = n + 1 := by
  rw [UInt8.toNat_add, h]
  simp only [UInt8.reduceToNat]
  omega

theorem UInt16.toNat_add_one {x : UInt16} {n : ℕ} (h : x.toNat = n) (hlt : n + 1 < 65536) :
    (x + 1).toNat = n + 1 := by
  rw [UInt16.toNat_add, h]
  simp only [UInt16.reduceToNat]
  omega

/-- The next write behind what is written. -/
theorem List.isPrefix_set {α : Type*} {xs l : List α} (h : l <+: xs) (x : α)
    (hlt : l.length < xs.length) : l ++ [x] <+: xs.set l.length x := by
  obtain ⟨rest, rfl⟩ := h
  rw [List.set_append_right _ _ (Nat.le_refl _), Nat.sub_self]
  cases rest with
  | nil => simp at hlt
  | cons y ys =>
    rw [List.set_cons_zero, List.append_cons l x ys]
    exact List.prefix_append _ _

/-- Write bytes to a buffer from an index on. -/
def overwrite {α : Type*} {n : ℕ} (buffer : Vector α n) (start : ℕ) (bytes : List α) :
    Vector α n :=
  bytes.zipIdx.foldl (fun b (byte, i) => b.setIfInBounds (start + i) byte) buffer

theorem toList_foldl_zipIdx {α : Type*} {n : ℕ} (start : ℕ) (bytes : List α) (k : ℕ)
    (buffer : Vector α n) (h : start + k + bytes.length ≤ n) :
    ((bytes.zipIdx k).foldl (fun b (byte, i) => b.setIfInBounds (start + i) byte) buffer).toList =
      buffer.toList.take (start + k) ++ bytes ++
        buffer.toList.drop (start + k + bytes.length) := by
  induction bytes generalizing k buffer with
  | nil => simp
  | cons byte bytes ih =>
    rw [List.length_cons] at h
    have hlt : start + k < buffer.toList.length := by
      rw [Vector.length_toList]
      omega
    rw [List.zipIdx_cons, List.foldl_cons, ih (k + 1) _ (by omega), Vector.toList_setIfInBounds,
      show start + (k + 1) = start + k + 1 by omega, List.drop_set_of_lt (by omega),
      List.take_add_one, List.take_set_of_le (Nat.le_refl _), List.getElem?_set_self hlt,
      List.length_cons, show start + k + 1 + bytes.length = start + k + (bytes.length + 1) by omega]
    simp

/-- What is written, with the rest of the buffer around it. -/
theorem toList_overwrite {α : Type*} {n : ℕ} (buffer : Vector α n) (start : ℕ) (bytes : List α)
    (h : start + bytes.length ≤ n) :
    (overwrite buffer start bytes).toList =
      buffer.toList.take start ++ bytes ++ buffer.toList.drop (start + bytes.length) :=
  toList_foldl_zipIdx start bytes 0 buffer h

namespace Nibble

variable {n : ℕ}

/-- The nibble with index `k` of a buffer, in the byte that holds it. -/
def read (byte : UInt8) (k : ℕ) : UInt8 := if k % 2 = 1 then byte >>> 4 else byte &&& 0x0f

/-- Put a nibble with index `k` into its byte. -/
def write (byte : UInt8) (k : ℕ) (value : UInt8) : UInt8 :=
  if k % 2 = 1 then byte ||| (value <<< 4) else value

theorem and_one_ne_zero_iff (k : UInt16) : k &&& 1 ≠ 0 ↔ k.toNat % 2 = 1 := by
  rw [← UInt16.toNat_inj.ne, UInt16.toNat_and]
  simp only [UInt16.reduceToNat]
  rw [Nat.and_one_is_mod]
  omega

theorem toNat_shiftRight_one (k : UInt16) : (k >>> 1).toNat = k.toNat / 2 := by
  rw [UInt16.toNat_shiftRight]
  simp only [UInt16.reduceToNat, Nat.reduceMod, Nat.shiftRight_eq_div_pow, Nat.pow_one]

theorem and_of_lt {value : UInt8} (h : value < 16) : value &&& 0x0f = value := by
  have hlt := UInt8.lt_iff_toNat_lt.mp h
  rw [← UInt8.toNat_inj, UInt8.toNat_and]
  simp only [UInt8.reduceToNat] at hlt ⊢
  rw [show (15 : ℕ) = 2 ^ 4 - 1 from rfl, Nat.and_two_pow_sub_one_eq_mod]
  omega

theorem shiftRight_of_lt {value : UInt8} (h : value < 16) : value >>> 4 = 0 := by
  have hlt := UInt8.lt_iff_toNat_lt.mp h
  rw [← UInt8.toNat_inj, UInt8.toNat_shiftRight]
  simp only [UInt8.reduceToNat, Nat.reduceMod, Nat.shiftRight_eq_div_pow] at hlt ⊢
  omega

theorem toNat_shiftLeft_of_lt {value : UInt8} (h : value < 16) :
    (value <<< 4).toNat = value.toNat * 16 := by
  have hlt := UInt8.lt_iff_toNat_lt.mp h
  rw [UInt8.toNat_shiftLeft]
  simp only [UInt8.reduceToNat, Nat.reduceMod, Nat.shiftLeft_eq] at hlt ⊢
  omega

/-- The low nibble keeps its value when the high one is added. -/
theorem or_and (byte : UInt8) {value : UInt8} (h : value < 16) :
    (byte ||| (value <<< 4)) &&& 0x0f = byte &&& 0x0f := by
  rw [← UInt8.toNat_inj, UInt8.toNat_and, UInt8.toNat_and, UInt8.toNat_or,
    toNat_shiftLeft_of_lt h]
  simp only [UInt8.reduceToNat]
  rw [show (15 : ℕ) = 2 ^ 4 - 1 from rfl, Nat.and_two_pow_sub_one_eq_mod,
    Nat.and_two_pow_sub_one_eq_mod, Nat.or_mod_two_pow, show (16 : ℕ) = 2 ^ 4 from rfl,
    Nat.mul_mod_left, Nat.or_zero]

/-- The high nibble that is added to an empty one. -/
theorem or_shiftRight {byte value : UInt8} (hbyte : byte >>> 4 = 0) (h : value < 16) :
    (byte ||| (value <<< 4)) >>> 4 = value := by
  have hhigh := congrArg UInt8.toNat hbyte
  rw [UInt8.toNat_shiftRight] at hhigh
  rw [← UInt8.toNat_inj, UInt8.toNat_shiftRight, UInt8.toNat_or, toNat_shiftLeft_of_lt h]
  simp only [UInt8.reduceToNat, Nat.reduceMod] at hhigh ⊢
  rw [Nat.shiftRight_or_distrib, hhigh, Nat.zero_or, Nat.shiftRight_eq_div_pow]
  omega

theorem read_write (byte : UInt8) {value : UInt8} (h : value < 16) {k : ℕ}
    (hk : k % 2 = 1 → read byte k = 0) : read (write byte k value) k = value := by
  unfold read write at *
  split_ifs with hodd
  · exact or_shiftRight (by simpa [hodd] using hk hodd) h
  · exact and_of_lt h

/-- The nibble behind one at an even index is cleared. -/
theorem read_write_next (byte : UInt8) {value : UInt8} (h : value < 16) {k : ℕ}
    (hk : k % 2 = 0) : read (write byte k value) (k + 1) = 0 := by
  unfold read write
  rw [if_pos (by omega), if_neg (by omega)]
  exact shiftRight_of_lt h

/-- The nibble before one at an odd index is kept. -/
theorem read_write_prev (byte : UInt8) {value : UInt8} (h : value < 16) {j : ℕ}
    (hj : j % 2 = 0) : read (write byte (j + 1) value) j = read byte j := by
  unfold read write
  rw [if_neg (by omega), if_pos (by omega), if_neg (by omega)]
  exact or_and byte h

/-- The nibble at index `k` when `l` was written in order to a buffer of ones. -/
def packed (l : List UInt8) (k : ℕ) : UInt8 :=
  if h : k < l.length then l[k] else if k = l.length ∧ k % 2 = 1 then 0 else 0x0f

/-- The buffer holds what the writer of `l` leaves. -/
def Packed (buffer : Vector UInt8 n) (l : List UInt8) : Prop :=
  ∀ k, (h : k / 2 < n) → read buffer[k / 2] k = packed l k

theorem packed_of_lt {l : List UInt8} {k : ℕ} (h : k < l.length) : packed l k = l[k] := dif_pos h

/-- Behind an odd number of nibbles. -/
theorem packed_length_odd {l : List UInt8} (h : l.length % 2 = 1) : packed l l.length = 0 := by
  rw [packed, dif_neg (Nat.lt_irrefl _), if_pos ⟨rfl, h⟩]

theorem packed_of_ge {l : List UInt8} {k : ℕ} (h : l.length ≤ k)
    (hk : ¬(k = l.length ∧ k % 2 = 1)) : packed l k = 0x0f := by
  rw [packed, dif_neg (by omega), if_neg hk]

theorem packed_append_of_lt {l : List UInt8} {k : ℕ} (h : k < l.length) (value : UInt8) :
    packed (l ++ [value]) k = packed l k := by
  rw [packed_of_lt h, packed_of_lt (by simp; omega), List.getElem_append_left h]

theorem packed_append_length (l : List UInt8) (value : UInt8) :
    packed (l ++ [value]) l.length = value := by
  rw [packed_of_lt (by simp), List.getElem_concat_length rfl]

theorem packed_replicate : Packed (.replicate n 0xff) [] := by
  intro k h
  rw [Vector.getElem_replicate, packed_of_ge (Nat.zero_le k)]
  · unfold read
    split_ifs <;> rfl
  · rintro ⟨hzero, hodd⟩
    simp only [List.length_nil] at hzero
    omega

/-- A step of the writer. -/
theorem Packed.append {buffer : Vector UInt8 n} {l : List UInt8} (h : Packed buffer l)
    {value : UInt8} (hvalue : value < 16) (hlt : l.length / 2 < n) :
    Packed (buffer.set (l.length / 2) (write buffer[l.length / 2] l.length value))
      (l ++ [value]) := by
  intro k hk
  rw [Vector.getElem_set]
  rcases Nat.lt_trichotomy k l.length with hlow | rfl | hhigh
  · rw [packed_append_of_lt hlow, ← h k hk]
    split_ifs with heq
    · have hlast : l.length = k + 1 := by omega
      simp only [hlast, show (k + 1) / 2 = k / 2 by omega]
      exact read_write_prev _ hvalue (by omega)
    · rfl
  · rw [if_pos rfl, packed_append_length]
    exact read_write _ hvalue fun hodd => (h _ hlt).trans (packed_length_odd hodd)
  · split_ifs with heq
    · have hnext : k = l.length + 1 := by omega
      have hlength : (l ++ [value]).length = l.length + 1 := by simp
      rw [hnext, ← hlength, packed_length_odd (by omega), hlength]
      exact read_write_next _ hvalue (by omega)
    · rw [h k hk, packed_of_ge (by omega) (by omega), packed_of_ge (by simp; omega)]
      rw [List.length_append, List.length_singleton]
      omega

end Nibble

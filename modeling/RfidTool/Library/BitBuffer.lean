import RfidTool.Library.WordBuffer

/-!
# Bytes as a sequence of bits

`bits` lists the bits of some bytes, the bytes in order and the least significant bit
of a byte first. Setting or clearing the bit with index `k` by a mask on the byte
`k / 8` is an update of that list at `k`, and of nothing else.
-/

namespace BitBuffer

/-- The bits of a byte, least significant first. -/
def byteBits (byte : UInt8) : List Bool := (List.range 8).map (byte.toBitVec.getLsbD ·)

def bits (bytes : List UInt8) : List Bool := bytes.flatMap byteBits

/-- The byte with bit `k` set or cleared by a mask, as C code does it. -/
def setBit (byte k : UInt8) (b : Bool) : UInt8 :=
  if b then byte ||| 1 <<< k else byte &&& ~~~(1 <<< k)

theorem length_byteBits (byte : UInt8) : (byteBits byte).length = 8 := by simp [byteBits]

theorem getElem?_byteBits (byte : UInt8) {k : ℕ} (hk : k < 8) :
    (byteBits byte)[k]? = some (byte.toBitVec.getLsbD k) := by
  simp [byteBits, List.getElem?_range hk]

/-- A byte of equal bits. -/
theorem forall_mem_byteBits {byte : UInt8} {a : Bool} :
    (∀ b ∈ byteBits byte, b = a) ↔ byte = if a then 0xff else 0 := by
  simp only [byteBits, List.mem_map, List.mem_range, forall_exists_index, and_imp,
    forall_apply_eq_imp_iff₂]
  constructor
  · intro h
    rw [← UInt8.toBitVec_inj]
    refine BitVec.eq_of_getLsbD_eq fun j hj => ?_
    rw [h j hj]
    have hall : ∀ j < 8, ∀ a : Bool, a = (if a then 0xff else (0 : UInt8)).toBitVec.getLsbD j := by
      decide
    exact hall j hj a
  · rintro rfl j hj
    have hall : ∀ j < 8, ∀ a : Bool, (if a then 0xff else (0 : UInt8)).toBitVec.getLsbD j = a := by
      decide
    exact hall j hj a

/-- The bit with index `k` is in the byte `k / 8`. -/
theorem getElem?_bits (bytes : List UInt8) (k : ℕ) :
    (bits bytes)[k]? = bytes[k / 8]?.map (·.toBitVec.getLsbD (k % 8)) := by
  induction bytes generalizing k with
  | nil => simp [bits]
  | cons byte bytes ih =>
    rw [bits, List.flatMap_cons]
    rcases Nat.lt_or_ge k 8 with hlt | hge
    · rw [List.getElem?_append_left (by rwa [length_byteBits]), getElem?_byteBits byte hlt,
        Nat.div_eq_of_lt hlt, Nat.mod_eq_of_lt hlt]
      rfl
    · have hrest := ih (k - 8)
      have hbyte : k / 8 = (k - 8) / 8 + 1 := by omega
      have hbit : k % 8 = (k - 8) % 8 := by omega
      rw [bits] at hrest
      rw [List.getElem?_append_right (by rwa [length_byteBits]), length_byteBits, hrest, hbyte,
        List.getElem?_cons_succ, hbit]

theorem getLsbD_setBit (byte k : UInt8) (b : Bool) {j : ℕ} (hk : k.toNat < 8) (hj : j < 8) :
    (setBit byte k b).toBitVec.getLsbD j = if j = k.toNat then b else byte.toBitVec.getLsbD j := by
  have hmask : ((1 : UInt8) <<< k).toBitVec.getLsbD j = decide (j = k.toNat) := by
    have h1 : (1 : UInt8).toBitVec = 1#8 := rfl
    have hmod : (k.toBitVec % 8).toNat = k.toNat := Nat.mod_eq_of_lt hk
    rw [UInt8.toBitVec_shiftLeft, h1, BitVec.getLsbD_shiftLeft', BitVec.getLsbD_one, hmod]
    grind
  unfold setBit
  cases b
  · simp only [Bool.false_eq_true, ↓reduceIte, UInt8.toBitVec_and, UInt8.toBitVec_not,
      BitVec.getLsbD_and, BitVec.getLsbD_not, hmask]
    grind
  · simp only [↓reduceIte, UInt8.toBitVec_or, BitVec.getLsbD_or, hmask]
    grind

/-- A bit that is set or cleared in its byte. -/
theorem getElem?_bits_set {bytes : List UInt8} {k : ℕ} {byte mask : UInt8}
    (hbyte : bytes[k / 8]? = some byte) (hmask : mask.toNat = k % 8) (b : Bool) (j : ℕ) :
    (bits (bytes.set (k / 8) (setBit byte mask b)))[j]? =
      if j = k then some b else (bits bytes)[j]? := by
  obtain ⟨hlt, -⟩ := List.getElem?_eq_some_iff.mp hbyte
  rw [getElem?_bits, getElem?_bits]
  rcases Nat.decEq (j / 8) (k / 8) with hne | heq
  · rw [List.getElem?_set_ne (Ne.symm hne), if_neg (by rintro rfl; exact hne rfl)]
  · rw [heq, List.getElem?_set_self hlt, hbyte, Option.map_some, Option.map_some,
      getLsbD_setBit byte mask b (by omega) (by omega), hmask]
    have hiff : j % 8 = k % 8 ↔ j = k := by omega
    simp only [hiff]
    split_ifs <;> rfl


theorem and_mask_ne_zero (x : UInt8) {i : ℕ} (hi : i < 8) :
    x &&& (1 <<< UInt8.ofNat i) ≠ 0 ↔ x.toBitVec.getLsbD i = true := by
  have hmod : ((UInt8.ofNat i).toBitVec % 8).toNat = i := by simp; omega
  have hmask : ((1 : UInt8) <<< UInt8.ofNat i).toBitVec = 1#8 <<< i := by
    rw [UInt8.toBitVec_shiftLeft, BitVec.shiftLeft_eq', hmod]
    rfl
  rw [← Bool.not_eq_false, ← WordBuffer.and_mask_eq_zero _ hi, ne_eq, ← UInt8.toBitVec_inj,
    UInt8.toBitVec_and, hmask]
  rfl

end BitBuffer

import RfidTool.Library.WordBuffer

/-!
# `common::DataUtils`

The bit helpers shared by the encoders and the decoder: the parity and the
reversal of a nibble, both read from a table, and the writing of single bits and of
fields, most significant bit first, into 32-bit words.
-/

namespace RfidTool.DataUtils

def REVERSED_NIBBLE : Vector UInt8 16 :=
  #v[0x00, 0x08, 0x04, 0x0c, 0x02, 0x0a, 0x06, 0x0e,
     0x01, 0x09, 0x05, 0x0d, 0x03, 0x0b, 0x07, 0x0f]

/-- Bit `i` is the parity of the nibble `i`. -/
def PARITY : UInt16 := 27030

def parityNibble (nibble : UInt8) : UInt8 :=
  ((PARITY >>> (nibble &&& 0x0f).toUInt16) &&& 1).toUInt8

/-- The table is read inside its 16 entries by every caller. -/
def reverseNibble (nibble : UInt8) : UInt8 := REVERSED_NIBBLE[nibble.toNat]?.getD 0

/-- `putBit`, and `_bufferAddBit` of `Em4100Eprom.cpp`, which is the same text.
The count of bits written is returned beside the buffer. -/
def putBit {n : ℕ} (buffer : Vector UInt32 n) (bitOffset bit : UInt8) : Vector UInt32 n × UInt8 :=
  let idx := bitOffset / 32
  if h : idx.toNat < n then
    let mask : UInt32 := 1 <<< (bitOffset % 32).toUInt32
    if bit ≠ 0 then (buffer.set idx.toNat (buffer[idx.toNat] ||| mask), 1)
    else (buffer.set idx.toNat (buffer[idx.toNat] &&& ~~~mask), 1)
  else (buffer, 1)

/-- The loop counts `i` down from `bitsCount`; `j` is `i - 1`. -/
def putBitsMsb {n : ℕ} (buffer : Vector UInt32 n) (bitOffset : UInt8) (bits : UInt16)
    (bitsCount : UInt8) : Vector UInt32 n × UInt8 :=
  ((List.range bitsCount.toNat).reverse.foldl
    (fun buffer j => (putBit buffer (bitOffset + bitsCount - UInt8.ofNat (j + 1))
      (if bits &&& (1 <<< UInt16.ofNat j) ≠ 0 then 1 else 0)).1) buffer, bitsCount)

/-- The `width` low bits of a number, most significant first. -/
def msbBits (value width : ℕ) : List Bool := (List.range width).reverse.map value.testBit

theorem putBit_eq {n : ℕ} (buffer : Vector UInt32 n) (bitOffset bit : UInt8) :
    putBit buffer bitOffset bit =
      (WordBuffer.put buffer bitOffset.toNat (decide (bit ≠ 0)), 1) := by
  have hidx : (bitOffset / 32).toNat = bitOffset.toNat / 32 := by simp
  have hmod : (bitOffset % 32).toUInt32 = UInt32.ofNat (bitOffset.toNat % 32) := by
    apply UInt32.toNat.inj
    simp
    omega
  unfold putBit WordBuffer.put WordBuffer.setBit
  simp only [hidx, hmod]
  split
  · by_cases hb : bit = 0 <;> simp [hb]
  · rfl

theorem length_msbBits (value width : ℕ) : (msbBits value width).length = width := by
  simp [msbBits]

theorem msbBits_succ (value width : ℕ) :
    msbBits value (width + 1) = value.testBit width :: msbBits value width := by
  simp [msbBits, List.range_succ]

theorem msbBits_congr {value value' width : ℕ}
    (h : ∀ i < width, value.testBit i = value'.testBit i) :
    msbBits value width = msbBits value' width := by
  refine List.map_congr_left fun i hi => h i ?_
  exact List.mem_range.mp (List.mem_reverse.mp hi)

/-- The loop from some index on puts the bits that are left. -/
theorem foldl_putBit {n : ℕ} (buffer : Vector UInt32 n) {bitOffset bitsCount : UInt8}
    (bits : UInt16) {k : ℕ} (hk : k ≤ bitsCount.toNat) (hcount : bitsCount.toNat ≤ 16)
    (hoffset : bitOffset.toNat + bitsCount.toNat < 256) :
    (List.range k).reverse.foldl
        (fun buffer j => (putBit buffer (bitOffset + bitsCount - UInt8.ofNat (j + 1))
          (if bits &&& (1 <<< UInt16.ofNat j) ≠ 0 then 1 else 0)).1) buffer =
      WordBuffer.putAll buffer (bitOffset.toNat + bitsCount.toNat - k) (msbBits bits.toNat k) := by
  induction k generalizing buffer with
  | zero => rfl
  | succ k ih =>
    have hsum : (bitOffset + bitsCount).toNat = bitOffset.toNat + bitsCount.toNat := by
      rw [UInt8.toNat_add]
      omega
    have hindex : (bitOffset + bitsCount - UInt8.ofNat (k + 1)).toNat =
        bitOffset.toNat + bitsCount.toNat - (k + 1) := by
      have hle : UInt8.ofNat (k + 1) ≤ bitOffset + bitsCount := by
        rw [UInt8.le_iff_toNat_le, hsum, UInt8.toNat_ofNat']
        omega
      rw [UInt8.toNat_sub_of_le _ _ hle, hsum, UInt8.toNat_ofNat']
      omega
    have hbit : decide ((if bits &&& (1 <<< UInt16.ofNat k) ≠ 0 then 1 else 0 : UInt8) ≠ 0) =
        bits.toNat.testBit k := by
      have hmask := WordBuffer.UInt16.and_mask_ne_zero bits (i := k) (by omega)
      rw [BitVec.getLsbD, UInt16.toNat_toBitVec] at hmask
      rw [Bool.eq_iff_iff, ← hmask]
      split_ifs with h <;> simp [h]
    have hnext : bitOffset.toNat + bitsCount.toNat - (k + 1) + 1 =
        bitOffset.toNat + bitsCount.toNat - k := by omega
    rw [List.range_succ, List.reverse_append, List.reverse_singleton, List.singleton_append,
      List.foldl_cons, ih _ (by omega), putBit_eq, hindex, hbit, msbBits_succ, WordBuffer.putAll,
      hnext]

/-- A field is put most significant bit first from its offset on. -/
theorem putBitsMsb_eq {n : ℕ} (buffer : Vector UInt32 n) {bitOffset bitsCount : UInt8}
    (bits : UInt16) (hcount : bitsCount.toNat ≤ 16)
    (hoffset : bitOffset.toNat + bitsCount.toNat < 256) :
    putBitsMsb buffer bitOffset bits bitsCount =
      (WordBuffer.putAll buffer bitOffset.toNat (msbBits bits.toNat bitsCount.toNat),
        bitsCount) := by
  rw [putBitsMsb, foldl_putBit buffer bits (Nat.le_refl _) hcount hoffset, Nat.add_sub_cancel]

end RfidTool.DataUtils

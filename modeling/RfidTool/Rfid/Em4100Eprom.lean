import RfidTool.Common.DataUtils
import RfidTool.Rfid.Em4100Frame

/-!
# `rfid::Em4100Eprom`

`generate` writes the frame of a token into two 32-bit words, least significant
bit first. The digits are reversed by a table before they are written, so that
they leave the words most significant bit first. `bits_generate` states the
outcome: the words hold the frame, whatever they held before.
-/

namespace RfidTool.Em4100Eprom

open DataUtils WordBuffer

/-- `_bufferAddBit` is the same text as `DataUtils::putBit`. -/
def bufferAddBit (buffer : Vector UInt32 2) (bitOffset bit : UInt8) : Vector UInt32 2 × UInt8 :=
  putBit buffer bitOffset bit

/-- The loop body of `_bufferAddBits`, on the buffer and the count `ret`. -/
def bufferAddNextBit (bitOffset : UInt8) (bits : UInt16) (s : Vector UInt32 2 × UInt8) (i : ℕ) :
    Vector UInt32 2 × UInt8 :=
  let bit : UInt8 := if bits &&& (1 <<< UInt16.ofNat i) ≠ 0 then 1 else 0
  let (buffer, count) := bufferAddBit s.1 (bitOffset + s.2) bit
  (buffer, s.2 + count)

def bufferAddBits (buffer : Vector UInt32 2) (bitOffset : UInt8) (bits : UInt16)
    (bitsCount : UInt8) : Vector UInt32 2 × UInt8 :=
  (List.range bitsCount.toNat).foldl (bufferAddNextBit bitOffset bits) (buffer, 0)

/-- The local variables of `generate`. -/
structure Progress where
  result : Vector UInt32 2
  written : UInt8
  parity : UInt8

/-- `written += _bufferAddBits(result, written, bits, bitsCount)`. -/
def Progress.add (s : Progress) (bits : UInt16) (bitsCount : UInt8) : Progress :=
  let (result, count) := bufferAddBits s.result s.written bits bitsCount
  { s with result, written := s.written + count }

/-- The statements `generate` repeats for each hexadecimal digit. -/
def Progress.addDigit (s : Progress) (digit : UInt8) : Progress :=
  let nibble := reverseNibble digit
  { s with parity := s.parity ^^^ nibble }.add
    (nibble ||| (parityNibble nibble <<< 4)).toUInt16 5

def generate (result : Vector UInt32 2) (customerId : UInt8) (token : UInt32) :
    Vector UInt32 2 :=
  let s : Progress := { result, written := 0, parity := 0 }
  let s := s.add 0x1ff 9
  let s := s.addDigit (customerId >>> 4)
  let s := s.addDigit (customerId &&& 0x0f)
  let s := (List.range 8).foldl
    (fun s i => s.addDigit ((token >>> UInt32.ofNat ((7 - i) * 4)) &&& 0x0f).toUInt8) s
  (s.add s.parity.toUInt16 5).result

/-! ## Writing bits in order -/

/-- The `n` low bits of a word, least significant first. -/
def lsbFirst (bits : UInt16) (n : ℕ) : List Bool := (List.range n).map bits.toBitVec.getLsbD

theorem bufferAddNextBit_eq (buffer : Vector UInt32 2) {bitOffset : UInt8} (bits : UInt16) {i : ℕ}
    (hi : i < 16) (hfit : bitOffset.toNat + i < 64) :
    bufferAddNextBit bitOffset bits (buffer, UInt8.ofNat i) i =
      (put buffer (bitOffset.toNat + i) (bits.toBitVec.getLsbD i), UInt8.ofNat (i + 1)) := by
  have hoff : (bitOffset + UInt8.ofNat i).toNat = bitOffset.toNat + i := by simp; omega
  have hcount : UInt8.ofNat i + 1 = UInt8.ofNat (i + 1) := by simp
  unfold bufferAddNextBit bufferAddBit
  simp only [putBit_eq, hoff]
  by_cases h : bits.toBitVec.getLsbD i = true
  · rw [if_pos ((UInt16.and_mask_ne_zero bits hi).mpr h), h]
    exact Prod.ext rfl hcount
  · rw [if_neg (mt (UInt16.and_mask_ne_zero bits hi).mp h), Bool.eq_false_of_not_eq_true h]
    exact Prod.ext rfl hcount

theorem bufferAddBits_eq (buffer : Vector UInt32 2) {bitOffset : UInt8} (bits : UInt16)
    {bitsCount : UInt8} (hcount : bitsCount.toNat ≤ 16)
    (hfit : bitOffset.toNat + bitsCount.toNat ≤ 64) :
    bufferAddBits buffer bitOffset bits bitsCount =
      (putAll buffer bitOffset.toNat (lsbFirst bits bitsCount.toNat), bitsCount) := by
  have loop : ∀ n ≤ bitsCount.toNat,
      (List.range n).foldl (bufferAddNextBit bitOffset bits) (buffer, 0) =
        (putAll buffer bitOffset.toNat (lsbFirst bits n), UInt8.ofNat n) := by
    intro n hn
    induction n with
    | zero => rfl
    | succ n ih =>
      rw [List.range_succ, List.foldl_append, ih (by omega), List.foldl_cons, List.foldl_nil,
        bufferAddNextBit_eq _ _ (by omega) (by omega), lsbFirst, lsbFirst, List.range_succ,
        List.map_append, putAll_append]
      simp [putAll]
  rw [bufferAddBits, loop _ le_rfl, UInt8.ofNat_toNat]

/-! ## The frame in the words -/

/-- The byte that holds a digit. -/
def digitByte (d : BitVec 4) : UInt8 := ⟨d.setWidth 8⟩

/-- The bits written so far are `bs`, and the column parity of the digits among
them is `c`. -/
structure Wrote (s : Progress) (bs : List Bool) (c : BitVec 4) : Prop where
  written : s.written.toNat = bs.length
  result : bits s.result bs.length = bs
  parity : s.parity = reverseNibble (digitByte c)

theorem reverseNibble_xor (c d : BitVec 4) :
    reverseNibble (digitByte c) ^^^ reverseNibble (digitByte d) =
      reverseNibble (digitByte (c ^^^ d)) := by
  revert c d
  decide

theorem lsbFirst_row (d : BitVec 4) :
    lsbFirst (reverseNibble (digitByte d) |||
      (parityNibble (reverseNibble (digitByte d)) <<< 4)).toUInt16 5 =
        (List.range 5).map (rowBit d) := by
  revert d
  decide

theorem lsbFirst_column (c : BitVec 4) :
    lsbFirst (reverseNibble (digitByte c)).toUInt16 5 =
      [c.getLsbD 3, c.getLsbD 2, c.getLsbD 1, c.getLsbD 0, false] := by
  revert c
  decide

theorem Wrote.add {s : Progress} {bs : List Bool} {c : BitVec 4} (h : Wrote s bs c)
    (word : UInt16) {count : UInt8} (hcount : count.toNat ≤ 16)
    (hfit : bs.length + count.toNat ≤ 64) :
    Wrote (s.add word count) (bs ++ lsbFirst word count.toNat) c := by
  have hlen : (lsbFirst word count.toNat).length = count.toNat := by simp [lsbFirst]
  have hwritten := h.written
  unfold Progress.add
  rw [bufferAddBits_eq _ _ hcount (by omega)]
  constructor
  · simp [hwritten, hlen]
    omega
  · have hput : bits (putAll s.result bs.length (lsbFirst word count.toNat))
        (bs.length + (lsbFirst word count.toNat).length) =
        bits s.result bs.length ++ lsbFirst word count.toNat := bits_putAll _ (by omega)
    rw [h.result] at hput
    simpa [hwritten] using hput
  · exact h.parity

theorem Wrote.addDigit {s : Progress} {bs : List Bool} {c : BitVec 4} (h : Wrote s bs c)
    (d : BitVec 4) (hfit : bs.length + 5 ≤ 64) :
    Wrote (s.addDigit (digitByte d)) (bs ++ (List.range 5).map (rowBit d)) (c ^^^ d) := by
  rw [← lsbFirst_row d]
  have hparity : Wrote { s with parity := s.parity ^^^ reverseNibble (digitByte d) } bs
      (c ^^^ d) := ⟨h.written, h.result, by rw [← reverseNibble_xor, ← h.parity]⟩
  exact hparity.add _ (show (5 : UInt8).toNat ≤ 16 by decide) hfit

theorem customerId_digits (t : Token) :
    t.versionOrCustomerId >>> 4 = digitByte (t.digit 0) ∧
      t.versionOrCustomerId &&& 0x0f = digitByte (t.digit 1) := by
  obtain ⟨⟨c⟩, w⟩ := t
  constructor <;>
  · apply UInt8.toBitVec_inj.mp
    apply BitVec.eq_of_getLsbD_eq
    intro k hk
    simp only [digitByte, Token.digit, BitVec.getLsbD_setWidth, BitVec.getLsbD_extractLsb',
      BitVec.getLsbD_append]
    interval_cases k <;> simp

theorem token_digit (t : Token) {i : ℕ} (hi : i < 8) :
    ((t.data >>> UInt32.ofNat ((7 - i) * 4)) &&& 0x0f).toUInt8 = digitByte (t.digit (i + 2)) := by
  obtain ⟨c, ⟨w⟩⟩ := t
  apply UInt8.toBitVec_inj.mp
  apply BitVec.eq_of_getLsbD_eq
  intro k hk
  simp only [digitByte, Token.digit, BitVec.getLsbD_setWidth, BitVec.getLsbD_extractLsb',
    BitVec.getLsbD_append]
  interval_cases i <;> interval_cases k <;> simp

/-- The bits of the preamble and the first `n` digits, as they are written. -/
def sentBits (t : Token) (n : ℕ) : List Bool :=
  List.replicate 9 true ++ (List.range n).flatMap fun i => (List.range 5).map (rowBit (t.digit i))

theorem sentBits_succ (t : Token) (n : ℕ) :
    sentBits t (n + 1) = sentBits t n ++ (List.range 5).map (rowBit (t.digit n)) := by
  simp [sentBits, List.range_succ]

@[simp] theorem length_sentBits (t : Token) (n : ℕ) : (sentBits t n).length = 9 + 5 * n := by
  induction n with
  | zero => rfl
  | succ n ih =>
    rw [sentBits_succ, List.length_append, ih]
    simp
    omega

/-- The column parities of the first `n` digits. -/
def columnOfFirst (t : Token) (n : ℕ) : BitVec 4 :=
  (List.range n).foldl (fun acc i => acc ^^^ t.digit i) 0

/-- One more digit. -/
theorem Wrote.nextDigit {t : Token} {s : Progress} {n : ℕ} (hn : n < 10)
    (h : Wrote s (sentBits t n) (columnOfFirst t n)) :
    Wrote (s.addDigit (digitByte (t.digit n))) (sentBits t (n + 1)) (columnOfFirst t (n + 1)) := by
  have hcol : columnOfFirst t (n + 1) = columnOfFirst t n ^^^ t.digit n := by
    simp [columnOfFirst, List.range_succ]
  rw [sentBits_succ, hcol]
  exact h.addDigit _ (by rw [length_sentBits]; omega)

/-- After ten digits the column parities and the stop bit complete the frame. -/
theorem Wrote.finish {t : Token} {s : Progress}
    (h : Wrote s (sentBits t 10) (columnOfFirst t 10)) :
    bits (s.add s.parity.toUInt16 5).result 64 = frame t := by
  have hall := (h.add s.parity.toUInt16 (show (5 : UInt8).toNat ≤ 16 by decide) (by simp)).result
  have hlen : (sentBits t 10 ++ lsbFirst s.parity.toUInt16 (5 : UInt8).toNat).length = 64 := by
    simp [lsbFirst]
  rw [hlen] at hall
  rw [hall, h.parity, frame_eq]
  exact congrArg (sentBits t 10 ++ ·) (lsbFirst_column (columnOfFirst t 10))

/-- `generate` leaves the frame of the token in the two words, whatever they held. -/
theorem bits_generate (result : Vector UInt32 2) (t : Token) :
    bits (generate result t.versionOrCustomerId t.data) 64 = frame t := by
  have hstart : Wrote ⟨result, 0, 0⟩ [] 0 := ⟨rfl, rfl, rfl⟩
  have hpreamble := hstart.add 0x1ff (show (9 : UInt8).toNat ≤ 16 by decide) (by decide)
  have hcustomer := (Wrote.nextDigit (t := t) (n := 0) (by decide) hpreamble).nextDigit (by decide)
  obtain ⟨hhi, hlo⟩ := customerId_digits t
  have hloop : ∀ n ≤ 8, ∀ s, Wrote s (sentBits t 2) (columnOfFirst t 2) →
      Wrote ((List.range n).foldl (fun s i =>
          s.addDigit ((t.data >>> UInt32.ofNat ((7 - i) * 4)) &&& 0x0f).toUInt8) s)
        (sentBits t (n + 2)) (columnOfFirst t (n + 2)) := by
    intro n hn s hs
    induction n with
    | zero => exact hs
    | succ n ih =>
      rw [List.range_succ, List.foldl_append, List.foldl_cons, List.foldl_nil,
        token_digit t (by omega)]
      exact (ih (by omega)).nextDigit (by omega)
  rw [← hhi, ← hlo] at hcustomer
  exact (hloop 8 le_rfl _ hcustomer).finish

end RfidTool.Em4100Eprom

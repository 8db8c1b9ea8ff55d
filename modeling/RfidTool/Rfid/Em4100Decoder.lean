import Mathlib.Data.List.GetD
import RfidTool.Common.DataUtils
import RfidTool.Library.Buffer
import RfidTool.Rfid.Em4100Frame

/-!
# `rfid::Em4100Decoder`

The decoder as the code has it: byte-wide counters, a nibble that is overwritten
bit by bit and never cleared, and six data bytes of which only the ones already
written in the current frame mean anything. `Matches` says what the fields stand
for, and `refines` shows that the decoder is the receiver `framer`: everything
proved about frames holds of the code.

The log messages are left out. The decoder is called for the events of its coding
decoder, of which only `EVENT_NEW_BIT` is ever notified.
-/

namespace RfidTool

open DataUtils Sequence Parity

inductive DecoderState where
  | preamble
  | data
  deriving DecidableEq, Repr

structure Em4100Decoder where
  state : DecoderState
  bitCount : UInt8
  nibble : UInt8
  nibbleLen : UInt8
  nibbleCount : UInt8
  data : Vector UInt8 6
  deriving DecidableEq, Repr

namespace Em4100Decoder

/-- The constructor calls `reset`; the fields it does not set stay as they are. -/
def reset (d : Em4100Decoder) : Em4100Decoder :=
  { d with state := .preamble, bitCount := 0, nibble := 0 }

/-- The xor of both halves of the first five bytes, in the upper half. -/
def colsParity (data : Vector UInt8 6) : UInt8 :=
  (data.toList.take 5).foldl
    (fun (parity byte : UInt8) =>
      (parity ^^^ (byte &&& (0xf0 : UInt8))) ^^^ (byte <<< (4 : UInt8))) 0

def eventNewToken (data : Vector UInt8 6) : Token where
  versionOrCustomerId := data[0]
  data :=
    (((((data[1].toUInt32 <<< 8) ||| data[2].toUInt32) <<< 8) ||| data[3].toUInt32) <<< 8) |||
      data[4].toUInt32

/-- The nibble is appended to the data bytes. `byteNo` is at most 5 in every run. -/
def storeNibble (d : Em4100Decoder) : Vector UInt8 6 :=
  let byteNo := (d.nibbleCount >>> 1).toNat
  let byteHi := d.nibbleCount &&& 1
  let data := if byteHi = 0 then d.data.setIfInBounds byteNo 0 else d.data
  data.setIfInBounds byteNo (data[byteNo]?.getD 0 ||| (d.nibble <<< (if byteHi ≠ 0 then 0 else 4)))

/-- `onEvent` for `EVENT_NEW_BIT`, with the token it notifies. -/
def onEvent (d : Em4100Decoder) (isOne : Bool) : Em4100Decoder × Option Token :=
  match d.state with
  | .preamble =>
    if isOne then
      let d := { d with bitCount := d.bitCount + 1 }
      if d.bitCount = 9 then
        ({ d with state := .data, bitCount := 0, nibbleCount := 0, nibbleLen := 0 }, none)
      else (d, none)
    else ({ d with bitCount := 0 }, none)
  | .data =>
    if d.nibbleLen = 4 then
      let parityOk :=
        if d.nibbleCount = 10 then !isOne
        else decide (parityNibble d.nibble = if isOne then 1 else 0)
      if parityOk then
        let d := { d with data := d.storeNibble, nibbleLen := 0, nibbleCount := d.nibbleCount + 1 }
        if d.nibbleCount = 11 then
          if colsParity d.data ≠ d.data[5] then ({ d with state := .preamble }, none)
          else ({ d with state := .preamble }, some (eventNewToken d.data))
        else (d, none)
      else ({ d with state := .preamble }, none)
    else
      let bit := 1 <<< (3 - d.nibbleLen)
      ({ d with
          nibble := if isOne then d.nibble ||| bit else d.nibble &&& ~~~bit
          nibbleLen := d.nibbleLen + 1 }, none)

/-- The decoder as a transducer from bits to tokens. -/
def machine : Transducer Em4100Decoder Bool Token := ⟨onEvent⟩

/-! ## What the fields stand for -/

/-- A data byte with the given halves. -/
def pair (hi lo : BitVec 4) : UInt8 := ⟨hi ++ lo⟩

/-- The data bytes hold the first `n` digits; the half behind them is zero. -/
def Stored (data : Vector UInt8 6) (digit : ℕ → BitVec 4) (n : ℕ) : Prop :=
  ∀ b, (h : b < 6) → 2 * b < n →
    data[b] = pair (digit (2 * b)) (if 2 * b + 1 < n then digit (2 * b + 1) else 0)

/-- The first `k` bits of a row are in the nibble, from the most significant one on. -/
def Collected (nibble : UInt8) (row : ℕ → Bool) (k : ℕ) : Prop :=
  nibble.toNat < 16 ∧ ∀ j < k, nibble.toBitVec.getLsbD (3 - j) = row j

/-- The state of the receiver that a decoder is in. -/
def Matches (d : Em4100Decoder) : Framer.State → Prop
  | .hunting k => d.state = .preamble ∧ d.bitCount.toNat = k ∧ k < 9 ∧ d.nibble.toNat < 16
  | .reading w =>
    d.state = .data ∧ d.bitCount = 0 ∧ w.length < 55 ∧
      d.nibbleLen.toNat = w.length % 5 ∧ d.nibbleCount.toNat = w.length / 5 ∧
      Collected d.nibble (fun j => w.getD (5 * (w.length / 5) + j) false) (w.length % 5) ∧
      Stored d.data (digitOf w) (w.length / 5)

/-! ## Bytes and digits -/

/-- The byte that holds a digit. -/
def digitByte (d : BitVec 4) : UInt8 := ⟨d.setWidth 8⟩

theorem getLsbD_pair (hi lo : BitVec 4) (k : ℕ) : (pair hi lo).toBitVec.getLsbD k =
    if k < 4 then lo.getLsbD k else hi.getLsbD (k - 4) := BitVec.getLsbD_append

theorem parityNibble_digitByte (d : BitVec 4) (b : Bool) :
    decide (parityNibble (digitByte d) = if b then 1 else 0) = !(rowBit d 4 ^^ b) := by
  revert d b
  decide

theorem pair_zero (d : BitVec 4) : (0 : UInt8) ||| (digitByte d <<< (4 : UInt8)) = pair d 0 := by
  revert d
  decide

theorem pair_or (hi lo : BitVec 4) : pair hi 0 ||| (digitByte lo <<< (0 : UInt8)) = pair hi lo := by
  revert hi lo
  decide

theorem halves_xor (hi lo : BitVec 4) :
    (pair hi lo &&& (0xf0 : UInt8)) ^^^ (pair hi lo <<< (4 : UInt8)) = pair (hi ^^^ lo) 0 := by
  revert hi lo
  decide

theorem pair_xor (c d : BitVec 4) : pair c 0 ^^^ pair d 0 = pair (c ^^^ d) 0 := by
  revert c d
  decide

theorem pair_inj {c d : BitVec 4} : pair c 0 = pair d 0 ↔ c = d := by
  revert c d
  decide

/-- A nibble whose four bits are known is that digit. -/
theorem Collected.eq_digitByte {nibble : UInt8} {row : ℕ → Bool} (h : Collected nibble row 4)
    {d : BitVec 4} (hd : ∀ j < 4, d.getLsbD (3 - j) = row j) : nibble = digitByte d := by
  obtain ⟨hlt, hbits⟩ := h
  apply UInt8.toBitVec_inj.mp
  apply BitVec.eq_of_getLsbD_eq
  intro k hk
  rcases Nat.lt_or_ge k 4 with hk4 | hk4
  · have h1 := hbits (3 - k) (by omega)
    have hindex : 3 - (3 - k) = k := by omega
    rw [← hd (3 - k) (by omega), hindex] at h1
    simpa [digitByte, hk] using h1
  · have hzero : nibble.toBitVec.getLsbD k = false := by
      apply Nat.testBit_lt_two_pow
      exact hlt.trans_le (Nat.pow_le_pow_right (show 2 > 0 by decide) hk4)
    rw [hzero, digitByte, BitVec.getLsbD_setWidth, BitVec.getLsbD_of_ge d k hk4, Bool.and_false]

/-- Writing bit `k` of a nibble, counted from the most significant one. -/
theorem write_nibble (n : Fin 16) (k : Fin 4) (b : Bool) :
    let nibble := UInt8.ofNat n
    let bit : UInt8 := 1 <<< (3 - UInt8.ofNat k)
    let next := if b then nibble ||| bit else nibble &&& ~~~bit
    next.toNat < 16 ∧ ∀ j : Fin 4, next.toBitVec.getLsbD (3 - j) =
      if j = k then b else nibble.toBitVec.getLsbD (3 - j) := by
  revert n k b
  decide

theorem Collected.snoc {nibble len : UInt8} {row : ℕ → Bool} {k : ℕ}
    (h : Collected nibble row k) (hk : k < 4) (hlen : len.toNat = k) :
    Collected (if row k then nibble ||| (1 <<< (3 - len)) else nibble &&& ~~~(1 <<< (3 - len)))
      row (k + 1) := by
  obtain ⟨hlt, hbits⟩ := h
  have hlen' : UInt8.ofNat k = len := by rw [← hlen, UInt8.ofNat_toNat]
  have hwrite := write_nibble ⟨nibble.toNat, hlt⟩ ⟨k, hk⟩ (row k)
  simp only [UInt8.ofNat_toNat, hlen'] at hwrite
  refine ⟨hwrite.1, ?_⟩
  intro j hj
  rw [hwrite.2 ⟨j, by omega⟩]
  split
  case isTrue h => rw [← Fin.mk.inj h]
  case isFalse h => exact hbits j (by have : j ≠ k := fun e => h (Fin.ext e); omega)

/-! ## Storing a digit -/

theorem digitOf_append {w v : List Bool} {i : ℕ} (h : 5 * i + 4 ≤ w.length) :
    digitOf (w ++ v) i = digitOf w i := by
  simp only [digitOf, List.getD_eq_getElem?_getD]
  iterate 4 rw [List.getElem?_append_left (by omega)]

/-- More bits do not change the digits of the rows that are complete. -/
theorem Stored.append {data : Vector UInt8 6} {w : List Bool} {n : ℕ}
    (h : Stored data (digitOf w) n) (hn : 5 * n ≤ w.length) (v : List Bool) :
    Stored data (digitOf (w ++ v)) n := by
  intro i hi hlt
  rw [h i hi hlt, digitOf_append (by omega)]
  split
  · rw [digitOf_append (by omega)]
  · rfl

theorem getElem_storeNibble_ne (d : Em4100Decoder) {b : ℕ} (hb : b < 6)
    (h : (d.nibbleCount >>> 1).toNat ≠ b) : d.storeNibble[b] = d.data[b] := by
  unfold storeNibble
  generalize (d.nibbleCount >>> 1).toNat = byteNo at h ⊢
  by_cases heven : d.nibbleCount &&& 1 = 0 <;>
    simp [heven, h]

theorem getElem_storeNibble (d : Em4100Decoder) {b : ℕ} (hb : b < 6)
    (h : (d.nibbleCount >>> 1).toNat = b) : d.storeNibble[b] =
      if d.nibbleCount &&& 1 = 0 then 0 ||| (d.nibble <<< (4 : UInt8))
      else d.data[b] ||| (d.nibble <<< (0 : UInt8)) := by
  by_cases heven : d.nibbleCount &&& 1 = 0 <;> simp [storeNibble, heven, h, hb]

/-- The digit behind the stored ones goes to the free half of its byte. -/
theorem stored_storeNibble {d : Em4100Decoder} {digit : ℕ → BitVec 4} {n : ℕ}
    (hcount : d.nibbleCount.toNat = n) (hnibble : d.nibble = digitByte (digit n))
    (h : Stored d.data digit n) : Stored d.storeNibble digit (n + 1) := by
  have hbyte : (d.nibbleCount >>> 1).toNat = n / 2 := by
    rw [← hcount]
    simp [Nat.shiftRight_eq_div_pow]
  have hhalf : d.nibbleCount &&& 1 = 0 ↔ n % 2 = 0 := by
    rw [← hcount, ← UInt8.toNat_inj]
    simp [Nat.and_one_is_mod]
  intro b hb hlt
  rcases Nat.lt_or_ge b (n / 2) with hlt' | hge
  · rw [getElem_storeNibble_ne d hb (by omega), h b hb (by omega), if_pos (by omega),
      if_pos (by omega)]
  rw [getElem_storeNibble d hb (by omega), hnibble]
  split
  case isTrue heven =>
    rw [hhalf] at heven
    have hindex : 2 * b = n := by omega
    rw [pair_zero, if_neg (by omega), hindex]
  case isFalse hodd =>
    rw [hhalf] at hodd
    have hindex : 2 * b + 1 = n := by omega
    rw [h b hb (by omega), if_neg (by omega), if_pos (by omega), pair_or, hindex]

theorem Stored.getElem {data : Vector UInt8 6} {digit : ℕ → BitVec 4} (h : Stored data digit 11)
    {b : ℕ} (hb : b < 5) : data[b] = pair (digit (2 * b)) (digit (2 * b + 1)) := by
  rw [h b (by omega) (by omega), if_pos (by omega)]

theorem colsParity_of_stored {data : Vector UInt8 6} {digit : ℕ → BitVec 4}
    (h : Stored data digit 11) : colsParity data = pair (column digit) 0 := by
  have hlist : data.toList.take 5 = [data[0], data[1], data[2], data[3], data[4]] := by
    obtain ⟨⟨l⟩, hl⟩ := data
    match l, hl with
    | [_, _, _, _, _, _], _ => rfl
  simp only [colsParity, hlist, List.foldl_cons, List.foldl_nil]
  simp only [h.getElem (show 0 < 5 by decide), h.getElem (show 1 < 5 by decide),
    h.getElem (show 2 < 5 by decide), h.getElem (show 3 < 5 by decide),
    h.getElem (show 4 < 5 by decide)]
  simp only [UInt8.xor_assoc, halves_xor, pair_xor, column, List.range_succ, List.range_zero,
    List.nil_append, List.cons_append, List.foldl_cons, List.foldl_nil, BitVec.xor_assoc,
    UInt8.zero_xor]
  simp

/-- The bytes of ten digits, read as the event data. -/
theorem eventNewToken_of_stored {data : Vector UInt8 6} {digit : ℕ → BitVec 4}
    (h : Stored data digit 11) : eventNewToken data = .ofDigits digit := by
  unfold eventNewToken Token.ofDigits
  simp only [h.getElem (show 0 < 5 by decide), h.getElem (show 1 < 5 by decide),
    h.getElem (show 2 < 5 by decide), h.getElem (show 3 < 5 by decide),
    h.getElem (show 4 < 5 by decide)]
  congr 1
  apply UInt32.toBitVec_inj.mp
  apply BitVec.eq_of_getLsbD_eq
  intro k hk
  simp only [UInt32.toBitVec_or, UInt32.toBitVec_shiftLeft, UInt8.toBitVec_toUInt32,
    BitVec.getLsbD_or, BitVec.shiftLeft_eq', BitVec.getLsbD_shiftLeft, BitVec.getLsbD_setWidth,
    BitVec.getLsbD_append, getLsbD_pair]
  interval_cases k <;> simp

/-! ## The decoder is the receiver -/

theorem matches_reset (d : Em4100Decoder) : Matches d.reset (.hunting 0) :=
  ⟨rfl, rfl, by decide, Nat.zero_lt_succ 15⟩

/-- Giving up a body leaves the byte counter and the nibble as a new preamble needs them. -/
theorem matches_preamble {d : Em4100Decoder} (hcount : d.bitCount = 0)
    (hnibble : d.nibble.toNat < 16) :
    Matches { d with state := .preamble } (.hunting 0) :=
  ⟨rfl, by rw [hcount]; rfl, by decide, hnibble⟩

theorem next_preamble {d : Em4100Decoder} {k : ℕ} (h : Matches d (.hunting k)) (b : Bool) :
    Matches (d.onEvent b).1 (framer.receive (.hunting k) b).1 ∧
      (d.onEvent b).2 = (framer.receive (.hunting k) b).2 := by
  obtain ⟨hstate, hcount, hk, hnibble⟩ := h
  cases b with
  | false =>
    simp only [onEvent, hstate, Bool.false_eq_true, if_false, Framer.receive]
    exact ⟨⟨rfl, rfl, by decide, hnibble⟩, trivial⟩
  | true =>
    have hnext := UInt8.toNat_add_one hcount (by omega)
    have hnine : d.bitCount + 1 = 9 ↔ k + 1 = 9 := by
      rw [← UInt8.toNat_inj, hnext]
      rfl
    simp only [onEvent, hstate, if_true, hnine]
    by_cases h9 : k + 1 = 9
    · rw [framer.receive_last h9]
      simp only [if_pos h9]
      refine ⟨⟨rfl, rfl, by simp, rfl, rfl, ⟨hnibble, ?_⟩, ?_⟩, trivial⟩
      · intro j hj
        simp at hj
      · intro b _ hb
        simp at hb
    · rw [framer.receive_one (show k + 1 < framer.preamble by rw [framer_preamble]; omega)]
      simp only [if_neg h9]
      exact ⟨⟨rfl, hnext, by omega, hnibble⟩, trivial⟩

/-- A bit of a digit. -/
theorem next_bit {d : Em4100Decoder} {w : List Bool} (h : Matches d (.reading w))
    (hlen : w.length % 5 < 4) (b : Bool) :
    Matches (d.onEvent b).1 (.reading (w ++ [b])) ∧ (d.onEvent b).2 = none := by
  obtain ⟨hstate, hcount, hlt, hnibbleLen, hnibbleCount, hcollected, hstored⟩ := h
  have hne : d.nibbleLen ≠ 4 := fun he => by
    rw [he] at hnibbleLen
    simp at hnibbleLen
    omega
  have hmod : (w ++ [b]).length % 5 = w.length % 5 + 1 := by simp; omega
  have hdiv : (w ++ [b]).length / 5 = w.length / 5 := by simp; omega
  have hbit : (w ++ [b]).getD (5 * (w.length / 5) + w.length % 5) false = b := by
    rw [Nat.div_add_mod]
    simp
  have hrow : Collected d.nibble
      (fun j => (w ++ [b]).getD (5 * (w.length / 5) + j) false) (w.length % 5) := by
    refine ⟨hcollected.1, fun j hj => ?_⟩
    exact (hcollected.2 j hj).trans (List.getD_append _ _ _ _ (by omega)).symm
  have hsnoc := hrow.snoc hlen hnibbleLen
  simp only [hbit] at hsnoc
  simp only [onEvent, hstate, if_neg hne]
  refine ⟨⟨rfl, hcount, by simp; omega, ?_, by rw [hdiv]; exact hnibbleCount, ?_, ?_⟩, trivial⟩
  · rw [hmod, UInt8.toNat_add, hnibbleLen]
    simp
    omega
  · rw [hmod, hdiv]
    exact hsnoc
  · rw [hdiv]
    exact hstored.append (Nat.mul_div_le w.length 5) [b]

/-- After its four bits the nibble is the digit of its row. -/
theorem nibble_eq {d : Em4100Decoder} {w : List Bool} (h : Matches d (.reading w))
    (hlen : w.length % 5 = 4) :
    d.nibble = digitByte (digitOf w (w.length / 5)) := by
  obtain ⟨-, -, -, -, -, hcollected, -⟩ := h
  rw [hlen] at hcollected
  exact hcollected.eq_digitByte fun j hj => getLsbD_digitOf _ _ hj

theorem storeNibble_stored {d : Em4100Decoder} {w : List Bool} (h : Matches d (.reading w))
    (hlen : w.length % 5 = 4) (b : Bool) :
    Stored d.storeNibble (digitOf (w ++ [b])) (w.length / 5 + 1) := by
  have hnibble := nibble_eq h hlen
  obtain ⟨-, -, hlt, -, hnibbleCount, -, hstored⟩ := h
  have hdigit : d.nibble = digitByte (digitOf (w ++ [b]) (w.length / 5)) := by
    rw [hnibble, digitOf_append (by omega)]
  exact stored_storeNibble hnibbleCount hdigit (hstored.append (Nat.mul_div_le w.length 5) [b])

/-- The parity bit of one of the ten rows. -/
theorem next_row {d : Em4100Decoder} {w : List Bool} (h : Matches d (.reading w))
    (hlen : w.length % 5 = 4) (hrow : w.length / 5 < 10) (b : Bool) :
    Matches (d.onEvent b).1 (framer.receive (.reading w) b).1 ∧
      (d.onEvent b).2 = (framer.receive (.reading w) b).2 := by
  have hstored := storeNibble_stored h hlen b
  have hnibble := nibble_eq h hlen
  obtain ⟨hstate, hcount, hlt, hnibbleLen, hnibbleCount, hcollected, -⟩ := h
  have hfour : d.nibbleLen = 4 := UInt8.toNat_inj.mp (hnibbleLen.trans hlen)
  have hten : d.nibbleCount ≠ 10 := fun he => by
    rw [he] at hnibbleCount
    simp at hnibbleCount
    omega
  have hnext := UInt8.toNat_add_one hnibbleCount (by omega)
  have heleven : d.nibbleCount + 1 ≠ 11 := fun he => by
    rw [he] at hnext
    simp at hnext
    omega
  have hlen' : (w ++ [b]).length = 5 * (w.length / 5) + 5 := by simp; omega
  have hlast : (w ++ [b]).getD (5 * (w.length / 5) + 4) false = b := by
    have hindex : 5 * (w.length / 5) + 4 = w.length := by omega
    rw [hindex]
    simp
  have hjudge := judge_row hrow hlen'
  rw [parity_row, hlast, digitOf_append (by omega)] at hjudge
  have hparity : decide (parityNibble d.nibble = if b then 1 else 0) =
      !(rowBit (digitOf w (w.length / 5)) 4 ^^ b) := by rw [hnibble, parityNibble_digitByte]
  simp only [onEvent, hstate, if_pos hfour, if_neg hten, if_neg heleven, hparity]
  cases hodd : rowBit (digitOf w (w.length / 5)) 4 ^^ b with
  | false =>
    rw [hodd] at hjudge
    rw [Framer.receive_more (F := framer) hjudge]
    simp only [Bool.not_false, if_true]
    have hdiv : (w ++ [b]).length / 5 = w.length / 5 + 1 := by omega
    refine ⟨⟨rfl, hcount, by omega, ?_, by rw [hdiv]; exact hnext, ?_, ?_⟩, trivial⟩
    · have hindex : (w ++ [b]).length % 5 = 0 := by omega
      rw [hindex]
      rfl
    · have hindex : (w ++ [b]).length % 5 = 0 := by omega
      rw [hindex]
      exact ⟨hcollected.1, fun j hj => absurd hj (by omega)⟩
    · rw [hdiv]
      exact hstored
  | true =>
    rw [hodd] at hjudge
    rw [Framer.receive_reject (F := framer) hjudge]
    simp only [Bool.not_true, Bool.false_eq_true, if_false]
    exact ⟨matches_preamble hcount hcollected.1, trivial⟩

/-- The stop bit. -/
theorem next_stop {d : Em4100Decoder} {w : List Bool} (h : Matches d (.reading w))
    (hlen : w.length = 54) (b : Bool) :
    Matches (d.onEvent b).1 (framer.receive (.reading w) b).1 ∧
      (d.onEvent b).2 = (framer.receive (.reading w) b).2 := by
  have hstored := storeNibble_stored h (by omega) b
  obtain ⟨hstate, hcount, hlt, hnibbleLen, hnibbleCount, hcollected, -⟩ := h
  rw [hlen] at hnibbleLen hnibbleCount hstored
  have hfour : d.nibbleLen = 4 := UInt8.toNat_inj.mp hnibbleLen
  have hten : d.nibbleCount = 10 := UInt8.toNat_inj.mp hnibbleCount
  have hlen' : (w ++ [b]).length = 55 := by simp [hlen]
  have hlast : (w ++ [b]).getD 54 false = b := by simp [← hlen]
  have hjudge : judge (w ++ [b]) =
      if b then .reject
      else if column (digitOf (w ++ [b])) ≠ digitOf (w ++ [b]) 10 then .reject
      else .accept (.ofDigits (digitOf (w ++ [b]))) := by
    unfold judge
    rw [if_neg (by omega), if_neg (by omega), hlast]
  have hcols : colsParity d.storeNibble ≠ d.storeNibble[5] ↔
      column (digitOf (w ++ [b])) ≠ digitOf (w ++ [b]) 10 := by
    rw [colsParity_of_stored hstored, hstored 5 (by decide) (by decide), if_neg (by decide)]
    exact not_congr pair_inj
  have hpreamble : Matches
      { d with state := .preamble, data := d.storeNibble, nibbleLen := 0, nibbleCount := 11 }
      (.hunting 0) := ⟨rfl, by rw [hcount]; rfl, by decide, hcollected.1⟩
  simp only [onEvent, hstate, if_pos hfour, hten, hcols,
    show (10 : UInt8) + 1 = 11 from rfl, if_true, Bool.not_eq_eq_eq_not, Bool.not_true]
  cases b with
  | true =>
    rw [Framer.receive_reject (F := framer) hjudge]
    exact ⟨matches_preamble hcount hcollected.1, rfl⟩
  | false =>
    by_cases hcol : column (digitOf (w ++ [false])) ≠ digitOf (w ++ [false]) 10
    · rw [if_neg (by decide), if_pos hcol] at hjudge
      rw [Framer.receive_reject (F := framer) hjudge]
      simp only [if_pos hcol]
      exact ⟨hpreamble, rfl⟩
    · rw [if_neg (by decide), if_neg hcol] at hjudge
      rw [Framer.receive_accept (F := framer) hjudge]
      simp only [if_neg hcol, eventNewToken_of_stored hstored]
      exact ⟨hpreamble, rfl⟩

theorem next_matches {d : Em4100Decoder} {s : Framer.State} (h : Matches d s) (b : Bool) :
    Matches (d.onEvent b).1 (framer.receive s b).1 ∧
      (d.onEvent b).2 = (framer.receive s b).2 := by
  match s with
  | .hunting k => exact next_preamble h b
  | .reading w =>
    have hlt := h.2.2.1
    rcases Nat.lt_or_ge (w.length % 5) 4 with hmod | hmod
    · have hjudge : judge (w ++ [b]) = .more := judge_partial (by simp; omega)
      rw [Framer.receive_more (F := framer) hjudge]
      exact next_bit h hmod b
    · rcases Nat.lt_or_ge (w.length / 5) 10 with hrow | hrow
      · exact next_row h (by omega) hrow b
      · exact next_stop h (by omega) b

/-- The decoder of the code and the receiver of frames answer every bit alike. -/
theorem refines : Transducer.Simulation machine framer.machine Matches where
  next h b := (next_matches h b).1
  answer h b := (next_matches h b).2

/-! ## Reachable decoders -/

/-- A decoder some time after its construction. -/
def Reachable (d : Em4100Decoder) : Prop := ∃ fresh bits, d = machine.final (reset fresh) bits

/-- A decoder in memory of zeros. -/
def blank : Em4100Decoder := ⟨.preamble, 0, 0, 0, 0, .replicate 6 0⟩

theorem reachable_reset (d : Em4100Decoder) : Reachable d.reset := ⟨d, [], rfl⟩

theorem Reachable.final {d : Em4100Decoder} (h : Reachable d) (bits : List Bool) :
    Reachable (machine.final d bits) := by
  obtain ⟨fresh, old, rfl⟩ := h
  exact ⟨fresh, old ++ bits, (machine.final_append ..).symm⟩

/-- Every reachable decoder is in a state of the receiver. -/
theorem Reachable.matches {d : Em4100Decoder} (h : Reachable d) :
    ∃ s, Matches d s ∧ framer.Coherent s := by
  obtain ⟨fresh, bits, rfl⟩ := h
  exact ⟨_, refines.final (matches_reset fresh) bits, Framer.coherent_final Framer.coherent_zero _⟩

/-- A decoder that waits for a preamble and has seen nothing of it is as good as new. -/
theorem Reachable.matches_hunting {d : Em4100Decoder} (h : Reachable d)
    (hstate : d.state = .preamble) (hcount : d.bitCount = 0) : Matches d (.hunting 0) := by
  obtain ⟨s, hs, -⟩ := h.matches
  match s, hs with
  | .hunting k, hs => exact ⟨hs.1, by rw [hcount]; rfl, by decide, hs.2.2.2⟩
  | .reading w, hs => exact absurd (hs.1.symm.trans hstate) (by decide)

end Em4100Decoder

end RfidTool

import RfidTool.Library.Framing
import RfidTool.Library.Parity
import Mathlib.Tactic.IntervalCases

/-!
# EM4100 frames

What a token looks like on the air: nine ones, ten rows of a hexadecimal digit
(most significant bit first) and its even parity, four column parities and a zero.
The frame is a function of the bit index, so that shifts of the endless repetition
can be computed with; `frame_eq` shows the rows.

`framer` is the receiver this layout asks for. It accepts exactly the bodies of
frames (`accepts_iff`).
-/

namespace RfidTool

open Sequence Parity

/-- `Em4100Decoder::EventNewTokenData`. -/
structure Token where
  versionOrCustomerId : UInt8
  data : UInt32
  deriving DecidableEq, Repr

namespace Token

/-- The ten digits of a token, from the version or customer id on. -/
def digit (t : Token) (i : ℕ) : BitVec 4 :=
  (t.versionOrCustomerId.toBitVec ++ t.data.toBitVec).extractLsb' (36 - 4 * i) 4

/-- The token with the given ten digits. -/
def ofDigits (d : ℕ → BitVec 4) : Token where
  versionOrCustomerId := ⟨d 0 ++ d 1⟩
  data := ⟨d 2 ++ d 3 ++ d 4 ++ d 5 ++ d 6 ++ d 7 ++ d 8 ++ d 9⟩

theorem digit_ofDigits (d : ℕ → BitVec 4) {i : ℕ} (hi : i < 10) : (ofDigits d).digit i = d i := by
  apply BitVec.eq_of_getLsbD_eq
  intro k hk
  unfold digit ofDigits
  simp only [BitVec.getLsbD_extractLsb', BitVec.getLsbD_append]
  interval_cases i <;> interval_cases k <;> simp

theorem ofDigits_digit (t : Token) : ofDigits t.digit = t := by
  obtain ⟨⟨c⟩, ⟨w⟩⟩ := t
  unfold digit ofDigits
  congr 2
  · apply BitVec.eq_of_getLsbD_eq
    intro k hk
    simp only [BitVec.getLsbD_extractLsb', BitVec.getLsbD_append]
    interval_cases k <;> simp
  · apply BitVec.eq_of_getLsbD_eq
    intro k hk
    simp only [BitVec.getLsbD_extractLsb', BitVec.getLsbD_append]
    interval_cases k <;> simp

end Token
/-! ## Layout -/

/-- Bit `k` of a row: the digit from its most significant bit on, then its parity. -/
def rowBit (d : BitVec 4) (k : ℕ) : Bool :=
  if k < 4 then d.getLsbD (3 - k) else parity ((List.range 4).map fun k => d.getLsbD (3 - k))

/-- The column parities of ten digits. -/
def column (d : ℕ → BitVec 4) : BitVec 4 := (List.range 10).foldl (fun acc i => acc ^^^ d i) 0

/-- Bit `j` of the 55 bits behind the preamble. -/
def bodyBit (d : ℕ → BitVec 4) (j : ℕ) : Bool :=
  if j / 5 < 10 then rowBit (d (j / 5)) (j % 5)
  else if j % 5 < 4 then (column d).getLsbD (3 - j % 5) else false

/-- Bit `j` of the 64 bits of a frame. -/
def frameBit (t : Token) (j : ℕ) : Bool := if j < 9 then true else bodyBit t.digit (j - 9)

def body (d : ℕ → BitVec 4) : List Bool := segment (bodyBit d) 0 55

/-- The 64 bits of a token's frame in the order they are sent. -/
def frame (t : Token) : List Bool := segment (frameBit t) 0 64

/-- The endless repetition of a frame. -/
def cyclicFrame (t : Token) (p : ℕ) : Bool := frameBit t (p % 64)

theorem frame_eq_body (t : Token) : frame t = List.replicate 9 true ++ body t.digit := by
  unfold frame body
  rw [show (64 : ℕ) = 9 + 55 from rfl, segment_add]
  rfl

/-- The frame row by row. -/
theorem frame_eq (t : Token) :
    frame t = List.replicate 9 true ++
      ((List.range 10).flatMap fun i => (List.range 5).map (rowBit (t.digit i))) ++
      [(column t.digit).getLsbD 3, (column t.digit).getLsbD 2, (column t.digit).getLsbD 1,
        (column t.digit).getLsbD 0, false] := rfl

@[simp] theorem length_frame (t : Token) : (frame t).length = 64 := length_segment ..

theorem periodic_cyclicFrame (t : Token) : Function.Periodic (cyclicFrame t) 64 := fun p => by
  simp [cyclicFrame]

theorem cyclicFrame_of_lt (t : Token) {p : ℕ} (h : p < 64) : cyclicFrame t p = frameBit t p := by
  rw [cyclicFrame, Nat.mod_eq_of_lt h]

theorem getLsbD_column (d : ℕ → BitVec 4) (k : ℕ) :
    (column d).getLsbD k = parity ((List.range 10).map fun i => (d i).getLsbD k) := by
  simp [column, List.range_succ, parity]

/-! ## The receiver -/

/-- The digit with the given bits, most significant first. -/
def nibble (a b c d : Bool) : BitVec 4 :=
  BitVec.ofBool a ++ BitVec.ofBool b ++ BitVec.ofBool c ++ BitVec.ofBool d

/-- Digit `i` of a received body: the first four bits of its row. -/
def digitOf (w : List Bool) (i : ℕ) : BitVec 4 :=
  nibble (w.getD (5 * i) false) (w.getD (5 * i + 1) false) (w.getD (5 * i + 2) false)
    (w.getD (5 * i + 3) false)

/-- Every complete row must be even; the last row holds the column parities and,
in place of a parity, the stop bit. -/
def judge (w : List Bool) : Verdict Token :=
  if w.length % 5 ≠ 0 then .more
  else if w.length < 55 then if parity (w.drop (w.length - 5)) then .reject else .more
  else if w.getD 54 false then .reject
  else if column (digitOf w) ≠ digitOf w 10 then .reject
  else .accept (.ofDigits (digitOf w))

/-- The receiver of EM4100 frames. -/
def framer : Framer Token where
  preamble := 9
  preamble_pos := by decide
  judge := judge

@[simp] theorem framer_preamble : framer.preamble = 9 := rfl

@[simp] theorem framer_judge (w : List Bool) : framer.judge w = judge w := rfl

theorem getLsbD_nibble (a b c d : Bool) {k : ℕ} (hk : k < 4) :
    (nibble a b c d).getLsbD (3 - k) = [a, b, c, d].getD k false := by
  interval_cases k <;> revert a b c d <;> decide

theorem getLsbD_digitOf (w : List Bool) (i : ℕ) {k : ℕ} (hk : k < 4) :
    (digitOf w i).getLsbD (3 - k) = w.getD (5 * i + k) false := by
  rw [digitOf, getLsbD_nibble _ _ _ _ hk]
  interval_cases k <;> rfl

/-! ## Accepted bodies are the bodies of frames -/

theorem column_congr {d e : ℕ → BitVec 4} (h : ∀ i < 10, d i = e i) : column d = column e := by
  simp [column, List.range_succ, h]

theorem body_congr {d e : ℕ → BitVec 4} (h : ∀ i < 10, d i = e i) : body d = body e := by
  refine segment_congr fun j _ => ?_
  unfold bodyBit
  split
  · rw [h _ ‹_›]
  · rw [column_congr h]

/-- A received body as a segment of its own bits. -/
theorem eq_segment_getD (w : List Bool) : w = segment (fun j => w.getD j false) 0 w.length :=
  eq_segment fun i hi => by simp [hi]

theorem row_eq_segment {w : List Bool} {i : ℕ} (h : 5 * i + 5 ≤ w.length) :
    (w.take (5 * i + 5)).drop (5 * i) = segment (fun j => w.getD j false) (5 * i) 5 := by
  conv_lhs => rw [eq_segment_getD w]
  rw [take_segment _ _ h, drop_segment, Nat.zero_add]

/-- A complete row is even exactly when its last bit is the parity of its digit. -/
theorem parity_row (w : List Bool) (i : ℕ) :
    parity (segment (fun j => w.getD j false) (5 * i) 5) =
      (rowBit (digitOf w i) 4 ^^ w.getD (5 * i + 4) false) := by
  rw [segment_snoc, parity_append, segment_eq_map, rowBit, if_neg (by decide)]
  congr 2
  · exact List.map_congr_left fun k hk => (getLsbD_digitOf w i (List.mem_range.mp hk)).symm
  · simp

/-- A body of even rows, even columns and stop bit zero is made of its digits. -/
theorem eq_body {w : List Bool} (hlen : w.length = 55)
    (hrow : ∀ i < 10, parity (segment (fun j => w.getD j false) (5 * i) 5) = false)
    (hcol : column (digitOf w) = digitOf w 10) (hstop : w.getD 54 false = false) :
    w = body (digitOf w) := by
  conv_lhs => rw [eq_segment_getD w, hlen]
  refine segment_congr fun j hj => ?_
  simp only [Nat.zero_add]
  have hdiv : 5 * (j / 5) + j % 5 = j := Nat.div_add_mod j 5
  unfold bodyBit
  split
  case isTrue hi =>
    rcases Nat.lt_or_ge (j % 5) 4 with hk | hk
    · rw [rowBit, if_pos hk, getLsbD_digitOf w _ hk, hdiv]
    · have hlast : j % 5 = 4 := by omega
      have := hrow (j / 5) hi
      rw [parity_row, ← hlast, hdiv] at this
      have heq : rowBit (digitOf w (j / 5)) (j % 5) = w.getD j false := by simpa using this
      exact heq.symm
  case isFalse hi =>
    have hten : j / 5 = 10 := by omega
    split
    case isTrue hk => rw [hcol, getLsbD_digitOf w _ hk, ← hten, hdiv]
    case isFalse hk => rwa [show j = 54 by omega]

/-- A row that has been received completely stays as it is. -/
theorem row_take (w : List Bool) {i n : ℕ} (h : 5 * i + 5 ≤ n) :
    segment (fun j => (w.take n).getD j false) (5 * i) 5 =
      segment (fun j => w.getD j false) (5 * i) 5 :=
  segment_congr fun k hk => by
    simp [List.getElem?_take_of_lt (show 5 * i + k < n by omega)]

theorem judge_accept {w : List Bool} {t : Token} (h : judge w = .accept t) :
    55 ≤ w.length ∧ w.getD 54 false = false ∧ column (digitOf w) = digitOf w 10 ∧
      .ofDigits (digitOf w) = t := by
  unfold judge at h
  split_ifs at h with h1 h2 h3 h4 h5
  exact ⟨by omega, by simpa using h4, by simpa using h5, by simpa using h⟩

/-- A full body is never asked to go on. -/
theorem judge_full {w : List Bool} (h : w.length = 55) : judge w ≠ .more := by
  unfold judge
  rw [if_neg (by omega), if_neg (by omega)]
  split_ifs <;> simp

theorem judge_row {w : List Bool} {i : ℕ} (hi : i < 10) (hlen : w.length = 5 * i + 5) :
    judge w = if parity (segment (fun j => w.getD j false) (5 * i) 5) then .reject else .more := by
  have hrow := row_eq_segment (w := w) (i := i) hlen.ge
  rw [← hlen, List.take_length] at hrow
  unfold judge
  have hindex : w.length - 5 = 5 * i := by omega
  rw [if_neg (by omega), if_pos (by omega), hindex, hrow]

theorem judge_partial {w : List Bool} (h : w.length % 5 ≠ 0) : judge w = .more := by
  unfold judge
  rw [if_pos h]

/-! The bodies of frames. -/

@[simp] theorem length_body (d : ℕ → BitVec 4) : (body d).length = 55 := length_segment ..

theorem getD_body (d : ℕ → BitVec 4) {j : ℕ} (hj : j < 55) :
    (body d).getD j false = bodyBit d j := by
  simp [body, hj]

theorem digitOf_body (d : ℕ → BitVec 4) {i : ℕ} (hi : i < 10) : digitOf (body d) i = d i := by
  apply BitVec.eq_of_getLsbD_eq
  intro k hk
  have := getLsbD_digitOf (body d) i (k := 3 - k) (by omega)
  have hindex : 3 - (3 - k) = k := by omega
  rw [hindex, getD_body d (by omega)] at this
  rw [this, bodyBit, if_pos (by omega), rowBit, if_pos (by omega)]
  congr 1
  · congr 1
    omega
  · omega

theorem digitOf_body_ten (d : ℕ → BitVec 4) : digitOf (body d) 10 = column d := by
  apply BitVec.eq_of_getLsbD_eq
  intro k hk
  have := getLsbD_digitOf (body d) 10 (k := 3 - k) (by omega)
  have hindex : 3 - (3 - k) = k := by omega
  rw [hindex, getD_body d (by omega)] at this
  rw [this, bodyBit, if_neg (by omega), if_pos (by omega)]
  congr 1
  omega

/-- Every row of a frame is even. -/
theorem parity_bodyBit (d : ℕ → BitVec 4) {i : ℕ} (hi : i < 10) :
    parity (segment (bodyBit d) (5 * i) 5) = false := by
  have heven := parity_row (body d) i
  have hindex : (5 * i + 4) / 5 = i := by omega
  have hindex' : (5 * i + 4) % 5 = 4 := by omega
  rw [digitOf_body d hi, getD_body d (by omega), bodyBit, if_pos (by omega), hindex, hindex',
    Bool.xor_self] at heven
  rw [← heven]
  congr 1
  exact segment_congr fun k hk => (getD_body d (by omega)).symm

theorem open_body (d : ℕ → BitVec 4) : framer.Open (body d) := by
  intro n hn hlt
  rw [length_body] at hlt
  have hlen : ((body d).take n).length = n := by simp; omega
  by_cases h5 : n % 5 = 0
  · obtain ⟨i, rfl⟩ : ∃ i, n = 5 * i + 5 := ⟨n / 5 - 1, by omega⟩
    have heven : parity (segment (fun j => (body d).getD j false) (5 * i) 5) = false :=
      (congrArg parity (segment_congr fun k hk => getD_body d (by omega))).trans
        (parity_bodyBit d (by omega))
    rw [framer_judge, judge_row (by omega) hlen, row_take _ le_rfl, heven]
    rfl
  · rw [framer_judge, judge_partial (by rwa [hlen])]

theorem accepts_body (t : Token) : framer.Accepts (body t.digit) t := by
  refine ⟨open_body t.digit, ?_⟩
  have hcol : column (digitOf (body t.digit)) = digitOf (body t.digit) 10 := by
    rw [digitOf_body_ten]
    exact column_congr fun i hi => digitOf_body _ hi
  have htok : Token.ofDigits (digitOf (body t.digit)) = t := by
    conv_rhs => rw [← t.ofDigits_digit]
    simp [Token.ofDigits, digitOf_body]
  have hstop : (body t.digit).getD 54 false = false := getD_body _ (by decide)
  rw [framer_judge, judge, if_neg (by simp), if_neg (by simp), hstop, if_neg (by simp),
    if_neg (not_not.mpr hcol), htok]

/-- A body is accepted as a token exactly when it is the body of the token's frame. -/
theorem accepts_iff {w : List Bool} {t : Token} : framer.Accepts w t ↔ w = body t.digit := by
  constructor
  · rintro ⟨hopen, hacc⟩
    obtain ⟨hlen, hstop, hcol, rfl⟩ := judge_accept hacc
    have hexact : w.length = 55 := by
      by_contra hne
      exact judge_full (w := w.take 55) (by simp; omega)
        (hopen 55 (by decide) (by omega))
    have hrow : ∀ i < 10, parity (segment (fun j => w.getD j false) (5 * i) 5) = false := by
      intro i hi
      have hmore := hopen (5 * i + 5) (by omega) (by omega)
      rw [framer_judge, judge_row hi (by simp; omega), row_take _ le_rfl] at hmore
      split at hmore
      case isTrue => cases hmore
      case isFalse h => exact Bool.eq_false_of_not_eq_true h
    rw [← body_congr fun i hi => (Token.digit_ofDigits (digitOf w) hi).symm]
    exact eq_body hexact hrow hcol hstop
  · rintro rfl
    exact accepts_body t

/-! ## Ones in a frame -/

theorem frameBit_body (t : Token) (j : ℕ) : frameBit t (9 + j) = bodyBit t.digit j := by
  rw [frameBit, if_neg (by omega), Nat.add_sub_cancel_left]

theorem exists_false_row (t : Token) {i : ℕ} (hi : i < 11) :
    ∃ k < 5, bodyBit t.digit (5 * i + k) = false := by
  rcases Nat.lt_or_ge i 10 with hlt | hge
  · obtain ⟨b, hb, hfalse⟩ := exists_false_of_even (parity_bodyBit t.digit hlt) (by simp)
    obtain ⟨k, hk, rfl⟩ := mem_segment.mp hb
    exact ⟨k, hk, hfalse⟩
  · obtain rfl : i = 10 := by omega
    exact ⟨4, by decide, rfl⟩

/-- Nine bits in a row behind the preamble contain a whole row, so they are not all ones. -/
theorem exists_false_window (t : Token) {p : ℕ} (hp : 9 ≤ p) (hlt : p + 9 ≤ 64) :
    ∃ k < 9, frameBit t (p + k) = false := by
  obtain ⟨k, hk, hfalse⟩ := exists_false_row t (i := (p - 9 + 4) / 5) (by omega)
  refine ⟨5 * ((p - 9 + 4) / 5) + k - (p - 9), by omega, ?_⟩
  rw [← hfalse, ← frameBit_body]
  congr 1
  omega

theorem cyclicFrame_add (t : Token) (p : ℕ) : cyclicFrame t (64 + p) = cyclicFrame t p := by
  rw [Nat.add_comm]
  exact periodic_cyclicFrame t p

end RfidTool

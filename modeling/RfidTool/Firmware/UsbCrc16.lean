import RfidTool.Library.Crc
import RfidTool.Library.Loop

/-!
# The checksum of a packet

The two variants of `usbCrc16` in `usbdrvasm.S`, instruction by instruction. The one that is
built keeps the complement of the register, counts its eight rounds with a byte that wraps
around, and relies on a carry that is set wherever it is shifted in. The other one replaces
the eight rounds by a table that it computes from the parity of a byte. Both return the
complement of the remainder `crc16`.
-/

namespace RfidTool

namespace UsbCrc16

/-- `0xa001` -/
def poly : BitVec 16 := 0xa001#16

/-- The bits of the bytes, in the order in which they are sent. -/
def bits (data : List UInt8) : List Bool := data.flatMap fun b => Crc.lowBits 8 b.toBitVec

/-- The checksum of USB. -/
def crc16 (data : List UInt8) : BitVec 16 := ~~~Crc.remainder poly 0xffff#16 (bits data)

/-- The bytes that a pointer and a length select. -/
def memory (mem : ℕ → UInt8) (ptr n : ℕ) : List UInt8 := (List.range n).map fun i => mem (ptr + i)

/-- `ror`: the carry goes in at the top, and the lowest bit goes out. -/
def ror (carry : Bool) (r : UInt8) : UInt8 × Bool :=
  (if carry then r >>> 1 ||| 0x80 else r >>> 1, decide (r &&& 1 ≠ 0))

/-- A pair of registers. -/
def word (h l : UInt8) : BitVec 16 := h.toBitVec ++ l.toBitVec

/-! ## The variant that is built -/

inductive Label where
  | byteLoop
  | bitLoop
  | loopEntry
  deriving DecidableEq, Repr

structure Registers where
  label : Label
  ptr : ℕ
  argLen : UInt8
  resCrcL : UInt8
  resCrcH : UInt8
  byte : UInt8
  bitCnt : UInt8
  carry : Bool
  deriving DecidableEq, Repr

/-- The instructions from a label to the next. -/
def step (mem : ℕ → UInt8) (r : Registers) : Registers ⊕ BitVec 16 :=
  match r.label with
  | .byteLoop =>
    let byte := mem r.ptr
    .inl { r with
      label := .bitLoop, ptr := r.ptr + 1, byte, resCrcL := r.resCrcL ^^^ byte }
  | .bitLoop =>
    let (resCrcH, carry) := ror r.carry r.resCrcH
    let (resCrcL, carry) := ror carry r.resCrcL
    let resCrcL := if carry then resCrcL else resCrcL ^^^ 0x01
    let resCrcH := if carry then resCrcH else resCrcH ^^^ 0xa0
    -- `subi bitCnt, 224`
    let carry := decide (r.bitCnt < 224)
    .inl { r with
      label := if carry then .bitLoop else .loopEntry, resCrcL, resCrcH,
      bitCnt := r.bitCnt - 224, carry }
  | .loopEntry =>
    -- `subi argLen, -1`
    let carry := decide (r.argLen < 255)
    if carry then .inl { r with label := .byteLoop, argLen := r.argLen + 1, carry }
    else .inr (word r.resCrcH r.resCrcL)

/-- `usbCrc16` up to the jump to `usbCrcLoopEntry`. -/
def start (argPtr : ℕ) (argLen : UInt8) : Registers where
  label := .loopEntry
  ptr := argPtr
  argLen := ~~~argLen
  resCrcL := 0
  resCrcH := 0
  byte := 0
  bitCnt := 0
  carry := true

/-- What the registers stand for. -/
def Registers.register (r : Registers) : BitVec 16 := ~~~word r.resCrcH r.resCrcL

/-! ## The fast variant -/

structure FastRegisters where
  /-- The next instruction is `usbCrc16LoopTest`. -/
  loopTest : Bool
  ptr : ℕ
  argLen : UInt8
  resCrcL : UInt8
  resCrcH : UInt8
  deriving DecidableEq, Repr

/-- `swap` -/
def swap (r : UInt8) : UInt8 := r <<< 4 ||| r >>> 4

/-- From `mov scratch, byte` on: the new value of `resCrcL` for a cleared `resCrcH`, and of
`resCrcH`. -/
def table (byte : UInt8) : UInt8 × UInt8 :=
  let scratch := byte
  let byte := swap byte ^^^ scratch
  let resCrcL := byte
  let byte := byte >>> 1 >>> 1 ^^^ resCrcL
  let byte := (byte + 1) &&& 2
  let carry := decide (0 < byte)
  let (scratch, carry) := ror carry scratch
  let (byte, _) := ror carry byte
  let resCrcL := byte
  let resCrcH := scratch
  let (scratch, carry) := ror false scratch
  let (byte, _) := ror carry byte
  (resCrcL ^^^ byte, resCrcH ^^^ scratch)

def fastStep (mem : ℕ → UInt8) (r : FastRegisters) : FastRegisters ⊕ BitVec 16 :=
  if r.loopTest then
    if 1 ≤ r.argLen then .inl { r with loopTest := false, argLen := r.argLen - 1 }
    else .inr (word (~~~r.resCrcH) (~~~r.resCrcL))
  else
    let (resCrcL, resCrcH) := table (mem r.ptr ^^^ r.resCrcL)
    .inl { r with loopTest := true, ptr := r.ptr + 1, resCrcL := resCrcL ^^^ r.resCrcH, resCrcH }

def fastStart (argPtr : ℕ) (argLen : UInt8) : FastRegisters where
  loopTest := true
  ptr := argPtr
  argLen := argLen
  resCrcL := 0xff
  resCrcH := 0xff

/-! ## Words and bits -/

theorem getLsbD_word (h l : UInt8) (i : ℕ) :
    (word h l).getLsbD i = if i < 8 then l.toBitVec.getLsbD i else h.toBitVec.getLsbD (i - 8) :=
  BitVec.getLsbD_append

theorem word_xor (h l h' l' : UInt8) :
    word (h ^^^ h') (l ^^^ l') = word h l ^^^ word h' l' := by
  apply BitVec.eq_of_getLsbD_eq
  intro i _
  simp only [getLsbD_word, BitVec.getLsbD_xor, UInt8.toBitVec_xor]
  split_ifs <;> rfl

theorem word_not (h l : UInt8) : word (~~~h) (~~~l) = ~~~word h l := by
  apply BitVec.eq_of_getLsbD_eq
  intro i hi
  simp only [getLsbD_word, BitVec.getLsbD_not, UInt8.toBitVec_not]
  split_ifs with hlow
  · simp [hi, hlow]
  · simp [hi, show i - 8 < 8 by omega]

/-- The lowest bit goes out. -/
theorem ror_snd (carry : Bool) (r : UInt8) : (ror carry r).2 = r.toBitVec.getLsbD 0 := by
  cases r with
  | ofBitVec r =>
    revert carry r
    decide

/-- The carry goes in. -/
theorem getLsbD_ror (carry : Bool) (r : UInt8) {i : ℕ} (hi : i < 8) :
    (ror carry r).1.toBitVec.getLsbD i = if i = 7 then carry else r.toBitVec.getLsbD (i + 1) := by
  cases r with
  | ofBitVec r =>
    have hall : ∀ i < 8, ∀ (carry : Bool) (r : BitVec 8),
        (ror carry ⟨r⟩).1.toBitVec.getLsbD i = if i = 7 then carry else r.getLsbD (i + 1) := by
      decide
    exact hall i hi carry r

/-- A set bit that goes into the complement is a cleared one that goes into the register. -/
theorem not_word_ror (h l : UInt8) :
    ~~~word (ror true h).1 (ror (ror true h).2 l).1 = (~~~word h l) >>> 1 := by
  apply BitVec.eq_of_getLsbD_eq
  intro i hi
  rw [BitVec.getLsbD_ushiftRight, BitVec.getLsbD_not, BitVec.getLsbD_not, getLsbD_word,
    getLsbD_word, ror_snd]
  rcases Nat.lt_trichotomy i 7 with hlow | rfl | hhigh
  · rw [if_pos (by omega), if_pos (by omega), getLsbD_ror _ _ (by omega), if_neg (by omega),
      Nat.add_comm 1 i]
    simp [hi, show i + 1 < 16 by omega]
  · rw [if_pos (by omega), if_neg (by omega), getLsbD_ror _ _ (by omega), if_pos rfl]
    simp
  · rw [if_neg (by omega), if_neg (by omega), getLsbD_ror _ _ (by omega)]
    split_ifs with htop
    · simp [show i = 15 by omega]
    · simp [hi, show 1 + i < 16 by omega, show i - 8 + 1 = 1 + i - 8 by omega]

/-! ## The bit loop -/

/-- A round of the bit loop is a step of the division. -/
theorem step_bitLoop (mem : ℕ → UInt8) {r : Registers} (hlabel : r.label = .bitLoop)
    (hcarry : r.carry = true) :
    ∃ resCrcH resCrcL,
      ~~~word resCrcH resCrcL = Crc.shift poly r.register ∧
      step mem r = .inl { r with
        label := if r.bitCnt < 224 then .bitLoop else .loopEntry, resCrcL, resCrcH,
        bitCnt := r.bitCnt - 224, carry := decide (r.bitCnt < 224) } := by
  have hlow : r.register.getLsbD 0 = !(ror (ror true r.resCrcH).2 r.resCrcL).2 := by
    rw [Registers.register, BitVec.getLsbD_not, getLsbD_word, ror_snd]
    simp
  have hshift : ~~~word (ror true r.resCrcH).1 (ror (ror true r.resCrcH).2 r.resCrcL).1 =
      r.register >>> 1 := not_word_ror _ _
  rw [step, hlabel, hcarry]
  dsimp only
  cases hout : (ror (ror true r.resCrcH).2 r.resCrcL).2
  · refine ⟨(ror true r.resCrcH).1 ^^^ 0xa0, (ror (ror true r.resCrcH).2 r.resCrcL).1 ^^^ 0x01, ?_,
      by simp only [Bool.false_eq_true, if_false, decide_eq_true_eq]⟩
    have hpoly : word 0xa0 0x01 = poly := rfl
    rw [word_xor, hpoly, BitVec.not_xor_left, hshift, Crc.shift, hlow, hout]
    rfl
  · refine ⟨(ror true r.resCrcH).1, (ror (ror true r.resCrcH).2 r.resCrcL).1, ?_,
      by simp only [if_true, decide_eq_true_eq]⟩
    rw [hshift, Crc.shift, hlow, hout]
    rfl

/-- The rounds that are left with `bitCnt` at `-32 * n`. -/
theorem returns_bitLoop {mem : ℕ → UInt8} {v : BitVec 16} {n : ℕ} (hn : n < 8) {r : Registers}
    (hlabel : r.label = .bitLoop) (hcarry : r.carry = true)
    (hbitCnt : r.bitCnt = UInt8.ofNat (32 * (7 - n)))
    (h : ∀ t : Registers, t.label = .loopEntry → t.bitCnt = 0 → t.ptr = r.ptr →
      t.argLen = r.argLen → t.register = Crc.shifts poly (n + 1) r.register →
      Loop.Returns (step mem) t v) : Loop.Returns (step mem) r v := by
  induction n generalizing r with
  | zero =>
    obtain ⟨resCrcH, resCrcL, hregister, hstep⟩ := step_bitLoop mem hlabel hcarry
    rw [hbitCnt] at hstep
    exact .of_inl hstep (h _ rfl rfl rfl rfl hregister)
  | succ n ih =>
    obtain ⟨resCrcH, resCrcL, hregister, hstep⟩ := step_bitLoop mem hlabel hcarry
    have hcount : ∀ n < 7, UInt8.ofNat (32 * (7 - (n + 1))) < 224 ∧
        UInt8.ofNat (32 * (7 - (n + 1))) - 224 = UInt8.ofNat (32 * (7 - n)) := by
      decide
    obtain ⟨hlt, hnext⟩ := hcount n (by omega)
    rw [← hbitCnt] at hlt hnext
    rw [if_pos hlt, decide_eq_true hlt, hnext] at hstep
    refine .of_inl hstep (ih (by omega) rfl rfl rfl ?_)
    intro t ht hcnt hptr hlen ht'
    refine h t ht hcnt hptr hlen (ht'.trans ?_)
    exact congrArg (Crc.shifts poly (n + 1)) hregister

/-! ## The byte loop -/

theorem length_memory (mem : ℕ → UInt8) (ptr n : ℕ) : (memory mem ptr n).length = n := by
  simp [memory]

theorem memory_succ (mem : ℕ → UInt8) (ptr n : ℕ) :
    memory mem ptr (n + 1) = mem ptr :: memory mem (ptr + 1) n := by
  unfold memory
  rw [List.range_succ_eq_map, List.map_cons, List.map_map]
  refine congrArg _ (List.map_congr_left ?_)
  intro i _
  rw [Function.comp_apply, Nat.add_assoc, Nat.add_comm 1 i]

/-- A byte is fed at once. -/
theorem remainder_bits_cons (c : BitVec 16) (b : UInt8) (data : List UInt8) :
    Crc.remainder poly c (bits (b :: data)) =
      Crc.remainder poly (Crc.shifts poly 8 (c ^^^ word 0 b)) (bits data) := by
  have hlow : Crc.lowBits 8 b.toBitVec = Crc.lowBits 8 (word 0 b) := by
    refine List.map_congr_left ?_
    intro i hi
    rw [getLsbD_word, if_pos (List.mem_range.mp hi)]
  have hhigh : word 0 b >>> 8 = 0 := by
    apply BitVec.eq_of_getLsbD_eq
    intro i _
    rw [BitVec.getLsbD_ushiftRight, getLsbD_word, if_neg (by omega)]
    simp
  rw [bits, List.flatMap_cons, Crc.remainder_append, hlow, Crc.remainder_lowBits poly 8 c _ hhigh]
  rfl

/-- From `usbCrcLoopEntry` on, with `n` bytes left. -/
theorem returns_loopEntry (mem : ℕ → UInt8) {n : ℕ} (hn : n < 256) {r : Registers}
    (hlabel : r.label = .loopEntry) (hbitCnt : r.bitCnt = 0)
    (hargLen : r.argLen = UInt8.ofNat (255 - n)) :
    Loop.Returns (step mem) r
      (~~~Crc.remainder poly r.register (bits (memory mem r.ptr n))) := by
  induction n generalizing r with
  | zero =>
    refine Loop.returns_of_inr ?_
    rw [step, hlabel, hargLen]
    simp [memory, bits, Registers.register]
  | succ n ih =>
    have hcount : ∀ n < 255, UInt8.ofNat (255 - (n + 1)) < 255 ∧
        UInt8.ofNat (255 - (n + 1)) + 1 = UInt8.ofNat (255 - n) := by
      decide +kernel
    obtain ⟨hlt, hnext⟩ := hcount n (by omega)
    rw [← hargLen] at hlt hnext
    have hentry : step mem r = .inl { r with
        label := .byteLoop, argLen := UInt8.ofNat (255 - n), carry := true } := by
      rw [step, hlabel, ← hnext]
      simp [hlt]
    refine .of_inl hentry (.of_inl rfl (returns_bitLoop (n := 7) (by decide) rfl rfl hbitCnt ?_))
    intro t ht hcnt hptr hlen hregister
    have hfeed : t.register = Crc.shifts poly 8 (r.register ^^^ word 0 (mem r.ptr)) := by
      have hzero : word (r.resCrcH ^^^ 0) (r.resCrcL ^^^ mem r.ptr) =
          word r.resCrcH r.resCrcL ^^^ word 0 (mem r.ptr) := word_xor _ _ _ _
      rw [UInt8.xor_zero] at hzero
      rw [hregister, Registers.register, Registers.register, hzero, BitVec.not_xor_left]
    replace hptr : t.ptr = r.ptr + 1 := hptr
    rw [memory_succ, remainder_bits_cons, ← hfeed, ← hptr]
    exact ih (by omega) ht hcnt hlen

/-! ## The fast variant -/

/-- The table holds eight steps of the division. -/
theorem word_table (x : UInt8) : word (table x).2 (table x).1 = Crc.shifts poly 8 (word 0 x) := by
  cases x with
  | ofBitVec x =>
    revert x
    decide +kernel

/-- A byte by the table. -/
theorem shifts_table (h l b : UInt8) :
    Crc.shifts poly 8 (word h l ^^^ word 0 b) =
      word (table (b ^^^ l)).2 ((table (b ^^^ l)).1 ^^^ h) := by
  have hlow : ∀ i < 8, (word h 0).getLsbD i = false := by
    intro i hi
    rw [getLsbD_word, if_pos hi]
    exact BitVec.getLsbD_zero
  have hhigh : word h 0 >>> 8 = word 0 h := by
    apply BitVec.eq_of_getLsbD_eq
    intro i hi
    rw [BitVec.getLsbD_ushiftRight, getLsbD_word, getLsbD_word, if_neg (by omega)]
    split_ifs with hlt
    · rw [Nat.add_sub_cancel_left]
    · rw [Nat.add_sub_cancel_left, BitVec.getLsbD_of_ge _ _ (by omega)]
      exact BitVec.getLsbD_zero.symm
  have hsplit : word h l ^^^ word 0 b = word 0 (b ^^^ l) ^^^ word h 0 := by
    rw [← word_xor, ← word_xor, UInt8.xor_zero, UInt8.zero_xor, UInt8.xor_zero, UInt8.xor_comm l]
  rw [hsplit, Crc.shifts_xor, Crc.shifts_of_low_zero poly hlow, hhigh, ← word_table, ← word_xor,
    UInt8.xor_zero]

/-- From `usbCrc16LoopTest` on, with `n` bytes left. -/
theorem returns_loopTest (mem : ℕ → UInt8) {n : ℕ} (hn : n < 256) {r : FastRegisters}
    (hloopTest : r.loopTest = true) (hargLen : r.argLen = UInt8.ofNat n) :
    Loop.Returns (fastStep mem) r
      (~~~Crc.remainder poly (word r.resCrcH r.resCrcL) (bits (memory mem r.ptr n))) := by
  induction n generalizing r with
  | zero =>
    refine Loop.returns_of_inr ?_
    rw [fastStep, if_pos hloopTest, hargLen, if_neg (by decide), word_not]
    simp [memory, bits]
  | succ n ih =>
    have hcount : ∀ n < 255, 1 ≤ UInt8.ofNat (n + 1) ∧
        UInt8.ofNat (n + 1) - 1 = UInt8.ofNat n := by
      decide +kernel
    obtain ⟨hle, hnext⟩ := hcount n (by omega)
    rw [← hargLen] at hle hnext
    have htest : fastStep mem r = .inl { r with loopTest := false, argLen := UInt8.ofNat n } := by
      rw [fastStep, if_pos hloopTest, if_pos hle, hnext]
    refine .of_inl htest (.of_inl rfl ?_)
    rw [memory_succ, remainder_bits_cons, shifts_table]
    exact ih (by omega) rfl rfl

/-! ## Both variants -/

/-- The variant that is built, from its start on. -/
theorem returns_start (mem : ℕ → UInt8) (argPtr : ℕ) (argLen : UInt8) :
    Loop.Returns (step mem) (start argPtr argLen) (crc16 (memory mem argPtr argLen.toNat)) := by
  have hnot : ~~~argLen = UInt8.ofNat (255 - argLen.toNat) := by
    cases argLen with
    | ofBitVec x =>
      revert x
      decide
  have hslow := returns_loopEntry mem (r := start argPtr argLen) argLen.toNat_lt rfl rfl hnot
  have hregister : ~~~word 0 0 = 0xffff#16 := by decide
  rw [Registers.register, start, hregister] at hslow
  exact hslow

/-- The variant with the table, from its start on. -/
theorem returns_fastStart (mem : ℕ → UInt8) (argPtr : ℕ) (argLen : UInt8) :
    Loop.Returns (fastStep mem) (fastStart argPtr argLen)
      (crc16 (memory mem argPtr argLen.toNat)) := by
  have hfast := returns_loopTest mem (r := fastStart argPtr argLen) argLen.toNat_lt rfl
    (UInt8.ofNat_toNat).symm
  have hword : word 0xff 0xff = 0xffff#16 := by decide
  rw [fastStart, hword] at hfast
  exact hfast

/-- Both variants return the checksum of the bytes. -/
theorem usbCrc16_returns (mem : ℕ → UInt8) (argPtr : ℕ) (argLen : UInt8) :
    Loop.Returns (step mem) (start argPtr argLen) (crc16 (memory mem argPtr argLen.toNat)) ∧
      Loop.Returns (fastStep mem) (fastStart argPtr argLen)
        (crc16 (memory mem argPtr argLen.toNat)) :=
  ⟨returns_start mem argPtr argLen, returns_fastStart mem argPtr argLen⟩

/-! ## The residue -/

/-- `usbCrc16Append` -/
def usbCrc16Append (data : List UInt8) : List UInt8 :=
  data ++ [⟨(crc16 data).setWidth 8⟩, ⟨(crc16 data >>> 8).setWidth 8⟩]

theorem length_usbCrc16Append (data : List UInt8) :
    (usbCrc16Append data).length = data.length + 2 := by
  simp [usbCrc16Append]

theorem bits_append (xs ys : List UInt8) : bits (xs ++ ys) = bits xs ++ bits ys :=
  List.flatMap_append

/-- The two bytes of a checksum. -/
theorem bits_word (c : BitVec 16) :
    bits [⟨c.setWidth 8⟩, ⟨(c >>> 8).setWidth 8⟩] = Crc.lowBits 16 c := by
  have hlow : Crc.lowBits 8 (c.setWidth 8) = Crc.lowBits 8 c := by
    refine List.map_congr_left ?_
    intro i hi
    rw [BitVec.getLsbD_setWidth, decide_eq_true (List.mem_range.mp hi), Bool.true_and]
  have hhigh : Crc.lowBits 8 ((c >>> 8).setWidth 8) = Crc.lowBits 8 (c >>> 8) := by
    refine List.map_congr_left ?_
    intro i hi
    rw [BitVec.getLsbD_setWidth, decide_eq_true (List.mem_range.mp hi), Bool.true_and]
  change Crc.lowBits 8 (c.setWidth 8) ++ (Crc.lowBits 8 ((c >>> 8).setWidth 8) ++ []) = _
  rw [hlow, hhigh, List.append_nil]
  exact Crc.lowBits_append 8 8 c

/-- The checksum of a packet with its checksum does not depend on the packet. -/
theorem crc16_usbCrc16Append (data : List UInt8) : crc16 (usbCrc16Append data) = 0x4ffe#16 := by
  have hnot : crc16 data = Crc.remainder poly 0xffff#16 (bits data) ^^^ 0xffff#16 := by
    rw [crc16, BitVec.xor_comm]
    exact (BitVec.allOnes_xor (x := Crc.remainder poly 0xffff#16 (bits data))).symm
  rw [usbCrc16Append, crc16, bits_append, bits_word, hnot, Crc.remainder_append_remainder]
  decide +kernel

/-- Over a packet with its checksum both variants return 0x4ffe, and they do not over what a
burst of sixteen bits at most has made of it. -/
theorem usbCrc16Append_residue (mem : ℕ → UInt8) (argPtr : ℕ) (argLen : UInt8)
    (data : List UInt8) :
    ∃ crc, Loop.Returns (step mem) (start argPtr argLen) crc ∧
      Loop.Returns (fastStep mem) (fastStart argPtr argLen) crc ∧
      (memory mem argPtr argLen.toNat = usbCrc16Append data → crc = 0x4ffe#16) ∧
      (Crc.Burst 16 (bits (usbCrc16Append data)) (bits (memory mem argPtr argLen.toNat)) →
        crc ≠ 0x4ffe#16) := by
  refine ⟨_, returns_start mem argPtr argLen, returns_fastStart mem argPtr argLen, ?_, ?_⟩
  · intro hpacket
    rw [hpacket, crc16_usbCrc16Append]
  · intro hburst hresidue
    have heq := hresidue.trans (crc16_usbCrc16Append data).symm
    rw [crc16, crc16, BitVec.not_inj] at heq
    exact Crc.remainder_ne_of_burst rfl 0xffff#16 hburst heq

end UsbCrc16

end RfidTool

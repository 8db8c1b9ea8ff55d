import RfidTool.Rfid.PutSamples
import RfidTool.Rfid.T5557Encoder

/-!
# Frames of the T5557

A frame is the start gap and, for each bit, a high period and a write gap. `readFrame`
is the receiver: it measures carrier periods and accepts the ranges of the protocol.
What `encodeBlock` appends is the frame of `blockBits`, the receiver reads these bits
from it, and the bits determine all that the command says.
-/

namespace RfidTool.T5557Encoder

/-- The level `high` for `low` to `up` carrier periods. -/
def IsPeriod (sample : Sample) (high : Bool) (low up : ℤ) : Prop :=
  sample.isHigh = high ∧ CARRIER_US * low ≤ sample.getLengthUs ∧
    sample.getLengthUs ≤ CARRIER_US * up

instance (sample : Sample) (high : Bool) (low up : ℤ) : Decidable (IsPeriod sample high low up) :=
  inferInstanceAs (Decidable (_ ∧ _ ∧ _))

/-- The bit of a high period. -/
def readPeriod (sample : Sample) : Option Bool :=
  if IsPeriod sample true 16 31 then some false
  else if IsPeriod sample true 48 63 then some true
  else none

/-- The bits behind the start gap, each with its write gap. -/
def readBits : List Sample → Option (List Bool)
  | [] => some []
  | [_] => none
  | period :: gap :: rest =>
    if IsPeriod gap false 8 30 then do
      let bit ← readPeriod period
      let bits ← readBits rest
      return bit :: bits
    else none

/-- The bits of a frame. -/
def readFrame : List Sample → Option (List Bool)
  | [] => none
  | gap :: rest => if IsPeriod gap false 10 50 then readBits rest else none

/-- The bits of a write command, in the order they are sent. -/
def blockBits (page block : UInt8) (lock passwordSend : Bool) (password data : UInt32) :
    List Bool :=
  [true, page.toBitVec.getLsbD 0] ++ (if passwordSend then msbFirst password 32 else []) ++
    [lock] ++ lsbFirst data 32 ++ msbFirst block.toUInt32 3

/-! ## The frame of some bits -/

def frame (bits : List Bool) : List Sample :=
  ⟨SL_FIXED_START_GAP, false⟩ :: bits.flatMap bitSamples

/-- The two bits of the opcode. -/
theorem lsbFirst_opcode (page : UInt8) :
    lsbFirst ((1 : UInt8) ||| ((page &&& 0x01) <<< 1)).toUInt32 2 =
      [true, page.toBitVec.getLsbD 0] := by
  cases page with
  | ofBitVec page =>
    revert page
    decide

/-- `encodeBlock` appends a frame. -/
theorem encodeBlock_eq (page block : UInt8) (lock passwordSend : Bool) (password data : UInt32)
    (samples : List Sample) :
    encodeBlock page block lock passwordSend password data samples =
      samples ++ frame (blockBits page block lock passwordSend password data) := by
  unfold encodeBlock
  dsimp only
  rw [addBitsLsb_eq (start samples) _ (by decide), lsbFirst_opcode,
    addBitsMsb_eq _ password (by decide), addBitsLsb_eq _ data (by decide),
    addBitsMsb_eq _ block.toUInt32 (by decide), addBit_eq]
  cases passwordSend <;> simp [start, addPulse, frame, blockBits]

/-! ## Reading a frame -/

theorem readBits_flatMap (bits : List Bool) : readBits (bits.flatMap bitSamples) = some bits := by
  induction bits with
  | nil => rfl
  | cons bit bits ih =>
    have hgap : IsPeriod ⟨SL_FIXED_WRITE_GAP, false⟩ false 8 30 := by decide
    have hperiod : readPeriod
        ⟨if bit then SL_FIXED_DATA_ONE else SL_FIXED_DATA_ZERO, true⟩ = some bit := by
      cases bit <;> decide
    rw [List.flatMap_cons, bitSamples, List.cons_append, List.cons_append, List.nil_append,
      readBits, if_pos hgap, hperiod, ih]
    rfl

/-- The receiver reads the bits of a frame. -/
theorem readFrame_frame (bits : List Bool) : readFrame (frame bits) = some bits := by
  have hgap : IsPeriod ⟨SL_FIXED_START_GAP, false⟩ false 10 50 := by decide
  rw [frame, readFrame, if_pos hgap]
  exact readBits_flatMap bits

theorem frame_inj {bits bits' : List Bool} : frame bits = frame bits' ↔ bits = bits' := by
  refine ⟨fun h => ?_, congrArg frame⟩
  have hread := congrArg readFrame h
  rw [readFrame_frame, readFrame_frame] at hread
  exact Option.some.inj hread

theorem length_frame (bits : List Bool) : (frame bits).length = 1 + 2 * bits.length := by
  induction bits with
  | nil => rfl
  | cons bit bits ih =>
    rw [frame, List.length_cons] at ih ⊢
    rw [List.flatMap_cons, List.length_append, List.length_cons]
    simp only [bitSamples, List.length_cons, List.length_nil]
    omega

/-- The lengths of the protocol. -/
def periodLengths : Finset ℤ :=
  {SL_FIXED_START_GAP, SL_FIXED_DATA_ONE, SL_FIXED_DATA_ZERO, SL_FIXED_WRITE_GAP}

theorem getLengthUs_mem_of_mem_frame {bits : List Bool} {sample : Sample}
    (h : sample ∈ frame bits) : sample.getLengthUs ∈ periodLengths := by
  rw [periodLengths]
  rcases List.mem_cons.mp h with rfl | h
  · simp [Sample.getLengthUs]
  · obtain ⟨bit, -, hbit⟩ := List.mem_flatMap.mp h
    cases bit <;> simp [bitSamples] at hbit <;> rcases hbit with rfl | rfl <;>
      simp [Sample.getLengthUs]

theorem card_frame_le (bits : List Bool) :
    ((frame bits).map Sample.getLengthUs).toFinset.card ≤ 4 := by
  have hsubset : ((frame bits).map Sample.getLengthUs).toFinset ⊆ periodLengths := by
    intro length hlength
    rw [List.mem_toFinset, List.mem_map] at hlength
    obtain ⟨sample, hsample, rfl⟩ := hlength
    exact getLengthUs_mem_of_mem_frame hsample
  exact (Finset.card_le_card hsubset).trans Finset.card_le_four

/-! ## What the bits determine -/

theorem length_lsbFirst (word : UInt32) (n : ℕ) : (lsbFirst word n).length = n := by
  simp [lsbFirst]

theorem length_msbFirst (word : UInt32) (n : ℕ) : (msbFirst word n).length = n := by
  simp [msbFirst]

theorem length_blockBits (page block : UInt8) (lock passwordSend : Bool)
    (password data : UInt32) :
    (blockBits page block lock passwordSend password data).length =
      38 + if passwordSend then 32 else 0 := by
  cases passwordSend <;> simp [blockBits, length_lsbFirst, length_msbFirst]

theorem lsbFirst_inj {word word' : UInt32} :
    lsbFirst word 32 = lsbFirst word' 32 ↔ word = word' := by
  refine ⟨fun h => ?_, fun h => by rw [h]⟩
  rw [← UInt32.toBitVec_inj]
  refine BitVec.eq_of_getLsbD_eq fun i hi => ?_
  exact List.map_inj_left.mp h i (List.mem_range.mpr hi)

theorem msbFirst_inj {word word' : UInt32} :
    msbFirst word 32 = msbFirst word' 32 ↔ word = word' := by
  rw [← lsbFirst_inj, msbFirst, msbFirst, List.map_reverse, List.map_reverse, List.reverse_inj]
  rfl

theorem getLsbD_zero_inj {page page' : UInt8} :
    page.toBitVec.getLsbD 0 = page'.toBitVec.getLsbD 0 ↔ page.toNat % 2 = page'.toNat % 2 := by
  simp only [BitVec.getLsbD, UInt8.toNat_toBitVec, Nat.testBit_zero]
  rw [decide_eq_decide]
  omega

/-- The address is sent modulo 8. -/
theorem msbFirst_address_inj {block block' : UInt8} :
    msbFirst block.toUInt32 3 = msbFirst block'.toUInt32 3 ↔
      block.toNat % 8 = block'.toNat % 8 := by
  have hbit (b : UInt8) (i : ℕ) : b.toUInt32.toBitVec.getLsbD i = b.toNat.testBit i := by
    rw [BitVec.getLsbD, UInt32.toNat_toBitVec, UInt8.toNat_toUInt32]
  have hmod (b : UInt8) (i : ℕ) : (b.toNat % 8).testBit i = (decide (i < 3) && b.toNat.testBit i) :=
    Nat.testBit_mod_two_pow b.toNat 3 i
  rw [msbFirst, msbFirst, List.map_inj_left]
  simp only [List.mem_reverse, List.mem_range, hbit]
  constructor
  · intro h
    refine Nat.eq_of_testBit_eq fun i => ?_
    rw [hmod, hmod]
    by_cases hi : i < 3
    · rw [h i hi]
    · simp [hi]
  · intro h i hi
    have htest := congrArg (Nat.testBit · i) h
    simpa [hmod, hi] using htest

/-- Two commands have the same bits if and only if they agree on what is sent. -/
theorem blockBits_inj {page block page' block' : UInt8}
    {lock passwordSend lock' passwordSend' : Bool} {password data password' data' : UInt32} :
    blockBits page block lock passwordSend password data =
        blockBits page' block' lock' passwordSend' password' data' ↔
      page.toNat % 2 = page'.toNat % 2 ∧ block.toNat % 8 = block'.toNat % 8 ∧ lock = lock' ∧
        passwordSend = passwordSend' ∧ data = data' ∧ (passwordSend → password = password') := by
  rw [← getLsbD_zero_inj, ← msbFirst_address_inj]
  constructor
  · intro h
    have hlength := congrArg List.length h
    rw [length_blockBits, length_blockBits] at hlength
    have hsend : passwordSend = passwordSend' := by
      cases passwordSend <;> cases passwordSend' <;> simp at hlength ⊢
    subst hsend
    unfold blockBits at h
    obtain ⟨h, hblock⟩ := List.append_inj' h (by rw [length_msbFirst, length_msbFirst])
    obtain ⟨h, hdata⟩ := List.append_inj' h (by rw [length_lsbFirst, length_lsbFirst])
    obtain ⟨h, hlock⟩ := List.append_inj' h rfl
    obtain ⟨hpage, hpassword⟩ := List.append_inj h rfl
    refine ⟨by simpa using hpage, hblock, by simpa using hlock, rfl, lsbFirst_inj.mp hdata, ?_⟩
    rintro rfl
    exact msbFirst_inj.mp hpassword
  · rintro ⟨hpage, hblock, rfl, rfl, rfl, hpassword⟩
    unfold blockBits
    rw [hpage, hblock]
    cases passwordSend with
    | false => rfl
    | true => rw [hpassword rfl]

/-- Frames decode uniquely: the receiver reads the bits of the command and nothing else,
two commands have the same samples if and only if they agree on what is sent, and a
frame is within the limits of the interface. -/
theorem encodeBlock_frame (page block : UInt8) (lock passwordSend : Bool)
    (password data : UInt32) (samples : List Sample) :
    (∃ frame, encodeBlock page block lock passwordSend password data samples = samples ++ frame ∧
      readFrame frame = some (blockBits page block lock passwordSend password data) ∧
      frame.length ≤ 141 ∧ (frame.map Sample.getLengthUs).toFinset.card ≤ 4 ∧
      InterfaceUsbImpl.Fits frame) ∧
    ∀ page' block' lock' passwordSend' password' data',
      encodeBlock page block lock passwordSend password data samples =
          encodeBlock page' block' lock' passwordSend' password' data' samples ↔
        page.toNat % 2 = page'.toNat % 2 ∧ block.toNat % 8 = block'.toNat % 8 ∧ lock = lock' ∧
          passwordSend = passwordSend' ∧ data = data' ∧ (passwordSend → password = password') := by
  constructor
  · have hlength : (frame (blockBits page block lock passwordSend password data)).length ≤ 141 := by
      rw [length_frame, length_blockBits]
      split_ifs <;> decide
    refine ⟨_, encodeBlock_eq _ _ _ _ _ _ _, readFrame_frame _, hlength, card_frame_le _,
      hlength.trans (by decide), fun sample hsample => ?_⟩
    have hmem := getLengthUs_mem_of_mem_frame hsample
    rw [InterfaceUsbImpl.periods]
    simp only [periodLengths, Finset.mem_insert, Finset.mem_singleton] at hmem
    rcases hmem with h | h | h | h <;> rw [h] <;> decide
  · intro page' block' lock' passwordSend' password' data'
    rw [encodeBlock_eq, encodeBlock_eq, List.append_right_inj, frame_inj, blockBits_inj]

end RfidTool.T5557Encoder

import RfidTool.Library.WordBuffer
import RfidTool.Rfid.Interface

/-!
# `rfid::T5557Encoder`

The write command of a T5557 as a list of samples: a start gap, and for each bit a
high period whose length carries the bit and a write gap. `transmittedBits` reads
the bits back from the high periods, and `transmittedBits_encodeBlock` gives them
in the order they are sent.
-/

namespace RfidTool.T5557Encoder

def SL_FIXED_DATA_ONE : Int := CARRIER_US * ((48 + 63) / 2)
def SL_FIXED_DATA_ZERO : Int := CARRIER_US * ((16 + 31) / 2)
def SL_FIXED_WRITE_GAP : Int := CARRIER_US * ((8 + 30) / 2)
def SL_FIXED_START_GAP : Int := CARRIER_US * ((10 + 50) / 2)

/-! `TransferData` holds the samples it appends to; its protocol has one value. -/

def addPulse (samples : List Sample) (high : Bool) (length : Int) : List Sample :=
  samples ++ [⟨length, high⟩]

def start (samples : List Sample) : List Sample := addPulse samples false SL_FIXED_START_GAP

def addBit (samples : List Sample) (bit : Bool) : List Sample :=
  addPulse (addPulse samples true (if bit then SL_FIXED_DATA_ONE else SL_FIXED_DATA_ZERO))
    false SL_FIXED_WRITE_GAP

def addBitsLsb (samples : List Sample) (wordToTransfer : UInt32) (bitsToTransfer : ℕ) :
    List Sample :=
  (List.range bitsToTransfer).foldl
    (fun samples i => addBit samples (decide (wordToTransfer &&& (1 <<< UInt32.ofNat i) ≠ 0)))
    samples

/-- The loop runs downwards, with `i - 1` as the bit index. -/
def addBitsMsb (samples : List Sample) (wordToTransfer : UInt32) (bitsToTransfer : ℕ) :
    List Sample :=
  (List.range bitsToTransfer).reverse.foldl
    (fun samples i => addBit samples (decide (wordToTransfer &&& (1 <<< UInt32.ofNat i) ≠ 0)))
    samples

def encodeBlock (page block : UInt8) (lock passwordSend : Bool) (password data : UInt32)
    (samples : List Sample) : List Sample :=
  let samples := start samples
  let samples := addBitsLsb samples ((1 : UInt8) ||| ((page &&& 0x01) <<< 1)).toUInt32 2
  let samples := if passwordSend then addBitsMsb samples password 32 else samples
  let samples := addBit samples lock
  let samples := addBitsLsb samples data 32
  addBitsMsb samples block.toUInt32 3

/-! ## The samples of a bit -/

def lsbFirst (word : UInt32) (n : ℕ) : List Bool := (List.range n).map word.toBitVec.getLsbD

def msbFirst (word : UInt32) (n : ℕ) : List Bool :=
  (List.range n).reverse.map word.toBitVec.getLsbD

/-- The high period of a bit and its write gap. -/
def bitSamples (bit : Bool) : List Sample :=
  [⟨if bit then SL_FIXED_DATA_ONE else SL_FIXED_DATA_ZERO, true⟩, ⟨SL_FIXED_WRITE_GAP, false⟩]

theorem addBit_eq (samples : List Sample) (bit : Bool) :
    addBit samples bit = samples ++ bitSamples bit := by
  simp [addBit, addPulse, bitSamples]

/-- Both loops append the bits at the indices they run through. -/
theorem foldl_addBit (word : UInt32) {is : List ℕ} (h : ∀ i ∈ is, i < 32)
    (samples : List Sample) :
    is.foldl (fun samples i => addBit samples (decide (word &&& (1 <<< UInt32.ofNat i) ≠ 0)))
        samples =
      samples ++ (is.map word.toBitVec.getLsbD).flatMap bitSamples := by
  induction is generalizing samples with
  | nil => simp
  | cons i is ih =>
    rw [List.forall_mem_cons] at h
    have hbit : decide (word &&& (1 <<< UInt32.ofNat i) ≠ 0) = word.toBitVec.getLsbD i := by
      rw [Bool.eq_iff_iff, decide_eq_true_iff]
      exact WordBuffer.UInt32.and_mask_ne_zero word h.1
    rw [List.foldl_cons, ih h.2, addBit_eq, hbit, List.map_cons, List.flatMap_cons,
      List.append_assoc]

theorem addBitsLsb_eq (samples : List Sample) (word : UInt32) {n : ℕ} (hn : n ≤ 32) :
    addBitsLsb samples word n = samples ++ (lsbFirst word n).flatMap bitSamples :=
  foldl_addBit word (fun _ hi => Nat.lt_of_lt_of_le (List.mem_range.mp hi) hn) samples

theorem addBitsMsb_eq (samples : List Sample) (word : UInt32) {n : ℕ} (hn : n ≤ 32) :
    addBitsMsb samples word n = samples ++ (msbFirst word n).flatMap bitSamples :=
  foldl_addBit word (fun _ hi =>
    Nat.lt_of_lt_of_le (List.mem_range.mp (List.mem_reverse.mp hi)) hn) samples

/-! ## Reading a command back -/

/-- The bits carried by the high periods of a command. -/
def transmittedBits (samples : List Sample) : List Bool :=
  samples.filterMap fun s =>
    if s.isHigh then some (decide (s.sampleUs = SL_FIXED_DATA_ONE)) else none

/-- The 32 data bits of a command: they follow two opcode bits, the password if it
is sent, and the lock bit. -/
def dataBits (passwordSend : Bool) (samples : List Sample) : List Bool :=
  ((transmittedBits samples).drop (3 + if passwordSend then 32 else 0)).take 32

theorem transmittedBits_append (samples samples' : List Sample) :
    transmittedBits (samples ++ samples') = transmittedBits samples ++ transmittedBits samples' :=
  List.filterMap_append

theorem transmittedBits_start (samples : List Sample) :
    transmittedBits (start samples) = transmittedBits samples := by
  simp [transmittedBits, start, addPulse]

theorem transmittedBits_bitSamples (samples : List Sample) (bits : List Bool) :
    transmittedBits (samples ++ bits.flatMap bitSamples) = transmittedBits samples ++ bits := by
  have hbits : transmittedBits (bits.flatMap bitSamples) = bits := by
    induction bits with
    | nil => rfl
    | cons bit bits ih =>
      rw [List.flatMap_cons, transmittedBits_append, ih]
      cases bit <;> rfl
  rw [transmittedBits_append, hbits]

theorem transmittedBits_addBit (samples : List Sample) (bit : Bool) :
    transmittedBits (addBit samples bit) = transmittedBits samples ++ [bit] := by
  rw [addBit_eq, ← transmittedBits_bitSamples, List.flatMap_singleton]

theorem transmittedBits_addBitsLsb (samples : List Sample) (word : UInt32) {n : ℕ} (hn : n ≤ 32) :
    transmittedBits (addBitsLsb samples word n) = transmittedBits samples ++ lsbFirst word n := by
  rw [addBitsLsb_eq samples word hn, transmittedBits_bitSamples]

theorem transmittedBits_addBitsMsb (samples : List Sample) (word : UInt32) {n : ℕ} (hn : n ≤ 32) :
    transmittedBits (addBitsMsb samples word n) = transmittedBits samples ++ msbFirst word n := by
  rw [addBitsMsb_eq samples word hn, transmittedBits_bitSamples]

/-- The bits of a command in the order they are sent. -/
theorem transmittedBits_encodeBlock (page block : UInt8) (lock passwordSend : Bool)
    (password data : UInt32) (samples : List Sample) :
    transmittedBits (encodeBlock page block lock passwordSend password data samples) =
      transmittedBits samples ++ lsbFirst ((1 : UInt8) ||| ((page &&& 0x01) <<< 1)).toUInt32 2 ++
        (if passwordSend then msbFirst password 32 else []) ++ [lock] ++ lsbFirst data 32 ++
        msbFirst block.toUInt32 3 := by
  unfold encodeBlock
  cases passwordSend <;>
    simp [transmittedBits_addBitsMsb, transmittedBits_addBitsLsb, transmittedBits_addBit,
      transmittedBits_start]

/-- The data bits of a command are its word, least significant bit first. -/
theorem dataBits_encodeBlock (page block : UInt8) (lock passwordSend : Bool)
    (password data : UInt32) :
    dataBits passwordSend (encodeBlock page block lock passwordSend password data []) =
      lsbFirst data 32 := by
  have hhead : (lsbFirst ((1 : UInt8) ||| ((page &&& 0x01) <<< 1)).toUInt32 2 ++
      (if passwordSend then msbFirst password 32 else []) ++ [lock]).length =
        3 + if passwordSend then 32 else 0 := by
    cases passwordSend <;> simp [lsbFirst, msbFirst]
  have hword : (lsbFirst data 32).length = 32 := by simp [lsbFirst]
  rw [dataBits, transmittedBits_encodeBlock]
  simp only [transmittedBits, List.filterMap_nil, List.nil_append]
  rw [List.append_assoc, List.drop_left' hhead, List.take_left' hword]

end RfidTool.T5557Encoder

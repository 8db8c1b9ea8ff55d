import RfidTool.Common.DataUtils
import RfidTool.Rfid.T5557Frame

/-!
# The configuration word of the T5557

`encodeParameters` writes thirteen fields into a word, each most significant bit first
at a running offset, and sends the word least significant bit first: the fields leave in
the order in which they were written. A `Field` is one of its statements
`bitOffset += ...`.
-/

namespace RfidTool.T5557Encoder

open DataUtils

inductive DataRate where
  | rate8 | rate16 | rate32 | rate40 | rate50 | rate64 | rate100 | rate128
  deriving DecidableEq, Repr

inductive Modulation where
  | direct | psk1 | psk2 | psk3 | fsk1 | fsk2 | fsk1a | fsk2a | manchester | biphase
  deriving DecidableEq, Repr

inductive PskSubcarrier where
  | rf2 | rf4 | rf8
  deriving DecidableEq, Repr

structure Parameters where
  lock : Bool
  masterKey : UInt8
  dataRate : DataRate
  modulation : Modulation
  pskSubcarrier : PskSubcarrier
  answerOnRequest : Bool
  maxBlock : UInt8
  password : Bool
  sequenceTerminator : Bool
  powerOnResetDelay : Bool
  deriving DecidableEq, Repr

def dataRateValue : DataRate → UInt8
  | .rate8 => 0
  | .rate16 => 1
  | .rate32 => 2
  | .rate40 => 3
  | .rate50 => 4
  | .rate64 => 5
  | .rate100 => 6
  | .rate128 => 7

def modulationValue : Modulation → UInt8
  | .direct => 0
  | .psk1 => 1
  | .psk2 => 2
  | .psk3 => 3
  | .fsk1 => 4
  | .fsk2 => 5
  | .fsk1a => 6
  | .fsk2a => 7
  | .manchester => 8
  | .biphase => 24

def pskSubValue : PskSubcarrier → UInt8
  | .rf2 => 0
  | .rf4 => 1
  | .rf8 => 2

/-- A statement of `encodeParameters` that writes at `bitOffset`. -/
inductive Field where
  | putBit (bit : Bool)
  | putBitsMsb (bits bitsCount : UInt8)
  deriving DecidableEq, Repr

/-- The statement, on `data` and `bitOffset`. -/
def Field.put (s : Vector UInt32 1 × UInt8) : Field → Vector UInt32 1 × UInt8
  | .putBit bit =>
    let (data, count) := DataUtils.putBit s.1 s.2 (if bit then 1 else 0)
    (data, s.2 + count)
  | .putBitsMsb bits bitsCount =>
    let (data, count) := DataUtils.putBitsMsb s.1 s.2 bits.toUInt16 bitsCount
    (data, s.2 + count)

def fields (params : Parameters) : List Field := [
  .putBitsMsb params.masterKey 4,
  .putBitsMsb 0 7,
  .putBitsMsb (dataRateValue params.dataRate) 3,
  .putBit false,
  .putBitsMsb (modulationValue params.modulation) 5,
  .putBitsMsb (pskSubValue params.pskSubcarrier) 2,
  .putBit params.answerOnRequest,
  .putBit false,
  .putBitsMsb params.maxBlock 3,
  .putBit params.password,
  .putBit params.sequenceTerminator,
  .putBitsMsb 0 2,
  .putBit params.powerOnResetDelay]

def encodeParameters (params : Parameters) (passwordSend : Bool) (password : UInt32)
    (samples : List Sample) : List Sample :=
  let (data, _) := (fields params).foldl Field.put (#v[0], 0)
  encodeBlock 0 0 params.lock passwordSend password data[0] samples

/-! ## Fields -/

def Field.width : Field → ℕ
  | .putBit _ => 1
  | .putBitsMsb _ bitsCount => bitsCount.toNat

def Field.bits : Field → List Bool
  | .putBit bit => [bit]
  | .putBitsMsb bits bitsCount => msbBits bits.toNat bitsCount.toNat

/-- The offsets at which a field calls `putBit`, when it is written at `bitOffset`. -/
def Field.offsets (bitOffset : ℕ) : Field → List ℕ
  | .putBit _ => [bitOffset]
  | .putBitsMsb _ bitsCount =>
    (List.range bitsCount.toNat).reverse.map fun j => bitOffset + bitsCount.toNat - (j + 1)

theorem Field.length_bits (field : Field) : field.bits.length = field.width := by
  cases field with
  | putBit bit => rfl
  | putBitsMsb bits bitsCount => exact length_msbBits _ _

/-- A field puts its bits at its offset. -/
theorem Field.put_eq (data : Vector UInt32 1) {bitOffset : UInt8} {field : Field}
    (hwidth : field.width ≤ 16) (hfit : bitOffset.toNat + field.width ≤ 32) :
    ∃ next : UInt8, next.toNat = bitOffset.toNat + field.width ∧
      Field.put (data, bitOffset) field =
        (WordBuffer.putAll data bitOffset.toNat field.bits, next) := by
  cases field with
  | putBit bit =>
    rw [Field.width] at hfit ⊢
    refine ⟨bitOffset + 1, ?_, ?_⟩
    · rw [UInt8.toNat_add]
      simp only [UInt8.reduceToNat]
      omega
    · simp only [Field.put, Field.bits, putBit_eq, WordBuffer.putAll]
      cases bit <;> rfl
  | putBitsMsb bits bitsCount =>
    rw [Field.width] at hfit hwidth ⊢
    refine ⟨bitOffset + bitsCount, ?_, ?_⟩
    · rw [UInt8.toNat_add]
      omega
    · simp only [Field.put, Field.bits]
      rw [putBitsMsb_eq data _ hwidth (by omega), UInt8.toNat_toUInt16]

/-- The fields put their bits one behind the other. -/
theorem foldl_put (fields : List Field) (data : Vector UInt32 1) {bitOffset : UInt8}
    (hwidth : ∀ field ∈ fields, field.width ≤ 16)
    (hfit : bitOffset.toNat + (fields.flatMap Field.bits).length ≤ 32) :
    (fields.foldl Field.put (data, bitOffset)).1 =
      WordBuffer.putAll data bitOffset.toNat (fields.flatMap Field.bits) := by
  induction fields generalizing data bitOffset with
  | nil => rfl
  | cons field fields ih =>
    rw [List.forall_mem_cons] at hwidth
    rw [List.flatMap_cons, List.length_append, Field.length_bits] at hfit
    obtain ⟨next, hnext, hput⟩ := @Field.put_eq data bitOffset field hwidth.1 (by omega)
    rw [List.foldl_cons, hput]
    refine Eq.trans (ih _ hwidth.2 (by omega)) ?_
    rw [List.flatMap_cons, WordBuffer.putAll_append, Field.length_bits, hnext]

/-- The configuration as it is sent. -/
def configurationBits (params : Parameters) : List Bool :=
  msbBits (params.masterKey.toNat % 16) 4 ++ List.replicate 7 false ++
    msbBits (dataRateValue params.dataRate).toNat 3 ++ [false] ++
    msbBits (modulationValue params.modulation).toNat 5 ++
    msbBits (pskSubValue params.pskSubcarrier).toNat 2 ++ [params.answerOnRequest, false] ++
    msbBits (params.maxBlock.toNat % 8) 3 ++
    [params.password, params.sequenceTerminator, false, false, params.powerOnResetDelay]

theorem msbBits_mod_sixteen (value : ℕ) : msbBits (value % 16) 4 = msbBits value 4 := by
  refine msbBits_congr fun i hi => ?_
  have htest := Nat.testBit_mod_two_pow value 4 i
  simpa [hi] using htest

theorem msbBits_mod_eight (value : ℕ) : msbBits (value % 8) 3 = msbBits value 3 := by
  refine msbBits_congr fun i hi => ?_
  have htest := Nat.testBit_mod_two_pow value 3 i
  simpa [hi] using htest

theorem flatMap_fields (params : Parameters) :
    (fields params).flatMap Field.bits = configurationBits params := by
  rw [configurationBits, msbBits_mod_sixteen, msbBits_mod_eight]
  rfl

theorem length_configurationBits (params : Parameters) :
    (configurationBits params).length = 32 := by
  simp [configurationBits, length_msbBits]

/-- The word read least significant bit first. -/
theorem lsbFirst_getElem (data : Vector UInt32 1) :
    lsbFirst data[0] 32 = WordBuffer.bits data 32 := by
  refine List.map_congr_left fun i hi => ?_
  have hlt : i < 32 := List.mem_range.mp hi
  have hdiv : i / 32 = 0 := by omega
  have hmod : i % 32 = i := by omega
  rw [WordBuffer.bit, hdiv, hmod]
  rfl

theorem width_le_of_mem_fields {params : Parameters} :
    ∀ field ∈ fields params, field.width ≤ 16 := by
  simp [fields, Field.width]

/-- Whatever the word held before, the fields overwrite it. -/
theorem lsbFirst_fields (params : Parameters) (data : Vector UInt32 1) :
    lsbFirst ((fields params).foldl Field.put (data, 0)).1[0] 32 = configurationBits params := by
  have hlength := length_configurationBits params
  have hput := @foldl_put (fields params) data 0 width_le_of_mem_fields (by
    rw [flatMap_fields, hlength]
    decide)
  rw [flatMap_fields] at hput
  rw [hput, lsbFirst_getElem]
  have hbits := @WordBuffer.bits_putAll _ data 0 (configurationBits params) (by omega)
  rw [hlength] at hbits
  exact hbits

end RfidTool.T5557Encoder

import Mathlib.Data.Finset.Card
import Mathlib.Data.Finset.Dedup
import Mathlib.Data.List.Sort
import RfidTool.Common.Protocol
import RfidTool.Library.BitBuffer
import RfidTool.Library.Buffer
import RfidTool.Rfid.Interface

/-!
# `rfid::device::InterfaceUsbImpl`

`putSamples` as the control transfers that it makes: the table of the different
pulses, the samples as nibbles with an index into the table and the level, and the
request that starts the transmission. A write behind the buffer of nibbles is an
error of the model, undefined in the source. `getSamples` as the request that starts
the reception and as what it makes of the status and of the buffer that it reads back.
The transfers are carried out by the USB library, which is not modelled.
-/

namespace RfidTool

/-- The fields that `putSamples` reads. -/
structure InterfaceUsbImpl where
  sampleVectorSize : UInt16
  pulseVectorSize : UInt16
  deriving DecidableEq, Repr

/-- The constructor's reading of the answer to `GET_BUFFER_SIZE`, with the return code
in front. -/
def InterfaceUsbImpl.ofResponse (response : Vector UInt8 7) : InterfaceUsbImpl where
  pulseVectorSize := (response[5].toUInt16 <<< 8) ||| response[6].toUInt16
  sampleVectorSize := (response[3].toUInt16 <<< 8) ||| response[4].toUInt16

inductive PutSamplesError where
  | tooManyPulses
  | overflow
  deriving DecidableEq, Repr

/-- A control transfer; the data stage of an IN transfer is not listed. -/
structure ControlTransfer where
  request : SetupRequest
  data : List UInt8
  deriving DecidableEq, Repr

namespace InterfaceUsbImpl

/-- Carrier periods of a sample. -/
def periods (sample : Sample) : ℤ := sample.getLengthUs.tdiv CARRIER_US

/-- `std::set<int> pulses`, in its order. -/
def pulses (samples : List Sample) : List ℤ :=
  ((samples.map periods).dedup).insertionSort (· ≤ ·)

/-- A round of the loop that writes the pulse table. -/
def putPulse {n : ℕ} : Vector UInt8 n × UInt8 → ℤ → Vector UInt8 n × UInt8
  | (buffer, bufferWritten), pulse =>
    (buffer.setIfInBounds bufferWritten.toNat (UInt8.ofInt pulse), bufferWritten + 1)

def pulseTable (n : ℕ) (pulses : List ℤ) : Vector UInt8 n :=
  (pulses.foldl putPulse (.replicate n 0, 0)).1

/-- The nibble of a sample. -/
def sampleValue (pulses : List ℤ) (sample : Sample) : UInt8 :=
  (if sample.isLow then 0 else 0x08) ||| UInt8.ofNat (pulses.idxOf (periods sample))

/-- A round of the loop that writes the samples. -/
def putSample {n : ℕ} (pulses : List ℤ) :
    Vector UInt8 n × UInt16 → Sample → Except PutSamplesError (Vector UInt8 n × UInt16)
  | (buffer, written), sample =>
    let value := sampleValue pulses sample
    if h : (written >>> 1).toNat < n then
      .ok (buffer.set (written >>> 1).toNat
        (if written &&& 1 ≠ 0 then buffer[(written >>> 1).toNat] ||| (value <<< 4) else value),
        written + 1)
    else .error .overflow

def sampleBuffer (n : ℕ) (pulses : List ℤ) (samples : List Sample) :
    Except PutSamplesError (Vector UInt8 n × UInt16) :=
  samples.foldlM (putSample pulses) (.replicate n 0xff, 0)

/-- The timeout is cut to 16 bits. -/
def startRequest : SetupRequest where
  bRequest := PROTO_CMD_TRANSFER_START
  wValue := UInt16.ofInt (60000 * CARRIER_US)
  wIndex := PROTO_TRANSFER_FLAG_TX_MODE ||| PROTO_TRANSFER_FLAG_START_ON_EDGE |||
    PROTO_TRANSFER_FLAG_FALLING_EDGE ||| PROTO_TRANSFER_FLAG_FIRST_ON_START ||| 8

/-- The transfers of `putSamples` up to `TRANSFER_START`. -/
def putSamples (device : InterfaceUsbImpl) (samples : List Sample) :
    Except PutSamplesError (List ControlTransfer) :=
  let pulses := pulses samples
  if pulses.length > device.pulseVectorSize.toNat then .error .tooManyPulses
  else do
    let table := pulseTable device.pulseVectorSize.toNat pulses
    let (buffer, _) ← sampleBuffer device.sampleVectorSize.toNat pulses samples
    return [
      { request := ⟨PROTO_CMD_SAMPLE_VECTOR_WRITE, 0, 0⟩, data := table.toList },
      { request := ⟨PROTO_CMD_PULSE_VECTOR_WRITE, 0, 0⟩, data := buffer.toList },
      { request := startRequest, data := [] }]

/-! ## `getSamples` -/

inductive GetSamplesError where
  | invalidState
  deriving DecidableEq, Repr

def prescaler : ℤ := 8

/-- The request that starts the reception. -/
def receiveRequest : SetupRequest where
  bRequest := PROTO_CMD_TRANSFER_START
  wValue := 60000
  wIndex := PROTO_TRANSFER_FLAG_FIRST_ON_START ||| PROTO_TRANSFER_FLAG_START_ON_EDGE |||
    PROTO_TRANSFER_FLAG_FALLING_EDGE ||| 8

/-- The bits of the buffer in the order of the two loops. -/
def sampleBits (samplesBuffer : List UInt8) : List Bool :=
  samplesBuffer.flatMap fun byte =>
    (List.range 8).map fun j => decide (byte &&& (1 <<< UInt8.ofNat j) ≠ 0)

/-- The variables of the two loops. -/
structure SamplesLoop where
  currentState : ℤ
  currentStateLength : ℤ
  ret : List Sample
  deriving DecidableEq, Repr

def SamplesLoop.start : SamplesLoop where
  currentState := -1
  currentStateLength := 0
  ret := []

/-- A round of the inner loop. -/
def SamplesLoop.round (loop : SamplesLoop) (bit : Bool) : SamplesLoop :=
  let lastState := loop.currentState
  let currentState := if bit then 1 else 0
  if currentState ≠ lastState then
    if lastState ≠ -1 then
      { currentState
        currentStateLength := 1
        ret := loop.ret ++
          [⟨loop.currentStateLength * CARRIER_US * prescaler, decide (lastState = 0)⟩] }
    else { loop with currentState }
  else { loop with currentState, currentStateLength := loop.currentStateLength + 1 }

/-- What `getSamples` makes of the status of the transfer and of the buffer. -/
def getSamples (status : UInt8) (samplesBuffer : List UInt8) :
    Except GetSamplesError (List Sample) :=
  if status ≠ PROTO_TRANSFER_STATUS_OK then .error .invalidState
  else .ok ((sampleBits samplesBuffer).foldl SamplesLoop.round .start).ret

/-- The two loops go through the bits in the order of the buffer. -/
theorem sampleBits_eq (bytes : List UInt8) : sampleBits bytes = BitBuffer.bits bytes := by
  unfold sampleBits BitBuffer.bits
  congr 1
  funext byte
  refine List.map_congr_left fun j hj => ?_
  have hiff := BitBuffer.and_mask_ne_zero byte (List.mem_range.mp hj)
  rw [Bool.eq_iff_iff, decide_eq_true_iff]
  exact hiff

/-! ## The pulse table -/

theorem mem_pulses {samples : List Sample} {p : ℤ} :
    p ∈ pulses samples ↔ ∃ sample ∈ samples, periods sample = p := by
  rw [pulses, List.mem_insertionSort, List.mem_dedup, List.mem_map]

/-- The set has as many elements as there are different pulses. -/
theorem length_pulses (samples : List Sample) :
    (pulses samples).length = (samples.map periods).toFinset.card := by
  rw [pulses, List.length_insertionSort, List.card_toFinset]

theorem idxOf_lt {samples : List Sample} {sample : Sample} (h : sample ∈ samples) :
    (pulses samples).idxOf (periods sample) < (pulses samples).length :=
  List.idxOf_lt_length_of_mem (mem_pulses.mpr ⟨sample, h, rfl⟩)

/-- The table starts with the pulses in the order of the set. -/
theorem isPrefix_foldl_putPulse {n : ℕ} (hn : n < 256) (pulses : List ℤ) (done : List UInt8)
    (buffer : Vector UInt8 n) (written : UInt8) (hwrote : done <+: buffer.toList)
    (hwritten : written.toNat = done.length) (hle : done.length + pulses.length ≤ n) :
    done ++ pulses.map UInt8.ofInt <+: (pulses.foldl putPulse (buffer, written)).1.toList := by
  induction pulses generalizing done buffer written with
  | nil => simpa using hwrote
  | cons p ps ih =>
    rw [List.length_cons] at hle
    have hset : done ++ [UInt8.ofInt p] <+:
        (buffer.setIfInBounds written.toNat (UInt8.ofInt p)).toList := by
      rw [Vector.toList_setIfInBounds, hwritten]
      exact List.isPrefix_set hwrote _ (by rw [Vector.length_toList]; omega)
    have hnext : (written + 1).toNat = (done ++ [UInt8.ofInt p]).length := by
      rw [UInt8.toNat_add_one hwritten (by omega), List.length_append, List.length_singleton]
    have htail := ih _ _ _ hset hnext (by rw [List.length_append, List.length_singleton]; omega)
    rwa [List.append_assoc] at htail

/-- The entry of the table that a sample's index selects. -/
theorem getElem_pulseTable {n : ℕ} (hn : n < 256) {samples : List Sample}
    (hle : (pulses samples).length ≤ n) {sample : Sample} (h : sample ∈ samples) :
    (pulseTable n (pulses samples))[(pulses samples).idxOf (periods sample)]? =
      some (UInt8.ofInt (periods sample)) := by
  have hwrote := isPrefix_foldl_putPulse hn (pulses samples) [] (.replicate n 0) 0
    (List.nil_prefix) rfl (by simpa using hle)
  rw [List.nil_append] at hwrote
  have hlt := idxOf_lt h
  have hmap : (pulses samples).idxOf (periods sample) <
      ((pulses samples).map UInt8.ofInt).length := by rwa [List.length_map]
  rw [← Vector.getElem?_toList, pulseTable,
    List.getElem?_eq_getElem (hmap.trans_le hwrote.length_le), ← hwrote.getElem hmap,
    List.getElem_map, List.getElem_idxOf]

/-! ## The nibbles -/

/-- What the samples leave in the buffer of nibbles. -/
theorem foldlM_putSample {n : ℕ} (hn : 2 * n < 65536) {pulses : List ℤ} (samples : List Sample)
    (hvalue : ∀ sample ∈ samples, sampleValue pulses sample < 16) (done : List UInt8)
    (buffer : Vector UInt8 n) (written : UInt16) (hpacked : Nibble.Packed buffer done)
    (hwritten : written.toNat = done.length) (hle : done.length + samples.length ≤ 2 * n) :
    ∃ buffer' written', samples.foldlM (putSample pulses) (buffer, written) =
        .ok (buffer', written') ∧
      Nibble.Packed buffer' (done ++ samples.map (sampleValue pulses)) := by
  induction samples generalizing done buffer written with
  | nil => exact ⟨buffer, written, rfl, by simpa using hpacked⟩
  | cons sample samples ih =>
    rw [List.forall_mem_cons] at hvalue
    rw [List.length_cons] at hle
    have hindex : (written >>> 1).toNat = done.length / 2 := by
      rw [Nibble.toNat_shiftRight_one, hwritten]
    have hlt : done.length / 2 < n := by omega
    have hnext : (written + 1).toNat = (done ++ [sampleValue pulses sample]).length := by
      rw [UInt16.toNat_add_one hwritten (by omega), List.length_append, List.length_singleton]
    obtain ⟨buffer', written', hrest, hpacked'⟩ := ih hvalue.2 _ _ _
      (hpacked.append hvalue.1 hlt) hnext (by rw [List.length_append, List.length_singleton]; omega)
    refine ⟨buffer', written', ?_, by simpa using hpacked'⟩
    rw [List.foldlM_cons, ← hrest]
    have hstep : putSample pulses (buffer, written) sample =
        .ok (buffer.set (done.length / 2)
          (Nibble.write buffer[done.length / 2] done.length (sampleValue pulses sample)),
          written + 1) := by
      unfold putSample Nibble.write
      simp only [Nibble.and_one_ne_zero_iff, hindex, hwritten, dif_pos hlt]
    rw [hstep]
    rfl

/-- The three facts about the nibble of a sample: it is one, it selects the entry of the
sample's pulse, which is not the terminator, and it holds the level. -/
theorem sampleValue_spec {pulses : List ℤ} {sample : Sample}
    (h : pulses.idxOf (periods sample) < 7) :
    sampleValue pulses sample < 16 ∧
      (sampleValue pulses sample &&& 0x07).toNat = pulses.idxOf (periods sample) ∧
      (sampleValue pulses sample &&& 0x08 = 0 ↔ sample.isLow = true) := by
  unfold sampleValue
  generalize pulses.idxOf (periods sample) = i at h
  generalize sample.isLow = low
  have hall : ∀ i < 7, ∀ low : Bool,
      (if low then 0 else 0x08) ||| UInt8.ofNat i < 16 ∧
        (((if low then 0 else 0x08) ||| UInt8.ofNat i) &&& 0x07).toNat = i ∧
        (((if low then 0 else 0x08) ||| UInt8.ofNat i) &&& 0x08 = 0 ↔ low = true) := by
    decide
  exact hall i h low

/-- The firmware's buffers. -/
def connected : InterfaceUsbImpl where
  sampleVectorSize := 192
  pulseVectorSize := 7

/-- The transfers for the firmware's buffers. -/
theorem putSamples_connected {samples : List Sample} (hle : samples.length ≤ 384)
    (hpulses : (pulses samples).length ≤ 7) :
    ∃ buffer : Vector UInt8 192,
      connected.putSamples samples = .ok [
        { request := ⟨PROTO_CMD_SAMPLE_VECTOR_WRITE, 0, 0⟩
          data := (pulseTable 7 (pulses samples)).toList },
        { request := ⟨PROTO_CMD_PULSE_VECTOR_WRITE, 0, 0⟩, data := buffer.toList },
        { request := startRequest, data := [] }] ∧
      Nibble.Packed buffer (samples.map (sampleValue (pulses samples))) := by
  have hvalue : ∀ sample ∈ samples, sampleValue (pulses samples) sample < 16 := by
    intro sample h
    exact (sampleValue_spec ((idxOf_lt h).trans_le hpulses)).1
  obtain ⟨buffer, written, hbuffer, hpacked⟩ := foldlM_putSample (n := 192) (by decide) samples
    hvalue [] _ 0 Nibble.packed_replicate rfl (by simpa using hle)
  refine ⟨buffer, ?_, hpacked⟩
  unfold putSamples
  dsimp only
  rw [if_neg (show ¬(pulses samples).length > connected.pulseVectorSize.toNat from
    Nat.not_lt.mpr hpulses)]
  change (sampleBuffer 192 (pulses samples) samples >>= _) = _
  rw [sampleBuffer, hbuffer]
  rfl

end InterfaceUsbImpl

end RfidTool

import Mathlib.Algebra.Group.Nat.Even
import RfidTool.Firmware.DataPhase
import RfidTool.Rfid.InterfaceUsbImpl

/-!
# From a list of samples to the coil

The host packs the samples, the data stages carry the two tables into the firmware,
and the handler of `TIMER0_COMPA` plays them nibble by nibble. What is played is the
list of samples when its length is even. Behind a list of odd length the high nibble
of the last byte is zero instead of the terminator, and the handler plays it.
-/

namespace RfidTool

/-- The events of a control transfer, its data stage cut into packets in any way. -/
def ControlTransfer.Carries (transfer : ControlTransfer) (events : List Event) : Prop :=
  ∃ packets : List (List UInt8), packets.flatten = transfer.data ∧
    events = .setup transfer.request :: packets.map .dataOut

/-- What the coil should do for a sample: carrier periods, and whether the pin is driven. -/
def Sample.wanted (sample : Sample) : ℤ × Bool :=
  (InterfaceUsbImpl.periods sample, sample.isLow)

namespace Firmware

open InterfaceUsbImpl

/-- Successive runs of the handler of `TIMER0_COMPA` up to `_stopTx`: the timer period
and the direction of the coil pin for each step. -/
def playback : ℕ → Firmware → Option (List (ℤ × Bool))
  | 0, _ => none
  | n + 1, f =>
    match f.timer0Compa with
    | .error _ => none
    | .ok g =>
      if g.state = .finished then some []
      else (playback n g).map (((g.ocr0a.toNat : ℤ) + 1, g.coilOutput) :: ·)

/-- The samples are uploaded and played as they are. -/
def Transmits (samples : List Sample) : Prop :=
  ∃ table buffer start, connected.putSamples samples = .ok [table, buffer, start] ∧
    ∀ es es', table.Carries es → buffer.Carries es' → ∀ f : Firmware,
      ∃ g, (es ++ es').foldlM step f = .ok g ∧
        ∀ h : Firmware, h.sampleVector = g.sampleVector → h.ioBuffer = g.ioBuffer →
          h.state = .tx → h.opOffset = 0 → h.opLength = 384 →
          ∀ n ≥ 385, playback n h = some (samples.map Sample.wanted)

/-- The host learns the sizes of the buffers from the firmware. -/
theorem ofResponse_getBufferSize (f : Firmware) (wValue wIndex : UInt16) :
    ofResponse (f.usbFunctionSetup ⟨PROTO_CMD_GET_BUFFER_SIZE, wValue, wIndex⟩).response =
      connected := by
  have hsetup : f.usbFunctionSetup ⟨PROTO_CMD_GET_BUFFER_SIZE, wValue, wIndex⟩ =
      ({ f with userRw := false }).respond [PROTO_RC_OK, 4, 1, 0, 192, 0, 7] := rfl
  rw [hsetup, ofResponse, connected]
  simp [respond]

/-! ## The upload -/

theorem writeLoop_append {n : ℕ} (dst : Vector UInt8 n) (offset : UInt8) (a b : List UInt8) :
    writeLoop dst offset (a ++ b) = (do
      let (dst, offset) ← writeLoop dst offset a
      writeLoop dst offset b) := by
  induction a generalizing dst offset with
  | nil => rfl
  | cons x a ih =>
    rw [List.cons_append, writeLoop, writeLoop]
    split_ifs with hend hlt
    · cases b with
      | nil => rfl
      | cons y b => exact (if_pos hend).symm
    · exact ih _ _
    · rfl

/-- A data stage of the size of its destination fills it. -/
theorem writeLoop_fill {n : ℕ} (hn : n < 256) (dst src : Vector UInt8 n) :
    ∃ offset, writeLoop dst 0 src.toList = .ok (src, offset) := by
  obtain ⟨dst', offset, hloop, hdst⟩ := writeLoop_front hn dst src.toList
  have heq : dst'.toList = src.toList := by
    rw [hdst, List.take_of_length_le (by simp), List.drop_of_length_le (by simp), List.append_nil]
  rw [Vector.toList_inj] at heq
  exact ⟨offset, by rw [hloop, heq]⟩

theorem usbFunctionWrite_nil (f : Firmware) : f.usbFunctionWrite [] = .ok f := by
  unfold usbFunctionWrite
  split_ifs <;> rfl

theorem usbFunctionWrite_append (f : Firmware) (a b : List UInt8) :
    f.usbFunctionWrite (a ++ b) = (do
      let f ← f.usbFunctionWrite a
      f.usbFunctionWrite b) := by
  unfold usbFunctionWrite
  by_cases hsample : f.command = PROTO_CMD_SAMPLE_VECTOR_WRITE
  · simp only [if_pos hsample, writeLoop_append]
    cases writeLoop f.sampleVector f.ioBufferOffset a with
    | error => rfl
    | ok r => exact (if_pos hsample).symm
  simp only [if_neg hsample]
  by_cases hpulse : f.command = PROTO_CMD_PULSE_VECTOR_WRITE
  · simp only [if_pos hpulse, writeLoop_append]
    cases writeLoop f.ioBuffer f.ioBufferOffset a with
    | error => rfl
    | ok r => exact ((if_neg hsample).trans (if_pos hpulse)).symm
  · simp only [if_neg hpulse, writeLoop_append]
    cases writeLoop #v[] f.ioBufferOffset a with
    | error => rfl
    | ok r =>
      obtain ⟨dst, offset⟩ := r
      obtain rfl : dst = #v[] := Vector.eq_empty
      exact ((if_neg hsample).trans (if_neg hpulse)).symm

/-- It does not matter how a data stage is cut into packets. -/
theorem foldlM_dataOut {f : Firmware} (hf : f.userRw) (packets : List (List UInt8)) :
    (packets.map Event.dataOut).foldlM step f = f.usbFunctionWrite packets.flatten := by
  induction packets generalizing f with
  | nil => exact (usbFunctionWrite_nil f).symm
  | cons p packets ih =>
    rw [List.map_cons, List.foldlM_cons, List.flatten_cons, usbFunctionWrite_append, step,
      if_pos hf]
    cases hwrite : f.usbFunctionWrite p with
    | error => rfl
    | ok g =>
      obtain ⟨sampleVector, ioBuffer, offset, rfl, -⟩ := usbFunctionWrite_eq_ok hwrite
      exact ih hf

theorem foldlM_carries (f : Firmware) {rq : SetupRequest} (hrq : IsVectorCommand rq.bRequest)
    {data : List UInt8} {es : List Event} (h : ControlTransfer.Carries ⟨rq, data⟩ es) :
    es.foldlM step f =
      ({ f with ioBufferOffset := 0, command := rq.bRequest, userRw := true }).usbFunctionWrite
        data := by
  obtain ⟨packets, hpackets, rfl⟩ := h
  rw [List.foldlM_cons, step, usbFunctionSetup_vector f hrq]
  refine (foldlM_dataOut rfl packets).trans ?_
  rw [hpackets]

theorem upload_sampleVector (f : Firmware) {rq : SetupRequest}
    (hrq : rq.bRequest = PROTO_CMD_SAMPLE_VECTOR_WRITE) (src : Vector UInt8 7) {es : List Event}
    (h : ControlTransfer.Carries ⟨rq, src.toList⟩ es) :
    ∃ g, es.foldlM step f = .ok g ∧ g.sampleVector = src ∧ g.ioBuffer = f.ioBuffer := by
  obtain ⟨offset, hloop⟩ := writeLoop_fill (by decide) f.sampleVector src
  rw [foldlM_carries f (.inr (.inr (.inr hrq))) h, usbFunctionWrite, if_pos hrq]
  dsimp only
  rw [hloop]
  exact ⟨_, rfl, rfl, rfl⟩

theorem upload_ioBuffer (f : Firmware) {rq : SetupRequest}
    (hrq : rq.bRequest = PROTO_CMD_PULSE_VECTOR_WRITE) (src : Vector UInt8 192) {es : List Event}
    (h : ControlTransfer.Carries ⟨rq, src.toList⟩ es) :
    ∃ g, es.foldlM step f = .ok g ∧ g.ioBuffer = src ∧ g.sampleVector = f.sampleVector := by
  obtain ⟨offset, hloop⟩ := writeLoop_fill (by decide) f.ioBuffer src
  have hne : rq.bRequest ≠ PROTO_CMD_SAMPLE_VECTOR_WRITE := by
    rw [hrq]
    decide
  rw [foldlM_carries f (.inr (.inl hrq)) h, usbFunctionWrite, if_neg hne, if_pos hrq]
  dsimp only
  rw [hloop]
  exact ⟨_, rfl, rfl, rfl⟩

/-! ## The player -/

theorem pulseIdx_eq (opOffset : UInt16) (byte : UInt8) :
    pulseIdx opOffset byte = Nibble.read byte opOffset.toNat := by
  unfold pulseIdx Nibble.read
  simp only [Nibble.and_one_ne_zero_iff]

/-- A run of the handler that finds the nibble `idx`. -/
theorem timer0Compa_eq {f : Firmware} {k : ℕ} (hk : f.opOffset.toNat = k) (hlt : k / 2 < 192)
    (hend : f.opOffset ≠ f.opLength) {idx : UInt8} (hidx : Nibble.read f.ioBuffer[k / 2] k = idx) :
    f.timer0Compa =
      if idx &&& 0x07 = 0x07 then .ok f.stopTx
      else do
        let width ← f.readSampleVector (idx &&& 0x07)
        return { f with
          ocr0a := width - 1, coilOutput := decide (idx &&& 0x08 = 0),
          opOffset := f.opOffset + 1 } := by
  have hindex : (f.opOffset >>> 1).toNat = k / 2 := by rw [Nibble.toNat_shiftRight_one, hk]
  have hread : f.readIoBuffer (f.opOffset >>> 1) = .ok f.ioBuffer[k / 2] := by
    unfold readIoBuffer
    simp only [hindex, dif_pos hlt]
  rw [timer0Compa, if_neg hend, hread]
  simp only [pulseIdx_eq, hk, ← hidx]
  rfl

theorem playback_stop {f : Firmware} (h : f.timer0Compa = .ok f.stopTx) {n : ℕ} (hn : 1 ≤ n) :
    playback n f = some [] := by
  obtain ⟨n, rfl⟩ := Nat.exists_eq_add_of_le' hn
  rw [playback, h]
  rfl

/-- The firmware plays a buffer of nibbles from the one with index `k` on. -/
structure Playing (f : Firmware) (table : Vector UInt8 7) (l : List UInt8) (k : ℕ) : Prop where
  state : f.state ≠ .finished
  table : f.sampleVector = table
  packed : Nibble.Packed f.ioBuffer l
  offset : f.opOffset.toNat = k
  length : f.opLength = 384

theorem Playing.offset_ne {f : Firmware} {table : Vector UInt8 7} {l : List UInt8} {k : ℕ}
    (h : f.Playing table l k) (hk : k < 384) : f.opOffset ≠ f.opLength := by
  intro heq
  have hnat := congrArg UInt16.toNat heq
  rw [h.offset, h.length] at hnat
  simp only [UInt16.reduceToNat] at hnat
  omega

/-- A nibble that selects entry `i` is played. -/
theorem Playing.playback_succ {f : Firmware} {table : Vector UInt8 7} {l : List UInt8} {k : ℕ}
    (h : f.Playing table l k) (hk : k < 384) {i : ℕ} (hi : i < 7)
    (hidx : (Nibble.packed l k &&& 0x07).toNat = i) (n : ℕ) :
    ∃ g, g.Playing table l (k + 1) ∧
      playback (n + 1) f = (playback n g).map
        ((((table[i] - 1).toNat : ℤ) + 1, decide (Nibble.packed l k &&& 0x08 = 0)) :: ·) := by
  have hnext := UInt16.toNat_add_one h.offset (by omega)
  have hne : Nibble.packed l k &&& 0x07 ≠ 0x07 := by
    intro heq
    rw [heq] at hidx
    simp only [UInt8.reduceToNat] at hidx
    omega
  have hwidth : f.readSampleVector (Nibble.packed l k &&& 0x07) = .ok table[i] := by
    unfold readSampleVector
    simp only [hidx, dif_pos hi, h.table]
  have hstep := timer0Compa_eq h.offset (by omega) (h.offset_ne hk) (h.packed k (by omega))
  rw [if_neg hne, hwidth] at hstep
  refine ⟨{ f with
    ocr0a := table[i] - 1, coilOutput := decide (Nibble.packed l k &&& 0x08 = 0),
    opOffset := f.opOffset + 1 }, ⟨h.state, h.table, h.packed, hnext, h.length⟩, ?_⟩
  rw [playback, hstep]
  exact if_neg h.state

/-- The terminator, or the end of the buffer. -/
theorem Playing.playback_end {f : Firmware} {table : Vector UInt8 7} {l : List UInt8} {k : ℕ}
    (h : f.Playing table l k) (hk : k ≤ 384) (hlength : l.length ≤ k) (heven : k % 2 = 0)
    {n : ℕ} (hn : 1 ≤ n) : playback n f = some [] := by
  refine playback_stop ?_ hn
  rcases Nat.lt_or_eq_of_le hk with hlt | rfl
  · have hpacked : Nibble.packed l k = 0x0f := Nibble.packed_of_ge hlength (by omega)
    rw [timer0Compa_eq h.offset (by omega) (h.offset_ne hlt) (h.packed k (by omega)), hpacked]
    rfl
  · rw [timer0Compa, if_pos]
    rw [h.length, ← UInt16.toNat_inj, h.offset]
    rfl

/-! ## A list of samples -/

/-- The timer period for a pulse of the table. -/
theorem ofInt_sub_one {p : ℤ} (h1 : 1 ≤ p) (h2 : p ≤ 255) :
    ((UInt8.ofInt p - 1).toNat : ℤ) + 1 = p := by
  obtain ⟨m, rfl⟩ := Int.eq_ofNat_of_zero_le (by omega : 0 ≤ p)
  have hm : (UInt8.ofInt m).toNat = m := by
    rw [UInt8.ofInt, UInt8.toNat_ofNat']
    omega
  have hle : (1 : UInt8) ≤ UInt8.ofInt m := by
    rw [UInt8.le_iff_toNat_le, hm]
    simp only [UInt8.reduceToNat]
    omega
  rw [UInt8.toNat_sub_of_le _ _ hle, hm]
  simp only [UInt8.reduceToNat]
  omega

/-- What the handler plays behind the samples: for a list of odd length the nibble zero,
which selects the pulse `width`. -/
def rest (width : UInt8) (length : ℕ) : List (ℤ × Bool) :=
  if length % 2 = 1 then [(((width - 1).toNat : ℤ) + 1, true)] else []

theorem Playing.playback_rest {f : Firmware} {table : Vector UInt8 7} {l : List UInt8}
    (h : f.Playing table l l.length) (hle : l.length ≤ 384) {n : ℕ} (hn : 1 + l.length % 2 ≤ n) :
    playback n f = some (rest table[0] l.length) := by
  unfold rest
  split_ifs with hodd
  · obtain ⟨n, rfl⟩ := Nat.exists_eq_add_of_le' (by omega : 1 ≤ n)
    obtain ⟨g, hg, hplay⟩ := h.playback_succ (by omega) (i := 0) (by decide)
      (by rw [Nibble.packed_length_odd hodd]; rfl) n
    rw [hplay, hg.playback_end (by omega) (by omega) (by omega) (by omega),
      Nibble.packed_length_odd hodd]
    rfl
  · exact h.playback_end hle (Nat.le_refl _) (by omega) (by omega)

section Samples

variable {samples : List Sample} (hpulses : (pulses samples).length ≤ 7)
  (hrange : ∀ sample ∈ samples, 1 ≤ periods sample ∧ periods sample ≤ 255)

include hpulses hrange

/-- The handler plays a sample as it is wanted. -/
theorem Playing.playback_sample {f : Firmware} {done todo : List Sample} {sample : Sample}
    (hsplit : samples = done ++ sample :: todo) (hle : samples.length ≤ 384)
    (h : f.Playing (pulseTable 7 (pulses samples)) (samples.map (sampleValue (pulses samples)))
      done.length) (n : ℕ) :
    ∃ g, g.Playing (pulseTable 7 (pulses samples)) (samples.map (sampleValue (pulses samples)))
        (done.length + 1) ∧
      playback (n + 1) f = (playback n g).map (sample.wanted :: ·) := by
  have hmem : sample ∈ samples := by simp [hsplit]
  have hlt : done.length < samples.length := by simp [hsplit]
  have hi := (idxOf_lt hmem).trans_le hpulses
  obtain ⟨-, hindex, hlevel⟩ := sampleValue_spec hi
  have hnibble : Nibble.packed (samples.map (sampleValue (pulses samples))) done.length =
      sampleValue (pulses samples) sample := by
    rw [Nibble.packed_of_lt (by rwa [List.length_map]), List.getElem_map]
    simp [hsplit]
  have hentry : (pulseTable 7 (pulses samples))[(pulses samples).idxOf (periods sample)] =
      UInt8.ofInt (periods sample) := by
    have hget := getElem_pulseTable (n := 7) (by decide) hpulses hmem
    rwa [Vector.getElem?_eq_getElem hi, Option.some.injEq] at hget
  obtain ⟨g, hg, hplay⟩ := h.playback_succ (by omega) hi (by rw [hnibble, hindex]) n
  refine ⟨g, hg, ?_⟩
  rw [hplay, hnibble, hentry, ofInt_sub_one (hrange _ hmem).1 (hrange _ hmem).2]
  have hcoil : decide (sampleValue (pulses samples) sample &&& 0x08 = 0) = sample.isLow := by
    rw [Bool.eq_iff_iff, decide_eq_true_iff]
    exact hlevel
  rw [hcoil, Sample.wanted]

/-- The samples behind the first `done` of them. -/
theorem Playing.playback_samples (hle : samples.length ≤ 384) (todo done : List Sample)
    (hsplit : samples = done ++ todo) {f : Firmware}
    (h : f.Playing (pulseTable 7 (pulses samples)) (samples.map (sampleValue (pulses samples)))
      done.length) {n : ℕ} (hn : todo.length + 1 + samples.length % 2 ≤ n) :
    playback n f = some (todo.map Sample.wanted ++
      rest (pulseTable 7 (pulses samples))[0] samples.length) := by
  induction todo generalizing done f n with
  | nil =>
    rw [List.append_nil] at hsplit
    rw [List.length_nil] at hn
    rw [← hsplit, ← List.length_map (f := sampleValue (pulses samples))] at h
    have hrest := h.playback_rest (n := n) (by rwa [List.length_map])
      (by rw [List.length_map]; omega)
    rwa [List.length_map] at hrest
  | cons sample todo ih =>
    rw [List.length_cons] at hn
    obtain ⟨n, rfl⟩ := Nat.exists_eq_add_of_le' (by omega : 1 ≤ n)
    obtain ⟨g, hg, hplay⟩ := h.playback_sample hpulses hrange hsplit hle n
    rw [hplay, ih (done ++ [sample]) (by simpa using hsplit) (by simpa using hg) (by omega)]
    rfl

end Samples

/-- What a list of samples is played as. -/
theorem playback_of_upload {samples : List Sample} (hle : samples.length ≤ 384)
    (hpulses : (pulses samples).length ≤ 7)
    (hrange : ∀ sample ∈ samples, 1 ≤ periods sample ∧ periods sample ≤ 255) {f : Firmware}
    (htable : f.sampleVector = pulseTable 7 (pulses samples))
    (hpacked : Nibble.Packed f.ioBuffer (samples.map (sampleValue (pulses samples))))
    (hstate : f.state = .tx) (hoffset : f.opOffset = 0) (hlength : f.opLength = 384) {n : ℕ}
    (hn : 385 ≤ n) :
    playback n f = some (samples.map Sample.wanted ++
      rest (pulseTable 7 (pulses samples))[0] samples.length) := by
  have hplaying : f.Playing (pulseTable 7 (pulses samples))
      (samples.map (sampleValue (pulses samples))) 0 :=
    ⟨by simp [hstate], htable, hpacked, by rw [hoffset]; rfl, hlength⟩
  exact hplaying.playback_samples hpulses hrange hle samples [] rfl (by omega)

/-- The whole way, up to what the handler plays. -/
theorem exists_upload {samples : List Sample} (hle : samples.length ≤ 384)
    (hpulses : (pulses samples).length ≤ 7)
    (hrange : ∀ sample ∈ samples, 1 ≤ periods sample ∧ periods sample ≤ 255) :
    ∃ table buffer start, connected.putSamples samples = .ok [table, buffer, start] ∧
      ∀ es es', table.Carries es → buffer.Carries es' → ∀ f : Firmware,
        ∃ g, (es ++ es').foldlM step f = .ok g ∧
          ∀ h : Firmware, h.sampleVector = g.sampleVector → h.ioBuffer = g.ioBuffer →
            h.state = .tx → h.opOffset = 0 → h.opLength = 384 →
            ∀ n ≥ 385, playback n h = some (samples.map Sample.wanted ++
              rest (pulseTable 7 (pulses samples))[0] samples.length) := by
  obtain ⟨buffer, hput, hpacked⟩ := putSamples_connected hle hpulses
  refine ⟨_, _, _, hput, fun es es' hes hes' f => ?_⟩
  obtain ⟨g, hg, htable, -⟩ := upload_sampleVector f rfl _ hes
  obtain ⟨g', hg', hbuffer, hkeep⟩ := upload_ioBuffer g rfl _ hes'
  refine ⟨g', ?_, fun h hsample hio hstate hoffset hlength n hn => ?_⟩
  · rw [List.foldlM_append, hg]
    exact hg'
  · refine playback_of_upload hle hpulses hrange ?_ ?_ hstate hoffset hlength hn
    · rw [hsample, hkeep, htable]
    · rw [hio, hbuffer]
      exact hpacked

theorem rest_eq_nil_iff (width : UInt8) (length : ℕ) :
    rest width length = [] ↔ Even length := by
  rw [Nat.even_iff, rest]
  split_ifs with hodd
  · simp [hodd]
  · simp
    omega

/-- A list that is played as it is has an even length. -/
theorem Transmits.even {samples : List Sample} (h : Transmits samples)
    (hle : samples.length ≤ 384) (hpulses : (pulses samples).length ≤ 7)
    (hrange : ∀ sample ∈ samples, 1 ≤ periods sample ∧ periods sample ≤ 255) :
    Even samples.length := by
  obtain ⟨table, buffer, start, hput, hplay⟩ := h
  obtain ⟨table', buffer', start', hput', hplay'⟩ := exists_upload hle hpulses hrange
  rw [hput] at hput'
  cases hput'
  have hcarries (t : ControlTransfer) : t.Carries (.setup t.request :: [t.data].map .dataOut) :=
    ⟨[t.data], by simp, rfl⟩
  obtain ⟨g, hg, hwanted⟩ := hplay _ _ (hcarries table) (hcarries buffer) init
  obtain ⟨g', hg', hplayed⟩ := hplay' _ _ (hcarries table) (hcarries buffer) init
  rw [hg] at hg'
  cases hg'
  have heq := hwanted { g with state := .tx, opOffset := 0, opLength := 384 } rfl rfl rfl rfl rfl
    385 (Nat.le_refl _)
  rw [hplayed { g with state := .tx, opOffset := 0, opLength := 384 } rfl rfl rfl rfl rfl
    385 (Nat.le_refl _)] at heq
  exact (rest_eq_nil_iff _ _).mp (by simpa using heq)

/-- A list of samples is played as it is if and only if its length is even. -/
theorem transmits_iff {samples : List Sample} (hle : samples.length ≤ 384)
    (hpulses : (samples.map periods).toFinset.card ≤ 7)
    (hrange : ∀ sample ∈ samples, 1 ≤ periods sample ∧ periods sample ≤ 255) :
    Transmits samples ↔ Even samples.length := by
  rw [← length_pulses] at hpulses
  refine ⟨fun h => h.even hle hpulses hrange, fun heven => ?_⟩
  obtain ⟨table, buffer, start, hput, hplay⟩ := exists_upload hle hpulses hrange
  rw [(rest_eq_nil_iff _ _).mpr heven, List.append_nil] at hplay
  exact ⟨table, buffer, start, hput, hplay⟩

theorem transmits_iff_two :
    Transmits [⟨256, true⟩, ⟨80, false⟩] ↔ Even [Sample.mk 256 true, ⟨80, false⟩].length :=
  transmits_iff (by decide) (by decide) (by decide)

/-- A single sample is followed by a step that nobody asked for. -/
theorem not_transmits :
    ¬∀ samples : List Sample, 1 ≤ samples.length → samples.length ≤ 384 →
      (samples.map periods).toFinset.card ≤ 7 →
      (∀ sample ∈ samples, 1 ≤ periods sample ∧ periods sample ≤ 255) → Transmits samples := by
  intro h
  have hone := h [⟨256, true⟩] (by decide) (by decide) (by decide) (by decide)
  exact absurd (hone.even (by decide) (by decide) (by decide)) (by decide)

end Firmware

end RfidTool

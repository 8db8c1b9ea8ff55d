import RfidTool.Library.BitBuffer
import RfidTool.Library.RunLength
import RfidTool.Rfid.InterfaceUsbImpl

/-!
# `getSamples` and run-length encoding

The loop of `getSamples` should encode the bits of the buffer run by run, without the
last run, of which the end is not known. Its first round sees the start state -1, and
its branch leaves the length of the run at zero: the first run is one bit short. Where
there is one run only, it is the one that is left out.
-/

namespace RfidTool

namespace InterfaceUsbImpl

open RunLength

/-- The sample of a run of bits. -/
def runSample (run : Bool × ℕ) : Sample := ⟨run.2 * CARRIER_US * prescaler, !run.1⟩

/-- The bits of some samples. -/
def expandSamples (samples : List Sample) : List Bool :=
  samples.flatMap fun sample =>
    List.replicate (sample.getLengthUs / (CARRIER_US * prescaler)).toNat sample.isLow

/-- `getSamples` is the encoding of the buffer without its last run; the samples in full
are the bits up to the start of that run. -/
structure IsRunLength (samplesBuffer : List UInt8) : Prop where
  samples : getSamples PROTO_TRANSFER_STATUS_OK samplesBuffer =
    .ok ((runs (sampleBits samplesBuffer)).dropLast.map runSample)
  expand : ∃ samples, getSamples PROTO_TRANSFER_STATUS_OK samplesBuffer = .ok samples ∧
    expandSamples samples ++ expand (runs (sampleBits samplesBuffer)).getLast?.toList =
      sampleBits samplesBuffer

/-! ## The loop -/

/-- `currentState` for a bit. -/
def stateOf (bit : Bool) : ℤ := if bit then 1 else 0

/-- A round behind the first one. -/
theorem SamplesLoop.round_eq (a b : Bool) (n : ℕ) (ret : List Sample) :
    SamplesLoop.round ⟨stateOf a, n, ret⟩ b =
      if b = a then ⟨stateOf a, (n + 1 : ℕ), ret⟩
      else ⟨stateOf b, 1, ret ++ [runSample (a, n)]⟩ := by
  cases a <;> cases b <;> simp [SamplesLoop.round, stateOf, runSample]

/-- The rounds behind the first one encode the runs, up to the last one. -/
theorem SamplesLoop.ret_foldl (a : Bool) (n : ℕ) (ret : List Sample) (bits : List Bool) :
    (bits.foldl SamplesLoop.round ⟨stateOf a, n, ret⟩).ret =
      ret ++ (runsFrom a n bits).dropLast.map runSample := by
  induction bits generalizing a n ret with
  | nil => simp [runsFrom]
  | cons b bits ih =>
    rw [List.foldl_cons, SamplesLoop.round_eq, runsFrom]
    split_ifs with h
    · exact ih a (n + 1) ret
    · have hrest := ih b 1 (ret ++ [runSample (a, n)])
      rw [List.append_assoc, List.singleton_append] at hrest
      rw [List.dropLast_cons_of_ne_nil (runsFrom_ne_nil b 1 bits), List.map_cons, ← hrest]
      rfl

/-- The first round does not count its bit. -/
theorem getSamples_eq {samplesBuffer : List UInt8} {a : Bool} {bits : List Bool}
    (h : sampleBits samplesBuffer = a :: bits) :
    getSamples PROTO_TRANSFER_STATUS_OK samplesBuffer =
      .ok ((runsFrom a 0 bits).dropLast.map runSample) := by
  have hfirst : SamplesLoop.round .start a = ⟨stateOf a, (0 : ℕ), []⟩ := by
    cases a <;> rfl
  rw [getSamples, if_neg (by simp), h, List.foldl_cons, hfirst, SamplesLoop.ret_foldl]
  rfl

/-! ## The encoding -/

theorem expandSamples_map (rs : List (Bool × ℕ)) :
    expandSamples (rs.map runSample) = expand rs := by
  induction rs with
  | nil => rfl
  | cons r rs ih =>
    rw [expandSamples] at ih ⊢
    rw [expand] at ih ⊢
    rw [List.map_cons, List.flatMap_cons, List.flatMap_cons, ih]
    congr 2
    · simp only [runSample, Sample.getLengthUs, CARRIER_US, prescaler]
      omega
    · simp [runSample, Sample.isLow]

/-- The encoding reproduces the bits up to the start of the last run. -/
theorem expandSamples_dropLast (bits : List Bool) :
    expandSamples ((runs bits).dropLast.map runSample) ++ expand (runs bits).getLast?.toList =
      bits := by
  have hsplit : (runs bits).dropLast ++ (runs bits).getLast?.toList = runs bits := by
    cases hlast : (runs bits).getLast? with
    | none => simp [List.getLast?_eq_none_iff.mp hlast]
    | some r => exact List.dropLast_append_getLast? r hlast
  rw [expandSamples_map, expand, expand, ← List.flatMap_append, hsplit]
  exact expand_runs bits

theorem IsRunLength.of_samples {samplesBuffer : List UInt8}
    (h : getSamples PROTO_TRANSFER_STATUS_OK samplesBuffer =
      .ok ((runs (sampleBits samplesBuffer)).dropLast.map runSample)) :
    IsRunLength samplesBuffer :=
  ⟨h, _, h, expandSamples_dropLast _⟩

/-- The first run is right only where it is left out. -/
theorem isRunLength_iff_of_cons {samplesBuffer : List UInt8} {a : Bool} {bits : List Bool}
    (h : sampleBits samplesBuffer = a :: bits) :
    IsRunLength samplesBuffer ↔ ∀ b ∈ bits, b = a := by
  obtain ⟨m, rest, hrest, hruns⟩ := exists_runsFrom_eq a bits
  have hcode := getSamples_eq h
  have hspec : runs (sampleBits samplesBuffer) = (a, 1 + m) :: rest := by
    rw [h]
    exact hruns 1
  rw [hruns] at hcode
  rw [← hrest]
  constructor
  · intro hrun
    have hsamples := hrun.samples
    rw [hcode, hspec] at hsamples
    by_contra hne
    rw [List.dropLast_cons_of_ne_nil hne, List.dropLast_cons_of_ne_nil hne, List.map_cons,
      List.map_cons] at hsamples
    simp only [Except.ok.injEq, List.cons.injEq, runSample, Sample.mk.injEq, CARRIER_US,
      prescaler] at hsamples
    obtain ⟨⟨hlength, -⟩, -⟩ := hsamples
    omega
  · rintro rfl
    refine IsRunLength.of_samples ?_
    rw [hcode, hspec]
    rfl

/-- All bits of the buffer are equal. -/
theorem forall_sampleBits_iff (samplesBuffer : List UInt8) (a : Bool) :
    (∀ b ∈ sampleBits samplesBuffer, b = a) ↔
      ∀ byte ∈ samplesBuffer, byte = if a then 0xff else 0 := by
  rw [sampleBits_eq, BitBuffer.bits]
  simp only [List.mem_flatMap, forall_exists_index, and_imp, ← BitBuffer.forall_mem_byteBits]
  exact ⟨fun h byte hbyte b hb => h b byte hbyte hb, fun h b byte hbyte hb => h byte hbyte b hb⟩

/-- `getSamples` is the encoding if and only if the buffer holds a single level. -/
theorem isRunLength_iff (samplesBuffer : List UInt8) :
    IsRunLength samplesBuffer ↔
      (∀ byte ∈ samplesBuffer, byte = 0) ∨ (∀ byte ∈ samplesBuffer, byte = 0xff) := by
  have hlow := forall_sampleBits_iff samplesBuffer false
  have hhigh := forall_sampleBits_iff samplesBuffer true
  simp only [Bool.false_eq_true, if_false, if_true] at hlow hhigh
  rw [← hlow, ← hhigh]
  cases hbits : sampleBits samplesBuffer with
  | nil =>
    refine iff_of_true (IsRunLength.of_samples ?_) (.inl (by simp))
    rw [getSamples, if_neg (by simp), hbits]
    rfl
  | cons a bits =>
    rw [isRunLength_iff_of_cons hbits]
    cases a <;> simp

/-- The first run of one bit is a sample of length zero. -/
theorem not_isRunLength : ¬∀ samplesBuffer : List UInt8, IsRunLength samplesBuffer := by
  intro h
  have hsamples := (h [1]).samples
  revert hsamples
  decide

end InterfaceUsbImpl

end RfidTool

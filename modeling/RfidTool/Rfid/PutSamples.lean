import RfidTool.Firmware.Transmit

/-!
# What `putSamples` accepts

The number of different pulses is checked before the first transfer. The number of
samples is not, although there is an exception for it, and a pulse goes into its byte of
the table whatever its length: 256 carrier periods become the entry zero, which the
firmware plays as 256 periods, and a pulse shorter than a period becomes zero too.
-/

namespace RfidTool

namespace InterfaceUsbImpl

/-- Either nothing is sent, or the tables that are sent hold every sample: its nibble is
inside the buffer, and selects an entry that is its number of carrier periods. -/
def Represents (device : InterfaceUsbImpl) (samples : List Sample) : Prop :=
  device.putSamples samples = .error .tooManyPulses ∨
    ∃ table buffer start, device.putSamples samples = .ok [table, buffer, start] ∧
      samples.length ≤ 2 * device.sampleVectorSize.toNat ∧
      ∀ k, ∀ hk : k < samples.length, ∃ byte pulse,
        buffer.data[k / 2]? = some byte ∧ (Nibble.read byte k &&& 0x07).toNat ≤ 6 ∧
          table.data[(Nibble.read byte k &&& 0x07).toNat]? = some pulse ∧
          (pulse.toNat : ℤ) = periods samples[k] ∧
          1 ≤ periods samples[k] ∧ periods samples[k] ≤ 255

/-- The device as the constructor finds it. -/
def ofFirmware (f : Firmware) : InterfaceUsbImpl :=
  ofResponse (f.usbFunctionSetup ⟨PROTO_CMD_GET_BUFFER_SIZE, 0, 0⟩).response

/-- The samples fit into the tables. -/
def Fits (samples : List Sample) : Prop :=
  samples.length ≤ 384 ∧ ∀ sample ∈ samples, 1 ≤ periods sample ∧ periods sample ≤ 255

theorem putSamples_eq_error {samples : List Sample} (h : 7 < (pulses samples).length) :
    connected.putSamples samples = .error .tooManyPulses := if_pos h

/-- The loop that writes the nibbles throws nothing; it can only leave its buffer. -/
theorem foldlM_putSample_ne {n : ℕ} (pulses : List ℤ) (samples : List Sample)
    (r : Vector UInt8 n × UInt16) :
    samples.foldlM (putSample pulses) r ≠ .error .tooManyPulses := by
  induction samples generalizing r with
  | nil =>
    intro h
    cases h
  | cons sample samples ih =>
    rw [List.foldlM_cons]
    cases hput : putSample pulses r sample with
    | ok r' => exact ih r'
    | error e =>
      unfold putSample at hput
      dsimp only at hput
      split_ifs at hput
      cases hput
      intro h
      cases h

/-- The exception for too many pulses is thrown for nothing else. -/
theorem of_putSamples_eq_error {samples : List Sample}
    (h : connected.putSamples samples = .error .tooManyPulses) :
    7 < (pulses samples).length := by
  by_contra hle
  unfold putSamples at h
  dsimp only at h
  rw [if_neg (show ¬(pulses samples).length > connected.pulseVectorSize.toNat from hle)] at h
  cases hbuffer : sampleBuffer connected.sampleVectorSize.toNat (pulses samples) samples with
  | ok r =>
    rw [hbuffer] at h
    cases h
  | error e =>
    rw [hbuffer] at h
    obtain rfl : e = .tooManyPulses := Except.error.inj h
    exact foldlM_putSample_ne _ _ _ hbuffer

/-- An entry of the table for a pulse that a byte can hold. -/
theorem toNat_ofInt {p : ℤ} (h0 : 0 ≤ p) (h255 : p ≤ 255) : ((UInt8.ofInt p).toNat : ℤ) = p := by
  obtain ⟨m, rfl⟩ := Int.eq_ofNat_of_zero_le h0
  rw [UInt8.ofInt, UInt8.toNat_ofNat']
  omega

/-- The samples that fit are sent as they are. -/
theorem Represents.of_fits {samples : List Sample} (hpulses : (pulses samples).length ≤ 7)
    (h : Fits samples) : connected.Represents samples := by
  obtain ⟨hle, hrange⟩ := h
  obtain ⟨buffer, hput, hpacked⟩ := putSamples_connected hle hpulses
  refine .inr ⟨_, _, _, hput, hle, fun k hk => ?_⟩
  have hmem : samples[k] ∈ samples := List.getElem_mem hk
  obtain ⟨h1, h255⟩ := hrange _ hmem
  have hindex := (idxOf_lt hmem).trans_le hpulses
  have hnibble : Nibble.read buffer[k / 2] k = sampleValue (pulses samples) samples[k] := by
    rw [hpacked k (by omega), Nibble.packed_of_lt (by rwa [List.length_map]), List.getElem_map]
  have hselect := (sampleValue_spec hindex).2.1
  refine ⟨buffer[k / 2], UInt8.ofInt (periods samples[k]), ?_, ?_, ?_, ?_, h1, h255⟩
  · have hhalf : k / 2 < 192 := by omega
    simp [hhalf]
  · rw [hnibble, hselect]
    omega
  · rw [hnibble, hselect, Vector.getElem?_toList]
    exact getElem_pulseTable (by decide) hpulses hmem
  · exact toNat_ofInt (by omega) h255

/-- `putSamples` throws before the first transfer or sends all samples, if and only if
there are too many pulses or the samples fit. -/
theorem represents_iff (f : Firmware) (samples : List Sample) :
    (ofFirmware f).Represents samples ↔
      7 < (samples.map periods).toFinset.card ∨ Fits samples := by
  rw [ofFirmware, Firmware.ofResponse_getBufferSize, ← length_pulses]
  constructor
  · rintro (hthrow | ⟨table, buffer, start, -, hle, hsent⟩)
    · exact .inl (of_putSamples_eq_error hthrow)
    · refine .inr ⟨hle, fun sample hmem => ?_⟩
      obtain ⟨k, hk, rfl⟩ := List.mem_iff_getElem.mp hmem
      obtain ⟨byte, pulse, -, -, -, -, hrange⟩ := hsent k hk
      exact hrange
  · intro h
    rcases Nat.lt_or_ge 7 (pulses samples).length with hmany | hfew
    · exact .inl (putSamples_eq_error hmany)
    · exact .of_fits hfew (h.resolve_left (by omega))

/-- A pulse of 257 carrier periods is sent as one of a single period. -/
theorem not_represents :
    ¬∀ (f : Firmware) (samples : List Sample), (ofFirmware f).Represents samples := by
  intro h
  have hone := h Firmware.init [⟨2056, true⟩]
  rw [ofFirmware, Firmware.ofResponse_getBufferSize] at hone
  rcases hone with hthrow | ⟨table, buffer, start, -, -, hsent⟩
  · exact absurd (of_putSamples_eq_error hthrow) (by decide)
  · obtain ⟨byte, pulse, -, -, -, -, -, h255⟩ := hsent 0 (by decide)
    exact absurd h255 (by decide)

end InterfaceUsbImpl

end RfidTool

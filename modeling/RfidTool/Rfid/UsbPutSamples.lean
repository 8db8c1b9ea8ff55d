import RfidTool.Firmware.Playback
import RfidTool.Rfid.Connect
import RfidTool.Rfid.PutSamples
import RfidTool.Rfid.UsbTransfer

/-!
# `putSamples` over the device

From the list of samples to the coil, through the packets of four control transfers: whatever
the order of tokens, polls, conversions and timer interrupts that the transfers allow, a
`putSamples` of samples that fit and that returns has had the coil driven by the samples, once
and in order, and by nothing else. Where it throws, nothing
was sent, a call of the USB library has failed, or the transmission of the samples was not over
in time.
-/

namespace RfidTool.UsbInterface

open Interaction UsbDriver InterfaceUsbImpl

/-- What the coil is driven by for a list of samples. Behind a list of odd length comes the
shortest pulse. -/
def played (samples : List Sample) : List (ℤ × Bool) :=
  samples.map Sample.wanted ++
    Firmware.rest ((pulseTable 7 (InterfaceUsbImpl.pulses samples)).toList.headD 0) samples.length

/-- The tables of the firmware are those of the samples. -/
structure Uploaded (samples : List Sample) (f : Firmware) : Prop where
  resting : f.Resting
  sampleVector : f.sampleVector = pulseTable 7 (InterfaceUsbImpl.pulses samples)
  ioBuffer : Nibble.Packed f.ioBuffer (samples.map (sampleValue (InterfaceUsbImpl.pulses samples)))

/-- How `putSamples` may end. -/
def Puts (samples : List Sample) (d : UsbDriver) : Outcome Unit
  | .ok (), tr, d' => d'.Sound ∧ d'.firmware.Resting ∧
    Firmware.played (trace Firmware.step d.firmware (events tr)) = played samples
  | .error .tooManyPulses, tr, d' =>
    7 < (samples.map periods).toFinset.card ∧ tr = [] ∧ d' = d
  | .error (.invalidResponse n), _, _ => n < 0
  | .error .invalidState, tr, d' => ∃ f es es' ended, events tr = es ++ es' ∧
    es.foldlM Firmware.step d.firmware = .ok f ∧ Uploaded samples f ∧
    Firmware.Polled startRequest f es' ended d'.firmware ∧ ¬ended.IsOver
  | .error _, _, _ => False

theorem headD_toList (table : Vector UInt8 7) (h : 0 < 7) :
    table.toList.headD 0 = table.get ⟨0, h⟩ := by
  obtain ⟨⟨l⟩, hl⟩ := table
  match l, hl with
  | [_, _, _, _, _, _, _], _ => rfl

/-- The transmission of the tables. -/
theorem Uploaded.plays {samples : List Sample} (hfits : Fits samples)
    (hpulses : (InterfaceUsbImpl.pulses samples).length ≤ 7) {f : Firmware}
    (h : Uploaded samples f) :
    Firmware.Plays f.sampleVector f.ioBuffer (played samples) := by
  intro g htable hbuffer hstate hoffset hlength
  have hplay := Firmware.playback_of_upload hfits.1 hpulses hfits.2 (f := g)
    (htable.trans h.sampleVector) (hbuffer ▸ h.ioBuffer) hstate hoffset hlength (Nat.le_refl 385)
  refine ⟨385, hplay.trans ?_⟩
  rw [played, headD_toList _ (by decide)]
  rfl

/-- The nibbles of the samples. -/
theorem nibbles_eq {samples : List Sample} (hfits : Fits samples)
    (hpulses : (InterfaceUsbImpl.pulses samples).length ≤ 7) :
    ∃ buffer : Vector UInt8 192,
      nibbles 192 (InterfaceUsbImpl.pulses samples) samples = .ok buffer ∧
      Nibble.Packed buffer (samples.map (sampleValue (InterfaceUsbImpl.pulses samples))) := by
  have hvalue : ∀ sample ∈ samples, sampleValue (InterfaceUsbImpl.pulses samples) sample < 16 := by
    intro sample h
    exact (sampleValue_spec ((idxOf_lt h).trans_le hpulses)).1
  obtain ⟨buffer, written, hbuffer, hpacked⟩ := foldlM_putSample (n := 192) (by decide) samples
    hvalue [] _ 0 Nibble.packed_replicate rfl (by simpa using hfits.1)
  refine ⟨buffer, ?_, hpacked⟩
  unfold nibbles sampleBuffer
  rw [hbuffer]

/-- A write of a whole vector of a firmware at rest. -/
theorem writes_vector {v : DataVector} {data : List UInt8} (hlength : data.length = v.size)
    {size : UInt16} {d d' : UsbDriver} {tr : List (UsbDriver × UsbEvent)} (hd : d.Sound)
    (hresting : d.firmware.Resting)
    (h : WritesControl (txRequest v.writeCommand 0 0 size) data d tr d') :
    d'.Sound ∧ d'.firmware.Resting ∧ d'.firmware.bytes v = data ∧
      d'.firmware.bytes v.other = d.firmware.bytes v.other ∧
      (events tr).foldlM Firmware.step d.firmware = .ok d'.firmware ∧
      Firmware.played (trace Firmware.step d.firmware (events tr)) = [] := by
  obtain ⟨hdir, htype⟩ := direction_txRequest v.writeCommand 0 0 size
  obtain ⟨hd', hresting', hbytes, hother, asked, hasked⟩ :=
    h.spec hd htype hdir v rfl hresting
  have hstart := hasked.isStart_eq_false (fun _ h => h)
    (show v.writeCommand ≠ PROTO_CMD_TRANSFER_START by cases v <;> decide)
  have hall : (d.firmware.bytes v).drop data.length = [] := by
    rw [hlength]
    cases v <;> exact List.drop_of_length_le (by simp [Firmware.bytes, DataVector.size])
  refine ⟨hd', hresting', ?_, hother, hasked.foldlM,
    Firmware.played_eq_nil (hresting.foldlM hasked.foldlM hstart).2.1⟩
  rw [hbytes, hall, List.append_nil, List.take_of_length_le (Nat.le_of_eq hlength)]

/-- The two writes of `putSamples` upload the tables, and play nothing. -/
theorem uploaded_of_writes {samples : List Sample} {buffer : Vector UInt8 192}
    (hpacked : Nibble.Packed buffer (samples.map (sampleValue (InterfaceUsbImpl.pulses samples))))
    {d d₁ d₂ : UsbDriver} {tr₁ tr₂ : List (UsbDriver × UsbEvent)} (hd : d.Sound)
    (hresting : d.firmware.Resting) {size₁ size₂ : UInt16}
    (htable : WritesControl (txRequest PROTO_CMD_SAMPLE_VECTOR_WRITE 0 0 size₁)
      (pulseTable 7 (InterfaceUsbImpl.pulses samples)).toList d tr₁ d₁)
    (hbuffer : WritesControl (txRequest PROTO_CMD_PULSE_VECTOR_WRITE 0 0 size₂) buffer.toList
      d₁ tr₂ d₂) :
    d₂.Sound ∧ Uploaded samples d₂.firmware ∧
      (events tr₁ ++ events tr₂).foldlM Firmware.step d.firmware = .ok d₂.firmware ∧
      Firmware.played (trace Firmware.step d.firmware (events tr₁ ++ events tr₂)) = [] := by
  obtain ⟨hd₁, hresting₁, hsample₁, hbuffer₁, hfold₁, hnothing₁⟩ :=
    writes_vector (v := .sampleVector) Vector.length_toList hd hresting htable
  obtain ⟨hd₂, hresting₂, hbuffer₂, hsample₂, hfold₂, hnothing₂⟩ :=
    writes_vector (v := .ioBuffer) Vector.length_toList hd₁ hresting₁ hbuffer
  refine ⟨hd₂, ⟨hresting₂, Vector.toList_inj.mp (hsample₂.trans hsample₁), ?_⟩, ?_, ?_⟩
  · obtain rfl : d₂.firmware.ioBuffer = buffer := Vector.toList_inj.mp hbuffer₂
    exact hpacked
  · rw [List.foldlM_append, hfold₁]
    exact hfold₂
  · rw [trace_append hfold₁, Firmware.played_append, hnothing₁, hnothing₂]
    rfl

theorem puts_of_resting {samples : List Sample} (hfits : Fits samples) {d : UsbDriver}
    (hd : d.Sound) (hresting : d.firmware.Resting) :
    wp UsbLibrary (firmwareInterface.putSamples samples) (Puts samples d) d := by
  unfold putSamples
  dsimp only
  by_cases hmany :
      (InterfaceUsbImpl.pulses samples).length > firmwareInterface.pulseVectorSize.toNat
  · rw [if_pos hmany]
    exact ⟨InterfaceUsbImpl.length_pulses samples ▸ hmany, rfl, rfl⟩
  rw [if_neg hmany]
  have hpulses : (InterfaceUsbImpl.pulses samples).length ≤ 7 := Nat.not_lt.mp hmany
  obtain ⟨buffer, hnibbles, hpacked⟩ := nibbles_eq hfits hpulses
  rw [wp_bind]
  refine wp_doTransferTx rfl Vector.length_toList (fun tr₁ d₁ htable => ?_)
    fun _ _ _ hneg => hneg
  dsimp only
  rw [wp_bind, wp_ret]
  rw [show nibbles firmwareInterface.sampleVectorSize.toNat (InterfaceUsbImpl.pulses samples)
    samples = .ok buffer from hnibbles]
  dsimp only
  rw [wp_bind]
  refine wp_doTransferTx rfl Vector.length_toList (fun tr₂ d₂ hbuffer => ?_)
    fun _ _ _ hneg => hneg
  obtain ⟨hd₂, huploaded, hfold, hnothing⟩ :=
    uploaded_of_writes hpacked hd hresting htable hbuffer
  dsimp only
  refine wp_mono (wp_transfer rfl rfl hd₂) fun result tr₃ d₃ htransfer => ?_
  change Puts samples d result (tr₁ ++ (tr₂ ++ tr₃)) d₃
  have hevents : events (tr₁ ++ (tr₂ ++ tr₃)) = events tr₁ ++ events tr₂ ++ events tr₃ := by
    rw [events_append, events_append, List.append_assoc]
  match result, htransfer with
  | .ok (), ⟨hd₃, ended, hpolled, hover⟩ =>
    obtain ⟨hresting₃, hplayed⟩ :=
      hpolled.played huploaded.resting rfl rfl rfl (huploaded.plays hfits hpulses) hover
    refine ⟨hd₃, hresting₃, ?_⟩
    rw [hevents, trace_append hfold, Firmware.played_append, hnothing, List.nil_append, hplayed]
  | .error .invalidState, ⟨ended, hpolled, hover⟩ =>
    exact ⟨d₂.firmware, events tr₁ ++ events tr₂, events tr₃, ended, hevents, hfold, huploaded,
      hpolled, hover⟩
  | .error (.invalidResponse n), hneg => exact hneg

/-- For a firmware without a transfer `putSamples` plays the samples or throws. -/
theorem wp_putSamples {samples : List Sample} (hfits : Fits samples)
    {tr : List (UsbDriver × UsbEvent)} {d : UsbDriver} (hrun : Run UsbDriver.step init tr d)
    (hidle : d.firmware.state = .idle) :
    wp UsbLibrary (firmwareInterface.putSamples samples) (Puts samples d) d :=
  puts_of_resting hfits (sound_of_run hrun) (resting_of_run hrun hidle)

/-! ## A host that goes on -/

/-- A device that listens and rests lets `putSamples` return. -/
theorem exists_putSamples {samples : List Sample} (hfits : Fits samples)
    (hpulses : (InterfaceUsbImpl.pulses samples).length ≤ 7) {d : UsbDriver} (h : d.Listening)
    (hresting : d.firmware.Resting) :
    ∃ tr d', Exec UsbLibrary (firmwareInterface.putSamples samples) d (.ok ()) tr d' ∧
      d'.Listening ∧ d'.firmware.Resting := by
  obtain ⟨buffer, hnibbles, hpacked⟩ := nibbles_eq hfits hpulses
  have hconnection : firmwareInterface.checkConnection = .ok () := rfl
  obtain ⟨hdir₁, htype₁⟩ := direction_txRequest PROTO_CMD_SAMPLE_VECTOR_WRITE 0 0
    firmwareInterface.pulseVectorSize
  obtain ⟨tr₁, d₁, htable, h₁, -⟩ := h.exists_writesControl (v := .sampleVector) htype₁ hdir₁ rfl
    (List.ne_nil_of_length_pos (l := (pulseTable 7 (InterfaceUsbImpl.pulses samples)).toList)
      (by rw [Vector.length_toList]; decide))
  obtain ⟨hdir₂, htype₂⟩ := direction_txRequest PROTO_CMD_PULSE_VECTOR_WRITE 0 0
    firmwareInterface.sampleVectorSize
  obtain ⟨tr₂, d₂, hbuffer, h₂, hcommand⟩ := h₁.exists_writesControl (v := .ioBuffer) htype₂ hdir₂
    rfl (List.ne_nil_of_length_pos (l := buffer.toList) (by rw [Vector.length_toList]; decide))
  obtain ⟨-, huploaded, -⟩ := uploaded_of_writes hpacked h.sound hresting htable hbuffer
  have hnot : d₂.firmware.command ≠ PROTO_CMD_RESET := by
    rw [hcommand]
    decide
  obtain ⟨during, ended, hduring, hbackground, hover⟩ :=
    Firmware.exists_isOver_startRequest hnot (huploaded.plays hfits hpulses)
  obtain ⟨tr₃, d₃, htransfer, h₃, -⟩ :=
    exec_transfer hconnection (rfl : startRequest.bRequest = _) h₂ hduring hbackground hover
  have hexec : Exec UsbLibrary (firmwareInterface.putSamples samples) d (.ok ())
      (tr₁ ++ ([] ++ (tr₂ ++ tr₃))) d₃ := by
    unfold putSamples
    dsimp only
    rw [if_neg (show ¬(InterfaceUsbImpl.pulses samples).length >
      firmwareInterface.pulseVectorSize.toNat from Nat.not_lt.mpr hpulses)]
    refine (exec_doTransferTx hconnection Vector.length_toList htable).bind ?_
    rw [show nibbles firmwareInterface.sampleVectorSize.toNat (InterfaceUsbImpl.pulses samples)
      samples = .ok buffer from hnibbles]
    refine (Exec.ret (.ok buffer) d₁).bind ?_
    exact (exec_doTransferTx hconnection Vector.length_toList hbuffer).bind htransfer
  have hputs := wp_iff_exec.mp (puts_of_resting hfits h.sound hresting) _ _ _ hexec
  exact ⟨_, d₃, hexec, h₃, hputs.2.1⟩

/-- Two samples for a firmware behind its start. -/
theorem wp_putSamples_two :
    ∃ tr d', Exec UsbLibrary (firmwareInterface.putSamples [⟨256, true⟩, ⟨80, false⟩]) init (.ok ())
        tr d' ∧ Puts [⟨256, true⟩, ⟨80, false⟩] init (.ok ()) tr d' := by
  have hfits : Fits [⟨256, true⟩, ⟨80, false⟩] := ⟨by decide, by decide⟩
  obtain ⟨tr, d', hexec, -⟩ :=
    exists_putSamples hfits (by decide) listening_init (resting_of_run (.nil init) rfl)
  exact ⟨tr, d', hexec, wp_iff_exec.mp (wp_putSamples hfits (.nil init) rfl) _ _ _ hexec⟩

end RfidTool.UsbInterface

import RfidTool.Firmware.DataPhase
import RfidTool.Firmware.EdgeWait
import RfidTool.Firmware.Transfer

/-!
# From the converter to the host's bits

A reception that entered through its edge knows the level. Every conversion stores the
level behind it as the next bit of `ioBuffer`, the handler ends the transfer with bit
1536, and the polls of `PULSE_VECTOR_READ` carry the buffer to the host, which reads
the bits in the order in which they were stored. `Alone` are the steps that leave a
reception to itself: no other transfer, no upload to its buffer, no handler that an
earlier transmission left enabled.
-/

namespace RfidTool

namespace Firmware

open Hysteresis InterfaceUsbImpl

/-- The readings of the conversions that a reception stores. -/
def stored (tr : List (Firmware × Event)) : List UInt8 :=
  readings (tr.filter fun p => decide (p.1.state = .rx))

/-- The step does not disturb a reception. -/
def Alone (f : Firmware) : Event → Prop
  | .setup rq => rq.bRequest ≠ PROTO_CMD_TRANSFER_START
  | .dataOut _ => f.command ≠ PROTO_CMD_PULSE_VECTOR_WRITE
  | .timer0 => f.state ≠ .waitCondition
  | _ => True

/-- The polls of a data phase, with the bytes that they return. -/
def polls (f : Firmware) : List ℕ → Except Halt (Firmware × List UInt8)
  | [] => .ok (f, [])
  | len :: lens => do
    let (g, data) ← if f.userRw then f.usbFunctionRead len else .ok (f, [])
    let (h, rest) ← polls g lens
    return (h, data ++ rest)

/-- The number of bytes that the polls ask for. -/
def requested : List ℕ → ℕ
  | [] => 0
  | len :: lens => len + requested lens

/-- What is stored of the levels between the states `f` and `g` of a reception, where
`first` are the readings before `f`. -/
structure Captured (first : List UInt8) (f : Firmware) (tr : List (Firmware × Event))
    (g : Firmware) : Prop where
  /-- The transfer runs until 1536 conversions are stored, and is finished then. -/
  progress : (stored tr).length < 1536 ∧ g.state = .rx ∧ (∀ r, ∃ h, g.step (.adc r) = .ok h) ∨
    (stored tr).length = 1536 ∧
      (g.state = .finished ∨ g.state = .idle ∧ ∃ p ∈ tr, p.1.state = .finished)
  /-- The bits are written in order, each of them once. -/
  offsets : offsets tr = List.range (stored tr).length
  /-- The host's bits are the levels, and behind them what was there before. -/
  bits : ∀ n, (sampleBits g.ioBuffer.toList)[n]? =
    if n < (stored tr).length then
      level ADC_LO ADC_HI none (first ++ (stored tr).take (n + 1))
    else (sampleBits f.ioBuffer.toList)[n]?
  /-- The host reads the buffer back as it is. -/
  readBack : ∀ rq lens, rq.bRequest = PROTO_CMD_PULSE_VECTOR_READ → requested lens = 192 →
    ∃ h, (g.usbFunctionSetup rq).polls lens = .ok (h, g.ioBuffer.toList)

/-! ## Reading back -/

theorem polls_eq {f : Firmware} (hrw : f.userRw)
    (hcommand : f.command = PROTO_CMD_PULSE_VECTOR_READ) (hle : f.ioBufferOffset.toNat ≤ 192)
    (lens : List ℕ) :
    ∃ h, f.polls lens =
      .ok (h, (f.ioBuffer.toList.drop f.ioBufferOffset.toNat).take (requested lens)) := by
  induction lens generalizing f with
  | nil => exact ⟨f, by simp [polls, requested]⟩
  | cons len lens ih =>
    have hne : f.command ≠ PROTO_CMD_SAMPLE_VECTOR_READ := by
      rw [hcommand]
      decide
    obtain ⟨offset, hloop, hle', hdrop⟩ :=
      readLoop_eq (by decide) f.ioBuffer f.ioBufferOffset len hle
    have hread : f.usbFunctionRead len = .ok ({ f with ioBufferOffset := offset },
        (f.ioBuffer.toList.drop f.ioBufferOffset.toNat).take len) := by
      rw [usbFunctionRead, if_neg hne, if_pos hcommand, hloop]
      rfl
    obtain ⟨h, hrest⟩ := @ih { f with ioBufferOffset := offset } hrw hcommand hle'
    refine ⟨h, ?_⟩
    rw [polls, if_pos hrw, hread]
    dsimp only [bind, Except.bind]
    rw [hrest, requested, List.take_add, ← hdrop]
    rfl

/-- The host reads back what is in the buffer. -/
theorem polls_usbFunctionSetup (f : Firmware) {rq : SetupRequest}
    (hrq : rq.bRequest = PROTO_CMD_PULSE_VECTOR_READ) {lens : List ℕ}
    (hsum : requested lens = 192) :
    ∃ h, (f.usbFunctionSetup rq).polls lens = .ok (h, f.ioBuffer.toList) := by
  rw [usbFunctionSetup_vector f (.inl hrq)]
  obtain ⟨h, hpolls⟩ := @polls_eq
    { f with ioBufferOffset := 0, command := rq.bRequest, userRw := true } rfl hrq
    (Nat.zero_le _) lens
  refine ⟨h, ?_⟩
  rw [hpolls, hsum]
  simp

/-- The state of a reception behind its `STATE_STARTING` round. -/
theorem startTransfer_rx {f : Firmware} (htx : f.tx = false) :
    f.startTransfer.tx = false ∧ f.startTransfer.opLength = 1536 ∧
      f.startTransfer.opOffset = 0 := by
  have hcontrol := control_startTransfer f
  have hlength : f.startTransfer.opLength = f.operation.length := congrArg Control.opLength hcontrol
  refine ⟨(congrArg (·.operation.tx) hcontrol).trans htx, ?_, congrArg Control.opOffset hcontrol⟩
  exact hlength.trans (if_neg (by simp [operation, htx]))

theorem Alone.isStart {f : Firmware} {e : Event} (h : f.Alone e) : e.isStart = false := by
  cases e with
  | setup rq => exact beq_false_of_ne h
  | _ => rfl

theorem Alone.not_uploads {f : Firmware} {e : Event} (h : f.Alone e) : ¬f.Uploads e := by
  cases e with
  | dataOut data => exact h
  | _ => exact not_false

theorem Alone.ne_timer0 {f : Firmware} {e : Event} (h : f.Alone e)
    (hstate : f.state = .waitCondition) : e ≠ .timer0 := by
  rintro rfl
  exact h hstate

/-! ## The capture -/

/-- The host's bits of the buffer when `rs` are stored on top of `old`. -/
def StoredBits (first : List UInt8) (old : Vector UInt8 192) (rs : List UInt8)
    (ioBuffer : Vector UInt8 192) : Prop :=
  ∀ n, (sampleBits ioBuffer.toList)[n]? =
    if n < rs.length then level ADC_LO ADC_HI none (first ++ rs.take (n + 1))
    else (sampleBits old.toList)[n]?

/-- The next bit. -/
theorem StoredBits.append {first rs : List UInt8} {old ioBuffer : Vector UInt8 192}
    (h : StoredBits first old rs ioBuffer) {r mask : UInt8} {b : Bool}
    (hlt : rs.length / 8 < 192) (hmask : mask.toNat = rs.length % 8)
    (hlevel : level ADC_LO ADC_HI none (first ++ (rs ++ [r])) = some b) :
    StoredBits first old (rs ++ [r])
      (ioBuffer.set (rs.length / 8) (BitBuffer.setBit ioBuffer[rs.length / 8] mask b)) := by
  intro n
  have hbyte : ioBuffer.toList[rs.length / 8]? = some ioBuffer[rs.length / 8] := by
    simp [hlt]
  have hn := h n
  rw [sampleBits_eq] at hn
  rw [sampleBits_eq, Vector.toList_set, BitBuffer.getElem?_bits_set hbyte hmask, hn,
    List.length_append, List.length_singleton]
  rcases Nat.lt_trichotomy n rs.length with hlow | rfl | hhigh
  · rw [if_neg (by omega), if_pos hlow, if_pos (by omega), List.take_append_of_le_length hlow]
  · rw [if_pos rfl, if_pos (by omega), List.take_of_length_le (by simp), hlevel]
  · rw [if_neg (by omega), if_neg (by omega), if_neg (by omega)]

/-- A reception that entered with the known level behind `first` and the buffer `old` has
stored the readings `rs`. -/
structure Capturing (first : List UInt8) (old : Vector UInt8 192) (rs : List UInt8)
    (f : Firmware) : Prop where
  offset : f.opOffset.toNat = rs.length
  length : f.opLength = 1536
  player : f.ocie0a = false
  known : level ADC_LO ADC_HI none first ≠ none
  signal : f.adcLastSignal = signal (level ADC_LO ADC_HI none (first ++ rs))
  bits : StoredBits first old rs f.ioBuffer
  phase : rs.length < 1536 ∧ f.state = .rx ∧ f.adie ∧ f.interrupts ∨
    rs.length = 1536 ∧ (f.state = .finished ∨ f.state = .idle ∧ f.adie = false)

theorem Capturing.of_control {first : List UInt8} {old : Vector UInt8 192} {rs : List UInt8}
    {f g : Firmware} (h : Capturing first old rs f) (hcontrol : g.control = f.control)
    (hsignal : g.adcLastSignal = f.adcLastSignal) (hbuffer : g.ioBuffer = f.ioBuffer) :
    Capturing first old rs g := by
  have hoffset : g.opOffset = f.opOffset := congrArg Control.opOffset hcontrol
  have hlength : g.opLength = f.opLength := congrArg Control.opLength hcontrol
  have hplayer : g.ocie0a = f.ocie0a := congrArg Control.ocie0a hcontrol
  have hstate : g.state = f.state := congrArg Control.state hcontrol
  have hadie : g.adie = f.adie := congrArg Control.adie hcontrol
  have hinterrupts : g.interrupts = f.interrupts := congrArg Control.interrupts hcontrol
  constructor
  · rw [hoffset, h.offset]
  · rw [hlength, h.length]
  · rw [hplayer, h.player]
  · exact h.known
  · rw [hsignal, h.signal]
  · rw [hbuffer]
    exact h.bits
  · rw [hstate, hadie, hinterrupts]
    exact h.phase

/-- A conversion that stores a bit. -/
theorem adcStore_eq {f : Firmware} {k : ℕ} (hk : f.opOffset.toNat = k) (hlt : k / 8 < 192) :
    ∃ mask : UInt8, mask.toNat = k % 8 ∧ f.adcStore =
      .ok (if f.opOffset + 1 = f.opLength then
        { f with
          ioBuffer := f.ioBuffer.set (k / 8)
            (BitBuffer.setBit f.ioBuffer[k / 8] mask (decide (f.adcLastSignal ≠ 0)))
          opOffset := f.opOffset + 1, timerRunning := false, ocie0a := false, state := .finished }
      else
        { f with
          ioBuffer := f.ioBuffer.set (k / 8)
            (BitBuffer.setBit f.ioBuffer[k / 8] mask (decide (f.adcLastSignal ≠ 0)))
          opOffset := f.opOffset + 1 }) := by
  have hindex : (f.opOffset / 8).toNat = k / 8 := by
    rw [UInt16.toNat_div, hk]
    rfl
  have hmask : (f.opOffset % 8).toUInt8.toNat = k % 8 := by
    rw [UInt16.toNat_toUInt8, UInt16.toNat_mod, hk]
    simp only [UInt16.reduceToNat]
    omega
  refine ⟨(f.opOffset % 8).toUInt8, hmask, ?_⟩
  have hread : f.readIoBuffer (f.opOffset / 8) = .ok f.ioBuffer[k / 8] := by
    simp only [readIoBuffer, hindex, dif_pos hlt]
  have hwrite (value : UInt8) : f.writeIoBuffer (f.opOffset / 8) value =
      .ok { f with ioBuffer := f.ioBuffer.set (k / 8) value } := by
    simp only [writeIoBuffer, hindex, dif_pos hlt]
  have hvalue : (if f.adcLastSignal ≠ 0 then
      f.ioBuffer[k / 8] ||| (1 <<< (f.opOffset % 8).toUInt8)
      else f.ioBuffer[k / 8] &&& ~~~(1 <<< (f.opOffset % 8).toUInt8)) =
      BitBuffer.setBit f.ioBuffer[k / 8] (f.opOffset % 8).toUInt8
        (decide (f.adcLastSignal ≠ 0)) := by
    simp only [BitBuffer.setBit, decide_eq_true_eq]
  unfold adcStore
  dsimp only [bind, Except.bind]
  rw [hread]
  dsimp only
  rw [hvalue, hwrite]
  dsimp only
  split_ifs <;> rfl

/-- A conversion of the reception. -/
theorem Capturing.step_adc {first : List UInt8} {old : Vector UInt8 192} {rs : List UInt8}
    {f : Firmware} (h : Capturing first old rs f) (hstate : f.state = .rx) (r : UInt8) :
    ∃ g, f.step (.adc r) = .ok g ∧ Capturing first old (rs ++ [r]) g := by
  obtain ⟨hlt, -, hadie, hinterrupts⟩ :
      rs.length < 1536 ∧ f.state = .rx ∧ f.adie ∧ f.interrupts := by
    rcases h.phase with hrx | ⟨-, hend⟩
    · exact hrx
    · simp [hstate] at hend
  have hsignal := adcSignal_eq h.signal r
  have hlevel : level ADC_LO ADC_HI none (first ++ (rs ++ [r])) =
      next ADC_LO ADC_HI (level ADC_LO ADC_HI none (first ++ rs)) r := by
    rw [← List.append_assoc, level_append]
    rfl
  rw [← hlevel] at hsignal
  obtain ⟨b, hb⟩ : ∃ b, level ADC_LO ADC_HI none (first ++ (rs ++ [r])) = some b := by
    obtain ⟨b, hb⟩ := Option.ne_none_iff_exists'.mp h.known
    rw [level_append, hb]
    exact exists_level_some b _
  have hbit : decide (f.adcSignal r ≠ 0) = b := by
    rw [hsignal, hb]
    cases b <;> rfl
  obtain ⟨mask, hmask, hstore⟩ :=
    @adcStore_eq { f with adcLastSignal := f.adcSignal r } rs.length h.offset (by omega)
  have hnext := UInt16.toNat_add_one h.offset (by omega)
  have hlength : (rs ++ [r]).length = rs.length + 1 := by simp
  have hbits := h.bits.append (by omega) hmask hb
  have hend : f.opOffset + 1 = f.opLength ↔ rs.length + 1 = 1536 := by
    rw [← UInt16.toNat_inj, hnext, h.length]
    rfl
  rw [step, if_pos (by simp [hadie, hinterrupts]), adcVect_eq, if_neg (by simp [hstate]), hstore]
  refine ⟨_, rfl, ?_⟩
  dsimp only
  rw [hbit]
  split_ifs with hlast
  · refine ⟨hnext.trans hlength.symm, h.length, rfl, h.known, hsignal, hbits, .inr ⟨?_, .inl rfl⟩⟩
    rw [hlength]
    exact hend.mp hlast
  · refine ⟨hnext.trans hlength.symm, h.length, h.player, h.known, hsignal, hbits,
      .inl ⟨?_, hstate, hadie, hinterrupts⟩⟩
    have hne := (not_congr hend).mp hlast
    omega

theorem stored_nil : stored [] = [] := rfl

theorem stored_cons (p : Firmware × Event) (tr : List (Firmware × Event)) :
    stored (p :: tr) = (if p.1.state = .rx then p.2.reading.toList else []) ++ stored tr := by
  unfold stored
  rw [List.filter_cons]
  split_ifs <;> simp_all [readings_cons]

/-- Nothing is stored by an event that is not a conversion. -/
theorem stored_cons_of_not_adc {f : Firmware} {e : Event} (he : e.isAdc = false)
    (tr : List (Firmware × Event)) : stored ((f, e) :: tr) = stored tr := by
  rw [stored_cons]
  cases e with
  | adc => cases he
  | _ => simp [Event.reading]

/-- A step of the reception, which stores a bit, or of what comes after it. -/
theorem Capturing.step {first : List UInt8} {old : Vector UInt8 192} {rs : List UInt8}
    {f g : Firmware} {e : Event} (h : Capturing first old rs f) (halone : f.Alone e)
    (hstep : f.step e = .ok g) : Capturing first old (rs ++ stored [(f, e)]) g := by
  cases e with
  | adc r =>
    by_cases hstate : f.state = .rx
    · obtain ⟨g', hg', hnext⟩ := h.step_adc hstate r
      rw [hstep] at hg'
      cases hg'
      rwa [stored_cons, if_pos hstate]
    · rcases h.phase with ⟨-, hrx, -⟩ | ⟨hfull, hfinished | ⟨-, hadie⟩⟩
      · exact absurd hrx hstate
      · have hoffset : f.opOffset.toNat = 1536 := h.offset.trans hfull
        have hindex : ¬(f.opOffset / 8).toNat < 192 := by
          rw [bitIndex_lt_iff]
          omega
        obtain ⟨-, ⟨hwait, -⟩ | ⟨-, hstore⟩⟩ := step_adc_eq_ok hstep
        · simp [hfinished] at hwait
        · exact absurd (adcStore_eq_ok hstore).1 hindex
      · exact absurd (step_adc_eq_ok hstep).1 (by simp [hadie])
  | timer0 => exact absurd (step_timer0_eq_ok hstep).1 (by simp [h.player])
  | idle =>
    rw [stored_cons_of_not_adc rfl, stored_nil, List.append_nil]
    rcases idleRound_eq_ok hstep with ⟨hstarting, -⟩ | ⟨hfinished, rfl⟩ | ⟨-, -, rfl⟩
    · rcases h.phase with ⟨-, hrx, -⟩ | ⟨-, hend | ⟨hend, -⟩⟩ <;> simp [hstarting] at *
    · refine ⟨h.offset, h.length, rfl, h.known, h.signal, h.bits, ?_⟩
      rcases h.phase with ⟨-, hrx, -⟩ | ⟨hfull, -⟩
      · simp [hfinished] at hrx
      · exact .inr ⟨hfull, .inr ⟨rfl, rfl⟩⟩
    · exact h
  | _ =>
    rw [stored_cons_of_not_adc rfl, stored_nil, List.append_nil]
    obtain ⟨hcontrol, hsignal, -, hbuffer⟩ :=
      quiet_step hstep halone.isStart rfl (by simp) (by simp)
    exact h.of_control hcontrol hsignal (hbuffer halone.not_uploads)

/-- The run of a reception. -/
theorem Capturing.run {first : List UInt8} {old : Vector UInt8 192} {rs : List UInt8}
    {f g : Firmware} {tr : List (Firmware × Event)} (hrun : Run Firmware.step f tr g)
    (h : Capturing first old rs f) (halone : ∀ p ∈ tr, p.1.Alone p.2) :
    Capturing first old (rs ++ stored tr) g ∧
      offsets tr = List.range' rs.length (stored tr).length := by
  induction hrun generalizing rs with
  | nil f => exact ⟨by simpa [stored, readings] using h, rfl⟩
  | @cons f t u e es head tail ih =>
    rw [List.forall_mem_cons] at halone
    obtain ⟨hend, hoffsets⟩ := ih (h.step halone.1 head) halone.2
    rw [List.append_assoc] at hend
    rw [offsets_cons, hoffsets]
    cases e with
    | adc r =>
      by_cases hstate : f.state = .rx
      · have hcons : stored ((f, .adc r) :: es) = r :: stored es := by
          rw [stored_cons, if_pos hstate]
          rfl
        have hone : stored [(f, .adc r)] = [r] := by
          rw [stored_cons, if_pos hstate]
          rfl
        rw [hone] at hend ⊢
        rw [hcons, if_pos (by simp [samples, Event.isAdc, hstate]), h.offset, List.length_append]
        exact ⟨hend, rfl⟩
      · have hcons : stored ((f, .adc r) :: es) = stored es := by
          rw [stored_cons, if_neg hstate]
          rfl
        have hnone : stored [(f, .adc r)] = [] := by
          rw [stored_cons, if_neg hstate]
          rfl
        rw [hnone] at hend ⊢
        rw [hcons, if_neg (by simp [samples, hstate]), List.append_nil]
        exact ⟨hend, rfl⟩
    | _ =>
      rw [stored_cons_of_not_adc rfl, stored_nil] at hend
      rw [stored_cons_of_not_adc rfl, stored_cons_of_not_adc rfl,
        if_neg (by simp [samples, Event.isAdc]), stored_nil, List.append_nil]
      exact ⟨hend, rfl⟩

/-- The conversions that are left follow one another up to the end of the transfer. -/
theorem Capturing.exists_run {first rs rest : List UInt8} {old : Vector UInt8 192} {f : Firmware}
    (h : Capturing first old rs f) (hstate : f.state = .rx)
    (hlen : rs.length + rest.length = 1536) :
    ∃ tr g, Run Firmware.step f tr g ∧ tr.map (·.2) = rest.map .adc ∧ stored tr = rest ∧
      g.state = .finished ∧ g.timedOut = f.timedOut := by
  induction rest generalizing rs f with
  | nil =>
    rw [List.length_nil, Nat.add_zero] at hlen
    rcases h.phase with ⟨hlt, -⟩ | ⟨-, hfinished | ⟨hidle, -⟩⟩
    · omega
    · simp [hstate] at hfinished
    · simp [hstate] at hidle
  | cons r rest ih =>
    obtain ⟨g, hg, hnext⟩ := h.step_adc hstate r
    have hone : stored [(f, .adc r)] = [r] := by
      rw [stored_cons, if_pos hstate]
      rfl
    have hfinal : g.state = .rx ∨ g.state = .finished := by
      have heffect := effect hg
      generalize hcontrol : g.control = c at heffect
      have hsame : g.state = c.state := congrArg Control.state hcontrol
      cases heffect with
      | sample => exact .inl (hsame.trans hstate)
      | sampleLast => exact .inr hsame
      | edge _ hwait | wait _ hwait | timeout _ hwait => simp [hstate] at hwait
      | keep _ hadc => cases hadc
    have htimedOut : g.timedOut = f.timedOut :=
      (timedOut_of_adc hg).resolve_right fun ⟨hwait, _⟩ => by simp [hstate] at hwait
    rw [List.length_cons] at hlen
    rcases hfinal with hrx | hfinished
    · obtain ⟨tr, u, hrun, hevents, hstored, hend, hsame⟩ :=
        ih hnext hrx (by simp only [List.length_append, List.length_singleton]; omega)
      refine ⟨(f, .adc r) :: tr, u, .cons hg hrun, ?_, ?_, hend, hsame.trans htimedOut⟩
      · rw [List.map_cons, hevents, List.map_cons]
      · rw [stored_cons, if_pos hstate, hstored]
        rfl
    · obtain ⟨hfull, -⟩ := hnext.phase.resolve_left fun hrunning => by
        simp [hrunning.2.1] at hfinished
      obtain rfl : rest = [] := by
        rw [List.length_append, List.length_singleton] at hfull
        exact List.eq_nil_of_length_eq_zero (by omega)
      exact ⟨[(f, .adc r)], g, .cons hg (.nil g), rfl, hone, hfinished, htimedOut⟩

/-- Only a finished transfer comes to `STATE_IDLE`. -/
theorem exists_finished {f g : Firmware} {tr : List (Firmware × Event)}
    (hrun : Run step f tr g) (hidle : g.state = .idle) (hf : f.state ≠ .idle)
    (halone : ∀ p ∈ tr, p.1.Alone p.2) : ∃ p ∈ tr, p.1.state = .finished := by
  induction hrun with
  | nil => exact absurd hidle hf
  | @cons f t u e es head tail ih =>
    rw [List.forall_mem_cons] at halone
    by_cases ht : t.state = .idle
    · refine ⟨(f, e), List.mem_cons_self, ?_⟩
      have heffect := effect head
      generalize hcontrol : t.control = c at heffect
      have hstate : c.state = .idle := (congrArg Control.state hcontrol).symm.trans ht
      cases heffect with
      | keep => exact absurd hstate hf
      | finish hfinished => exact hfinished
      | begin =>
        simp only [Operation.firstState] at hstate
        split_ifs at hstate
      | edge =>
        dsimp only at hstate
        split_ifs at hstate
      | wait => exact absurd hstate hf
      | sample => exact absurd hstate hf
      | play => exact absurd hstate hf
      | _ => cases hstate
    · obtain ⟨p, hp, hfinished⟩ := ih hidle ht halone.2
      exact ⟨p, List.mem_cons_of_mem _ hp, hfinished⟩

/-- The conversion that completes the edge. -/
theorem Awaiting.capturing {w a f : Firmware} {rs : List UInt8} {r : UInt8} (h : Awaiting w a rs)
    (htx : w.tx = false) (hlength : w.opLength = 1536) (hoffset : w.opOffset = 0)
    (hstep : a.step (.adc r) = .ok f) (hf : f.state = .rx) :
    SeesEdgeAt w.fallingEdge (rs ++ [r]) rs.length ∧
      Capturing (rs ++ [r]) f.ioBuffer [] f := by
  obtain ⟨hsame, -, ⟨hedge, -⟩ | ⟨-, hnext⟩ | ⟨-, -, hfinished, -⟩⟩ := h.step_adc hstep
  · have hsignal := adcSignal_eq h.signal r
    have hlevel : level ADC_LO ADC_HI none (rs ++ [r]) =
        next ADC_LO ADC_HI (level ADC_LO ADC_HI none rs) r := by
      rw [level_append]
      rfl
    have hknown : level ADC_LO ADC_HI none (rs ++ [r]) ≠ none := by
      rw [hlevel]
      intro hnone
      rcases seesEdge_iff.mp (seesEdgeAt_last.mp hedge) with ⟨-, hnew⟩ | ⟨-, -, hhigh⟩
      · rw [hnone] at hnew
        cases hnew
      · exact (next_eq_none_iff.mp hnone).2.1 hhigh
    have hwait := h.state
    have hrx := h.tx.trans htx
    refine ⟨hedge, ?_⟩
    rw [step_adc_waiting r h.adie h.interrupts hwait, adcWait, h.signal,
      isEdge_eq (by exact hsignal), h.fallingEdge, if_pos (seesEdgeAt_last.mp hedge),
      if_neg (by simp [hrx])] at hstep
    cases hstep
    refine ⟨congrArg UInt16.toNat (h.opOffset.trans hoffset), h.opLength.trans hlength, rfl, hknown,
      ?_, fun n => by simp, .inl ⟨by simp, rfl, h.adie, h.interrupts⟩⟩
    rw [List.append_nil, hlevel]
    exact hsignal
  · simp [hnext.state] at hf
  · simp [hfinished] at hf

/-- A reception that entered through its edge, from the buffer as it was to the bits of
the host. -/
theorem captured {s w a f g : Firmware} {before after : List (Firmware × Event)} {r : UInt8}
    (hstarting : s.state = .starting) (hedge : s.edgeStart) (hrx : s.tx = false)
    (hstart : s.step .idle = .ok w) (hwait : Run step w before a)
    (hbefore : ∀ p ∈ before, p.1.Alone p.2) (ha : a.state = .waitCondition)
    (henter : a.step (.adc r) = .ok f) (hf : f.state = .rx) (hrun : Run step f after g)
    (hafter : ∀ p ∈ after, p.1.Alone p.2) :
    Captured (readings before ++ [r]) f after g := by
  obtain rfl := idleRound_starting hstarting hstart
  obtain ⟨htx, hlength, hoffset⟩ := startTransfer_rx hrx
  have hawait := (awaiting_startTransfer hedge).run_waiting hwait
    (fun p hp => (hbefore p hp).isStart) (fun p hp => (hbefore p hp).ne_timer0) ha
  obtain ⟨-, hcapturing⟩ := hawait.capturing htx hlength hoffset henter hf
  obtain ⟨hend, hoffsets⟩ := hcapturing.run hrun hafter
  rw [List.nil_append] at hend
  refine ⟨?_, ?_, hend.bits, fun rq lens hrq hsum => polls_usbFunctionSetup g hrq hsum⟩
  · rcases hend.phase with ⟨hlt, hstate, -⟩ | ⟨hfull, hfinished | ⟨hidle, -⟩⟩
    · refine .inl ⟨hlt, hstate, fun r => ?_⟩
      obtain ⟨h, hh, -⟩ := hend.step_adc hstate r
      exact ⟨h, hh⟩
    · exact .inr ⟨hfull, .inl hfinished⟩
    · refine .inr ⟨hfull, .inr ⟨hidle, exists_finished hrun hidle ?_ hafter⟩⟩
      simp [hf]
  · rw [hoffsets, List.range_eq_range']
    rfl

/-- The readings of a reception in which every conversion changes the level. -/
def alternating : List UInt8 := (List.range 1536).map fun n => if n % 2 = 0 then 0 else 255

theorem length_alternating : alternating.length = 1536 := by
  rw [alternating, List.length_map, List.length_range]

theorem timeout_startTransfer (f : Firmware) : f.startTransfer.timeout = f.timeout := by
  unfold startTransfer
  dsimp only
  split_ifs <;> rfl

/-- A transfer on a falling edge starts behind a low reading and a high one. -/
theorem exists_edge {f : Firmware} (hcommand : f.command ≠ PROTO_CMD_RESET) {rq : SetupRequest}
    (hrq : rq.bRequest = PROTO_CMD_TRANSFER_START) (hedge : rq.operation.edgeStart = true)
    (hfalling : rq.operation.fallingEdge = true) (htimeout : rq.wValue ≠ 0) :
    ∃ w a b, w = (f.usbFunctionSetup rq).startTransfer ∧
      (f.usbFunctionSetup rq).step .idle = .ok w ∧ w.step (.adc 0) = .ok a ∧ Awaiting w a [0] ∧
      a.step (.adc 255) = .ok b ∧ b.state = (if w.tx then .tx else .rx) ∧ b.timedOut = false := by
  obtain ⟨s, hs⟩ : ∃ s, f.usbFunctionSetup rq = s := ⟨_, rfl⟩
  have hrequested := usbFunctionSetup_start f hrq
  rw [hs] at hrequested ⊢
  have hidle : s.step .idle = .ok s.startTransfer := by
    rw [hrequested]
    exact if_neg hcommand
  have hcontrol := control_startTransfer s
  have hawait := awaiting_startTransfer (show s.edgeStart = true by rw [hrequested]; exact hedge)
  have hw : s.startTransfer.fallingEdge = true := by
    refine (congrArg (·.operation.fallingEdge) hcontrol).trans ?_
    rw [hrequested]
    exact hfalling
  have htimedOut : s.startTransfer.timedOut = false := by
    refine (congrArg Control.timedOut hcontrol).trans ?_
    rw [hrequested]
    rfl
  have hleft : s.startTransfer.timeout = rq.wValue := by
    rw [timeout_startTransfer, hrequested]
    rfl
  generalize s.startTransfer = w at *
  obtain ⟨a, ha⟩ := hawait.exists_adc 0
  have hlow : ¬SeesEdgeAt w.fallingEdge ([] ++ [0]) 0 := by
    rw [hw, SeesEdgeAt]
    decide
  obtain ⟨hwaiting, hsame⟩ := hawait.waits ha hlow fun hzero => by
    rw [hleft] at hzero
    exact htimeout (UInt16.toNat_inj.mp hzero.symm)
  obtain ⟨b, hb⟩ := hwaiting.exists_adc 255
  have hhigh : SeesEdgeAt w.fallingEdge ([0] ++ [255]) 1 := by
    rw [hw, SeesEdgeAt]
    decide
  obtain ⟨hentered, hsame'⟩ := hwaiting.enters hb hhigh
  exact ⟨w, a, b, rfl, hidle, ha, hwaiting, hb, hentered, hsame'.trans (hsame.trans htimedOut)⟩

/-- The reception of `getSamples` goes through behind an edge. -/
theorem exists_reception {f : Firmware} (hcommand : f.command ≠ PROTO_CMD_RESET)
    {rest : List UInt8} (hrest : rest.length = 1536) :
    ∃ w a b g tr, (f.usbFunctionSetup receiveRequest).step .idle = .ok w ∧
      w.step (.adc 0) = .ok a ∧ a.state = .waitCondition ∧ a.step (.adc 255) = .ok b ∧
      b.state = .rx ∧ Run step b tr g ∧ tr.map (·.2) = rest.map .adc ∧ stored tr = rest ∧
      g.state = .finished ∧ g.timedOut = false := by
  obtain ⟨w, a, b, hw, hidle, ha, hwaiting, hb, hentered, htimedOut⟩ :=
    exists_edge hcommand (rfl : receiveRequest.bRequest = _) rfl rfl (by decide)
  obtain ⟨htx, hlength, hoffset⟩ : w.tx = false ∧ w.opLength = 1536 ∧ w.opOffset = 0 := by
    rw [hw, usbFunctionSetup_start f (rfl : receiveRequest.bRequest = _)]
    exact startTransfer_rx rfl
  rw [htx] at hentered
  obtain ⟨-, hcapturing⟩ := hwaiting.capturing htx hlength hoffset hb hentered
  obtain ⟨tr, g, hrun, hevents, hstored, hfinished, hsame⟩ := hcapturing.exists_run hentered
    (show ([] : List UInt8).length + rest.length = 1536 by rw [hrest, List.length_nil])
  exact ⟨w, a, b, g, tr, hidle, ha, hwaiting.state, hb, hentered, hrun, hevents, hstored,
    hfinished, hsame.trans htimedOut⟩

/-- The reception of `getSamples`: a low reading, a high one, and the 1536 that are stored. -/
theorem captured_receiveRequest :
    ∃ w a f g tr, (init.usbFunctionSetup receiveRequest).step .idle = .ok w ∧
      w.step (.adc 0) = .ok a ∧ a.step (.adc 255) = .ok f ∧ Run step f tr g ∧
      tr.map (·.2) = alternating.map .adc ∧ (stored tr).length = 1536 ∧ g.state = .finished ∧
      Captured (readings [(w, .adc 0)] ++ [255]) f tr g := by
  obtain ⟨w, a, f, g, tr, hw, ha, hwaiting, hf, hentered, hrun, hevents, hstored, hfinished, -⟩ :=
    exists_reception (f := init) (by decide) length_alternating
  refine ⟨w, a, f, g, tr, hw, ha, hf, hrun, hevents, hstored ▸ length_alternating, hfinished, ?_⟩
  refine captured (s := init.usbFunctionSetup receiveRequest) rfl rfl rfl hw (.cons ha (.nil a))
    (List.forall_mem_singleton.mpr trivial) hwaiting hf hentered hrun fun p hp => ?_
  obtain ⟨r, -, hr⟩ := List.mem_map.mp (hevents ▸ List.mem_map_of_mem hp)
  rw [← hr]
  trivial

end Firmware

end RfidTool

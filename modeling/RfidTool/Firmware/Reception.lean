import RfidTool.Firmware.Background
import RfidTool.Firmware.Capture

/-!
# What a reception hears in a run

`captured` starts where the converter enters `STATE_RX`. A reception that is over when its
status is asked for was there, whatever the order of conversions, rounds of the main loop and
requests for data: `Receiving` follows it with all readings since its request. Of these the last
1536 are the bits of the buffer, behind the reading at which the handler started.
-/

namespace RfidTool.Firmware

open Hysteresis InterfaceUsbImpl

/-- The handler starts a reception on a falling edge at the reading with index `k`: the level
falls there, or no earlier reading was decisive and this one is high. -/
def StartsAt (readings : List UInt8) (k : ℕ) : Prop :=
  EdgeAt ADC_LO ADC_HI true readings k ∨
    (∀ r ∈ readings.take k, Undecided ADC_LO ADC_HI r) ∧ ∃ r ∈ readings[k]?, ADC_HI ≤ r

theorem startsAt_iff {rs : List UInt8} {k : ℕ} (hk : k < rs.length) :
    StartsAt rs k ↔ SeesEdgeAt true rs k := by
  rw [seesEdgeAt_iff hk, StartsAt, List.getElem?_eq_getElem hk]
  simp

/-- How far a reception on a falling edge has come, with the readings so far. -/
inductive Receiving (f : Firmware) : List UInt8 → Prop
  | starting (hstate : f.state = .starting) (hadie : f.adie = false) (hocie0a : f.ocie0a = false)
    (htx : f.tx = false) (hedge : f.edgeStart = true) (hfalling : f.fallingEdge = true) :
    Receiving f []
  | waiting {w : Firmware} {seen : List UInt8} (hawait : Awaiting w f seen)
    (hrx : w.tx = false ∧ w.opLength = 1536 ∧ w.opOffset = 0) (hfalling : w.fallingEdge = true)
    (hocie0a : f.ocie0a = false) : Receiving f seen
  | capturing {first rs : List UInt8} {r : UInt8} {old : Vector UInt8 192}
    (hcapturing : Capturing (first ++ [r]) old rs f)
    (hstarts : SeesEdgeAt true (first ++ [r]) first.length)
    (hwaits : ∀ k < first.length, ¬SeesEdgeAt true first k) : Receiving f (first ++ [r] ++ rs)

section

variable {f g : Firmware} {e : Event} {seen : List UInt8}

/-- A capture reads the converter in `STATE_RX` only. -/
theorem Capturing.state_of_adc {first rs : List UInt8} {old : Vector UInt8 192}
    (h : Capturing first old rs f) {r : UInt8} (hstep : f.step (.adc r) = .ok g) :
    f.state = .rx := by
  obtain ⟨hadie, hhandler⟩ := step_adc_eq_ok hstep
  rcases h.phase with ⟨-, hstate, -⟩ | ⟨hfull, hfinished | ⟨-, hnot⟩⟩
  · exact hstate
  · have hindex : ¬(f.opOffset / 8).toNat < 192 := by
      rw [bitIndex_lt_iff, h.offset]
      omega
    rcases hhandler with ⟨hwait, -⟩ | ⟨-, hstore⟩
    · simp [hfinished] at hwait
    · exact absurd (adcStore_eq_ok hstore).1 hindex
  · simp [hnot] at hadie

/-- A quiet step leaves the reception to itself. -/
theorem alone_of_isQuiet (hquiet : e.isQuiet) (htimer : e ≠ .timer0) : f.Alone e := by
  cases e with
  | timer0 => exact absurd rfl htimer
  | setup | standard | dataOut => cases hquiet
  | _ => trivial

theorem Receiving.ocie0a (h : Receiving f seen) : f.ocie0a = false := by
  cases h with
  | starting _ _ hocie0a => exact hocie0a
  | waiting _ _ _ hocie0a => exact hocie0a
  | capturing hcapturing => exact hcapturing.player

/-- The `STATE_STARTING` round. -/
theorem receiving_startTransfer (hocie0a : f.ocie0a = false) (htx : f.tx = false)
    (hedge : f.edgeStart = true) (hfalling : f.fallingEdge = true) :
    Receiving f.startTransfer [] := by
  have hcontrol := control_startTransfer f
  refine .waiting (awaiting_startTransfer hedge) (startTransfer_rx htx)
    ((congrArg (·.operation.fallingEdge) hcontrol).trans hfalling) ?_
  refine (congrArg Control.ocie0a hcontrol).trans ?_
  simp [Operation.playsAtOnce, operation, htx, hocie0a]

/-- A conversion of a reception that waits. -/
theorem Awaiting.receiving {w : Firmware} (h : Awaiting w f seen)
    (hrx : w.tx = false ∧ w.opLength = 1536 ∧ w.opOffset = 0) (hfalling : w.fallingEdge = true)
    (hocie0a : f.ocie0a = false) {r : UInt8} (hstep : f.step (.adc r) = .ok g) :
    g.timedOut = true ∨ Receiving g (seen ++ [r]) := by
  obtain ⟨-, -, ⟨-, hstate⟩ | ⟨-, hnext⟩ | ⟨-, -, -, htimedOut⟩⟩ := h.step_adc hstep
  · obtain ⟨hedge, hcapturing⟩ := h.capturing hrx.1 hrx.2.1 hrx.2.2 hstep
      (hstate.trans (if_neg (by simp [hrx.1])))
    have hunseen := h.unseen
    rw [hfalling] at hedge hunseen
    rw [← List.append_nil (seen ++ [r])]
    exact .inr (.capturing hcapturing hedge hunseen)
  · refine .inr (.waiting hnext hrx hfalling ?_)
    have heffect := effect hstep
    generalize hcontrol : g.control = c at heffect
    have hplayer : g.ocie0a = c.ocie0a := congrArg Control.ocie0a hcontrol
    have hsame : g.state = c.state := congrArg Control.state hcontrol
    cases heffect with
    | wait => exact hplayer.trans hocie0a
    | edge =>
      rw [hnext.state] at hsame
      dsimp only at hsame
      split_ifs at hsame
    | timeout | sampleLast => exact hplayer
    | sample => exact hplayer.trans hocie0a
    | keep _ hadc => cases hadc
  · exact .inl htimedOut

theorem Receiving.step (h : Receiving f seen) (hquiet : e.isQuiet) (hstep : f.step e = .ok g) :
    g.timedOut = true ∨ Receiving g (seen ++ readings [(f, e)]) := by
  have htimer : e ≠ .timer0 := by
    rintro rfl
    have hocie0a := (step_timer0_eq_ok hstep).1
    rw [h.ocie0a] at hocie0a
    cases hocie0a
  have halone : f.Alone e := alone_of_isQuiet hquiet htimer
  have hsilent (hadc : e.isAdc = false) : readings [(f, e)] = [] := by
    rw [readings_singleton, Event.reading_of_isAdc hadc, Option.toList_none]
  cases h with
  | starting hstate hadie hocie0a htx hedge hfalling =>
    cases e with
    | adc r =>
      have hrunning := (step_adc_eq_ok hstep).1
      rw [hadie] at hrunning
      cases hrunning
    | idle =>
      obtain rfl := idleRound_starting hstate hstep
      exact .inr (receiving_startTransfer hocie0a htx hedge hfalling)
    | dataIn len =>
      obtain ⟨offset, rfl⟩ := step_dataIn_eq_ok hstep
      exact .inr (.starting hstate hadie hocie0a htx hedge hfalling)
    | timer0 => exact absurd rfl htimer
    | setup | standard | dataOut => cases hquiet
  | @waiting w _ hawait hrx hfalling hocie0a =>
    by_cases hadc : e.isAdc
    · cases e with
      | adc r => exact hawait.receiving hrx hfalling hocie0a hstep
      | _ => cases hadc
    · have hadc : e.isAdc = false := Bool.eq_false_iff.mpr hadc
      obtain ⟨hcontrol, -⟩ := quiet_step hstep halone.isStart hadc htimer (by simp [hawait.state])
      rw [hsilent hadc, List.append_nil]
      exact .inr (.waiting (hawait.step_quiet halone.isStart hadc htimer hstep) hrx hfalling
        ((congrArg Control.ocie0a hcontrol).trans hocie0a))
  | @capturing first rs r old hcapturing hstarts hwaits =>
    have hnext := hcapturing.step halone hstep
    have hstored : stored [(f, e)] = readings [(f, e)] := by
      by_cases hadc : e.isAdc
      · cases e with
        | adc r =>
          rw [stored_cons, if_pos (hcapturing.state_of_adc hstep)]
          rfl
        | _ => cases hadc
      · have hadc : e.isAdc = false := Bool.eq_false_iff.mpr hadc
        rw [stored_cons_of_not_adc hadc, hsilent hadc]
        rfl
    rw [hstored] at hnext
    rw [List.append_assoc]
    exact .inr (.capturing hnext hstarts hwaits)

end

theorem Receiving.run {f g : Firmware} {seen : List UInt8} {tr : List (Firmware × Event)}
    (h : Receiving f seen) (hrun : Run Firmware.step f tr g) (hquiet : ∀ p ∈ tr, p.2.isQuiet)
    (htimedOut : g.timedOut = false) : Receiving g (seen ++ readings tr) := by
  induction hrun generalizing seen with
  | nil => simpa [readings] using h
  | cons head tail ih =>
    rw [List.forall_mem_cons] at hquiet
    rcases h.step hquiet.1 head with hlost | hnext
    · have hstart := fun p hp => Event.isStart_of_isSetup (Event.isSetup_of_isQuiet (hquiet.2 p hp))
      rw [run_timedOut tail hlost hstart] at htimedOut
      cases htimedOut
    · rw [readings_cons, ← List.append_assoc]
      rw [readings_cons] at hnext
      simpa [readings] using ih hnext hquiet.2 htimedOut

/-- Where the handlers do not run nothing is read. -/
theorem readings_eq_nil {tr : List (Firmware × Event)} (h : ∀ p ∈ tr, p.2.isHandler = false) :
    readings tr = [] := by
  refine List.filterMap_eq_nil_iff.mpr fun p hp => ?_
  have hnot := h p hp
  generalize p.2 = e at hnot ⊢
  cases e with
  | adc => cases hnot
  | _ => rfl

/-- The levels behind the readings of a reception. -/
def levels (first rs : List UInt8) : List (Option Bool) :=
  (List.range rs.length).map fun n => level ADC_LO ADC_HI none (first ++ rs.take (n + 1))

/-- The buffer holds the levels behind the last 1536 of the readings. They come behind the
first reading at which the handler starts. -/
def Heard (readings : List UInt8) (ioBuffer : Vector UInt8 192) : Prop :=
  ∃ k, readings.length = k + 1 + 1536 ∧ StartsAt readings k ∧ (∀ j < k, ¬StartsAt readings j) ∧
    (sampleBits ioBuffer.toList).map some = levels (readings.take (k + 1)) (readings.drop (k + 1))

theorem length_sampleBits (samplesBuffer : List UInt8) :
    (sampleBits samplesBuffer).length = 8 * samplesBuffer.length := by
  rw [sampleBits_eq, BitBuffer.bits, List.length_flatMap]
  simp [BitBuffer.length_byteBits, Nat.mul_comm]

/-- What is stored in a full buffer. -/
theorem StoredBits.levels {first rs : List UInt8} {old ioBuffer : Vector UInt8 192}
    (h : StoredBits first old rs ioBuffer) (hfull : rs.length = 1536) :
    (sampleBits ioBuffer.toList).map some = levels first rs := by
  have hlength : (sampleBits ioBuffer.toList).length = 1536 := by
    rw [length_sampleBits, Vector.length_toList]
  refine List.ext_getElem? fun n => ?_
  rw [List.getElem?_map, Firmware.levels, List.getElem?_map, hfull]
  rcases Nat.lt_or_ge n 1536 with hlt | hge
  · have hn := h n
    rw [hfull, if_pos hlt, List.getElem?_eq_getElem (hlength ▸ hlt)] at hn
    rw [List.getElem?_range hlt, List.getElem?_eq_getElem (hlength ▸ hlt)]
    exact congrArg some hn
  · rw [List.getElem?_eq_none (hlength ▸ hge), List.getElem?_eq_none (by simpa using hge)]
    rfl

/-- A reception that is over has filled its buffer. -/
theorem Receiving.heard {f : Firmware} {seen : List UInt8} (h : Receiving f seen)
    (hidle : f.state = .idle) : Heard seen f.ioBuffer := by
  cases h with
  | starting hstate => simp [hstate] at hidle
  | waiting hawait => simp [hawait.state] at hidle
  | @capturing first rs r old hcapturing hstarts hwaits =>
    obtain ⟨hfull, -⟩ := hcapturing.phase.resolve_left fun hrunning => by
      simp [hrunning.2.1] at hidle
    have hlength : (first ++ [r]).length = first.length + 1 := by simp
    have hlt : first.length < (first ++ [r]).length := by simp
    refine ⟨first.length, by simp [hfull], ?_, fun k hk => ?_, ?_⟩
    · rw [startsAt_iff (by simp), seesEdgeAt_append hlt]
      exact hstarts
    · rw [startsAt_iff (by simp; omega), List.append_assoc, seesEdgeAt_append hk]
      exact hwaits k hk
    · rw [← hlength, List.take_left, List.drop_left]
      exact hcapturing.bits.levels hfull

/-- A reception that is over when its status is asked for has heard the readings of the run. -/
theorem Polled.received {rq : SetupRequest} {f ended g : Firmware} {es : List Event}
    (h : Polled rq f es ended g) (hf : Resting f) (hrq : rq.bRequest = PROTO_CMD_TRANSFER_START)
    (htx : rq.operation.tx = false) (hedge : rq.operation.edgeStart = true)
    (hfalling : rq.operation.fallingEdge = true) (hover : ended.IsOver) :
    Resting g ∧ Heard (readings (trace Firmware.step f es)) g.ioBuffer := by
  obtain ⟨before, during, after, started, htrace, hbefore, hafter, hstarting, -, hduring,
    hquiet, hg, hbuffer⟩ := h.split hf hrq hover
  have hreceiving : Receiving started [] :=
    .starting hstarting.state hstarting.adie hstarting.ocie0a
      ((congrArg Operation.tx hstarting.operation).trans htx)
      ((congrArg Operation.edgeStart hstarting.operation).trans hedge)
      ((congrArg Operation.fallingEdge hstarting.operation).trans hfalling)
  have hheard := (hreceiving.run hduring hquiet hover.2).heard hover.1
  have hreadings : readings (trace Firmware.step f es) = [] ++ readings during := by
    rw [htrace, readings_append, readings_append, readings_eq_nil hbefore, readings_eq_nil hafter,
      List.append_nil]
  refine ⟨hg, ?_⟩
  rw [hreadings, hbuffer]
  exact hheard

end RfidTool.Firmware

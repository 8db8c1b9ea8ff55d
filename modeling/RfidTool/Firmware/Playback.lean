import RfidTool.Firmware.Background
import RfidTool.Firmware.Transfer
import RfidTool.Firmware.Transmit

/-!
# What a transmission plays in a run

`playback` runs the handler of the timer alone. `played` is what the handler plays in a run of
the firmware, in which the main loop, the converter and the host come in between. A run from
`STATE_STARTING` to `STATE_IDLE` without a timeout plays what `playback` says, no more and no
less: `Phase` follows the transmission with what it still has to play.
-/

namespace RfidTool.Firmware

/-- The step that the handler of the timer plays. -/
def playedStep (f : Firmware) (e : Event) : Option (ℤ × Bool) :=
  match e with
  | .timer0 =>
    match f.timer0Compa with
    | .ok g => if g.state = .finished then none else some ((g.ocr0a.toNat : ℤ) + 1, g.coilOutput)
    | .error _ => none
  | _ => none

/-- What is played in a run. -/
def played (tr : List (Firmware × Event)) : List (ℤ × Bool) :=
  tr.filterMap fun p => p.1.playedStep p.2

theorem played_append (tr tr' : List (Firmware × Event)) :
    played (tr ++ tr') = played tr ++ played tr' := List.filterMap_append

/-- Two states in which the handler plays alike. -/
structure Alike (f g : Firmware) : Prop where
  state : g.state = f.state
  sampleVector : g.sampleVector = f.sampleVector
  ioBuffer : g.ioBuffer = f.ioBuffer
  opOffset : g.opOffset = f.opOffset
  opLength : g.opLength = f.opLength

/-- The handler does the same in both. -/
theorem Alike.timer0Compa {f f' g : Firmware} (h : Alike f f') (hstep : f.timer0Compa = .ok g) :
    ∃ g', f'.timer0Compa = .ok g' ∧ Alike g g' ∧
      (g.state ≠ .finished → g'.ocr0a = g.ocr0a ∧ g'.coilOutput = g.coilOutput) := by
  unfold Firmware.timer0Compa at hstep ⊢
  rw [h.opOffset, h.opLength]
  by_cases hend : f.opOffset = f.opLength
  · rw [if_pos hend] at hstep ⊢
    cases hstep
    exact ⟨_, rfl, ⟨rfl, h.sampleVector, h.ioBuffer, h.opOffset, h.opLength⟩,
      fun hne => absurd rfl hne⟩
  rw [if_neg hend] at hstep ⊢
  obtain ⟨byte, hread, hstep⟩ := Except.bind_eq_ok_iff.mp hstep
  have hread' : f'.readIoBuffer (f.opOffset >>> 1) = .ok byte := by
    rw [← hread]
    unfold readIoBuffer
    rw [h.ioBuffer]
  rw [hread']
  dsimp only [bind, Except.bind] at hstep ⊢
  by_cases hidx : pulseIdx f.opOffset byte &&& 0x07 = 0x07
  · rw [if_pos hidx] at hstep ⊢
    cases hstep
    exact ⟨_, rfl, ⟨rfl, h.sampleVector, h.ioBuffer, h.opOffset, h.opLength⟩,
      fun hne => absurd rfl hne⟩
  · rw [if_neg hidx] at hstep ⊢
    obtain ⟨width, hwidth, hstep⟩ := Except.bind_eq_ok_iff.mp hstep
    cases hstep
    have hwidth' : f'.readSampleVector (pulseIdx f.opOffset byte &&& 0x07) = .ok width := by
      rw [← hwidth]
      unfold readSampleVector
      rw [h.sampleVector]
    rw [hwidth']
    exact ⟨_, rfl, ⟨h.state, h.sampleVector, h.ioBuffer, rfl, rfl⟩, fun _ => ⟨rfl, rfl⟩⟩

/-- What is left to play depends on the state, the offset and the tables only. -/
theorem Alike.playback {f f' : Firmware} (h : Alike f f') {n : ℕ} {l : List (ℤ × Bool)}
    (hplay : Firmware.playback n f = some l) : Firmware.playback n f' = some l := by
  induction n generalizing f f' l with
  | zero => cases hplay
  | succ n ih =>
    unfold Firmware.playback at hplay ⊢
    cases hstep : f.timer0Compa with
    | error e =>
      rw [hstep] at hplay
      cases hplay
    | ok g =>
      obtain ⟨g', hstep', halike, hsame⟩ := h.timer0Compa hstep
      rw [hstep] at hplay
      rw [hstep']
      dsimp only at hplay ⊢
      by_cases hfinished : g.state = .finished
      · rw [if_pos hfinished] at hplay
        rw [if_pos (halike.state.trans hfinished)]
        exact hplay
      · rw [if_neg hfinished] at hplay
        rw [if_neg (halike.state ▸ hfinished), (hsame hfinished).1, (hsame hfinished).2]
        obtain ⟨rest, hrest, rfl⟩ := Option.map_eq_some_iff.mp hplay
        rw [ih halike hrest]
        rfl

/-! ## The tables -/

/-- The tables stay as they are while the host writes nothing and the converter only waits. -/
theorem tables_of_step {f g : Firmware} {e : Event} (h : f.step e = .ok g)
    (hout : ∀ data, e ≠ .dataOut data) (hadc : e.isAdc → f.state = .waitCondition) :
    g.sampleVector = f.sampleVector ∧ g.ioBuffer = f.ioBuffer := by
  cases e with
  | setup rq =>
    cases h
    rcases usbFunctionSetup_cases f rq with
      ⟨bytes, h⟩ | ⟨on, h⟩ | ⟨-, bytes, h⟩ | ⟨-, bytes, h⟩ | ⟨-, h⟩
    all_goals
      rw [h]
      exact ⟨rfl, rfl⟩
  | standard =>
    cases h
    exact ⟨rfl, rfl⟩
  | dataOut data => exact absurd rfl (hout data)
  | dataIn len =>
    obtain ⟨offset, rfl⟩ := step_dataIn_eq_ok h
    exact ⟨rfl, rfl⟩
  | idle =>
    obtain ⟨hkept, hbuffer⟩ := kept_of_step rfl h
    exact ⟨hkept.sampleVector, hbuffer rfl⟩
  | adc adch =>
    obtain ⟨-, ⟨-, rfl⟩ | ⟨hne, -⟩⟩ := step_adc_eq_ok h
    · unfold adcWait
      split_ifs <;> exact ⟨rfl, rfl⟩
    · exact absurd (hadc rfl) hne
  | timer0 =>
    obtain ⟨hkept, hbuffer⟩ := kept_of_step rfl h
    exact ⟨hkept.sampleVector, hbuffer rfl⟩

/-! ## Following a transmission -/

/-- What the handler plays from the tables. -/
def Plays (table : Vector UInt8 7) (buffer : Vector UInt8 192) (whole : List (ℤ × Bool)) : Prop :=
  ∀ h : Firmware, h.sampleVector = table → h.ioBuffer = buffer → h.state = .tx →
    h.opOffset = 0 → h.opLength = 384 → ∃ n, playback n h = some whole

/-- How far a transmission of `whole` has come, with what it still has to play. -/
inductive Phase (whole : List (ℤ × Bool)) (f : Firmware) : List (ℤ × Bool) → Prop
  | starting (hstate : f.state = .starting) (hadie : f.adie = false)
    (hocie0a : f.ocie0a = false) : Phase whole f whole
  | waiting (hstate : f.state = .waitCondition) (hocie0a : f.ocie0a = false)
    (hoffset : f.opOffset = 0) (hlength : f.opLength = 384) : Phase whole f whole
  | playing {left : List (ℤ × Bool)} {n : ℕ} (hstate : f.state = .tx) (hadie : f.adie = false)
    (hplay : playback n f = some left) : Phase whole f left
  | done (hstate : f.state = .finished ∨ f.state = .idle) (hadie : f.adie = false)
    (hocie0a : f.ocie0a = false) : Phase whole f []

/-- A transmission from the tables, on an edge. -/
structure Transmitting (table : Vector UInt8 7) (buffer : Vector UInt8 192)
    (whole : List (ℤ × Bool)) (f : Firmware) (left : List (ℤ × Bool)) : Prop where
  sampleVector : f.sampleVector = table
  ioBuffer : f.ioBuffer = buffer
  tx : f.tx = true
  edgeStart : f.edgeStart = true
  phase : Phase whole f left

theorem playedStep_of_ne {f : Firmware} {e : Event} (h : e ≠ .timer0) : f.playedStep e = none := by
  cases e with
  | timer0 => exact absurd rfl h
  | _ => rfl

section

variable {table : Vector UInt8 7} {buffer : Vector UInt8 192} {whole left : List (ℤ × Bool)}
  {f g : Firmware} {e : Event}

/-- Only an event that starts a transfer changes the operation. -/
theorem Effect.operation {c : Control} (h : Effect f e c) (hstart : e.isStart = false) :
    c.operation = f.operation := by
  cases h with
  | start hrq => simp [Event.isStart, hrq] at hstart
  | _ => rfl

/-- The converter runs in `STATE_WAIT_CONDITION` only. -/
theorem Phase.waiting_of_adie (h : Phase whole f left) (hadie : f.adie = true) :
    f.state = .waitCondition := by
  cases h with
  | waiting hstate => exact hstate
  | starting _ hnot => simp [hnot] at hadie
  | playing _ hnot => simp [hnot] at hadie
  | done _ hnot => simp [hnot] at hadie

/-- The handler of the timer runs in `STATE_TX` only. -/
theorem Phase.playing_of_ocie0a (h : Phase whole f left) (hocie0a : f.ocie0a = true) :
    f.state = .tx ∧ f.adie = false ∧ ∃ n, playback n f = some left := by
  cases h with
  | playing hstate hadie hplay => exact ⟨hstate, hadie, _, hplay⟩
  | starting _ _ hnot => simp [hnot] at hocie0a
  | waiting _ hnot => simp [hnot] at hocie0a
  | done _ _ hnot => simp [hnot] at hocie0a

/-- A step other than the timer's plays nothing. -/
theorem Transmitting.quiet (h : Transmitting table buffer whole f left)
    (hplays : Plays table buffer whole)
    (htables : g.sampleVector = f.sampleVector ∧ g.ioBuffer = f.ioBuffer)
    (heffect : Effect f e g.control) (hstart : e.isStart = false) (hne : e ≠ .timer0) :
    g.timedOut = true ∨ Transmitting table buffer whole g left := by
  obtain ⟨hsample, hbuffer, htx, hedge, hphase⟩ := h
  have hoperation := heffect.operation hstart
  suffices hgoal : g.timedOut = true ∨ Phase whole g left from
    hgoal.imp_right fun hphase' => ⟨htables.1.trans hsample, htables.2.trans hbuffer,
      (congrArg Operation.tx hoperation).trans htx,
      (congrArg Operation.edgeStart hoperation).trans hedge, hphase'⟩
  have hkeep (hcontrol : g.control = f.control) : Phase whole g left := by
    have hstate : g.state = f.state := congrArg Control.state hcontrol
    have hadie : g.adie = f.adie := congrArg Control.adie hcontrol
    have hocie0a : g.ocie0a = f.ocie0a := congrArg Control.ocie0a hcontrol
    have hoffset : g.opOffset = f.opOffset := congrArg Control.opOffset hcontrol
    have hlength : g.opLength = f.opLength := congrArg Control.opLength hcontrol
    cases hphase with
    | starting h1 h2 h3 =>
      exact .starting (hstate.trans h1) (hadie.trans h2) (hocie0a.trans h3)
    | waiting h1 h2 h3 h4 =>
      exact .waiting (hstate.trans h1) (hocie0a.trans h2) (hoffset.trans h3) (hlength.trans h4)
    | playing h1 h2 hplay =>
      have halike : Alike f g := ⟨hstate, htables.1, htables.2, hoffset, hlength⟩
      exact .playing (hstate.trans h1) (hadie.trans h2) (halike.playback hplay)
    | done h1 h2 h3 => exact .done (hstate ▸ h1) (hadie.trans h2) (hocie0a.trans h3)
  generalize hcontrol : g.control = c at heffect
  have hstate := congrArg Control.state hcontrol
  have hadie := congrArg Control.adie hcontrol
  have hocie0a := congrArg Control.ocie0a hcontrol
  have hoffset := congrArg Control.opOffset hcontrol
  have hlength := congrArg Control.opLength hcontrol
  cases heffect with
  | start hrq => simp [Event.isStart, hrq] at hstart
  | keep => exact .inr (hkeep hcontrol)
  | wait => exact .inr (hkeep hcontrol)
  | begin hstarting =>
    have hfirst : f.operation.firstState = .waitCondition := if_pos hedge
    have hlater : (f.operation.playsAtOnce || f.ocie0a) = f.ocie0a := by
      simp [Operation.playsAtOnce, operation, hedge]
    have hnumber : f.operation.length = 384 := if_pos htx
    cases hphase with
    | starting _ _ h3 =>
      exact .inr (.waiting (hstate.trans hfirst) ((hocie0a.trans hlater).trans h3) hoffset
        (hlength.trans hnumber))
    | waiting h1 => simp [h1] at hstarting
    | playing h1 => simp [h1] at hstarting
    | done h1 => simp [hstarting] at h1
  | finish hfinished =>
    cases hphase with
    | done => exact .inr (.done (.inr hstate) hadie hocie0a)
    | starting h1 => simp [h1] at hfinished
    | waiting h1 => simp [h1] at hfinished
    | playing h1 => simp [h1] at hfinished
  | edge _ hwaiting =>
    cases hphase with
    | waiting _ _ h3 h4 =>
      have hentered : g.state = .tx := hstate.trans (if_pos htx)
      obtain ⟨n, hplay⟩ := hplays g (htables.1.trans hsample) (htables.2.trans hbuffer) hentered
        (hoffset.trans h3) (hlength.trans h4)
      exact .inr (.playing hentered (hadie.trans (by simp [htx])) hplay)
    | starting h1 => simp [h1] at hwaiting
    | playing h1 => simp [h1] at hwaiting
    | done h1 => simp [hwaiting] at h1
  | timeout => exact .inl (congrArg Control.timedOut hcontrol)
  | sample hrunning hleft => exact absurd (hphase.waiting_of_adie hrunning) hleft
  | sampleLast hrunning hleft => exact absurd (hphase.waiting_of_adie hrunning) hleft
  | play => exact absurd rfl hne
  | stop => exact absurd rfl hne

/-- A run of the handler plays the next step, or ends the transmission. -/
theorem Transmitting.timer0 (h : Transmitting table buffer whole f left)
    (hstep : f.step .timer0 = .ok g) :
    ∃ left', left = (f.playedStep .timer0).toList ++ left' ∧
      Transmitting table buffer whole g left' := by
  have htables := tables_of_step hstep nofun nofun
  have hoperation := (effect hstep).operation rfl
  obtain ⟨hocie0a, hhandler⟩ := step_timer0_eq_ok hstep
  obtain ⟨hstate, hadie, n, hplay⟩ := h.phase.playing_of_ocie0a hocie0a
  have hnext {left' : List (ℤ × Bool)} (hphase : Phase whole g left') :
      Transmitting table buffer whole g left' :=
    ⟨htables.1.trans h.sampleVector, htables.2.trans h.ioBuffer,
      (congrArg Operation.tx hoperation).trans h.tx,
      (congrArg Operation.edgeStart hoperation).trans h.edgeStart, hphase⟩
  have hplayed : f.playedStep .timer0 =
      if g.state = .finished then none else some ((g.ocr0a.toNat : ℤ) + 1, g.coilOutput) := by
    rw [playedStep, hhandler]
  obtain _ | n := n
  · cases hplay
  rw [playback, hhandler] at hplay
  dsimp only at hplay
  have heffect := effect hstep
  generalize hcontrol : g.control = c at heffect
  have hstate' := congrArg Control.state hcontrol
  have hadie' := congrArg Control.adie hcontrol
  have hocie0a' := congrArg Control.ocie0a hcontrol
  cases heffect with
  | keep _ _ htimer => exact absurd rfl htimer
  | play coil _ _ _ =>
    have hentered : g.state = .tx := hstate'.trans hstate
    have hrunning : g.state ≠ .finished := by simp [hentered]
    rw [if_neg hrunning] at hplay hplayed
    obtain ⟨left', hleft, rfl⟩ := Option.map_eq_some_iff.mp hplay
    refine ⟨left', ?_, hnext (.playing hentered (hadie'.trans hadie) hleft)⟩
    rw [hplayed]
    rfl
  | stop _ _ =>
    rw [if_pos (show g.state = .finished from hstate')] at hplay hplayed
    cases hplay
    refine ⟨[], ?_, hnext (.done (.inl hstate') (hadie'.trans hadie) hocie0a')⟩
    rw [hplayed]
    rfl

end

/-- A run of the firmware from `STATE_STARTING` to `STATE_IDLE` without a timeout plays what the
tables say. -/
theorem Transmitting.run {table : Vector UInt8 7} {buffer : Vector UInt8 192}
    {whole left : List (ℤ × Bool)} {f g : Firmware} {tr : List (Firmware × Event)}
    (h : Transmitting table buffer whole f left) (hplays : Plays table buffer whole)
    (hrun : Run step f tr g) (hstart : ∀ p ∈ tr, p.2.isStart = false)
    (hout : ∀ p ∈ tr, ∀ data, p.2 ≠ .dataOut data) (hidle : g.state = .idle)
    (htimedOut : g.timedOut = false) : played tr = left := by
  induction hrun generalizing left with
  | nil f =>
    cases h.phase with
    | done => rfl
    | starting h1 => simp [h1] at hidle
    | waiting h1 => simp [h1] at hidle
    | playing h1 => simp [h1] at hidle
  | @cons f t u e es head tail ih =>
    rw [List.forall_mem_cons] at hstart hout
    by_cases hne : e = .timer0
    · subst hne
      obtain ⟨left', hleft, hnext⟩ := h.timer0 head
      rw [hleft, ← ih hnext hstart.2 hout.2 hidle htimedOut]
      cases hplayed : f.playedStep .timer0 with
      | none => exact List.filterMap_cons_none hplayed
      | some step => exact List.filterMap_cons_some hplayed
    · have htables := tables_of_step head hout.1 fun hadc => by
        cases e with
        | adc adch => exact h.phase.waiting_of_adie (step_adc_eq_ok head).1
        | _ => cases hadc
      rcases h.quiet hplays htables (effect head) hstart.1 hne with hlost | hnext
      · rw [run_timedOut tail hlost hstart.2] at htimedOut
        cases htimedOut
      · rw [← ih hnext hstart.2 hout.2 hidle htimedOut]
        exact List.filterMap_cons_none (playedStep_of_ne hne)

/-! ## Between the requests -/

/-- Where the handler does not run nothing is played. -/
theorem played_eq_nil {tr : List (Firmware × Event)} (h : ∀ p ∈ tr, p.2.isHandler = false) :
    played tr = [] := by
  refine List.filterMap_eq_nil_iff.mpr fun p hp => playedStep_of_ne ?_
  intro htimer
  have hnot := h p hp
  rw [htimer] at hnot
  cases hnot

/-- A transmission that is over when its status is asked for has played its tables. -/
theorem Polled.played {rq : SetupRequest} {f ended g : Firmware} {es : List Event}
    (h : Polled rq f es ended g) (hf : Resting f) (hrq : rq.bRequest = PROTO_CMD_TRANSFER_START)
    (htx : rq.operation.tx = true) (hedge : rq.operation.edgeStart = true)
    {whole : List (ℤ × Bool)} (hplays : Plays f.sampleVector f.ioBuffer whole)
    (hover : ended.IsOver) : Resting g ∧ Firmware.played (trace Firmware.step f es) = whole := by
  obtain ⟨before, during, after, started, htrace, hbefore, hafter, hstarting, htables, hduring,
    hquiet, hg⟩ := h.split hf hrq hover
  have htransmitting : Transmitting f.sampleVector f.ioBuffer whole started whole :=
    ⟨htables.1, htables.2, (congrArg Operation.tx hstarting.operation).trans htx,
      (congrArg Operation.edgeStart hstarting.operation).trans hedge,
      .starting hstarting.state hstarting.adie hstarting.ocie0a⟩
  have hplayed := htransmitting.run hplays hduring
    (fun p hp => Event.isStart_of_isSetup (Event.isSetup_of_isQuiet (hquiet p hp)))
    (fun p hp data hdata => by
      have hmem := hquiet p hp
      rw [hdata] at hmem
      cases hmem) hover.1 hover.2
  refine ⟨hg.1, ?_⟩
  rw [htrace, played_append, played_append, played_eq_nil hbefore, played_eq_nil hafter, hplayed,
    List.nil_append, List.append_nil]

end RfidTool.Firmware

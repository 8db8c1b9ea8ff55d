import RfidTool.Firmware.Bounds
import RfidTool.Firmware.DataPhase

/-!
# What happens without the host

The main loop and the two handlers share the state with the USB driver, but not the variables
of the data phase, nor `response` and `sampleVector`. `ioBuffer` is written by the converter
alone. A firmware in `STATE_IDLE` is at rest: neither handler is enabled, until the host starts
a transfer.
-/

namespace RfidTool

/-- What happens without the host. -/
def Event.isBackground : Event → Bool
  | .idle | .adc _ | .timer0 => true
  | _ => false

/-- What happens while the host sends nothing that the firmware gets to see. -/
def Event.isQuiet : Event → Bool
  | .setup _ | .standard | .dataOut _ => false
  | _ => true

theorem Event.isQuiet_of_isBackground {e : Event} (h : e.isBackground) : e.isQuiet := by
  cases e with
  | setup | standard | dataOut => cases h
  | _ => rfl

/-- The event is a request. -/
def Event.isSetup : Event → Bool
  | .setup _ | .standard => true
  | _ => false

theorem Event.isSetup_of_isQuiet {e : Event} (h : e.isQuiet) : e.isSetup = false := by
  cases e with
  | setup | standard => cases h
  | _ => rfl

theorem Event.isStart_of_isSetup {e : Event} (h : e.isSetup = false) : e.isStart = false := by
  cases e with
  | setup => cases h
  | _ => rfl

theorem Event.isStart_setup {rq : SetupRequest} (h : rq.bRequest ≠ PROTO_CMD_TRANSFER_START) :
    Event.isStart (.setup rq) = false := beq_false_of_ne h

namespace Firmware

/-- What the main loop and the handlers leave alone. -/
structure Kept (f g : Firmware) : Prop where
  usb : g.usb = f.usb
  response : g.response = f.response
  sampleVector : g.sampleVector = f.sampleVector

theorem kept_startTransfer (f : Firmware) :
    Kept f f.startTransfer ∧ f.startTransfer.ioBuffer = f.ioBuffer := by
  unfold startTransfer
  dsimp only
  split_ifs <;> exact ⟨⟨rfl, rfl, rfl⟩, rfl⟩

theorem kept_adcWait (f : Firmware) (oldSignal : UInt8) : Kept f (f.adcWait oldSignal) := by
  unfold adcWait
  split_ifs <;> exact ⟨rfl, rfl, rfl⟩

theorem kept_adcStore {f g : Firmware} (h : f.adcStore = .ok g) : Kept f g := by
  obtain ⟨byte, -, h⟩ := Except.bind_eq_ok_iff.mp h
  obtain ⟨f', hwrite, h⟩ := Except.bind_eq_ok_iff.mp h
  obtain ⟨-, ioBuffer, rfl⟩ := writeIoBuffer_eq_ok hwrite
  dsimp only at h
  split_ifs at h
  all_goals
    cases h
    exact ⟨rfl, rfl, rfl⟩

theorem kept_timer0Compa {f g : Firmware} (h : f.timer0Compa = .ok g) :
    Kept f g ∧ g.ioBuffer = f.ioBuffer := by
  unfold timer0Compa at h
  split_ifs at h
  · cases h
    exact ⟨⟨rfl, rfl, rfl⟩, rfl⟩
  · obtain ⟨byte, -, h⟩ := Except.bind_eq_ok_iff.mp h
    dsimp only at h
    split_ifs at h
    · cases h
      exact ⟨⟨rfl, rfl, rfl⟩, rfl⟩
    · obtain ⟨width, -, h⟩ := Except.bind_eq_ok_iff.mp h
      cases h
      exact ⟨⟨rfl, rfl, rfl⟩, rfl⟩

/-- A conversion changes `ioBuffer` at most, the timer and the main loop neither of the
vectors. -/
theorem kept_of_step {f g : Firmware} {e : Event} (he : e.isBackground)
    (h : f.step e = .ok g) : Kept f g ∧ (e.isAdc = false → g.ioBuffer = f.ioBuffer) := by
  cases e with
  | idle =>
    rcases idleRound_eq_ok h with ⟨-, rfl⟩ | ⟨-, rfl⟩ | ⟨-, -, rfl⟩
    · exact ⟨(kept_startTransfer f).1, fun _ => (kept_startTransfer f).2⟩
    · exact ⟨⟨rfl, rfl, rfl⟩, fun _ => rfl⟩
    · exact ⟨⟨rfl, rfl, rfl⟩, fun _ => rfl⟩
  | adc adch =>
    refine ⟨?_, fun hadc => by cases hadc⟩
    obtain ⟨-, ⟨-, rfl⟩ | ⟨-, hstore⟩⟩ := step_adc_eq_ok h
    · obtain ⟨husb, hresponse, hsample⟩ :=
        kept_adcWait { f with adcLastSignal := f.adcSignal adch } f.adcLastSignal.toUInt8
      exact ⟨husb, hresponse, hsample⟩
    · obtain ⟨husb, hresponse, hsample⟩ := kept_adcStore hstore
      exact ⟨husb, hresponse, hsample⟩
  | timer0 =>
    obtain ⟨hkept, hbuffer⟩ := kept_timer0Compa (step_timer0_eq_ok h).2
    exact ⟨hkept, fun _ => hbuffer⟩
  | _ => cases he

/-- What the host reads is no change, but for the offset of the next read. -/
theorem quiet_of_step {f g : Firmware} {e : Event} (he : e.isQuiet) (h : f.step e = .ok g) :
    g.command = f.command ∧ g.userRw = f.userRw ∧ g.sampleVector = f.sampleVector ∧
      (e.isAdc = false → g.ioBuffer = f.ioBuffer) := by
  have hkept (he : e.isBackground) : g.command = f.command ∧ g.userRw = f.userRw ∧
      g.sampleVector = f.sampleVector ∧ (e.isAdc = false → g.ioBuffer = f.ioBuffer) := by
    obtain ⟨⟨husb, -, hsample⟩, hbuffer⟩ := kept_of_step he h
    simp only [usb, Prod.mk.injEq] at husb
    exact ⟨husb.1, husb.2.2, hsample, hbuffer⟩
  cases e with
  | dataIn len =>
    obtain ⟨offset, rfl⟩ := step_dataIn_eq_ok h
    exact ⟨rfl, rfl, rfl, fun _ => rfl⟩
  | idle => exact hkept rfl
  | adc adch => exact hkept rfl
  | timer0 => exact hkept rfl
  | _ => cases he

/-! ## At rest -/

/-- There is no transfer, and neither handler is enabled. -/
structure Resting (f : Firmware) : Prop where
  state : f.state = .idle
  adie : f.adie = false
  ocie0a : f.ocie0a = false

theorem Resting.of_control {f g : Firmware} (h : Resting f) (hcontrol : g.control = f.control) :
    Resting g where
  state := (congrArg Control.state hcontrol).trans h.state
  adie := (congrArg Control.adie hcontrol).trans h.adie
  ocie0a := (congrArg Control.ocie0a hcontrol).trans h.ocie0a

/-- The handlers do not run. -/
theorem Resting.not_handler {f g : Firmware} {e : Event} (h : Resting f)
    (hstep : f.step e = .ok g) : e.isAdc = false ∧ e ≠ .timer0 := by
  cases e with
  | adc adch =>
    have hadie := (step_adc_eq_ok hstep).1
    rw [h.adie] at hadie
    cases hadie
  | timer0 =>
    have hocie0a := (step_timer0_eq_ok hstep).1
    rw [h.ocie0a] at hocie0a
    cases hocie0a
  | _ => exact ⟨rfl, nofun⟩

/-- Only a transfer ends the rest. -/
theorem Resting.step {f g : Firmware} {e : Event} (h : Resting f) (hstart : e.isStart = false)
    (hstep : f.step e = .ok g) : Resting g := by
  obtain ⟨hadc, htimer⟩ := h.not_handler hstep
  have heffect := effect hstep
  generalize hcontrol : g.control = c at heffect
  cases heffect with
  | start hrq => simp [Event.isStart, hrq] at hstart
  | keep => exact h.of_control hcontrol
  | begin hstate => simp [h.state] at hstate
  | finish hstate => simp [h.state] at hstate
  | play | stop => exact absurd rfl htimer
  | _ => cases hadc

theorem resting_of_isQuiet (f : Firmware) (e : Event) (g : Firmware) (h : f.Resting)
    (he : e.isQuiet) (hstep : f.step e = .ok g) : g.Resting :=
  h.step (Event.isStart_of_isSetup (Event.isSetup_of_isQuiet he)) hstep

/-- `STATE_IDLE` is entered with both handlers disabled. -/
theorem resting_step {f g : Firmware} {e : Event} (hf : f.state = .idle → Resting f)
    (hstep : f.step e = .ok g) (hidle : g.state = .idle) : Resting g := by
  have heffect := effect hstep
  generalize hcontrol : g.control = c at heffect
  have hsame : f.state = .idle → e.isStart = false → Resting g :=
    fun hidle hstart => (hf hidle).step hstart hstep
  rw [show g.state = c.state from congrArg Control.state hcontrol] at hidle
  cases heffect with
  | start => cases hidle
  | keep hstart => exact hsame hidle hstart
  | begin =>
    unfold Operation.firstState at hidle
    split_ifs at hidle
  | finish =>
    exact ⟨congrArg Control.state hcontrol, congrArg Control.adie hcontrol,
      congrArg Control.ocie0a hcontrol⟩
  | edge =>
    dsimp only at hidle
    split_ifs at hidle
  | timeout | sampleLast | stop => cases hidle
  | _ => exact hsame hidle rfl

theorem resting_of_foldlM {es : List Event} {f g : Firmware} (hf : f.state = .idle → Resting f)
    (h : es.foldlM step f = .ok g) : g.state = .idle → Resting g := by
  refine (Run.of_foldlM h).invariant (fun f => f.state = .idle → Resting f) (fun _ _ => True) ?_ hf
    fun _ _ => trivial
  exact fun f e g hf _ hstep => resting_step hf hstep

theorem resting_init : Resting init := ⟨rfl, rfl, rfl⟩

/-! ## What the firmware sees of the host -/

/-- The events of a request: the firmware is in the state `asked` when it comes, and goes on
with a data stage. -/
structure Asked (rq : SetupRequest) (Stage : Event → Prop) (f : Firmware) (es : List Event)
    (asked g : Firmware) : Prop where
  events : ∃ before after, es = before ++ .setup rq :: after ∧ (∀ e ∈ before, e.isQuiet) ∧
    (∀ e ∈ after, Stage e) ∧ before.foldlM step f = .ok asked ∧
    after.foldlM step (asked.usbFunctionSetup rq) = .ok g

/-- A transfer is requested, and its status when the firmware is in the state `ended`. -/
structure Polled (rq : SetupRequest) (f : Firmware) (es : List Event) (ended g : Firmware) :
    Prop where
  events : ∃ before during after status started,
    es = before ++ .setup rq :: (during ++ .setup status :: after) ∧
    (∀ e ∈ before ++ during ++ after, e.isQuiet) ∧ status.bRequest = PROTO_CMD_TRANSFER_STATUS ∧
    before.foldlM step f = .ok started ∧
    during.foldlM step (started.usbFunctionSetup rq) = .ok ended ∧
    after.foldlM step (ended.usbFunctionSetup status) = .ok g

/-- The transfer is over, and has not timed out. -/
def IsOver (f : Firmware) : Prop := f.state = .idle ∧ f.timedOut = false

theorem command_of_quiet {es : List Event} {f g : Firmware} (hes : ∀ e ∈ es, e.isQuiet)
    (h : es.foldlM step f = .ok g) : g.command = f.command :=
  (Run.of_foldlM h).invariant (fun g => g.command = f.command) (fun _ e => e.isQuiet)
    (fun _ _ _ hs he hstep => (quiet_of_step he hstep).1.trans hs) rfl
    fun _ hp => hes _ (mem_of_mem_trace hp)

theorem id_of_quiet {es : List Event} {f g : Firmware} (hes : ∀ e ∈ es, e.isQuiet)
    (h : es.foldlM step f = .ok g) : g.id = f.id := by
  refine (Run.of_foldlM h).invariant (fun g => g.id = f.id) (fun _ e => e.isQuiet) ?_ rfl
    fun p hp => hes _ (mem_of_mem_trace hp)
  intro s e t hs he hstep
  have heffect := effect hstep
  generalize hcontrol : t.control = c at heffect
  refine Eq.trans ((congrArg Control.id hcontrol).trans ?_) hs
  cases heffect with
  | start => cases he
  | _ => rfl

/-- Only a request to start one starts a transfer. -/
theorem Asked.isStart_eq_false {rq : SetupRequest} {Stage : Event → Prop}
    (hstage : ∀ e, Stage e → e.isSetup = false) {f asked g : Firmware} {es : List Event}
    (h : Asked rq Stage f es asked g) (hrq : rq.bRequest ≠ PROTO_CMD_TRANSFER_START) :
    ∀ e ∈ es, e.isStart = false := by
  obtain ⟨before, after, rfl, hbefore, hafter, -⟩ := h.events
  rw [List.forall_mem_append, List.forall_mem_cons]
  refine ⟨fun e he => ?_, Event.isStart_setup hrq, fun e he => ?_⟩
  · exact Event.isStart_of_isSetup (Event.isSetup_of_isQuiet (hbefore e he))
  · exact Event.isStart_of_isSetup (hstage e (hafter e he))

theorem Asked.foldlM {rq : SetupRequest} {Stage : Event → Prop} {f asked g : Firmware}
    {es : List Event} (h : Asked rq Stage f es asked g) : es.foldlM step f = .ok g := by
  obtain ⟨before, after, rfl, -, -, hbefore, hafter⟩ := h.events
  rw [List.foldlM_append, hbefore]
  exact hafter

/-- At rest the handlers do not run, and the vectors stay as they are. -/
theorem Resting.foldlM {es : List Event} {f g : Firmware} (hf : Resting f)
    (h : es.foldlM Firmware.step f = .ok g) (hstart : ∀ e ∈ es, e.isStart = false) :
    Resting g ∧ (∀ p ∈ trace Firmware.step f es, p.2.isHandler = false) ∧
      ((∀ e ∈ es, e.isQuiet) → g.sampleVector = f.sampleVector ∧ g.ioBuffer = f.ioBuffer) := by
  induction es generalizing f with
  | nil =>
    cases h
    exact ⟨hf, List.forall_mem_nil _, fun _ => ⟨rfl, rfl⟩⟩
  | cons e es ih =>
    rw [List.foldlM_cons] at h
    obtain ⟨t, ht, hrest⟩ := Except.bind_eq_ok_iff.mp h
    rw [List.forall_mem_cons] at hstart
    obtain ⟨hg, hhandlers, htables⟩ := ih (hf.step hstart.1 ht) hrest hstart.2
    obtain ⟨hadc, htimer⟩ := hf.not_handler ht
    refine ⟨hg, ?_, fun hquiet => ?_⟩
    · rw [trace, ht]
      refine List.forall_mem_cons.mpr ⟨?_, hhandlers⟩
      cases e with
      | adc => cases hadc
      | timer0 => exact absurd rfl htimer
      | _ => rfl
    · rw [List.forall_mem_cons] at hquiet
      obtain ⟨-, -, hsample, hbuffer⟩ := quiet_of_step hquiet.1 ht
      obtain ⟨hsample', hbuffer'⟩ := htables hquiet.2
      exact ⟨hsample'.trans hsample, hbuffer'.trans (hbuffer hadc)⟩

theorem Polled.foldlM {rq : SetupRequest} {f ended g : Firmware} {es : List Event}
    (h : Polled rq f es ended g) : es.foldlM Firmware.step f = .ok g := by
  obtain ⟨before, during, after, status, started, rfl, -, -, hbefore, hduring, hafter⟩ := h.events
  rw [List.foldlM_append, hbefore]
  change (during ++ .setup status :: after).foldlM Firmware.step (started.usbFunctionSetup rq) = _
  rw [List.foldlM_append, hduring]
  exact hafter

/-- A transfer is requested at rest. -/
structure Starting (op : Operation) (f : Firmware) : Prop where
  operation : f.operation = op
  state : f.state = .starting
  adie : f.adie = false
  ocie0a : f.ocie0a = false

/-- Outside of the transfer the firmware is at rest. -/
theorem Polled.split {rq : SetupRequest} {f ended g : Firmware} {es : List Event}
    (h : Polled rq f es ended g) (hf : Resting f) (hrq : rq.bRequest = PROTO_CMD_TRANSFER_START)
    (hover : ended.IsOver) :
    ∃ before during after started,
      trace Firmware.step f es = before ++ (during ++ after) ∧
      (∀ p ∈ before, p.2.isHandler = false) ∧ (∀ p ∈ after, p.2.isHandler = false) ∧
      Starting rq.operation started ∧
      (started.sampleVector = f.sampleVector ∧ started.ioBuffer = f.ioBuffer) ∧
      Run Firmware.step started during ended ∧ (∀ p ∈ during, p.2.isQuiet) ∧
      Resting g ∧ g.ioBuffer = ended.ioBuffer := by
  obtain ⟨before, during, after, status, s, rfl, hquiet, hstatus, hbefore, hduring, hafter⟩ :=
    h.events
  simp only [List.forall_mem_append] at hquiet
  obtain ⟨⟨hquietBefore, hquietDuring⟩, hquietAfter⟩ := hquiet
  have hstart {es : List Event} (hes : ∀ e ∈ es, e.isQuiet) : ∀ e ∈ es, e.isStart = false :=
    fun e he => Event.isStart_of_isSetup (Event.isSetup_of_isQuiet (hes e he))
  obtain ⟨hs, hnone, htables⟩ := hf.foldlM hbefore (hstart hquietBefore)
  have hcontrol := control_usbFunctionSetup_start s hrq
  have hstarting : Starting rq.operation (s.usbFunctionSetup rq) :=
    ⟨congrArg Control.operation hcontrol, congrArg Control.state hcontrol,
      (congrArg Control.adie hcontrol).trans hs.adie,
      (congrArg Control.ocie0a hcontrol).trans hs.ocie0a⟩
  have hresting := resting_of_foldlM (fun hidle => by simp [hstarting.state] at hidle) hduring
    hover.1
  have hanswered : (ended.usbFunctionSetup status).Resting :=
    hresting.of_control (control_usbFunctionSetup ended (by rw [hstatus]; decide))
  obtain ⟨hg, hnone', htables'⟩ := hanswered.foldlM hafter (hstart hquietAfter)
  refine ⟨trace Firmware.step f before ++ [(s, .setup rq)],
    trace Firmware.step (s.usbFunctionSetup rq) during,
    (ended, .setup status) :: trace Firmware.step (ended.usbFunctionSetup status) after,
    s.usbFunctionSetup rq, ?_, ?_, ?_, hstarting, ?_, Run.of_foldlM hduring,
    fun p hp => hquietDuring _ (mem_of_mem_trace hp), hg, ?_⟩
  · have hrest := congrArg (List.cons (s, Event.setup rq))
      (trace_append hduring (.setup status :: after))
    rw [trace_append hbefore, List.append_assoc, List.singleton_append]
    exact congrArg _ hrest
  · exact List.forall_mem_append.mpr ⟨hnone, List.forall_mem_singleton.mpr rfl⟩
  · exact List.forall_mem_cons.mpr ⟨rfl, hnone'⟩
  · rw [usbFunctionSetup_start s hrq]
    exact htables hquietBefore
  · rw [(htables' hquietAfter).2]
    rcases usbFunctionSetup_cases ended status with
      ⟨bytes, h⟩ | ⟨on, h⟩ | ⟨-, bytes, h⟩ | ⟨hstart, -⟩ | ⟨-, h⟩
    · exact (congrArg Firmware.ioBuffer h).trans rfl
    · exact (congrArg Firmware.ioBuffer h).trans rfl
    · exact (congrArg Firmware.ioBuffer h).trans rfl
    · rw [hstatus] at hstart
      cases hstart
    · exact (congrArg Firmware.ioBuffer h).trans rfl

/-! ## The way to the bootloader -/

/-- The next round of the main loop with a timeout jumps to the bootloader, unless a request for
a vector comes first. -/
def Bootloads (f : Firmware) : Prop :=
  ∀ (es : List Event) (g : Firmware), (∀ rq, .setup rq ∈ es → ¬IsVectorCommand rq.bRequest) →
    es.foldlM Firmware.step f = .ok g → .idle ∉ es ∧ g.step .idle = .error .bootloader

theorem Bootloads.foldlM {f g : Firmware} {es : List Event} (hf : Bootloads f)
    (hes : ∀ rq, .setup rq ∈ es → ¬IsVectorCommand rq.bRequest)
    (h : es.foldlM Firmware.step f = .ok g) : Bootloads g := by
  intro es' g' hes' h'
  obtain ⟨hnot, hend⟩ := hf (es ++ es') g' (fun rq hrq => by
    rcases List.mem_append.mp hrq with hrq | hrq
    · exact hes rq hrq
    · exact hes' rq hrq) (by
    rw [List.foldlM_append, h]
    exact h')
  exact ⟨fun hmem => hnot (List.mem_append_right _ hmem), hend⟩

theorem command_of_step {f g : Firmware} {e : Event} (hf : f.command = PROTO_CMD_RESET)
    (he : ∀ rq, e = .setup rq → ¬IsVectorCommand rq.bRequest) (hstep : f.step e = .ok g) :
    g.command = PROTO_CMD_RESET := by
  by_cases hquiet : e.isQuiet
  · exact (quiet_of_step hquiet hstep).1.trans hf
  · cases e with
    | setup rq =>
      cases hstep
      rcases usbFunctionSetup_cases f rq with
        ⟨bytes, h⟩ | ⟨on, h⟩ | ⟨hreset, bytes, h⟩ | ⟨-, bytes, h⟩ | ⟨hvector, -⟩
      · rw [h]
        exact hf
      · rw [h]
        exact hf
      · rw [h]
        exact hreset
      · rw [h]
        exact hf
      · exact absurd hvector (he rq rfl)
    | standard =>
      cases hstep
      exact hf
    | dataOut data =>
      rcases step_dataOut_eq_ok hstep with rfl | ⟨-, hwrite⟩
      · exact hf
      · obtain ⟨sampleVector, ioBuffer, offset, rfl, -⟩ := usbFunctionWrite_eq_ok hwrite
        exact hf
    | _ => exact absurd rfl hquiet

/-- Behind a reset the firmware takes that way. -/
theorem bootloads_of_command {f : Firmware} (hf : f.command = PROTO_CMD_RESET) :
    f.Bootloads := by
  intro es g hes h
  have hidle {f : Firmware} (hf : f.command = PROTO_CMD_RESET) :
      f.step .idle = .error .bootloader := if_pos hf
  induction es generalizing f with
  | nil =>
    cases h
    exact ⟨List.not_mem_nil, hidle hf⟩
  | cons e es ih =>
    rw [List.foldlM_cons] at h
    obtain ⟨t, ht, hrest⟩ := Except.bind_eq_ok_iff.mp h
    have hnext := command_of_step hf (fun rq hrq => hes rq (hrq ▸ List.mem_cons_self)) ht
    obtain ⟨hnot, hend⟩ := ih hnext (fun rq hrq => hes rq (List.mem_cons_of_mem _ hrq)) hrest
    refine ⟨fun hmem => ?_, hend⟩
    rcases List.mem_cons.mp hmem with rfl | hmem
    · rw [hidle hf] at ht
      cases ht
    · exact hnot hmem

end Firmware

end RfidTool

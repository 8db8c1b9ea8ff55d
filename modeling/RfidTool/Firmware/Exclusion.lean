import RfidTool.Firmware.Control

/-!
# Sampler and player

The two interrupt handlers are gated by their enable bits only. `Separated` says when
the bits keep step with the state: no transfer is started while a handler is enabled,
no transmission starts without an edge (`STATE_STARTING` then enables both handlers),
and no conversion completes after the end of an operation. In runs of such steps
`TIMER0_COMPA` is enabled in `STATE_TX` only and the converter nowhere but in
`STATE_WAIT_CONDITION`, `STATE_RX` and `STATE_FINISHED`.
-/

namespace RfidTool.Firmware

/-- The handler of the converter stores a bit. -/
def stores (f : Firmware) : Event → Prop
  | .adc _ => f.state ≠ .waitCondition
  | _ => False

/-- The handler of the timer plays a step. -/
def plays (f : Firmware) : Event → Prop
  | .timer0 => ¬f.stops
  | _ => False

/-- Sampling and playing do not meet in this event. -/
structure Exclusive (f : Firmware) (e : Event) : Prop where
  sampler : f.stores e → f.state = .rx
  player : f.plays e → f.state = .tx
  transmission : ∀ g, f.step e = .ok g → f.state = .tx → e.isAdc →
    g.ioBuffer = f.ioBuffer ∧ g.opOffset = f.opOffset
  coil : ∀ g, f.step e = .ok g → f.state = .rx ∨ f.state = .waitCondition →
    g.coilOutput = f.coilOutput

def Separated (f : Firmware) : Event → Prop
  | .setup rq => rq.bRequest = PROTO_CMD_TRANSFER_START → f.adie = false ∧ f.ocie0a = false
  | .idle => f.state = .starting → f.operation.playsAtOnce = false
  | .adc _ => f.state ≠ .finished
  | _ => True

/-- The enable bits keep step with the state. -/
structure Gated (c : Control) : Prop where
  player : c.ocie0a → c.state = .tx
  sampler : c.adie → c.state = .waitCondition ∨ c.state = .rx ∨ c.state = .finished

theorem gated_init : Gated init.control where
  player h := by cases h
  sampler h := by cases h

theorem Effect.gated {f : Firmware} {e : Event} {c : Control} (h : Effect f e c)
    (hf : Gated f.control) (he : f.Separated e) : Gated c := by
  have hplayer : f.ocie0a → f.state = .tx := hf.player
  have hsampler : f.adie → f.state = .waitCondition ∨ f.state = .rx ∨ f.state = .finished :=
    hf.sampler
  cases h with
  | start hrq =>
    have hbits := he hrq
    exact ⟨fun h => by simp [control, hbits.2] at h, fun h => by simp [control, hbits.1] at h⟩
  | keep => exact hf
  | begin hstate =>
    have hplays : f.operation.playsAtOnce = false := he hstate
    have hoff : f.ocie0a = false := by
      by_contra hon
      simp [hplayer (by simpa using hon)] at hstate
    refine ⟨fun h => by simp [hplays, hoff] at h, fun _ => ?_⟩
    cases hedge : f.operation.edgeStart with
    | true => exact .inl (by simp [Operation.firstState, hedge])
    | false =>
      have htx : f.operation.tx = false := by simpa [Operation.playsAtOnce, hedge] using hplays
      exact .inr (.inl (by simp [Operation.firstState, hedge, htx]))
  | finish => exact ⟨by simp, by simp⟩
  | edge =>
    cases htx : f.tx with
    | true => exact ⟨fun _ => rfl, by simp⟩
    | false => exact ⟨by simp, fun _ => .inr (.inl rfl)⟩
  | wait => exact hf
  | timeout => exact ⟨by simp, fun _ => .inr (.inr rfl)⟩
  | sample => exact ⟨hf.player, hf.sampler⟩
  | sampleLast => exact ⟨by simp, fun _ => .inr (.inr rfl)⟩
  | play => exact ⟨hf.player, hf.sampler⟩
  | stop => exact ⟨by simp, fun _ => .inr (.inr rfl)⟩

/-- An enabled event of a gated state that meets the condition is exclusive. -/
theorem Gated.exclusive {f : Firmware} {e : Event} (h : Gated f.control) (he : f.Separated e)
    (henabled : f.step e ≠ .error .disabled) : f.Exclusive e := by
  have hadc : e.isAdc → f.state = .waitCondition ∨ f.state = .rx := by
    intro hisAdc
    cases e with
    | adc adch =>
      have hadie : f.adie := by
        by_contra hoff
        exact henabled (if_neg (by simp [hoff]))
      rcases h.sampler hadie with hstate | hstate | hstate
      · exact .inl hstate
      · exact .inr hstate
      · exact absurd hstate he
    | _ => cases hisAdc
  have htimer : e = .timer0 → f.state = .tx := by
    rintro rfl
    refine h.player ?_
    by_contra hoff
    exact henabled (if_neg (by simpa [control] using fun hon => absurd hon hoff))
  refine ⟨fun hstores => ?_, fun hplays => ?_, fun g _ hstate hisAdc => ?_, fun g hg hstate => ?_⟩
  · cases e with
    | adc adch => exact (hadc rfl).resolve_left hstores
    | _ => cases hstores
  · cases e with
    | timer0 => exact htimer rfl
    | _ => cases hplays
  · rcases hadc hisAdc with hwait | hrx
    · rw [hstate] at hwait
      cases hwait
    · rw [hstate] at hrx
      cases hrx
  · suffices hcoil : g.control.coilOutput = f.control.coilOutput from hcoil
    have heffect := effect hg
    generalize g.control = c at heffect ⊢
    cases heffect with
    | play | stop =>
      rw [htimer rfl] at hstate
      simp at hstate
    | _ => rfl

/-- In every state that a run of separated steps reaches, the converter stores a bit in
`STATE_RX` only and the timer plays a step in `STATE_TX` only. -/
theorem run_exclusive {tr : List (Firmware × Event)} {f : Firmware} (hrun : Run step init tr f)
    (htr : ∀ p ∈ tr, p.1.Separated p.2) {e : Event} (he : f.Separated e)
    (henabled : f.step e ≠ .error .disabled) : f.Exclusive e := by
  have hgated : Gated f.control := by
    refine hrun.invariant (fun f => Gated f.control) Separated ?_ gated_init htr
    intro f e g hf he hstep
    exact (effect hstep).gated hf he
  exact hgated.exclusive he henabled

/-- A reception that starts at once samples. -/
theorem run_exclusive_startRx :
    (init.usbFunctionSetup startRx).startTransfer.Exclusive (.adc 0) := by
  obtain ⟨g, hg⟩ := step_adc_ok (f := (init.usbFunctionSetup startRx).startTransfer) 0 rfl rfl
    fun _ => by decide
  refine run_exclusive (run_start rfl) ?_ (e := .adc 0) (fun h => by cases h) (by simp [hg])
  intro p hp
  rcases List.mem_cons.mp hp with rfl | hp
  · exact fun _ => ⟨rfl, rfl⟩
  · rcases List.mem_singleton.mp hp with rfl
    exact fun _ => rfl

/-- A transmission that starts without an edge has the converter running, which stores a
bit in `STATE_TX`. -/
theorem not_exclusive :
    ¬∀ tr f e, Run step init tr f → f.step e ≠ .error .disabled → f.Exclusive e := by
  intro h
  obtain ⟨g, hg⟩ := step_adc_ok (f := (init.usbFunctionSetup startTx).startTransfer) 0 rfl rfl
    fun _ => by decide
  have hrun : Run step init _ (init.usbFunctionSetup startTx).startTransfer := run_start rfl
  have hexclusive := h _ _ (.adc 0) hrun (by simp [hg])
  cases hexclusive.sampler fun h => by cases h

end RfidTool.Firmware

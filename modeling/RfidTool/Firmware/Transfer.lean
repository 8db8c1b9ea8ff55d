import RfidTool.Firmware.Control

/-!
# The status of a transfer

What `TRANSFER_STATUS_OK` promises is that the transfer was executed: its
`STATE_STARTING` round came, and the operation ran to its end. `Working` follows the
operation from that round on, with the number of bits it has sampled; a step of it
goes on, ends the operation or times out. `Undisturbed` excludes the steps by which a
handler of an earlier transfer ends one that is not its own.
-/

namespace RfidTool.Firmware

/-- The handler of the converter samples a bit of a reception. -/
def samples (p : Firmware × Event) : Bool := p.2.isAdc && decide (p.1.state = .rx)

/-- The offsets of the bits that a reception samples. -/
def offsets (tr : List (Firmware × Event)) : List ℕ :=
  (tr.filter samples).map (·.1.opOffset.toNat)

/-- The event ends a transmission: the timer finds the terminator or `opLength`, or the
converter, where it runs, takes the offset to `opLength`. -/
def EndsTx (f : Firmware) (e : Event) : Prop :=
  f.state = .tx ∧ (e = .timer0 ∧ f.stops ∨ e.isAdc ∧ f.opOffset + 1 = f.opLength)

/-- The operation was started by the main loop and ran to its end under its parameters,
with no other transfer in between. -/
def Executed (op : Operation) (tr : List (Firmware × Event)) : Prop :=
  (∀ p ∈ tr, p.2.isStart = false) ∧
    ∃ before a during b e after, tr = before ++ (a, .idle) :: (during ++ (b, e) :: after) ∧
      a.state = .starting ∧ (∀ p ∈ (a, .idle) :: (during ++ [(b, e)]), p.1.operation = op) ∧
      if op.tx then EndsTx b e else offsets (during ++ [(b, e)]) = List.range 1536

/-- Every `TRANSFER_STATUS_OK` of the run is right. -/
def Truthful (tr : List (Firmware × Event)) : Prop :=
  ∀ pre f start mid g status post,
    tr = pre ++ (f, .setup start) :: (mid ++ (g, .setup status) :: post) →
    start.bRequest = PROTO_CMD_TRANSFER_START → status.bRequest = PROTO_CMD_TRANSFER_STATUS →
    status.wIndex = (f.usbFunctionSetup start).response[1].toUInt16 →
    mid.countP (·.2.isStart) < 256 →
    (g.usbFunctionSetup status).response[0] = PROTO_RC_OK →
    (g.usbFunctionSetup status).response[1] = PROTO_TRANSFER_STATUS_OK →
    Executed start.operation mid

def Undisturbed (f : Firmware) : Event → Prop
  | .adc _ => f.state = .starting → f.opOffset + 1 ≠ f.opLength
  | .timer0 =>
    f.state ≠ .waitCondition ∧ f.state ≠ .rx ∧ (f.state = .starting → ¬f.stops)
  | _ => True

/-! ## Identifiers -/

theorem response_start (f : Firmware) {rq : SetupRequest}
    (hrq : rq.bRequest = PROTO_CMD_TRANSFER_START) :
    (f.usbFunctionSetup rq).response[1] = f.id + 1 := by
  rw [usbFunctionSetup_start f hrq]
  simp [respond]

theorem usbFunctionSetup_status (f : Firmware) {rq : SetupRequest}
    (hrq : rq.bRequest = PROTO_CMD_TRANSFER_STATUS) :
    f.usbFunctionSetup rq = ({ f with userRw := false }).respond (f.transferStatus rq) := by
  unfold usbFunctionSetup
  rw [hrq]
  rfl

/-- The answer is `TRANSFER_STATUS_OK` only for the current transfer, in `STATE_IDLE` and
without a timeout. -/
theorem of_status_ok {f : Firmware} {rq : SetupRequest}
    (hrq : rq.bRequest = PROTO_CMD_TRANSFER_STATUS)
    (hcode : (f.usbFunctionSetup rq).response[0] = PROTO_RC_OK)
    (hstatus : (f.usbFunctionSetup rq).response[1] = PROTO_TRANSFER_STATUS_OK) :
    rq.wIndex = f.id.toUInt16 ∧ f.state = .idle ∧ f.timedOut = false := by
  rw [usbFunctionSetup_status f hrq] at hcode hstatus
  unfold transferStatus at hcode hstatus
  by_cases hid : rq.wIndex = f.id.toUInt16
  · rw [if_neg (not_not_intro hid)] at hstatus
    simp [respond] at hstatus
    split_ifs at hstatus with hstate htimedOut
    · cases hstatus
    · exact ⟨hid, hstate, Bool.eq_false_iff.mpr htimedOut⟩
    · cases hstatus
  · rw [if_pos hid] at hcode
    simp [respond] at hcode
    cases hcode

theorem Effect.id {f : Firmware} {e : Event} {c : Control} (h : Effect f e c) :
    c.id = if e.isStart then f.id + 1 else f.id := by
  cases h with
  | start hrq => simp [Event.isStart, hrq]
  | keep hstart => simp [hstart, control]
  | _ => rfl

/-- The identifier counts the transfers, modulo 256. -/
theorem run_id {f g : Firmware} {tr : List (Firmware × Event)} (h : Run step f tr g) :
    g.id.toNat = (f.id.toNat + tr.countP (·.2.isStart)) % 256 := by
  induction h with
  | nil f => simp [Nat.mod_eq_of_lt f.id.toNat_lt]
  | @cons f t u e es head tail ih =>
    have hid : t.id = if e.isStart then f.id + 1 else f.id := (effect head).id
    rw [ih, hid, List.countP_cons]
    split_ifs with hstart
    · simp only [UInt8.toNat_add, UInt8.reduceToNat]
      omega
    · simp

/-- No transfer is started in a run shorter than 256 of them that comes back to its
identifier. -/
theorem isStart_eq_false_of_id {f g : Firmware} {tr : List (Firmware × Event)}
    (h : Run step f tr g) (hid : g.id = f.id) (hcount : tr.countP (·.2.isStart) < 256) :
    ∀ p ∈ tr, p.2.isStart = false := by
  have hnat := run_id h
  have hlt := f.id.toNat_lt
  rw [hid] at hnat
  have hzero : tr.countP (·.2.isStart) = 0 := by omega
  simpa using List.countP_eq_zero.mp hzero

/-! ## Following an operation -/

/-- The operation runs; a reception has sampled `n` bits. -/
structure Working (op : Operation) (n : ℕ) (c : Control) : Prop where
  operation : c.operation = op
  length : c.opLength = op.length
  bound : n ≤ 1536
  progress : c.opOffset.toNat = n ∧ (c.state = .waitCondition ∨ c.state = .rx ∧ op.tx = false) ∨
    c.state = .tx ∧ op.tx = true

/-- The number of bits behind a step. -/
def sampled (n : ℕ) (p : Firmware × Event) : ℕ := if samples p then n + 1 else n

/-- The event is the end of the operation that has sampled `n` bits. -/
def Ends (op : Operation) (n : ℕ) (f : Firmware) (e : Event) : Prop :=
  if op.tx then EndsTx f e else samples (f, e) ∧ n + 1 = 1536

theorem Working.state_ne {op : Operation} {n : ℕ} {c : Control} (h : Working op n c) :
    c.state ≠ .idle ∧ c.state ≠ .starting ∧ c.state ≠ .finished := by
  rcases h.progress with ⟨-, hstate | ⟨hstate, -⟩⟩ | ⟨hstate, -⟩ <;> simp [hstate]

/-- The `STATE_STARTING` round sets the operation to work. -/
theorem working_begin (f : Firmware) :
    Working f.operation 0 { f.control with
      opOffset := 0, opLength := f.operation.length, state := f.operation.firstState,
      interrupts := true, adie := true, ocie0a := f.operation.playsAtOnce || f.ocie0a } where
  operation := rfl
  length := rfl
  bound := Nat.zero_le _
  progress := by
    unfold Operation.firstState
    split_ifs with hedge htx
    · exact .inl ⟨rfl, .inl rfl⟩
    · exact .inr ⟨rfl, htx⟩
    · exact .inl ⟨rfl, .inr ⟨rfl, Bool.eq_false_iff.mpr htx⟩⟩

/-- A stored bit of a working operation is counted, or it is the last one. -/
theorem Working.store {f : Firmware} {op : Operation} {n : ℕ} (h : Working op n f.control)
    (adch : UInt8) (hstate : f.state ≠ .waitCondition)
    (hindex : (f.opOffset / 8).toNat < 192) :
    if f.opOffset + 1 = f.opLength then Ends op n f (.adc adch)
    else Working op (sampled n (f, .adc adch)) { f.control with opOffset := f.opOffset + 1 } := by
  rcases h.progress with ⟨hoffset, hwait | ⟨hrx, htx⟩⟩ | ⟨htxState, htx⟩
  · exact absurd hwait hstate
  · have hsamples : samples (f, .adc adch) = true := by
      simpa [samples, Event.isAdc] using show f.state = .rx from hrx
    have hlength : f.opLength = 1536 := h.length.trans (if_neg (by simp [htx]))
    have hoffset : f.opOffset.toNat = n := hoffset
    have hlt : n < 1536 := hoffset ▸ (bitIndex_lt_iff _).mp hindex
    have hnext := UInt16.toNat_add_one hoffset (by omega)
    split_ifs with hend
    · rw [Ends, if_neg (by simp [htx])]
      refine ⟨hsamples, ?_⟩
      rw [← hnext, hend, hlength]
      rfl
    · rw [sampled, if_pos hsamples]
      exact ⟨h.operation, h.length, hlt, .inl ⟨hnext, .inr ⟨hrx, htx⟩⟩⟩
  · split_ifs with hend
    · rw [Ends, if_pos htx]
      exact ⟨htxState, .inr ⟨rfl, hend⟩⟩
    · have hsilent : sampled n (f, .adc adch) = n :=
        if_neg (by simp [samples, show f.state = .tx from htxState])
      rw [hsilent]
      exact ⟨h.operation, h.length, h.bound, .inr ⟨htxState, htx⟩⟩

/-- A step of a working operation ends it, goes on with it or times out. -/
theorem Effect.working {f : Firmware} {e : Event} {c : Control} (h : Effect f e c)
    {op : Operation} {n : ℕ} (hf : Working op n f.control) (he : f.Undisturbed e)
    (hstart : e.isStart = false) :
    Ends op n f e ∨ Working op (sampled n (f, e)) c ∨ c.timedOut = true := by
  obtain ⟨-, hstarting, hfinished⟩ := hf.state_ne
  have hsilent : e.isAdc = false → sampled n (f, e) = n := by
    intro hadc
    simp [sampled, samples, hadc]
  have hwaiting : f.state = .waitCondition → sampled n (f, e) = n := by
    intro hwait
    simp [sampled, samples, hwait]
  cases h with
  | start hrq => simp [Event.isStart, hrq] at hstart
  | keep _ hadc =>
    rw [hsilent hadc]
    exact .inr (.inl hf)
  | begin hstate => exact absurd hstate hstarting
  | finish hstate => exact absurd hstate hfinished
  | edge hadie hstate =>
    rw [hwaiting hstate]
    refine .inr (.inl ⟨hf.operation, hf.length, hf.bound, ?_⟩)
    have htx : f.tx = op.tx := congrArg Operation.tx hf.operation
    rcases hf.progress with ⟨hoffset, -⟩ | ⟨htxState, -⟩
    · cases hop : op.tx with
      | true => exact .inr ⟨if_pos (htx.trans hop), rfl⟩
      | false => exact .inl ⟨hoffset, .inr ⟨if_neg (by simp [htx, hop]), rfl⟩⟩
    · rw [show f.state = .tx from htxState] at hstate
      cases hstate
  | wait hadie hstate =>
    rw [hwaiting hstate]
    exact .inr (.inl hf)
  | timeout => exact .inr (.inr rfl)
  | @sample adch hadie hstate hindex hend =>
    have hstore := hf.store adch hstate hindex
    rw [if_neg hend] at hstore
    exact .inr (.inl hstore)
  | @sampleLast adch hadie hstate hindex hend =>
    have hstore := hf.store adch hstate hindex
    rw [if_pos hend] at hstore
    exact .inl hstore
  | play coil hocie0a hstops =>
    rw [hsilent rfl]
    refine .inr (.inl ⟨hf.operation, hf.length, hf.bound, ?_⟩)
    rcases hf.progress with ⟨-, hwait | ⟨hrx, -⟩⟩ | htx
    · exact absurd hwait he.1
    · exact absurd hrx he.2.1
    · exact .inr htx
  | stop hocie0a hstops =>
    rcases hf.progress with ⟨-, hwait | ⟨hrx, -⟩⟩ | ⟨htxState, htx⟩
    · exact absurd hwait he.1
    · exact absurd hrx he.2.1
    · refine .inl ?_
      rw [Ends, if_pos htx]
      exact ⟨htxState, .inl ⟨rfl, hstops⟩⟩

/-- A timeout is not forgotten before the next transfer. -/
theorem Effect.timedOut {f : Firmware} {e : Event} {c : Control} (h : Effect f e c)
    (hf : f.timedOut = true) (hstart : e.isStart = false) : c.timedOut = true := by
  cases h with
  | start hrq => simp [Event.isStart, hrq] at hstart
  | timeout => rfl
  | _ => exact hf

theorem run_timedOut {f g : Firmware} {tr : List (Firmware × Event)} (h : Run step f tr g)
    (hf : f.timedOut = true) (hstart : ∀ p ∈ tr, p.2.isStart = false) : g.timedOut = true := by
  refine h.invariant (fun f => f.timedOut = true) (fun _ e => e.isStart = false) ?_ hf hstart
  intro f e g hf he hstep
  exact (effect hstep).timedOut hf he

theorem offsets_cons (p : Firmware × Event) (tr : List (Firmware × Event)) :
    offsets (p :: tr) = if samples p then p.1.opOffset.toNat :: offsets tr else offsets tr := by
  unfold offsets
  rw [List.filter_cons]
  split_ifs <;> simp

/-- The rest of a reception that samples in this step. -/
theorem offsets_cons_range {op : Operation} {n : ℕ} {f : Firmware} {e : Event}
    {tr : List (Firmware × Event)} (h : Working op n f.control) (htx : op.tx = false)
    (hlt : sampled n (f, e) ≤ 1536)
    (htr : offsets tr = List.range' (sampled n (f, e)) (1536 - sampled n (f, e))) :
    offsets ((f, e) :: tr) = List.range' n (1536 - n) := by
  rw [offsets_cons, htr]
  unfold sampled at hlt ⊢
  split_ifs with hsamples
  · rw [if_pos hsamples] at hlt
    have hoffset : f.opOffset.toNat = n := by
      rcases h.progress with ⟨hoffset, -⟩ | ⟨-, htx'⟩
      · exact hoffset
      · rw [htx] at htx'
        cases htx'
    rw [hoffset, ← List.range'_succ]
    congr 1
    omega
  · rfl

/-- A run of a working operation that comes to `STATE_IDLE` without a timeout contains
its end. -/
theorem Working.run {f g : Firmware} {tr : List (Firmware × Event)} (h : Run step f tr g)
    {op : Operation} {n : ℕ} (hf : Working op n f.control)
    (hstart : ∀ p ∈ tr, p.2.isStart = false) (htr : ∀ p ∈ tr, p.1.Undisturbed p.2)
    (hidle : g.state = .idle) (htimedOut : g.timedOut = false) :
    ∃ during b e after, tr = during ++ (b, e) :: after ∧
      (∀ p ∈ during ++ [(b, e)], p.1.operation = op) ∧
      if op.tx then EndsTx b e else offsets (during ++ [(b, e)]) = List.range' n (1536 - n) := by
  induction h generalizing n with
  | nil f => exact absurd hidle hf.state_ne.1
  | @cons f t u e es head tail ih =>
    rw [List.forall_mem_cons] at hstart htr
    rcases (effect head).working hf htr.1 hstart.1 with hends | hworking | hlost
    · refine ⟨[], f, e, es, rfl, List.forall_mem_singleton.mpr hf.operation, ?_⟩
      unfold Ends at hends
      split_ifs at hends ⊢ with htx
      · exact hends
      · have hlast : sampled n (f, e) = 1536 := (if_pos hends.1).trans hends.2
        refine offsets_cons_range hf (Bool.eq_false_iff.mpr htx) (Nat.le_of_eq hlast) ?_
        rw [hlast]
        rfl
    · obtain ⟨during, b, e', after, rfl, hop, hend⟩ := ih hworking hstart.2 htr.2 hidle htimedOut
      refine ⟨(f, e) :: during, b, e', after, rfl, ?_, ?_⟩
      · exact List.forall_mem_cons.mpr ⟨hf.operation, hop⟩
      · split_ifs at hend ⊢ with htx
        · exact hend
        · exact offsets_cons_range hf (Bool.eq_false_iff.mpr htx) hworking.bound hend
    · rw [run_timedOut tail hlost hstart.2] at htimedOut
      cases htimedOut

/-- A run from an accepted request to `STATE_IDLE` without a timeout contains the
`STATE_STARTING` round and the end of the operation. -/
theorem executed_of_starting {f g : Firmware} {tr : List (Firmware × Event)}
    (h : Run step f tr g) (hf : f.state = .starting) (hstart : ∀ p ∈ tr, p.2.isStart = false)
    (htr : ∀ p ∈ tr, p.1.Undisturbed p.2) (hidle : g.state = .idle)
    (htimedOut : g.timedOut = false) : Executed f.operation tr := by
  refine ⟨hstart, ?_⟩
  induction h with
  | nil f =>
    rw [hf] at hidle
    cases hidle
  | @cons f t u e es head tail ih =>
    rw [List.forall_mem_cons] at hstart htr
    have hkeep (hoperation : t.operation = f.operation) (hstate : t.state = .starting) :
        ∃ before a during b e' after,
          (f, e) :: es = before ++ (a, .idle) :: (during ++ (b, e') :: after) ∧
          a.state = .starting ∧
          (∀ p ∈ (a, .idle) :: (during ++ [(b, e')]), p.1.operation = f.operation) ∧
          if f.operation.tx then EndsTx b e'
          else offsets (during ++ [(b, e')]) = List.range 1536 := by
      obtain ⟨before, a, during, b, e', after, rfl, hrest⟩ :=
        ih hstate hstart.2 htr.2 hidle htimedOut
      rw [hoperation] at hrest
      exact ⟨(f, e) :: before, a, during, b, e', after, rfl, hrest⟩
    have heffect := effect head
    generalize hcontrol : t.control = c at heffect
    cases heffect with
    | start hrq => simp [Event.isStart, hrq] at hstart
    | keep =>
      exact hkeep (congrArg Control.operation hcontrol)
        ((congrArg Control.state hcontrol).trans hf)
    | begin =>
      have hworking := working_begin f
      rw [← hcontrol] at hworking
      obtain ⟨during, b, e', after, rfl, hop, hend⟩ :=
        hworking.run tail hstart.2 htr.2 hidle htimedOut
      refine ⟨[], f, during, b, e', after, rfl, hf, List.forall_mem_cons.mpr ⟨rfl, hop⟩, ?_⟩
      rwa [List.range_eq_range']
    | finish hstate | edge _ hstate | wait _ hstate | timeout _ hstate =>
      rw [hf] at hstate
      cases hstate
    | sample =>
      exact hkeep (congrArg Control.operation hcontrol)
        ((congrArg Control.state hcontrol).trans hf)
    | sampleLast _ _ _ hend => exact absurd hend (htr.1 hf)
    | play =>
      exact hkeep (congrArg Control.operation hcontrol)
        ((congrArg Control.state hcontrol).trans hf)
    | stop _ hstops => exact absurd hstops (htr.1.2.2 hf)

/-- In a run of undisturbed steps every `TRANSFER_STATUS_OK` is right. -/
theorem run_truthful {tr : List (Firmware × Event)} {u : Firmware} (hrun : Run step init tr u)
    (htr : ∀ p ∈ tr, p.1.Undisturbed p.2) : Truthful tr := by
  rintro pre f start mid g status post rfl hstart hstatus hindex hcount hcode hok
  obtain ⟨t, -, ht, hrest⟩ := hrun.split_cons
  obtain ⟨-, hmid, -, -⟩ := hrest.split_cons
  cases ht
  obtain ⟨hid, hidle, htimedOut⟩ := of_status_ok hstatus hcode hok
  have hcontrol := control_usbFunctionSetup_start f hstart
  have hsame : g.id = (f.usbFunctionSetup start).id := by
    rw [hindex, response_start f hstart] at hid
    have hnat := congrArg UInt16.toNat hid
    rw [UInt8.toNat_toUInt16, UInt8.toNat_toUInt16] at hnat
    exact (UInt8.toNat_inj.mp hnat).symm.trans (congrArg Control.id hcontrol).symm
  have hoperation : (f.usbFunctionSetup start).operation = start.operation :=
    congrArg Control.operation hcontrol
  rw [← hoperation]
  refine executed_of_starting hmid (congrArg Control.state hcontrol) ?_ ?_ hidle htimedOut
  · exact isStart_eq_false_of_id hmid hsame hcount
  · exact fun p hp => htr p (by simp [hp])

theorem Executed.exists_starting {op : Operation} {tr : List (Firmware × Event)}
    (h : Executed op tr) : ∃ p ∈ tr, p.2 = .idle ∧ p.1.state = .starting := by
  obtain ⟨-, before, a, during, b, e, after, rfl, hstate, -⟩ := h
  exact ⟨(a, .idle), by simp, rfl, hstate⟩

/-- Ask for the status of the transfer with this identifier. -/
def askStatus (id : UInt16) : SetupRequest where
  bRequest := PROTO_CMD_TRANSFER_STATUS
  wValue := 0
  wIndex := id

/-- A transmission that finds the terminator at once, and its status. -/
def emptyTransmission : List Event :=
  [.setup ⟨PROTO_CMD_PULSE_VECTOR_WRITE, 0, 0⟩, .dataOut [0xff], .setup startTx, .idle, .timer0,
    .idle, .setup (askStatus 1)]

theorem run_truthful_emptyTransmission : Truthful (trace step init emptyTransmission) := by
  obtain ⟨u, hu⟩ : ∃ u, emptyTransmission.foldlM step init = .ok u := ⟨_, rfl⟩
  refine run_truthful (Run.of_foldlM hu) ?_
  refine List.forall_mem_cons.mpr ⟨trivial, List.forall_mem_cons.mpr ⟨trivial, ?_⟩⟩
  refine List.forall_mem_cons.mpr ⟨trivial, List.forall_mem_cons.mpr ⟨trivial, ?_⟩⟩
  refine List.forall_mem_cons.mpr ⟨⟨by decide, by decide, nofun⟩, ?_⟩
  refine List.forall_mem_cons.mpr ⟨trivial, List.forall_mem_cons.mpr ⟨trivial, ?_⟩⟩
  exact List.forall_mem_nil _

/-- Three ones of a reception are the terminator of a transmission, during which another
transfer is requested. -/
def staleEvents : List Event :=
  [.setup startRx, .idle, .adc 0, .adc 0, .adc 0, .setup startTx, .idle]

def staleState : Firmware := (staleEvents.foldlM step init).toOption.getD init

/-- The handler of the transmission ends the transfer that was requested last, and that
the main loop has not started. -/
theorem not_truthful : ¬∀ tr u, Run step init tr u → Truthful tr := by
  intro h
  have hbefore : staleEvents.foldlM step init = .ok staleState := rfl
  obtain ⟨g, hg⟩ :
      ∃ g, [.timer0, .idle].foldlM step (staleState.usbFunctionSetup startRx) = .ok g :=
    ⟨_, rfl⟩
  have hcode : (g.usbFunctionSetup (askStatus 3)).response[0] = PROTO_RC_OK := by
    cases hg
    decide +kernel
  have hstatus : (g.usbFunctionSetup (askStatus 3)).response[1] = PROTO_TRANSFER_STATUS_OK := by
    cases hg
    decide +kernel
  have hask : Run step g [(g, .setup (askStatus 3))] (g.usbFunctionSetup (askStatus 3)) :=
    .cons rfl (.nil _)
  have hlast : Run step staleState ((staleState, .setup startRx) :: _) _ :=
    .cons rfl ((Run.of_foldlM hg).append hask)
  have hrun := (Run.of_foldlM hbefore).append hlast
  have hexecuted : Executed startRx.operation _ :=
    h _ _ hrun _ staleState startRx _ g (askStatus 3) [] rfl rfl rfl (by decide +kernel)
      (by decide +kernel) hcode hstatus
  obtain ⟨p, hp, hidle, hstarting⟩ := hexecuted.exists_starting
  have hnone : ∀ p ∈ trace step (staleState.usbFunctionSetup startRx) [.timer0, .idle],
      p.2 = .idle → p.1.state ≠ .starting := by decide +kernel
  exact hnone p hp hidle hstarting

end RfidTool.Firmware

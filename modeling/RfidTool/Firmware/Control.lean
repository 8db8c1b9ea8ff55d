import RfidTool.Firmware.Main
import RfidTool.Library.Buffer

/-!
# What a step does to a transfer

`Control` is the part of the firmware that decides which code runs next: the state of
the transfer, its parameters, the offsets and the enable bits. `Effect` lists what an
event can do to it, one constructor for each path through the request handler, the
main loop and the two interrupt handlers, and `Firmware.effect` says that the list is
complete. The results about runs are proved on `Effect`.
-/

namespace RfidTool

/-- What a `TRANSFER_START` asks for. -/
structure Operation where
  prescalerValue : UInt8
  prescalerCompOnStart : Bool
  fallingEdge : Bool
  edgeStart : Bool
  tx : Bool
  deriving DecidableEq, Repr

def SetupRequest.operation (rq : SetupRequest) : Operation where
  prescalerValue := (rq.wIndex &&& 0xff).toUInt8
  prescalerCompOnStart := decide (rq.wIndex &&& PROTO_TRANSFER_FLAG_FIRST_ON_START ≠ 0)
  fallingEdge := decide (rq.wIndex &&& PROTO_TRANSFER_FLAG_FALLING_EDGE ≠ 0)
  edgeStart := decide (rq.wIndex &&& PROTO_TRANSFER_FLAG_START_ON_EDGE ≠ 0)
  tx := decide (rq.wIndex &&& PROTO_TRANSFER_FLAG_TX_MODE ≠ 0)

/-- Request a reception that starts at once. -/
def startRx : SetupRequest where
  bRequest := PROTO_CMD_TRANSFER_START
  wValue := 0
  wIndex := 32

/-- Request a transmission that starts at once. -/
def startTx : SetupRequest where
  bRequest := PROTO_CMD_TRANSFER_START
  wValue := 0
  wIndex := PROTO_TRANSFER_FLAG_TX_MODE ||| 32

structure Control where
  operation : Operation
  id : UInt8
  state : TransferState
  timedOut : Bool
  opLength : UInt16
  opOffset : UInt16
  ocie0a : Bool
  adie : Bool
  interrupts : Bool
  coilOutput : Bool

/-- The state that `STATE_STARTING` leads to. -/
def Operation.firstState (op : Operation) : TransferState :=
  if op.edgeStart then .waitCondition else if op.tx then .tx else .rx

/-- The number of steps of an operation. -/
def Operation.length (op : Operation) : UInt16 := if op.tx then 384 else 1536

/-- The operation starts to play without waiting for an edge. -/
def Operation.playsAtOnce (op : Operation) : Bool := op.tx && !op.edgeStart

/-- The command has a data phase. -/
def IsVectorCommand (command : UInt8) : Prop :=
  command = PROTO_CMD_PULSE_VECTOR_READ ∨ command = PROTO_CMD_PULSE_VECTOR_WRITE ∨
    command = PROTO_CMD_SAMPLE_VECTOR_READ ∨ command = PROTO_CMD_SAMPLE_VECTOR_WRITE

/-- The event is an accepted `TRANSFER_START`. -/
def Event.isStart : Event → Bool
  | .setup rq => rq.bRequest == PROTO_CMD_TRANSFER_START
  | _ => false

def Event.isAdc : Event → Bool
  | .adc _ => true
  | _ => false

namespace Firmware

def operation (f : Firmware) : Operation where
  prescalerValue := f.prescalerValue
  prescalerCompOnStart := f.prescalerCompOnStart
  fallingEdge := f.fallingEdge
  edgeStart := f.edgeStart
  tx := f.tx

def control (f : Firmware) : Control where
  operation := f.operation
  id := f.id
  state := f.state
  timedOut := f.timedOut
  opLength := f.opLength
  opOffset := f.opOffset
  ocie0a := f.ocie0a
  adie := f.adie
  interrupts := f.interrupts
  coilOutput := f.coilOutput

/-- The handler of `TIMER0_COMPA` ends the transmission: `opLength` is reached, or the
nibble is the terminator. -/
def stops (f : Firmware) : Prop :=
  f.opOffset = f.opLength ∨
    ∃ byte, f.readIoBuffer (f.opOffset >>> 1) = .ok byte ∧
      pulseIdx f.opOffset byte &&& 0x07 = 0x07

/-- What an event does to the control part. -/
inductive Effect (f : Firmware) : Event → Control → Prop
  | start {rq : SetupRequest} (hrq : rq.bRequest = PROTO_CMD_TRANSFER_START) :
    Effect f (.setup rq) { f.control with
      operation := rq.operation, id := f.id + 1, state := .starting, timedOut := false }
  | keep {e : Event} (hstart : e.isStart = false) (hadc : e.isAdc = false) (htimer : e ≠ .timer0)
    (hidle : e = .idle → f.state ≠ .starting ∧ f.state ≠ .finished) : Effect f e f.control
  | begin (hstate : f.state = .starting) :
    Effect f .idle { f.control with
      opOffset := 0, opLength := f.operation.length, state := f.operation.firstState,
      interrupts := true, adie := true, ocie0a := f.operation.playsAtOnce || f.ocie0a }
  | finish (hstate : f.state = .finished) :
    Effect f .idle { f.control with
      interrupts := false, ocie0a := false, adie := false, state := .idle }
  | edge {adch : UInt8} (hadie : f.adie) (hstate : f.state = .waitCondition) :
    Effect f (.adc adch) { f.control with
      state := if f.tx then .tx else .rx, adie := !f.tx && f.adie, ocie0a := f.tx }
  | wait {adch : UInt8} (hadie : f.adie) (hstate : f.state = .waitCondition) :
    Effect f (.adc adch) f.control
  | timeout {adch : UInt8} (hadie : f.adie) (hstate : f.state = .waitCondition) :
    Effect f (.adc adch) { f.control with
      state := .finished, timedOut := true, ocie0a := false }
  | sample {adch : UInt8} (hadie : f.adie) (hstate : f.state ≠ .waitCondition)
    (hindex : (f.opOffset / 8).toNat < 192) (hend : f.opOffset + 1 ≠ f.opLength) :
    Effect f (.adc adch) { f.control with opOffset := f.opOffset + 1 }
  | sampleLast {adch : UInt8} (hadie : f.adie) (hstate : f.state ≠ .waitCondition)
    (hindex : (f.opOffset / 8).toNat < 192) (hend : f.opOffset + 1 = f.opLength) :
    Effect f (.adc adch) { f.control with
      opOffset := f.opOffset + 1, state := .finished, ocie0a := false }
  | play (coil : Bool) (hocie0a : f.ocie0a) (hstops : ¬f.stops)
    (hindex : (f.opOffset >>> 1).toNat < 192) :
    Effect f .timer0 { f.control with opOffset := f.opOffset + 1, coilOutput := coil }
  | stop (hocie0a : f.ocie0a) (hstops : f.stops) :
    Effect f .timer0 { f.control with state := .finished, ocie0a := false, coilOutput := false }

/-! ## Every step has its effect -/

@[simp] theorem control_respond (f : Firmware) (bytes : List UInt8) :
    (f.respond bytes).control = f.control := rfl

/-- What a request can do: answer, switch the coil, ask for the bootloader, start a
transfer or enter the data phase. -/
theorem usbFunctionSetup_cases (f : Firmware) (rq : SetupRequest) :
    (∃ bytes, f.usbFunctionSetup rq = ({ f with userRw := false }).respond bytes) ∨
    (∃ on, f.usbFunctionSetup rq = { f with userRw := false, coilGenerator := on }) ∨
    (rq.bRequest = PROTO_CMD_RESET ∧ ∃ bytes, f.usbFunctionSetup rq =
      ({ f with userRw := false, command := rq.bRequest }).respond bytes) ∨
    (rq.bRequest = PROTO_CMD_TRANSFER_START ∧ ∃ bytes, f.usbFunctionSetup rq =
      (({ f with userRw := false }).transferStart rq).respond bytes) ∨
    (IsVectorCommand rq.bRequest ∧ f.usbFunctionSetup rq =
      { f with ioBufferOffset := 0, command := rq.bRequest, userRw := true }) := by
  unfold usbFunctionSetup
  extract_lets f'
  by_cases hcoil : rq.bRequest = PROTO_CMD_COIL_ENABLE
  · rw [if_pos hcoil]
    exact .inr (.inl ⟨_, rfl⟩)
  rw [if_neg hcoil]
  by_cases hversion : rq.bRequest = PROTO_CMD_GET_VERSION
  · rw [if_pos hversion]
    exact .inl ⟨_, rfl⟩
  rw [if_neg hversion]
  by_cases hsize : rq.bRequest = PROTO_CMD_GET_BUFFER_SIZE
  · rw [if_pos hsize]
    exact .inl ⟨_, rfl⟩
  rw [if_neg hsize]
  by_cases hreset : rq.bRequest = PROTO_CMD_RESET
  · rw [if_pos hreset]
    exact .inr (.inr (.inl ⟨hreset, _, rfl⟩))
  rw [if_neg hreset]
  by_cases hstart : rq.bRequest = PROTO_CMD_TRANSFER_START
  · rw [if_pos hstart]
    exact .inr (.inr (.inr (.inl ⟨hstart, _, rfl⟩)))
  rw [if_neg hstart]
  by_cases hstatus : rq.bRequest = PROTO_CMD_TRANSFER_STATUS
  · rw [if_pos hstatus]
    exact .inl ⟨_, rfl⟩
  rw [if_neg hstatus]
  split_ifs with hvector
  · exact .inr (.inr (.inr (.inr ⟨hvector, rfl⟩)))
  · exact .inl ⟨_, rfl⟩

theorem usbFunctionSetup_start (f : Firmware) {rq : SetupRequest}
    (hrq : rq.bRequest = PROTO_CMD_TRANSFER_START) :
    f.usbFunctionSetup rq =
      (({ f with userRw := false }).transferStart rq).respond [PROTO_RC_OK, f.id + 1] := by
  unfold usbFunctionSetup
  rw [hrq]
  rfl

/-- A command for a vector rewinds the offset and asks the driver for the data stage. -/
theorem usbFunctionSetup_vector (f : Firmware) {rq : SetupRequest}
    (hrq : IsVectorCommand rq.bRequest) :
    f.usbFunctionSetup rq =
      { f with ioBufferOffset := 0, command := rq.bRequest, userRw := true } := by
  unfold usbFunctionSetup
  rcases hrq with hrq | hrq | hrq | hrq
  all_goals
    rw [hrq]
    rfl

theorem control_usbFunctionSetup_start (f : Firmware) {rq : SetupRequest}
    (hrq : rq.bRequest = PROTO_CMD_TRANSFER_START) :
    (f.usbFunctionSetup rq).control =
      { f.control with
        operation := rq.operation, id := f.id + 1, state := .starting, timedOut := false } := by
  rw [usbFunctionSetup_start f hrq]
  rfl

theorem control_usbFunctionSetup (f : Firmware) {rq : SetupRequest}
    (hrq : rq.bRequest ≠ PROTO_CMD_TRANSFER_START) :
    (f.usbFunctionSetup rq).control = f.control := by
  rcases usbFunctionSetup_cases f rq with
    ⟨bytes, h⟩ | ⟨on, h⟩ | ⟨-, bytes, h⟩ | ⟨hstart, -⟩ | ⟨-, h⟩
  · rw [h, control_respond]
    rfl
  · rw [h]
    rfl
  · rw [h, control_respond]
    rfl
  · exact absurd hstart hrq
  · rw [h]
    rfl

theorem command_usbFunctionSetup (f : Firmware) {rq : SetupRequest}
    (hreset : rq.bRequest ≠ PROTO_CMD_RESET) (hvector : ¬IsVectorCommand rq.bRequest) :
    (f.usbFunctionSetup rq).command = f.command := by
  rcases usbFunctionSetup_cases f rq with
    ⟨bytes, h⟩ | ⟨on, h⟩ | ⟨hrq, -⟩ | ⟨-, bytes, h⟩ | ⟨hrq, -⟩
  · rw [h]
    rfl
  · rw [h]
  · exact absurd hrq hreset
  · rw [h]
    rfl
  · exact absurd hrq hvector

/-- A write changes the array of its command and the offset. -/
theorem usbFunctionWrite_eq_ok {f g : Firmware} {data : List UInt8}
    (h : f.usbFunctionWrite data = .ok g) :
    ∃ sampleVector ioBuffer ioBufferOffset,
      g = { f with sampleVector, ioBuffer, ioBufferOffset } ∧
        (f.command ≠ PROTO_CMD_PULSE_VECTOR_WRITE → ioBuffer = f.ioBuffer) := by
  unfold usbFunctionWrite at h
  split_ifs at h with hsample hpulse
  · obtain ⟨⟨sampleVector, offset⟩, -, hg⟩ := Except.bind_eq_ok_iff.mp h
    cases hg
    exact ⟨sampleVector, f.ioBuffer, offset, rfl, fun _ => rfl⟩
  · obtain ⟨⟨ioBuffer, offset⟩, -, hg⟩ := Except.bind_eq_ok_iff.mp h
    cases hg
    exact ⟨f.sampleVector, ioBuffer, offset, rfl, fun hne => absurd hpulse hne⟩
  · obtain ⟨⟨dst, offset⟩, -, hg⟩ := Except.bind_eq_ok_iff.mp h
    cases hg
    exact ⟨f.sampleVector, f.ioBuffer, offset, rfl, fun _ => rfl⟩

/-- A read changes the offset only. -/
theorem usbFunctionRead_eq_ok {f : Firmware} {len : ℕ} {r : Firmware × List UInt8}
    (h : f.usbFunctionRead len = .ok r) : ∃ ioBufferOffset, r.1 = { f with ioBufferOffset } := by
  unfold usbFunctionRead at h
  split_ifs at h
  · obtain ⟨⟨data, offset⟩, -, hr⟩ := Except.bind_eq_ok_iff.mp h
    cases hr
    exact ⟨offset, rfl⟩
  · obtain ⟨⟨data, offset⟩, -, hr⟩ := Except.bind_eq_ok_iff.mp h
    cases hr
    exact ⟨offset, rfl⟩
  · cases h
    exact ⟨f.ioBufferOffset, rfl⟩

theorem step_dataOut_eq_ok {f g : Firmware} {data : List UInt8}
    (h : f.step (.dataOut data) = .ok g) :
    g = f ∨ f.userRw ∧ f.usbFunctionWrite data = .ok g := by
  simp only [step] at h
  split_ifs at h with hrw
  · exact .inr ⟨hrw, h⟩
  · cases h
    exact .inl rfl

theorem step_dataIn_eq_ok {f g : Firmware} {len : ℕ} (h : f.step (.dataIn len) = .ok g) :
    ∃ ioBufferOffset, g = { f with ioBufferOffset } := by
  simp only [step] at h
  split_ifs at h
  · cases hread : f.usbFunctionRead len with
    | error => simp [hread, Except.map] at h
    | ok r =>
      simp only [hread, Except.map, Except.ok.injEq] at h
      subst h
      exact usbFunctionRead_eq_ok hread
  · cases h
    exact ⟨f.ioBufferOffset, rfl⟩

theorem control_startTransfer (f : Firmware) :
    f.startTransfer.control =
      { f.control with
        opOffset := 0, opLength := f.operation.length, state := f.operation.firstState,
        interrupts := true, adie := true, ocie0a := f.operation.playsAtOnce || f.ocie0a } := by
  unfold startTransfer Operation.length Operation.firstState Operation.playsAtOnce
  cases hedge : f.edgeStart <;> cases htx : f.tx <;>
    simp [control, operation, prescallerStart, adcStart, hedge, htx, SAMPLE_BUFFER_SIZE]

theorem control_finishTransfer (f : Firmware) :
    f.finishTransfer.control =
      { f.control with interrupts := false, ocie0a := false, adie := false, state := .idle } := rfl

/-- The unsigned copy of the last signal is never equal to -1. -/
theorem adcVect_eq (f : Firmware) (adch : UInt8) :
    f.adcVect adch =
      if f.state = .waitCondition then
        .ok (({ f with adcLastSignal := f.adcSignal adch }).adcWait f.adcLastSignal.toUInt8)
      else ({ f with adcLastSignal := f.adcSignal adch }).adcStore := by
  unfold adcVect
  dsimp only
  rw [if_neg (by omega)]

theorem readIoBuffer_eq_ok_iff {f : Firmware} {i : UInt16} {byte : UInt8} :
    f.readIoBuffer i = .ok byte ↔ ∃ h : i.toNat < 192, f.ioBuffer[i.toNat] = byte := by
  unfold readIoBuffer
  split_ifs with h
  · simp [h]
  · simp [h]

theorem writeIoBuffer_eq_ok {f g : Firmware} {i : UInt16} {value : UInt8}
    (h : f.writeIoBuffer i value = .ok g) :
    i.toNat < 192 ∧ ∃ ioBuffer, g = { f with ioBuffer } := by
  unfold writeIoBuffer at h
  split_ifs at h with hi
  cases h
  exact ⟨hi, _, rfl⟩

theorem readSampleVector_ok (f : Firmware) {i : UInt8} (h : i.toNat < 7) :
    f.readSampleVector i = .ok f.sampleVector[i.toNat] := dif_pos h

/-- A nibble that is not the terminator selects an entry of the pulse table. -/
theorem pulseIdx_lt {idx : UInt8} (h : idx &&& 0x07 ≠ 0x07) : (idx &&& 0x07).toNat < 7 := by
  have hle : (idx &&& 0x07).toNat ≤ 7 := by
    rw [UInt8.toNat_and]
    exact Nat.and_le_right
  have hne : (idx &&& 0x07).toNat ≠ 7 := fun heq => h (UInt8.toNat_inj.mp heq)
  omega

theorem effect_adcWait {f : Firmware} {adch : UInt8} (signal : Int8) (oldSignal : UInt8)
    (hadie : f.adie) (hstate : f.state = .waitCondition) :
    Effect f (.adc adch) (({ f with adcLastSignal := signal }).adcWait oldSignal).control := by
  unfold adcWait
  dsimp only
  split_ifs with hedge htx htimeout
  · have heffect : Effect f (.adc adch) _ := .edge hadie hstate
    rw [htx] at heffect
    exact heffect
  · have heffect : Effect f (.adc adch) _ := .edge hadie hstate
    rw [Bool.eq_false_iff.mpr htx] at heffect
    exact heffect
  · exact .wait hadie hstate
  · exact .timeout hadie hstate

theorem adcStore_eq_ok {f g : Firmware} (h : f.adcStore = .ok g) :
    (f.opOffset / 8).toNat < 192 ∧
      g.control =
        if f.opOffset + 1 = f.opLength then
          { f.control with opOffset := f.opOffset + 1, state := .finished, ocie0a := false }
        else { f.control with opOffset := f.opOffset + 1 } := by
  obtain ⟨byte, -, h⟩ := Except.bind_eq_ok_iff.mp h
  obtain ⟨f', hwrite, h⟩ := Except.bind_eq_ok_iff.mp h
  obtain ⟨hindex, ioBuffer, rfl⟩ := writeIoBuffer_eq_ok hwrite
  refine ⟨hindex, ?_⟩
  by_cases hend : f.opOffset + 1 = f.opLength
  · rw [if_pos hend] at h ⊢
    cases h
    rfl
  · rw [if_neg hend] at h ⊢
    cases h
    rfl

theorem effect_adcStore {f g : Firmware} {adch : UInt8} (signal : Int8) (hadie : f.adie)
    (hstate : f.state ≠ .waitCondition)
    (h : ({ f with adcLastSignal := signal }).adcStore = .ok g) :
    Effect f (.adc adch) g.control := by
  obtain ⟨hindex, hg⟩ := adcStore_eq_ok h
  rw [hg]
  split_ifs with hend
  · exact .sampleLast hadie hstate hindex hend
  · exact .sample hadie hstate hindex hend

theorem effect_timer0Compa {f g : Firmware} (hocie0a : f.ocie0a) (h : f.timer0Compa = .ok g) :
    Effect f .timer0 g.control := by
  unfold timer0Compa at h
  split_ifs at h with hend
  · cases h
    exact .stop hocie0a (.inl hend)
  · obtain ⟨byte, hread, h⟩ := Except.bind_eq_ok_iff.mp h
    dsimp only at h
    split_ifs at h with hidx
    · cases h
      exact .stop hocie0a (.inr ⟨byte, hread, hidx⟩)
    · obtain ⟨width, -, h⟩ := Except.bind_eq_ok_iff.mp h
      cases h
      refine .play _ hocie0a ?_ (readIoBuffer_eq_ok_iff.mp hread).1
      rintro (heq | ⟨byte', hread', hidx'⟩)
      · exact hend heq
      · rw [hread] at hread'
        cases hread'
        exact hidx hidx'

/-- A round of the main loop starts the transfer, finishes it or leaves everything as it is. -/
theorem idleRound_eq_ok {f g : Firmware} (h : f.idleRound = .ok g) :
    f.state = .starting ∧ g = f.startTransfer ∨ f.state = .finished ∧ g = f.finishTransfer ∨
      f.state ≠ .starting ∧ f.state ≠ .finished ∧ g = f := by
  unfold idleRound at h
  split_ifs at h
  cases hstate : f.state with
  | starting =>
    rw [hstate] at h
    cases h
    exact .inl ⟨rfl, rfl⟩
  | finished =>
    rw [hstate] at h
    cases h
    exact .inr (.inl ⟨rfl, rfl⟩)
  | _ =>
    rw [hstate] at h
    cases h
    exact .inr (.inr ⟨nofun, nofun, rfl⟩)

/-- The round that starts a transfer. -/
theorem idleRound_starting {f g : Firmware} (hstate : f.state = .starting)
    (h : f.idleRound = .ok g) : g = f.startTransfer := by
  rcases idleRound_eq_ok h with ⟨-, hg⟩ | ⟨hfinished, -⟩ | ⟨hne, -⟩
  · exact hg
  · rw [hstate] at hfinished
    cases hfinished
  · exact absurd hstate hne

theorem effect_idleRound {f g : Firmware} (h : f.idleRound = .ok g) :
    Effect f .idle g.control := by
  rcases idleRound_eq_ok h with ⟨hstate, rfl⟩ | ⟨hstate, rfl⟩ | ⟨hstarting, hfinished, rfl⟩
  · rw [control_startTransfer]
    exact .begin hstate
  · rw [control_finishTransfer]
    exact .finish hstate
  · exact .keep rfl rfl nofun fun _ => ⟨hstarting, hfinished⟩

/-- A conversion that the handler takes waits or stores a bit. -/
theorem step_adc_eq_ok {f g : Firmware} {adch : UInt8} (h : f.step (.adc adch) = .ok g) :
    f.adie ∧ (f.state = .waitCondition ∧
        g = ({ f with adcLastSignal := f.adcSignal adch }).adcWait f.adcLastSignal.toUInt8 ∨
      f.state ≠ .waitCondition ∧
        ({ f with adcLastSignal := f.adcSignal adch }).adcStore = .ok g) := by
  simp only [step, Bool.and_eq_true] at h
  split_ifs at h with henabled
  rw [adcVect_eq] at h
  split_ifs at h with hstate
  · exact ⟨henabled.1, .inl ⟨hstate, (Except.ok.inj h).symm⟩⟩
  · exact ⟨henabled.1, .inr ⟨hstate, h⟩⟩

theorem step_timer0_eq_ok {f g : Firmware} (h : f.step .timer0 = .ok g) :
    f.ocie0a ∧ f.timer0Compa = .ok g := by
  simp only [step, Bool.and_eq_true] at h
  split_ifs at h with henabled
  exact ⟨henabled.1, h⟩

/-- Every step has one of the listed effects. -/
theorem effect {f g : Firmware} {e : Event} (h : f.step e = .ok g) : Effect f e g.control := by
  cases e with
  | setup rq =>
    cases h
    by_cases hrq : rq.bRequest = PROTO_CMD_TRANSFER_START
    · rw [control_usbFunctionSetup_start f hrq]
      exact .start hrq
    · rw [control_usbFunctionSetup f hrq]
      exact .keep (by simpa [Event.isStart] using hrq) rfl nofun nofun
  | standard =>
    cases h
    exact .keep rfl rfl nofun nofun
  | dataOut data =>
    have hcontrol : g.control = f.control := by
      rcases step_dataOut_eq_ok h with rfl | ⟨-, hwrite⟩
      · rfl
      · obtain ⟨sampleVector, ioBuffer, offset, rfl, -⟩ := usbFunctionWrite_eq_ok hwrite
        rfl
    rw [hcontrol]
    exact .keep rfl rfl nofun nofun
  | dataIn len =>
    obtain ⟨offset, rfl⟩ := step_dataIn_eq_ok h
    exact .keep rfl rfl nofun nofun
  | idle => exact effect_idleRound h
  | adc adch =>
    obtain ⟨hadie, ⟨hstate, rfl⟩ | ⟨hstate, hstore⟩⟩ := step_adc_eq_ok h
    · exact effect_adcWait _ _ hadie hstate
    · exact effect_adcStore _ hadie hstate hstore
  | timer0 =>
    obtain ⟨hocie0a, hplay⟩ := step_timer0_eq_ok h
    exact effect_timer0Compa hocie0a hplay

/-! ## Steps that happen -/

/-- The byte of a bit is within `ioBuffer`. -/
theorem bitIndex_lt_iff (offset : UInt16) : (offset / 8).toNat < 192 ↔ offset.toNat < 1536 := by
  rw [UInt16.toNat_div]
  simp only [UInt16.reduceToNat]
  omega

theorem step_adc_ok {f : Firmware} (adch : UInt8) (hadie : f.adie) (hinterrupts : f.interrupts)
    (hindex : f.state ≠ .waitCondition → (f.opOffset / 8).toNat < 192) :
    ∃ g, f.step (.adc adch) = .ok g := by
  simp only [step, hadie, hinterrupts, Bool.and_self, if_true]
  rw [adcVect_eq]
  split_ifs with hstate
  · exact ⟨_, rfl⟩
  · have hi := hindex hstate
    unfold adcStore
    simp only [readIoBuffer, writeIoBuffer, hi, dite_true, bind, Except.bind]
    split_ifs
    all_goals exact ⟨_, rfl⟩

/-- A conversion outside of `STATE_WAIT_CONDITION` stores a bit. -/
theorem control_step_adc {f g : Firmware} {adch : UInt8} (h : f.step (.adc adch) = .ok g)
    (hstate : f.state ≠ .waitCondition) :
    g.control =
      if f.opOffset + 1 = f.opLength then
        { f.control with opOffset := f.opOffset + 1, state := .finished, ocie0a := false }
      else { f.control with opOffset := f.opOffset + 1 } := by
  obtain ⟨-, ⟨hwait, -⟩ | ⟨-, hstore⟩⟩ := step_adc_eq_ok h
  · exact absurd hwait hstate
  · exact (adcStore_eq_ok hstore).2

theorem step_timer0_ok {f : Firmware} (hocie0a : f.ocie0a) (hinterrupts : f.interrupts)
    (hindex : f.opOffset ≠ f.opLength → (f.opOffset >>> 1).toNat < 192) :
    ∃ g, f.step .timer0 = .ok g := by
  simp only [step, hocie0a, hinterrupts, Bool.and_self, if_true]
  unfold timer0Compa
  split_ifs with hend
  · exact ⟨_, rfl⟩
  · simp only [readIoBuffer, hindex hend, dite_true, bind, Except.bind]
    split_ifs with hidx
    · exact ⟨_, rfl⟩
    · rw [readSampleVector_ok _ (pulseIdx_lt hidx)]
      exact ⟨_, rfl⟩

/-- A transfer starts from the initial state. -/
theorem run_start {rq : SetupRequest} (hrq : rq.bRequest = PROTO_CMD_TRANSFER_START) :
    Run step init [(init, .setup rq), (init.usbFunctionSetup rq, .idle)]
      (init.usbFunctionSetup rq).startTransfer := by
  refine .cons rfl (.cons ?_ (.nil _))
  rw [usbFunctionSetup_start init hrq]
  rfl

end Firmware

end RfidTool

import RfidTool.Common.Protocol
import RfidTool.Library.Run

/-!
# The firmware

`main.c` as a step function. The state holds the static variables and those bits of
the registers that the transfer code touches. An event is a request, a packet of its
data stage, a round of the main loop in which `fastctr` has reached zero, or a run of
one of the two interrupt handlers; a handler runs only while its enable bit and the
global interrupt flag are set. Every access to the two data arrays is checked: an
index behind the end is a `Halt.fault`.

Of the driver's own work (standard requests, tokens, reset of the bus) only the flag by
which it passes the data stage on is in this state, and every request clears it. The
calibration of the oscillator has a module of its own.
-/

namespace RfidTool

/-- `State` of `main.c` -/
inductive TransferState where
  | idle
  | starting
  | waitCondition
  | rx
  | tx
  | finished
  deriving DecidableEq, Repr

/-- The static variables and the register bits. -/
structure Firmware where
  command : UInt8
  response : Vector UInt8 7
  sampleVector : Vector UInt8 7
  ioBuffer : Vector UInt8 192
  ioBufferOffset : UInt8
  opLength : UInt16
  opOffset : UInt16
  state : TransferState
  timeout : UInt16
  timedOut : Bool
  fallingEdge : Bool
  prescalerCompOnStart : Bool
  edgeStart : Bool
  tx : Bool
  prescalerValue : UInt8
  id : UInt8
  adcLastSignal : Int8
  /-- `TIMER_PRESCALER_T0` bits of `TCCR0B` -/
  timerRunning : Bool
  ocr0a : UInt8
  tcnt0 : UInt8
  ocie0a : Bool
  adate : Bool
  adie : Bool
  adsc : Bool
  /-- The coil pin is an output. -/
  coilOutput : Bool
  /-- `COM1A0` of `TCCR1` -/
  coilGenerator : Bool
  /-- The global interrupt flag. -/
  interrupts : Bool
  /-- `USB_FLG_USE_USER_RW` of `usbMsgFlags` -/
  userRw : Bool
  deriving DecidableEq, Repr

inductive Event where
  | setup (rq : SetupRequest)
  /-- A standard request, which the driver answers itself. -/
  | standard
  | dataOut (data : List UInt8)
  | dataIn (len : ℕ)
  | idle
  | adc (adch : UInt8)
  | timer0
  deriving DecidableEq, Repr

/-- Why a step does not happen, or does not come back. -/
inductive Halt where
  | disabled
  | fault
  | bootloader
  deriving DecidableEq, Repr

namespace Firmware

def PULSE_VECTOR_SIZE : ℕ := 7
def SAMPLE_BUFFER_SIZE : ℕ := 192
def PRESCALER_MINIMAL_VALUE : UInt8 := 4
def FIRMWARE_VERSION_MAJOR : UInt8 := 0
def FIRMWARE_VERSION_MINOR : UInt8 := 1

def ADC_HI : UInt8 := UInt8.ofNat ((4750 - 100) * 255 / 4750)
def ADC_LO : UInt8 := UInt8.ofNat ((4750 - 350) * 255 / 4750)

/-- The state in which `main` enters its loop. -/
def init : Firmware where
  command := PROTO_CMD_NOP
  response := .replicate 7 0
  sampleVector := .replicate 7 0
  ioBuffer := .replicate 192 0
  ioBufferOffset := 0
  opLength := 0
  opOffset := 0
  state := .idle
  timeout := 0
  timedOut := false
  fallingEdge := false
  prescalerCompOnStart := false
  edgeStart := false
  tx := false
  prescalerValue := PRESCALER_MINIMAL_VALUE
  id := 0
  adcLastSignal := 0
  timerRunning := false
  ocr0a := 0
  tcnt0 := 0
  ocie0a := false
  adate := false
  adie := false
  adsc := false
  coilOutput := false
  coilGenerator := true
  interrupts := false
  userRw := false

/-! ## Checked memory -/

def readIoBuffer (f : Firmware) (i : UInt16) : Except Halt UInt8 :=
  if h : i.toNat < 192 then .ok f.ioBuffer[i.toNat] else .error .fault

def writeIoBuffer (f : Firmware) (i : UInt16) (value : UInt8) : Except Halt Firmware :=
  if h : i.toNat < 192 then .ok { f with ioBuffer := f.ioBuffer.set i.toNat value }
  else .error .fault

def readSampleVector (f : Firmware) (i : UInt8) : Except Halt UInt8 :=
  if h : i.toNat < 7 then .ok f.sampleVector[i.toNat] else .error .fault

/-! ## Timer and converter -/

def adcStart (f : Firmware) : Firmware := { f with adate := true, adie := true, adsc := true }

def adcStop (f : Firmware) : Firmware := { f with adate := false, adie := false, adsc := false }

def prescallerStart (f : Firmware) (interrupt : Bool) (prescalerValue : UInt8)
    (compareMatchOnStart : Bool) : Firmware :=
  { f with
    ocr0a := prescalerValue - 1
    tcnt0 :=
      if compareMatchOnStart then if prescalerValue > 2 then prescalerValue - 2 else 0 else 0
    ocie0a := if interrupt then true else f.ocie0a
    timerRunning := true }

def prescallerStop (f : Firmware) : Firmware := { f with timerRunning := false, ocie0a := false }

def stopTx (f : Firmware) : Firmware :=
  { f.prescallerStop with coilOutput := false, state := .finished }

/-! ## Interrupt handlers -/

/-- The nibble that the handler of `TIMER0_COMPA` finds in a byte. -/
def pulseIdx (opOffset : UInt16) (byte : UInt8) : UInt8 :=
  if opOffset &&& 1 ≠ 0 then byte >>> 4 else byte &&& 0x0f

/-- `ISR(TIMER0_COMPA_vect)` -/
def timer0Compa (f : Firmware) : Except Halt Firmware :=
  if f.opOffset = f.opLength then .ok f.stopTx
  else do
    let byte ← f.readIoBuffer (f.opOffset >>> 1)
    let idx := pulseIdx f.opOffset byte
    if idx &&& 0x07 = 0x07 then return f.stopTx
    else
      let width ← f.readSampleVector (idx &&& 0x07)
      return { f with
        ocr0a := width - 1
        coilOutput := decide (idx &&& 0x08 = 0)
        opOffset := f.opOffset + 1 }

/-- The new value of `adcLastSignal`. -/
def adcSignal (f : Firmware) (adch : UInt8) : Int8 :=
  if adch ≥ ADC_HI then 0 else if adch ≤ ADC_LO then 1 else f.adcLastSignal

/-- The edge that `STATE_WAIT_CONDITION` waits for. -/
def isEdge (f : Firmware) (oldSignal : UInt8) : Bool :=
  if f.fallingEdge then oldSignal ≠ 0 && f.adcLastSignal == 0
  else oldSignal == 0 && f.adcLastSignal ≠ 0

/-- The branch of `STATE_WAIT_CONDITION`. -/
def adcWait (f : Firmware) (oldSignal : UInt8) : Firmware :=
  if f.isEdge oldSignal then
    if f.tx then
      ({ f with state := .tx }.prescallerStop.adcStop).prescallerStart true f.prescalerValue
        f.prescalerCompOnStart
    else
      { f with state := .rx }.prescallerStop.prescallerStart false f.prescalerValue
        f.prescalerCompOnStart
  else if f.timeout ≠ 0 then { f with timeout := f.timeout - 1 }
  else { f with state := .finished, timedOut := true }.prescallerStop

/-- The branch that stores a bit. -/
def adcStore (f : Firmware) : Except Halt Firmware := do
  let i := f.opOffset / 8
  let mask : UInt8 := 1 <<< (f.opOffset % 8).toUInt8
  let byte ← f.readIoBuffer i
  let f ← f.writeIoBuffer i (if f.adcLastSignal ≠ 0 then byte ||| mask else byte &&& ~~~mask)
  let f := { f with opOffset := f.opOffset + 1 }
  if f.opOffset = f.opLength then return { f.prescallerStop with state := .finished } else return f

/-- `ISR(ADC_vect)`. `oldSignal` is unsigned, so it never equals -1 and the check for
an unknown last sample never succeeds. -/
def adcVect (f : Firmware) (adch : UInt8) : Except Halt Firmware :=
  let oldSignal := f.adcLastSignal.toUInt8
  let f := { f with adcLastSignal := f.adcSignal adch }
  if (oldSignal.toNat : Int) = -1 then .ok f
  else if f.state = .waitCondition then .ok (f.adcWait oldSignal)
  else f.adcStore

/-! ## Requests -/

/-- `response[ret++] = ...` for a list of bytes, from the start of the buffer on. -/
def respond (f : Firmware) (bytes : List UInt8) : Firmware :=
  { f with response := bytes.zipIdx.foldl (fun r (b, i) => r.setIfInBounds i b) f.response }

def transferStart (f : Firmware) (rq : SetupRequest) : Firmware :=
  { f with
    prescalerValue := (rq.wIndex &&& 0xff).toUInt8
    prescalerCompOnStart := decide (rq.wIndex &&& PROTO_TRANSFER_FLAG_FIRST_ON_START ≠ 0)
    fallingEdge := decide (rq.wIndex &&& PROTO_TRANSFER_FLAG_FALLING_EDGE ≠ 0)
    tx := decide (rq.wIndex &&& PROTO_TRANSFER_FLAG_TX_MODE ≠ 0)
    edgeStart := decide (rq.wIndex &&& PROTO_TRANSFER_FLAG_START_ON_EDGE ≠ 0)
    state := .starting
    timeout := rq.wValue
    timedOut := false
    id := f.id + 1 }

/-- The answer to `TRANSFER_STATUS`. -/
def transferStatus (f : Firmware) (rq : SetupRequest) : List UInt8 :=
  if rq.wIndex ≠ f.id.toUInt16 then
    [PROTO_RC_INVALID_VAL, PROTO_TRANSFER_STATUS_UNKNOWN, 0, 0]
  else
    [PROTO_RC_OK,
      if f.state = .idle then
        if f.timedOut then PROTO_TRANSFER_STATUS_TIMEOUT else PROTO_TRANSFER_STATUS_OK
      else PROTO_TRANSFER_STATUS_IN_PROGRESS,
      (f.opOffset >>> 8).toUInt8, (f.opOffset &&& 0xff).toUInt8]

/-- `usbFunctionSetup`. The driver clears its flags before the call and sets
`USB_FLG_USE_USER_RW` when the result is `USB_NO_MSG`, which is the last case but one. -/
def usbFunctionSetup (f : Firmware) (rq : SetupRequest) : Firmware :=
  let f := { f with userRw := false }
  if rq.bRequest = PROTO_CMD_COIL_ENABLE then { f with coilGenerator := decide (rq.wValue ≠ 0) }
  else if rq.bRequest = PROTO_CMD_GET_VERSION then
    f.respond [PROTO_RC_OK, FIRMWARE_VERSION_MAJOR, FIRMWARE_VERSION_MINOR]
  else if rq.bRequest = PROTO_CMD_GET_BUFFER_SIZE then
    f.respond [PROTO_RC_OK, 4, 1, UInt8.ofNat (SAMPLE_BUFFER_SIZE >>> 8),
      UInt8.ofNat (SAMPLE_BUFFER_SIZE &&& 0xff), UInt8.ofNat (PULSE_VECTOR_SIZE >>> 8),
      UInt8.ofNat (PULSE_VECTOR_SIZE &&& 0xff)]
  else if rq.bRequest = PROTO_CMD_RESET then
    { f with command := rq.bRequest }.respond [PROTO_RC_OK]
  else if rq.bRequest = PROTO_CMD_TRANSFER_START then
    (f.transferStart rq).respond [PROTO_RC_OK, f.id + 1]
  else if rq.bRequest = PROTO_CMD_TRANSFER_STATUS then f.respond (f.transferStatus rq)
  else if rq.bRequest = PROTO_CMD_PULSE_VECTOR_READ ∨ rq.bRequest = PROTO_CMD_PULSE_VECTOR_WRITE ∨
      rq.bRequest = PROTO_CMD_SAMPLE_VECTOR_READ ∨ rq.bRequest = PROTO_CMD_SAMPLE_VECTOR_WRITE then
    { f with ioBufferOffset := 0, command := rq.bRequest, userRw := true }
  else f.respond [PROTO_RC_INVALID_CMD]

/-- The loop of `usbFunctionWrite` over the destination of `n` bytes. -/
def writeLoop {n : ℕ} (dst : Vector UInt8 n) (offset : UInt8) :
    List UInt8 → Except Halt (Vector UInt8 n × UInt8)
  | [] => .ok (dst, offset)
  | b :: data =>
    if offset.toNat = n then .ok (dst, offset)
    else if h : offset.toNat < n then writeLoop (dst.set offset.toNat b) (offset + 1) data
    else .error .fault

/-- `usbFunctionWrite`. Without a write command the destination is the null pointer, of
size zero. -/
def usbFunctionWrite (f : Firmware) (data : List UInt8) : Except Halt Firmware :=
  if f.command = PROTO_CMD_SAMPLE_VECTOR_WRITE then do
    let (sampleVector, ioBufferOffset) ← writeLoop f.sampleVector f.ioBufferOffset data
    return { f with sampleVector, ioBufferOffset }
  else if f.command = PROTO_CMD_PULSE_VECTOR_WRITE then do
    let (ioBuffer, ioBufferOffset) ← writeLoop f.ioBuffer f.ioBufferOffset data
    return { f with ioBuffer, ioBufferOffset }
  else do
    let (_, ioBufferOffset) ← writeLoop #v[] f.ioBufferOffset data
    return { f with ioBufferOffset }

/-- The loop of `usbFunctionRead`; the bytes read are the ones from `offset` on. -/
def readLoop {n : ℕ} (src : Vector UInt8 n) (offset : UInt8) : ℕ → Except Halt (List UInt8 × UInt8)
  | 0 => .ok ([], offset)
  | len + 1 =>
    if offset.toNat = n then .ok ([], offset)
    else if h : offset.toNat < n then do
      let (data, last) ← readLoop src (offset + 1) len
      return (src[offset.toNat] :: data, last)
    else .error .fault

/-- `usbFunctionRead`, with the bytes it returns. -/
def usbFunctionRead (f : Firmware) (len : ℕ) : Except Halt (Firmware × List UInt8) :=
  if f.command = PROTO_CMD_SAMPLE_VECTOR_READ then do
    let (data, ioBufferOffset) ← readLoop f.sampleVector f.ioBufferOffset len
    return ({ f with ioBufferOffset }, data)
  else if f.command = PROTO_CMD_PULSE_VECTOR_READ then do
    let (data, ioBufferOffset) ← readLoop f.ioBuffer f.ioBufferOffset len
    return ({ f with ioBufferOffset }, data)
  else .ok (f, [])

/-! ## The main loop -/

/-- `STATE_STARTING` -/
def startTransfer (f : Firmware) : Firmware :=
  let size := UInt16.ofNat SAMPLE_BUFFER_SIZE
  let opLength := if f.tx then size * 2 else size * 8
  let state := if f.edgeStart then TransferState.waitCondition else if f.tx then .tx else .rx
  let f :=
    { f with opOffset := 0, opLength, adcLastSignal := -1, state, interrupts := true }.adcStart
  if f.state = .waitCondition then f.prescallerStart false PRESCALER_MINIMAL_VALUE false
  else f.prescallerStart f.tx f.prescalerValue true

/-- `STATE_FINISHED` -/
def finishTransfer (f : Firmware) : Firmware :=
  { ({ f with interrupts := false }.prescallerStop.adcStop) with state := .idle }

/-- A round of the main loop in which `fastctr` has reached zero. -/
def idleRound (f : Firmware) : Except Halt Firmware :=
  if f.command = PROTO_CMD_RESET then .error .bootloader
  else
    match f.state with
    | .starting => .ok f.startTransfer
    | .finished => .ok f.finishTransfer
    | _ => .ok f

def step (f : Firmware) : Event → Except Halt Firmware
  | .setup rq => .ok (f.usbFunctionSetup rq)
  | .standard => .ok { f with userRw := false }
  | .dataOut data => if f.userRw then f.usbFunctionWrite data else .ok f
  | .dataIn len => if f.userRw then (f.usbFunctionRead len).map (·.1) else .ok f
  | .idle => f.idleRound
  | .adc adch => if f.adie && f.interrupts then f.adcVect adch else .error .disabled
  | .timer0 => if f.ocie0a && f.interrupts then f.timer0Compa else .error .disabled

end Firmware

end RfidTool

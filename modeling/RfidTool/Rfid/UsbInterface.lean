import RfidTool.Firmware.UsbDriver
import RfidTool.Library.Interaction
import RfidTool.Rfid.InterfaceUsbImpl

/-!
# The methods of `rfid::device::InterfaceUsbImpl`

The methods with their control transfers, as programs over the USB library: `usb_control_msg`
and `usleep` are calls, and an exception ends the program. The search of the constructor is
`DeviceScan`, so `connect` starts with what it finds. A division by zero and a write behind the
buffer of nibbles are errors of the model, undefined in the source. The log is left out.
-/

namespace RfidTool

def USB_TYPE_VENDOR : UInt8 := 0x40
def USB_RECIP_DEVICE : UInt8 := 0x00
def USB_ENDPOINT_IN : UInt8 := 0x80
def USB_ENDPOINT_OUT : UInt8 := 0x00

/-- The exceptions of `rfid::device::Interface` that are thrown. -/
inductive InterfaceError where
  | notConnected
  | notSupportedInterface
  | invalidResponse (code : ℤ)
  | invalidState
  | tooManyPulses
  | overflow
  | divisionByZero
  deriving DecidableEq, Repr

/-- The text of an exception. -/
def InterfaceError.message : InterfaceError → String
  | notConnected => "Interface was not detected!"
  | notSupportedInterface => "Not supported interface!"
  | invalidResponse _ => "Invalid response!"
  | invalidState => "Invalid state!"
  | tooManyPulses => "Too many pulses requested!"
  | overflow | divisionByZero => ""

inductive UsbCall where
  /-- The request with its length, and the bytes to write. -/
  | usbControlMsg (rq : UsbRequest) (bytes : List UInt8)
  | usleep (usec : ℕ)
  deriving DecidableEq, Repr

structure UsbAnswer where
  returned : ℤ
  /-- The bytes that are read. -/
  bytes : List UInt8
  deriving DecidableEq, Repr

abbrev UsbProgram (ρ : Type) : Type := Interaction UsbCall UsbAnswer InterfaceError ρ

/-- `UsbFirmwareVersion` -/
structure UsbFirmwareVersion where
  major : UInt8
  minor : UInt8
  deriving DecidableEq, Repr

def UsbFirmwareVersion.isSupported (version : UsbFirmwareVersion) : Bool :=
  version.major == 0 && version.minor == 1

/-- The fields of `InterfaceUsbImpl`. -/
structure UsbInterface where
  /-- `handle != nullptr` -/
  handle : Bool
  version : Option UsbFirmwareVersion
  pulsesMax : UInt16
  pulseVectorSize : UInt16
  pulseBits : UInt16
  samplesMax : UInt16
  sampleVectorSize : UInt16
  sampleBits : UInt16
  deriving DecidableEq, Repr

namespace UsbInterface

open Interaction InterfaceUsbImpl

def checkConnection (device : UsbInterface) : Except InterfaceError Unit :=
  if !device.handle then .error .notConnected
  else
    match device.version with
    | some version => if !version.isSupported then .error .notSupportedInterface else .ok ()
    | none => .ok ()

def checkResponse (buffer : List UInt8) (bufferSize : ℕ) (returned : ℤ) (checkRc : Bool) :
    Except InterfaceError Unit :=
  if (bufferSize : ℤ) ≠ returned then .error (.invalidResponse returned)
  else if bufferSize > 0 ∧ checkRc ∧ buffer.getD 0 0 ≠ PROTO_RC_OK then
    .error (.invalidResponse (buffer.getD 0 0).toNat)
  else .ok ()

/-- A request of `doTransferRx`. -/
def rxRequest (command : UInt8) (value index transferSize : UInt16) : UsbRequest where
  bmRequestType := USB_TYPE_VENDOR ||| USB_RECIP_DEVICE ||| USB_ENDPOINT_IN
  bRequest := command
  wValue := value
  wIndex := index
  wLength := transferSize

/-- A request of `doTransferTx`. -/
def txRequest (command : UInt8) (value index bufferSize : UInt16) : UsbRequest where
  bmRequestType := USB_TYPE_VENDOR ||| USB_RECIP_DEVICE ||| USB_ENDPOINT_OUT
  bRequest := command
  wValue := value
  wIndex := index
  wLength := bufferSize

/-- `doTransferRx`, with the bytes that it copies to its buffer. -/
def doTransferRx (device : UsbInterface) (bufferSize index value : UInt16) (command : UInt8)
    (checkRc : Bool) : UsbProgram (List UInt8) := do
  .ret device.checkConnection
  let transferSize := if checkRc then bufferSize + 1 else bufferSize
  let answer ← ask (.usbControlMsg (rxRequest command value index transferSize) [])
  .ret (checkResponse answer.bytes transferSize.toNat answer.returned checkRc)
  let src := if checkRc then answer.bytes.drop 1 else answer.bytes
  return src.take bufferSize.toNat

def doTransferTx (device : UsbInterface) (buffer : List UInt8) (bufferSize index value : UInt16)
    (command : UInt8) : UsbProgram Unit := do
  .ret device.checkConnection
  let answer ← ask (.usbControlMsg (txRequest command value index bufferSize) buffer)
  .ret (checkResponse [] bufferSize.toNat answer.returned false)

/-- `(hi << 8) | lo` -/
def bigEndian (hi lo : UInt8) : UInt16 := (hi.toUInt16 <<< 8) ||| lo.toUInt16

/-- The number of values of `bits` bits in a vector. -/
def countOf (vectorSize bits : UInt16) : Except InterfaceError UInt16 :=
  if bits = 0 then .error .divisionByZero
  else .ok (UInt16.ofNat (vectorSize.toNat * 8 / bits.toNat))

/-- The fields before the device is asked. -/
def unknown (handle : Bool) : UsbInterface where
  handle
  version := none
  pulsesMax := 0
  pulseVectorSize := 0
  pulseBits := 0
  samplesMax := 0
  sampleVectorSize := 0
  sampleBits := 0

/-- The constructor behind its search for the handle. -/
def connect (handle : Bool) : UsbProgram UsbInterface :=
  let device := unknown handle
  if handle then do
    let response ← device.doTransferRx 2 0 0 PROTO_CMD_GET_VERSION true
    let device := { device with version := some ⟨response.getD 0 0, response.getD 1 0⟩ }
    let response ← device.doTransferRx 6 0 0 PROTO_CMD_GET_BUFFER_SIZE true
    let pulseBits := (response.getD 0 0).toUInt16
    let sampleBits := (response.getD 1 0).toUInt16
    let pulseVectorSize := bigEndian (response.getD 4 0) (response.getD 5 0)
    let sampleVectorSize := bigEndian (response.getD 2 0) (response.getD 3 0)
    let pulsesMax ← .ret (countOf pulseVectorSize pulseBits)
    let samplesMax ← .ret (countOf sampleVectorSize sampleBits)
    return { device with
      pulseBits, sampleBits, pulseVectorSize, sampleVectorSize, pulsesMax, samplesMax }
  else return device

def reset (device : UsbInterface) : UsbProgram Unit :=
  device.doTransferTx [] 0 0 0 PROTO_CMD_RESET

def getVersion (device : UsbInterface) : UsbProgram (Option UsbFirmwareVersion) := do
  .ret device.checkConnection
  return device.version

/-- Start a transfer, wait and ask for its status. -/
def transfer (device : UsbInterface) (request : SetupRequest) : UsbProgram Unit := do
  let response ← device.doTransferRx 1 request.wIndex request.wValue PROTO_CMD_TRANSFER_START true
  let transferId := response.getD 0 0
  let _ ← ask (.usleep (500 * 1000))
  let response ← device.doTransferRx 3 transferId.toUInt16 0 PROTO_CMD_TRANSFER_STATUS true
  if response.getD 0 0 ≠ PROTO_TRANSFER_STATUS_OK then .ret (.error .invalidState)
  else return ()

def getSamples (device : UsbInterface) : UsbProgram (List Sample) := do
  device.transfer receiveRequest
  let samplesBuffer ←
    device.doTransferRx device.sampleVectorSize 0 0 PROTO_CMD_PULSE_VECTOR_READ false
  return ((InterfaceUsbImpl.sampleBits samplesBuffer).foldl SamplesLoop.round .start).ret

/-- The buffer of nibbles, or a write behind it. -/
def nibbles (n : ℕ) (pulses : List ℤ) (samples : List Sample) :
    Except InterfaceError (Vector UInt8 n) :=
  match sampleBuffer n pulses samples with
  | .ok (buffer, _) => .ok buffer
  | .error _ => .error .overflow

def putSamples (device : UsbInterface) (samples : List Sample) : UsbProgram Unit :=
  let pulses := InterfaceUsbImpl.pulses samples
  if pulses.length > device.pulseVectorSize.toNat then .ret (.error .tooManyPulses)
  else do
    device.doTransferTx (pulseTable device.pulseVectorSize.toNat pulses).toList
      device.pulseVectorSize 0 0 PROTO_CMD_SAMPLE_VECTOR_WRITE
    let buffer ← .ret (nibbles device.sampleVectorSize.toNat pulses samples)
    device.doTransferTx buffer.toList device.sampleVectorSize 0 0 PROTO_CMD_PULSE_VECTOR_WRITE
    device.transfer startRequest

end UsbInterface

end RfidTool

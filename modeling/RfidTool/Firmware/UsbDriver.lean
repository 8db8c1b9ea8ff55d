import RfidTool.Firmware.Main
import RfidTool.Firmware.UsbCrc16
import RfidTool.Library.Buffer

/-!
# The USB driver

`usbdrv.c`, the receiver and transmitter of `asmcommon.inc`, and the copy of `usbPoll` in the
main loop, packet by packet. A packet is the list of the bytes behind the sync pattern, the
PID first; what the device sends back is its answer to that packet. The receiver stores every
packet into the one buffer, so a packet that comes before the main loop has processed a data
packet overwrites it. `usbTxLen` is a length or a handshake token, told apart by bit 4.

The flag `USB_FLG_USE_USER_RW` is `Firmware.userRw`. Every access through `usbMsgPtr` is
checked: an offset behind the end of the object, and a read from the wrong kind of memory, is
a fault. The bits of the bus are left out, as are the timeouts of the receiver.
-/

namespace RfidTool

def USBPID_SETUP : UInt8 := 0x2d
def USBPID_OUT : UInt8 := 0xe1
def USBPID_IN : UInt8 := 0x69
def USBPID_DATA0 : UInt8 := 0xc3
def USBPID_DATA1 : UInt8 := 0x4b
def USBPID_ACK : UInt8 := 0xd2
def USBPID_NAK : UInt8 := 0x5a
def USBPID_STALL : UInt8 := 0x1e

def USB_BUFSIZE : ℕ := 11

/-- `(usbMsgLen_t)-1`: no message. -/
def USB_NO_MSG : UInt8 := 0xff

def USBRQ_TYPE_MASK : UInt8 := 0x60
def USBRQ_DIR_MASK : UInt8 := 0x80

def USBRQ_GET_STATUS : UInt8 := 0
def USBRQ_SET_ADDRESS : UInt8 := 5
def USBRQ_GET_DESCRIPTOR : UInt8 := 6
def USBRQ_GET_CONFIGURATION : UInt8 := 8
def USBRQ_SET_CONFIGURATION : UInt8 := 9
def USBRQ_GET_INTERFACE : UInt8 := 10

def USBDESCR_DEVICE : UInt8 := 1
def USBDESCR_CONFIG : UInt8 := 2
def USBDESCR_STRING : UInt8 := 3

/-! ## Descriptors -/

def usbDescriptorString0 : List UInt8 := [4, 3, 0x09, 0x04]

/-- `rfid-tool` in UTF-16LE. -/
def usbDescriptorStringDevice : List UInt8 :=
  [20, 3, 0x72, 0, 0x66, 0, 0x69, 0, 0x64, 0, 0x2d, 0, 0x74, 0, 0x6f, 0, 0x6f, 0, 0x6c, 0]

/-- There is no vendor string and no serial number string. -/
def usbDescriptorDevice : List UInt8 :=
  [18, USBDESCR_DEVICE, 0x10, 0x01, 0xff, 0, 0, 8, 0xc0, 0x16, 0xdc, 0x05,
    Firmware.FIRMWARE_VERSION_MAJOR, Firmware.FIRMWARE_VERSION_MINOR, 0, 2, 0, 1]

def usbDescriptorConfiguration : List UInt8 :=
  [9, USBDESCR_CONFIG, 18, 0, 1, 1, 0, 0x80, 100, 9, 4, 0, 0, 0, 0, 0, 0, 0]

/-! ## The state -/

/-- `usbRequest_t` -/
structure UsbRequest where
  bmRequestType : UInt8
  bRequest : UInt8
  wValue : UInt16
  wIndex : UInt16
  wLength : UInt16
  deriving DecidableEq, Repr

/-- What `usbFunctionSetup` reads of a request. -/
def UsbRequest.setup (rq : UsbRequest) : SetupRequest := ⟨rq.bRequest, rq.wValue, rq.wIndex⟩

/-- What `usbMsgPtr` may point into. -/
inductive MsgObject where
  | null
  | response
  /-- The two bytes at the end of `usbTxBuf`. -/
  | dataPtr
  | usbConfiguration
  | usbDescriptorDevice
  | usbDescriptorConfiguration
  | usbDescriptorString0
  | usbDescriptorStringDevice
  deriving DecidableEq, Repr

structure MsgPtr where
  object : MsgObject
  offset : ℕ
  deriving DecidableEq, Repr

/-- The object is in the flash memory. -/
def MsgObject.isRom : MsgObject → Bool
  | usbDescriptorDevice | usbDescriptorConfiguration => true
  | usbDescriptorString0 | usbDescriptorStringDevice => true
  | _ => false

/-- The variables of the driver, and those of the firmware. -/
structure UsbDriver where
  firmware : Firmware
  usbRxBuf : Vector UInt8 11
  usbRxLen : ℕ
  usbRxToken : UInt8
  usbCurrentTok : UInt8
  usbTxBuf : Vector UInt8 11
  usbTxLen : UInt8
  usbMsgLen : UInt8
  usbMsgPtr : MsgPtr
  /-- `USB_FLG_MSGPTR_IS_ROM` of `usbMsgFlags` -/
  msgPtrIsRom : Bool
  usbDeviceAddr : UInt8
  usbNewDeviceAddr : UInt8
  usbConfiguration : UInt8
  deriving DecidableEq, Repr

inductive UsbEvent where
  /-- The host sends a packet. -/
  | packet (bytes : List UInt8)
  /-- The part of the main loop that replaces `usbPoll`. -/
  | poll
  /-- A round of the main loop in which `fastctr` has reached zero, up to the poll. -/
  | idle
  | adc (adch : UInt8)
  | timer0
  /-- The main loop has seen the reset of the bus. -/
  | reset
  deriving DecidableEq, Repr

/-- The number of bytes that `usbFunctionSetup` returns. -/
def Firmware.setupLength (rq : SetupRequest) : UInt8 :=
  if rq.bRequest = PROTO_CMD_COIL_ENABLE then 0
  else if rq.bRequest = PROTO_CMD_GET_VERSION then 3
  else if rq.bRequest = PROTO_CMD_GET_BUFFER_SIZE then 7
  else if rq.bRequest = PROTO_CMD_RESET then 1
  else if rq.bRequest = PROTO_CMD_TRANSFER_START then 2
  else if rq.bRequest = PROTO_CMD_TRANSFER_STATUS then 4
  else if rq.bRequest = PROTO_CMD_PULSE_VECTOR_READ ∨ rq.bRequest = PROTO_CMD_PULSE_VECTOR_WRITE ∨
      rq.bRequest = PROTO_CMD_SAMPLE_VECTOR_READ ∨ rq.bRequest = PROTO_CMD_SAMPLE_VECTOR_WRITE then
    0xff
  else 1

namespace UsbDriver

/-- The state behind `usbInit`. -/
def init : UsbDriver where
  firmware := Firmware.init
  usbRxBuf := .replicate 11 0
  usbRxLen := 0
  usbRxToken := 0
  usbCurrentTok := 0
  usbTxBuf := .replicate 11 0
  usbTxLen := USBPID_NAK
  usbMsgLen := USB_NO_MSG
  usbMsgPtr := ⟨.null, 0⟩
  msgPtrIsRom := false
  usbDeviceAddr := 0
  usbNewDeviceAddr := 0
  usbConfiguration := 0

/-- The PID of the packet in a buffer. -/
def firstByte (buffer : Vector UInt8 11) : UInt8 := buffer[0]

/-- The bytes of an object. -/
def memory (d : UsbDriver) : MsgObject → List UInt8
  | .null => []
  | .response => d.firmware.response.toList
  | .dataPtr => d.usbTxBuf.toList.drop 9
  | .usbConfiguration => [d.usbConfiguration]
  | .usbDescriptorDevice => usbDescriptorDevice
  | .usbDescriptorConfiguration => usbDescriptorConfiguration
  | .usbDescriptorString0 => usbDescriptorString0
  | .usbDescriptorStringDevice => usbDescriptorStringDevice

/-- The request in the buffer of the receiver, behind the PID. -/
def request (d : UsbDriver) : UsbRequest where
  bmRequestType := d.usbRxBuf[1]
  bRequest := d.usbRxBuf[2]
  wValue := d.usbRxBuf[3].toUInt16 ||| d.usbRxBuf[4].toUInt16 <<< 8
  wIndex := d.usbRxBuf[5].toUInt16 ||| d.usbRxBuf[6].toUInt16 <<< 8
  wLength := d.usbRxBuf[7].toUInt16 ||| d.usbRxBuf[8].toUInt16 <<< 8

/-! ## Requests -/

/-- `usbDriverDescriptor`, with the length of the descriptor. -/
def usbDriverDescriptor (d : UsbDriver) (rq : UsbRequest) : UsbDriver × UInt8 :=
  let d := { d with msgPtrIsRom := true }
  if (rq.wValue >>> 8).toUInt8 = USBDESCR_DEVICE then
    ({ d with usbMsgPtr := ⟨.usbDescriptorDevice, 0⟩ }, 18)
  else if (rq.wValue >>> 8).toUInt8 = USBDESCR_CONFIG then
    ({ d with usbMsgPtr := ⟨.usbDescriptorConfiguration, 0⟩ }, 18)
  else if (rq.wValue >>> 8).toUInt8 = USBDESCR_STRING then
    if rq.wValue.toUInt8 = 0 then ({ d with usbMsgPtr := ⟨.usbDescriptorString0, 0⟩ }, 4)
    else if rq.wValue.toUInt8 = 2 then
      ({ d with usbMsgPtr := ⟨.usbDescriptorStringDevice, 0⟩ }, 20)
    else (d, 0)
  else (d, 0)

/-- `usbDriverSetup`, with the length of the reply. The default reply lies at the end of the
buffer of the transmitter. -/
def usbDriverSetup (d : UsbDriver) (rq : UsbRequest) : UsbDriver × UInt8 :=
  let value := rq.wValue.toUInt8
  let d := { d with usbTxBuf := d.usbTxBuf.set 9 0 }
  if rq.bRequest = USBRQ_GET_STATUS then
    ({ d with usbTxBuf := d.usbTxBuf.set 10 0, usbMsgPtr := ⟨.dataPtr, 0⟩ }, 2)
  else if rq.bRequest = USBRQ_SET_ADDRESS then
    ({ d with usbNewDeviceAddr := value, usbMsgPtr := ⟨.dataPtr, 0⟩ }, 0)
  else if rq.bRequest = USBRQ_GET_DESCRIPTOR then d.usbDriverDescriptor rq
  else if rq.bRequest = USBRQ_GET_CONFIGURATION then
    ({ d with usbMsgPtr := ⟨.usbConfiguration, 0⟩ }, 1)
  else if rq.bRequest = USBRQ_SET_CONFIGURATION then
    ({ d with usbConfiguration := value, usbMsgPtr := ⟨.dataPtr, 0⟩ }, 0)
  else if rq.bRequest = USBRQ_GET_INTERFACE then ({ d with usbMsgPtr := ⟨.dataPtr, 0⟩ }, 1)
  else ({ d with usbMsgPtr := ⟨.dataPtr, 0⟩ }, 0)

/-- The call of `usbFunctionSetup`, which sets `usbMsgPtr` unless it returns zero. -/
def functionSetup (d : UsbDriver) (rq : UsbRequest) : UsbDriver × UInt8 :=
  let replyLen := Firmware.setupLength rq.setup
  ({ d with
    firmware := d.firmware.usbFunctionSetup rq.setup
    usbMsgPtr := if replyLen ≠ 0 then ⟨.response, 0⟩ else d.usbMsgPtr }, replyLen)

/-- A request aborts what is left of the reply to the one before it. -/
def aborted (d : UsbDriver) : UsbDriver :=
  { d with
    usbTxBuf := d.usbTxBuf.set 0 USBPID_DATA0
    usbTxLen := USBPID_NAK
    firmware := { d.firmware with userRw := false }
    msgPtrIsRom := false }

/-- The branch of `usbProcessRx` for a setup packet of eight bytes. -/
def processSetup (d : UsbDriver) (rq : UsbRequest) : UsbDriver :=
  let d := d.aborted
  let (d, replyLen) :=
    if rq.bmRequestType &&& USBRQ_TYPE_MASK ≠ 0 then d.functionSetup rq else d.usbDriverSetup rq
  if replyLen = USB_NO_MSG then
    { d with
      usbMsgLen :=
        if rq.bmRequestType &&& USBRQ_DIR_MASK ≠ 0 then rq.wLength.toUInt8 else replyLen
      firmware := { d.firmware with userRw := true }
      msgPtrIsRom := false }
  else if rq.wLength >>> 8 = 0 ∧ replyLen > rq.wLength.toUInt8 then
    { d with usbMsgLen := rq.wLength.toUInt8 }
  else { d with usbMsgLen := replyLen }

/-- The branch of `usbProcessRx` for the data stage. `usbFunctionWrite` counts the same bytes
for its result and for `ioBufferOffset`. -/
def processOut (d : UsbDriver) (data : List UInt8) : Except Halt UsbDriver :=
  if d.firmware.userRw then do
    let firmware ← d.firmware.usbFunctionWrite data
    let rval := firmware.ioBufferOffset - d.firmware.ioBufferOffset
    let d := { d with firmware }
    if rval = 0xff then return { d with usbTxLen := USBPID_STALL }
    else if rval ≠ 0 then return { d with usbMsgLen := 0 }
    else return d
  else .ok d

/-- `usbProcessRx` for `len` bytes behind the PID. -/
def usbProcessRx (d : UsbDriver) (len : ℕ) : Except Halt UsbDriver :=
  if d.usbRxToken = USBPID_SETUP then
    if len ≠ 8 then .ok d else .ok (d.processSetup d.request)
  else d.processOut ((d.usbRxBuf.toList.drop 1).take len)

/-! ## Replies -/

/-- A read through a message pointer. -/
def load (d : UsbDriver) (ptr : MsgPtr) : Except Halt UInt8 :=
  if d.msgPtrIsRom = ptr.object.isRom then
    match (d.memory ptr.object)[ptr.offset]? with
    | some byte => .ok byte
    | none => .error .fault
  else .error .fault

/-- The loops of `usbDeviceRead`. -/
def readMsg (d : UsbDriver) (ptr : MsgPtr) : ℕ → Except Halt (List UInt8)
  | 0 => .ok []
  | len + 1 => do
    let byte ← d.load ptr
    let data ← d.readMsg { ptr with offset := ptr.offset + 1 } len
    return byte :: data

/-- `usbDeviceRead`, with the bytes that it copies. The default reply at the end of
`usbTxBuf` lies behind the eight bytes that it is copied to. -/
def usbDeviceRead (d : UsbDriver) (len : ℕ) : Except Halt (UsbDriver × List UInt8) :=
  if len = 0 then .ok (d, [])
  else if d.firmware.userRw then do
    let (firmware, data) ← d.firmware.usbFunctionRead len
    return ({ d with firmware }, data)
  else do
    let data ← d.readMsg d.usbMsgPtr len
    return ({ d with usbMsgPtr := { d.usbMsgPtr with offset := d.usbMsgPtr.offset + len } }, data)

/-- The length of the next packet. -/
def wantLen (d : UsbDriver) : UInt8 := if d.usbMsgLen > 8 then 8 else d.usbMsgLen

/-- The driver in which the packet is fetched. -/
def toggled (d : UsbDriver) : UsbDriver :=
  { d with
    usbMsgLen := d.usbMsgLen - d.wantLen
    usbTxBuf :=
      d.usbTxBuf.set 0 (firstByte d.usbTxBuf ^^^ (USBPID_DATA0 ^^^ USBPID_DATA1)) }

/-- `usbBuildTxBlock` -/
def usbBuildTxBlock (d : UsbDriver) : Except Halt UsbDriver := do
  let wantLen := d.wantLen
  let d := d.toggled
  let (d, data) ← d.usbDeviceRead wantLen.toNat
  if data.length ≤ 8 then
    return { d with
      usbTxBuf := overwrite d.usbTxBuf 1 (UsbCrc16.usbCrc16Append data)
      usbTxLen := UInt8.ofNat (data.length + 4)
      usbMsgLen := if data.length + 4 < 12 then USB_NO_MSG else d.usbMsgLen }
  else return { d with usbTxLen := USBPID_STALL, usbMsgLen := USB_NO_MSG }

/-- The part of the main loop that processes a received packet. -/
def pollRx (d : UsbDriver) : Except Halt UsbDriver :=
  if 3 ≤ d.usbRxLen then do
    let d ← d.usbProcessRx (d.usbRxLen - 3)
    return { d with usbRxLen := 0 }
  else .ok d

/-- The part that prepares a reply. -/
def pollTx (d : UsbDriver) : Except Halt UsbDriver :=
  if d.usbTxLen &&& 0x10 ≠ 0 ∧ d.usbMsgLen ≠ USB_NO_MSG then d.usbBuildTxBlock else .ok d

def poll (d : UsbDriver) : Except Halt UsbDriver := d.pollRx >>= pollTx

/-! ## Receiver and transmitter -/

/-- `ignorePacket` -/
def ignorePacket (d : UsbDriver) : UsbDriver := { d with usbCurrentTok := 0 }

/-- `handleData`, for a packet of `cnt` bytes. -/
def handleData (d : UsbDriver) (cnt : ℕ) : UsbDriver × Option (List UInt8) :=
  if d.usbCurrentTok = 0 then (d, none)
  else if d.usbRxLen ≠ 0 then (d, some [USBPID_NAK])
  else if cnt < 4 then (d, some [USBPID_ACK])
  else ({ d with usbRxLen := cnt, usbRxToken := d.usbCurrentTok }, some [USBPID_ACK])

/-- `handleIn`. The new address is taken over when a data packet is sent. -/
def handleIn (d : UsbDriver) : UsbDriver × Option (List UInt8) :=
  if 1 ≤ d.usbRxLen then (d, some [USBPID_NAK])
  else if d.usbTxLen &&& 0x10 ≠ 0 then (d, some [d.usbTxLen])
  else ({ d with usbTxLen := USBPID_NAK, usbDeviceAddr := d.usbNewDeviceAddr <<< 1 },
    some (d.usbTxBuf.toList.take (d.usbTxLen.toNat - 1)))

/-- The packet is a token for the address of the device. -/
def isForDevice (d : UsbDriver) : Bool := d.usbRxBuf[1] <<< 1 == d.usbDeviceAddr

/-- The receiver, with the packet that is sent back. -/
def receive (d : UsbDriver) (packet : List UInt8) : UsbDriver × Option (List UInt8) :=
  let d := { d with usbRxBuf := overwrite d.usbRxBuf 0 (packet.take USB_BUFSIZE) }
  let token := firstByte d.usbRxBuf
  if USB_BUFSIZE < packet.length then (d.ignorePacket, none)
  else if token = USBPID_DATA0 ∨ token = USBPID_DATA1 then d.handleData packet.length
  else if !d.isForDevice then (d.ignorePacket, none)
  else if token = USBPID_IN then d.handleIn
  else if token = USBPID_SETUP ∨ token = USBPID_OUT then ({ d with usbCurrentTok := token }, none)
  else (d.ignorePacket, none)

/-! ## Steps -/

/-- An event of the firmware. -/
def fire (d : UsbDriver) (e : Event) : Except Halt UsbDriver := do
  let firmware ← d.firmware.step e
  return { d with firmware }

def step (d : UsbDriver) : UsbEvent → Except Halt UsbDriver
  | .packet bytes => .ok (d.receive bytes).1
  | .poll => d.poll
  | .idle => d.fire .idle
  | .adc adch => d.fire (.adc adch)
  | .timer0 => d.fire .timer0
  | .reset => .ok { d with usbNewDeviceAddr := 0, usbDeviceAddr := 0 }

/-- What the device sends back. -/
def answer (d : UsbDriver) : UsbEvent → Option (List UInt8)
  | .packet bytes => (d.receive bytes).2
  | _ => none

end UsbDriver

end RfidTool

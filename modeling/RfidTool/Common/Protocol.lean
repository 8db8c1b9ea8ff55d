import Mathlib.Tactic.Common

/-!
# `common/protocol.h`

The commands, return codes and flags that the host and the firmware share. Only the
values that the model uses are here. A command travels in a vendor request.
-/

namespace RfidTool

def PROTO_RC_OK : UInt8 := 0
def PROTO_RC_INVALID_CMD : UInt8 := 1
def PROTO_RC_INVALID_VAL : UInt8 := 3

def PROTO_CMD_NOP : UInt8 := 0x00
def PROTO_CMD_GET_VERSION : UInt8 := 0x01
def PROTO_CMD_RESET : UInt8 := 0x02
def PROTO_CMD_COIL_ENABLE : UInt8 := 0x03
def PROTO_CMD_PULSE_VECTOR_READ : UInt8 := 0x04
def PROTO_CMD_PULSE_VECTOR_WRITE : UInt8 := 0x05
def PROTO_CMD_SAMPLE_VECTOR_READ : UInt8 := 0x06
def PROTO_CMD_SAMPLE_VECTOR_WRITE : UInt8 := 0x07
def PROTO_CMD_GET_BUFFER_SIZE : UInt8 := 0x08
def PROTO_CMD_TRANSFER_START : UInt8 := 0x09
def PROTO_CMD_TRANSFER_STATUS : UInt8 := 0x0a

def PROTO_TRANSFER_FLAG_FIRST_ON_START : UInt16 := 0x8000
def PROTO_TRANSFER_FLAG_START_ON_EDGE : UInt16 := 0x4000
def PROTO_TRANSFER_FLAG_FALLING_EDGE : UInt16 := 0x2000
def PROTO_TRANSFER_FLAG_TX_MODE : UInt16 := 0x1000

def PROTO_TRANSFER_STATUS_UNKNOWN : UInt8 := 0x00
def PROTO_TRANSFER_STATUS_OK : UInt8 := 0x01
def PROTO_TRANSFER_STATUS_TIMEOUT : UInt8 := 0x02
def PROTO_TRANSFER_STATUS_IN_PROGRESS : UInt8 := 0x03

/-- A vendor request; `wLength` is only read by the driver. -/
structure SetupRequest where
  bRequest : UInt8
  wValue : UInt16
  wIndex : UInt16
  deriving DecidableEq, Repr

end RfidTool

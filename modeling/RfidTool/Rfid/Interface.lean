import Mathlib.Tactic.Common

/-!
# `rfid::device::Interface`

The samples that the interface measures and plays, and the errors it reports.
-/

namespace RfidTool

/-- Microseconds of one carrier period. -/
def CARRIER_US : Int := 8

/-- A level held for a time. `sampleUs` is a C++ `int`. -/
structure Sample where
  sampleUs : Int
  isHigh : Bool
  deriving DecidableEq, Repr

namespace Sample

def getLengthUs (s : Sample) : Int := s.sampleUs

def isLow (s : Sample) : Bool := !s.isHigh

end Sample

end RfidTool

import RfidTool.Rfid.CarrierDecoder
import RfidTool.Rfid.Em4100Decoder

/-!
# `rfid::CodingDecoder`

The Manchester and the biphase decoder: they listen to the carrier decoder and
notify bits. Both forget their half-bit state at every `EVENT_SYNC_CHANGED`; the
`EVENT_RESET` that would tell the next decoder so is commented out in the code.
`Coding.chain` is the row of the three decoders.
-/

namespace RfidTool

structure ManchesterDecoder where
  ffOut : Bool
  timerRunning : Bool
  deriving DecidableEq, Repr

namespace ManchesterDecoder

def reset : ManchesterDecoder := ⟨false, false⟩

def onEvent (d : ManchesterDecoder) : CarrierEvent → ManchesterDecoder × Option Bool
  | .newPulse isHigh isLong =>
    if d.timerRunning then
      let d : ManchesterDecoder := { ffOut := isHigh, timerRunning := isLong }
      let bit := d.ffOut
      let d := if d.timerRunning then { d with timerRunning := d.ffOut ^^ isHigh } else d
      (d, some bit)
    else
      let timerTrigger := isHigh ^^ d.ffOut
      if timerTrigger then
        if isLong then
          let d : ManchesterDecoder := { ffOut := isHigh, timerRunning := false }
          (d, some d.ffOut)
        else ({ d with timerRunning := true }, none)
      else (d, none)
  | .syncChanged _ _ => (reset, none)

end ManchesterDecoder

structure BiphaseDecoder where
  lastShort : Bool
  deriving DecidableEq, Repr

namespace BiphaseDecoder

def reset : BiphaseDecoder := ⟨false⟩

def onEvent (d : BiphaseDecoder) : CarrierEvent → BiphaseDecoder × Option Bool
  | .newPulse _ isLong =>
    if isLong then ({ d with lastShort := false }, some true)
    else if d.lastShort then ({ d with lastShort := false }, some false)
    else ({ d with lastShort := true }, none)
  | .syncChanged _ _ => (reset, none)

end BiphaseDecoder

/-! ## Both decoders in one chain -/

inductive Coding where
  | manchester
  | biphase
  deriving DecidableEq, Repr

namespace Coding

/-- The decoder of a coding. -/
def Decoder : Coding → Type
  | manchester => ManchesterDecoder
  | biphase => BiphaseDecoder

def reset : (c : Coding) → c.Decoder
  | manchester => ManchesterDecoder.reset
  | biphase => BiphaseDecoder.reset

def onEvent : (c : Coding) → c.Decoder → CarrierEvent → c.Decoder × Option Bool
  | manchester => ManchesterDecoder.onEvent
  | biphase => BiphaseDecoder.onEvent

def machine (c : Coding) : Transducer c.Decoder CarrierEvent Bool := ⟨c.onEvent⟩

/-- `CarrierDecoder -> CodingDecoder -> Em4100Decoder`. -/
def chain (c : Coding) : Transducer ((CarrierDecoder × c.Decoder) × Em4100Decoder) Sample Token :=
  (CarrierDecoder.machine.comp c.machine).comp Em4100Decoder.machine

/-- The chain as constructed. -/
def fresh (c : Coding) (d : Em4100Decoder) : (CarrierDecoder × c.Decoder) × Em4100Decoder :=
  ((CarrierDecoder.reset, c.reset), d.reset)

theorem output_chain (c : Coding) (a : CarrierDecoder) (b : c.Decoder) (d : Em4100Decoder)
    (xs : List Sample) : c.chain.output ((a, b), d) xs =
      Em4100Decoder.machine.output d (c.machine.output b (CarrierDecoder.machine.output a xs)) := by
  rw [chain, Transducer.output_comp, Transducer.output_comp]

/-- A change of the synchronisation resets the decoder without a bit. -/
theorem onEvent_syncChanged (c : Coding) (d : c.Decoder) (hasSync : Bool) (divider : UInt8) :
    c.onEvent d (.syncChanged hasSync divider) = (c.reset, none) := by
  cases c <;> rfl

end Coding

end RfidTool

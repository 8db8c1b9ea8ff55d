import RfidTool.Library.Buffer
import RfidTool.Library.Transducer
import RfidTool.Rfid.Interface
import Mathlib.Tactic.IntervalCases

/-!
# `rfid::CarrierDecoder`

The detector of the carrier divider. Without synchronisation it counts short and
long pulses of the current divider until it has seen five of each; a sample that
follows ten bad ones in the same window of 50 samples moves it to the next
divider. `checkPulses` is a run of the machine whose step is `checkSample`, the body
of its loop, with the event that the step notifies. The log messages are left out.
-/

namespace RfidTool

/-- `EVENT_SYNC_CHANGED` and `EVENT_NEW_PULSE` with their data. -/
inductive CarrierEvent where
  | syncChanged (hasSync : Bool) (carrierDivider : UInt8)
  | newPulse (isHigh isLong : Bool)
  deriving DecidableEq, Repr

structure CarrierDecoder where
  longMin : UInt16
  longMax : UInt16
  shortMin : UInt16
  shortMax : UInt16
  pulseCount : UInt8
  loCount : UInt8
  hiCount : UInt8
  errorCount : UInt8
  carrierDivider : UInt8
  hasSync : Bool
  deriving DecidableEq, Repr

namespace CarrierDecoder

def CARRIER_PULSE_LENGTH : UInt16 := 8
def PULSE_MAX : UInt8 := 50
def ERROR_TRESHOLD : UInt8 := 10

/-- `PULSE_SHORT` -/
def isShort (d : CarrierDecoder) (pulse : Int) : Bool :=
  decide (pulse ≥ d.shortMin.toNat) && decide (pulse ≤ d.shortMax.toNat)

/-- `PULSE_LONG` -/
def isLong (d : CarrierDecoder) (pulse : Int) : Bool :=
  decide (pulse ≥ d.longMin.toNat) && decide (pulse ≤ d.longMax.toNat)

def updatePulseRange (d : CarrierDecoder) : CarrierDecoder :=
  let pulseLength := (d.carrierDivider.toUInt16 * CARRIER_PULSE_LENGTH) / 2
  let delta := pulseLength >>> 2
  { d with
    shortMin := pulseLength - delta
    shortMax := pulseLength + delta
    longMin := (pulseLength <<< 1) - delta
    longMax := (pulseLength <<< 1) + delta }

/-- Every field is set, so the state before does not matter. -/
def reset : CarrierDecoder :=
  updatePulseRange ⟨0, 0, 0, 0, 0, 0, 0, 0, 16, false⟩

def nextDivider (divider : UInt8) : UInt8 :=
  if divider = 16 then 32 else if divider = 32 then 64 else if divider = 64 then 16 else divider

/-- The branch of `nextCarrier`. -/
def nextCarrier (d : CarrierDecoder) : CarrierDecoder × Option CarrierEvent :=
  (updatePulseRange { d with
    hasSync := false, loCount := 0, hiCount := 0, errorCount := 0, pulseCount := 0
    carrierDivider := nextDivider d.carrierDivider }, some (.syncChanged false 0))

/-- A sample counted as a short, a long or a bad pulse. -/
def count (d : CarrierDecoder) (lengthUs : Int) : CarrierDecoder :=
  if d.isShort lengthUs then { d with loCount := d.loCount + 1 }
  else if d.isLong lengthUs then { d with hiCount := d.hiCount + 1 }
  else { d with errorCount := d.errorCount + 1 }

/-- The branch without synchronisation. -/
def search (d : CarrierDecoder) (lengthUs : Int) : CarrierDecoder × Option CarrierEvent :=
  let d := d.count lengthUs
  if d.hiCount > 4 ∧ d.loCount > 4 ∧ d.errorCount < 4 then
    ({ d with hasSync := true }, some (.syncChanged true d.carrierDivider))
  else (d, none)

/-- The branch with synchronisation. -/
def follow (d : CarrierDecoder) (sample : Sample) : CarrierDecoder × Option CarrierEvent :=
  let isHigh := !sample.isLow
  if d.isLong sample.getLengthUs then (d, some (.newPulse isHigh true))
  else if d.isShort sample.getLengthUs then (d, some (.newPulse isHigh false))
  else ({ d with errorCount := d.errorCount + 1 }, none)

/-- The pulse counter of a sample that does not change the carrier. -/
def nextWindow (d : CarrierDecoder) : CarrierDecoder :=
  if d.pulseCount + 1 = PULSE_MAX then { d with pulseCount := 0, errorCount := 0 }
  else { d with pulseCount := d.pulseCount + 1 }

/-- The body of the loop of `checkPulses`. -/
def checkSample (d : CarrierDecoder) (sample : Sample) : CarrierDecoder × Option CarrierEvent :=
  if d.errorCount ≥ ERROR_TRESHOLD then d.nextCarrier
  else if d.nextWindow.hasSync then d.nextWindow.follow sample
  else d.nextWindow.search sample.getLengthUs

/-- The detector as a transducer from samples to events. -/
def machine : Transducer CarrierDecoder Sample CarrierEvent := ⟨checkSample⟩

@[simp] theorem machine_step (d : CarrierDecoder) (x : Sample) :
    machine.step d x = d.checkSample x := rfl

/-! ## Ranges -/

/-- The ranges are those of the current divider. -/
structure Ranged (d : CarrierDecoder) : Prop where
  divider : d.carrierDivider = 16 ∨ d.carrierDivider = 32 ∨ d.carrierDivider = 64
  shortMin : d.shortMin.toNat = 3 * d.carrierDivider.toNat
  shortMax : d.shortMax.toNat = 5 * d.carrierDivider.toNat
  longMin : d.longMin.toNat = 7 * d.carrierDivider.toNat
  longMax : d.longMax.toNat = 9 * d.carrierDivider.toNat

theorem ranged_updatePulseRange {d : CarrierDecoder}
    (h : d.carrierDivider = 16 ∨ d.carrierDivider = 32 ∨ d.carrierDivider = 64) :
    d.updatePulseRange.Ranged := by
  unfold updatePulseRange
  rcases h with h | h | h <;> constructor <;> simp [h, CARRIER_PULSE_LENGTH] <;> rfl

theorem ranged_reset : Ranged reset := ranged_updatePulseRange (.inl rfl)

theorem ranged_nextWindow {d : CarrierDecoder} (h : d.Ranged) : d.nextWindow.Ranged := by
  unfold nextWindow
  split <;> exact ⟨h.1, h.2, h.3, h.4, h.5⟩

theorem ranged_count {d : CarrierDecoder} (h : d.Ranged) (len : Int) : (d.count len).Ranged := by
  unfold count
  split
  · exact ⟨h.1, h.2, h.3, h.4, h.5⟩
  · split <;> exact ⟨h.1, h.2, h.3, h.4, h.5⟩

theorem ranged_nextCarrier {d : CarrierDecoder} (h : d.Ranged) : d.nextCarrier.1.Ranged := by
  apply ranged_updatePulseRange
  rcases h.divider with h | h | h <;> simp [nextDivider, h]

theorem Ranged.isShort_iff {d : CarrierDecoder} (h : d.Ranged) (len : Int) :
    d.isShort len = true ↔ 3 * d.carrierDivider.toNat ≤ len ∧ len ≤ 5 * d.carrierDivider.toNat := by
  simp only [isShort, h.shortMin, h.shortMax, Bool.and_eq_true, decide_eq_true_eq]
  omega

theorem Ranged.isLong_iff {d : CarrierDecoder} (h : d.Ranged) (len : Int) :
    d.isLong len = true ↔ 7 * d.carrierDivider.toNat ≤ len ∧ len ≤ 9 * d.carrierDivider.toNat := by
  simp only [isLong, h.longMin, h.longMax, Bool.and_eq_true, decide_eq_true_eq]
  omega

/-! ## The window does not touch anything but its two counters -/

@[simp] theorem nextWindow_hasSync (d : CarrierDecoder) : d.nextWindow.hasSync = d.hasSync := by
  unfold nextWindow
  split <;> rfl

@[simp] theorem nextWindow_carrierDivider (d : CarrierDecoder) :
    d.nextWindow.carrierDivider = d.carrierDivider := by
  unfold nextWindow
  split <;> rfl

@[simp] theorem nextWindow_loCount (d : CarrierDecoder) : d.nextWindow.loCount = d.loCount := by
  unfold nextWindow
  split <;> rfl

@[simp] theorem nextWindow_hiCount (d : CarrierDecoder) : d.nextWindow.hiCount = d.hiCount := by
  unfold nextWindow
  split <;> rfl

theorem nextWindow_errorCount (d : CarrierDecoder) :
    d.nextWindow.errorCount = if d.pulseCount + 1 = PULSE_MAX then 0 else d.errorCount := by
  unfold nextWindow
  split <;> rfl

theorem nextWindow_pulseCount (d : CarrierDecoder) :
    d.nextWindow.pulseCount = if d.pulseCount + 1 = PULSE_MAX then 0 else d.pulseCount + 1 := by
  unfold nextWindow
  split <;> rfl

/-- The two counters as numbers: the fiftieth sample opens a new window. -/
theorem toNat_nextWindow {d : CarrierDecoder} (h : d.pulseCount.toNat < 50) :
    (d.pulseCount.toNat + 1 = 50 ∧ d.nextWindow.pulseCount.toNat = 0 ∧
      d.nextWindow.errorCount.toNat = 0) ∨
    (d.pulseCount.toNat + 1 < 50 ∧ d.nextWindow.pulseCount.toNat = d.pulseCount.toNat + 1 ∧
      d.nextWindow.errorCount.toNat = d.errorCount.toNat) := by
  have hnext := UInt8.toNat_add_one (x := d.pulseCount) rfl (by omega)
  rw [nextWindow_pulseCount, nextWindow_errorCount]
  split_ifs with hmax
  · have hfifty : (d.pulseCount + 1).toNat = 50 := congrArg UInt8.toNat hmax
    exact .inl ⟨hnext.symm.trans hfifty, rfl, rfl⟩
  · have hne : (d.pulseCount + 1).toNat ≠ 50 := fun heq => hmax (UInt8.toNat_inj.mp heq)
    exact .inr ⟨by omega, hnext, rfl⟩

/-! ## What a sample is counted as -/

@[simp] theorem count_carrierDivider (d : CarrierDecoder) (len : Int) :
    (d.count len).carrierDivider = d.carrierDivider := by
  unfold count
  split_ifs <;> rfl

@[simp] theorem count_hasSync (d : CarrierDecoder) (len : Int) :
    (d.count len).hasSync = d.hasSync := by
  unfold count
  split_ifs <;> rfl

@[simp] theorem count_pulseCount (d : CarrierDecoder) (len : Int) :
    (d.count len).pulseCount = d.pulseCount := by
  unfold count
  split_ifs <;> rfl

theorem count_loCount (d : CarrierDecoder) (len : Int) :
    (d.count len).loCount = if d.isShort len then d.loCount + 1 else d.loCount := by
  unfold count
  split_ifs <;> rfl

theorem count_hiCount (d : CarrierDecoder) (len : Int) :
    (d.count len).hiCount =
      if !d.isShort len && d.isLong len then d.hiCount + 1 else d.hiCount := by
  unfold count
  split_ifs <;> simp_all

theorem count_errorCount (d : CarrierDecoder) (len : Int) :
    (d.count len).errorCount =
      if d.isShort len || d.isLong len then d.errorCount else d.errorCount + 1 := by
  unfold count
  split_ifs <;> simp_all

theorem toNat_count_errorCount {d : CarrierDecoder} (h : d.errorCount < 10) (len : Int) :
    (d.count len).errorCount.toNat =
      d.errorCount.toNat + if d.isShort len || d.isLong len then 0 else 1 := by
  have hlt : d.errorCount.toNat < 10 := UInt8.lt_iff_toNat_lt.mp h
  rw [count_errorCount]
  split_ifs
  · rfl
  · exact UInt8.toNat_add_one rfl (by omega)

/-- A search decides with the sample or goes on. -/
theorem search_cases (d : CarrierDecoder) (len : Int) :
    d.search len = (d.count len, none) ∨
      d.search len = ({ d.count len with hasSync := true },
        some (.syncChanged true d.carrierDivider)) ∧ (d.count len).hiCount > 4 ∧
        (d.count len).loCount > 4 ∧ (d.count len).errorCount < 4 := by
  unfold search
  dsimp only
  split
  case isTrue h => exact .inr ⟨by rw [count_carrierDivider], h⟩
  case isFalse => exact .inl rfl

theorem search_fst (d : CarrierDecoder) (len : Int) :
    (d.search len).1 = d.count len ∨
      (d.search len).1 = { d.count len with hasSync := true } ∧ (d.count len).hiCount > 4 ∧
        (d.count len).loCount > 4 ∧ (d.count len).errorCount < 4 := by
  rcases search_cases d len with h | ⟨h, hdecided⟩
  · exact .inl (congrArg Prod.fst h)
  · exact .inr ⟨congrArg Prod.fst h, hdecided⟩

theorem search_snd (d : CarrierDecoder) (len : Int) :
    (d.search len).2 = none ∨ (d.search len).2 = some (.syncChanged true d.carrierDivider) := by
  rcases search_cases d len with h | ⟨h, -⟩
  · exact .inl (congrArg Prod.snd h)
  · exact .inr (congrArg Prod.snd h)

/-! ## One sample -/

/-- A sample behind ten errors changes the carrier. -/
theorem checkSample_of_ten_le {d : CarrierDecoder} (herr : 10 ≤ d.errorCount) (x : Sample) :
    d.checkSample x = d.nextCarrier :=
  if_pos herr

theorem checkSample_of_hasSync {d : CarrierDecoder} (herr : d.errorCount < 10)
    (hsync : d.hasSync = true) (x : Sample) : d.checkSample x = d.nextWindow.follow x := by
  have hten : ¬ d.errorCount ≥ ERROR_TRESHOLD := UInt8.not_le.mpr herr
  rw [checkSample, if_neg hten, nextWindow_hasSync, if_pos hsync]

theorem checkSample_of_not_hasSync {d : CarrierDecoder} (herr : d.errorCount < 10)
    (hsync : d.hasSync = false) (x : Sample) :
    d.checkSample x = d.nextWindow.search x.getLengthUs := by
  have hten : ¬ d.errorCount ≥ ERROR_TRESHOLD := UInt8.not_le.mpr herr
  rw [checkSample, if_neg hten, nextWindow_hasSync, hsync, if_neg Bool.false_ne_true]

/-- A sample changes the carrier, or it is read with or without synchronisation. -/
theorem checkSample_cases (d : CarrierDecoder) (x : Sample) :
    (10 ≤ d.errorCount ∧ d.checkSample x = d.nextCarrier) ∨
    (d.errorCount < 10 ∧ d.hasSync = true ∧ d.checkSample x = d.nextWindow.follow x) ∨
    (d.errorCount < 10 ∧ d.hasSync = false ∧
      d.checkSample x = d.nextWindow.search x.getLengthUs) := by
  rcases UInt8.lt_or_le d.errorCount 10 with herr | herr
  · right
    cases hsync : d.hasSync with
    | true => exact .inl ⟨herr, rfl, checkSample_of_hasSync herr hsync x⟩
    | false => exact .inr ⟨herr, rfl, checkSample_of_not_hasSync herr hsync x⟩
  · exact .inl ⟨herr, checkSample_of_ten_le herr x⟩

end CarrierDecoder

end RfidTool

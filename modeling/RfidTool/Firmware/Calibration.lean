import RfidTool.Library.Buffer
import RfidTool.Library.Loop

/-!
# The calibration of the oscillator

`_calibrateOscillator` looks for the value of `OSCCAL` at which the measured frame length
is closest to `targetValue`. The binary search leaves the largest value that it knows to
be too slow. The loop over its neighbours compares the 8-bit register with `int` bounds:
from 254 on it never ends, and at 0 it starts with 255 and looks at nothing. In between it
starts from the last measurement itself instead of a deviation, so a neighbour that is not
below that measurement is not taken. `Settles` is what is left for the measurement.
-/

namespace RfidTool

namespace Calibration

/-- The clock of the firmware. -/
def F_CPU : ℕ := 16500000

/-- `1499 * F_CPU / 10.5e6`, rounded. -/
def targetValue : Int := Int.ofNat ((2 * 1499 * F_CPU + 10500000) / (2 * 10500000))

variable (usbMeasureFrameLength : UInt8 → ℕ)

/-- The variables of the binary search. -/
structure Search where
  step : UInt8
  trialValue : UInt8
  x : Int
  deriving DecidableEq, Repr

/-- The body of the binary search. -/
def halve (s : Search) : Search ⊕ Search :=
  let OSCCAL := s.trialValue + s.step
  let x : Int := usbMeasureFrameLength OSCCAL
  let trialValue := if x < targetValue then s.trialValue + s.step else s.trialValue
  let step := s.step >>> 1
  if step > 0 then .inl ⟨step, trialValue, x⟩ else .inr ⟨step, trialValue, x⟩

/-- How far a measurement is from the target. -/
def deviation (OSCCAL : UInt8) : Int :=
  let x := usbMeasureFrameLength OSCCAL - targetValue
  if x < 0 then -x else x

/-- The variables of the neighborhood search. -/
structure Neighborhood where
  OSCCAL : UInt8
  optimumValue : UInt8
  optimumDev : Int
  deriving DecidableEq, Repr

/-- The body of the neighborhood search, with the increment of the register behind it. -/
def improve (n : Neighborhood) : Neighborhood :=
  let x := deviation usbMeasureFrameLength n.OSCCAL
  if x < n.optimumDev then ⟨n.OSCCAL + 1, n.OSCCAL, x⟩
  else ⟨n.OSCCAL + 1, n.optimumValue, n.optimumDev⟩

/-- The neighborhood search. The register is compared as an `int`. -/
def neighbor (trialValue : UInt8) (n : Neighborhood) : Neighborhood ⊕ UInt8 :=
  if n.OSCCAL.toNat ≤ trialValue.toNat + 1 then .inl (improve usbMeasureFrameLength n)
  else .inr n.optimumValue

/-- `_calibrateOscillator`: the final value of `OSCCAL`, if both loops end within `fuel`
rounds. -/
def calibrateOscillator (fuel : ℕ) : Option UInt8 := do
  let s ← Loop.run (halve usbMeasureFrameLength) fuel ⟨128, 0, 0⟩
  Loop.run (neighbor usbMeasureFrameLength s.trialValue) fuel
    ⟨s.trialValue - 1, s.trialValue, s.x⟩

/-- The calibration ends, with a value that no other one is closer than. -/
def Calibrates : Prop :=
  ∃ fuel v, calibrateOscillator usbMeasureFrameLength fuel = some v ∧
    ∀ w, deviation usbMeasureFrameLength v ≤ deviation usbMeasureFrameLength w

/-- The measurement reaches the target before the last value, 0 is not worse than 1 when it
is reached there, and where it is reached behind an odd value, the next one is not closer
unless it is also closer than the measurement at the odd value is to zero. -/
structure Settles : Prop where
  top : targetValue ≤ usbMeasureFrameLength 254
  bottom : targetValue ≤ usbMeasureFrameLength 1 →
    deviation usbMeasureFrameLength 0 ≤ deviation usbMeasureFrameLength 1
  odd : ∀ t : UInt8, t.toNat % 2 = 1 → t.toNat ≤ 253 →
    usbMeasureFrameLength t < targetValue → targetValue ≤ usbMeasureFrameLength (t + 1) →
      deviation usbMeasureFrameLength (t + 1) < deviation usbMeasureFrameLength t →
        deviation usbMeasureFrameLength (t + 1) < usbMeasureFrameLength t

/-! ## The binary search -/

variable {f : UInt8 → ℕ}

/-- The target lies within the two steps behind `trialValue`. -/
structure Bracket (f : UInt8 → ℕ) (s : Search) : Prop where
  step : s.step.toNat ∣ 128
  aligned : 2 * s.step.toNat ∣ s.trialValue.toNat
  fits : s.trialValue.toNat + 2 * s.step.toNat ≤ 256
  low : s.trialValue = 0 ∨ f s.trialValue < targetValue
  high : ∀ v : UInt8, s.trialValue.toNat + 2 * s.step.toNat ≤ v.toNat → targetValue ≤ f v

/-- What the binary search has found: the last value that is too slow, or 0, and the
measurement of the odd one of this value and the next. -/
structure Found (f : UInt8 → ℕ) (s : Search) : Prop where
  low : s.trialValue = 0 ∨ f s.trialValue < targetValue
  high : ∀ v : UInt8, s.trialValue.toNat < v.toNat → targetValue ≤ f v
  x : s.x = f (if s.trialValue.toNat % 2 = 1 then s.trialValue else s.trialValue + 1)

theorem bracket_start (f : UInt8 → ℕ) : Bracket f ⟨128, 0, 0⟩ := by
  refine ⟨by decide, by decide, by decide, .inl rfl, ?_⟩
  intro v hv
  exact absurd hv (Nat.not_le.mpr v.toNat_lt)

/-- A power of two below 256 is one, or twice a power of two. -/
theorem eq_one_or_even_of_dvd {n : ℕ} (h : n ∣ 128) :
    n = 1 ∨ ∃ m, n = 2 * m ∧ 0 < m ∧ m ∣ 128 := by
  have hle := Nat.le_of_dvd (by decide) h
  have hall : ∀ n ≤ 128, n ∣ 128 → n = 1 ∨ ∃ m ≤ 64, n = 2 * m ∧ 0 < m ∧ m ∣ 128 := by
    decide +kernel
  rcases hall n hle h with hone | ⟨m, -, heven⟩
  · exact .inl hone
  · exact .inr ⟨m, heven⟩

theorem toNat_halfStep (step : UInt8) : (step >>> 1).toNat = step.toNat / 2 := by
  rw [UInt8.toNat_shiftRight]
  simp only [UInt8.reduceToNat, Nat.reduceMod, Nat.shiftRight_eq_div_pow, Nat.pow_one]

/-- What one measurement leaves of a bracket: the half with the target in it. -/
structure Half (f : UInt8 → ℕ) (s : Search) (trialValue : UInt8) : Prop where
  value : trialValue.toNat = s.trialValue.toNat + s.step.toNat ∨ trialValue = s.trialValue
  low : trialValue = 0 ∨ f trialValue < targetValue
  high : ∀ v : UInt8, trialValue.toNat + s.step.toNat ≤ v.toNat → targetValue ≤ f v

theorem Bracket.half (hf : ∀ v w : UInt8, v ≤ w → f v ≤ f w) {s : Search} (h : Bracket f s) :
    Half f s (if (f (s.trialValue + s.step) : Int) < targetValue then s.trialValue + s.step
      else s.trialValue) := by
  have hpos : 0 < s.step.toNat := Nat.pos_of_dvd_of_pos h.step (by decide)
  have hfits := h.fits
  have hprobe : (s.trialValue + s.step).toNat = s.trialValue.toNat + s.step.toNat := by
    rw [UInt8.toNat_add]
    exact Nat.mod_eq_of_lt (by omega)
  split_ifs with hslow
  · refine ⟨.inl hprobe, .inr hslow, ?_⟩
    intro v hv
    exact h.high v (by omega)
  · refine ⟨.inr rfl, h.low, ?_⟩
    intro v hv
    have hle := hf (s.trialValue + s.step) v (UInt8.le_iff_toNat_le.mpr (by omega))
    omega

/-- The half of a bracket whose step is even is a bracket again. -/
theorem Half.bracket {s : Search} {trialValue : UInt8} (hhalf : Half f s trialValue)
    (h : Bracket f s) {m : ℕ} (heven : s.step.toNat = 2 * m) (hdvd : m ∣ 128) (x : Int) :
    Bracket f ⟨s.step >>> 1, trialValue, x⟩ := by
  have hnext : (s.step >>> 1).toNat = m := by
    rw [toNat_halfStep]
    omega
  have hfits := h.fits
  have haligned := h.aligned
  have hvalue := hhalf.value
  rw [heven] at haligned hvalue
  constructor
  · dsimp only
    rwa [hnext]
  · dsimp only
    rw [hnext]
    have hbase : 2 * m ∣ s.trialValue.toNat :=
      Nat.dvd_trans (Nat.dvd_mul_left (2 * m) 2) haligned
    rcases hvalue with hodd | rfl
    · rw [hodd]
      exact Nat.dvd_add hbase (Nat.dvd_refl _)
    · exact hbase
  · dsimp only
    rcases hvalue with hodd | rfl <;> omega
  · exact hhalf.low
  · dsimp only
    rw [hnext, ← heven]
    exact hhalf.high

/-- With the step one the half is the value that the search finds. -/
theorem Half.found {s : Search} {trialValue : UInt8} (hhalf : Half f s trialValue)
    (h : Bracket f s) (hone : s.step = 1) (step : UInt8) :
    Found f ⟨step, trialValue, f (s.trialValue + s.step)⟩ := by
  have hfits := h.fits
  have haligned := h.aligned
  have hvalue := hhalf.value
  have hhigh := hhalf.high
  rw [hone, UInt8.toNat_one] at hfits haligned hvalue hhigh
  refine ⟨hhalf.low, ?_, ?_⟩
  · intro v hv
    dsimp only at hv
    exact hhigh v (by omega)
  · dsimp only
    rcases hvalue with hodd | rfl
    · have hsame : s.trialValue + s.step = trialValue := by
        apply UInt8.toNat_inj.mp
        rw [UInt8.toNat_add, hone, hodd, UInt8.toNat_one]
        exact Nat.mod_eq_of_lt (by omega)
      rw [if_pos (by omega), hsame]
    · rw [if_neg (by omega), hone]

/-- A round of the binary search halves the step, or was the last one. -/
theorem Bracket.halve (hf : ∀ v w : UInt8, v ≤ w → f v ≤ f w) {s : Search} (h : Bracket f s) :
    (∃ t, Calibration.halve f s = .inl t ∧ Bracket f t ∧ t.step.toNat < s.step.toNat) ∨
      ∃ r, Calibration.halve f s = .inr r ∧ Found f r := by
  have hhalf := h.half hf
  have hnext := toNat_halfStep s.step
  unfold Calibration.halve
  dsimp only
  rcases eq_one_or_even_of_dvd h.step with hone | ⟨m, heven, hm, hdvd⟩
  · have hstep : s.step = 1 := UInt8.toNat_inj.mp hone
    have hlast : ¬ s.step >>> 1 > 0 := by
      rw [hstep]
      decide
    rw [if_neg hlast]
    exact .inr ⟨_, rfl, hhalf.found h hstep _⟩
  · have hmore : s.step >>> 1 > 0 := by
      apply UInt8.lt_iff_toNat_lt.mpr
      rw [UInt8.toNat_zero]
      omega
    rw [if_pos hmore]
    refine .inl ⟨_, rfl, hhalf.bracket h heven hdvd _, ?_⟩
    dsimp only
    omega

/-- The binary search ends. -/
theorem exists_found (hf : ∀ v w : UInt8, v ≤ w → f v ≤ f w) :
    ∃ r, Loop.Returns (halve f) ⟨128, 0, 0⟩ r ∧ Found f r :=
  Loop.exists_returns (Bracket f) (fun s => s.step.toNat) (Found f)
    (fun _ h => h.halve hf) (bracket_start f)

/-! ## The neighborhood search -/

@[simp] theorem improve_OSCCAL (f : UInt8 → ℕ) (n : Neighborhood) :
    (improve f n).OSCCAL = n.OSCCAL + 1 := by
  unfold improve
  dsimp only
  split <;> rfl

/-- At the end of the range the register wraps around before the bound stops it. -/
theorem neighbor_diverges {t : UInt8} (ht : 254 ≤ t.toNat) (n : Neighborhood) :
    Loop.Diverges (neighbor f t) n := by
  refine Loop.diverges_of_invariant (fun _ => True) ?_ trivial
  intro n _
  have hlt := n.OSCCAL.toNat_lt
  exact ⟨improve f n, if_pos (by omega), trivial⟩

/-- At 0 the register starts behind the bound. -/
theorem neighbor_zero (f : UInt8 → ℕ) (x : Int) :
    Loop.Returns (neighbor f 0) ⟨0 - 1, 0, x⟩ 0 :=
  Loop.returns_of_inr rfl

/-- In between the register takes three values. -/
theorem neighbor_returns {t : UInt8} (hpos : 1 ≤ t.toNat) (hle : t.toNat ≤ 253) (x : Int) :
    Loop.Returns (neighbor f t) ⟨t - 1, t, x⟩
      (improve f (improve f (improve f ⟨t - 1, t, x⟩))).optimumValue := by
  have hbefore : t - 1 + 1 = t := by grind
  have hprev : (t - 1).toNat = t.toNat - 1 :=
    UInt8.toNat_sub_of_le t 1 (UInt8.le_iff_toNat_le.mpr hpos)
  have hone := UInt8.toNat_add_one (x := t) rfl (by omega)
  have htwo := UInt8.toNat_add_one hone (by omega)
  refine .of_inl (if_pos ?_) (.of_inl (if_pos ?_) (.of_inl (if_pos ?_) ?_))
  · dsimp only
    omega
  · simp only [improve_OSCCAL, hbefore]
    omega
  · simp only [improve_OSCCAL, hbefore]
    omega
  · refine Loop.returns_of_inr (if_neg ?_)
    simp only [improve_OSCCAL, hbefore]
    omega

/-! ## When the calibration succeeds -/

theorem targetValue_eq : targetValue = 2356 := rfl

theorem deviation_of_lt {v : UInt8} (h : f v < targetValue) :
    deviation f v = targetValue - f v := by
  unfold deviation
  dsimp only
  rw [if_pos (by omega)]
  omega

theorem deviation_of_ge {v : UInt8} (h : targetValue ≤ f v) :
    deviation f v = f v - targetValue := by
  unfold deviation
  dsimp only
  rw [if_neg (by omega)]

/-- A value is taken when it is closer than the best deviation so far. -/
theorem improve_cases (f : UInt8 → ℕ) (n : Neighborhood) :
    (deviation f n.OSCCAL < n.optimumDev ∧
      deviation f (improve f n).optimumValue = deviation f n.OSCCAL ∧
      (improve f n).optimumDev = deviation f n.OSCCAL) ∨
    (n.optimumDev ≤ deviation f n.OSCCAL ∧
      deviation f (improve f n).optimumValue = deviation f n.optimumValue ∧
      (improve f n).optimumDev = n.optimumDev) := by
  unfold improve
  dsimp only
  split_ifs with hcloser
  · exact .inl ⟨hcloser, rfl, rfl⟩
  · exact .inr ⟨Int.not_lt.mp hcloser, rfl, rfl⟩

/-- What was found is too slow, unless it is 0. -/
theorem Found.slow {r : Search} (h : Found f r) (hpos : 0 < r.trialValue.toNat) :
    f r.trialValue < targetValue := by
  rcases h.low with hzero | hlow
  · rw [hzero] at hpos
    exact absurd hpos (Nat.lt_irrefl 0)
  · exact hlow

/-- The calibration ends with what the neighborhood search returns. -/
theorem calibrates_iff_of_found {r : Search} (hr : Loop.Returns (halve f) ⟨128, 0, 0⟩ r) :
    Calibrates f ↔ ∃ v,
      Loop.Returns (neighbor f r.trialValue) ⟨r.trialValue - 1, r.trialValue, r.x⟩ v ∧
        ∀ w, deviation f v ≤ deviation f w := by
  unfold Calibrates
  rw [exists_comm]
  refine exists_congr fun v => ?_
  rw [exists_and_right]
  exact and_congr_left' (hr.bind_iff _ _ v)

section Monotone

variable (hf : ∀ v w : UInt8, v ≤ w → f v ≤ f w)

include hf

/-- Below the target the larger value is closer. -/
theorem deviation_le_of_lt {v w : UInt8} (hle : v ≤ w)
    (h : f w < targetValue) : deviation f w ≤ deviation f v := by
  have hmono := hf v w hle
  rw [deviation_of_lt h, deviation_of_lt (by omega)]
  omega

/-- From the target on the smaller value is closer. -/
theorem deviation_le_of_ge {v w : UInt8} (hle : v ≤ w)
    (h : targetValue ≤ f v) : deviation f v ≤ deviation f w := by
  have hmono := hf v w hle
  rw [deviation_of_ge h, deviation_of_ge (by omega)]
  omega

/-- The search stops at a value from which the neighborhood search does not come back. -/
theorem calibrates_iff_of_ge {r : Search} (hr : Loop.Returns (halve f) ⟨128, 0, 0⟩ r)
    (hfound : Found f r) (ht : 254 ≤ r.trialValue.toNat) : Calibrates f ↔ Settles f := by
  have hslow := hfound.slow (by omega)
  rw [calibrates_iff_of_found hr]
  constructor
  · rintro ⟨v, hreturns, -⟩
    exact absurd hreturns ((neighbor_diverges ht _).not_returns v)
  · intro hsettles
    have hmono := hf 254 r.trialValue (UInt8.le_iff_toNat_le.mpr ht)
    have htop := hsettles.top
    omega

/-- The search stops at 0, and nothing else is looked at. -/
theorem calibrates_iff_of_zero {r : Search} (hr : Loop.Returns (halve f) ⟨128, 0, 0⟩ r)
    (hfound : Found f r) (ht : r.trialValue = 0) : Calibrates f ↔ Settles f := by
  have hhigh : ∀ v : UInt8, 1 ≤ v.toNat → targetValue ≤ f v := by
    intro v hv
    apply hfound.high
    rw [ht]
    exact hv
  have hreturns :
      Loop.Returns (neighbor f r.trialValue) ⟨r.trialValue - 1, r.trialValue, r.x⟩ 0 := by
    rw [ht]
    exact neighbor_zero f r.x
  rw [calibrates_iff_of_found hr]
  constructor
  · rintro ⟨v, hv, hbest⟩
    obtain rfl := hv.unique hreturns
    refine ⟨hhigh 254 (by decide), fun _ => hbest 1, ?_⟩
    intro t hodd _ hslow
    have hfast := hhigh t (by omega)
    omega
  · intro hsettles
    have hone := hhigh 1 (by decide)
    have hbottom := hsettles.bottom hone
    refine ⟨0, hreturns, fun w => ?_⟩
    rcases Nat.eq_zero_or_pos w.toNat with hw | hw
    · obtain rfl : w = 0 := UInt8.toNat_inj.mp hw
      exact Int.le_refl _
    · have hle : (1 : UInt8) ≤ w := UInt8.le_iff_toNat_le.mpr hw
      exact Int.le_trans hbottom (deviation_le_of_ge hf hle hone)

/-- Next to the target, no value is closer than both neighbors of the target. -/
theorem deviation_le_all_iff {t : UInt8} (hle : t.toNat ≤ 253) (hslow : f t < targetValue)
    (hfast : targetValue ≤ f (t + 1)) (d : Int) :
    (∀ w, d ≤ deviation f w) ↔ d ≤ deviation f t ∧ d ≤ deviation f (t + 1) := by
  have hnext := UInt8.toNat_add_one (x := t) rfl (by omega)
  constructor
  · intro hall
    exact ⟨hall t, hall (t + 1)⟩
  · rintro ⟨hbelow, habove⟩ w
    rcases Nat.lt_or_ge t.toNat w.toNat with hw | hw
    · have hmono : t + 1 ≤ w := UInt8.le_iff_toNat_le.mpr (by omega)
      exact Int.le_trans habove (deviation_le_of_ge hf hmono hfast)
    · exact Int.le_trans hbelow (deviation_le_of_lt hf (UInt8.le_iff_toNat_le.mpr hw) hslow)

/-- The three rounds of the neighborhood search leave a best value, unless the search starts
from the measurement at an odd value that is closer to zero than the next one is to the
target. -/
theorem improved_iff {t : UInt8} (hpos : 1 ≤ t.toNat) (hle : t.toNat ≤ 253)
    (hslow : f t < targetValue) (hfast : targetValue ≤ f (t + 1)) {x : Int}
    (hx : x = f (if t.toNat % 2 = 1 then t else t + 1)) :
    (∀ w, deviation f (improve f (improve f (improve f ⟨t - 1, t, x⟩))).optimumValue ≤
        deviation f w) ↔
      (t.toNat % 2 = 1 → deviation f (t + 1) < deviation f t → deviation f (t + 1) < f t) := by
  have hprev : t - 1 ≤ t := by
    apply UInt8.le_iff_toNat_le.mpr
    rw [UInt8.toNat_sub_of_le t 1 (UInt8.le_iff_toNat_le.mpr hpos)]
    exact Nat.sub_le _ _
  have hbefore : t - 1 + 1 = t := by grind
  have hdeviation := deviation_le_of_lt hf hprev hslow
  have hbelow := deviation_of_lt hslow
  have habove := deviation_of_ge hfast
  have htarget := targetValue_eq
  have hfirst := improve_cases f ⟨t - 1, t, x⟩
  have hsecond := improve_cases f (improve f ⟨t - 1, t, x⟩)
  have hthird := improve_cases f (improve f (improve f ⟨t - 1, t, x⟩))
  rw [deviation_le_all_iff hf hle hslow hfast]
  simp only [improve_OSCCAL, hbefore] at hfirst hsecond hthird
  split_ifs at hx with hodd
  · rcases hfirst with h1 | h1 <;> rcases hsecond with h2 | h2 <;> rcases hthird with h3 | h3 <;>
      omega
  · rcases hfirst with h1 | h1 <;> rcases hsecond with h2 | h2 <;> rcases hthird with h3 | h3 <;>
      omega

/-- The measurement reaches the target behind one value only. -/
theorem Found.eq_of_reached {r : Search} (h : Found f r) (hslow : f r.trialValue < targetValue)
    {t : UInt8} (ht : t.toNat ≤ 253) (hbelow : f t < targetValue)
    (habove : targetValue ≤ f (t + 1)) : t = r.trialValue := by
  have hnext := UInt8.toNat_add_one (x := t) rfl (by omega)
  apply UInt8.toNat_inj.mp
  rcases Nat.lt_trichotomy t.toNat r.trialValue.toNat with hlt | heq | hgt
  · have hmono := hf (t + 1) r.trialValue (UInt8.le_iff_toNat_le.mpr (by omega))
    omega
  · exact heq
  · have hover := h.high t hgt
    omega

/-- The search stops in between, next to the target. -/
theorem calibrates_iff_of_between {r : Search} (hr : Loop.Returns (halve f) ⟨128, 0, 0⟩ r)
    (hfound : Found f r) (hpos : 1 ≤ r.trialValue.toNat) (hle : r.trialValue.toNat ≤ 253) :
    Calibrates f ↔ Settles f := by
  have hnext := UInt8.toNat_add_one (x := r.trialValue) rfl (by omega)
  have hslow := hfound.slow hpos
  have hfast := hfound.high (r.trialValue + 1) (by omega)
  have hreturns := neighbor_returns (f := f) hpos hle r.x
  have himproved := improved_iff hf hpos hle hslow hfast hfound.x
  rw [calibrates_iff_of_found hr]
  constructor
  · rintro ⟨v, hv, hbest⟩
    obtain rfl := hv.unique hreturns
    refine ⟨hfound.high 254 (Nat.lt_succ_of_le hle), ?_, ?_⟩
    · intro hone
      have hmono := hf 1 r.trialValue (UInt8.le_iff_toNat_le.mpr hpos)
      omega
    · intro t hodd ht hbelow habove
      obtain rfl := hfound.eq_of_reached hf hslow ht hbelow habove
      exact himproved.mp hbest hodd
  · intro hsettles
    refine ⟨_, hreturns, himproved.mpr ?_⟩
    intro hodd
    exact hsettles.odd r.trialValue hodd hle hslow hfast

end Monotone

/-- For a measurement that does not decrease, the calibration succeeds if and only if the
measurement settles. -/
theorem calibrates_iff (hf : ∀ v w : UInt8, v ≤ w → f v ≤ f w) : Calibrates f ↔ Settles f := by
  obtain ⟨r, hr, hfound⟩ := exists_found hf
  have hlt := r.trialValue.toNat_lt
  rcases Nat.eq_zero_or_pos r.trialValue.toNat with hzero | hpos
  · exact calibrates_iff_of_zero hf hr hfound (UInt8.toNat_inj.mp hzero)
  · by_cases htop : 254 ≤ r.trialValue.toNat
    · exact calibrates_iff_of_ge hf hr hfound htop
    · exact calibrates_iff_of_between hf hr hfound hpos (by omega)

/-- A measurement that grows with the register. -/
def ramp (OSCCAL : UInt8) : ℕ := 2228 + OSCCAL.toNat

theorem calibrates_ramp : Calibrates ramp := by
  have hramp : ∀ v w : UInt8, v ≤ w → ramp v ≤ ramp w := by
    intro v w hle
    exact Nat.add_le_add_left (UInt8.le_iff_toNat_le.mp hle) 2228
  refine (calibrates_iff hramp).mpr ⟨by decide, fun hone => absurd hone (by decide), ?_⟩
  intro t _ _ hslow _ hcloser
  have hdeviation := deviation_of_lt hslow
  have htarget := targetValue_eq
  have hmin : 2228 ≤ ramp t := Nat.le_add_right 2228 t.toNat
  omega

/-- A measurement that times out. -/
def silent (_ : UInt8) : ℕ := 0

/-- Without frames on the bus the calibration does not end. -/
theorem not_calibrates :
    (∀ v w : UInt8, v ≤ w → silent v ≤ silent w) ∧
      (∀ fuel, calibrateOscillator silent fuel = none) ∧ ¬ Calibrates silent := by
  have hsearch : Loop.Returns (halve silent) ⟨128, 0, 0⟩ ⟨0, 255, 0⟩ := ⟨8, rfl⟩
  have hdiverges : ∀ fuel, calibrateOscillator silent fuel = none := by
    intro fuel
    rw [Option.eq_none_iff_forall_ne_some]
    intro v hv
    have hreturns := (hsearch.bind_iff (fun r => neighbor silent r.trialValue)
      (fun r => ⟨r.trialValue - 1, r.trialValue, r.x⟩) v).mp ⟨fuel, hv⟩
    exact (neighbor_diverges (by decide) _).not_returns v hreturns
  refine ⟨fun _ _ _ => Nat.le_refl 0, hdiverges, ?_⟩
  rintro ⟨fuel, v, hv, -⟩
  rw [hdiverges fuel] at hv
  cases hv

end Calibration

end RfidTool

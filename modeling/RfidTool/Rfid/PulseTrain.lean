import RfidTool.Rfid.CodingDecoder

/-!
# Pulse trains

What a tag puts on the air. A coding turns bits into levels of half-bits, two for
each bit, of which never three in a row are equal; a pulse is a run of equal ones.
`Jittered r` are the samples that may be measured for a pulse at the carrier
divider `r`. `CarrierDecoder.Tuned` is what such samples keep: at the divider of
the train there are no errors, and at another one only short or only long pulses
are ever counted, so it never synchronises.
-/

namespace RfidTool

structure Pulse where
  isHigh : Bool
  isLong : Bool
  deriving DecidableEq, Repr

/-- The event of a pulse that the carrier decoder has recognised. -/
def Pulse.event (p : Pulse) : CarrierEvent := .newPulse p.isHigh p.isLong

/-- Bit `b` is sent as the half-levels `b` and `!b`. -/
def manchesterLevel (bits : ℕ → Bool) (p : ℕ) : Bool :=
  if p % 2 = 0 then bits (p / 2) else !bits (p / 2)

/-- The level changes at the end of every bit, and in the middle of a zero. -/
def biphaseLevel (first : Bool) (bits : ℕ → Bool) : ℕ → Bool
  | 0 => first
  | p + 1 =>
    if p % 2 = 0 ∧ bits (p / 2) then biphaseLevel first bits p else !biphaseLevel first bits p

/-- The level of half-bit `p`. A biphase train may begin with either level. -/
def Coding.level (c : Coding) (first : Bool) (bits : ℕ → Bool) : ℕ → Bool :=
  match c with
  | .manchester => manchesterLevel bits
  | .biphase => biphaseLevel first bits

/-- Where the pulse behind the one at half-bit `q` starts. -/
def nextPulse (h : ℕ → Bool) (q : ℕ) : ℕ := if h (q + 1) = h q then q + 2 else q + 1

/-- The pulses from half-bit `q` on. -/
def pulses (h : ℕ → Bool) : ℕ → ℕ → List Pulse
  | _, 0 => []
  | q, n + 1 => ⟨h q, h (q + 1) == h q⟩ :: pulses h (nextPulse h q) n

/-- A sample of a pulse: short ones are `4r` and long ones `8r` microseconds, give or take `r`. -/
structure Jittered (r : ℕ) (p : Pulse) (x : Sample) : Prop where
  level : x.isHigh = p.isHigh
  min : (if p.isLong then 8 else 4) * r - r ≤ x.getLengthUs
  max : x.getLengthUs ≤ (if p.isLong then 8 else 4) * r + r

/-- The ideal sample of a pulse. -/
def Pulse.sample (r : ℕ) (p : Pulse) : Sample := ⟨(if p.isLong then 8 else 4) * r, p.isHigh⟩

theorem jittered_sample (r : ℕ) (ps : List Pulse) :
    List.Forall₂ (Jittered r) ps (ps.map (Pulse.sample r)) := by
  induction ps with
  | nil => exact .nil
  | cons p ps ih =>
    refine .cons ⟨rfl, ?_, ?_⟩ ih
    all_goals
      simp only [Pulse.sample, Sample.getLengthUs]
      omega

/-! ## Levels of half-bits -/

theorem manchesterLevel_even (bits : ℕ → Bool) (i : ℕ) :
    manchesterLevel bits (2 * i) = bits i := by
  rw [manchesterLevel, if_pos (by omega), Nat.mul_div_cancel_left i (by decide)]

theorem manchesterLevel_odd (bits : ℕ → Bool) (i : ℕ) :
    manchesterLevel bits (2 * i + 1) = !bits i := by
  have hindex : (2 * i + 1) / 2 = i := by omega
  rw [manchesterLevel, if_neg (by omega), hindex]

theorem biphaseLevel_odd (first : Bool) (bits : ℕ → Bool) (i : ℕ) :
    biphaseLevel first bits (2 * i + 1) =
      if bits i then biphaseLevel first bits (2 * i) else !biphaseLevel first bits (2 * i) := by
  have hindex : 2 * i % 2 = 0 := by omega
  have hindex' : 2 * i / 2 = i := by omega
  rw [biphaseLevel, hindex, hindex']
  simp

theorem biphaseLevel_even (first : Bool) (bits : ℕ → Bool) (i : ℕ) :
    biphaseLevel first bits (2 * i + 2) = !biphaseLevel first bits (2 * i + 1) := by
  rw [biphaseLevel, if_neg (by omega)]

/-- Pulses are at most two half-bits long, so the levels alternate. -/
theorem Coding.level_nextPulse (c : Coding) (first : Bool) (bits : ℕ → Bool) (q : ℕ) :
    c.level first bits (nextPulse (c.level first bits) q) = !c.level first bits q := by
  rw [nextPulse]
  split
  case isTrue heq =>
    rcases Nat.even_or_odd' q with ⟨i, rfl | rfl⟩
    · cases c with
      | manchester =>
        simp only [Coding.level, manchesterLevel_even, manchesterLevel_odd] at heq
        cases h : bits i <;> simp [h] at heq
      | biphase =>
        simp only [Coding.level] at heq ⊢
        rw [biphaseLevel_even, heq]
    · cases c with
      | manchester =>
        simp only [Coding.level] at heq ⊢
        have hindex : 2 * i + 1 + 1 = 2 * (i + 1) := by omega
        rw [hindex] at heq
        have hindex : 2 * i + 1 + 2 = 2 * (i + 1) + 1 := by omega
        rw [← heq, hindex, manchesterLevel_even, manchesterLevel_odd]
      | biphase =>
        simp only [Coding.level] at heq
        rw [biphaseLevel_even] at heq
        cases h : biphaseLevel first bits (2 * i + 1) <;> simp [h] at heq
  case isFalse hne =>
    cases h : c.level first bits q <;> simpa [h] using hne

@[simp] theorem length_pulses (h : ℕ → Bool) (q n : ℕ) : (pulses h q n).length = n := by
  induction n generalizing q with
  | zero => rfl
  | succ n ih => rw [pulses, List.length_cons, ih]

/-- What is left of a train is a train. -/
theorem drop_pulses (h : ℕ → Bool) (q n a : ℕ) :
    (pulses h q n).drop a = pulses h ((nextPulse h)^[a] q) (n - a) := by
  induction a generalizing q n with
  | zero => rfl
  | succ a ih =>
    cases n with
    | zero => simp [pulses]
    | succ n => rw [pulses, List.drop_succ_cons, ih, Nat.succ_sub_succ, Function.iterate_succ_apply]

/-! ## Where pulses start -/

theorem lt_nextPulse (h : ℕ → Bool) (q : ℕ) : q < nextPulse h q := by
  unfold nextPulse
  split <;> omega

theorem le_iterate_nextPulse (h : ℕ → Bool) (q a : ℕ) : q + a ≤ (nextPulse h)^[a] q := by
  induction a generalizing q with
  | zero => exact le_rfl
  | succ a ih =>
    have := lt_nextPulse h q
    have := ih (nextPulse h q)
    rw [Function.iterate_succ_apply]
    omega

theorem iterate_nextPulse_le (h : ℕ → Bool) (q a : ℕ) : (nextPulse h)^[a] q ≤ q + 2 * a := by
  induction a generalizing q with
  | zero => exact le_rfl
  | succ a ih =>
    have hnext : nextPulse h q ≤ q + 2 := by
      unfold nextPulse
      split <;> omega
    have := ih (nextPulse h q)
    rw [Function.iterate_succ_apply]
    omega

theorem iterate_nextPulse_lt {h : ℕ → Bool} {q a b : ℕ} (hab : a < b) :
    (nextPulse h)^[a] q < (nextPulse h)^[b] q := by
  have := le_iterate_nextPulse h ((nextPulse h)^[a] q) (b - a)
  have hindex : b - a + a = b := by omega
  rw [← Function.iterate_add_apply, hindex] at this
  omega

theorem le_of_iterate_nextPulse_le {h : ℕ → Bool} {q a b : ℕ}
    (hle : (nextPulse h)^[a] q ≤ (nextPulse h)^[b] q) : a ≤ b := by
  by_contra hlt
  have := iterate_nextPulse_lt (h := h) (q := q) (not_le.mp hlt)
  omega

/-- The pulses reach every half-bit at which the level changes. -/
theorem exists_iterate_eq {h : ℕ → Bool} {q m : ℕ} (hqm : q ≤ m)
    (hm : q < m → h (m - 1) ≠ h m) : ∃ a, (nextPulse h)^[a] q = m := by
  induction hd : m - q using Nat.strong_induction_on generalizing q with
  | _ d ih =>
    rcases Nat.eq_or_lt_of_le hqm with rfl | hlt
    · exact ⟨0, rfl⟩
    · have hnext : nextPulse h q ≤ m := by
        unfold nextPulse
        split
        case isTrue heq =>
          by_contra hgt
          obtain rfl : m = q + 1 := by omega
          exact hm hlt heq.symm
        case isFalse => omega
      have := lt_nextPulse h q
      obtain ⟨a, ha⟩ := ih (m - nextPulse h q) (by omega) hnext (fun _ => hm hlt) rfl
      exact ⟨a + 1, by rw [Function.iterate_succ_apply, ha]⟩

theorem pulses_add (h : ℕ → Bool) (q a b : ℕ) :
    pulses h q (a + b) = pulses h q a ++ pulses h ((nextPulse h)^[a] q) b := by
  induction a generalizing q with
  | zero => rw [Nat.zero_add]; rfl
  | succ a ih =>
    rw [Nat.add_right_comm, pulses, ih, pulses, Function.iterate_succ_apply]
    rfl

theorem take_pulses (h : ℕ → Bool) (q : ℕ) {a n : ℕ} (ha : a ≤ n) :
    (pulses h q n).take a = pulses h q a := by
  obtain ⟨b, rfl⟩ := Nat.exists_eq_add_of_le ha
  rw [pulses_add, List.take_left' (length_pulses h q a)]

/-- Where the level changes at every half-bit, the pulses are short. -/
theorem pulses_short {h : ℕ → Bool} {q n : ℕ} (hne : ∀ j < n, h (q + j + 1) ≠ h (q + j)) :
    (∀ p ∈ pulses h q n, p.isLong = false) ∧ (nextPulse h)^[n] q = q + n := by
  induction n generalizing q with
  | zero => exact ⟨by simp [pulses], rfl⟩
  | succ n ih =>
    have hnext : nextPulse h q = q + 1 := if_neg (hne 0 (by omega))
    obtain ⟨hshort, hend⟩ := ih (q := q + 1) fun j hj => by
      have := hne (j + 1) (by omega)
      rwa [show q + (j + 1) = q + 1 + j by omega] at this
    rw [pulses, Function.iterate_succ_apply, hnext]
    refine ⟨?_, by rw [hend]; omega⟩
    intro p hp
    rcases List.mem_cons.mp hp with rfl | hp
    · simpa using hne 0 (by omega)
    · exact hshort p hp

/-- Where the level changes at every other half-bit, the pulses are long. -/
theorem pulses_long {h : ℕ → Bool} {q n : ℕ} (heq : ∀ j < n, h (q + 2 * j + 1) = h (q + 2 * j)) :
    (∀ p ∈ pulses h q n, p.isLong = true) ∧ (nextPulse h)^[n] q = q + 2 * n := by
  induction n generalizing q with
  | zero => exact ⟨by simp [pulses], rfl⟩
  | succ n ih =>
    have hnext : nextPulse h q = q + 2 := if_pos (heq 0 (by omega))
    obtain ⟨hlong, hend⟩ := ih (q := q + 2) fun j hj => by
      have := heq (j + 1) (by omega)
      rwa [show q + 2 * (j + 1) = q + 2 + 2 * j by omega] at this
    rw [pulses, Function.iterate_succ_apply, hnext]
    refine ⟨?_, by rw [hend]; omega⟩
    intro p hp
    rcases List.mem_cons.mp hp with rfl | hp
    · simpa using heq 0 (by omega)
    · exact hlong p hp

/-! ## Trains of a number of repetitions -/

/-- The level of a train of `e` half-bits: its end is the end of its last pulse. -/
def cut (h : ℕ → Bool) (e p : ℕ) : Bool := if p < e then h p else !h (e - 1)

/-- The pulses from half-bit `q` on that end at half-bit `e` or before, `n` at most. -/
def pulsesUpTo (h : ℕ → Bool) (e : ℕ) : ℕ → ℕ → List Pulse
  | 0, _ => []
  | n + 1, q =>
    if nextPulse h q ≤ e then ⟨h q, h (q + 1) == h q⟩ :: pulsesUpTo h e n (nextPulse h q) else []

/-- The pulses that end within the first `m` of `n` back-to-back repetitions of 64 bits. -/
def train (h : ℕ → Bool) (n m : ℕ) : List Pulse :=
  pulsesUpTo (cut h (128 * n)) (128 * m) (128 * m) 0

theorem pulsesUpTo_eq (h : ℕ → Bool) (e n : ℕ) {q : ℕ} (hq : q ≤ e) (hn : e ≤ q + n) :
    ∃ k, pulsesUpTo h e n q = pulses h q k ∧ (nextPulse h)^[k] q ≤ e ∧
      e < (nextPulse h)^[k + 1] q := by
  induction n generalizing q with
  | zero =>
    obtain rfl : q = e := by omega
    exact ⟨0, rfl, le_rfl, lt_nextPulse h q⟩
  | succ n ih =>
    rw [pulsesUpTo]
    split
    case isTrue hle =>
      have := lt_nextPulse h q
      obtain ⟨k, hk, hend, hlt⟩ := ih hle (by omega)
      exact ⟨k + 1, by rw [hk, pulses], hend, hlt⟩
    case isFalse hgt => exact ⟨0, rfl, hq, not_le.mp hgt⟩

/-- A train begins with the pulses of its first repetitions. -/
theorem train_take (h : ℕ → Bool) {n m : ℕ} (hm : m ≤ n) :
    (train h n m).length ≤ (train h n n).length ∧
      (train h n n).take (train h n m).length = train h n m := by
  obtain ⟨k, hk, hend, -⟩ :=
    pulsesUpTo_eq (cut h (128 * n)) (128 * m) (128 * m) (Nat.zero_le _) (by omega)
  obtain ⟨l, hl, -, hlt⟩ :=
    pulsesUpTo_eq (cut h (128 * n)) (128 * n) (128 * n) (Nat.zero_le _) (by omega)
  have hkl : k ≤ l := by
    by_contra hgt
    have : l + 1 ≤ k := by omega
    rcases Nat.lt_or_eq_of_le this with hlt' | rfl
    · have := iterate_nextPulse_lt (h := cut h (128 * n)) (q := 0) hlt'
      omega
    · omega
  rw [train, train, hk, hl, length_pulses, length_pulses]
  exact ⟨hkl, take_pulses _ _ hkl⟩

/-! ## The carrier decoder on a train -/

namespace CarrierDecoder

/-- The detector on a train of divider `r`: no errors at `r`, only one kind of pulse elsewhere. -/
structure Tuned (r : ℕ) (d : CarrierDecoder) : Prop where
  ranged : d.Ranged
  right : d.carrierDivider.toNat = r → d.errorCount = 0
  slower : d.carrierDivider.toNat < r → d.hasSync = false ∧ d.loCount = 0
  faster : r < d.carrierDivider.toNat → d.hasSync = false ∧ d.hiCount = 0

theorem tuned_reset (r : ℕ) : Tuned r reset :=
  ⟨ranged_reset, fun _ => rfl, fun _ => ⟨rfl, rfl⟩, fun _ => ⟨rfl, rfl⟩⟩

theorem tuned_nextCarrier {r : ℕ} {d : CarrierDecoder} (h : d.Tuned r) :
    d.nextCarrier.1.Tuned r :=
  ⟨ranged_nextCarrier h.ranged, fun _ => rfl, fun _ => ⟨rfl, rfl⟩, fun _ => ⟨rfl, rfl⟩⟩

theorem tuned_nextWindow {r : ℕ} {d : CarrierDecoder} (h : d.Tuned r) : d.nextWindow.Tuned r where
  ranged := ranged_nextWindow h.ranged
  right heq := by
    rw [nextWindow_errorCount, h.right (by simpa using heq), ite_self]
  slower hlt := by simpa using h.slower (by simpa using hlt)
  faster hlt := by simpa using h.faster (by simpa using hlt)

/-- Dividers differ by a factor of two at least. -/
theorem Ranged.divider_cases {r : ℕ} {d : CarrierDecoder} (h : d.Ranged)
    (hr : r = 16 ∨ r = 32 ∨ r = 64) :
    d.carrierDivider.toNat = r ∨ 2 * d.carrierDivider.toNat ≤ r ∨
      2 * r ≤ d.carrierDivider.toNat := by
  rcases h.divider with h | h | h <;> rcases hr with rfl | rfl | rfl <;> simp [h]

/-- How a sample of the train is classified. -/
theorem Tuned.classify {r : ℕ} {d : CarrierDecoder} {p : Pulse} {x : Sample} (h : d.Tuned r)
    (hr : r = 16 ∨ r = 32 ∨ r = 64) (hx : Jittered r p x) :
    (d.carrierDivider.toNat = r ∧ d.isShort x.getLengthUs = !p.isLong ∧
        d.isLong x.getLengthUs = p.isLong) ∨
      (d.carrierDivider.toNat < r ∧ d.isShort x.getLengthUs = false) ∨
      (r < d.carrierDivider.toNat ∧ d.isLong x.getLengthUs = false) := by
  have hshort := h.ranged.isShort_iff x.getLengthUs
  have hlong := h.ranged.isLong_iff x.getLengthUs
  obtain ⟨-, hmin, hmax⟩ := hx
  have hpos : 0 < r := by omega
  rcases h.ranged.divider_cases hr with heq | hlt | hgt
  · left
    rw [heq] at hshort hlong
    cases hp : p.isLong <;> simp only [hp, if_true, Bool.false_eq_true, if_false] at hmin hmax
    · exact ⟨heq, hshort.mpr (by omega), Bool.eq_false_of_not_eq_true (hlong.not.mpr (by omega))⟩
    · exact ⟨heq, Bool.eq_false_of_not_eq_true (hshort.not.mpr (by omega)), hlong.mpr (by omega)⟩
  · right; left
    refine ⟨by omega, Bool.eq_false_of_not_eq_true (hshort.not.mpr ?_)⟩
    split at hmin <;> omega
  · right; right
    refine ⟨by omega, Bool.eq_false_of_not_eq_true (hlong.not.mpr ?_)⟩
    split at hmax <;> omega

theorem Tuned.classify_of_eq {r : ℕ} {d : CarrierDecoder} {p : Pulse} {x : Sample}
    (h : d.Tuned r) (hr : r = 16 ∨ r = 32 ∨ r = 64) (hdiv : d.carrierDivider.toNat = r)
    (hx : Jittered r p x) :
    d.isShort x.getLengthUs = (!p.isLong) ∧ d.isLong x.getLengthUs = p.isLong := by
  rcases h.classify hr hx with ⟨-, hshort, hlong⟩ | ⟨hlt, -⟩ | ⟨hgt, -⟩
  · exact ⟨hshort, hlong⟩
  · exact absurd hdiv hlt.ne
  · exact absurd hdiv hgt.ne'

/-- The only divider with synchronisation is the one of the train. -/
theorem Tuned.carrierDivider_eq {r : ℕ} {d : CarrierDecoder} (h : d.Tuned r)
    (hsync : d.hasSync = true) : d.carrierDivider.toNat = r := by
  have hslower := h.slower
  have hfaster := h.faster
  grind

/-- With synchronisation every pulse is notified as it is. -/
theorem Tuned.checkSample_follow {r : ℕ} {d : CarrierDecoder} {p : Pulse} {x : Sample}
    (h : d.Tuned r) (hr : r = 16 ∨ r = 32 ∨ r = 64) (hsync : d.hasSync = true)
    (hx : Jittered r p x) : d.checkSample x = (d.nextWindow, some p.event) := by
  have hdiv := h.carrierDivider_eq hsync
  have herr : d.errorCount < 10 := by
    rw [h.right hdiv]
    decide
  have hhigh : (!x.isLow) = p.isHigh := by rw [Sample.isLow, Bool.not_not, hx.level]
  obtain ⟨hshort, hlong⟩ :=
    (tuned_nextWindow h).classify_of_eq hr (by rw [nextWindow_carrierDivider, hdiv]) hx
  rw [checkSample_of_hasSync herr hsync, follow, hhigh, hshort, hlong]
  cases hp : p.isLong <;> simp [Pulse.event, hp]

theorem Tuned.count {r : ℕ} {d : CarrierDecoder} {p : Pulse} {x : Sample} (h : d.Tuned r)
    (hr : r = 16 ∨ r = 32 ∨ r = 64) (hx : Jittered r p x) :
    (d.count x.getLengthUs).Tuned r := by
  have hclass := h.classify hr hx
  refine ⟨ranged_count h.ranged _, ?_, ?_, ?_⟩
  all_goals rw [count_carrierDivider]
  · intro heq
    rcases hclass with ⟨-, hshort, hlong⟩ | ⟨hlt, -⟩ | ⟨hgt, -⟩
    · rw [count_errorCount, hshort, hlong, Bool.not_or_self, if_pos rfl, h.right heq]
    · exact absurd heq hlt.ne
    · exact absurd heq hgt.ne'
  · intro hlt
    rcases hclass with ⟨heq, -, -⟩ | ⟨-, hshort⟩ | ⟨hgt, -⟩
    · exact absurd heq hlt.ne
    · rw [count_hasSync, count_loCount, hshort]
      exact h.slower hlt
    · exact absurd hlt hgt.not_gt
  · intro hgt
    rcases hclass with ⟨heq, -, -⟩ | ⟨hlt, -⟩ | ⟨-, hlong⟩
    · exact absurd heq hgt.ne'
    · exact absurd hgt hlt.not_gt
    · rw [count_hasSync, count_hiCount, hlong, Bool.and_false]
      exact h.faster hgt

theorem Tuned.search {r : ℕ} {d : CarrierDecoder} {p : Pulse} {x : Sample} (h : d.Tuned r)
    (hr : r = 16 ∨ r = 32 ∨ r = 64) (hx : Jittered r p x) :
    (d.search x.getLengthUs).1.Tuned r := by
  have hcount := h.count hr hx
  rcases search_fst d x.getLengthUs with heq | ⟨heq, hhi, hlo, -⟩
  · rw [heq]
    exact hcount
  · rw [heq]
    obtain ⟨hranged, hright, hslower, hfaster⟩ := hcount
    refine ⟨⟨hranged.1, hranged.2, hranged.3, hranged.4, hranged.5⟩, hright, ?_, ?_⟩
    · intro hlt
      rw [(hslower hlt).2] at hlo
      exact absurd hlo (by decide)
    · intro hgt
      rw [(hfaster hgt).2] at hhi
      exact absurd hhi (by decide)

/-- Without synchronisation nothing but changes of the synchronisation is notified. -/
theorem Tuned.checkSample_search {r : ℕ} {d : CarrierDecoder} {p : Pulse} {x : Sample}
    (h : d.Tuned r) (hr : r = 16 ∨ r = 32 ∨ r = 64) (hsync : d.hasSync = false)
    (hx : Jittered r p x) :
    (d.checkSample x).1.Tuned r ∧
      ((d.checkSample x).2 = none ∨ ∃ hasSync divider,
        (d.checkSample x).2 = some (.syncChanged hasSync divider)) := by
  rcases UInt8.lt_or_le d.errorCount 10 with herr | herr
  · rw [checkSample_of_not_hasSync herr hsync]
    refine ⟨(tuned_nextWindow h).search hr hx, ?_⟩
    rcases search_snd d.nextWindow x.getLengthUs with hnone | hsome
    · exact .inl hnone
    · exact .inr ⟨_, _, hsome⟩
  · rw [checkSample_of_ten_le herr]
    exact ⟨tuned_nextCarrier h, .inr ⟨false, 0, rfl⟩⟩

theorem Tuned.checkSample {r : ℕ} {d : CarrierDecoder} {p : Pulse} {x : Sample} (h : d.Tuned r)
    (hr : r = 16 ∨ r = 32 ∨ r = 64) (hx : Jittered r p x) : (d.checkSample x).1.Tuned r := by
  cases hsync : d.hasSync with
  | true =>
    rw [h.checkSample_follow hr hsync hx]
    exact tuned_nextWindow h
  | false => exact (h.checkSample_search hr hsync hx).1

theorem Tuned.final {r : ℕ} (hr : r = 16 ∨ r = 32 ∨ r = 64) {ps : List Pulse}
    {xs : List Sample} (hxs : List.Forall₂ (Jittered r) ps xs) {d : CarrierDecoder}
    (h : d.Tuned r) : (machine.final d xs).Tuned r := by
  induction hxs generalizing d with
  | nil => exact h
  | cons hx _ ih => exact ih (h.checkSample hr hx)

/-- With synchronisation a train is notified pulse by pulse, and none is lost. -/
theorem Tuned.follow_train {r : ℕ} (hr : r = 16 ∨ r = 32 ∨ r = 64) {ps : List Pulse}
    {xs : List Sample} (hxs : List.Forall₂ (Jittered r) ps xs) {d : CarrierDecoder}
    (h : d.Tuned r) (hsync : d.hasSync = true) :
    (machine.final d xs).Tuned r ∧ (machine.final d xs).hasSync = true ∧
      (machine.final d xs).carrierDivider = d.carrierDivider ∧
      machine.output d xs = ps.map Pulse.event := by
  induction hxs generalizing d with
  | nil => exact ⟨h, hsync, rfl, rfl⟩
  | cons hx _ ih =>
    have hstep := h.checkSample_follow hr hsync hx
    obtain ⟨htuned, hfinal, hdiv, hout⟩ :=
      ih (tuned_nextWindow h) (by rw [nextWindow_hasSync, hsync])
    rw [Transducer.final_cons, Transducer.output_cons, machine_step, hstep]
    exact ⟨htuned, hfinal, by rw [hdiv, nextWindow_carrierDivider], by rw [hout]; rfl⟩

/-- A train is notified from some pulse on; before that there are only changes of
the synchronisation. -/
theorem Tuned.output_train {r : ℕ} (hr : r = 16 ∨ r = 32 ∨ r = 64) {ps : List Pulse}
    {xs : List Sample} (hxs : List.Forall₂ (Jittered r) ps xs) {d : CarrierDecoder}
    (h : d.Tuned r) (hsync : d.hasSync = false) :
    ∃ changes m, machine.output d xs = changes ++ (ps.drop m).map Pulse.event ∧
      ∀ e ∈ changes, ∃ hasSync divider, e = .syncChanged hasSync divider := by
  induction hxs generalizing d with
  | nil => exact ⟨[], 0, rfl, by simp⟩
  | @cons p x ps xs hx hxs ih =>
    obtain ⟨htuned, hout⟩ := h.checkSample_search hr hsync hx
    have hhead : ∀ e ∈ (d.checkSample x).2.toList,
        ∃ hasSync divider, e = CarrierEvent.syncChanged hasSync divider := by
      rcases hout with hout | ⟨hasSync, divider, hout⟩
      · simp [hout]
      · intro e he
        exact ⟨hasSync, divider, by simpa [hout, eq_comm] using he⟩
    rw [Transducer.output_cons, machine_step]
    cases hnext : (d.checkSample x).1.hasSync with
    | true =>
      obtain ⟨-, -, -, htrain⟩ := Tuned.follow_train hr hxs htuned hnext
      exact ⟨_, 1, by rw [htrain]; rfl, hhead⟩
    | false =>
      obtain ⟨changes, m, htrain, hchanges⟩ := ih htuned hnext
      refine ⟨(d.checkSample x).2.toList ++ changes, m + 1, ?_, ?_⟩
      · rw [htrain, List.append_assoc]
        rfl
      · intro e he
        rcases List.mem_append.mp he with he | he
        · exact hhead e he
        · exact hchanges e he

end CarrierDecoder

end RfidTool

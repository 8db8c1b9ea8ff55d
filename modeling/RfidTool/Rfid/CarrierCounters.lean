import RfidTool.Rfid.CarrierDecoder

/-!
# The byte-wide counters of the carrier decoder

`UnboundedCarrierDecoder` is the detector with natural numbers for its four counters.
`pulseCount` and `errorCount` stay far below 256, but `loCount` and `hiCount` are cleared by
a change of the divider only, and wrap when a search takes 256 pulses of one kind. The
detector misses a synchronisation when one of the two has just wrapped to at most four, and
after that it notifies less than the unbounded one, whatever follows. Calls of `checkPulses`
one after the other are one run over all their samples.

## Main definitions

* `UnboundedCarrierDecoder.machine`: the detector with unbounded counters.
* `UnboundedCarrierDecoder.narrow`: its state with the counters cut down to bytes.
* `CarrierDecoder.Overflows`: the samples at which a counter wraps.
* `UnboundedCarrierDecoder.Exceeds`: the samples at which a search takes too many pulses.
* `UnboundedCarrierDecoder.Wraps`: the samples at which a wrapped counter matters.
-/

namespace RfidTool

/-- While the detector searches, the sample makes `loCount` or `hiCount` smaller. -/
def CarrierDecoder.Overflows (d : CarrierDecoder) (sample : Sample) : Prop :=
  (d.errorCount < CarrierDecoder.ERROR_TRESHOLD ∧ d.hasSync = false) ∧
    ((d.checkSample sample).1.loCount < d.loCount ∨ (d.checkSample sample).1.hiCount < d.hiCount)

instance (d : CarrierDecoder) (x : Sample) : Decidable (d.Overflows x) :=
  inferInstanceAs (Decidable (_ ∧ _))

/-- `CarrierDecoder` with unbounded counters. -/
structure UnboundedCarrierDecoder where
  longMin : UInt16
  longMax : UInt16
  shortMin : UInt16
  shortMax : UInt16
  pulseCount : ℕ
  loCount : ℕ
  hiCount : ℕ
  errorCount : ℕ
  carrierDivider : UInt8
  hasSync : Bool
  deriving DecidableEq, Repr

namespace UnboundedCarrierDecoder

def isShort (u : UnboundedCarrierDecoder) (pulse : Int) : Bool :=
  decide (pulse ≥ u.shortMin.toNat) && decide (pulse ≤ u.shortMax.toNat)

def isLong (u : UnboundedCarrierDecoder) (pulse : Int) : Bool :=
  decide (pulse ≥ u.longMin.toNat) && decide (pulse ≤ u.longMax.toNat)

def updatePulseRange (u : UnboundedCarrierDecoder) : UnboundedCarrierDecoder :=
  let pulseLength := (u.carrierDivider.toUInt16 * CarrierDecoder.CARRIER_PULSE_LENGTH) / 2
  let delta := pulseLength >>> 2
  { u with
    shortMin := pulseLength - delta
    shortMax := pulseLength + delta
    longMin := (pulseLength <<< 1) - delta
    longMax := (pulseLength <<< 1) + delta }

def reset : UnboundedCarrierDecoder :=
  updatePulseRange ⟨0, 0, 0, 0, 0, 0, 0, 0, 16, false⟩

def nextCarrier (u : UnboundedCarrierDecoder) : UnboundedCarrierDecoder × Option CarrierEvent :=
  (updatePulseRange { u with
    hasSync := false, loCount := 0, hiCount := 0, errorCount := 0, pulseCount := 0
    carrierDivider := CarrierDecoder.nextDivider u.carrierDivider }, some (.syncChanged false 0))

def count (u : UnboundedCarrierDecoder) (lengthUs : Int) : UnboundedCarrierDecoder :=
  if u.isShort lengthUs then { u with loCount := u.loCount + 1 }
  else if u.isLong lengthUs then { u with hiCount := u.hiCount + 1 }
  else { u with errorCount := u.errorCount + 1 }

/-- Five short and five long pulses have been counted, and fewer than four bad ones. -/
def Decided (u : UnboundedCarrierDecoder) : Prop :=
  u.hiCount > 4 ∧ u.loCount > 4 ∧ u.errorCount < 4

instance (u : UnboundedCarrierDecoder) : Decidable u.Decided :=
  inferInstanceAs (Decidable (_ ∧ _))

def search (u : UnboundedCarrierDecoder) (lengthUs : Int) :
    UnboundedCarrierDecoder × Option CarrierEvent :=
  let u := u.count lengthUs
  if u.Decided then ({ u with hasSync := true }, some (.syncChanged true u.carrierDivider))
  else (u, none)

def follow (u : UnboundedCarrierDecoder) (sample : Sample) :
    UnboundedCarrierDecoder × Option CarrierEvent :=
  let isHigh := !sample.isLow
  if u.isLong sample.getLengthUs then (u, some (.newPulse isHigh true))
  else if u.isShort sample.getLengthUs then (u, some (.newPulse isHigh false))
  else ({ u with errorCount := u.errorCount + 1 }, none)

def nextWindow (u : UnboundedCarrierDecoder) : UnboundedCarrierDecoder :=
  if u.pulseCount + 1 = 50 then { u with pulseCount := 0, errorCount := 0 }
  else { u with pulseCount := u.pulseCount + 1 }

def checkSample (u : UnboundedCarrierDecoder) (sample : Sample) :
    UnboundedCarrierDecoder × Option CarrierEvent :=
  if u.errorCount ≥ 10 then u.nextCarrier
  else if u.nextWindow.hasSync then u.nextWindow.follow sample
  else u.nextWindow.search sample.getLengthUs

def machine : Transducer UnboundedCarrierDecoder Sample CarrierEvent := ⟨checkSample⟩

@[simp] theorem machine_step (u : UnboundedCarrierDecoder) (x : Sample) :
    machine.step u x = u.checkSample x := rfl

/-- The state with the counters cut down to bytes. -/
def narrow (u : UnboundedCarrierDecoder) : CarrierDecoder where
  longMin := u.longMin
  longMax := u.longMax
  shortMin := u.shortMin
  shortMax := u.shortMax
  pulseCount := .ofNat u.pulseCount
  loCount := .ofNat u.loCount
  hiCount := .ofNat u.hiCount
  errorCount := .ofNat u.errorCount
  carrierDivider := u.carrierDivider
  hasSync := u.hasSync

/-- The state cut down to bytes, with these two counts and this synchronisation. -/
def narrowWith (u : UnboundedCarrierDecoder) (loCount hiCount : UInt8) (hasSync : Bool) :
    CarrierDecoder :=
  { u.narrow with loCount := loCount, hiCount := hiCount, hasSync := hasSync }

/-- With this sample there are more than four short and four long pulses and fewer than four
bad ones, but one of the two numbers is at most four in a byte. -/
def Wraps (u : UnboundedCarrierDecoder) (sample : Sample) : Prop :=
  (u.errorCount < 10 ∧ u.hasSync = false) ∧ (u.nextWindow.count sample.getLengthUs).Decided ∧
    ((u.nextWindow.count sample.getLengthUs).hiCount % 256 ≤ 4 ∨
      (u.nextWindow.count sample.getLengthUs).loCount % 256 ≤ 4)

instance (u : UnboundedCarrierDecoder) (x : Sample) : Decidable (u.Wraps x) :=
  inferInstanceAs (Decidable (_ ∧ _))

/-- The sample is the 256th short or the 256th long pulse of a search. -/
def Exceeds (u : UnboundedCarrierDecoder) (sample : Sample) : Prop :=
  (u.errorCount < 10 ∧ u.hasSync = false) ∧
    (255 < (u.nextWindow.count sample.getLengthUs).loCount ∨
      255 < (u.nextWindow.count sample.getLengthUs).hiCount)

@[simp] theorem nextWindow_hasSync (u : UnboundedCarrierDecoder) :
    u.nextWindow.hasSync = u.hasSync := by
  unfold nextWindow
  split <;> rfl

theorem follow_cases (u : UnboundedCarrierDecoder) (x : Sample) :
    ((u.isShort x.getLengthUs || u.isLong x.getLengthUs) = true ∧
        ∃ e, u.follow x = (u, some e)) ∨
      u.isShort x.getLengthUs = false ∧ u.isLong x.getLengthUs = false ∧
        u.follow x = ({ u with errorCount := u.errorCount + 1 }, none) := by
  unfold follow
  dsimp only
  split_ifs with hlong hshort
  · exact .inl ⟨by rw [hlong, Bool.or_true], _, rfl⟩
  · exact .inl ⟨by rw [hshort, Bool.true_or], _, rfl⟩
  · exact .inr ⟨Bool.eq_false_of_not_eq_true hshort, Bool.eq_false_of_not_eq_true hlong, rfl⟩

theorem follow_hasSync (u : UnboundedCarrierDecoder) (x : Sample) :
    (u.follow x).1.hasSync = u.hasSync := by
  rcases follow_cases u x with ⟨-, e, h⟩ | ⟨-, -, h⟩ <;> rw [h]

/-! ## The counters of the window stay small -/

/-- The two counters that the window clears. -/
structure Windowed (u : UnboundedCarrierDecoder) : Prop where
  pulseCount : u.pulseCount < 50
  errorCount : u.errorCount ≤ 10

theorem windowed_reset : Windowed reset := ⟨by decide, by decide⟩

theorem windowed_nextCarrier (u : UnboundedCarrierDecoder) : u.nextCarrier.1.Windowed :=
  ⟨Nat.zero_lt_succ 49, Nat.zero_le 10⟩

/-- Behind the window there is room for one more error. -/
theorem Windowed.nextWindow {u : UnboundedCarrierDecoder} (h : u.Windowed)
    (herr : u.errorCount < 10) : u.nextWindow.pulseCount < 50 ∧ u.nextWindow.errorCount < 10 := by
  have := h.pulseCount
  unfold UnboundedCarrierDecoder.nextWindow
  split <;> grind

theorem windowed_count {u : UnboundedCarrierDecoder} (hpulse : u.pulseCount < 50)
    (herr : u.errorCount < 10) (len : Int) : (u.count len).Windowed := by
  unfold count
  split_ifs <;> constructor <;> grind

theorem windowed_search {u : UnboundedCarrierDecoder} (hpulse : u.pulseCount < 50)
    (herr : u.errorCount < 10) (len : Int) : (u.search len).1.Windowed := by
  obtain ⟨hpulse', herr'⟩ := windowed_count hpulse herr len
  unfold search
  dsimp only
  split <;> exact ⟨hpulse', herr'⟩

theorem windowed_follow {u : UnboundedCarrierDecoder} (hpulse : u.pulseCount < 50)
    (herr : u.errorCount < 10) (x : Sample) : (u.follow x).1.Windowed := by
  unfold follow
  split_ifs <;> constructor <;> grind

theorem Windowed.checkSample {u : UnboundedCarrierDecoder} (h : u.Windowed) (x : Sample) :
    (u.checkSample x).1.Windowed := by
  unfold UnboundedCarrierDecoder.checkSample
  split
  · exact windowed_nextCarrier u
  · obtain ⟨hpulse, herr⟩ := h.nextWindow (by omega)
    split
    · exact windowed_follow hpulse herr x
    · exact windowed_search hpulse herr _

/-! ## One step in bytes -/

theorem ofNat_gt_four (n : ℕ) : UInt8.ofNat n > 4 ↔ n % 256 > 4 := by
  simp [UInt8.lt_iff_toNat_lt]

theorem ofNat_lt_four {n : ℕ} (h : n ≤ 10) : UInt8.ofNat n < 4 ↔ n < 4 := by
  have hmod : n % 256 = n := Nat.mod_eq_of_lt (by omega)
  simp [UInt8.lt_iff_toNat_lt, hmod]

theorem Windowed.narrow_errorCount {u : UnboundedCarrierDecoder} (h : u.Windowed) :
    u.narrow.errorCount ≥ CarrierDecoder.ERROR_TRESHOLD ↔ u.errorCount ≥ 10 := by
  have herr := h.errorCount
  have hmod : u.errorCount % 256 = u.errorCount := Nat.mod_eq_of_lt (by omega)
  simp [narrow, UInt8.le_iff_toNat_le, CarrierDecoder.ERROR_TRESHOLD, hmod]

theorem ofNat_add_one_eq_max {n : ℕ} (h : n < 50) :
    UInt8.ofNat n + 1 = CarrierDecoder.PULSE_MAX ↔ n + 1 = 50 := by
  have hmod : (n + 1) % 256 = n + 1 := Nat.mod_eq_of_lt (by omega)
  simp [← UInt8.toNat_inj, CarrierDecoder.PULSE_MAX, hmod]

theorem narrow_nextCarrier (u : UnboundedCarrierDecoder) :
    u.narrow.nextCarrier = (u.nextCarrier.1.narrow, u.nextCarrier.2) := rfl

theorem narrowWith_nextWindow {u : UnboundedCarrierDecoder} (h : u.pulseCount < 50) (lo hi : UInt8)
    (sync : Bool) : (u.narrowWith lo hi sync).nextWindow = u.nextWindow.narrowWith lo hi sync := by
  have hmax := ofNat_add_one_eq_max h
  unfold CarrierDecoder.nextWindow nextWindow
  split_ifs with hnarrow hwide hwide
  · rfl
  · exact absurd (hmax.mp hnarrow) hwide
  · exact absurd (hmax.mpr hwide) hnarrow
  · simp [narrowWith, narrow]

theorem narrow_nextWindow {u : UnboundedCarrierDecoder} (h : u.pulseCount < 50) :
    u.narrow.nextWindow = u.nextWindow.narrow := by
  have hsame : u.nextWindow.narrowWith (.ofNat u.loCount) (.ofNat u.hiCount) u.hasSync =
      u.nextWindow.narrow := by
    unfold nextWindow
    split <;> rfl
  exact (narrowWith_nextWindow h _ _ _).trans hsame

theorem narrow_count (u : UnboundedCarrierDecoder) (len : Int) :
    u.narrow.count len = (u.count len).narrow := by
  have hshort : u.narrow.isShort len = u.isShort len := rfl
  have hlong : u.narrow.isLong len = u.isLong len := rfl
  unfold CarrierDecoder.count count
  rw [hshort, hlong]
  split_ifs <;> simp [narrow]

/-- With synchronisation the two counts do not matter. -/
theorem narrowWith_follow (u : UnboundedCarrierDecoder) (lo hi : UInt8) (sync : Bool)
    (x : Sample) :
    (u.narrowWith lo hi sync).follow x =
      ((u.follow x).1.narrowWith lo hi sync, (u.follow x).2) := by
  have hshort : (u.narrowWith lo hi sync).isShort x.getLengthUs = u.isShort x.getLengthUs := rfl
  have hlong : (u.narrowWith lo hi sync).isLong x.getLengthUs = u.isLong x.getLengthUs := rfl
  unfold CarrierDecoder.follow follow
  rw [hshort, hlong]
  split_ifs <;> simp [narrowWith, narrow]

theorem narrow_follow (u : UnboundedCarrierDecoder) (x : Sample) :
    u.narrow.follow x = ((u.follow x).1.narrow, (u.follow x).2) := by
  have hsame : (u.follow x).1.narrowWith (.ofNat u.loCount) (.ofNat u.hiCount) u.hasSync =
      (u.follow x).1.narrow := by
    rcases follow_cases u x with ⟨-, e, h⟩ | ⟨-, -, h⟩ <;> rw [h] <;> rfl
  exact (narrowWith_follow u _ _ _ x).trans (by rw [hsame])

/-- The search decides alike unless a number that decides is at most four in a byte. -/
theorem narrow_search {u : UnboundedCarrierDecoder} {len : Int}
    (herr : (u.count len).errorCount ≤ 10)
    (hwraps : ¬ ((u.count len).Decided ∧
      ((u.count len).hiCount % 256 ≤ 4 ∨ (u.count len).loCount % 256 ≤ 4))) :
    u.narrow.search len = ((u.search len).1.narrow, (u.search len).2) := by
  have hhi := ofNat_gt_four (u.count len).hiCount
  have hlo := ofNat_gt_four (u.count len).loCount
  have hbad := ofNat_lt_four herr
  have hiff : (u.count len).narrow.hiCount > 4 ∧ (u.count len).narrow.loCount > 4 ∧
      (u.count len).narrow.errorCount < 4 ↔ (u.count len).Decided := by
    simp only [narrow, hhi, hlo, hbad, Decided] at hwraps ⊢
    grind
  unfold CarrierDecoder.search search
  simp only [narrow_count, hiff]
  split <;> rfl

theorem narrow_checkSample {u : UnboundedCarrierDecoder} {x : Sample} (h : u.Windowed)
    (hwraps : ¬ u.Wraps x) :
    u.narrow.checkSample x = ((u.checkSample x).1.narrow, (u.checkSample x).2) := by
  have hge := h.narrow_errorCount
  unfold CarrierDecoder.checkSample checkSample
  rw [narrow_nextWindow h.pulseCount]
  by_cases herr : u.errorCount ≥ 10
  · rw [if_pos herr, if_pos (hge.mpr herr), narrow_nextCarrier]
  · rw [if_neg herr, if_neg (hge.not.mpr herr)]
    obtain ⟨hpulse', herr'⟩ := h.nextWindow (by omega)
    cases hsync : u.nextWindow.hasSync with
    | true =>
      have hnarrow : u.nextWindow.narrow.hasSync = true := hsync
      rw [hnarrow, if_pos rfl, if_pos rfl, narrow_follow]
    | false =>
      have hnarrow : u.nextWindow.narrow.hasSync = false := hsync
      have hcount := (windowed_count hpulse' herr' x.getLengthUs).errorCount
      rw [hnarrow, if_neg (by decide), if_neg (by decide)]
      refine narrow_search hcount fun hdecided => hwraps ⟨⟨by omega, ?_⟩, hdecided⟩
      rw [← hsync, nextWindow_hasSync]

/-- At a wrapped counter the unbounded search decides and the one in bytes goes on. -/
theorem Wraps.checkSample {u : UnboundedCarrierDecoder} {x : Sample} (h : u.Windowed)
    (hwraps : u.Wraps x) :
    u.checkSample x = ({ u.nextWindow.count x.getLengthUs with hasSync := true },
        some (.syncChanged true (u.nextWindow.count x.getLengthUs).carrierDivider)) ∧
      u.narrow.checkSample x = ((u.nextWindow.count x.getLengthUs).narrow, none) := by
  obtain ⟨⟨herr, hsync⟩, hdecided, hwrapped⟩ := hwraps
  have hge := h.narrow_errorCount
  have hnarrow : u.nextWindow.narrow.hasSync = false := by
    rw [← hsync, ← nextWindow_hasSync]
    rfl
  have hhi := ofNat_gt_four (u.nextWindow.count x.getLengthUs).hiCount
  have hlo := ofNat_gt_four (u.nextWindow.count x.getLengthUs).loCount
  constructor
  · rw [UnboundedCarrierDecoder.checkSample, if_neg (by omega), nextWindow_hasSync, hsync,
      if_neg (by decide), search, if_pos hdecided]
  · rw [CarrierDecoder.checkSample, if_neg (hge.not.mpr (by omega)),
      narrow_nextWindow h.pulseCount, hnarrow, if_neg (by decide), CarrierDecoder.search,
      narrow_count, if_neg]
    simp only [narrow, hhi, hlo]
    omega

/-! ## Behind a missed synchronisation -/

/-- The detectors behind a missed synchronisation, and how much more the byte-wide one may
still notify: it needs a pulse that the unbounded one notifies to get a counter above four. -/
structure Lagging (k : ℕ) (d : CarrierDecoder) (u : UnboundedCarrierDecoder) : Prop where
  windowed : u.Windowed
  hasSync : u.hasSync = true
  same : d = u.narrowWith d.loCount d.hiCount d.hasSync
  credit : d.hasSync = false → d.hiCount > 4 → d.loCount > 4 → 1 ≤ k

theorem Wraps.lagging {u : UnboundedCarrierDecoder} {x : Sample} (h : u.Windowed)
    (hwraps : u.Wraps x) :
    Lagging 0 (u.narrow.checkSample x).1 (u.checkSample x).1 := by
  obtain ⟨hwide, hnarrow⟩ := hwraps.checkSample h
  have hwindowed := h.checkSample x
  rw [hwide] at hwindowed
  rw [hwide, hnarrow]
  refine ⟨hwindowed, rfl, rfl, ?_⟩
  intro _ hhi hlo
  have hhi' := (ofNat_gt_four _).mp hhi
  have hlo' := (ofNat_gt_four _).mp hlo
  have := hwraps.2.2
  omega

/-- A pulse that the unbounded detector does not notify raises neither counter. -/
theorem narrowWith_count (u : UnboundedCarrierDecoder) (lo hi : UInt8) (x : Sample) :
    ∃ lo' hi', (u.narrowWith lo hi false).count x.getLengthUs =
        (u.follow x).1.narrowWith lo' hi' false ∧
      ((u.follow x).2 = none → lo' = lo ∧ hi' = hi) := by
  have hshort : (u.narrowWith lo hi false).isShort x.getLengthUs = u.isShort x.getLengthUs := rfl
  have hlong : (u.narrowWith lo hi false).isLong x.getLengthUs = u.isLong x.getLengthUs := rfl
  unfold CarrierDecoder.count
  rw [hshort, hlong]
  rcases follow_cases u x with ⟨hgood, e, hfollow⟩ | ⟨hbad, hbad', hfollow⟩
  · rw [hfollow]
    cases hkind : u.isShort x.getLengthUs with
    | true => exact ⟨lo + 1, hi, rfl, by simp⟩
    | false =>
      rw [hkind, Bool.false_or] at hgood
      exact ⟨lo, hi + 1, by rw [hgood]; rfl, by simp⟩
  · rw [hfollow, hbad, hbad']
    exact ⟨lo, hi, by simp [narrowWith, narrow], fun _ => ⟨rfl, rfl⟩⟩

/-- A pulse that the unbounded detector does not notify ends the search only when both
counters are above four already. -/
theorem narrowWith_search (u : UnboundedCarrierDecoder) (lo hi : UInt8) (x : Sample) :
    ∃ lo' hi' sync', ((u.narrowWith lo hi false).search x.getLengthUs).1 =
        (u.follow x).1.narrowWith lo' hi' sync' ∧
      ((u.narrowWith lo hi false).search x.getLengthUs).2.isSome = sync' ∧
      ((u.follow x).2 = none → lo' = lo ∧ hi' = hi ∧ (sync' = true → hi > 4 ∧ lo > 4)) := by
  obtain ⟨lo', hi', hcount, hsame⟩ := narrowWith_count u lo hi x
  rcases (u.narrowWith lo hi false).search_cases x.getLengthUs with hsearch | ⟨hsearch, hhi, hlo, -⟩
  · rw [hsearch, hcount]
    refine ⟨lo', hi', false, rfl, rfl, fun hnone => ?_⟩
    obtain ⟨rfl, rfl⟩ := hsame hnone
    exact ⟨rfl, rfl, by simp⟩
  · rw [hcount] at hhi hlo
    rw [hsearch, hcount]
    refine ⟨lo', hi', true, rfl, rfl, fun hnone => ?_⟩
    obtain ⟨rfl, rfl⟩ := hsame hnone
    exact ⟨rfl, rfl, fun _ => ⟨hhi, hlo⟩⟩

/-- A step of the search pays with the pulse that the unbounded detector notifies. -/
theorem lagging_search {k : ℕ} {u : UnboundedCarrierDecoder} (hsync : u.hasSync = true)
    {lo hi : UInt8} (hcredit : hi > 4 → lo > 4 → 1 ≤ k) {x : Sample}
    (hwindowed : (u.follow x).1.Windowed) :
    ∃ k', Lagging k' ((u.narrowWith lo hi false).search x.getLengthUs).1 (u.follow x).1 ∧
      ((u.narrowWith lo hi false).search x.getLengthUs).2.toList.length + k' ≤
        (u.follow x).2.toList.length + k := by
  obtain ⟨lo', hi', sync', hfst, hsnd, hnone⟩ := narrowWith_search u lo hi x
  have hlen : ((u.narrowWith lo hi false).search x.getLengthUs).2.toList.length =
      sync'.toNat := by
    rw [← hsnd]
    cases ((u.narrowWith lo hi false).search x.getLengthUs).2 <;> rfl
  have hkept : (u.follow x).1.hasSync = true := by rw [follow_hasSync, hsync]
  rw [hfst, hlen]
  cases hout : (u.follow x).2 with
  | some e =>
    refine ⟨k + 1 - sync'.toNat, ⟨hwindowed, hkept, rfl, ?_⟩, ?_⟩
    · intro hsearching _ _
      obtain rfl : sync' = false := hsearching
      exact Nat.succ_le_succ (Nat.zero_le k)
    · have := Bool.toNat_le sync'
      simp only [Option.toList_some, List.length_singleton]
      omega
  | none =>
    obtain ⟨rfl, rfl, hdecided⟩ := hnone hout
    refine ⟨k - sync'.toNat, ⟨hwindowed, hkept, rfl, ?_⟩, ?_⟩
    · intro hsearching hhi hlo
      obtain rfl : sync' = false := hsearching
      exact hcredit hhi hlo
    · cases sync' with
      | true =>
        obtain ⟨hhi, hlo⟩ := hdecided rfl
        have := hcredit hhi hlo
        simp only [Option.toList_none, List.length_nil, Bool.toNat_true]
        omega
      | false => simp

/-- Behind a missed synchronisation every step pays for what the byte-wide detector notifies. -/
theorem Lagging.checkSample {k : ℕ} {d : CarrierDecoder} {u : UnboundedCarrierDecoder}
    (h : Lagging k d u) (x : Sample) :
    ∃ k', ((d.checkSample x).1 = (u.checkSample x).1.narrow ∨
        Lagging k' (d.checkSample x).1 (u.checkSample x).1) ∧
      (d.checkSample x).2.toList.length + k' ≤ (u.checkSample x).2.toList.length + k := by
  obtain ⟨hwindowed, hsync, hsame, hcredit⟩ := h
  have hge := hwindowed.narrow_errorCount
  have hkept := hwindowed.checkSample x
  generalize d.loCount = lo at hsame hcredit
  generalize d.hiCount = hi at hsame hcredit
  generalize d.hasSync = sync at hsame hcredit
  subst hsame
  have herrorCount : (u.narrowWith lo hi sync).errorCount = u.narrow.errorCount := rfl
  by_cases herr : u.errorCount ≥ 10
  · have hwide : u.checkSample x = u.nextCarrier := if_pos herr
    have hnarrow : (u.narrowWith lo hi sync).checkSample x = u.narrow.nextCarrier :=
      if_pos (hge.mpr herr)
    rw [hwide, hnarrow, narrow_nextCarrier]
    exact ⟨k, .inl rfl, le_rfl⟩
  · have hwide : u.checkSample x = u.nextWindow.follow x := by
      rw [UnboundedCarrierDecoder.checkSample, if_neg herr, nextWindow_hasSync, if_pos hsync]
    have hsync' : u.nextWindow.hasSync = true := by rw [nextWindow_hasSync, hsync]
    rw [hwide] at hkept ⊢
    rw [CarrierDecoder.checkSample, herrorCount, if_neg (hge.not.mpr herr),
      narrowWith_nextWindow hwindowed.pulseCount]
    cases sync with
    | true =>
      have hfollow : (u.nextWindow.narrowWith lo hi true).hasSync = true := rfl
      rw [if_pos hfollow, narrowWith_follow]
      refine ⟨k, .inr ⟨hkept, by rw [follow_hasSync, hsync'], rfl, ?_⟩, le_rfl⟩
      intro hsearching
      cases hsearching
    | false =>
      have hsearch : (u.nextWindow.narrowWith lo hi false).hasSync = false := rfl
      rw [hsearch, if_neg (by decide)]
      obtain ⟨k', hlagging, hpays⟩ := lagging_search hsync' (hcredit rfl) hkept
      exact ⟨k', .inr hlagging, hpays⟩

/-- What the byte-wide detector may be, with at most `k` notifications to come that the
unbounded one does not make. -/
def Behind (k : ℕ) (d : CarrierDecoder) (u : UnboundedCarrierDecoder) : Prop :=
  (d = u.narrow ∧ u.Windowed) ∨ Lagging k d u

theorem Behind.checkSample {k : ℕ} {d : CarrierDecoder} {u : UnboundedCarrierDecoder}
    (h : Behind k d u) (x : Sample) :
    ∃ k', Behind k' (d.checkSample x).1 (u.checkSample x).1 ∧
      (d.checkSample x).2.toList.length + k' ≤ (u.checkSample x).2.toList.length + k := by
  rcases h with ⟨rfl, hwindowed⟩ | hlagging
  · by_cases hwraps : u.Wraps x
    · obtain ⟨hwide, hnarrow⟩ := hwraps.checkSample hwindowed
      refine ⟨0, .inr (hwraps.lagging hwindowed), ?_⟩
      rw [hnarrow]
      exact Nat.zero_le _
    · rw [narrow_checkSample hwindowed hwraps]
      exact ⟨k, .inl ⟨rfl, hwindowed.checkSample x⟩, le_rfl⟩
  · obtain ⟨k', hnext, hpays⟩ := hlagging.checkSample x
    exact ⟨k', hnext.imp_left fun hnarrow => ⟨hnarrow, hlagging.windowed.checkSample x⟩, hpays⟩

/-- The byte-wide detector never gets ahead of the unbounded one. -/
theorem Behind.length_output_le {k : ℕ} {d : CarrierDecoder} {u : UnboundedCarrierDecoder}
    (h : Behind k d u) (xs : List Sample) :
    (CarrierDecoder.machine.output d xs).length ≤ (machine.output u xs).length + k :=
  Transducer.length_output_le (fun h x => h.checkSample x) h xs

/-- The bytes notify what unbounded counters do if and only if at no sample a wrapped counter
is in the way of a synchronisation. -/
theorem output_eq_iff (xs : List Sample) :
    CarrierDecoder.machine.output CarrierDecoder.reset xs = machine.output reset xs ↔
      machine.Avoids Wraps reset xs := by
  refine Transducer.output_eq_iff_avoids
    (R := fun d u => d = u.narrow ∧ u.Windowed) ?_ ?_ ⟨rfl, windowed_reset⟩ xs
  · rintro d u x ⟨rfl, hwindowed⟩ hwraps
    rw [CarrierDecoder.machine_step, machine_step, narrow_checkSample hwindowed hwraps]
    exact ⟨⟨rfl, hwindowed.checkSample x⟩, rfl⟩
  · rintro d u x ⟨rfl, hwindowed⟩ hwraps
    obtain ⟨hwide, hnarrow⟩ := hwraps.checkSample hwindowed
    refine ⟨?_, ?_, Behind.length_output_le (.inr (hwraps.lagging hwindowed))⟩
    · rw [CarrierDecoder.machine_step, hnarrow]
    · rw [machine_step, hwide, Option.isSome_some]

/-! ## Counters that do not wrap -/

/-- Neither counter has left the byte. -/
structure Small (u : UnboundedCarrierDecoder) : Prop where
  loCount : u.loCount ≤ 255
  hiCount : u.hiCount ≤ 255

theorem nextWindow_counts (u : UnboundedCarrierDecoder) :
    u.nextWindow.loCount = u.loCount ∧ u.nextWindow.hiCount = u.hiCount := by
  unfold nextWindow
  split <;> exact ⟨rfl, rfl⟩

/-- A sample raises at most one of the counters. -/
theorem count_cases (u : UnboundedCarrierDecoder) (len : Int) :
    ((u.count len).loCount = u.loCount + 1 ∨ (u.count len).loCount = u.loCount) ∧
      ((u.count len).hiCount = u.hiCount + 1 ∨ (u.count len).hiCount = u.hiCount) := by
  unfold count
  split_ifs <;> simp

theorem checkSample_counts {u : UnboundedCarrierDecoder} (herr : u.errorCount < 10)
    (hsync : u.hasSync = false) (x : Sample) :
    (u.checkSample x).1.loCount = (u.nextWindow.count x.getLengthUs).loCount ∧
      (u.checkSample x).1.hiCount = (u.nextWindow.count x.getLengthUs).hiCount := by
  rw [checkSample, if_neg (by omega), nextWindow_hasSync, hsync, if_neg (by decide), search]
  split <;> exact ⟨rfl, rfl⟩

/-- A step of the search in bytes counts what the unbounded one counts. -/
theorem narrow_checkSample_counts {u : UnboundedCarrierDecoder} (h : u.Windowed)
    (herr : u.errorCount < 10) (hsync : u.hasSync = false) (x : Sample) :
    (u.narrow.checkSample x).1.loCount = .ofNat (u.nextWindow.count x.getLengthUs).loCount ∧
      (u.narrow.checkSample x).1.hiCount =
        .ofNat (u.nextWindow.count x.getLengthUs).hiCount := by
  by_cases hwraps : u.Wraps x
  · rw [(hwraps.checkSample h).2]
    exact ⟨rfl, rfl⟩
  · obtain ⟨hlo, hhi⟩ := checkSample_counts herr hsync x
    rw [narrow_checkSample h hwraps]
    exact ⟨congrArg UInt8.ofNat hlo, congrArg UInt8.ofNat hhi⟩

/-- In a byte the successor of a count is smaller if and only if the count was full. -/
theorem ofNat_lt_ofNat_iff {n m : ℕ} (hn : n ≤ 255) (hm : m = n + 1 ∨ m = n) :
    UInt8.ofNat m < UInt8.ofNat n ↔ 255 < m := by
  have hmod : n % 256 = n := Nat.mod_eq_of_lt (by omega)
  rw [UInt8.lt_iff_toNat_lt, UInt8.toNat_ofNat', UInt8.toNat_ofNat', hmod]
  omega

/-- With small counters a sample wraps a byte if and only if it exceeds it. -/
theorem Small.overflows_iff {u : UnboundedCarrierDecoder} (h : u.Small) (hwindowed : u.Windowed)
    (x : Sample) : u.narrow.Overflows x ↔ u.Exceeds x := by
  have hsearching : u.narrow.errorCount < CarrierDecoder.ERROR_TRESHOLD ∧
      u.narrow.hasSync = false ↔ u.errorCount < 10 ∧ u.hasSync = false := by
    refine and_congr_left fun _ => ?_
    rw [← UInt8.not_le, ← Nat.not_le]
    exact not_congr hwindowed.narrow_errorCount
  unfold CarrierDecoder.Overflows Exceeds
  rw [hsearching]
  refine and_congr_right fun ⟨herr, hsync⟩ => ?_
  obtain ⟨hlo, hhi⟩ := narrow_checkSample_counts hwindowed herr hsync x
  obtain ⟨hlo', hhi'⟩ := count_cases u.nextWindow x.getLengthUs
  obtain ⟨hsameLo, hsameHi⟩ := nextWindow_counts u
  rw [hsameLo] at hlo'
  rw [hsameHi] at hhi'
  rw [hlo, hhi]
  exact or_congr (ofNat_lt_ofNat_iff h.loCount hlo') (ofNat_lt_ofNat_iff h.hiCount hhi')

/-- A counter that does not exceed the byte is in nobody's way. -/
theorem not_wraps_of_not_exceeds {u : UnboundedCarrierDecoder} {x : Sample} (h : ¬u.Exceeds x) :
    ¬u.Wraps x := by
  rintro ⟨hsearching, ⟨hhi, hlo, -⟩, hwrapped⟩
  refine h ⟨hsearching, ?_⟩
  omega

theorem Small.checkSample {u : UnboundedCarrierDecoder} (h : u.Small) {x : Sample}
    (hexceeds : ¬u.Exceeds x) : (u.checkSample x).1.Small := by
  obtain ⟨hsameLo, hsameHi⟩ := nextWindow_counts u
  by_cases herr : u.errorCount ≥ 10
  · rw [UnboundedCarrierDecoder.checkSample, if_pos herr]
    exact ⟨Nat.zero_le _, Nat.zero_le _⟩
  · cases hsync : u.hasSync with
    | true =>
      rw [UnboundedCarrierDecoder.checkSample, if_neg herr, nextWindow_hasSync, if_pos hsync]
      rcases follow_cases u.nextWindow x with ⟨-, e, hfollow⟩ | ⟨-, -, hfollow⟩
      all_goals
        rw [hfollow]
        exact ⟨hsameLo.trans_le h.loCount, hsameHi.trans_le h.hiCount⟩
    | false =>
      obtain ⟨hlo, hhi⟩ := checkSample_counts (by omega) hsync x
      have hbound : ¬(255 < (u.nextWindow.count x.getLengthUs).loCount ∨
          255 < (u.nextWindow.count x.getLengthUs).hiCount) :=
        fun hgt => hexceeds ⟨⟨by omega, hsync⟩, hgt⟩
      rw [not_or, not_lt, not_lt] at hbound
      exact ⟨hlo.trans_le hbound.1, hhi.trans_le hbound.2⟩

/-- The bytes notify what unbounded counters do, and no count wraps while the detector
searches, if and only if no search takes 256 short or 256 long pulses. -/
theorem counters_iff (xs : List Sample) :
    CarrierDecoder.machine.output CarrierDecoder.reset xs = machine.output reset xs ∧
        CarrierDecoder.machine.Avoids CarrierDecoder.Overflows CarrierDecoder.reset xs ↔
      machine.Avoids Exceeds reset xs := by
  refine Transducer.output_eq_and_avoids_iff
    (R := fun d u => d = u.narrow ∧ u.Windowed ∧ u.Small) ?_ ?_
    ⟨rfl, windowed_reset, ⟨by decide, by decide⟩⟩ xs
  · rintro d u x ⟨rfl, hwindowed, hsmall⟩ hexceeds
    rw [hsmall.overflows_iff hwindowed, CarrierDecoder.machine_step, machine_step,
      narrow_checkSample hwindowed (not_wraps_of_not_exceeds hexceeds)]
    exact ⟨⟨rfl, hwindowed.checkSample x, hsmall.checkSample hexceeds⟩, rfl, hexceeds⟩
  · rintro d u x ⟨rfl, hwindowed, hsmall⟩ hexceeds
    exact (hsmall.overflows_iff hwindowed x).mpr hexceeds

/-- 256 short pulses of the divider 16. -/
def shortPulses : List Sample := List.replicate 256 ⟨64, true⟩

/-- The last of these pulses wraps `loCount`, and five long ones behind them bring no
synchronisation. -/
theorem not_counters :
    (¬∀ xs, CarrierDecoder.machine.Avoids CarrierDecoder.Overflows CarrierDecoder.reset xs) ∧
      ¬∀ xs, CarrierDecoder.machine.output CarrierDecoder.reset xs = machine.output reset xs := by
  constructor
  · intro h
    have hshort := h shortPulses
    revert hshort
    decide +kernel
  · intro h
    have hlong := h (shortPulses ++ List.replicate 5 ⟨128, true⟩)
    revert hlong
    decide +kernel

end UnboundedCarrierDecoder

end RfidTool

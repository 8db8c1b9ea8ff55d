import RfidTool.Rfid.PulseTrain
import RfidTool.Rfid.Em4100RoundTrip

/-!
# Detection of the carrier divider

A new detector on the ideal train of a repeated frame. At a slower divider the
short pulses of the train pass as long ones or as errors, and the long ones are
errors; only a window with ten of them moves the detector on (`errorsAt`). At the
divider of the train it synchronises as soon as both byte counters exceed four
(`Mixed`). At the divider 16 this is so for every token; at 32 and 64 it depends on
where the long pulses of the token fall (`Escapes`).
-/

namespace RfidTool

open Sequence Em4100Eprom

/-- The errors in the current window of 50 samples after `j` pulses, of which those with
`bad` are errors. The first window has 49 samples. -/
def errorsAt (bad : Pulse → Bool) (ps : List Pulse) (j : ℕ) : ℕ :=
  ((ps.take j).drop (50 * (j / 50) - 1)).countP bad

/-- At some point more than four short and more than four long pulses have been counted
by counters of one byte. -/
def Mixed (ps : List Pulse) : Prop :=
  ∃ k ≤ ps.length, 4 < (ps.take k).countP (!·.isLong) % 256 ∧
    4 < (ps.take k).countP (·.isLong) % 256

/-- A window holds ten long pulses, and the pulses behind the one that follows the
first such ten are mixed. -/
def Escapes (ps : List Pulse) : Prop :=
  ∃ i < ps.length, 10 ≤ errorsAt (·.isLong) ps i ∧
    (∀ j < i, errorsAt (·.isLong) ps j < 10) ∧ Mixed (ps.drop (i + 1))

/-- The front of a train decides that it escapes. -/
theorem Escapes.of_take {ps : List Pulse} {n : ℕ} (h : Escapes (ps.take n)) : Escapes ps := by
  obtain ⟨i, hi, hten, hfirst, k, hk, hmixed⟩ := h
  rw [List.length_take] at hi
  have htake : ∀ j ≤ i, errorsAt (·.isLong) (ps.take n) j = errorsAt (·.isLong) ps j := by
    intro j hj
    rw [errorsAt, errorsAt, List.take_take, Nat.min_eq_left (by omega)]
  rw [List.length_drop, List.length_take] at hk
  rw [List.drop_take, List.take_take, Nat.min_eq_left (by omega)] at hmixed
  refine ⟨i, by omega, htake i le_rfl ▸ hten, fun j hj => htake j hj.le ▸ hfirst j hj, k, ?_,
    hmixed⟩
  rw [List.length_drop]
  omega

namespace CarrierDecoder

/-- The state in which the search at a divider begins. -/
def start (divider : UInt8) : CarrierDecoder :=
  updatePulseRange ⟨0, 0, 0, 0, 0, 0, 0, 0, divider, false⟩

theorem reset_eq_start : reset = start 16 := rfl

theorem nextCarrier_eq_start (d : CarrierDecoder) :
    d.nextCarrier.1 = start (nextDivider d.carrierDivider) := rfl

/-- The run of a detector over ideal samples. -/
def detect (r : ℕ) (d : CarrierDecoder) (ps : List Pulse) : CarrierDecoder :=
  machine.final d (ps.map (Pulse.sample r))

theorem detect_append (r : ℕ) (d : CarrierDecoder) (ps qs : List Pulse) :
    detect r d (ps ++ qs) = detect r (detect r d ps) qs := by
  rw [detect, List.map_append, Transducer.final_append]
  rfl

theorem detect_snoc (r : ℕ) (d : CarrierDecoder) (ps : List Pulse) (p : Pulse) :
    detect r d (ps ++ [p]) = ((detect r d ps).checkSample (p.sample r)).1 :=
  detect_append r d ps [p]

/-! ## Waiting for ten errors -/

/-- At the divider the pulses of a train are errors or pass as long ones. -/
def Passes (divider : UInt8) (r : ℕ) (bad : Pulse → Bool) : Prop :=
  ∀ (d : CarrierDecoder) (p : Pulse), d.Ranged → d.carrierDivider = divider →
    d.isShort (p.sample r).getLengthUs = false ∧ d.isLong (p.sample r).getLengthUs = !bad p

theorem passes_half {divider : UInt8} {r : ℕ} (hdiv : 0 < divider.toNat)
    (hr : r = 2 * divider.toNat) : Passes divider r (·.isLong) := by
  rintro d ⟨isHigh, isLong⟩ h rfl
  have hshort := h.isShort_iff (Pulse.sample r ⟨isHigh, isLong⟩).getLengthUs
  have hlong := h.isLong_iff (Pulse.sample r ⟨isHigh, isLong⟩).getLengthUs
  simp only [Pulse.sample, Sample.getLengthUs, hr] at hshort hlong ⊢
  cases isLong <;> simp only [if_true, Bool.false_eq_true, if_false] at hshort hlong ⊢
  · exact ⟨Bool.eq_false_of_not_eq_true (hshort.not.mpr (by omega)), hlong.mpr (by omega)⟩
  · exact ⟨Bool.eq_false_of_not_eq_true (hshort.not.mpr (by omega)),
      Bool.eq_false_of_not_eq_true (hlong.not.mpr (by omega))⟩

theorem passes_quarter {divider : UInt8} {r : ℕ} (hdiv : 0 < divider.toNat)
    (hr : r = 4 * divider.toNat) : Passes divider r fun _ => true := by
  rintro d ⟨isHigh, isLong⟩ h rfl
  have hshort := h.isShort_iff (Pulse.sample r ⟨isHigh, isLong⟩).getLengthUs
  have hlong := h.isLong_iff (Pulse.sample r ⟨isHigh, isLong⟩).getLengthUs
  simp only [Pulse.sample, Sample.getLengthUs, hr] at hshort hlong ⊢
  refine ⟨Bool.eq_false_of_not_eq_true (hshort.not.mpr ?_),
    Bool.eq_false_of_not_eq_true (hlong.not.mpr ?_)⟩
  all_goals cases isLong <;> simp only [if_true, Bool.false_eq_true, if_false] <;> omega

/-- The search at a divider where no pulse counts as short. -/
structure Waiting (divider : UInt8) (d : CarrierDecoder) (pulseCount errorCount : ℕ) : Prop where
  ranged : d.Ranged
  carrierDivider : d.carrierDivider = divider
  hasSync : d.hasSync = false
  loCount : d.loCount = 0
  pulseCount : d.pulseCount.toNat = pulseCount
  errorCount : d.errorCount.toNat = errorCount

theorem waiting_start {divider : UInt8} (h : divider = 16 ∨ divider = 32 ∨ divider = 64) :
    Waiting divider (start divider) 0 0 :=
  ⟨ranged_updatePulseRange h, rfl, rfl, rfl, rfl, rfl⟩

theorem Waiting.step {divider : UInt8} {r : ℕ} {bad : Pulse → Bool} (hpass : Passes divider r bad)
    {d : CarrierDecoder} {n e : ℕ} (h : Waiting divider d n e) (hn : n < 50) (he : e < 10)
    (p : Pulse) :
    Waiting divider (d.checkSample (p.sample r)).1 (if n + 1 = 50 then 0 else n + 1)
      ((if n + 1 = 50 then 0 else e) + (bad p).toNat) := by
  obtain ⟨hranged, hdiv, hsync, hlo, rfl, rfl⟩ := h
  have hnext : d.nextWindow.Ranged := ranged_nextWindow hranged
  obtain ⟨hshort, hlong⟩ := hpass d.nextWindow p hnext (by rw [nextWindow_carrierDivider, hdiv])
  have hcount : (d.nextWindow.search (p.sample r).getLengthUs).1 =
      d.nextWindow.count (p.sample r).getLengthUs := by
    rcases search_fst d.nextWindow (p.sample r).getLengthUs with heq | ⟨-, -, hgt, -⟩
    · exact heq
    · rw [count_loCount, hshort, nextWindow_loCount, hlo] at hgt
      exact absurd hgt (by decide)
  have hwindow := toNat_nextWindow hn
  have herror : d.nextWindow.errorCount < 10 := by
    apply UInt8.lt_iff_toNat_lt.mpr
    change _ < 10
    omega
  have hbad : (d.nextWindow.count (p.sample r).getLengthUs).errorCount.toNat =
      d.nextWindow.errorCount.toNat + (bad p).toNat := by
    rw [toNat_count_errorCount herror, hshort, hlong]
    cases bad p <;> rfl
  rw [checkSample_of_not_hasSync (UInt8.lt_iff_toNat_lt.mpr he) hsync, hcount]
  refine ⟨ranged_count hnext _, ?_, ?_, ?_, ?_, ?_⟩
  · rw [count_carrierDivider, nextWindow_carrierDivider, hdiv]
  · rw [count_hasSync, nextWindow_hasSync, hsync]
  · rw [count_loCount, hshort, nextWindow_loCount, hlo]
    rfl
  · rw [count_pulseCount]
    split_ifs <;> omega
  · rw [hbad]
    split_ifs <;> omega

/-- The sample behind ten errors moves the detector to the next divider. -/
theorem Waiting.leave {divider : UInt8} {d : CarrierDecoder} {n e : ℕ} (h : Waiting divider d n e)
    (he : 10 ≤ e) (x : Sample) : (d.checkSample x).1 = start (nextDivider divider) := by
  have hten : 10 ≤ d.errorCount := by
    rw [UInt8.le_iff_toNat_le, h.errorCount]
    exact he
  rw [checkSample_of_ten_le hten, nextCarrier_eq_start, h.carrierDivider]

theorem errorsAt_succ (bad : Pulse → Bool) {ps : List Pulse} {j : ℕ} (hj : j < ps.length) :
    errorsAt bad ps (j + 1) =
      (if j % 50 + 1 = 50 then 0 else errorsAt bad ps j) + (bad ps[j]).toNat := by
  have hsingle : [ps[j]].countP bad = (bad ps[j]).toNat := by
    cases h : bad ps[j] <;> simp [h]
  rw [errorsAt, errorsAt, List.take_succ_eq_append_getElem hj]
  split
  case isTrue hmod =>
    rw [List.drop_left' (by rw [List.length_take]; omega), hsingle, Nat.zero_add]
  case isFalse hmod =>
    have hindex : 50 * ((j + 1) / 50) - 1 = 50 * (j / 50) - 1 := by omega
    rw [hindex, List.drop_append_of_le_length (by rw [List.length_take]; omega), List.countP_append,
      hsingle]

/-- As long as no window has had ten errors, the detector waits. -/
theorem waiting_take {divider : UInt8} {r : ℕ} {bad : Pulse → Bool}
    (hdiv : divider = 16 ∨ divider = 32 ∨ divider = 64) (hpass : Passes divider r bad)
    {ps : List Pulse} {j : ℕ} (hj : j ≤ ps.length) (h : ∀ i < j, errorsAt bad ps i < 10) :
    Waiting divider (detect r (start divider) (ps.take j)) (j % 50) (errorsAt bad ps j) := by
  induction j with
  | zero =>
    rw [errorsAt, List.take_zero, List.drop_nil, List.countP_nil]
    exact waiting_start hdiv
  | succ j ih =>
    have hstep := (ih (by omega) fun i hi => h i (by omega)).step hpass (Nat.mod_lt j (by decide))
      (h j (by omega)) ps[j]
    rw [List.take_succ_eq_append_getElem hj, detect_snoc, errorsAt_succ bad hj]
    convert hstep using 1
    split <;> omega

/-- A train without ten errors in a window is never left. -/
theorem hasSync_of_no_escape {divider : UInt8} {r : ℕ} {bad : Pulse → Bool}
    (hdiv : divider = 16 ∨ divider = 32 ∨ divider = 64) (hpass : Passes divider r bad)
    {ps : List Pulse} (h : ∀ i < ps.length, errorsAt bad ps i < 10) :
    (detect r (start divider) ps).hasSync = false := by
  have := (waiting_take hdiv hpass le_rfl h).hasSync
  rwa [List.take_length] at this

/-- The first window with ten errors is left with the sample behind them. -/
theorem detect_of_escape {divider : UInt8} {r : ℕ} {bad : Pulse → Bool}
    (hdiv : divider = 16 ∨ divider = 32 ∨ divider = 64) (hpass : Passes divider r bad)
    {ps : List Pulse} {i : ℕ} (hi : i < ps.length) (hten : 10 ≤ errorsAt bad ps i)
    (h : ∀ j < i, errorsAt bad ps j < 10) :
    detect r (start divider) ps = detect r (start (nextDivider divider)) (ps.drop (i + 1)) := by
  have hleave := (waiting_take hdiv hpass hi.le h).leave hten (ps[i].sample r)
  conv_lhs => rw [← List.take_append_drop (i + 1) ps, List.take_succ_eq_append_getElem hi]
  rw [detect_append, detect_snoc, hleave]

/-! ## Counting at the right divider -/

theorem mixed_snoc (ps : List Pulse) (p : Pulse) :
    Mixed (ps ++ [p]) ↔ Mixed ps ∨ (4 < (ps ++ [p]).countP (!·.isLong) % 256 ∧
      4 < (ps ++ [p]).countP (·.isLong) % 256) := by
  constructor
  · rintro ⟨k, hk, hmixed⟩
    rw [List.length_append, List.length_singleton] at hk
    rcases Nat.lt_or_eq_of_le hk with hlt | rfl
    · left
      rw [List.take_append_of_le_length (by omega)] at hmixed
      exact ⟨k, by omega, hmixed⟩
    · right
      rwa [List.take_of_length_le (by simp)] at hmixed
  · rintro (⟨k, hk, hmixed⟩ | hmixed)
    · refine ⟨k, by rw [List.length_append]; omega, ?_⟩
      rwa [List.take_append_of_le_length hk]
    · exact ⟨(ps ++ [p]).length, le_rfl, by rwa [List.take_length]⟩

/-- The search at the right divider has counted what there is to count, in bytes. -/
structure Counting (r : ℕ) (d : CarrierDecoder) (ps : List Pulse) : Prop where
  tuned : d.Tuned r
  carrierDivider : d.carrierDivider.toNat = r
  hasSync : d.hasSync = true ↔ Mixed ps
  loCount : d.hasSync = false → d.loCount.toNat = ps.countP (!·.isLong) % 256
  hiCount : d.hasSync = false → d.hiCount.toNat = ps.countP (·.isLong) % 256

theorem Counting.follow {r : ℕ} (hr : r = 16 ∨ r = 32 ∨ r = 64) {d : CarrierDecoder}
    {ps : List Pulse} (h : Counting r d ps) (hsync : d.hasSync = true) {p : Pulse} {x : Sample}
    (hx : Jittered r p x) : Counting r (d.checkSample x).1 (ps ++ [p]) := by
  have hmixed : Mixed (ps ++ [p]) := (mixed_snoc ps p).mpr (.inl (h.hasSync.mp hsync))
  have hsync' : d.nextWindow.hasSync = true := by rw [nextWindow_hasSync, hsync]
  rw [h.tuned.checkSample_follow hr hsync hx]
  constructor
  · exact tuned_nextWindow h.tuned
  · rw [nextWindow_carrierDivider, h.carrierDivider]
  · exact ⟨fun _ => hmixed, fun _ => hsync'⟩
  all_goals
    intro hfalse
    rw [hsync'] at hfalse
    cases hfalse

/-- The counters of the search with one more pulse. -/
theorem Counting.count {r : ℕ} (hr : r = 16 ∨ r = 32 ∨ r = 64) {d : CarrierDecoder}
    {ps : List Pulse} (h : Counting r d ps) (hsync : d.hasSync = false) {p : Pulse} {x : Sample}
    (hx : Jittered r p x) :
    (d.nextWindow.count x.getLengthUs).loCount.toNat =
        (ps ++ [p]).countP (!·.isLong) % 256 ∧
      (d.nextWindow.count x.getLengthUs).hiCount.toNat =
        (ps ++ [p]).countP (·.isLong) % 256 := by
  have hdiv : d.nextWindow.carrierDivider.toNat = r := by
    rw [nextWindow_carrierDivider, h.carrierDivider]
  obtain ⟨hshort, hlong⟩ := (tuned_nextWindow h.tuned).classify_of_eq hr hdiv hx
  rw [count_loCount, count_hiCount, hshort, hlong, nextWindow_loCount, nextWindow_hiCount,
    List.countP_append, List.countP_append]
  cases hp : p.isLong
  · simp [hp, h.loCount hsync, h.hiCount hsync]
  · simp [hp, h.loCount hsync, h.hiCount hsync]

theorem Counting.search {r : ℕ} (hr : r = 16 ∨ r = 32 ∨ r = 64) {d : CarrierDecoder}
    {ps : List Pulse} (h : Counting r d ps) (hsync : d.hasSync = false) {p : Pulse} {x : Sample}
    (hx : Jittered r p x) : Counting r (d.checkSample x).1 (ps ++ [p]) := by
  have hmixed : ¬ Mixed ps := by
    rw [← h.hasSync, hsync]
    decide
  have hwindow := tuned_nextWindow h.tuned
  have hcounted := hwindow.count hr hx
  have hsearch := hwindow.search hr hx
  obtain ⟨hlo, hhi⟩ := h.count hr hsync hx
  have hdiv : (d.nextWindow.count x.getLengthUs).carrierDivider.toNat = r := by
    rw [count_carrierDivider, nextWindow_carrierDivider, h.carrierDivider]
  have herr : d.errorCount < 10 := by
    rw [h.tuned.right h.carrierDivider]
    decide
  have hiff : ((d.nextWindow.count x.getLengthUs).hiCount > 4 ∧
      (d.nextWindow.count x.getLengthUs).loCount > 4 ∧
      (d.nextWindow.count x.getLengthUs).errorCount < 4) ↔ Mixed (ps ++ [p]) := by
    rw [mixed_snoc, hcounted.right hdiv, gt_iff_lt, gt_iff_lt, UInt8.lt_iff_toNat_lt,
      UInt8.lt_iff_toNat_lt, hlo, hhi]
    constructor
    · rintro ⟨hhi, hlo, -⟩
      exact .inr ⟨hlo, hhi⟩
    · rintro (hps | ⟨hlo, hhi⟩)
      · exact absurd hps hmixed
      · exact ⟨hhi, hlo, by decide⟩
  rw [checkSample_of_not_hasSync herr hsync]
  rw [CarrierDecoder.search] at hsearch ⊢
  by_cases hnext : Mixed (ps ++ [p])
  · rw [if_pos (hiff.mpr hnext)] at hsearch ⊢
    exact ⟨hsearch, hdiv, ⟨fun _ => hnext, fun _ => rfl⟩, by simp, by simp⟩
  · rw [if_neg (hiff.not.mpr hnext)] at hsearch ⊢
    refine ⟨hsearch, hdiv, ?_, fun _ => hlo, fun _ => hhi⟩
    rw [count_hasSync, nextWindow_hasSync, hsync]
    exact ⟨by simp, fun h => absurd h hnext⟩

theorem Counting.step {r : ℕ} (hr : r = 16 ∨ r = 32 ∨ r = 64) {d : CarrierDecoder}
    {ps : List Pulse} (h : Counting r d ps) (p : Pulse) :
    Counting r (d.checkSample (p.sample r)).1 (ps ++ [p]) := by
  have hx : Jittered r p (p.sample r) :=
    (List.forall₂_cons.mp (jittered_sample r [p])).1
  cases hsync : d.hasSync with
  | true => exact h.follow hr hsync hx
  | false => exact h.search hr hsync hx

theorem not_mixed_nil : ¬ Mixed [] := by
  rintro ⟨k, -, hshort, -⟩
  simp at hshort

/-- At the right divider the detector synchronises as soon as both counters exceed four. -/
theorem counting_detect {divider : UInt8} (hdiv : divider = 16 ∨ divider = 32 ∨ divider = 64)
    (ps : List Pulse) : Counting divider.toNat (detect divider.toNat (start divider) ps) ps := by
  have hr : divider.toNat = 16 ∨ divider.toNat = 32 ∨ divider.toNat = 64 := by
    rcases hdiv with rfl | rfl | rfl <;> simp
  induction ps using List.reverseRecOn with
  | nil =>
    refine ⟨⟨ranged_updatePulseRange hdiv, fun _ => rfl, fun _ => ⟨rfl, rfl⟩,
      fun _ => ⟨rfl, rfl⟩⟩, rfl, ?_, fun _ => rfl, fun _ => rfl⟩
    exact ⟨nofun, fun h => absurd h not_mixed_nil⟩
  | append_singleton ps p ih =>
    rw [detect_snoc]
    exact ih.step hr p

/-! ## A new detector -/

/-- A train of the divider 32: the detector synchronises if its pulses escape from 16. -/
theorem hasSync_double {divider : UInt8} (hdiv : divider = 16 ∨ divider = 32) (ps : List Pulse) :
    (detect (2 * divider.toNat) (start divider) ps).hasSync = true ↔ Escapes ps := by
  have hdiv' : divider = 16 ∨ divider = 32 ∨ divider = 64 := by
    rcases hdiv with h | h <;> simp [h]
  have hpos : 0 < divider.toNat := by rcases hdiv with rfl | rfl <;> decide
  have hnext : nextDivider divider = 32 ∨ nextDivider divider = 64 := by
    rcases hdiv with rfl | rfl <;> decide
  have htwice : 2 * divider.toNat = (nextDivider divider).toNat := by
    rcases hdiv with rfl | rfl <;> rfl
  have hpass := passes_half hpos (rfl : 2 * divider.toNat = 2 * divider.toNat)
  by_cases hescape : ∃ i < ps.length, 10 ≤ errorsAt (·.isLong) ps i
  · obtain ⟨i, ⟨hi, hten⟩, hfirst⟩ := Nat.findX hescape
    have hfirst' : ∀ j < i, errorsAt (·.isLong) ps j < 10 := fun j hj => by
      have := hfirst j hj
      push Not at this
      exact this (by omega)
    rw [detect_of_escape hdiv' hpass hi hten hfirst', htwice,
      (counting_detect (.inr hnext) (ps.drop (i + 1))).hasSync]
    constructor
    · exact fun h => ⟨i, hi, hten, hfirst', h⟩
    · rintro ⟨k, hk, hten', hfirst'', hmixed⟩
      have hle : i ≤ k := by
        by_contra hlt
        have := hfirst' k (by omega)
        omega
      have hge : k ≤ i := by
        by_contra hlt
        have := hfirst'' i (by omega)
        omega
      rwa [show i = k by omega]
  · push Not at hescape
    rw [hasSync_of_no_escape hdiv' hpass hescape]
    constructor
    · exact nofun
    · rintro ⟨i, hi, hten, -⟩
      have := hescape i hi
      omega

/-- At a divider four times too small everything is an error. -/
theorem errorsAt_all {ps : List Pulse} {j : ℕ} (hj : j ≤ 10) (hlen : j ≤ ps.length) :
    errorsAt (fun _ => true) ps j = j := by
  have hindex : 50 * (j / 50) - 1 = 0 := by omega
  rw [errorsAt, hindex, List.drop_zero, List.countP_true, List.length_take]
  omega

/-- A train of the divider 64 is ten errors and one more pulse at 16. -/
theorem hasSync_quadruple (ps : List Pulse) :
    (detect 64 (start 16) ps).hasSync = true ↔ Escapes (ps.drop 11) := by
  have hpass : Passes 16 64 fun _ => true := passes_quarter (by decide) rfl
  rcases Nat.lt_or_ge 10 ps.length with hlt | hge
  · have hescape := detect_of_escape (.inl rfl) hpass hlt (errorsAt_all le_rfl hlt.le).ge
      fun j hj => by rw [errorsAt_all hj.le (by omega)]; exact hj
    rw [hescape]
    exact hasSync_double (.inr rfl) (ps.drop 11)
  · have hsync : (detect 64 (start 16) ps).hasSync = false :=
      hasSync_of_no_escape (.inl rfl) hpass fun i hi => by
        rw [errorsAt_all (by omega) hi.le]
        omega
    rw [hsync, List.drop_eq_nil_of_le (by omega)]
    exact ⟨by simp, fun ⟨_, hi, _⟩ => absurd hi (Nat.not_lt_zero _)⟩

end CarrierDecoder

/-! ## Trains of a frame -/

/-- A level that is mixed within five repetitions: at `off` of every repetition there
start five pulses of one kind, and just before it there ends one of the other kind,
the one with `isLong = kind`. -/
structure Rich (g : ℕ → Bool) (kind : Bool) (off : ℕ) : Prop where
  small : off ≤ 1
  starts : ∀ k ≤ 5, 0 < 128 * k + off → g (128 * k + off - 1) ≠ g (128 * k + off)
  last_starts : ∀ k < 5, g (128 * k + 126) ≠ g (128 * k + 127)
  last_kind : ∀ k < 5, (g (128 * k + 128) == g (128 * k + 127)) = kind
  last_ends : ∀ k < 5, nextPulse g (128 * k + 127) = 128 * (k + 1) + off
  run_kind : ∀ k ≤ 5, ∀ p ∈ pulses g (128 * k + off) 5, p.isLong = !kind
  run_ends : ∀ k ≤ 5, (nextPulse g)^[5] (128 * k + off) ≤ 128 * k + off + 10

/-- The pulses of a kind. -/
def countOf (kind : Bool) (ps : List Pulse) : ℕ := ps.countP (·.isLong == kind)

theorem countOf_append (kind : Bool) (ps qs : List Pulse) :
    countOf kind (ps ++ qs) = countOf kind ps + countOf kind qs := List.countP_append

theorem countOf_le (kind : Bool) (ps : List Pulse) : countOf kind ps ≤ ps.length :=
  List.countP_le_length

theorem mixed_of_countOf (kind : Bool) {ps : List Pulse} {k : ℕ} (hk : k ≤ ps.length)
    (h : 4 < countOf kind (ps.take k) % 256) (h' : 4 < countOf (!kind) (ps.take k) % 256) :
    Mixed ps := by
  have hshort : ∀ qs : List Pulse, countOf false qs = qs.countP (!·.isLong) := fun qs => by
    simp [countOf]
  have hlong : ∀ qs : List Pulse, countOf true qs = qs.countP (·.isLong) := fun qs => by
    simp [countOf]
  refine ⟨k, hk, ?_⟩
  rw [← hshort, ← hlong]
  cases kind with
  | false => exact ⟨h, h'⟩
  | true => exact ⟨h', h⟩

/-- From the start of a repetition to the start of the next there is a pulse of the kind. -/
theorem Rich.countOf_step {g : ℕ → Bool} {kind : Bool} {off : ℕ} (h : Rich g kind off)
    {k a c : ℕ} (hk : k < 5) (ha : (nextPulse g)^[a] 0 = 128 * k + off)
    (hc : (nextPulse g)^[c] 0 = 128 * (k + 1) + off) :
    countOf kind (pulses g 0 a) + 1 ≤ countOf kind (pulses g 0 c) ∧
      countOf kind (pulses g 0 c) ≤ countOf kind (pulses g 0 a) + 128 := by
  obtain ⟨b, hb⟩ := exists_iterate_eq (Nat.zero_le (128 * k + 127)) fun _ => h.last_starts k hk
  have hnext : (nextPulse g)^[b + 1] 0 = 128 * (k + 1) + off := by
    rw [Function.iterate_succ_apply', hb, h.last_ends k hk]
  obtain rfl : c = b + 1 := by
    have heq := hc.trans hnext.symm
    exact Nat.le_antisymm (le_of_iterate_nextPulse_le heq.le) (le_of_iterate_nextPulse_le heq.ge)
  have hab : a ≤ b := by
    refine le_of_iterate_nextPulse_le (h := g) (q := 0) ?_
    rw [ha, hb]
    have := h.small
    omega
  have hlast : countOf kind (pulses g (128 * k + 127) 1) = 1 := by
    rw [pulses, pulses, h.last_kind k hk]
    simp [countOf]
  have hsplit : pulses g 0 b = pulses g 0 a ++ pulses g (128 * k + off) (b - a) := by
    have hindex : a + (b - a) = b := by omega
    rw [← ha, ← pulses_add, hindex]
  have hwidth : b - a + 1 ≤ 128 := by
    have := le_iterate_nextPulse g (128 * k + off) (b + 1 - a)
    have hindex : b + 1 - a + a = b + 1 := by omega
    rw [← ha, ← Function.iterate_add_apply, hindex, hnext, ha] at this
    omega
  have hmiddle := countOf_le kind (pulses g (128 * k + off) (b - a))
  rw [length_pulses] at hmiddle
  rw [pulses_add, hb, countOf_append, hlast, hsplit, countOf_append]
  omega

/-- A number that grows by one to 128 at a time has been at least five before it overflows. -/
theorem exists_five_le {n : ℕ → ℕ} (hzero : n 0 < 5)
    (hstep : ∀ k < 5, n k + 1 ≤ n (k + 1) ∧ n (k + 1) ≤ n k + 128) :
    ∃ k ≤ 5, 5 ≤ n k ∧ n k < 256 := by
  by_contra hnone
  have hfew : ∀ k ≤ 5, k ≤ n k ∧ n k < 5 := by
    intro k hk
    have hnot : ¬ (5 ≤ n k ∧ n k < 256) := fun hin => hnone ⟨k, hk, hin⟩
    induction k with
    | zero => omega
    | succ k ih =>
      have := ih (by omega) fun hin => hnone ⟨k, by omega, hin⟩
      have := hstep k (by omega)
      omega
  have := hfew 5 le_rfl
  omega

/-- At the start of one of the first six repetitions there are at least five pulses of the
kind behind us, and few enough that their counter has not overflowed. -/
theorem Rich.exists_start {g : ℕ → Bool} {kind : Bool} {off : ℕ} (h : Rich g kind off) :
    ∃ k ≤ 5, ∃ a, (nextPulse g)^[a] 0 = 128 * k + off ∧ 5 ≤ countOf kind (pulses g 0 a) ∧
      countOf kind (pulses g 0 a) < 256 := by
  have hreach : ∀ k, ∃ a, k ≤ 5 → (nextPulse g)^[a] 0 = 128 * k + off := by
    intro k
    by_cases hk : k ≤ 5
    · obtain ⟨a, ha⟩ := exists_iterate_eq (Nat.zero_le (128 * k + off)) (h.starts k hk)
      exact ⟨a, fun _ => ha⟩
    · exact ⟨0, fun hle => absurd hle hk⟩
  choose a ha using hreach
  have hzero : countOf kind (pulses g 0 (a 0)) < 5 := by
    have hle := countOf_le kind (pulses g 0 (a 0))
    have hpos := le_iterate_nextPulse g 0 (a 0)
    rw [ha 0 (by omega)] at hpos
    rw [length_pulses] at hle
    have := h.small
    omega
  obtain ⟨k, hk, hcount⟩ := exists_five_le (n := fun k => countOf kind (pulses g 0 (a k))) hzero
    fun k hk => h.countOf_step hk (ha k (by omega)) (ha (k + 1) hk)
  exact ⟨k, hk, a k, ha k hk, hcount⟩

/-- The first sixteen repetitions of a rich train are mixed. -/
theorem Rich.mixed {g : ℕ → Bool} {kind : Bool} {off n : ℕ} (h : Rich g kind off)
    (hn : 2048 < (nextPulse g)^[n + 1] 0) : Mixed (pulses g 0 n) := by
  obtain ⟨k, hk, a, ha, hmin, hmax⟩ := h.exists_start
  have hrun := h.run_ends k hk
  have hsmall := h.small
  have hend : a + 5 ≤ n := by
    by_contra hgt
    have hle : (nextPulse g)^[n + 1] 0 ≤ (nextPulse g)^[5 + a] 0 := by
      rcases Nat.lt_or_eq_of_le (show n + 1 ≤ 5 + a by omega) with hlt | heq
      · exact (iterate_nextPulse_lt hlt).le
      · rw [heq]
    rw [Function.iterate_add_apply (nextPulse g) 5 a, ha] at hle
    omega
  have hother : countOf kind (pulses g (128 * k + off) 5) = 0 ∧
      countOf (!kind) (pulses g (128 * k + off) 5) = 5 := by
    have hall := h.run_kind k hk
    constructor
    · refine List.countP_eq_zero.mpr fun p hp => ?_
      rw [hall p hp]
      cases kind <;> decide
    · rw [← length_pulses g (128 * k + off) 5]
      refine List.countP_eq_length.mpr fun p hp => ?_
      rw [hall p hp, beq_self_eq_true]
  have htake := take_pulses g 0 (show a ≤ n by omega)
  have htake' := take_pulses g 0 hend
  rw [pulses_add, ha] at htake'
  by_cases hbyte : 4 < countOf (!kind) (pulses g 0 a) % 256
  · refine mixed_of_countOf kind (k := a) (by rw [length_pulses]; omega) ?_ ?_
    · rw [htake]
      omega
    · rwa [htake]
  · refine mixed_of_countOf kind (k := a + 5) (by rw [length_pulses]; exact hend) ?_ ?_
    · rw [htake', countOf_append, hother.1]
      omega
    · rw [htake', countOf_append, hother.2]
      omega

/-! The trains of a frame are rich: the Manchester train has a long pulse from every
frame to the next and short ones in its ones, the biphase train has two short pulses
for the stop bit and long ones for the ones. -/

theorem cyclicFrame_one (t : Token) (k : ℕ) {i : ℕ} (hi : i < 9) :
    cyclicFrame t (64 * k + i) = true := by
  have hindex : (64 * k + i) % 64 = i := by omega
  rw [cyclicFrame, hindex, frameBit, if_pos hi]

theorem cyclicFrame_stop (t : Token) (k : ℕ) : cyclicFrame t (64 * k + 63) = false := by
  have hindex : (64 * k + 63) % 64 = 63 := by omega
  rw [cyclicFrame, hindex]
  rfl

theorem manchesterLevel_ones (t : Token) (k : ℕ) {j : ℕ} (hj : j < 18) :
    manchesterLevel (cyclicFrame t) (128 * k + j) = decide (j % 2 = 0) := by
  rcases Nat.even_or_odd' j with ⟨i, rfl | rfl⟩
  · have hindex : 128 * k + 2 * i = 2 * (64 * k + i) := by omega
    rw [hindex, manchesterLevel_even, cyclicFrame_one t k (by omega)]
    simp
  · have hindex : 128 * k + (2 * i + 1) = 2 * (64 * k + i) + 1 := by omega
    rw [hindex, manchesterLevel_odd, cyclicFrame_one t k (by omega)]
    simp

theorem rich_manchester (t : Token) {g : ℕ → Bool}
    (hg : ∀ p < 2048, g p = manchesterLevel (cyclicFrame t) p) : Rich g true 1 := by
  have hstop : ∀ k < 5, g (128 * k + 126) = false ∧ g (128 * k + 127) = true ∧
      g (128 * k + 128) = true := by
    intro k hk
    have hindex : 128 * k + 126 = 2 * (64 * k + 63) := by omega
    have hindex' : 128 * k + 127 = 2 * (64 * k + 63) + 1 := by omega
    have hindex'' : 128 * k + 128 = 128 * (k + 1) + 0 := by omega
    rw [hg _ (by omega), hg _ (by omega), hg _ (by omega), hindex, manchesterLevel_even, hindex',
      manchesterLevel_odd, cyclicFrame_stop, hindex'', manchesterLevel_ones t _ (by decide)]
    exact ⟨rfl, rfl, rfl⟩
  have hrun : ∀ k ≤ 5, ∀ j < 5, g (128 * k + 1 + j + 1) ≠ g (128 * k + 1 + j) := by
    intro k hk j hj
    have hindex : 128 * k + 1 + j + 1 = 128 * k + (j + 2) := by omega
    have hindex' : 128 * k + 1 + j = 128 * k + (j + 1) := by omega
    rw [hg _ (by omega), hg _ (by omega), hindex, hindex', manchesterLevel_ones t k (by omega),
      manchesterLevel_ones t k (by omega)]
    rcases Nat.even_or_odd' j with ⟨i, rfl | rfl⟩
    · simp [show (2 * i + 1) % 2 = 1 by omega]
    · simp [show (2 * i + 1 + 2) % 2 = 1 by omega, show (2 * i + 1 + 1) % 2 = 0 by omega]
  constructor
  case small => exact le_rfl
  case starts =>
    intro k hk _
    have hindex : 128 * k + 1 - 1 = 128 * k + 0 := by omega
    rw [hg _ (by omega), hg _ (by omega), hindex, manchesterLevel_ones t k (by decide),
      manchesterLevel_ones t k (by decide)]
    decide
  case last_starts =>
    intro k hk
    rw [(hstop k hk).1, (hstop k hk).2.1]
    decide
  case last_kind =>
    intro k hk
    rw [(hstop k hk).2.1, (hstop k hk).2.2]
    rfl
  case last_ends =>
    intro k hk
    rw [nextPulse, (hstop k hk).2.1, (hstop k hk).2.2, if_pos rfl]
    omega
  case run_kind => exact fun k hk => (pulses_short (hrun k hk)).1
  case run_ends =>
    intro k hk
    rw [(pulses_short (hrun k hk)).2]
    omega

theorem rich_biphase (first : Bool) (t : Token) {g : ℕ → Bool}
    (hg : ∀ p < 2048, g p = biphaseLevel first (cyclicFrame t) p) : Rich g false 0 := by
  have hstop : ∀ k < 5, g (128 * k + 127) = !g (128 * k + 126) ∧
      g (128 * k + 128) = !g (128 * k + 127) := by
    intro k hk
    have hindex : 128 * k + 128 = 2 * (64 * k + 63) + 2 := by omega
    have hindex' : 128 * k + 127 = 2 * (64 * k + 63) + 1 := by omega
    have hindex'' : 128 * k + 126 = 2 * (64 * k + 63) := by omega
    rw [hg _ (by omega), hg _ (by omega), hg _ (by omega), hindex, biphaseLevel_even, hindex',
      biphaseLevel_odd, cyclicFrame_stop, hindex'']
    exact ⟨rfl, rfl⟩
  have hrun : ∀ k ≤ 5, ∀ j < 5, g (128 * k + 0 + 2 * j + 1) = g (128 * k + 0 + 2 * j) := by
    intro k hk j hj
    have hindex : 128 * k + 0 + 2 * j = 2 * (64 * k + j) := by omega
    rw [hg _ (by omega), hg _ (by omega), hindex, biphaseLevel_odd, cyclicFrame_one t k (by omega),
      if_pos rfl]
  constructor
  case small => exact Nat.zero_le _
  case starts =>
    intro k hk hpos
    have hindex : 128 * k + 0 = 2 * (64 * k - 1) + 2 := by omega
    have hindex' : 2 * (64 * k - 1) + 2 - 1 = 2 * (64 * k - 1) + 1 := by omega
    rw [hg _ (by omega), hg _ (by omega), hindex, biphaseLevel_even, hindex']
    simp
  case last_starts =>
    intro k hk
    rw [(hstop k hk).1]
    simp
  case last_kind =>
    intro k hk
    rw [(hstop k hk).2]
    simp
  case last_ends =>
    intro k hk
    rw [nextPulse, (hstop k hk).2, if_neg (by simp)]
    omega
  case run_kind => exact fun k hk => (pulses_long (hrun k hk)).1
  case run_ends =>
    intro k hk
    rw [(pulses_long (hrun k hk)).2]

/-- The first sixteen repetitions of a frame are mixed in either coding. -/
theorem mixed_train (c : Coding) (first : Bool) (t : Token) {n : ℕ} (hn : 16 ≤ n) :
    Mixed (train (c.level first (cyclicFrame t)) n 16) := by
  obtain ⟨k, hk, -, hend⟩ := pulsesUpTo_eq (cut (c.level first (cyclicFrame t)) (128 * n))
    (128 * 16) (128 * 16) (Nat.zero_le _) (by omega)
  have hlevel : ∀ p < 2048, cut (c.level first (cyclicFrame t)) (128 * n) p =
      c.level first (cyclicFrame t) p := fun p hp => if_pos (by omega)
  rw [train, hk]
  cases c with
  | manchester => exact (rich_manchester t hlevel).mixed hend
  | biphase => exact (rich_biphase first t hlevel).mixed hend

namespace CarrierDecoder

/-- A new detector on the train of `n` repetitions has found the divider when the first
sixteen have ended, and keeps it. -/
def Detects (r : ℕ) (h : ℕ → Bool) (n : ℕ) : Prop :=
  ∀ k, (train h n 16).length ≤ k → k ≤ (train h n n).length →
    (detect r reset ((train h n n).take k)).hasSync = true ∧
      (detect r reset ((train h n n).take k)).carrierDivider.toNat = r

theorem tuned_detect {r : ℕ} (hr : r = 16 ∨ r = 32 ∨ r = 64) (ps : List Pulse) :
    (detect r reset ps).Tuned r := Tuned.final hr (jittered_sample r ps) (tuned_reset r)

/-- A divider once found is kept. -/
theorem detects_iff_hasSync {r : ℕ} (hr : r = 16 ∨ r = 32 ∨ r = 64) (h : ℕ → Bool) {n : ℕ}
    (hn : 16 ≤ n) : Detects r h n ↔ (detect r reset (train h n 16)).hasSync = true := by
  obtain ⟨hlen, htake⟩ := train_take h hn
  constructor
  · intro hdetects
    have := (hdetects _ le_rfl hlen).1
    rwa [htake] at this
  · intro hsync k hk _
    have hsplit : (train h n n).take k = train h n 16 ++
        ((train h n n).take k).drop (train h n 16).length := by
      conv_lhs => rw [← List.take_append_drop (train h n 16).length ((train h n n).take k)]
      rw [List.take_take, Nat.min_eq_left hk, htake]
    have htuned := tuned_detect hr (train h n 16)
    have hdiv := htuned.carrierDivider_eq hsync
    obtain ⟨-, hkept, hkeptdiv, -⟩ := htuned.follow_train hr
      (jittered_sample r (((train h n n).take k).drop (train h n 16).length)) hsync
    rw [hsplit, detect_append]
    exact ⟨hkept, by rw [detect, hkeptdiv, hdiv]⟩

/-- When the divider of a token's train is found: always at 16; at 32 when the first
sixteen repetitions escape from 16; at 64 when they do so behind their first eleven
pulses, which are ten errors and the change to 32. -/
theorem detects_iff (c : Coding) (first : Bool) (t : Token) (old : Vector UInt32 2) (r n : ℕ)
    (hr : r = 16 ∨ r = 32 ∨ r = 64) (hn : 16 ≤ n) :
    Detects r (c.level first (repeatedBits (generate old t.versionOrCustomerId t.data))) n ↔
      r = 16 ∨
        r = 32 ∧ Escapes (train (c.level first (cyclicFrame t)) n 16) ∨
        r = 64 ∧ Escapes ((train (c.level first (cyclicFrame t)) n 16).drop 11) := by
  rw [repeatedBits_generate, detects_iff_hasSync hr _ hn, reset_eq_start]
  generalize hps : train (c.level first (cyclicFrame t)) n 16 = ps
  rcases hr with rfl | rfl | rfl
  · have hmixed : Mixed ps := hps ▸ mixed_train c first t hn
    have := (counting_detect (.inl rfl) ps).hasSync.mpr hmixed
    exact ⟨fun _ => .inl rfl, fun _ => this⟩
  · have := hasSync_double (.inl rfl) ps
    simpa using this
  · have := hasSync_quadruple ps
    simpa using this

/-- The first pulses of a train. -/
theorem take_train (h : ℕ → Bool) {n m k : ℕ} (hk : 2 * k ≤ 128 * m) :
    (train h n m).take k = pulses (cut h (128 * n)) 0 k := by
  obtain ⟨l, hl, -, hend⟩ := pulsesUpTo_eq (cut h (128 * n)) (128 * m) (128 * m) (Nat.zero_le _)
    (by omega)
  have hle := iterate_nextPulse_le (cut h (128 * n)) 0 (l + 1)
  rw [train, hl, take_pulses _ _ (by omega)]

set_option maxRecDepth 4000 in
/-- The data bits of `(0x55, 0x55555555)` alternate, and most of their pulses are long. -/
theorem detects_iff_alternating :
    Detects 16 (Coding.manchester.level true (repeatedBits (generate #v[0, 0] 0x55 0x55555555)))
        20 ∧
      Detects 32 (Coding.manchester.level true (repeatedBits (generate #v[0, 0] 0x55 0x55555555)))
        20 ∧
      Detects 64 (Coding.manchester.level true (repeatedBits (generate #v[0, 0] 0x55 0x55555555)))
        20 := by
  have htrain := @take_train (Coding.manchester.level true (cyclicFrame ⟨0x55, 0x55555555⟩)) 20 16
    60 (by decide)
  have hdouble : Escapes ((train (Coding.manchester.level true (cyclicFrame ⟨0x55, 0x55555555⟩)) 20
      16).take 60) := by
    rw [htrain]
    exact ⟨31, by decide, by decide, by decide, 26, by decide, by decide⟩
  have hquadruple : Escapes (((train (Coding.manchester.level true
      (cyclicFrame ⟨0x55, 0x55555555⟩)) 20 16).drop 11).take (60 - 11)) := by
    rw [← List.drop_take, htrain]
    exact ⟨20, by decide, by decide, by decide, 26, by decide, by decide⟩
  have hall (r : ℕ) (hr : r = 16 ∨ r = 32 ∨ r = 64) :=
    detects_iff .manchester true ⟨0x55, 0x55555555⟩ #v[0, 0] r 20 hr (by decide)
  refine ⟨(hall 16 (.inl rfl)).mpr (.inl rfl), ?_, ?_⟩
  · exact (hall 32 (.inr (.inl rfl))).mpr (.inr (.inl ⟨rfl, hdouble.of_take⟩))
  · exact (hall 64 (.inr (.inr rfl))).mpr (.inr (.inr ⟨rfl, hquadruple.of_take⟩))

/-- The frame of `(0, 0)` is nine ones and 55 zeros. -/
theorem cyclicFrame_zero (p : ℕ) : cyclicFrame ⟨0, 0⟩ p = decide (p % 64 < 9) := by
  have hall : ∀ j < 64, frameBit ⟨0, 0⟩ j = decide (j < 9) := by decide
  exact hall _ (Nat.mod_lt p (by decide))

/-- The Manchester level of `(0, 0)` stays where the ones end and where they begin. -/
theorem manchesterLevel_zero {p : ℕ}
    (h : manchesterLevel (cyclicFrame ⟨0, 0⟩) (p + 1) = manchesterLevel (cyclicFrame ⟨0, 0⟩) p) :
    p % 128 = 17 ∨ p % 128 = 127 := by
  rcases Nat.even_or_odd' p with ⟨i, rfl | rfl⟩
  · rw [manchesterLevel_even, manchesterLevel_odd] at h
    simp at h
  · have hindex : 2 * i + 1 + 1 = 2 * (i + 1) := by omega
    rw [hindex, manchesterLevel_even, manchesterLevel_odd, cyclicFrame_zero, cyclicFrame_zero,
      ← decide_not, decide_eq_decide] at h
    omega

/-- The half-bits before `p` at which the level stays. -/
def stays (p : ℕ) : ℕ := 2 * (p / 128) + if 17 < p % 128 then 1 else 0

/-- Two long pulses for each frame, and no more. -/
theorem countP_isLong_le {g : ℕ → Bool} {e : ℕ}
    (hg : ∀ p, p + 2 ≤ e → g (p + 1) = g p → p % 128 = 17 ∨ p % 128 = 127) {q n : ℕ}
    (hend : (nextPulse g)^[n] q ≤ e) :
    (pulses g q n).countP (·.isLong) + stays q ≤ stays (q + 2 * n) := by
  have hmono : ∀ a b, a ≤ b → stays a ≤ stays b := by
    intro a b hab
    unfold stays
    split_ifs <;> omega
  induction n generalizing q with
  | zero => simp [pulses]
  | succ n ih =>
    rw [Function.iterate_succ_apply] at hend
    have hrest := ih hend
    have hbound := le_iterate_nextPulse g (nextPulse g q) n
    rw [pulses, List.countP_cons]
    by_cases heq : g (q + 1) = g q
    · rw [nextPulse, if_pos heq] at hrest hbound hend
      have hlong : stays q + 1 ≤ stays (q + 2) := by
        unfold stays
        rcases hg q (by omega) heq with h | h <;> split_ifs <;> omega
      have hindex : q + 2 * (n + 1) = q + 2 + 2 * n := by omega
      rw [nextPulse, if_pos heq, heq, beq_self_eq_true, if_pos rfl, hindex]
      omega
    · rw [nextPulse, if_neg heq] at hrest
      have hshort : (g (q + 1) == g q) = false := by simpa using heq
      have := hmono q (q + 1) (by omega)
      have := hmono (q + 1 + 2 * n) (q + 2 * (n + 1)) (by omega)
      rw [nextPulse, if_neg heq, hshort, if_neg Bool.false_ne_true]
      omega

/-- The Manchester train of `(0, 0)` at the divider 32 has two long pulses for each frame:
the detector stays at the divider 16. -/
theorem not_detects : ¬ ∀ (c : Coding) (first : Bool) (t : Token) (old : Vector UInt32 2) (r n : ℕ),
    r = 16 ∨ r = 32 ∨ r = 64 → 16 ≤ n →
      Detects r (c.level first (repeatedBits (generate old t.versionOrCustomerId t.data))) n := by
  intro h
  have hdetects := h .manchester true ⟨0, 0⟩ #v[0, 0] 32 16 (.inr (.inl rfl)) le_rfl
  rw [repeatedBits_generate, detects_iff_hasSync (.inr (.inl rfl)) _ le_rfl, reset_eq_start]
    at hdetects
  obtain ⟨i, hi, hten, -⟩ := (hasSync_double (.inl rfl) _).mp hdetects
  generalize hg : cut (Coding.manchester.level true (cyclicFrame ⟨0, 0⟩)) (128 * 16) = g at hi hten
  obtain ⟨k, hk, hend, -⟩ := pulsesUpTo_eq g (128 * 16) (128 * 16) (Nat.zero_le _) (by omega)
  rw [train, hg, hk, length_pulses] at hi
  rw [train, hg, hk, errorsAt, take_pulses _ _ hi.le, drop_pulses] at hten
  have hlevel : ∀ p, p + 2 ≤ 2048 → g (p + 1) = g p → p % 128 = 17 ∨ p % 128 = 127 := by
    intro p hp heq
    subst hg
    rw [cut, if_pos (by omega), cut, if_pos (by omega)] at heq
    exact manchesterLevel_zero heq
  have hinside : (nextPulse g)^[i - (50 * (i / 50) - 1)]
      ((nextPulse g)^[50 * (i / 50) - 1] 0) ≤ 2048 := by
    have hindex : i - (50 * (i / 50) - 1) + (50 * (i / 50) - 1) = i := by omega
    rw [← Function.iterate_add_apply, hindex]
    exact (iterate_nextPulse_lt hi).le.trans hend
  have hle := countP_isLong_le hlevel hinside
  unfold stays at hle
  split_ifs at hle <;> omega

end CarrierDecoder

end RfidTool

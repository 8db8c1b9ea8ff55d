import RfidTool.Rfid.CarrierLock

/-!
# The event protocol of the carrier decoder

`Protocol` says what a listener of the detector may rely on, for samples of any lengths and
levels: pulses come behind a synchronisation and are classified by the ranges of its divider,
two synchronisations are separated by a loss, and a loss has ten bad samples among the last
50. The invariant `Tracked` ties the fields of the detector to the samples and the events so
far: the two counters to the current window, `hasSync` and `carrierDivider` to the last
notified change. Calls of `checkPulses` one after the other are one run over all samples.

## Main definitions

* `Notified`, `InSync`: events by the index of the sample that is answered with them.
* `Protocol`: the order of the events and what they say about the samples.
* `Tracked`: the invariant of the detector.
-/

namespace RfidTool

/-- Sample `n` is answered with the event `e`. -/
def Notified (events : List (Option CarrierEvent)) (n : ℕ) (e : CarrierEvent) : Prop :=
  events[n]? = some (some e)

/-- The last change notified before sample `n` is a synchronisation with `divider`. -/
def InSync (events : List (Option CarrierEvent)) (divider : UInt8) (n : ℕ) : Prop :=
  ∃ m < n, Notified events m (.syncChanged true divider) ∧
    ∀ k, m < k → k < n → ∀ hasSync other, ¬ Notified events k (.syncChanged hasSync other)

/-- Among at most 50 samples, the last ones before sample `n`, ten are out of the ranges of `r`. -/
def TenBad (r : ℕ) (xs : List Sample) (n : ℕ) : Prop :=
  ∃ start ≤ n, n ≤ start + 50 ∧
    ((xs.take n).drop start).countP (fun x => decide (¬ InRange r x)) = 10

/-- The event protocol for the samples `xs` and their answers. -/
structure Protocol (xs : List Sample) (events : List (Option CarrierEvent)) : Prop where
  length_eq : events.length = xs.length
  newPulse : ∀ n isHigh isLong, Notified events n (.newPulse isHigh isLong) →
    ∃ divider x, InSync events divider n ∧ xs[n]? = some x ∧ isHigh = x.isHigh ∧
      if isLong then 7 * divider.toNat ≤ x.getLengthUs ∧ x.getLengthUs ≤ 9 * divider.toNat
      else 3 * divider.toNat ≤ x.getLengthUs ∧ x.getLengthUs ≤ 5 * divider.toNat
  separated : ∀ m n divider other, m < n → Notified events m (.syncChanged true divider) →
    Notified events n (.syncChanged true other) →
      ∃ k, m < k ∧ k < n ∧ Notified events k (.syncChanged false 0)
  lost : ∀ n divider other, InSync events divider n →
    Notified events n (.syncChanged false other) → TenBad divider.toNat xs n

namespace CarrierDecoder

/-- `checkPulses`: the state behind the samples, and what each of them is answered with. -/
def checkPulses (d : CarrierDecoder) (samples : List Sample) :
    CarrierDecoder × List (Option CarrierEvent) :=
  (machine.final d samples, machine.trace d samples)

/-- Calls of `checkPulses` one after the other. -/
def checkCalls (d : CarrierDecoder) : List (List Sample) →
    CarrierDecoder × List (Option CarrierEvent)
  | [] => (d, [])
  | samples :: calls =>
    let first := d.checkPulses samples
    let rest := first.1.checkCalls calls
    (rest.1, first.2 ++ rest.2)

/-- The fields that do not depend on the samples: the ranges are the ones that
`updatePulseRange` computes, in order, and the counters of the window are small. -/
structure Sane (d : CarrierDecoder) : Prop where
  divider : d.carrierDivider = 16 ∨ d.carrierDivider = 32 ∨ d.carrierDivider = 64
  ranges : d.updatePulseRange = d
  ordered : d.shortMin < d.shortMax ∧ d.shortMax < d.longMin ∧ d.longMin < d.longMax
  pulseCount : d.pulseCount < 50
  errorCount : d.errorCount ≤ 10

/-- The calls are one run over all their samples. -/
theorem checkCalls_eq (d : CarrierDecoder) (calls : List (List Sample)) :
    d.checkCalls calls = d.checkPulses calls.flatten := by
  induction calls generalizing d with
  | nil => rfl
  | cons samples calls ih =>
    simp only [checkCalls, ih, checkPulses, List.flatten_cons, Transducer.final_append,
      Transducer.trace_append]

end CarrierDecoder

/-! ## Answers by their index -/

theorem Notified.lt {events : List (Option CarrierEvent)} {n : ℕ} {e : CarrierEvent}
    (h : Notified events n e) : n < events.length :=
  (List.getElem?_eq_some_iff.mp h).1

theorem notified_snoc {events : List (Option CarrierEvent)} {answer : Option CarrierEvent}
    {n : ℕ} {e : CarrierEvent} :
    Notified (events ++ [answer]) n e ↔
      Notified events n e ∨ n = events.length ∧ answer = some e := by
  unfold Notified
  rcases Nat.lt_trichotomy n events.length with h | h | h
  · rw [List.getElem?_append_left h]
    grind
  · grind
  · grind

theorem notified_snoc_of_lt {events : List (Option CarrierEvent)} {answer : Option CarrierEvent}
    {n : ℕ} {e : CarrierEvent} (h : n < events.length) :
    Notified (events ++ [answer]) n e ↔ Notified events n e := by
  rw [notified_snoc]
  grind

/-- An answer does not change what came before it. -/
theorem inSync_snoc {events : List (Option CarrierEvent)} {answer : Option CarrierEvent}
    {divider : UInt8} {n : ℕ} (h : n ≤ events.length) :
    InSync (events ++ [answer]) divider n ↔ InSync events divider n := by
  unfold InSync
  constructor
  · rintro ⟨m, hm, hsync, hbetween⟩
    refine ⟨m, hm, (notified_snoc_of_lt (by omega)).mp hsync, ?_⟩
    intro k hmk hkn hasSync other hchange
    exact hbetween k hmk hkn hasSync other ((notified_snoc_of_lt (by omega)).mpr hchange)
  · rintro ⟨m, hm, hsync, hbetween⟩
    refine ⟨m, hm, (notified_snoc_of_lt (by omega)).mpr hsync, ?_⟩
    intro k hmk hkn hasSync other hchange
    exact hbetween k hmk hkn hasSync other ((notified_snoc_of_lt (by omega)).mp hchange)

/-- An answer that is no change keeps the synchronisation. -/
theorem InSync.snoc {events : List (Option CarrierEvent)} {answer : Option CarrierEvent}
    {divider : UInt8} (h : InSync events divider events.length)
    (hanswer : ∀ hasSync other, answer ≠ some (.syncChanged hasSync other)) :
    InSync (events ++ [answer]) divider (events.length + 1) := by
  obtain ⟨m, hm, hsync, hbetween⟩ := h
  refine ⟨m, by omega, (notified_snoc_of_lt hm).mpr hsync, ?_⟩
  intro k hmk hkn hasSync other hchange
  rcases notified_snoc.mp hchange with hold | ⟨-, hnew⟩
  · exact hbetween k hmk hold.lt hasSync other hold
  · exact hanswer hasSync other hnew

theorem inSync_of_answer (events : List (Option CarrierEvent)) (divider : UInt8) :
    InSync (events ++ [some (.syncChanged true divider)]) divider (events.length + 1) := by
  refine ⟨events.length, by omega, notified_snoc.mpr (.inr ⟨rfl, rfl⟩), ?_⟩
  intro k hmk hkn
  omega

/-- There is one last change. -/
theorem InSync.unique {events : List (Option CarrierEvent)} {divider other : UInt8} {n : ℕ}
    (h : InSync events divider n) (h' : InSync events other n) : divider = other := by
  obtain ⟨m, hm, hsync, hbetween⟩ := h
  obtain ⟨k, hk, hsync', hbetween'⟩ := h'
  rcases Nat.lt_trichotomy m k with hlt | rfl | hlt
  · exact absurd hsync' (hbetween k hlt hk _ _)
  · have heq : CarrierEvent.syncChanged true divider = .syncChanged true other :=
      Option.some.inj (Option.some.inj (hsync.symm.trans hsync'))
    exact (CarrierEvent.syncChanged.inj heq).2
  · exact absurd hsync (hbetween' m hlt hm _ _)

/-! ## The protocol goes on -/

/-- What the protocol asks of the answer to the next sample. -/
structure Follows (xs : List Sample) (events : List (Option CarrierEvent)) (x : Sample)
    (answer : Option CarrierEvent) : Prop where
  newPulse : ∀ isHigh isLong, answer = some (.newPulse isHigh isLong) →
    ∃ divider, InSync events divider events.length ∧ isHigh = x.isHigh ∧
      if isLong then 7 * divider.toNat ≤ x.getLengthUs ∧ x.getLengthUs ≤ 9 * divider.toNat
      else 3 * divider.toNat ≤ x.getLengthUs ∧ x.getLengthUs ≤ 5 * divider.toNat
  separated : ∀ other, answer = some (.syncChanged true other) →
    ∀ m divider, Notified events m (.syncChanged true divider) →
      ∃ k, m < k ∧ Notified events k (.syncChanged false 0)
  lost : ∀ other, answer = some (.syncChanged false other) →
    ∀ divider, InSync events divider events.length → TenBad divider.toNat xs xs.length

theorem protocol_nil : Protocol [] [] := by
  refine ⟨rfl, ?_, ?_, ?_⟩
  · intro n isHigh isLong h
    exact absurd h.lt (Nat.not_lt_zero n)
  · intro m n divider other hmn h
    exact absurd h.lt (Nat.not_lt_zero m)
  · intro n divider other _ h
    exact absurd h.lt (Nat.not_lt_zero n)

theorem tenBad_snoc {r : ℕ} {xs : List Sample} {n : ℕ} (x : Sample) (h : n ≤ xs.length) :
    TenBad r (xs ++ [x]) n ↔ TenBad r xs n := by
  unfold TenBad
  rw [List.take_append_of_le_length h]

theorem Protocol.snoc {xs : List Sample} {events : List (Option CarrierEvent)} {x : Sample}
    {answer : Option CarrierEvent} (h : Protocol xs events) (hnext : Follows xs events x answer) :
    Protocol (xs ++ [x]) (events ++ [answer]) := by
  have hlength := h.length_eq
  refine ⟨by simp [hlength], ?_, ?_, ?_⟩
  · intro n isHigh isLong hpulse
    rcases notified_snoc.mp hpulse with hold | ⟨rfl, hnew⟩
    · obtain ⟨divider, y, hsync, hy, hclass⟩ := h.newPulse n isHigh isLong hold
      have hn := hold.lt
      refine ⟨divider, y, (inSync_snoc (by omega)).mpr hsync, ?_, hclass⟩
      rw [List.getElem?_append_left (by omega), hy]
    · obtain ⟨divider, hsync, hclass⟩ := hnext.newPulse isHigh isLong hnew
      refine ⟨divider, x, (inSync_snoc le_rfl).mpr hsync, ?_, hclass⟩
      rw [hlength, List.getElem?_concat_length]
  · intro m n divider other hmn hfirst hsecond
    rcases notified_snoc.mp hsecond with hold | ⟨rfl, hnew⟩
    · have hn := hold.lt
      have hfirst' := (notified_snoc_of_lt (by omega)).mp hfirst
      obtain ⟨k, hmk, hkn, hlost⟩ := h.separated m n divider other hmn hfirst' hold
      exact ⟨k, hmk, hkn, (notified_snoc_of_lt (by omega)).mpr hlost⟩
    · have hfirst' := (notified_snoc_of_lt hmn).mp hfirst
      obtain ⟨k, hmk, hlost⟩ := hnext.separated other hnew m divider hfirst'
      exact ⟨k, hmk, hlost.lt, (notified_snoc_of_lt hlost.lt).mpr hlost⟩
  · intro n divider other hsync hlost
    rcases notified_snoc.mp hlost with hold | ⟨rfl, hnew⟩
    · have hn := hold.lt
      rw [tenBad_snoc x (by omega)]
      exact h.lost n divider other ((inSync_snoc (by omega)).mp hsync) hold
    · rw [hlength, tenBad_snoc x le_rfl]
      exact hnext.lost other hnew divider ((inSync_snoc le_rfl).mp hsync)

/-- A silent answer asks for nothing. -/
theorem follows_none (xs : List Sample) (events : List (Option CarrierEvent)) (x : Sample) :
    Follows xs events x none := by
  refine ⟨?_, ?_, ?_⟩
  all_goals
    intros
    contradiction

/-! ## The window of the detector -/

/-- Behind `xs` the current window has been open for at most `pulseCount + 1` samples, and
`errorCount` of them were out of the ranges of `r`. -/
def Window (r pulseCount errorCount : ℕ) (xs : List Sample) : Prop :=
  ∃ start ≤ xs.length, xs.length ≤ start + pulseCount + 1 ∧
    (xs.drop start).countP (fun x => decide (¬ InRange r x)) = errorCount

/-- A window is opened behind all samples. -/
theorem window_open (r : ℕ) (xs : List Sample) : Window r 0 0 xs :=
  ⟨xs.length, le_rfl, by omega, by simp⟩

/-- A window is opened with the next sample. -/
theorem window_open_snoc (r : ℕ) (xs : List Sample) (x : Sample) :
    Window r 0 (if InRange r x then 0 else 1) (xs ++ [x]) := by
  refine ⟨xs.length, by simp, by simp, ?_⟩
  rw [List.drop_left, List.countP_singleton]
  split_ifs <;> simp_all

/-- The next sample joins the window. -/
theorem Window.snoc {r pulseCount errorCount : ℕ} {xs : List Sample}
    (h : Window r pulseCount errorCount xs) (x : Sample) :
    Window r (pulseCount + 1) (errorCount + if InRange r x then 0 else 1) (xs ++ [x]) := by
  obtain ⟨start, hstart, hlength, hcount⟩ := h
  refine ⟨start, ?_, ?_, ?_⟩
  · simp only [List.length_append, List.length_singleton]
    omega
  · simp only [List.length_append, List.length_singleton]
    omega
  · rw [List.drop_append_of_le_length hstart, List.countP_append, hcount, List.countP_singleton]
    split_ifs <;> simp_all

/-- Ten errors of a window are ten bad samples among the last 50. -/
theorem Window.tenBad {r pulseCount : ℕ} {xs : List Sample} (h : Window r pulseCount 10 xs)
    (hpulse : pulseCount < 50) : TenBad r xs xs.length := by
  obtain ⟨start, hstart, hlength, hcount⟩ := h
  exact ⟨start, hstart, by omega, by rw [List.take_length, hcount]⟩

namespace CarrierDecoder

/-! ## One sample -/

theorem Ranged.inRange_iff {d : CarrierDecoder} (h : d.Ranged) (x : Sample) :
    InRange d.carrierDivider.toNat x ↔
      (d.isShort x.getLengthUs || d.isLong x.getLengthUs) = true := by
  rw [Bool.or_eq_true, h.isShort_iff, h.isLong_iff]
  rfl

/-- With synchronisation a sample in range is a pulse and any other one is an error. -/
theorem Ranged.follow_cases {d : CarrierDecoder} (h : d.Ranged) {divider : UInt8}
    (hdivider : d.carrierDivider = divider) (x : Sample) :
    (InRange divider.toNat x ∧ ∃ isLong, d.follow x = (d, some (.newPulse x.isHigh isLong)) ∧
      if isLong then 7 * divider.toNat ≤ x.getLengthUs ∧ x.getLengthUs ≤ 9 * divider.toNat
      else 3 * divider.toNat ≤ x.getLengthUs ∧ x.getLengthUs ≤ 5 * divider.toNat) ∨
    (¬ InRange divider.toNat x ∧
      d.follow x = ({ d with errorCount := d.errorCount + 1 }, none)) := by
  subst hdivider
  have hhigh : (!x.isLow) = x.isHigh := Bool.not_not x.isHigh
  rw [h.inRange_iff]
  unfold follow
  dsimp only
  rw [hhigh]
  split_ifs with hlong hshort
  · exact .inl ⟨by rw [hlong, Bool.or_true], true, rfl, (h.isLong_iff _).mp hlong⟩
  · refine .inl ⟨by rw [hshort, Bool.true_or], false, rfl, ?_⟩
    simpa using (h.isShort_iff _).mp hshort
  · exact .inr ⟨by grind, rfl⟩

/-- What the detector has kept of the samples and the answers so far. -/
structure Tracked (xs : List Sample) (events : List (Option CarrierEvent))
    (d : CarrierDecoder) : Prop where
  protocol : Protocol xs events
  ranged : d.Ranged
  pulseCount : d.pulseCount.toNat < 50
  errorCount : d.errorCount.toNat ≤ 10
  window : Window d.carrierDivider.toNat d.pulseCount.toNat d.errorCount.toNat xs
  synced : d.hasSync = true → InSync events d.carrierDivider events.length
  unsynced : d.hasSync = false → ∀ m divider, Notified events m (.syncChanged true divider) →
    ∃ k, m < k ∧ Notified events k (.syncChanged false 0)

theorem tracked_reset : Tracked [] [] reset where
  protocol := protocol_nil
  ranged := ranged_reset
  pulseCount := by decide
  errorCount := by decide
  window := window_open _ _
  synced := by
    intro hsync
    cases hsync
  unsynced := by
    intro _ m divider h
    exact absurd h.lt (Nat.not_lt_zero m)

/-- The window with the next sample in it, whatever the sample is read as. -/
theorem Tracked.nextWindow {xs : List Sample} {events : List (Option CarrierEvent)}
    {d : CarrierDecoder} (h : Tracked xs events d) (herr : d.errorCount < 10) (x : Sample) :
    d.nextWindow.pulseCount.toNat < 50 ∧ d.nextWindow.errorCount.toNat < 10 ∧
      Window d.carrierDivider.toNat d.nextWindow.pulseCount.toNat
        (d.nextWindow.errorCount.toNat + if InRange d.carrierDivider.toNat x then 0 else 1)
        (xs ++ [x]) := by
  have herr' : d.errorCount.toNat < 10 := UInt8.lt_iff_toNat_lt.mp herr
  rcases toNat_nextWindow h.pulseCount with ⟨-, hpulse, herror⟩ | ⟨hlt, hpulse, herror⟩
  · rw [hpulse, herror, Nat.zero_add]
    exact ⟨by omega, by omega, window_open_snoc _ xs x⟩
  · rw [hpulse, herror]
    exact ⟨hlt, herr', h.window.snoc x⟩

/-- A sample that is counted in the window keeps the invariant, when the synchronisation
follows the answer. -/
theorem Tracked.counted {xs : List Sample} {events : List (Option CarrierEvent)}
    {d d' : CarrierDecoder} {x : Sample} {answer : Option CarrierEvent}
    (h : Tracked xs events d) (herr : d.errorCount < 10) (hranged : d'.Ranged)
    (hdivider : d'.carrierDivider = d.carrierDivider)
    (hpulse : d'.pulseCount = d.nextWindow.pulseCount)
    (hcount : d'.errorCount = if InRange d.carrierDivider.toNat x then d.nextWindow.errorCount
      else d.nextWindow.errorCount + 1)
    (hanswer : Follows xs events x answer)
    (hsynced : d'.hasSync = true →
      InSync (events ++ [answer]) d.carrierDivider (events.length + 1))
    (hunsynced : d'.hasSync = false → ∀ m divider,
      Notified (events ++ [answer]) m (.syncChanged true divider) →
        ∃ k, m < k ∧ Notified (events ++ [answer]) k (.syncChanged false 0)) :
    Tracked (xs ++ [x]) (events ++ [answer]) d' := by
  obtain ⟨hfifty, hten, hwindow⟩ := h.nextWindow herr x
  have hadd := UInt8.toNat_add_one (x := d.nextWindow.errorCount) rfl (by omega)
  have htoNat : d'.errorCount.toNat =
      d.nextWindow.errorCount.toNat + if InRange d.carrierDivider.toNat x then 0 else 1 := by
    rw [hcount]
    split_ifs
    · rfl
    · exact hadd
  constructor
  · exact h.protocol.snoc hanswer
  · exact hranged
  · rw [hpulse]
    exact hfifty
  · rw [htoNat]
    split_ifs <;> omega
  · rw [hdivider, hpulse, htoNat]
    exact hwindow
  · intro hsync
    rw [hdivider, List.length_append, List.length_singleton]
    exact hsynced hsync
  · exact hunsynced

theorem Tracked.nextCarrier {xs : List Sample} {events : List (Option CarrierEvent)}
    {d : CarrierDecoder} (h : Tracked xs events d) (herr : 10 ≤ d.errorCount) (x : Sample) :
    Tracked (xs ++ [x]) (events ++ [d.nextCarrier.2]) d.nextCarrier.1 := by
  have hten : d.errorCount.toNat = 10 :=
    Nat.le_antisymm h.errorCount (UInt8.le_iff_toNat_le.mp herr)
  have hlost : Follows xs events x (some (.syncChanged false 0)) := by
    refine ⟨fun _ _ heq => (by cases heq), fun _ heq => (by cases heq), ?_⟩
    intro other _ divider hsync
    have hwindow := h.window
    rw [hten] at hwindow
    cases hsearching : d.hasSync with
    | true =>
      rw [hsync.unique (h.synced hsearching)]
      exact hwindow.tenBad h.pulseCount
    | false =>
      obtain ⟨m, hm, hfirst, hbetween⟩ := hsync
      obtain ⟨k, hmk, hchange⟩ := h.unsynced hsearching m divider hfirst
      exact absurd hchange (hbetween k hmk hchange.lt _ _)
  constructor
  · exact h.protocol.snoc hlost
  · exact ranged_nextCarrier h.ranged
  · exact Nat.zero_lt_succ 49
  · exact Nat.zero_le 10
  · exact window_open _ _
  · intro hsync
    cases hsync
  · intro _ m divider hfirst
    have hm := hfirst.lt
    refine ⟨events.length, ?_, notified_snoc.mpr (.inr ⟨rfl, rfl⟩)⟩
    rcases notified_snoc.mp hfirst with hold | ⟨-, hnew⟩
    · exact hold.lt
    · cases hnew

theorem Tracked.follow {xs : List Sample} {events : List (Option CarrierEvent)}
    {d : CarrierDecoder} (h : Tracked xs events d) (herr : d.errorCount < 10)
    (hsync : d.hasSync = true) (x : Sample) :
    Tracked (xs ++ [x]) (events ++ [(d.nextWindow.follow x).2]) (d.nextWindow.follow x).1 := by
  have hranged := ranged_nextWindow h.ranged
  have hdivider := nextWindow_carrierDivider d
  have hsynced := h.synced hsync
  have hsync' : d.nextWindow.hasSync = true := by rw [nextWindow_hasSync, hsync]
  rcases hranged.follow_cases hdivider x with ⟨hin, isLong, hfollow, hclass⟩ | ⟨hout, hfollow⟩
  · have hpulse : Follows xs events x (some (.newPulse x.isHigh isLong)) := by
      refine ⟨?_, fun _ heq => (by cases heq), fun _ heq => (by cases heq)⟩
      intro isHigh isLong' heq
      obtain ⟨rfl, rfl⟩ := CarrierEvent.newPulse.inj (Option.some.inj heq)
      exact ⟨d.carrierDivider, hsynced, rfl, hclass⟩
    rw [hfollow]
    refine h.counted herr hranged hdivider rfl (if_pos hin).symm hpulse ?_ ?_
    · intro _
      exact hsynced.snoc fun _ _ heq => by cases heq
    · intro hlost
      rw [hsync'] at hlost
      cases hlost
  · rw [hfollow]
    refine h.counted herr ⟨hranged.1, hranged.2, hranged.3, hranged.4, hranged.5⟩ hdivider rfl
      (if_neg hout).symm (follows_none xs events x) ?_ ?_
    · intro _
      exact hsynced.snoc fun _ _ heq => by cases heq
    · intro hlost
      dsimp only at hlost
      rw [hsync'] at hlost
      cases hlost

theorem Tracked.search {xs : List Sample} {events : List (Option CarrierEvent)}
    {d : CarrierDecoder} (h : Tracked xs events d) (herr : d.errorCount < 10)
    (hsync : d.hasSync = false) (x : Sample) :
    Tracked (xs ++ [x]) (events ++ [(d.nextWindow.search x.getLengthUs).2])
      (d.nextWindow.search x.getLengthUs).1 := by
  have hranged := ranged_count (ranged_nextWindow h.ranged) x.getLengthUs
  have hsync' : (d.nextWindow.count x.getLengthUs).hasSync = false := by
    rw [count_hasSync, nextWindow_hasSync, hsync]
  have hdivider : (d.nextWindow.count x.getLengthUs).carrierDivider = d.carrierDivider := by
    rw [count_carrierDivider, nextWindow_carrierDivider]
  have hpulse := count_pulseCount d.nextWindow x.getLengthUs
  have hcount : (d.nextWindow.count x.getLengthUs).errorCount =
      if InRange d.carrierDivider.toNat x then d.nextWindow.errorCount
      else d.nextWindow.errorCount + 1 := by
    have hin := (ranged_nextWindow h.ranged).inRange_iff x
    rw [nextWindow_carrierDivider] at hin
    rw [count_errorCount, if_congr hin rfl rfl]
  rcases search_cases d.nextWindow x.getLengthUs with hsearch | ⟨hsearch, -⟩
  · rw [hsearch]
    refine h.counted herr hranged hdivider hpulse hcount (follows_none xs events x) ?_ ?_
    · intro hfound
      rw [hsync'] at hfound
      cases hfound
    · intro _ m divider hfirst
      rcases notified_snoc.mp hfirst with hold | ⟨-, hnew⟩
      · obtain ⟨k, hmk, hlost⟩ := h.unsynced hsync m divider hold
        exact ⟨k, hmk, (notified_snoc_of_lt hlost.lt).mpr hlost⟩
      · cases hnew
  · have hfound : Follows xs events x (some (.syncChanged true d.nextWindow.carrierDivider)) := by
      refine ⟨fun _ _ heq => (by cases heq), ?_, fun _ heq => (by cases heq)⟩
      intro _ _ m divider hfirst
      exact h.unsynced hsync m divider hfirst
    rw [hsearch]
    refine h.counted herr ⟨hranged.1, hranged.2, hranged.3, hranged.4, hranged.5⟩ hdivider hpulse
      hcount hfound ?_ ?_
    · intro _
      rw [nextWindow_carrierDivider]
      exact inSync_of_answer events d.carrierDivider
    · intro hlost
      cases hlost

/-- One sample keeps the invariant. -/
theorem Tracked.checkSample {xs : List Sample} {events : List (Option CarrierEvent)}
    {d : CarrierDecoder} (h : Tracked xs events d) (x : Sample) :
    Tracked (xs ++ [x]) (events ++ [(d.checkSample x).2]) (d.checkSample x).1 := by
  rcases checkSample_cases d x with ⟨herr, hstep⟩ | ⟨herr, hsync, hstep⟩ | ⟨herr, hsync, hstep⟩
  · rw [hstep]
    exact h.nextCarrier herr x
  · rw [hstep]
    exact h.follow herr hsync x
  · rw [hstep]
    exact h.search herr hsync x

/-- So do all samples from the constructed state. -/
theorem tracked_checkPulses (xs : List Sample) :
    Tracked xs (reset.checkPulses xs).2 (reset.checkPulses xs).1 :=
  machine.history_invariant Tracked tracked_reset (fun _ _ _ x h => h.checkSample x) xs

theorem Ranged.updatePulseRange_eq {d : CarrierDecoder} (h : d.Ranged) :
    d.updatePulseRange = d := by
  have hsame := ranged_updatePulseRange h.divider
  have hdivider : d.updatePulseRange.carrierDivider = d.carrierDivider := rfl
  have hshortMin : d.updatePulseRange.shortMin = d.shortMin :=
    UInt16.toNat_inj.mp (by rw [hsame.shortMin, h.shortMin, hdivider])
  have hshortMax : d.updatePulseRange.shortMax = d.shortMax :=
    UInt16.toNat_inj.mp (by rw [hsame.shortMax, h.shortMax, hdivider])
  have hlongMin : d.updatePulseRange.longMin = d.longMin :=
    UInt16.toNat_inj.mp (by rw [hsame.longMin, h.longMin, hdivider])
  have hlongMax : d.updatePulseRange.longMax = d.longMax :=
    UInt16.toNat_inj.mp (by rw [hsame.longMax, h.longMax, hdivider])
  calc d.updatePulseRange
      = { d with
          shortMin := d.updatePulseRange.shortMin, shortMax := d.updatePulseRange.shortMax
          longMin := d.updatePulseRange.longMin, longMax := d.updatePulseRange.longMax } := rfl
    _ = d := by rw [hshortMin, hshortMax, hlongMin, hlongMax]

theorem Ranged.ordered {d : CarrierDecoder} (h : d.Ranged) :
    d.shortMin < d.shortMax ∧ d.shortMax < d.longMin ∧ d.longMin < d.longMax := by
  have hpos : 0 < d.carrierDivider.toNat := by
    rcases h.divider with hd | hd | hd <;> rw [hd] <;> decide
  simp only [UInt16.lt_iff_toNat_lt, h.shortMin, h.shortMax, h.longMin, h.longMax]
  omega

theorem Tracked.sane {xs : List Sample} {events : List (Option CarrierEvent)}
    {d : CarrierDecoder} (h : Tracked xs events d) : d.Sane where
  divider := h.ranged.divider
  ranges := h.ranged.updatePulseRange_eq
  ordered := h.ranged.ordered
  pulseCount := UInt8.lt_iff_toNat_lt.mpr h.pulseCount
  errorCount := UInt8.le_iff_toNat_le.mpr h.errorCount

/-- However the samples are cut into calls, their answers keep to the protocol, and every
state that the detector gets into is sane. -/
theorem event_protocol (calls : List (List Sample)) :
    Protocol calls.flatten (reset.checkCalls calls).2 ∧ (reset.checkCalls calls).1.Sane := by
  have htracked := tracked_checkPulses calls.flatten
  rw [checkCalls_eq]
  exact ⟨htracked.protocol, htracked.sane⟩

end CarrierDecoder

end RfidTool

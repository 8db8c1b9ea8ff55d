import RfidTool.Rfid.CodingDecoder

/-!
# Tokens and changes of the synchronisation

`Coding.log` is everything that the three decoders notify, in order. A token is
`fresh` when all bits of its frame follow the last change of the synchronisation.
The change resets the coding decoder but never reaches the `Em4100Decoder`, so a
frame that was begun before it may be completed after it (`stale_token`). When
every change finds the `Em4100Decoder` at rest, all tokens are fresh.
-/

namespace RfidTool

inductive Notification where
  | syncChanged (hasSync : Bool) (carrierDivider : UInt8)
  | newBit (isOne : Bool)
  | newToken (t : Token)
  deriving DecidableEq, Repr

/-- The bits notified since the last change of the synchronisation. -/
def bitsSinceSync (log : List Notification) : List Bool :=
  log.foldl (fun bits n =>
    match n with
    | .syncChanged _ _ => []
    | .newBit b => bits ++ [b]
    | .newToken _ => bits) []

/-- Every token was notified with its whole frame behind the last change of the
synchronisation. -/
def AllFresh (log : List Notification) : Prop :=
  ∀ old t later, log = old ++ .newToken t :: later → frame t <:+ bitsSinceSync old

/-- A sample makes the carrier decoder notify a change of the synchronisation. -/
def CarrierDecoder.changesSync (d : CarrierDecoder) (x : Sample) : Bool :=
  match (d.checkSample x).2 with
  | some (.syncChanged _ _) => true
  | _ => false

/-- Nothing of a frame has been read. -/
def Em4100Decoder.atRest (d : Em4100Decoder) : Bool := d.state == .preamble && d.bitCount == 0

namespace Coding

variable (c : Coding)

/-- The states of the three decoders. -/
abbrev State : Type := (CarrierDecoder × c.Decoder) × Em4100Decoder

/-- What the decoders behind the carrier decoder do for its event. -/
def relay (b : c.Decoder) (d : Em4100Decoder) (e : CarrierEvent) :
    (c.Decoder × Em4100Decoder) × List Notification :=
  match e with
  | .syncChanged hasSync divider => (((c.onEvent b e).1, d), [.syncChanged hasSync divider])
  | .newPulse _ _ =>
    match c.onEvent b e with
    | (b, none) => ((b, d), [])
    | (b, some bit) =>
      ((b, (d.onEvent bit).1), .newBit bit :: ((d.onEvent bit).2.map .newToken).toList)

/-- Everything notified for a list of samples. -/
def log : c.State → List Sample → List Notification
  | _, [] => []
  | ((a, b), d), x :: xs =>
    match a.checkSample x with
    | (a, none) => log ((a, b), d) xs
    | (a, some e) => (c.relay b d e).2 ++ log ((a, (c.relay b d e).1.1), (c.relay b d e).1.2) xs

/-- Every change of the synchronisation in a run finds the `Em4100Decoder` at rest. -/
def CleanChanges (s : c.State) (xs : List Sample) : Prop :=
  ∀ before x after, xs = before ++ x :: after →
    (c.chain.final s before).1.1.changesSync x → (c.chain.final s before).2.atRest

/-! ## One sample -/

variable {c}

theorem cleanChanges_nil (s : c.State) : c.CleanChanges s [] := by
  intro before x after h
  simp at h

theorem cleanChanges_cons {s : c.State} {x : Sample} {xs : List Sample} :
    c.CleanChanges s (x :: xs) ↔
      (s.1.1.changesSync x → s.2.atRest) ∧ c.CleanChanges (c.chain.step s x).1 xs := by
  constructor
  · intro h
    refine ⟨h [] x xs rfl, ?_⟩
    rintro before y after rfl hchange
    exact h (x :: before) y after rfl hchange
  · rintro ⟨hhead, htail⟩ before y after heq hchange
    cases before with
    | nil =>
      obtain ⟨rfl, -⟩ := List.cons.inj heq
      exact hhead hchange
    | cons z before =>
      obtain ⟨rfl, hxs⟩ := List.cons.inj heq
      exact htail before y after hxs hchange

instance decidableCleanChanges (c : Coding) :
    (s : c.State) → (xs : List Sample) → Decidable (c.CleanChanges s xs)
  | s, [] => isTrue (cleanChanges_nil s)
  | s, x :: xs =>
    have := decidableCleanChanges c (c.chain.step s x).1 xs
    decidable_of_iff _ cleanChanges_cons.symm

theorem step_quiet {a a' : CarrierDecoder} {x : Sample} (h : a.checkSample x = (a', none))
    (b : c.Decoder) (d : Em4100Decoder) : (c.chain.step ((a, b), d) x).1 = ((a', b), d) := by
  have hinner : ((CarrierDecoder.machine.comp c.machine).step (a, b) x) = ((a', b), none) := by
    rw [Transducer.comp_step_none (by rw [CarrierDecoder.machine_step, h]),
      CarrierDecoder.machine_step, h]
  rw [chain, Transducer.comp_step_none (by rw [hinner]), hinner]

theorem step_event {a a' : CarrierDecoder} {x : Sample} {e : CarrierEvent}
    (h : a.checkSample x = (a', some e)) (b : c.Decoder) (d : Em4100Decoder) :
    (c.chain.step ((a, b), d) x).1 = ((a', (c.relay b d e).1.1), (c.relay b d e).1.2) := by
  have hinner : ((CarrierDecoder.machine.comp c.machine).step (a, b) x) =
      ((a', (c.onEvent b e).1), (c.onEvent b e).2) := by
    rw [Transducer.comp_step_some (by rw [CarrierDecoder.machine_step, h]),
      CarrierDecoder.machine_step, h]
    rfl
  cases e with
  | syncChanged hasSync divider =>
    rw [onEvent_syncChanged] at hinner
    rw [chain, Transducer.comp_step_none (by rw [hinner]), hinner, relay, onEvent_syncChanged]
  | newPulse isHigh isLong =>
    cases hbit : (c.onEvent b (.newPulse isHigh isLong)).2 with
    | none =>
      have hpair : c.onEvent b (.newPulse isHigh isLong) =
          ((c.onEvent b (.newPulse isHigh isLong)).1, none) := Prod.ext rfl hbit
      rw [hbit] at hinner
      rw [chain, Transducer.comp_step_none (by rw [hinner]), hinner, relay, hpair]
    | some bit =>
      have hpair : c.onEvent b (.newPulse isHigh isLong) =
          ((c.onEvent b (.newPulse isHigh isLong)).1, some bit) := Prod.ext rfl hbit
      rw [hbit] at hinner
      rw [chain, Transducer.comp_step_some (by rw [hinner]), hinner, relay, hpair]
      rfl

end Coding

/-! ## Logs -/

/-- The bits since the last change, for a log that goes on after `bits`. -/
def track (bits : List Bool) : Notification → List Bool
  | .syncChanged _ _ => []
  | .newBit b => bits ++ [b]
  | .newToken _ => bits

/-- `AllFresh` for a log that goes on after `bits`. -/
def FreshAfter : List Bool → List Notification → Prop
  | _, [] => True
  | bits, n :: log => (∀ t, n = .newToken t → frame t <:+ bits) ∧ FreshAfter (track bits n) log

theorem allFresh_of_freshAfter {bits : List Bool} {log : List Notification}
    (h : FreshAfter bits log) (old : List Notification) (t : Token) (later : List Notification)
    (hlog : log = old ++ .newToken t :: later) : frame t <:+ old.foldl track bits := by
  induction old generalizing bits log with
  | nil =>
    subst hlog
    exact h.1 t rfl
  | cons n old ih =>
    subst hlog
    exact ih h.2 rfl

namespace Coding

open Em4100Decoder

variable {c : Coding}

/-- At rest nothing is remembered. -/
theorem matches_of_atRest {d : Em4100Decoder} {q : Framer.State} (h : Matches d q)
    (hrest : d.atRest = true) : Matches d (.hunting 0) := by
  obtain ⟨hstate, hbitCount⟩ : d.state = .preamble ∧ d.bitCount = 0 := by
    simpa [Em4100Decoder.atRest] using hrest
  match q, h with
  | .hunting k, h => exact ⟨h.1, by rw [hbitCount]; rfl, by decide, h.2.2.2⟩
  | .reading w, h => exact absurd (h.1.symm.trans hstate) (by decide)

/-- A bit, and the token that it completes, before a log that is fresh behind them. -/
theorem freshAfter_bit {d : Em4100Decoder} {q : Framer.State} {bits : List Bool}
    (hmatches : Matches d q) (hcoh : framer.Coherent q) (hpending : framer.pending q <:+ bits)
    (bit : Bool) {log : List Notification}
    (hlog : ∀ q', Matches (d.onEvent bit).1 q' → framer.Coherent q' →
      framer.pending q' <:+ bits ++ [bit] → FreshAfter (bits ++ [bit]) log) :
    FreshAfter bits (.newBit bit :: (((d.onEvent bit).2.map .newToken).toList ++ log)) := by
  obtain ⟨hnext, hout⟩ := next_matches hmatches bit
  have hcoh' := Framer.coherent_receive hcoh bit
  rw [hout]
  refine ⟨fun t ht => (by cases ht), ?_⟩
  rcases Framer.receive_cases hcoh bit with ⟨hnone, -, hpend⟩ | hrec | ⟨w, t, rfl, hacc, hrec⟩
  · simp only [hnone, Option.map_none, Option.toList_none, List.nil_append]
    refine hlog _ hnext hcoh' ?_
    rw [hpend]
    exact (List.suffix_append_self_iff).mpr hpending
  · rw [hrec] at hnext hcoh'
    simp only [hrec, Option.map_none, Option.toList_none, List.nil_append]
    exact hlog _ hnext hcoh' List.nil_suffix
  · rw [hrec] at hnext hcoh'
    simp only [hrec, Option.map_some, Option.toList_some, List.singleton_append]
    refine ⟨?_, hlog _ hnext hcoh' List.nil_suffix⟩
    intro u hu
    obtain rfl := Notification.newToken.inj hu
    have hbody := accepts_iff.mp hacc
    obtain ⟨old, hold⟩ := hpending
    refine ⟨old, ?_⟩
    rw [frame_eq_body, ← hbody]
    simp only [track, ← hold, Framer.pending, framer_preamble, List.append_assoc]

/-- The bits that the `Em4100Decoder` still remembers all follow the last change. -/
theorem freshAfter_log (xs : List Sample) {s : c.State} {q : Framer.State} {bits : List Bool}
    (hmatches : Matches s.2 q) (hcoh : framer.Coherent q) (hpending : framer.pending q <:+ bits)
    (hclean : c.CleanChanges s xs) : FreshAfter bits (c.log s xs) := by
  induction xs generalizing s q bits with
  | nil => trivial
  | cons x xs ih =>
    obtain ⟨⟨a, b⟩, d⟩ := s
    obtain ⟨hhead, htail⟩ := cleanChanges_cons.mp hclean
    rcases hx : a.checkSample x with ⟨a', _ | e⟩
    · rw [step_quiet hx] at htail
      rw [log, hx]
      exact ih hmatches hcoh hpending htail
    · rw [step_event hx] at htail
      rw [log, hx]
      cases e with
      | syncChanged hasSync divider =>
        have hzero := matches_of_atRest hmatches (hhead (by simp [CarrierDecoder.changesSync, hx]))
        exact ⟨fun t ht => (by cases ht), ih hzero Framer.coherent_zero List.suffix_rfl htail⟩
      | newPulse isHigh isLong =>
        rcases hbit : c.onEvent b (.newPulse isHigh isLong) with ⟨b', _ | bit⟩
        · simp only [relay, hbit] at htail ⊢
          exact ih hmatches hcoh hpending htail
        · simp only [relay, hbit, List.cons_append] at htail ⊢
          refine freshAfter_bit hmatches hcoh hpending bit ?_
          intro q' hmatches' hcoh' hpending'
          exact ih hmatches' hcoh' hpending' htail

/-- When every change of the synchronisation finds the `Em4100Decoder` at rest, no
token is assembled across one. -/
theorem token_after_sync (c : Coding) (d : Em4100Decoder) (samples : List Sample)
    (h : c.CleanChanges (c.fresh d) samples) : AllFresh (c.log (c.fresh d) samples) :=
  allFresh_of_freshAfter
    (freshAfter_log samples (matches_reset d) Framer.coherent_zero List.suffix_rfl h)

/-- Samples of the given lengths with alternating levels. -/
def alternating (lengths : List Int) : List Sample :=
  lengths.zipIdx.map fun (len, i) => ⟨len, i % 2 == 0⟩

/-- Five short and five long pulses at the divider 16, and the frame of `(0, 0)`. -/
def cleanSamples : List Sample :=
  alternating (.replicate 5 64 ++ .replicate 5 128 ++ (.replicate 9 128 ++ .replicate 110 64))

/-- A token that is notified after a clean change of the synchronisation. -/
theorem token_after_sync_clean :
    AllFresh (biphase.log (biphase.fresh Em4100Decoder.blank) cleanSamples) :=
  token_after_sync .biphase Em4100Decoder.blank cleanSamples (by decide +kernel)

/-- Nine ones at the divider 16, ten bad samples and one more, and then the zeros of the
frame of `(0, 0)` at the divider 32. -/
def staleSamples : List Sample :=
  alternating (.replicate 5 64 ++ .replicate 5 128 ++ .replicate 9 128 ++ .replicate 11 1000 ++
    (.replicate 5 128 ++ .replicate 5 256 ++ .replicate 110 128))

/-- The token is notified with 55 bits behind the last change of the synchronisation. -/
theorem stale_token :
    ¬ ∀ (c : Coding) (d : Em4100Decoder) (samples : List Sample),
      AllFresh (c.log (c.fresh d) samples) := by
  intro h
  have hlog : biphase.log (biphase.fresh Em4100Decoder.blank) staleSamples =
      (biphase.log (biphase.fresh Em4100Decoder.blank) staleSamples).dropLast ++
        [.newToken ⟨0, 0⟩] := by decide +kernel
  have hshort : (bitsSinceSync
      (biphase.log (biphase.fresh Em4100Decoder.blank) staleSamples).dropLast).length = 55 := by
    decide +kernel
  have := (h .biphase Em4100Decoder.blank staleSamples _ ⟨0, 0⟩ [] hlog).length_le
  rw [hshort, length_frame] at this
  omega

end Coding

end RfidTool

import RfidTool.Rfid.PulseTrain
import RfidTool.Rfid.Em4100RoundTrip

/-!
# No token but the one on the air

The bits of a train, as the decoders of both codings read them: from some bit on
they are right, and what the Manchester decoder notifies before its first long
pulse are zeros. A frame begins with a one and has no nine ones elsewhere, so 64
consecutive bits of a repeated frame that look like a frame are that frame.
-/

namespace RfidTool

open Sequence Em4100Eprom

/-! ## The Manchester decoder -/

namespace ManchesterDecoder

def machine : Transducer ManchesterDecoder CarrierEvent Bool := ⟨onEvent⟩

@[simp] theorem machine_step (d : ManchesterDecoder) (e : CarrierEvent) :
    machine.step d e = d.onEvent e := rfl

theorem onEvent_running (ffOut isHigh isLong : Bool) :
    onEvent ⟨ffOut, true⟩ (.newPulse isHigh isLong) = (⟨isHigh, false⟩, some isHigh) := by
  cases isHigh <;> cases isLong <;> rfl

theorem onEvent_same (ffOut isLong : Bool) :
    onEvent ⟨ffOut, false⟩ (.newPulse ffOut isLong) = (⟨ffOut, false⟩, none) := by
  cases ffOut <;> rfl

theorem onEvent_long (ffOut : Bool) :
    onEvent ⟨ffOut, false⟩ (.newPulse (!ffOut) true) = (⟨!ffOut, false⟩, some (!ffOut)) := by
  cases ffOut <;> rfl

theorem onEvent_short (ffOut : Bool) :
    onEvent ⟨ffOut, false⟩ (.newPulse (!ffOut) false) = (⟨ffOut, true⟩, none) := by
  cases ffOut <;> rfl

variable (bits : ℕ → Bool)

/-- What the decoder notifies for the pulses from half-bit `q` on. -/
def read (d : ManchesterDecoder) (q n : ℕ) : List Bool :=
  machine.output d ((pulses (manchesterLevel bits) q n).map Pulse.event)

theorem read_zero (d : ManchesterDecoder) (q : ℕ) : read bits d q 0 = [] := rfl

/-- The first half of a bit is always a short pulse. -/
theorem read_even (d : ManchesterDecoder) (i n : ℕ) : read bits d (2 * i) (n + 1) =
    (d.onEvent (.newPulse (bits i) false)).2.toList ++
      read bits (d.onEvent (.newPulse (bits i) false)).1 (2 * i + 1) n := by
  have hne : manchesterLevel bits (2 * i + 1) ≠ manchesterLevel bits (2 * i) := by
    rw [manchesterLevel_even, manchesterLevel_odd]
    simp
  have hshort : (manchesterLevel bits (2 * i + 1) == manchesterLevel bits (2 * i)) = false := by
    simpa using hne
  rw [read, pulses, nextPulse, if_neg hne, hshort, manchesterLevel_even, List.map_cons,
    Transducer.output_cons]
  rfl

/-- The second half of a bit lasts into the next one when the two differ. -/
theorem read_odd_long (d : ManchesterDecoder) {i : ℕ} (h : bits (i + 1) = !bits i) (n : ℕ) :
    read bits d (2 * i + 1) (n + 1) = (d.onEvent (.newPulse (!bits i) true)).2.toList ++
      read bits (d.onEvent (.newPulse (!bits i) true)).1 (2 * (i + 1) + 1) n := by
  have heq : manchesterLevel bits (2 * i + 1 + 1) = manchesterLevel bits (2 * i + 1) := by
    have hindex : 2 * i + 1 + 1 = 2 * (i + 1) := by omega
    rw [hindex, manchesterLevel_even, manchesterLevel_odd, h]
  have hindex : 2 * i + 1 + 2 = 2 * (i + 1) + 1 := by omega
  rw [read, pulses, nextPulse, if_pos heq, heq, beq_self_eq_true, manchesterLevel_odd,
    List.map_cons, Transducer.output_cons, hindex]
  rfl

theorem read_odd_short (d : ManchesterDecoder) {i : ℕ} (h : bits (i + 1) = bits i) (n : ℕ) :
    read bits d (2 * i + 1) (n + 1) = (d.onEvent (.newPulse (!bits i) false)).2.toList ++
      read bits (d.onEvent (.newPulse (!bits i) false)).1 (2 * (i + 1)) n := by
  have hne : manchesterLevel bits (2 * i + 1 + 1) ≠ manchesterLevel bits (2 * i + 1) := by
    have hindex : 2 * i + 1 + 1 = 2 * (i + 1) := by omega
    rw [hindex, manchesterLevel_even, manchesterLevel_odd, h]
    simp
  have hshort : (manchesterLevel bits (2 * i + 1 + 1) == manchesterLevel bits (2 * i + 1)) =
      false := by simpa using hne
  have hindex : 2 * i + 1 + 1 = 2 * (i + 1) := by omega
  rw [read, pulses, nextPulse, if_neg hne, hshort, manchesterLevel_odd, List.map_cons,
    Transducer.output_cons, hindex]
  rfl

/-- In phase, the decoder notifies the bits behind the one it holds. -/
theorem read_synced (n i : ℕ) :
    (∃ l, read bits ⟨bits i, false⟩ (2 * i + 1) n = segment bits (i + 1) l) ∧
      (bits (i + 1) = bits i →
        ∃ l, read bits ⟨bits i, true⟩ (2 * (i + 1)) n = segment bits (i + 1) l) := by
  induction n generalizing i with
  | zero => exact ⟨⟨0, rfl⟩, fun _ => ⟨0, rfl⟩⟩
  | succ n ih =>
    constructor
    · rcases Bool.eq_or_eq_not (bits (i + 1)) (bits i) with heq | hne
      · obtain ⟨l, hl⟩ := (ih i).2 heq
        exact ⟨l, by rw [read_odd_short bits _ heq, onEvent_short, hl]; rfl⟩
      · obtain ⟨l, hl⟩ := (ih (i + 1)).1
        refine ⟨l + 1, ?_⟩
        rw [read_odd_long bits _ hne, onEvent_long, ← hne, hl, segment_succ]
        rfl
    · intro heq
      obtain ⟨l, hl⟩ := (ih (i + 1)).1
      exact ⟨l + 1, by rw [read_even, onEvent_running, hl, segment_succ]; rfl⟩

/-- Out of phase, the decoder notifies zeros until its first long pulse. -/
theorem read_even_reset (n i : ℕ) :
    ∃ k p l, read bits reset (2 * i) n = List.replicate k false ++ segment bits p l := by
  induction n using Nat.strong_induction_on generalizing i with
  | _ n ih =>
    match n with
    | 0 => exact ⟨0, 0, 0, rfl⟩
    | 1 =>
      rw [read_even, read_zero, List.append_nil]
      cases bits i with
      | false => exact ⟨0, 0, 0, rfl⟩
      | true => exact ⟨0, 0, 0, rfl⟩
    | n + 2 =>
      rw [read_even]
      cases hb : bits i with
      | false =>
        obtain ⟨l, hl⟩ := (read_synced bits (n + 1) i).1
        rw [hb] at hl
        exact ⟨0, i + 1, l, by rw [reset, onEvent_same, hl]; rfl⟩
      | true =>
        change ∃ k p l, read bits ⟨false, true⟩ (2 * i + 1) (n + 1) =
          List.replicate k false ++ segment bits p l
        cases hnext : bits (i + 1) with
        | true =>
          obtain ⟨k, p, l, hread⟩ := ih n (by omega) (i + 1)
          refine ⟨k + 1, p, l, ?_⟩
          rw [read_odd_short bits _ (by rw [hb, hnext]), onEvent_running, hb]
          exact congrArg (false :: ·) hread
        | false =>
          obtain ⟨l, hl⟩ := (read_synced bits n (i + 1)).1
          refine ⟨1, i + 2, l, ?_⟩
          rw [read_odd_long bits _ (by rw [hb, hnext]; rfl), onEvent_running, hb]
          rw [hnext] at hl
          exact congrArg (false :: ·) hl

theorem read_reset (q n : ℕ) :
    ∃ k p l, read bits reset q n = List.replicate k false ++ segment bits p l := by
  rcases Nat.even_or_odd' q with ⟨i, rfl | rfl⟩
  · exact read_even_reset bits n i
  · cases n with
    | zero => exact ⟨0, 0, 0, rfl⟩
    | succ n =>
      cases hb : bits i with
      | false =>
        obtain ⟨l, hl⟩ := (read_synced bits (n + 1) i).1
        rw [hb] at hl
        exact ⟨0, i + 1, l, hl⟩
      | true =>
        cases hnext : bits (i + 1) with
        | true =>
          obtain ⟨k, p, l, hread⟩ := read_even_reset bits n (i + 1)
          refine ⟨k, p, l, ?_⟩
          rw [read_odd_short bits _ (by rw [hb, hnext]), hb]
          exact hread
        | false =>
          obtain ⟨l, hl⟩ := (read_synced bits n (i + 1)).1
          refine ⟨0, i + 2, l, ?_⟩
          rw [read_odd_long bits _ (by rw [hb, hnext]; rfl), hb]
          rw [hnext] at hl
          exact hl

end ManchesterDecoder

/-! ## The biphase decoder -/

namespace BiphaseDecoder

def machine : Transducer BiphaseDecoder CarrierEvent Bool := ⟨onEvent⟩

@[simp] theorem machine_step (d : BiphaseDecoder) (e : CarrierEvent) :
    machine.step d e = d.onEvent e := rfl

variable (first : Bool) (bits : ℕ → Bool)

/-- What the decoder notifies for the pulses from half-bit `q` on. -/
def read (d : BiphaseDecoder) (q n : ℕ) : List Bool :=
  machine.output d ((pulses (biphaseLevel first bits) q n).map Pulse.event)

/-- A one is a long pulse. -/
theorem read_one (d : BiphaseDecoder) {i : ℕ} (h : bits i = true) (n : ℕ) :
    read first bits d (2 * i) (n + 1) = true :: read first bits ⟨false⟩ (2 * (i + 1)) n := by
  have heq : biphaseLevel first bits (2 * i + 1) = biphaseLevel first bits (2 * i) := by
    rw [biphaseLevel_odd, h, if_pos rfl]
  rw [read, pulses, nextPulse, if_pos heq, heq, beq_self_eq_true, List.map_cons,
    Transducer.output_cons]
  rfl

/-- A zero begins with a short pulse. -/
theorem read_zero (d : BiphaseDecoder) {i : ℕ} (h : bits i = false) (n : ℕ) :
    read first bits d (2 * i) (n + 1) =
      (if d.lastShort then [false] else []) ++ read first bits ⟨!d.lastShort⟩ (2 * i + 1) n := by
  have hne : biphaseLevel first bits (2 * i + 1) ≠ biphaseLevel first bits (2 * i) := by
    rw [biphaseLevel_odd, h]
    simp
  have hshort : (biphaseLevel first bits (2 * i + 1) == biphaseLevel first bits (2 * i)) =
      false := by simpa using hne
  rw [read, pulses, nextPulse, if_neg hne, hshort, List.map_cons, Transducer.output_cons]
  cases d with
  | mk lastShort => cases lastShort <;> rfl

/-- Every bit ends with its pulse. -/
theorem read_odd (d : BiphaseDecoder) (i n : ℕ) :
    read first bits d (2 * i + 1) (n + 1) =
      (if d.lastShort then [false] else []) ++
        read first bits ⟨!d.lastShort⟩ (2 * (i + 1)) n := by
  have hne : biphaseLevel first bits (2 * i + 1 + 1) ≠ biphaseLevel first bits (2 * i + 1) := by
    rw [biphaseLevel_even]
    simp
  have hshort : (biphaseLevel first bits (2 * i + 1 + 1) == biphaseLevel first bits (2 * i + 1)) =
      false := by simpa using hne
  rw [read, pulses, nextPulse, if_neg hne, hshort, List.map_cons, Transducer.output_cons]
  cases d with
  | mk lastShort => cases lastShort <;> rfl

/-- In phase or not, the decoder notifies the bits from the first complete one on. -/
theorem read_any (n i : ℕ) :
    (∀ d, ∃ l, read first bits d (2 * i) n = segment bits i l) ∧
      (∃ l, read first bits ⟨false⟩ (2 * i + 1) n = segment bits (i + 1) l) ∧
      (bits i = false → ∃ l, read first bits ⟨true⟩ (2 * i + 1) n = segment bits i l) := by
  induction n generalizing i with
  | zero => exact ⟨fun _ => ⟨0, rfl⟩, ⟨0, rfl⟩, fun _ => ⟨0, rfl⟩⟩
  | succ n ih =>
    refine ⟨?_, ?_, ?_⟩
    · rintro ⟨lastShort⟩
      cases hb : bits i with
      | true =>
        obtain ⟨l, hl⟩ := (ih (i + 1)).1 ⟨false⟩
        exact ⟨l + 1, by rw [read_one first bits _ hb, hl, segment_succ, hb]⟩
      | false =>
        rw [read_zero first bits _ hb]
        cases lastShort with
        | true =>
          obtain ⟨l, hl⟩ := (ih i).2.1
          exact ⟨l + 1, by rw [segment_succ, hb, ← hl]; rfl⟩
        | false => exact (ih i).2.2 hb
    · rw [read_odd]
      exact (ih (i + 1)).1 ⟨true⟩
    · intro hb
      obtain ⟨l, hl⟩ := (ih (i + 1)).1 ⟨false⟩
      exact ⟨l + 1, by rw [read_odd, segment_succ, hb, ← hl]; rfl⟩

end BiphaseDecoder

namespace Coding

/-- A new decoder of either coding reads zeros and then the bits of the train. -/
theorem output_pulses (c : Coding) (first : Bool) (bits : ℕ → Bool) (q n : ℕ) :
    ∃ k p l, c.machine.output c.reset ((pulses (c.level first bits) q n).map Pulse.event) =
      List.replicate k false ++ segment bits p l := by
  cases c with
  | manchester => exact ManchesterDecoder.read_reset bits q n
  | biphase =>
    rcases Nat.even_or_odd' q with ⟨i, rfl | rfl⟩
    · obtain ⟨l, hl⟩ := (BiphaseDecoder.read_any first bits n i).1 ⟨false⟩
      exact ⟨0, i, l, hl⟩
    · obtain ⟨l, hl⟩ := (BiphaseDecoder.read_any first bits n i).2.1
      exact ⟨0, i + 1, l, hl⟩

/-- Changes of the synchronisation leave a new decoder as it is. -/
theorem output_changes (c : Coding) {changes : List CarrierEvent}
    (h : ∀ e ∈ changes, ∃ hasSync divider, e = .syncChanged hasSync divider)
    (es : List CarrierEvent) :
    c.machine.output c.reset (changes ++ es) = c.machine.output c.reset es := by
  induction changes with
  | nil => rfl
  | cons e changes ih =>
    obtain ⟨hasSync, divider, rfl⟩ := h e (by simp)
    rw [List.cons_append, Transducer.output_cons]
    change (c.onEvent c.reset _).2.toList ++ c.machine.output (c.onEvent c.reset _).1 _ = _
    rw [onEvent_syncChanged]
    exact ih fun e he => h e (List.mem_cons_of_mem _ he)

end Coding

/-! ## Windows of a repeated frame -/

theorem frame_injective {t u : Token} (h : frame t = frame u) : t = u := by
  rw [frame_eq_body, frame_eq_body] at h
  have hacc := (accepts_body t).2
  rw [List.append_cancel_left h, (accepts_body u).2] at hacc
  exact (Verdict.accept.inj hacc).symm

/-- The only frame among 64 consecutive bits of a repeated frame is the frame itself. -/
theorem eq_of_window {t u : Token} {p : ℕ} (h : segment (cyclicFrame t) p 64 = frame u) :
    u = t := by
  rw [← segment_mod (periodic_cyclicFrame t)] at h
  have hp : p % 64 < 64 := Nat.mod_lt p (by decide)
  generalize p % 64 = s at h hp
  have hbit : ∀ j < 64, cyclicFrame t (s + j) = frameBit u j := by
    intro j hj
    have := congrArg (·[j]?) h
    simpa [frame, getElem?_segment _ _ hj] using this
  have hones : ∀ j < 9, cyclicFrame t (s + j) = true := by
    intro j hj
    rw [hbit j (by omega), frameBit, if_pos hj]
  rcases Nat.eq_zero_or_pos s with rfl | hpos
  · apply frame_injective
    rw [← h]
    exact segment_congr fun i hi => by rw [cyclicFrame_of_lt t (by omega)]
  · exfalso
    rcases Nat.lt_or_ge s 9 with hlt | hge
    · have hstop : frameBit u 63 = false := rfl
      have hindex : s + 63 = 64 + (s - 1) := by omega
      rw [← hbit 63 (by decide), hindex, cyclicFrame_add, cyclicFrame_of_lt t (by omega), frameBit,
        if_pos (by omega)] at hstop
      cases hstop
    · rcases Nat.lt_or_ge s 56 with hlt' | hge'
      · obtain ⟨k, hk, hzero⟩ := exists_false_window t hge (by omega)
        have := hones k hk
        rw [cyclicFrame_of_lt t (by omega), hzero] at this
        cases this
      · have := hones (63 - s) (by omega)
        have hindex : s + (63 - s) = 63 := by omega
        rw [hindex, cyclicFrame_of_lt t (by decide)] at this
        cases this

namespace Em4100Decoder

/-- Zeros and bits of a repeated frame hold no other token. -/
theorem token_of_repeated (d : Em4100Decoder) {t u : Token} {k p l : ℕ}
    (h : u ∈ machine.output d.reset (List.replicate k false ++ segment (cyclicFrame t) p l)) :
    u = t := by
  rw [refines.output (matches_reset d), Transducer.mem_output] at h
  obtain ⟨n, hn⟩ := List.mem_iff_getElem?.mp h
  obtain ⟨w, hacc, ⟨old, hsuffix⟩, -⟩ := Framer.sound hn
  obtain rfl := accepts_iff.mp hacc
  rw [framer_preamble, ← frame_eq_body] at hsuffix
  have hlen : old.length + 64 ≤ n + 1 := by
    have := congrArg List.length hsuffix
    rw [List.length_append, length_frame, List.length_take] at this
    omega
  have hbit : ∀ j < 64, (List.replicate k false ++ segment (cyclicFrame t) p l)[old.length + j]? =
      some (frameBit u j) := by
    intro j hj
    have hwindow : (frame u)[j]? = some (frameBit u j) := by simp [frame, getElem?_segment _ _ hj]
    have htaken := congrArg (·[old.length + j]?) hsuffix
    simp only [List.getElem?_append_right (Nat.le_add_right _ _), Nat.add_sub_cancel_left,
      hwindow] at htaken
    rwa [List.getElem?_take_of_lt (by omega), eq_comm] at htaken
  have hold : k ≤ old.length := by
    by_contra hlt
    have hzero := hbit 0 (by decide)
    rw [List.getElem?_append_left (by simpa using not_le.mp hlt), List.getElem?_replicate,
      if_pos (by omega)] at hzero
    cases hzero
  refine eq_of_window (p := p + (old.length - k)) ?_
  refine segment_congr fun j hj => ?_
  have hj' := hbit j hj
  rw [List.getElem?_append_right (by rw [List.length_replicate]; omega), List.length_replicate]
    at hj'
  obtain ⟨hlt, heq⟩ := List.getElem?_eq_some_iff.mp hj'
  rw [getElem_segment] at heq
  rw [Nat.zero_add, ← heq]
  congr 1
  omega

end Em4100Decoder

namespace Coding

/-- Whatever part of the train of a repeated frame is measured, with whatever jitter,
a new chain of decoders notifies no token but the one of the frame. -/
theorem no_false_token (c : Coding) (t : Token) (old : Vector UInt32 2) (r : ℕ)
    (hr : r = 16 ∨ r = 32 ∨ r = 64) (first : Bool) (q n : ℕ) (samples : List Sample)
    (hsamples : List.Forall₂ (Jittered r)
      (pulses (c.level first (repeatedBits (generate old t.versionOrCustomerId t.data))) q n)
      samples)
    (d : Em4100Decoder) : ∀ u ∈ c.chain.output (c.fresh d) samples, u = t := by
  intro u hu
  rw [repeatedBits_generate] at hsamples
  obtain ⟨changes, m, htrain, hchanges⟩ :=
    (CarrierDecoder.tuned_reset r).output_train hr hsamples rfl
  rw [drop_pulses] at htrain
  obtain ⟨k, p, l, hbits⟩ := c.output_pulses first (cyclicFrame t)
    ((nextPulse (c.level first (cyclicFrame t)))^[m] q) (n - m)
  rw [fresh, output_chain, htrain, c.output_changes hchanges, hbits] at hu
  exact Em4100Decoder.token_of_repeated d hu

/-- A Manchester train of the token `(0, 0)` that starts in its third bit. -/
theorem no_false_token_zero :
    ⟨0, 1⟩ ∉ manchester.chain.output (manchester.fresh Em4100Decoder.blank)
      ((pulses (manchester.level true (repeatedBits (generate #v[0, 0] 0 0))) 5 2000).map
        (Pulse.sample 32)) := by
  intro h
  have := no_false_token .manchester ⟨0, 0⟩ #v[0, 0] 32 (.inr (.inl rfl)) true 5 2000 _
    (jittered_sample 32 _) Em4100Decoder.blank _ h
  cases this

end Coding

end RfidTool

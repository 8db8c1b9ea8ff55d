import RfidTool.Library.RunLength
import RfidTool.Rfid.NoFalseToken

/-!
# The phase of the Manchester decoder

The pulses of a finite bit sequence are the runs of its half-levels. A long pulse is the
second half of one bit and the first half of the next one, and whatever the decoder
held before, it holds the level of that bit behind the pulse, with the timer stopped.
From there on it notifies one bit for each bit. Before its first long pulse a fresh
decoder reads alternating short pulses, and notifies zeros.
-/

namespace RfidTool.ManchesterDecoder

open RunLength

/-- The half-levels of some bits. -/
def halfLevels (bits : List Bool) : List Bool := bits.flatMap fun b => [b, !b]

/-- A run of half-levels as a pulse. -/
def runPulse (run : Bool × ℕ) : Pulse := ⟨run.1, decide (run.2 = 2)⟩

/-- The pulse train of some bits. -/
def train (bits : List Bool) : List Pulse := (runs (halfLevels bits)).map runPulse

/-- The number of half-bits that some pulses last. -/
def halfBits : List Pulse → ℕ
  | [] => 0
  | p :: ps => (if p.isLong then 2 else 1) + halfBits ps

/-! ## The pulses from the second half of a bit on -/

/-- The pulses from the second half of the bit `b` on, with `bits` behind it. -/
def secondHalf (b : Bool) (bits : List Bool) : List Pulse :=
  (runsFrom (!b) 1 (halfLevels bits)).map runPulse

theorem secondHalf_nil (b : Bool) : secondHalf b [] = [⟨!b, false⟩] := rfl

theorem secondHalf_same (b : Bool) (bits : List Bool) :
    secondHalf b (b :: bits) = ⟨!b, false⟩ :: ⟨b, false⟩ :: secondHalf b bits := by
  cases b <;> rfl

theorem secondHalf_not (b : Bool) (bits : List Bool) :
    secondHalf b ((!b) :: bits) = ⟨!b, true⟩ :: secondHalf (!b) bits := by
  cases b <;> rfl

theorem train_cons (b : Bool) (bits : List Bool) :
    train (b :: bits) = ⟨b, false⟩ :: secondHalf b bits := by
  cases b <;> rfl

/-- In phase, the decoder notifies all bits behind the one it holds. -/
theorem output_secondHalf (b : Bool) (bits : List Bool) :
    machine.output ⟨b, false⟩ ((secondHalf b bits).map Pulse.event) = bits := by
  induction bits generalizing b with
  | nil =>
    rw [secondHalf_nil, List.map_singleton, Transducer.output_cons, machine_step, Pulse.event,
      onEvent_short]
    rfl
  | cons c bits ih =>
    rcases Bool.eq_or_eq_not c b with rfl | rfl
    · have hrest := ih c
      rw [secondHalf_same, List.map_cons, List.map_cons, Transducer.output_cons, machine_step,
        Pulse.event, onEvent_short, Transducer.output_cons, machine_step, Pulse.event,
        onEvent_running, hrest]
      rfl
    · have hrest := ih (!b)
      rw [secondHalf_not, List.map_cons, Transducer.output_cons, machine_step, Pulse.event,
        onEvent_long, hrest]
      rfl

/-- A long pulse is the first half of a bit that differs from the one before it. -/
theorem secondHalf_eq_append {b : Bool} {bits : List Bool} {pre post : List Pulse} {p : Pulse}
    (h : secondHalf b bits = pre ++ p :: post) (hlong : p.isLong = true) :
    ∃ before c after, bits = before ++ c :: after ∧ p.isHigh = c ∧ post = secondHalf c after ∧
      halfBits pre = 2 * before.length := by
  induction bits generalizing b pre with
  | nil =>
    rw [secondHalf_nil] at h
    cases pre with
    | nil =>
      cases h
      cases hlong
    | cons q pre => simp at h
  | cons c bits ih =>
    rcases Bool.eq_or_eq_not c b with rfl | rfl
    · rw [secondHalf_same] at h
      match pre with
      | [] =>
        cases h
        cases hlong
      | [q] =>
        cases h
        cases hlong
      | q :: q' :: pre =>
        simp only [List.cons_append, List.cons.injEq] at h
        obtain ⟨rfl, rfl, hrest⟩ := h
        obtain ⟨before, d, after, rfl, hhigh, hpost, hhalf⟩ := ih hrest
        refine ⟨c :: before, d, after, rfl, hhigh, hpost, ?_⟩
        simp only [halfBits, List.length_cons]
        grind
    · rw [secondHalf_not] at h
      cases pre with
      | nil =>
        cases h
        exact ⟨[], !b, bits, rfl, rfl, rfl, rfl⟩
      | cons q pre =>
        simp only [List.cons_append, List.cons.injEq] at h
        obtain ⟨rfl, hrest⟩ := h
        obtain ⟨before, d, after, rfl, hhigh, hpost, hhalf⟩ := ih hrest
        refine ⟨(!b) :: before, d, after, rfl, hhigh, hpost, ?_⟩
        simp only [halfBits, List.length_cons]
        grind

/-- One long pulse brings any decoder into phase. -/
theorem onEvent_long_pulse (d : ManchesterDecoder) (b : Bool) :
    (d.onEvent (.newPulse b true)).1 = ⟨b, false⟩ ∧
      ((d.onEvent (.newPulse b true)).2 = none ∨
        (d.onEvent (.newPulse b true)).2 = some b) := by
  obtain ⟨ffOut, timerRunning⟩ := d
  cases ffOut <;> cases timerRunning <;> cases b <;> simp [onEvent]

/-! ## Before the first long pulse -/

/-- Neighbouring pulses have different levels. -/
def Alternating (ps : List Pulse) : Prop := ps.IsChain fun p q => q.isHigh ≠ p.isHigh

theorem alternating_train (bits : List Bool) : Alternating (train bits) :=
  (List.isChain_map runPulse).mpr (isChain_runs _)

/-- A fresh decoder reads short pulses as zeros; with the timer running the next one has
to be low. -/
theorem output_short {ps : List Pulse} (h : Alternating ps) (hshort : ∀ p ∈ ps, p.isLong = false) :
    (∀ b ∈ machine.output ⟨false, false⟩ (ps.map Pulse.event), b = false) ∧
      ((∀ p ∈ ps.head?, p.isHigh = false) →
        ∀ b ∈ machine.output ⟨false, true⟩ (ps.map Pulse.event), b = false) := by
  induction ps with
  | nil => simp
  | cons p ps ih =>
    obtain ⟨hnext, htail⟩ := List.isChain_cons.mp h
    rw [List.forall_mem_cons] at hshort
    obtain ⟨hstopped, hrunning⟩ := ih htail hshort.2
    obtain ⟨isHigh, isLong⟩ := p
    obtain rfl : isLong = false := hshort.1
    rw [List.map_cons, Transducer.output_cons, Transducer.output_cons, machine_step, machine_step,
      Pulse.event]
    constructor
    · cases isHigh with
      | false => simpa [onEvent_same] using hstopped
      | true =>
        have hlow : ∀ q ∈ ps.head?, q.isHigh = false := by
          intro q hq
          simpa using hnext q hq
        simpa [onEvent] using hrunning hlow
    · intro hlow
      obtain rfl : isHigh = false := hlow _ rfl
      simpa [onEvent_running] using hstopped

/-- The decoder locks to the phase at a long pulse, from any state, and loses no bit behind
it; a fresh decoder notifies nothing but zeros before. -/
theorem locks (bits : List Bool) :
    (∀ pre p post, train bits = pre ++ p :: post → p.isLong = true →
      ∃ i, ∃ hi : i < bits.length, halfBits pre + 1 = 2 * i ∧ p.isHigh = bits[i] ∧
        ∀ d : ManchesterDecoder,
          ((d.onEvent p.event).2 = none ∨ (d.onEvent p.event).2 = some bits[i]) ∧
            machine.output (d.onEvent p.event).1 (post.map Pulse.event) = bits.drop (i + 1)) ∧
    ∀ pre mid post, train bits = pre ++ mid ++ post → (∀ p ∈ mid, p.isLong = false) →
      ∀ b ∈ machine.output reset (mid.map Pulse.event), b = false := by
  constructor
  · intro pre p post h hlong
    cases bits with
    | nil => simp [train, halfLevels, runs] at h
    | cons b bits =>
      rw [train_cons] at h
      cases pre with
      | nil =>
        cases h
        cases hlong
      | cons q pre =>
        simp only [List.cons_append, List.cons.injEq] at h
        obtain ⟨rfl, hrest⟩ := h
        obtain ⟨before, c, after, rfl, hhigh, rfl, hhalf⟩ := secondHalf_eq_append hrest hlong
        obtain ⟨isHigh, isLong⟩ := p
        obtain rfl : isHigh = c := hhigh
        obtain rfl : isLong = true := hlong
        refine ⟨before.length + 1, by simp, ?_, by simp, fun d => ?_⟩
        · simp only [halfBits]
          grind
        · obtain ⟨hphase, hbit⟩ := onEvent_long_pulse d isHigh
          rw [Pulse.event, hphase, output_secondHalf]
          exact ⟨by simpa using hbit, by simp⟩
  · intro pre mid post h hshort
    have hchain := alternating_train bits
    rw [h] at hchain
    exact (output_short hchain.left_of_append.right_of_append hshort).1

/-- The bits `011`: the long pulse is the first half of the second one. -/
theorem locks_zero_one_one :
    machine.output ((⟨true, true⟩ : ManchesterDecoder).onEvent (.newPulse true true)).1
      [.newPulse false false, .newPulse true false, .newPulse false false] = [true] := by
  obtain ⟨i, hlt, hi, -, hlocks⟩ := (locks [false, true, true]).1 [⟨false, false⟩] ⟨true, true⟩
    [⟨false, false⟩, ⟨true, false⟩, ⟨false, false⟩] rfl rfl
  obtain rfl : i = 1 := by
    simp only [halfBits] at hi
    grind
  exact (hlocks ⟨true, true⟩).2

end RfidTool.ManchesterDecoder

import RfidTool.Library.Transducer
import RfidTool.Library.Segment

/-!
# Receivers that hunt for a preamble of ones

A `Framer` waits for a fixed number of consecutive ones and then reads a body bit
by bit. After every body bit it judges what it has read so far: read on, throw
the body away, or accept it as a frame. Both ends of a body send it back to
hunting, with no memory of the bits that were thrown away.

`Framer.tracks` ties the state to the exact suffix of the bits received: it is
what makes every accepted frame a window of the input, disjoint from the others
(`Framer.sound`).
-/

/-- What a receiver makes of the body it has read so far. -/
inductive Verdict (τ : Type*) where
  | more
  | reject
  | accept (t : τ)
  deriving DecidableEq, Repr

/-- A preamble of ones and the judgement on bodies. -/
structure Framer (τ : Type*) where
  preamble : ℕ
  preamble_pos : 0 < preamble
  judge : List Bool → Verdict τ

namespace Framer

variable {τ : Type*} (F : Framer τ)

/-- Counting the ones of a preamble, or reading a body. -/
inductive State where
  | hunting (ones : ℕ)
  | reading (body : List Bool)
  deriving DecidableEq, Repr

/-- One received bit. -/
def receive : State → Bool → State × Option τ
  | .hunting k, true => (if k + 1 = F.preamble then .reading [] else .hunting (k + 1), none)
  | .hunting _, false => (.hunting 0, none)
  | .reading w, b =>
    match F.judge (w ++ [b]) with
    | .more => (.reading (w ++ [b]), none)
    | .reject => (.hunting 0, none)
    | .accept t => (.hunting 0, some t)

/-- The receiver as a transducer from bits to frames. -/
def machine : Transducer State Bool τ := ⟨F.receive⟩

/-- Every bit of `w` but possibly the last one asks for more. -/
def Open (w : List Bool) : Prop := ∀ k, 0 < k → k < w.length → F.judge (w.take k) = .more

/-- `w` is read to its end and then accepted as `t`. -/
def Accepts (w : List Bool) (t : τ) : Prop := F.Open w ∧ F.judge w = .accept t

/-- The received bits that the state still remembers. -/
def pending : State → List Bool
  | .hunting k => List.replicate k true
  | .reading w => List.replicate F.preamble true ++ w

/-- A state that a run can be in: the preamble is not complete while hunting, and
a body being read has only ever asked for more. -/
def Coherent : State → Prop
  | .hunting k => k < F.preamble
  | .reading w => F.Open w ∧ (w ≠ [] → F.judge w = .more)

/-! ## One step -/

@[simp] theorem machine_step (s : State) (b : Bool) : F.machine.step s b = F.receive s b := rfl

theorem receive_zero (k : ℕ) : F.receive (.hunting k) false = (.hunting 0, none) := rfl

theorem receive_one {k : ℕ} (h : k + 1 < F.preamble) :
    F.receive (.hunting k) true = (.hunting (k + 1), none) := by
  simp [receive, h.ne]

theorem receive_last {k : ℕ} (h : k + 1 = F.preamble) :
    F.receive (.hunting k) true = (.reading [], none) := by
  simp [receive, h]

variable {F}

theorem receive_more {w : List Bool} {b : Bool} (h : F.judge (w ++ [b]) = .more) :
    F.receive (.reading w) b = (.reading (w ++ [b]), none) := by simp [receive, h]

theorem receive_reject {w : List Bool} {b : Bool} (h : F.judge (w ++ [b]) = .reject) :
    F.receive (.reading w) b = (.hunting 0, none) := by simp [receive, h]

theorem receive_accept {w : List Bool} {b : Bool} {t : τ} (h : F.judge (w ++ [b]) = .accept t) :
    F.receive (.reading w) b = (.hunting 0, some t) := by simp [receive, h]

theorem Open.snoc {w : List Bool} (h : F.Open w) (hw : w ≠ [] → F.judge w = .more) (b : Bool) :
    F.Open (w ++ [b]) := by
  intro k hk hlt
  rcases Nat.lt_succ_iff_lt_or_eq.mp (by simpa using hlt) with hlt | rfl
  · rw [List.take_append_of_le_length hlt.le]
    exact h k hk hlt
  · rw [List.take_left' rfl]
    exact hw (List.ne_nil_of_length_pos hk)

/-- What one bit does to a state that a run can be in: it is remembered, or all is
forgotten, or it completes a frame. -/
theorem receive_cases {s : State} (h : F.Coherent s) (b : Bool) :
    ((F.receive s b).2 = none ∧ F.Coherent (F.receive s b).1 ∧
        F.pending (F.receive s b).1 = F.pending s ++ [b]) ∨
      F.receive s b = (.hunting 0, none) ∨
      ∃ w t, s = .reading w ∧ F.Accepts (w ++ [b]) t ∧ F.receive s b = (.hunting 0, some t) := by
  match s, b with
  | .hunting k, false => exact .inr (.inl rfl)
  | .hunting k, true =>
    left
    rcases Nat.lt_or_eq_of_le (show k + 1 ≤ F.preamble from h) with hlt | heq
    · rw [F.receive_one hlt]
      exact ⟨rfl, hlt, List.replicate_succ' ..⟩
    · rw [F.receive_last heq]
      refine ⟨rfl, ⟨fun k _ hlt => absurd hlt (by simp), fun h => absurd rfl h⟩, ?_⟩
      simp [pending, ← heq, List.replicate_succ']
  | .reading w, b =>
    have hopen := h.1.snoc h.2 b
    cases hj : F.judge (w ++ [b]) with
    | more =>
      left
      rw [receive_more hj]
      exact ⟨rfl, ⟨hopen, fun _ => hj⟩, by simp [pending]⟩
    | reject => exact .inr (.inl (receive_reject hj))
    | accept t => exact .inr (.inr ⟨w, t, rfl, ⟨hopen, hj⟩, receive_accept hj⟩)

theorem coherent_zero : F.Coherent (.hunting 0) := F.preamble_pos

theorem coherent_receive {s : State} (h : F.Coherent s) (b : Bool) :
    F.Coherent (F.receive s b).1 := by
  rcases receive_cases h b with ⟨-, h, -⟩ | h | ⟨w, t, -, -, h⟩
  · exact h
  · rw [h]
    exact coherent_zero
  · rw [h]
    exact coherent_zero

theorem coherent_final {s : State} (h : F.Coherent s) (bits : List Bool) :
    F.Coherent (F.machine.final s bits) :=
  F.machine.final_invariant F.Coherent (fun _ b hs => coherent_receive hs b) s bits h

/-! ## Accepted frames are windows of the input -/

/-- The state remembers a suffix of the bits received, and every frame ended before it. -/
theorem tracks (bits : List Bool) :
    ∃ old, bits = old ++ F.pending (F.machine.final (.hunting 0) bits) ∧
      ∀ m t, (F.machine.trace (.hunting 0) bits)[m]? = some (some t) → m < old.length := by
  induction bits using List.reverseRecOn with
  | nil => exact ⟨[], rfl, by simp⟩
  | append_singleton bits b ih =>
    obtain ⟨old, hbits, hold⟩ := ih
    have hlen : (F.machine.trace (.hunting 0) bits).length = bits.length :=
      F.machine.length_trace _ _
    have hcoh : F.Coherent (F.machine.final (.hunting 0) bits) := coherent_final coherent_zero _
    simp only [F.machine.final_append, F.machine.trace_append, Transducer.final_cons,
      Transducer.final_nil, Transducer.trace_cons, Transducer.trace_nil, machine_step]
    rcases receive_cases hcoh b with ⟨hnone, -, hpend⟩ | hrec | ⟨w, t, -, -, hrec⟩
    · refine ⟨old, by rw [hpend, ← List.append_assoc, ← hbits], ?_⟩
      intro m t hm
      rw [hnone] at hm
      rcases Nat.lt_or_ge m bits.length with hlt | hge
      · rw [List.getElem?_append_left (by omega)] at hm
        exact hold m t hm
      · rw [List.getElem?_append_right (by omega), hlen] at hm
        simp [List.getElem?_singleton] at hm
    all_goals
      refine ⟨bits ++ [b], by simp [hrec, pending], ?_⟩
      intro m t hm
      have := (List.getElem?_eq_some_iff.mp hm).1
      simpa [hlen] using this

/-- Soundness on arbitrary input. A frame is notified at the last bit of a window
of the input that is the preamble followed by an accepted body, and the window
starts after every earlier frame. -/
theorem sound {bits : List Bool} {n : ℕ} {t : τ}
    (h : (F.machine.trace (.hunting 0) bits)[n]? = some (some t)) :
    ∃ w, F.Accepts w t ∧ List.replicate F.preamble true ++ w <:+ bits.take (n + 1) ∧
      ∀ m < n, ∀ u, (F.machine.trace (.hunting 0) bits)[m]? = some (some u) →
        m + 1 + (F.preamble + w.length) ≤ n + 1 := by
  rw [F.machine.getElem?_trace, Option.map_eq_some_iff] at h
  obtain ⟨b, hb, hout⟩ := h
  obtain ⟨hn, rfl⟩ := List.getElem?_eq_some_iff.mp hb
  obtain ⟨old, hbits, hold⟩ := F.tracks (bits.take n)
  have hcoh : F.Coherent (F.machine.final (.hunting 0) (bits.take n)) :=
    coherent_final coherent_zero _
  rcases receive_cases hcoh bits[n] with ⟨hnone, -, -⟩ | hrec | ⟨w, u, hs, hacc, hrec⟩
  · rw [machine_step, hnone] at hout
    cases hout
  · rw [machine_step, hrec] at hout
    cases hout
  · obtain rfl : u = t := by simpa [hrec] using hout
    rw [hs] at hbits
    have hlen := congrArg List.length hbits
    simp only [pending, List.length_take, List.length_append, List.length_replicate] at hlen
    refine ⟨w ++ [bits[n]], hacc, ⟨old, ?_⟩, ?_⟩
    · rw [List.take_succ_eq_append_getElem hn, hbits]
      simp [pending]
    · intro m hm u hu
      have hsub : (F.machine.trace (.hunting 0) (bits.take n))[m]? = some (some u) := by
        rw [F.machine.getElem?_trace] at hu ⊢
        rwa [List.getElem?_take_of_lt hm, List.take_take, Nat.min_eq_left hm.le]
      have := hold m u hsub
      simp only [List.length_append, List.length_singleton]
      omega

/-! ## Runs over a preamble and a body -/

/-- Ones that do not complete the preamble are counted. -/
theorem run_ones {k n : ℕ} (h : k + n < F.preamble) :
    F.machine.final (.hunting k) (List.replicate n true) = .hunting (k + n) ∧
      F.machine.trace (.hunting k) (List.replicate n true) = List.replicate n none := by
  induction n generalizing k with
  | zero => exact ⟨rfl, rfl⟩
  | succ n ih =>
    obtain ⟨hfinal, htrace⟩ := ih (k := k + 1) (by omega)
    simp only [List.replicate_succ, Transducer.final_cons, Transducer.trace_cons, machine_step,
      F.receive_one (show k + 1 < F.preamble by omega)]
    exact ⟨by rw [hfinal]; congr 1; omega, by rw [htrace]⟩

/-- The missing ones of the preamble start a body. -/
theorem run_preamble {k n : ℕ} (hn : 0 < n) (h : k + n = F.preamble) :
    F.machine.final (.hunting k) (List.replicate n true) = .reading [] ∧
      F.machine.trace (.hunting k) (List.replicate n true) = List.replicate n none := by
  obtain ⟨m, rfl⟩ := Nat.exists_eq_succ_of_ne_zero hn.ne'
  obtain ⟨hfinal, htrace⟩ := F.run_ones (k := k) (n := m) (by omega)
  have hlast := F.receive_last (k := k + m) (by omega)
  rw [Nat.succ_eq_add_one, List.replicate_succ', F.machine.final_append,
    F.machine.trace_append, hfinal, htrace]
  simp [hlast, List.replicate_succ']

/-- Bits that only ask for more are appended to the body. -/
theorem run_more {w v : List Bool}
    (h : ∀ k, 0 < k → k ≤ v.length → F.judge (w ++ v.take k) = .more) :
    F.machine.final (.reading w) v = .reading (w ++ v) ∧
      F.machine.trace (.reading w) v = List.replicate v.length none := by
  induction v generalizing w with
  | nil => simp
  | cons b v ih =>
    have hb : F.judge (w ++ [b]) = .more := by simpa using h 1 (by simp) (by simp)
    have hrest : ∀ k, 0 < k → k ≤ v.length → F.judge (w ++ [b] ++ v.take k) = .more := by
      intro k hk hle
      simpa using h (k + 1) (by omega) (by simpa using hle)
    obtain ⟨hfinal, htrace⟩ := ih hrest
    simp only [Transducer.final_cons, Transducer.trace_cons, machine_step, receive_more hb]
    exact ⟨by rw [hfinal]; simp, by rw [htrace]; rfl⟩

/-- A preamble and an accepted body are silent but for the frame at the last bit,
after which the receiver is as before. -/
theorem run_frame {w : List Bool} {t : τ} (hw : w ≠ []) (h : F.Accepts w t) :
    F.machine.final (.hunting 0) (List.replicate F.preamble true ++ w) = .hunting 0 ∧
      F.machine.trace (.hunting 0) (List.replicate F.preamble true ++ w) =
        List.replicate (F.preamble + w.length - 1) none ++ [some t] := by
  obtain ⟨v, b, rfl⟩ := (List.eq_nil_or_concat' w).resolve_left hw
  obtain ⟨hfinal, htrace⟩ := F.run_preamble (k := 0) F.preamble_pos (by omega)
  have hv : ∀ k, 0 < k → k ≤ v.length → F.judge ([] ++ v.take k) = .more := by
    intro k hk hle
    have := h.1 k hk (by simp; omega)
    rwa [List.take_append_of_le_length hle] at this
  obtain ⟨hfinal', htrace'⟩ := F.run_more hv
  have hlast : F.receive (.reading v) b = (.hunting 0, some t) := receive_accept h.2
  simp only [F.machine.final_append, F.machine.trace_append, hfinal, htrace, hfinal', htrace',
    List.nil_append, Transducer.final_cons, Transducer.final_nil, Transducer.trace_cons,
    Transducer.trace_nil, machine_step, hlast]
  refine ⟨trivial, ?_⟩
  rw [← List.append_assoc, ← List.replicate_add]
  simp

/-- A hunting receiver stays as it is over zeros. -/
theorem run_zeros (n : ℕ) :
    F.machine.final (.hunting 0) (List.replicate n false) = .hunting 0 ∧
      F.machine.trace (.hunting 0) (List.replicate n false) = List.replicate n none := by
  induction n with
  | zero => exact ⟨rfl, rfl⟩
  | succ n ih =>
    simp only [List.replicate_succ, Transducer.final_cons, Transducer.trace_cons, machine_step,
      F.receive_zero]
    exact ⟨ih.1, by rw [ih.2]⟩

/-- A body that is rejected at its last bit is silent and sends the receiver back. -/
theorem run_reject {v : List Bool} (hv : v ≠ []) (hopen : F.Open v)
    (hreject : F.judge v = .reject) :
    F.machine.final (.reading []) v = .hunting 0 ∧
      F.machine.trace (.reading []) v = List.replicate v.length none := by
  obtain ⟨v, b, rfl⟩ := (List.eq_nil_or_concat' v).resolve_left hv
  have hmore : ∀ k, 0 < k → k ≤ v.length → F.judge ([] ++ v.take k) = .more := by
    intro k hk hle
    have := hopen k hk (by simp; omega)
    rwa [List.take_append_of_le_length hle] at this
  obtain ⟨hfinal, htrace⟩ := F.run_more hmore
  have hlast : F.receive (.reading v) b = (.hunting 0, none) := receive_reject hreject
  simp only [F.machine.final_append, F.machine.trace_append, hfinal, htrace, List.nil_append,
    Transducer.final_cons, Transducer.final_nil, Transducer.trace_cons, Transducer.trace_nil,
    machine_step, hlast]
  exact ⟨trivial, by rw [List.length_append, List.length_singleton, List.replicate_succ']⟩

/-! ## Runs on bits without a preamble -/

/-- Every window as long as the preamble has a zero. -/
def Sparse (f : ℕ → Bool) (p n : ℕ) : Prop :=
  ∀ i, i + F.preamble ≤ n → ∃ k < F.preamble, f (p + i + k) = false

/-- Without a preamble the receiver keeps hunting; it has counted the trailing ones. -/
theorem run_sparse {f : ℕ → Bool} {p n : ℕ} (h : F.Sparse f p n) :
    ∃ k ≤ n, k < F.preamble ∧ (∀ i < k, f (p + n - 1 - i) = true) ∧
      F.machine.final (.hunting 0) (Sequence.segment f p n) = .hunting k ∧
      F.machine.trace (.hunting 0) (Sequence.segment f p n) = List.replicate n none := by
  induction n with
  | zero => exact ⟨0, le_rfl, F.preamble_pos, by simp, rfl, rfl⟩
  | succ n ih =>
    obtain ⟨k, hk, hlt, hones, hfinal, htrace⟩ := ih fun i hi => h i (by omega)
    rw [Sequence.segment_snoc, Transducer.final_append, Transducer.trace_append, hfinal, htrace,
      List.replicate_succ']
    cases hb : f (p + n) with
    | false => exact ⟨0, by omega, F.preamble_pos, by simp, rfl, rfl⟩
    | true =>
      have hones' : ∀ i < k + 1, f (p + (n + 1) - 1 - i) = true := by
        intro i hi
        cases i with
        | zero => exact hb
        | succ i =>
          rw [← hones i (by omega)]
          congr 1
          omega
      have hlt' : k + 1 < F.preamble := by
        rcases Nat.lt_or_eq_of_le (show k + 1 ≤ F.preamble from hlt) with hlt' | heq
        · exact hlt'
        · obtain ⟨j, hj, hzero⟩ := h (n - k) (by omega)
          have := hones' (k - j) (by omega)
          have hindex : p + (n + 1) - 1 - (k - j) = p + (n - k) + j := by omega
          rw [hindex, hzero] at this
          cases this
      refine ⟨k + 1, by omega, hlt', hones', ?_⟩
      simp [F.receive_one hlt']

/-! ## Coming to rest -/

/-- A body of `n` bits is always judged. -/
def Bounded (n : ℕ) : Prop := ∀ w, w.length = n → F.judge w ≠ .more

/-- The number of bits after which the receiver must have come to rest. -/
def restTime (n : ℕ) : State → ℕ
  | .hunting 0 => 0
  | .hunting (k + 1) => F.preamble - (k + 1) + n
  | .reading w => n - w.length

theorem length_lt_of_coherent {n : ℕ} (hn : 0 < n) (hbound : F.Bounded n) {w : List Bool}
    (h : F.Coherent (.reading w)) : w.length < n := by
  obtain ⟨hopen, hmore⟩ := h
  by_contra hge
  rcases Nat.lt_or_eq_of_le (not_lt.mp hge) with hlt | heq
  · exact hbound (w.take n) (by simp; omega) (hopen n hn hlt)
  · exact hbound w heq.symm (hmore (List.ne_nil_of_length_pos (by omega)))

theorem restTime_receive {n : ℕ} (hn : 0 < n) (hbound : F.Bounded n) {s : State}
    (h : F.Coherent s) (hs : s ≠ .hunting 0) (b : Bool) :
    F.restTime n (F.receive s b).1 + 1 ≤ F.restTime n s := by
  match s, b with
  | .hunting 0, _ => exact absurd rfl hs
  | .hunting (k + 1), false =>
    simp only [receive_zero, restTime]
    omega
  | .hunting (k + 1), true =>
    rcases Nat.lt_or_eq_of_le (show k + 1 + 1 ≤ F.preamble from h) with hlt | heq
    · rw [F.receive_one hlt]
      simp only [restTime]
      omega
    · rw [F.receive_last heq]
      simp only [restTime, List.length_nil]
      omega
  | .reading w, b =>
    have hlen := length_lt_of_coherent hn hbound h
    cases hj : F.judge (w ++ [b]) with
    | more =>
      rw [receive_more hj]
      simp only [restTime, List.length_append, List.length_singleton]
      omega
    | reject =>
      rw [receive_reject hj]
      simp only [restTime]
      omega
    | accept t =>
      rw [receive_accept hj]
      simp only [restTime]
      omega

/-- Whatever is received, every state that a run can be in comes to rest. -/
theorem settles {n : ℕ} (hn : 0 < n) (hbound : F.Bounded n) (f : ℕ → Bool) {m : ℕ} {s : State}
    (h : F.Coherent s) (hm : F.restTime n s ≤ m) (p : ℕ) :
    ∃ k ≤ m, F.machine.final s (Sequence.segment f p k) = .hunting 0 := by
  induction m generalizing s p with
  | zero =>
    by_cases hs : s = .hunting 0
    · exact ⟨0, le_rfl, hs⟩
    · have := restTime_receive hn hbound h hs true
      omega
  | succ m ih =>
    by_cases hs : s = .hunting 0
    · exact ⟨0, by omega, hs⟩
    · have hdrop := restTime_receive hn hbound h hs (f p)
      obtain ⟨k, hk, hfinal⟩ := ih (coherent_receive h (f p)) (by omega) (p + 1)
      exact ⟨k + 1, by omega, hfinal⟩

end Framer

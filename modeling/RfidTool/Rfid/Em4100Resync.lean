import RfidTool.Rfid.Em4100RoundTrip

/-!
# Resynchronisation of `Em4100Decoder`

The decoder is fed the endless repetition of a frame from an arbitrary offset. It
comes to rest within 63 bits. At rest behind the preamble it waits for the next
frame. At rest inside the preamble it may complete the nine ones with the first
`j` bits of the first digit; then every row is read `j` bits late, and its parity
is the difference of the parities of the first `j` bits of two neighbouring rows.
`Locks t j` says that none of these differences shows: then the decoder reaches
the stop bit, finds a one of the next preamble and starts over at the same place
of the next frame, forever.
-/

namespace RfidTool

open Sequence Parity Em4100Eprom

/-- The first digit begins with `j` ones, and the first `j` bits of every digit are even. -/
def Locks (t : Token) (j : ℕ) : Prop :=
  (∀ k < j, (t.digit 0).getLsbD (3 - k) = true) ∧
    ∀ i < 10, parity ((List.range j).map fun k => (t.digit i).getLsbD (3 - k)) = false

instance (t : Token) (j : ℕ) : Decidable (Locks t j) := by
  unfold Locks
  infer_instance

/-! ## Rows read late -/

/-- The parity of the first `j` bits of row `i`; the column parities are row ten. -/
def early (t : Token) (j i : ℕ) : Bool := parity (segment (bodyBit t.digit) (5 * i) j)

theorem early_eq (t : Token) {j i : ℕ} (hj : j ≤ 4) (hi : i < 10) :
    early t j i = parity ((List.range j).map fun k => (t.digit i).getLsbD (3 - k)) := by
  rw [early, segment_eq_map]
  congr 1
  refine List.map_congr_left fun k hk => ?_
  have hk := List.mem_range.mp hk
  have hindex : (5 * i + k) / 5 = i := by omega
  have hindex' : (5 * i + k) % 5 = k := by omega
  rw [bodyBit, hindex, hindex', if_pos hi, rowBit, if_pos (by omega)]

/-- A row read `j` bits late. -/
theorem parity_late (t : Token) (j : ℕ) {i : ℕ} (hi : i < 10) :
    parity (segment (bodyBit t.digit) (5 * i + j) 5) = (early t j i ^^ early t j (i + 1)) := by
  have hsplit : segment (bodyBit t.digit) (5 * i) 5 ++ segment (bodyBit t.digit) (5 * (i + 1)) j =
      segment (bodyBit t.digit) (5 * i) j ++ segment (bodyBit t.digit) (5 * i + j) 5 := by
    rw [← segment_add, Nat.mul_add, ← segment_add, Nat.add_comm]
  have hpar := congrArg parity hsplit
  rw [parity_append, parity_append, parity_bodyBit _ hi, Bool.false_xor] at hpar
  change early t j (i + 1) = (early t j i ^^ _) at hpar
  rw [hpar, ← Bool.xor_assoc, Bool.xor_self, Bool.false_xor]

/-- The column parities as seen by a late reader. -/
theorem early_ten (t : Token) {j : ℕ} (hj : j ≤ 4) :
    early t j 10 = parity ((List.range 10).map (early t j)) := by
  have hcols : segment (bodyBit t.digit) (5 * 10) j =
      (List.range j).map fun k =>
        parity ((List.range 10).map fun i => (t.digit i).getLsbD (3 - k)) := by
    rw [segment_eq_map]
    refine List.map_congr_left fun k hk => ?_
    have hk := List.mem_range.mp hk
    have hindex : (5 * 10 + k) % 5 = k := by omega
    rw [bodyBit, if_neg (by omega), hindex, if_pos (by omega), getLsbD_column]
  have hrows : (List.range 10).map (early t j) = (List.range 10).map fun i =>
      parity ((List.range j).map fun k => (t.digit i).getLsbD (3 - k)) :=
    List.map_congr_left fun i hi => early_eq t hj (List.mem_range.mp hi)
  rw [early, hcols, hrows, parity_exchange fun i k => (t.digit i).getLsbD (3 - k)]

/-- When no late row is odd, all rows begin evenly. -/
theorem early_eq_false {t : Token} {j : ℕ} (hj : j ≤ 4)
    (h : ∀ i < 10, parity (segment (bodyBit t.digit) (5 * i + j) 5) = false) :
    ∀ i ≤ 10, early t j i = false := by
  have hsame : ∀ i ≤ 10, early t j i = early t j 0 := by
    intro i hi
    induction i with
    | zero => rfl
    | succ i ih =>
      have hlate := h i (by omega)
      rw [parity_late t j (by omega)] at hlate
      rw [← ih (by omega)]
      exact (by simpa using hlate : early t j i = early t j (i + 1)).symm
  have hrows : (List.range 10).map (early t j) = List.replicate 10 (early t j 0) := by
    refine List.eq_replicate_iff.mpr ⟨by simp, ?_⟩
    intro b hb
    obtain ⟨i, hi, rfl⟩ := List.mem_map.mp hb
    exact hsame i (by have := List.mem_range.mp hi; omega)
  have hten := early_ten t hj
  rw [hrows, hsame 10 le_rfl] at hten
  have hzero : early t j 0 = false := by
    rw [hten]
    cases early t j 0 <;> rfl
  intro i hi
  rw [hsame i hi, hzero]

/-! ## Preambles inside a frame -/

/-- From a place where a zero comes before nine ones do, the receiver waits for the next frame. -/
theorem waits {t : Token} {p : ℕ} (hp : p ≤ 64)
    (h : 9 ≤ p ∨ ∃ z < p, bodyBit t.digit z = false) :
    framer.machine.final (.hunting 0) (segment (cyclicFrame t) p (64 - p)) = .hunting 0 := by
  have hsparse : framer.Sparse (cyclicFrame t) p (64 - p) := by
    intro i hi
    rw [framer_preamble] at hi ⊢
    rcases Nat.lt_or_ge (p + i) 9 with hlt | hge
    · obtain ⟨z, hz, hfalse⟩ := h.resolve_left (by omega)
      refine ⟨9 + z - (p + i), by omega, ?_⟩
      have hindex : p + i + (9 + z - (p + i)) = 9 + z := by omega
      rw [hindex, cyclicFrame_of_lt t (by omega), frameBit_body, hfalse]
    · obtain ⟨k, hk, hfalse⟩ := exists_false_window t hge (by omega)
      exact ⟨k, hk, by rw [cyclicFrame_of_lt t (by omega), hfalse]⟩
  obtain ⟨k, hk, -, hones, hfinal, -⟩ := framer.run_sparse hsparse
  rcases Nat.eq_zero_or_pos k with rfl | hpos
  · exact hfinal
  · have hlast := hones 0 hpos
    have hindex : p + (64 - p) - 1 - 0 = 63 := by omega
    rw [hindex] at hlast
    cases hlast

/-- A shift by `j` whose nine ones are completed by the first `j` bits of the first row. -/
theorem early_ones {t : Token} {j : ℕ} (h : ∀ z < j, bodyBit t.digit z = true) : j ≤ 4 := by
  obtain ⟨k, hk, hfalse⟩ := exists_false_row t (i := 0) (by decide)
  by_contra hj
  rw [h _ (by omega)] at hfalse
  cases hfalse

theorem late_preamble {t : Token} {j : ℕ} (hj : j ≤ 4) (h : ∀ z < j, bodyBit t.digit z = true) :
    segment (cyclicFrame t) j 9 = List.replicate 9 true := by
  refine segment_eq_replicate fun i hi => ?_
  rw [cyclicFrame_of_lt t (by omega)]
  rcases Nat.lt_or_ge (j + i) 9 with hlt | hge
  · rw [frameBit, if_pos hlt]
  · have hindex : j + i = 9 + (j + i - 9) := by omega
    rw [hindex, frameBit_body, h _ (by omega)]

/-- What a late reader makes of a number of complete rows. -/
theorem judge_late (t : Token) {j i : ℕ} (hj : j ≤ 4) (hi : i < 10) :
    judge (segment (cyclicFrame t) (9 + j) (5 * i + 5)) =
      if parity (segment (bodyBit t.digit) (5 * i + j) 5) then .reject else .more := by
  have hrow : segment (fun k => (segment (cyclicFrame t) (9 + j) (5 * i + 5)).getD k false)
      (5 * i) 5 = segment (bodyBit t.digit) (5 * i + j) 5 := by
    refine segment_congr fun k hk => ?_
    have hindex : 9 + j + (5 * i + k) = 9 + (5 * i + j + k) := by omega
    rw [List.getD_eq_getElem?_getD, getElem?_segment _ _ (by omega), Option.getD_some,
      cyclicFrame_of_lt t (by omega), hindex, frameBit_body]
  rw [judge_row hi (length_segment ..), hrow]

/-- A late reader goes on as long as no row is odd. -/
theorem open_late {t : Token} {j n : ℕ} (hj : j ≤ 4) (hn : n ≤ 55)
    (h : ∀ i, 5 * i + 5 < n → parity (segment (bodyBit t.digit) (5 * i + j) 5) = false) :
    framer.Open (segment (cyclicFrame t) (9 + j) n) := by
  intro k hk hlt
  rw [length_segment] at hlt
  rw [take_segment _ _ hlt.le, framer_judge]
  by_cases hmod : k % 5 = 0
  · obtain ⟨i, rfl⟩ : ∃ i, k = 5 * i + 5 := ⟨k / 5 - 1, by omega⟩
    rw [judge_late t hj (by omega), h i hlt]
    rfl
  · exact judge_partial (by rwa [length_segment])

/-- Where a late reader finds an odd row, it waits for the next frame. -/
theorem late_row {t : Token} {j : ℕ} (hones : ∀ z < j, bodyBit t.digit z = true)
    (hodd : ∃ i < 10, parity (segment (bodyBit t.digit) (5 * i + j) 5) = true) :
    framer.machine.final (.hunting 0) (segment (cyclicFrame t) j (64 - j)) = .hunting 0 := by
  have hj := early_ones hones
  obtain ⟨i, ⟨hi, hrow⟩, hleast⟩ := Nat.findX hodd
  have hopen : framer.Open (segment (cyclicFrame t) (9 + j) (5 * i + 5)) := by
    refine open_late hj (by omega) fun k hk => ?_
    have := hleast k (by omega)
    simpa [show k < 10 by omega] using this
  have hreject : judge (segment (cyclicFrame t) (9 + j) (5 * i + 5)) = .reject := by
    rw [judge_late t hj hi, hrow]
    rfl
  obtain ⟨hpreamble, -⟩ := framer.run_preamble (k := 0) (n := 9) (by decide) rfl
  obtain ⟨hfinal, -⟩ :=
    Framer.run_reject (List.ne_nil_of_length_pos (by simp)) hopen hreject
  have hrest := waits (t := t) (p := 9 + j + (5 * i + 5)) (by omega) (.inl (by omega))
  have hindex : 64 - j = 9 + ((5 * i + 5) + (64 - (9 + j + (5 * i + 5)))) := by omega
  have hindex' : j + 9 = 9 + j := by omega
  rw [hindex, segment_add, late_preamble hj hones, hindex', segment_add, Transducer.final_append,
    hpreamble, Transducer.final_append, hfinal, hrest]

/-- A late reader that finds no odd row fails at the stop bit and is where it was a frame ago. -/
theorem late_stop {t : Token} {j : ℕ} (hpos : 0 < j) (hones : ∀ z < j, bodyBit t.digit z = true)
    (heven : ∀ i < 10, parity (segment (bodyBit t.digit) (5 * i + j) 5) = false) :
    framer.machine.final (.hunting 0) (segment (cyclicFrame t) j 64) = .hunting 0 ∧
      framer.machine.trace (.hunting 0) (segment (cyclicFrame t) j 64) =
        List.replicate 64 none := by
  have hj := early_ones hones
  have hopen : framer.Open (segment (cyclicFrame t) (9 + j) 55) :=
    open_late hj le_rfl fun i hi => heven i (by omega)
  have hstop : (segment (cyclicFrame t) (9 + j) 55).getD 54 false = true := by
    have hindex : 9 + j + 54 = 64 + (j - 1) := by omega
    rw [List.getD_eq_getElem?_getD, getElem?_segment _ _ (by decide), Option.getD_some, hindex,
      cyclicFrame_add, cyclicFrame_of_lt t (by omega), frameBit, if_pos (by omega)]
  have hreject : judge (segment (cyclicFrame t) (9 + j) 55) = .reject := by
    unfold judge
    rw [length_segment, if_neg (by decide), if_neg (by decide), hstop, if_pos rfl]
  obtain ⟨hpreamble, hsilent⟩ := framer.run_preamble (k := 0) (n := 9) (by decide) rfl
  obtain ⟨hfinal, htrace⟩ :=
    Framer.run_reject (List.ne_nil_of_length_pos (by simp)) hopen hreject
  rw [show (64 : ℕ) = 9 + 55 from rfl, segment_add, late_preamble hj hones, Nat.add_comm j 9,
    Transducer.final_append, Transducer.trace_append, hpreamble, hsilent, hfinal, htrace,
    length_segment, List.replicate_add]
  exact ⟨rfl, rfl⟩

/-- A late reader survives all rows exactly when the token locks it. -/
theorem locks_iff {t : Token} {j : ℕ} (hones : ∀ z < j, bodyBit t.digit z = true) :
    Locks t j ↔ ∀ i < 10, parity (segment (bodyBit t.digit) (5 * i + j) 5) = false := by
  have hj := early_ones hones
  have hdigit : ∀ k < j, (t.digit 0).getLsbD (3 - k) = true := by
    intro k hk
    have := hones k hk
    rwa [bodyBit, show k / 5 = 0 by omega, show k % 5 = k by omega, if_pos (by decide), rowBit,
      if_pos (by omega)] at this
  constructor
  · rintro ⟨-, heven⟩ i hi
    have hlocks : ∀ i < 10, early t j i = false := fun i hi => by rw [early_eq t hj hi, heven i hi]
    rw [parity_late t j hi, hlocks i hi, Bool.false_xor]
    rcases Nat.lt_or_ge (i + 1) 10 with hlt | hge
    · exact hlocks _ hlt
    · have hindex : i + 1 = 10 := by omega
      rw [hindex, early_ten t hj,
        List.map_congr_left (g := fun _ => false) fun i hi => hlocks i (List.mem_range.mp hi)]
      rfl
  · intro h
    refine ⟨hdigit, fun i hi => ?_⟩
    rw [← early_eq t hj hi]
    exact early_eq_false hj h i hi.le

/-- The even ones among the first bits of the first digit leave two shifts. -/
theorem Locks.two_or_four {t : Token} {j : ℕ} (h : Locks t j) (hpos : 0 < j) (hj : j ≤ 4) :
    j = 2 ∨ j = 4 := by
  have heven := h.2 0 (by decide)
  have hones : (List.range j).map (fun k => (t.digit 0).getLsbD (3 - k)) =
      List.replicate j true := by
    refine List.eq_replicate_iff.mpr ⟨by simp, ?_⟩
    intro b hb
    obtain ⟨k, hk, rfl⟩ := List.mem_map.mp hb
    exact h.1 k (List.mem_range.mp hk)
  rw [hones, parity_replicate_true] at heven
  have : ¬ j % 2 = 1 := by simpa using heven
  omega

theorem Locks.bodyBit {t : Token} {j : ℕ} (h : Locks t j) (hj : j ≤ 4) {z : ℕ} (hz : z < j) :
    bodyBit t.digit z = true := by
  have hindex : z / 5 = 0 := by omega
  have hindex' : z % 5 = z := by omega
  rw [RfidTool.bodyBit, hindex, hindex', if_pos (by decide), rowBit, if_pos (by omega)]
  exact h.1 z hz

/-! ## Every other token is found -/

/-- At rest anywhere, the receiver is at rest at the next frame. -/
theorem next_frame {t : Token} (h : ¬ (Locks t 2 ∨ Locks t 4)) {p : ℕ} (hp : p < 64) :
    framer.machine.final (.hunting 0) (segment (cyclicFrame t) p (64 - p)) = .hunting 0 := by
  rcases Nat.eq_zero_or_pos p with rfl | hpos
  · rw [Nat.sub_zero, segment_congr (g := frameBit t) fun i hi => cyclicFrame_of_lt t (by omega)]
    exact (Em4100Decoder.trace_frame t).1
  by_cases hwait : 9 ≤ p ∨ ∃ z < p, bodyBit t.digit z = false
  · exact waits hp.le hwait
  · have hones : ∀ z < p, bodyBit t.digit z = true := by
      intro z hz
      by_contra hne
      exact hwait (.inr ⟨z, hz, Bool.eq_false_of_not_eq_true hne⟩)
    by_cases hodd : ∃ i < 10, parity (segment (bodyBit t.digit) (5 * i + p) 5) = true
    · exact late_row hones hodd
    · have hlocks : Locks t p := (locks_iff hones).mpr fun i hi =>
        Bool.eq_false_of_not_eq_true fun htrue => hodd ⟨i, hi, htrue⟩
      rcases hlocks.two_or_four hpos (early_ones hones) with rfl | rfl
      · exact absurd (.inl hlocks) h
      · exact absurd (.inr hlocks) h

/-- At rest anywhere, the receiver finds the token in the next complete frame. -/
theorem finds {t : Token} (h : ¬ (Locks t 2 ∨ Locks t 4)) (p : ℕ) :
    t ∈ framer.machine.output (.hunting 0) (segment (cyclicFrame t) p (128 - p % 64)) := by
  have hp : p % 64 < 64 := Nat.mod_lt p (by decide)
  have hframe : segment (cyclicFrame t) 64 64 = frame t :=
    segment_congr fun i hi => by
      rw [cyclicFrame_add, cyclicFrame_of_lt t hi, Nat.zero_add]
  have hindex : 128 - p % 64 = 64 - p % 64 + 64 := by omega
  have hindex' : p % 64 + (64 - p % 64) = 64 := by omega
  rw [← segment_mod (periodic_cyclicFrame t), hindex, segment_add, Transducer.output_append,
    next_frame h hp, hindex', hframe]
  refine List.mem_append_right _ ((Transducer.mem_output _).mpr ?_)
  rw [(Em4100Decoder.trace_frame t).2]
  exact List.mem_append_right _ (List.mem_singleton_self _)

theorem bounded_framer : framer.Bounded 55 := fun _ h => judge_full h

/-- A locked receiver is silent forever. -/
theorem locked_silent {t : Token} {j : ℕ} (hpos : 0 < j) (hj : j ≤ 4) (h : Locks t j) (n : ℕ) :
    framer.machine.output (.hunting 0) (segment (cyclicFrame t) j n) = [] := by
  obtain ⟨hfinal, htrace⟩ := late_stop hpos (fun _ => h.bodyBit hj)
    ((locks_iff fun _ => h.bodyBit hj).mp h)
  have hsilent : ∀ m, framer.machine.final (.hunting 0) (segment (cyclicFrame t) j (64 * m)) =
      .hunting 0 ∧
        framer.machine.output (.hunting 0) (segment (cyclicFrame t) j (64 * m)) = [] := by
    intro m
    induction m with
    | zero => exact ⟨rfl, rfl⟩
    | succ m ih =>
      obtain ⟨ihfinal, ihsilent⟩ := ih
      have hrest : segment (cyclicFrame t) (j + 64) (64 * m) = segment (cyclicFrame t) j (64 * m) :=
        segment_periodic (periodic_cyclicFrame t) _ _
      rw [Nat.mul_succ, Nat.add_comm (64 * m), segment_add, Transducer.final_append,
        Transducer.output_append, hfinal, hrest, ihfinal, ihsilent, List.append_nil]
      refine ⟨rfl, Transducer.output_eq_nil _ fun y hy => ?_⟩
      rw [htrace] at hy
      exact List.eq_of_mem_replicate hy
  have hall := (hsilent n).2
  have hindex : 64 * n = n + 63 * n := by omega
  rw [hindex, segment_add, Transducer.output_append] at hall
  exact (List.append_eq_nil_iff.mp hall).1

namespace Em4100Decoder

/-- From every offset and every reachable state the decoder finds a token within four
frames, unless the token locks a reader that is two or four bits late; such a reader
never notifies anything. -/
theorem resynchronises (t : Token) (old : Vector UInt32 2) :
    (¬ (Locks t 2 ∨ Locks t 4) → ∀ s < 64, ∀ d, Reachable d →
      t ∈ machine.output d
        (segment (repeatedBits (generate old t.versionOrCustomerId t.data)) s 256)) ∧
    ∀ j, j = 2 ∨ j = 4 → Locks t j → ∀ (d : Em4100Decoder) (n : ℕ),
      machine.output d.reset
        (segment (repeatedBits (generate old t.versionOrCustomerId t.data)) j n) = [] := by
  rw [repeatedBits_generate]
  refine ⟨?_, ?_⟩
  · intro h s _ d hd
    obtain ⟨q, hq, hcoh⟩ := hd.matches
    have hrest : framer.restTime 55 q ≤ 63 := by
      match q, hcoh with
      | .hunting 0, _ => exact Nat.zero_le _
      | .hunting (k + 1), _ => rw [Framer.restTime, framer_preamble]; omega
      | .reading w, _ => rw [Framer.restTime]; omega
    obtain ⟨m, hm, hfinal⟩ :=
      Framer.settles (by decide) bounded_framer (cyclicFrame t) hcoh hrest s
    have hindex : 256 = m + (128 - (s + m) % 64 + (256 - m - (128 - (s + m) % 64))) := by omega
    rw [refines.output hq, hindex, segment_add, segment_add, Transducer.output_append,
      Transducer.output_append, hfinal]
    exact List.mem_append_right _ (List.mem_append_left _ (finds h _))
  · intro j hj h d n
    rw [refines.output (matches_reset d)]
    exact locked_silent (by omega) (by omega) h n

/-- The customer id `0xc0` alone locks a reader two bits late. -/
theorem never_finds :
    ¬ ∀ (t : Token) (old : Vector UInt32 2), ∀ s < 64, ∀ d, Reachable d →
      t ∈ machine.output d
        (segment (repeatedBits (generate old t.versionOrCustomerId t.data)) s 256) := by
  intro h
  have hfound := h ⟨0xc0, 0⟩ #v[0, 0] 2 (by decide) _
    (reachable_reset blank)
  rw [repeatedBits_generate, refines.output (matches_reset _),
    locked_silent (by decide) (by decide) (by decide : Locks ⟨0xc0, 0⟩ 2)] at hfound
  cases hfound

/-- The token `(0, 0)` locks nobody. -/
theorem resynchronises_zero :
    ⟨0, 0⟩ ∈ machine.output blank.reset (segment (repeatedBits (generate #v[0, 0] 0 0)) 5 256) :=
  (resynchronises ⟨0, 0⟩ #v[0, 0]).1 (by decide) 5 (by decide) _ (reachable_reset blank)

end Em4100Decoder

end RfidTool

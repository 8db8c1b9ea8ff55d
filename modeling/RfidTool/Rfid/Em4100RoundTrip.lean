import RfidTool.Rfid.Em4100Decoder
import RfidTool.Rfid.Em4100Eprom
import RfidTool.Rfid.T5557Encoder

/-!
# From the generated words to the decoder

The words of `Em4100Eprom::generate`, sent by `T5557Encoder::encodeBlock`, read
back by `Em4100Decoder`. In one direction everything written is read back; in the
other nothing is read that was not on the air.
-/

namespace RfidTool

open Sequence Parity Em4100Eprom T5557Encoder

/-! ## What is on the air -/

/-- The options of one write command; the data is left out. -/
structure BlockOptions where
  page : UInt8
  block : UInt8
  lock : Bool
  passwordSend : Bool
  password : UInt32

/-- The data bits of the command that writes `data`. -/
def BlockOptions.sentData (o : BlockOptions) (data : UInt32) : List Bool :=
  dataBits o.passwordSend
    (encodeBlock o.page o.block o.lock o.passwordSend o.password data [])

/-- A token to write: the zeros before it, what the result words held before the
call of `generate`, and the options of the two commands that send them. -/
structure Writing where
  zeros : ℕ
  token : Token
  old : Vector UInt32 2
  first : BlockOptions
  second : BlockOptions

/-- The 64 data bits of a token, after its zeros. -/
def Writing.bits (x : Writing) : List Bool :=
  let words := generate x.old x.token.versionOrCustomerId x.token.data
  List.replicate x.zeros false ++ (x.first.sentData words[0] ++ x.second.sentData words[1])

theorem lsbFirst_append (words : Vector UInt32 2) :
    T5557Encoder.lsbFirst words[0] 32 ++ T5557Encoder.lsbFirst words[1] 32 =
      WordBuffer.bits words 64 := by
  have hfirst : (List.range 32).map words[0].toBitVec.getLsbD =
      (List.range 32).map (WordBuffer.bit words) := by
    refine List.map_congr_left fun i hi => ?_
    have := List.mem_range.mp hi
    simp [WordBuffer.bit, Nat.div_eq_of_lt this, Nat.mod_eq_of_lt this]
  have hsecond : (List.range 32).map words[1].toBitVec.getLsbD =
      (List.range 32).map (WordBuffer.bit words ∘ (32 + ·)) := by
    refine List.map_congr_left fun i hi => ?_
    have := List.mem_range.mp hi
    have hdiv : (32 + i) / 32 = 1 := by omega
    have hmod : (32 + i) % 32 = i := by omega
    simp [WordBuffer.bit, hdiv, hmod]
  rw [WordBuffer.bits, show (64 : ℕ) = 32 + 32 from rfl, List.range_add, List.map_append,
    List.map_map, ← hfirst, ← hsecond]
  rfl

/-- Both commands together put the frame on the air. -/
theorem Writing.bits_eq (x : Writing) :
    x.bits = List.replicate x.zeros false ++ frame x.token := by
  unfold Writing.bits BlockOptions.sentData
  simp only [dataBits_encodeBlock]
  rw [lsbFirst_append, bits_generate]

/-- The endless repetition of the 64 bits of two words, least significant bit first. -/
def repeatedBits (words : Vector UInt32 2) (p : ℕ) : Bool := WordBuffer.bit words (p % 64)

theorem repeatedBits_generate (old : Vector UInt32 2) (t : Token) :
    repeatedBits (generate old t.versionOrCustomerId t.data) = cyclicFrame t := by
  funext p
  have hp : p % 64 < 64 := Nat.mod_lt p (by decide)
  have hbit := congrArg (·[p % 64]?) (bits_generate old t)
  simp only [WordBuffer.bits, frame, List.getElem?_map, List.getElem?_range hp, Option.map_some,
    getElem?_segment _ _ hp, Nat.zero_add, Option.some.injEq] at hbit
  exact hbit

/-! ## Everything written is read back -/

namespace Em4100Decoder

/-- A receiver at rest reads a frame and is at rest again. -/
theorem trace_frame (t : Token) :
    framer.machine.final (.hunting 0) (frame t) = .hunting 0 ∧
      framer.machine.trace (.hunting 0) (frame t) = List.replicate 63 none ++ [some t] := by
  have hbody : body t.digit ≠ [] := List.ne_nil_of_length_pos (by simp)
  have := Framer.run_frame hbody (accepts_body t)
  rw [framer_preamble, length_body] at this
  rw [frame_eq_body]
  exact this

theorem trace_writing (x : Writing) :
    framer.machine.final (.hunting 0) x.bits = .hunting 0 ∧
      framer.machine.trace (.hunting 0) x.bits =
        List.replicate (x.zeros + 63) none ++ [some x.token] := by
  obtain ⟨hzeros, hsilent⟩ := framer.run_zeros x.zeros
  obtain ⟨hframe, htoken⟩ := trace_frame x.token
  rw [x.bits_eq, Transducer.final_append, Transducer.trace_append, hzeros, hsilent, htoken]
  exact ⟨hframe, by rw [List.replicate_add, List.append_assoc]⟩

theorem trace_writings (xs : List Writing) :
    framer.machine.trace (.hunting 0) (xs.flatMap Writing.bits) =
      xs.flatMap fun x => List.replicate (x.zeros + 63) none ++ [some x.token] := by
  induction xs with
  | nil => rfl
  | cons x xs ih =>
    obtain ⟨hfinal, htrace⟩ := trace_writing x
    rw [List.flatMap_cons, List.flatMap_cons, Transducer.trace_append, hfinal, htrace, ih]

/-- A decoder that waits for a preamble reads back all tokens that were written, each
at the last bit of its frame, and nothing else. -/
theorem trace_flatMap_writing {d : Em4100Decoder} (h : Reachable d) (hstate : d.state = .preamble)
    (hcount : d.bitCount = 0) (xs : List Writing) :
    machine.trace d (xs.flatMap Writing.bits) =
      xs.flatMap fun x => List.replicate (x.zeros + 63) none ++ [some x.token] := by
  rw [refines.trace (h.matches_hunting hstate hcount)]
  exact trace_writings xs

/-- Two writings, the second one protected by a password, read by a new decoder. -/
theorem trace_flatMap_writing_two :
    machine.trace blank.reset
        ([⟨3, ⟨0xc0, 0x12345678⟩, #v[0, 0], ⟨0, 1, false, false, 0⟩, ⟨0, 2, false, false, 0⟩⟩,
          ⟨0, ⟨0x01, 0xffffffff⟩, #v[0xffffffff, 7], ⟨0, 1, true, true, 0x51243648⟩,
            ⟨0, 2, true, true, 0x51243648⟩⟩].flatMap Writing.bits) =
      List.replicate 66 none ++ [some ⟨0xc0, 0x12345678⟩] ++
        (List.replicate 63 none ++ [some ⟨0x01, 0xffffffff⟩]) := by
  rw [trace_flatMap_writing (reachable_reset blank) rfl rfl]
  rfl

/-! ## Only frames are read -/

/-- The frame layout read off a list of bits. -/
structure WellFormed (w : List Bool) : Prop where
  length : w.length = 64
  ones : w.take 9 = List.replicate 9 true
  row : ∀ i < 10, parity ((w.drop (9 + 5 * i)).take 5) = false
  column : ∀ k < 4, parity ((List.range 11).map fun i => w.getD (9 + 5 * i + k) false) = false
  stop : w.getD 63 false = false

end Em4100Decoder

theorem getD_frame (t : Token) {j : ℕ} (hj : j < 55) :
    (frame t).getD (9 + j) false = bodyBit t.digit j := by
  have hindex : 0 + (9 + j) - 9 = j := by omega
  rw [frame, List.getD_eq_getElem?_getD, getElem?_segment _ _ (by omega), Option.getD_some,
    frameBit, if_neg (by omega), hindex]

theorem wellFormed_frame (t : Token) : Em4100Decoder.WellFormed (frame t) where
  length := length_frame t
  ones := by
    rw [frame_eq_body]
    exact List.take_left' List.length_replicate
  row i hi := by
    have hdrop : (frame t).drop (9 + 5 * i) = (body t.digit).drop (5 * i) := by
      rw [frame_eq_body, ← List.drop_drop, List.drop_left' List.length_replicate]
    have hindex : (55 : ℕ) = 5 * i + (5 + (50 - 5 * i)) := by omega
    rw [hdrop, body, hindex, drop_segment, take_segment _ _ (by omega), Nat.zero_add]
    exact parity_bodyBit t.digit hi
  column k hk := by
    have hrows : (List.range 10).map (fun i => (frame t).getD (9 + 5 * i + k) false) =
        (List.range 10).map fun i => (t.digit i).getLsbD (3 - k) := by
      refine List.map_congr_left fun i hi => ?_
      have hi := List.mem_range.mp hi
      have hindex : (5 * i + k) / 5 = i := by omega
      have hindex' : (5 * i + k) % 5 = k := by omega
      rw [Nat.add_assoc, getD_frame t (by omega), bodyBit, if_pos (by omega), rowBit,
        if_pos (by omega), hindex, hindex']
    have hlast : (frame t).getD (9 + 5 * 10 + k) false = (column t.digit).getLsbD (3 - k) := by
      have hindex : (5 * 10 + k) % 5 = k := by omega
      rw [Nat.add_assoc, getD_frame t (by omega), bodyBit, if_neg (by omega), if_pos (by omega),
        hindex]
    rw [List.range_succ, List.map_append, hrows, parity_append, List.map_singleton, hlast,
      getLsbD_column]
    simp
  stop := by
    have := getD_frame t (j := 54) (by decide)
    rw [this]
    rfl

namespace Em4100Decoder

/-- On any input, a token is notified only at the end of the 64 bits of its frame,
and the windows of two notifications are disjoint. -/
theorem token_is_frame (d : Em4100Decoder) (bits : List Bool) (n : ℕ) (t : Token)
    (h : (machine.trace d.reset bits)[n]? = some (some t)) (old : Vector UInt32 2) :
    64 ≤ n + 1 ∧
      (bits.take (n + 1)).drop (n + 1 - 64) =
        WordBuffer.bits (generate old t.versionOrCustomerId t.data) 64 ∧
      WellFormed ((bits.take (n + 1)).drop (n + 1 - 64)) ∧
      ∀ m < n, ∀ u, (machine.trace d.reset bits)[m]? = some (some u) → m + 64 ≤ n := by
  have hlen : n < bits.length := by
    have := (List.getElem?_eq_some_iff.mp h).1
    rwa [machine.length_trace] at this
  rw [refines.trace (matches_reset d)] at h ⊢
  obtain ⟨w, hacc, ⟨older, hsuffix⟩, hold⟩ := Framer.sound h
  obtain rfl := accepts_iff.mp hacc
  rw [framer_preamble, ← frame_eq_body] at hsuffix
  have hsplit : older.length = n + 1 - 64 ∧ 64 ≤ n + 1 := by
    have := congrArg List.length hsuffix
    rw [List.length_append, length_frame, List.length_take] at this
    omega
  have hwindow : (bits.take (n + 1)).drop (n + 1 - 64) = frame t := by
    rw [← hsuffix, List.drop_left' hsplit.1]
  rw [hwindow, bits_generate]
  refine ⟨hsplit.2, rfl, wellFormed_frame t, ?_⟩
  intro m hm u hu
  have := hold m hm u hu
  rw [framer_preamble, length_body] at this
  omega

/-- The ends of two frames in a row, read by a new decoder. -/
theorem token_is_frame_two :
    (machine.trace blank.reset (frame ⟨0xc0, 0x12345678⟩ ++ frame ⟨1, 0xffffffff⟩))[63]? =
        some (some ⟨0xc0, 0x12345678⟩) ∧
      ((frame ⟨0xc0, 0x12345678⟩ ++ frame ⟨1, 0xffffffff⟩).take 128).drop 64 =
        WordBuffer.bits (generate #v[0, 0] 1 0xffffffff) 64 ∧
      ∀ m < 127, ∀ u, (machine.trace blank.reset
        (frame ⟨0xc0, 0x12345678⟩ ++ frame ⟨1, 0xffffffff⟩))[m]? = some (some u) →
          m + 64 ≤ 127 := by
  have htrace : machine.trace blank.reset (frame ⟨0xc0, 0x12345678⟩ ++ frame ⟨1, 0xffffffff⟩) =
      List.replicate 63 none ++ [some ⟨0xc0, 0x12345678⟩] ++
        (List.replicate 63 none ++ [some ⟨1, 0xffffffff⟩]) := by
    obtain ⟨hfinal, hfirst⟩ := trace_frame ⟨0xc0, 0x12345678⟩
    rw [refines.trace (matches_reset blank), Transducer.trace_append, hfinal, hfirst,
      (trace_frame ⟨1, 0xffffffff⟩).2]
  have hlast := congrArg (·[127]?) htrace
  obtain ⟨-, hwindow, -, hapart⟩ := token_is_frame blank _ 127 ⟨1, 0xffffffff⟩ hlast #v[0, 0]
  refine ⟨?_, hwindow, hapart⟩
  rw [htrace]
  rfl

end Em4100Decoder

end RfidTool

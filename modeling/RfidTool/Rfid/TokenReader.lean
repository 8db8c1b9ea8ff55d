import RfidTool.Library.Listeners
import RfidTool.Rfid.CodingDecoder
import RfidTool.Rfid.Em4100RoundTrip

/-!
# The decoders of `--read`

One carrier decoder, to which the Manchester and the biphase decoder listen, and a token decoder
for each of them. The listener of the token decoders reports the divider, the coding and the
token. The two codings do not disturb each other: what is reported for one is what its chain
notifies alone, and a report stands for the 64 bits of a frame that its decoder has read, at the
divider that the detector is synchronised to.
-/

namespace RfidTool

/-- A line of `Em4100DecoderListener`. -/
structure Report where
  carrierDivider : UInt8
  coding : Coding
  token : Token
  deriving DecidableEq, Repr

/-- A coding decoder with the token decoder that listens to it. -/
def Coding.listener (c : Coding) : Transducer (c.Decoder × Em4100Decoder) CarrierEvent Token :=
  c.machine.comp Em4100Decoder.machine

/-- The objects that `main` makes for `--read`. -/
structure TokenReader where
  carrierDecoder : CarrierDecoder
  manchester : Coding.manchester.Decoder × Em4100Decoder
  biphase : Coding.biphase.Decoder × Em4100Decoder

namespace TokenReader

open Coding Sequence

/-- The objects as constructed; the token decoders keep what the memory held. -/
def fresh (memory : Coding → Em4100Decoder) : TokenReader where
  carrierDecoder := .reset
  manchester := (Coding.manchester.reset, (memory .manchester).reset)
  biphase := (Coding.biphase.reset, (memory .biphase).reset)

/-- `notify` of the carrier decoder: the listeners in the order in which they were added. -/
def notify (r : TokenReader) (event : CarrierEvent) : TokenReader × List Report :=
  let (manchester, token) := Coding.manchester.listener.step r.manchester event
  let (biphase, token') := Coding.biphase.listener.step r.biphase event
  let divider := r.carrierDecoder.carrierDivider
  ({ r with manchester, biphase },
    (token.map (⟨divider, .manchester, ·⟩)).toList ++ (token'.map (⟨divider, .biphase, ·⟩)).toList)

/-- The body of the loop of `checkPulses`, with its listeners. -/
def checkSample (r : TokenReader) (sample : Sample) : TokenReader × List Report :=
  match r.carrierDecoder.checkSample sample with
  | (carrierDecoder, none) => ({ r with carrierDecoder }, [])
  | (carrierDecoder, some event) => { r with carrierDecoder }.notify event

def machine : Emitter TokenReader Sample Report := ⟨checkSample⟩

/-! ## One coding of the two -/

/-- The decoders of a coding. -/
def listenerOf (r : TokenReader) : (c : Coding) → c.Decoder × Em4100Decoder
  | .manchester => r.manchester
  | .biphase => r.biphase

/-- The state of a chain, with the state of its listener. -/
def joined {c : Coding} (carrierDecoder : CarrierDecoder) (s : c.Decoder × Em4100Decoder) :
    (CarrierDecoder × c.Decoder) × Em4100Decoder :=
  ((carrierDecoder, s.1), s.2)

/-- The token of a report for a coding. -/
def tokenOf (c : Coding) (report : Report) : Option Token :=
  if report.coding = c then some report.token else none

/-- Each listener hears the event, and reports for its own coding. -/
theorem notify_spec (c : Coding) (r : TokenReader) (event : CarrierEvent) :
    (r.notify event).1.listenerOf c = (c.listener.step (r.listenerOf c) event).1 ∧
      (r.notify event).2.filterMap (tokenOf c) =
        (c.listener.step (r.listenerOf c) event).2.toList := by
  cases c with
  | manchester =>
    refine ⟨rfl, ?_⟩
    unfold notify listenerOf
    rcases Coding.manchester.listener.step r.manchester event with ⟨-, _ | token⟩ <;>
      rcases Coding.biphase.listener.step r.biphase event with ⟨-, _ | token'⟩ <;> rfl
  | biphase =>
    refine ⟨rfl, ?_⟩
    unfold notify listenerOf
    rcases Coding.manchester.listener.step r.manchester event with ⟨-, _ | token⟩ <;>
      rcases Coding.biphase.listener.step r.biphase event with ⟨-, _ | token'⟩ <;> rfl

/-- A step of the chain of a coding is one of the carrier decoder, and of the listener where
that notifies an event. -/
theorem chain_step (c : Coding) (carrierDecoder : CarrierDecoder)
    (s : c.Decoder × Em4100Decoder) (x : Sample) :
    c.chain.step (joined carrierDecoder s) x =
      match carrierDecoder.checkSample x with
      | (carrierDecoder, none) => (joined carrierDecoder s, none)
      | (carrierDecoder, some event) =>
        (joined carrierDecoder (c.listener.step s event).1, (c.listener.step s event).2) := by
  obtain ⟨decoder, em4100Decoder⟩ := s
  unfold Coding.chain Coding.listener joined Transducer.comp
  dsimp only
  rw [CarrierDecoder.machine_step]
  rcases carrierDecoder.checkSample x with ⟨carrierDecoder, _ | event⟩
  · rfl
  · dsimp only
    rcases c.machine.step decoder event with ⟨decoder, _ | bit⟩ <;> rfl

/-- Each coding is decoded as if its chain were alone. -/
theorem component (c : Coding) :
    machine.Component c.chain (fun r => joined r.carrierDecoder (r.listenerOf c)) (tokenOf c) := by
  have hstep (r : TokenReader) (x : Sample) :
      joined (machine.step r x).1.carrierDecoder ((machine.step r x).1.listenerOf c) =
        (c.chain.step (joined r.carrierDecoder (r.listenerOf c)) x).1 ∧
      (machine.step r x).2.filterMap (tokenOf c) =
        (c.chain.step (joined r.carrierDecoder (r.listenerOf c)) x).2.toList := by
    rw [chain_step]
    change joined (r.checkSample x).1.carrierDecoder ((r.checkSample x).1.listenerOf c) = _ ∧
      (r.checkSample x).2.filterMap (tokenOf c) = _
    unfold checkSample
    rcases r.carrierDecoder.checkSample x with ⟨carrierDecoder, _ | event⟩
    · cases c <;> exact ⟨rfl, rfl⟩
    · have hsame : ({ r with carrierDecoder } : TokenReader).listenerOf c = r.listenerOf c := by
        cases c <;> rfl
      obtain ⟨hlistener, htoken⟩ := notify_spec c { r with carrierDecoder } event
      rw [hsame] at hlistener htoken
      dsimp only
      rw [hlistener, htoken]
      exact ⟨rfl, rfl⟩
  exact ⟨fun r x => (hstep r x).1, fun r x => (hstep r x).2⟩

/-! ## What a report stands for -/

/-- The bits that the decoder of a coding has notified. -/
def bitsOf (c : Coding) (samples : List Sample) : List Bool :=
  c.machine.output c.reset (CarrierDecoder.machine.output .reset samples)

/-- Pulses are notified with synchronisation, at the divider of the detector. -/
theorem of_newPulse {d d' : CarrierDecoder} {x : Sample} {isHigh isLong : Bool}
    (h : d.checkSample x = (d', some (.newPulse isHigh isLong))) :
    d.hasSync = true ∧ d'.carrierDivider = d.carrierDivider := by
  rcases d.checkSample_cases x with ⟨-, hnext⟩ | ⟨-, hsync, hfollow⟩ | ⟨-, -, hsearch⟩
  · rw [hnext] at h
    cases h
  · rw [hfollow] at h
    refine ⟨hsync, ?_⟩
    have hdivider : (d.nextWindow.follow x).1.carrierDivider = d.nextWindow.carrierDivider := by
      unfold CarrierDecoder.follow
      dsimp only
      split_ifs <;> rfl
    rw [h] at hdivider
    rw [hdivider]
    unfold CarrierDecoder.nextWindow
    split_ifs <;> rfl
  · rw [hsearch] at h
    rcases d.nextWindow.search_snd x.getLengthUs with hnone | hsome
    · rw [h] at hnone
      cases hnone
    · rw [h] at hsome
      cases hsome

/-- A listener notifies a token for a pulse. -/
theorem pulse_of_token {c : Coding} {s : c.Decoder × Em4100Decoder} {event : CarrierEvent}
    {token : Token} (h : (c.listener.step s event).2 = some token) :
    ∃ isHigh isLong, event = .newPulse isHigh isLong := by
  cases event with
  | newPulse isHigh isLong => exact ⟨isHigh, isLong, rfl⟩
  | syncChanged hasSync divider =>
    have hnone : (c.machine.step s.1 (.syncChanged hasSync divider)).2 = none :=
      congrArg Prod.snd (c.onEvent_syncChanged s.1 hasSync divider)
    rw [Coding.listener, Transducer.comp_step_none hnone] at h
    cases h

/-- A token is notified behind the bits of its frame. -/
theorem suffix_of_token {d : Em4100Decoder} {bits : List Bool} {b : Bool} {token : Token}
    (h : (Em4100Decoder.machine.step (Em4100Decoder.machine.final d.reset bits) b).2 =
      some token) : frame token <:+ bits ++ [b] := by
  have htrace : (Em4100Decoder.machine.trace d.reset (bits ++ [b]))[bits.length]? =
      some (some token) := by
    rw [Transducer.getElem?_trace, List.getElem?_concat_length, List.take_left, Option.map_some, h]
  rw [Em4100Decoder.refines.trace (Em4100Decoder.matches_reset d)] at htrace
  obtain ⟨w, haccepts, hsuffix, -⟩ := Framer.sound htrace
  rw [accepts_iff.mp haccepts, framer_preamble, ← frame_eq_body] at hsuffix
  rwa [List.take_of_length_le (by simp)] at hsuffix

/-- A chain notifies a token behind the bits of its frame. -/
theorem suffix_of_output {c : Coding} {d : Em4100Decoder} {before : List Sample} {x : Sample}
    {token : Token} (h : c.chain.output (c.fresh d) (before ++ [x]) =
      c.chain.output (c.fresh d) before ++ [token]) :
    frame token <:+ bitsOf c (before ++ [x]) := by
  obtain ⟨new, hbits, hshort⟩ : ∃ new, bitsOf c (before ++ [x]) = bitsOf c before ++ new ∧
      new.length ≤ 1 := by
    unfold bitsOf
    rw [Transducer.output_append, Transducer.output_append]
    refine ⟨_, rfl, (c.machine.length_output_le_length _ _).trans ?_⟩
    exact CarrierDecoder.machine.length_output_le_length _ _
  have htoken : Em4100Decoder.machine.output
      (Em4100Decoder.machine.final d.reset (bitsOf c before)) new = [token] := by
    rw [Coding.fresh, Coding.output_chain, Coding.output_chain] at h
    change Em4100Decoder.machine.output d.reset (bitsOf c (before ++ [x])) =
      Em4100Decoder.machine.output d.reset (bitsOf c before) ++ [token] at h
    rw [hbits, Transducer.output_append, List.append_right_inj] at h
    exact h
  match new, hshort with
  | [], _ => cases htoken
  | [b], _ =>
    rw [hbits]
    refine suffix_of_token (d := d) ?_
    rw [Transducer.output_cons, Transducer.output_nil, List.append_nil] at htoken
    exact Option.toList_eq_singleton_iff.mp htoken

/-- A report comes from the listener of its coding. -/
theorem of_mem_notify {r : TokenReader} {event : CarrierEvent} {report : Report}
    (h : report ∈ (r.notify event).2) :
    (report.coding.listener.step (r.listenerOf report.coding) event).2 = some report.token ∧
      report.carrierDivider = r.carrierDecoder.carrierDivider := by
  obtain ⟨divider, coding, token⟩ := report
  unfold notify at h
  simp only [List.mem_append, Option.mem_toList, Option.map_eq_some_iff,
    Report.mk.injEq] at h
  rcases h with ⟨token', htoken, rfl, rfl, rfl⟩ | ⟨token', htoken, rfl, rfl, rfl⟩
  · exact ⟨htoken, rfl⟩
  · exact ⟨htoken, rfl⟩

/-- The detector does not depend on its listeners. -/
theorem carrierDecoder_final (r : TokenReader) (xs : List Sample) :
    (machine.final r xs).carrierDecoder = CarrierDecoder.machine.final r.carrierDecoder xs := by
  induction xs generalizing r with
  | nil => rfl
  | cons x xs ih =>
    refine (ih (machine.step r x).1).trans (congrArg (CarrierDecoder.machine.final · xs) ?_)
    change (r.checkSample x).1.carrierDecoder = (r.carrierDecoder.checkSample x).1
    unfold checkSample
    rcases r.carrierDecoder.checkSample x with ⟨carrierDecoder, _ | event⟩ <;> rfl

/-- What is reported for a coding is what its chain notifies alone. A report comes in the step of
a sample behind which the decoder of its coding has just read the frame of the token, and it
names the divider that the detector is synchronised to. -/
theorem reports_of_samples (memory : Coding → Em4100Decoder) (samples : List Sample) :
    (∀ c, (machine.output (fresh memory) samples).filterMap (tokenOf c) =
      c.chain.output (c.fresh (memory c)) samples) ∧
    ∀ report ∈ machine.output (fresh memory) samples,
      ∃ before x after, samples = before ++ x :: after ∧
        report ∈ (machine.step (machine.final (fresh memory) before) x).2 ∧
        (CarrierDecoder.machine.final .reset before).hasSync = true ∧
        report.carrierDivider = (CarrierDecoder.machine.final .reset before).carrierDivider ∧
        frame report.token <:+ bitsOf report.coding (before ++ [x]) := by
  have hfresh (c : Coding) : joined (fresh memory).carrierDecoder ((fresh memory).listenerOf c) =
      c.fresh (memory c) := by
    cases c <;> rfl
  refine ⟨fun c => hfresh c ▸ (component c).output (fresh memory) samples, ?_⟩
  intro report hreport
  obtain ⟨before, x, after, rfl, hmem⟩ := machine.exists_of_mem_output hreport
  have hstepped := hmem
  have hcarrier : (machine.final (fresh memory) before).carrierDecoder =
      CarrierDecoder.machine.final .reset before := carrierDecoder_final _ _
  have hchain := (component report.coding).final (fresh memory) before
  rw [hfresh] at hchain
  change report ∈ ((machine.final (fresh memory) before).checkSample x).2 at hmem
  unfold checkSample at hmem
  rw [hcarrier] at hmem hchain
  rcases hstep : (CarrierDecoder.machine.final .reset before).checkSample x with
    ⟨carrierDecoder, _ | event⟩
  · rw [hstep] at hmem
    cases hmem
  · rw [hstep] at hmem
    obtain ⟨htoken, hdivider⟩ := of_mem_notify hmem
    obtain ⟨isHigh, isLong, rfl⟩ := pulse_of_token htoken
    obtain ⟨hsync, hsame⟩ := of_newPulse hstep
    refine ⟨before, x, after, rfl, hstepped, hsync, hdivider.trans hsame,
      suffix_of_output (d := memory report.coding) ?_⟩
    rw [Transducer.output_append, ← hchain, Transducer.output_cons, chain_step, hstep]
    have hlistener : (TokenReader.listenerOf { machine.final (fresh memory) before with
        carrierDecoder } report.coding) =
        (machine.final (fresh memory) before).listenerOf report.coding := by
      cases report.coding <;> rfl
    rw [hlistener] at htoken
    dsimp only
    rw [htoken, Transducer.output_nil, List.append_nil]
    rfl

end TokenReader

end RfidTool

import Mathlib.Data.List.SplitLengths
import RfidTool.Firmware.Capture
import RfidTool.Firmware.Transmit

/-!
# Upload and download of the two vectors

A write command and the packets behind it overwrite the front of its vector with the bytes
of the packets, however they are cut; what does not fit is dropped. The polls of the
matching read command are answered with the vector, cut as the host asks for it: full
answers up to the one that reaches the end, and empty ones from there on. Rounds of the
main loop may come in between, and the other vector is not touched.
-/

namespace RfidTool

/-- The two arrays that the host writes and reads. -/
inductive DataVector where
  | ioBuffer
  | sampleVector
  deriving DecidableEq, Repr

namespace DataVector

def writeCommand : DataVector → UInt8
  | ioBuffer => PROTO_CMD_PULSE_VECTOR_WRITE
  | sampleVector => PROTO_CMD_SAMPLE_VECTOR_WRITE

def readCommand : DataVector → UInt8
  | ioBuffer => PROTO_CMD_PULSE_VECTOR_READ
  | sampleVector => PROTO_CMD_SAMPLE_VECTOR_READ

def size : DataVector → ℕ
  | ioBuffer => 192
  | sampleVector => 7

def other : DataVector → DataVector
  | ioBuffer => sampleVector
  | sampleVector => ioBuffer

theorem isVectorCommand_write (v : DataVector) : IsVectorCommand v.writeCommand := by
  cases v with
  | ioBuffer => exact .inr (.inl rfl)
  | sampleVector => exact .inr (.inr (.inr rfl))

theorem isVectorCommand_read (v : DataVector) : IsVectorCommand v.readCommand := by
  cases v with
  | ioBuffer => exact .inl rfl
  | sampleVector => exact .inr (.inr (.inl rfl))

end DataVector

/-- What may happen during an upload: packets, and rounds of the main loop. -/
def Event.IsUpload : Event → Prop
  | .dataOut _ => True
  | .idle => True
  | _ => False

/-- What may happen during a download: polls, and rounds of the main loop. -/
def Event.IsDownload : Event → Prop
  | .dataIn _ => True
  | .idle => True
  | _ => False

/-- The bytes of the packets, in order. -/
def payload (es : List Event) : List UInt8 :=
  es.flatMap fun e =>
    match e with
    | .dataOut data => data
    | _ => []

/-- What the polls ask for, in order. -/
def requests (es : List Event) : List ℕ :=
  es.filterMap fun e =>
    match e with
    | .dataIn len => some len
    | _ => none

namespace Firmware

/-- The bytes of a vector. -/
def bytes (f : Firmware) : DataVector → List UInt8
  | .ioBuffer => f.ioBuffer.toList
  | .sampleVector => f.sampleVector.toList

/-- The steps that the events take, with the bytes that each poll returns. -/
def answers (f : Firmware) : List Event → Except Halt (Firmware × List (List UInt8))
  | [] => .ok (f, [])
  | .dataIn len :: es => do
    let (g, data) ← if f.userRw then f.usbFunctionRead len else .ok (f, [])
    let (h, later) ← answers g es
    return (h, data :: later)
  | e :: es => do
    let g ← f.step e
    answers g es

/-- The host gets the vector `v` back as it asks for it, and nothing is changed. -/
def Downloads (f : Firmware) (v : DataVector) : Prop :=
  ∀ rq es, rq.bRequest = v.readCommand → (∀ e ∈ es, e.IsDownload) →
    ∃ h replies, f.answers (.setup rq :: es) = .ok (h, replies) ∧
      replies = (requests es).splitLengths (f.bytes v) ∧
      replies.flatten = (f.bytes v).take (requested (requests es)) ∧
      ∀ w, h.bytes w = f.bytes w

theorem answers_cons_of_step {f : Firmware} {e : Event} (he : ∀ len, e ≠ .dataIn len)
    (es : List Event) : f.answers (e :: es) = f.step e >>= fun g => g.answers es := by
  cases e with
  | dataIn len => exact absurd rfl (he len)
  | _ => rfl

/-- The answers belong to the steps of the same events. -/
theorem answers_fst (f : Firmware) (es : List Event) :
    (f.answers es).map (·.1) = es.foldlM step f := by
  induction es generalizing f with
  | nil => rfl
  | cons e es ih =>
    rw [List.foldlM_cons]
    by_cases he : ∀ len, e ≠ .dataIn len
    · rw [answers_cons_of_step he]
      cases f.step e with
      | error => rfl
      | ok g => exact ih g
    · push Not at he
      obtain ⟨len, rfl⟩ := he
      rw [answers, step]
      split_ifs
      · cases f.usbFunctionRead len with
        | error => rfl
        | ok r =>
          change _ = es.foldlM step r.1
          rw [← ih r.1]
          dsimp only [bind, Except.bind]
          cases answers r.1 es <;> rfl
      · change _ = es.foldlM step f
        rw [← ih f]
        dsimp only [bind, Except.bind]
        cases answers f es <;> rfl

/-- A round of the main loop does nothing without a transfer. -/
theorem step_idle_of_idle {f : Firmware} (hidle : f.state = .idle)
    (hcommand : IsVectorCommand f.command) : f.step .idle = .ok f := by
  have hreset : f.command ≠ PROTO_CMD_RESET := by
    rcases hcommand with h | h | h | h <;> rw [h] <;> decide
  rw [step, idleRound, if_neg hreset, hidle]

/-! ## Upload -/

/-- The packets of an upload are one write of all their bytes. -/
theorem foldlM_upload {f : Firmware} (hidle : f.state = .idle)
    (hcommand : IsVectorCommand f.command) (hrw : f.userRw) {es : List Event}
    (hes : ∀ e ∈ es, e.IsUpload) : es.foldlM step f = f.usbFunctionWrite (payload es) := by
  induction es generalizing f with
  | nil => exact (usbFunctionWrite_nil f).symm
  | cons e es ih =>
    rw [List.forall_mem_cons] at hes
    rw [List.foldlM_cons]
    cases e with
    | dataOut data =>
      have hpayload : payload (.dataOut data :: es) = data ++ payload es := rfl
      rw [hpayload, usbFunctionWrite_append, step, if_pos hrw]
      cases hwrite : f.usbFunctionWrite data with
      | error => rfl
      | ok g =>
        obtain ⟨sampleVector, ioBuffer, offset, rfl, -⟩ := usbFunctionWrite_eq_ok hwrite
        exact ih hidle hcommand hrw hes.2
    | idle =>
      rw [step_idle_of_idle hidle hcommand]
      exact ih hidle hcommand hrw hes.2
    | _ => exact hes.1.elim

/-- A write of a whole payload. -/
theorem usbFunctionWrite_vector {f : Firmware} {v : DataVector}
    (hcommand : f.command = v.writeCommand) (hoffset : f.ioBufferOffset = 0)
    (data : List UInt8) :
    ∃ g, f.usbFunctionWrite data = .ok g ∧ g.state = f.state ∧
      g.bytes v = data.take v.size ++ (f.bytes v).drop data.length ∧
      g.bytes v.other = f.bytes v.other := by
  unfold usbFunctionWrite
  rw [hoffset]
  cases v with
  | ioBuffer =>
    replace hcommand : f.command = PROTO_CMD_PULSE_VECTOR_WRITE := hcommand
    have hne : f.command ≠ PROTO_CMD_SAMPLE_VECTOR_WRITE := by
      rw [hcommand]
      decide
    obtain ⟨dst, offset, hloop, hdst⟩ := writeLoop_front (by decide) f.ioBuffer data
    rw [if_neg hne, if_pos hcommand, hloop]
    exact ⟨_, rfl, rfl, hdst, rfl⟩
  | sampleVector =>
    replace hcommand : f.command = PROTO_CMD_SAMPLE_VECTOR_WRITE := hcommand
    obtain ⟨dst, offset, hloop, hdst⟩ := writeLoop_front (by decide) f.sampleVector data
    rw [if_pos hcommand, hloop]
    exact ⟨_, rfl, rfl, hdst, rfl⟩

/-! ## Download -/

/-- A poll returns the bytes behind the offset. -/
theorem usbFunctionRead_vector {f : Firmware} {v : DataVector}
    (hcommand : f.command = v.readCommand) (hle : f.ioBufferOffset.toNat ≤ v.size) (len : ℕ) :
    ∃ offset : UInt8,
      f.usbFunctionRead len = .ok ({ f with ioBufferOffset := offset },
        ((f.bytes v).drop f.ioBufferOffset.toNat).take len) ∧
      offset.toNat ≤ v.size ∧
      (f.bytes v).drop offset.toNat = ((f.bytes v).drop f.ioBufferOffset.toNat).drop len := by
  unfold usbFunctionRead
  cases v with
  | ioBuffer =>
    replace hcommand : f.command = PROTO_CMD_PULSE_VECTOR_READ := hcommand
    have hne : f.command ≠ PROTO_CMD_SAMPLE_VECTOR_READ := by
      rw [hcommand]
      decide
    obtain ⟨offset, hloop, hrest⟩ :=
      readLoop_eq (by decide) f.ioBuffer f.ioBufferOffset len hle
    rw [if_neg hne, if_pos hcommand, hloop]
    exact ⟨offset, rfl, hrest⟩
  | sampleVector =>
    replace hcommand : f.command = PROTO_CMD_SAMPLE_VECTOR_READ := hcommand
    obtain ⟨offset, hloop, hrest⟩ :=
      readLoop_eq (by decide) f.sampleVector f.ioBufferOffset len hle
    rw [if_pos hcommand, hloop]
    exact ⟨offset, rfl, hrest⟩

theorem answers_download {f : Firmware} {v : DataVector} (hidle : f.state = .idle)
    (hcommand : f.command = v.readCommand) (hrw : f.userRw)
    (hle : f.ioBufferOffset.toNat ≤ v.size) {es : List Event} (hes : ∀ e ∈ es, e.IsDownload) :
    ∃ h, f.answers es =
        .ok (h, (requests es).splitLengths ((f.bytes v).drop f.ioBufferOffset.toNat)) ∧
      ∀ w, h.bytes w = f.bytes w := by
  induction es generalizing f with
  | nil => exact ⟨f, rfl, fun _ => rfl⟩
  | cons e es ih =>
    rw [List.forall_mem_cons] at hes
    cases e with
    | dataIn len =>
      obtain ⟨offset, hread, hle', hrest⟩ := usbFunctionRead_vector hcommand hle len
      obtain ⟨h, hanswers, hbytes⟩ :=
        @ih { f with ioBufferOffset := offset } hidle hcommand hrw hle' hes.2
      refine ⟨h, ?_, fun w => (hbytes w).trans rfl⟩
      have hsame : ({ f with ioBufferOffset := offset } : Firmware).bytes v = f.bytes v := by
        cases v <;> rfl
      have hrequests : requests (.dataIn len :: es) = len :: requests es := rfl
      rw [answers, if_pos hrw, hread]
      dsimp only [bind, Except.bind]
      rw [hanswers, hrequests, List.splitLengths_cons, hsame, hrest]
      rfl
    | idle =>
      have hvector : IsVectorCommand f.command := hcommand ▸ v.isVectorCommand_read
      rw [answers_cons_of_step (by simp), step_idle_of_idle hidle hvector]
      exact ih hidle hcommand hrw hle hes.2
    | _ => exact hes.1.elim

theorem flatten_splitLengths_take (lens : List ℕ) (l : List UInt8) :
    (lens.splitLengths l).flatten = l.take (requested lens) := by
  induction lens generalizing l with
  | nil => simp [requested]
  | cons len lens ih =>
    rw [List.splitLengths_cons, List.flatten_cons, ih, requested, List.take_add]

theorem downloads_of_idle {f : Firmware} (hidle : f.state = .idle) (v : DataVector) :
    f.Downloads v := by
  intro rq es hrq hes
  have hvector : IsVectorCommand rq.bRequest := hrq ▸ v.isVectorCommand_read
  obtain ⟨h, hanswers, hbytes⟩ := @answers_download
    { f with ioBufferOffset := 0, command := rq.bRequest, userRw := true } v hidle hrq rfl
    (Nat.zero_le _) es hes
  have hsame (w : DataVector) :
      ({ f with ioBufferOffset := 0, command := rq.bRequest, userRw := true } : Firmware).bytes w =
        f.bytes w := by
    cases w <;> rfl
  refine ⟨h, _, ?_, rfl, flatten_splitLengths_take _ _, fun w => (hbytes w).trans (hsame w)⟩
  rw [answers_cons_of_step (by simp), step, usbFunctionSetup_vector f hvector]
  refine hanswers.trans ?_
  rw [hsame]
  rfl

/-- Without a transfer, an upload leaves the payload in front of its vector and the other
one as it was, and a download returns the vector, before the upload and behind it. -/
theorem upload_download (v : DataVector) {f : Firmware} (hidle : f.state = .idle) :
    f.Downloads v ∧
      ∀ rq es, rq.bRequest = v.writeCommand → (∀ e ∈ es, e.IsUpload) →
        ∃ g, (Event.setup rq :: es).foldlM step f = .ok g ∧
          g.bytes v = (payload es).take v.size ++ (f.bytes v).drop (payload es).length ∧
          g.bytes v.other = f.bytes v.other ∧ g.Downloads v := by
  refine ⟨downloads_of_idle hidle v, ?_⟩
  intro rq es hrq hes
  have hvector : IsVectorCommand rq.bRequest := hrq ▸ v.isVectorCommand_write
  obtain ⟨g, hwrite, hstate, hbytes, hother⟩ := @usbFunctionWrite_vector
    { f with ioBufferOffset := 0, command := rq.bRequest, userRw := true } v hrq rfl (payload es)
  refine ⟨g, ?_, ?_, ?_, downloads_of_idle (hstate.trans hidle) v⟩
  · rw [List.foldlM_cons, step, usbFunctionSetup_vector f hvector]
    exact (foldlM_upload (by exact hidle) (by exact hvector) rfl hes).trans hwrite
  · rw [hbytes]
    cases v <;> rfl
  · rw [hother]
    cases v <;> rfl

/-- A request to write `sampleVector`. -/
def writeSamples : SetupRequest := ⟨PROTO_CMD_SAMPLE_VECTOR_WRITE, 0, 0⟩

/-- Ten bytes for the seven of `sampleVector`, in two packets. -/
theorem upload_download_init :
    ∃ g, [Event.setup writeSamples, .dataOut [1, 2, 3, 4, 5, 6, 7, 8], .idle,
        .dataOut [9, 10]].foldlM step init = .ok g ∧
      g.bytes .sampleVector = [1, 2, 3, 4, 5, 6, 7] ∧
      g.bytes .ioBuffer = List.replicate 192 0 ∧ g.Downloads .sampleVector := by
  obtain ⟨-, hupload⟩ := upload_download .sampleVector (f := init) rfl
  have hes : ∀ e ∈ [Event.dataOut [1, 2, 3, 4, 5, 6, 7, 8], .idle, .dataOut [9, 10]],
      e.IsUpload := by
    simp [Event.IsUpload]
  obtain ⟨g, hg, hbytes, hother, hdownloads⟩ := hupload writeSamples _ rfl hes
  exact ⟨g, hg, hbytes, hother, hdownloads⟩

end Firmware

end RfidTool

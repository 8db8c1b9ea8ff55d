import Mathlib.Tactic.Common

/-!
# `usbGetStringAscii`

The host asks libusb for a string, and when that fails it asks for the descriptor itself and
should copy the units behind its header. The bound `rval` of the copying loop is never set,
so no unit is copied and the result is always the empty string: it is right only when the
descriptor has no units or the buffer has no room for one. Both ways of asking are parameters
of the model, and every access to one of the two buffers is checked.
-/

namespace RfidTool

/-- What libusb answers to a request for a string. -/
structure StringSource where
  /-- The result and the buffer, or an error that leaves the buffer as it is. -/
  usbGetStringSimple : (buflen : ℕ) → Except ℕ (ℕ × Vector UInt8 buflen)
  /-- The bytes received, or an error. -/
  usbControlMsg : Except ℕ (List UInt8)

/-- An access behind the end of a buffer. -/
inductive Overrun where
  | overrun
  deriving DecidableEq, Repr

namespace UsbString

def USB_DT_STRING : UInt8 := 3

/-- "rfid-tool" -/
def DEV_USB_PROD : List UInt8 := [0x72, 0x66, 0x69, 0x64, 0x2d, 0x74, 0x6f, 0x6f, 0x6c]

/-- '?' -/
def REPLACEMENT : UInt8 := 0x3f

def load {n : ℕ} (buffer : Vector UInt8 n) (i : ℕ) : Except Overrun UInt8 :=
  if h : i < n then .ok buffer[i] else .error .overrun

def store {n : ℕ} (buf : Vector UInt8 n) (i : ℕ) (value : UInt8) :
    Except Overrun (Vector UInt8 n) :=
  if h : i < n then .ok (buf.set i value) else .error .overrun

/-- `buffer` behind `usbControlMsg`: it was filled with zeros. -/
def received (bytes : List UInt8) : Vector UInt8 256 := .ofFn fun i => bytes.getD i 0

/-- The loop from `i` on, with the number of values that are left below `rval`. -/
def copyLoop {buflen : ℕ} (buffer : Vector UInt8 256) :
    ℕ → ℕ → Vector UInt8 buflen → Except Overrun (ℕ × Vector UInt8 buflen)
  | 0, i, buf => .ok (i, buf)
  | rounds + 1, i, buf =>
    if i > buflen then .ok (i, buf)
    else do
      let lo ← load buffer (2 * i)
      let buf ← store buf (i - 1) lo
      let hi ← load buffer (2 * i + 1)
      let buf ← if hi ≠ 0 then store buf (i - 1) REPLACEMENT else .ok buf
      copyLoop buffer rounds (i + 1) buf

/-- `usbGetStringAscii`: its result and the buffer. Errors are negative. -/
def usbGetStringAscii (source : StringSource) {buflen : ℕ} (buf : Vector UInt8 buflen) :
    Except Overrun (Int × Vector UInt8 buflen) :=
  let rval := 0
  match source.usbGetStringSimple buflen with
  | .ok (ret, buf) => .ok (ret, buf)
  | .error _ =>
    match source.usbControlMsg with
    | .error e => .ok (Int.negSucc e, buf)
    | .ok bytes =>
      let buffer := received bytes
      if buffer[1] ≠ USB_DT_STRING then do
        let buf ← store buf 0 0
        return (0, buf)
      else do
        let ret := if buffer[0].toNat < bytes.length then buffer[0].toNat else bytes.length
        let ret := ret / 2
        let (i, buf) ← copyLoop buffer (rval - 1) 1 buf
        let buf ← store buf (i - 1) 0
        return (ret, buf)

/-- `strcmp(buf, s) == 0`, for a string without zeros -/
def isString (buf s : List UInt8) : Bool := (s ++ [0]).isPrefixOf buf

/-- The test of the constructor: there is a string, and it is the name of the product. -/
def reportsProduct (source : StringSource) {buflen : ℕ} (iProductBuffer : Vector UInt8 buflen) :
    Bool :=
  match usbGetStringAscii source iProductBuffer with
  | .ok (ret, buf) => decide (ret ≥ 0) && isString buf.toList DEV_USB_PROD
  | .error _ => false

/-- The units at the offsets 2, 4, … below the length of the descriptor, as it was received
and as it says. -/
def units (bytes : List UInt8) : List (UInt8 × UInt8) :=
  (List.range ((min bytes.length (bytes.getD 0 0).toNat - 1) / 2)).map fun k =>
    (bytes.getD (2 * (k + 1)) 0, bytes.getD (2 * (k + 1) + 1) 0)

/-- What a descriptor spells in ASCII. -/
def spelled (bytes : List UInt8) : List UInt8 :=
  (units bytes).map fun (lo, hi) => if hi = 0 then lo else REPLACEMENT

/-- Whatever the buffer holds before, it gets the string of the descriptor, cut off where
the buffer ends, and a buffer with room for the name of the product compares equal to it if
and only if the descriptor spells it. -/
def Agrees (source : StringSource) (bytes : List UInt8) (buflen : ℕ) : Prop :=
  ∀ buf : Vector UInt8 buflen,
    (∃ ret out, usbGetStringAscii source buf = .ok (ret, out) ∧
      (spelled bytes).take (buflen - 1) ++ [0] <+: out.toList) ∧
    (DEV_USB_PROD.length < buflen →
      (reportsProduct source buf = true ↔ spelled bytes = DEV_USB_PROD))

/-! ## What the fallback does -/

section

variable {source : StringSource} {bytes : List UInt8} {buflen e : ℕ}

theorem getElem_received (bytes : List UInt8) (i : ℕ) (h : i < 256) :
    (received bytes)[i] = bytes.getD i 0 :=
  Vector.getElem_ofFn h

theorem store_zero (hbuflen : 1 ≤ buflen) (buf : Vector UInt8 buflen) :
    store buf 0 0 = .ok (buf.set 0 0) := dif_pos hbuflen

/-- No string is written behind the end of its buffer. -/
theorem usbGetStringAscii_ok (hbuflen : 1 ≤ buflen) (source : StringSource)
    (buf : Vector UInt8 buflen) : ∃ r, usbGetStringAscii source buf = .ok r := by
  have hloop (bytes : List UInt8) : copyLoop (received bytes) (0 - 1) 1 buf = .ok (1, buf) := rfl
  unfold usbGetStringAscii
  cases source.usbGetStringSimple buflen with
  | ok r => exact ⟨_, rfl⟩
  | error =>
    cases source.usbControlMsg with
    | error e => exact ⟨_, rfl⟩
    | ok bytes =>
      dsimp only
      rw [hloop, store_zero hbuflen]
      by_cases htype : (received bytes)[1] ≠ USB_DT_STRING
      · rw [if_pos htype]
        exact ⟨_, rfl⟩
      · rw [if_neg htype]
        dsimp only [bind, Except.bind]
        rw [store_zero hbuflen]
        exact ⟨_, rfl⟩

/-- The fallback writes the terminator to the front and nothing else. -/
theorem usbGetStringAscii_fallback (hbuflen : 1 ≤ buflen)
    (hsimple : source.usbGetStringSimple buflen = .error e)
    (hcontrol : source.usbControlMsg = .ok bytes) (htype : bytes[1]? = some USB_DT_STRING)
    (buf : Vector UInt8 buflen) :
    ∃ ret : ℕ, usbGetStringAscii source buf = .ok (ret, buf.set 0 0) := by
  have htype' : (received bytes)[1] = USB_DT_STRING := by
    rw [getElem_received, List.getD_eq_getElem?_getD, htype]
    rfl
  unfold usbGetStringAscii
  rw [hsimple, hcontrol]
  dsimp only
  rw [if_neg (not_not_intro htype')]
  have hloop : copyLoop (received bytes) (0 - 1) 1 buf = .ok (1, buf) := rfl
  rw [hloop]
  dsimp only [bind, Except.bind]
  rw [store_zero hbuflen]
  exact ⟨_, rfl⟩

/-- So the buffer holds the empty string. -/
theorem toList_set_zero (hbuflen : 1 ≤ buflen) (buf : Vector UInt8 buflen) :
    (buf.set 0 0).toList = 0 :: buf.toList.tail := by
  rw [Vector.toList_set]
  cases hbuf : buf.toList with
  | nil =>
    have hlength := buf.length_toList
    rw [hbuf] at hlength
    simp at hlength
    omega
  | cons b rest => rfl

/-- There is something to copy if and only if the descriptor is longer than its header. -/
theorem spelled_eq_nil_iff (bytes : List UInt8) :
    spelled bytes = [] ↔ min bytes.length (bytes.getD 0 0).toNat ≤ 2 := by
  rw [spelled, units, List.map_eq_nil_iff, List.map_eq_nil_iff, List.range_eq_nil]
  omega

/-- The empty string is not the name of the product. -/
theorem reportsProduct_fallback (hbuflen : 1 ≤ buflen)
    (hsimple : source.usbGetStringSimple buflen = .error e)
    (hcontrol : source.usbControlMsg = .ok bytes) (htype : bytes[1]? = some USB_DT_STRING)
    (buf : Vector UInt8 buflen) : reportsProduct source buf = false := by
  obtain ⟨ret, hret⟩ := usbGetStringAscii_fallback hbuflen hsimple hcontrol htype buf
  have hname : isString (buf.set 0 0).toList DEV_USB_PROD = false := by
    rw [toList_set_zero hbuflen]
    rfl
  rw [reportsProduct, hret]
  dsimp only
  rw [hname, Bool.and_false]

/-- Nothing stands between the terminator that was written and bytes that are not zero. -/
theorem eq_nil_of_terminated {s : List UInt8} {n : ℕ}
    (h : s ++ [0] <+: 0 :: List.replicate n 1) : s = [] := by
  cases s with
  | nil => rfl
  | cons c rest =>
    have htail : rest ++ [0] <+: List.replicate n 1 := (List.cons_prefix_cons.mp h).2
    have hzero : (0 : UInt8) ∈ List.replicate n 1 :=
      htail.subset (List.mem_append_right rest (List.mem_singleton_self 0))
    exact absurd (List.eq_of_mem_replicate hzero) (by decide)

/-- The fallback agrees with the descriptor if and only if there is nothing to copy: the
descriptor has no units, or the buffer has room for the terminator only. -/
theorem agrees_iff (hbuflen : 1 ≤ buflen)
    (hsimple : source.usbGetStringSimple buflen = .error e)
    (hcontrol : source.usbControlMsg = .ok bytes) (htype : bytes[1]? = some USB_DT_STRING) :
    Agrees source bytes buflen ↔
      min bytes.length (bytes.getD 0 0).toNat ≤ 2 ∨ buflen = 1 := by
  have hfallback := usbGetStringAscii_fallback hbuflen hsimple hcontrol htype
  have hnothing : (spelled bytes).take (buflen - 1) = [] ↔
      min bytes.length (bytes.getD 0 0).toNat ≤ 2 ∨ buflen = 1 := by
    rw [List.take_eq_nil_iff, spelled_eq_nil_iff]
    omega
  constructor
  · intro hagrees
    obtain ⟨⟨ret, out, hret, hprefix⟩, -⟩ := hagrees (.replicate buflen 1)
    obtain ⟨ret', hret'⟩ := hfallback (.replicate buflen 1)
    rw [hret'] at hret
    obtain ⟨-, rfl⟩ := Prod.mk.inj (Except.ok.inj hret)
    rw [toList_set_zero hbuflen, Vector.toList_replicate, List.tail_replicate] at hprefix
    exact hnothing.mp (eq_nil_of_terminated hprefix)
  · intro hempty buf
    obtain ⟨ret, hret⟩ := hfallback buf
    refine ⟨⟨ret, _, hret, ?_⟩, ?_⟩
    · rw [hnothing.mpr hempty, toList_set_zero hbuflen]
      exact ⟨buf.toList.tail, rfl⟩
    · intro hroom
      rw [reportsProduct_fallback hbuflen hsimple hcontrol htype]
      rcases hempty with hshort | rfl
      · rw [(spelled_eq_nil_iff bytes).mpr hshort]
        decide
      · exact absurd hroom (by decide)

end

/-- A descriptor that spells the name of the product, behind a request that fails. -/
def named : List UInt8 := [20, USB_DT_STRING] ++ DEV_USB_PROD.flatMap fun c => [c, 0]

/-- The answers of a device with this descriptor. -/
def namedSource : StringSource := ⟨fun _ => .error 0, .ok named⟩

theorem agrees_iff_header :
    Agrees ⟨fun _ => .error 0, .ok [2, USB_DT_STRING]⟩ [2, USB_DT_STRING] 255 :=
  (agrees_iff (e := 0) (by decide) rfl rfl rfl).mpr (.inl (by decide))

/-- The name of the product is not found. -/
theorem not_agrees :
    spelled named = DEV_USB_PROD ∧
      (∀ iProductBuffer : Vector UInt8 255, reportsProduct namedSource iProductBuffer = false) ∧
      ¬ Agrees namedSource named 255 := by
  have hname : spelled named = DEV_USB_PROD := by decide
  have hreports : ∀ buf : Vector UInt8 255, reportsProduct namedSource buf = false :=
    reportsProduct_fallback (e := 0) (by decide) rfl rfl rfl
  refine ⟨hname, hreports, fun hagrees => ?_⟩
  have hiff := (hagrees (.replicate 255 0)).2 (by decide)
  rw [hreports] at hiff
  exact absurd (hiff.mpr hname) (by decide)

end UsbString

end RfidTool

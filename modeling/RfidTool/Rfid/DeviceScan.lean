import Mathlib.Data.Nat.Find
import RfidTool.Library.Loop
import RfidTool.Rfid.UsbString

/-!
# The search for the device

The constructor of `InterfaceUsbImpl` goes through the devices of every bus until one of
them has the ids of the tool, can be opened and reports its name. Where `usb_open` fails it
goes on with the same device, so one that can never be opened keeps it there for good. It
finds the right handle if and only if every such device comes behind the wanted one.

## Main definitions

* `DeviceScan.scanDevice`, `DeviceScan.scanBuses`: the two loops.
* `UsbDevice.IsWanted`, `UsbDevice.IsStuck`: the devices that end the search, or its progress.
* `DeviceScan.Finds`: what the search is for.
-/

namespace RfidTool

/-- A device in the list of a bus, with what libusb does when it is asked. -/
structure UsbDevice (Handle : Type*) where
  idVendor : UInt16
  idProduct : UInt16
  iProduct : UInt8
  /-- The results of `usb_open`, one for each time it is called. -/
  usbOpen : ℕ → Option Handle
  strings : StringSource
  /-- What the buffer for the name holds before it is filled. -/
  iProductBuffer : Vector UInt8 255

namespace UsbDevice

def DEV_USB_VID : UInt16 := 0x16c0
def DEV_USB_PID : UInt16 := 0x05dc

variable {Handle : Type*}

/-- The ids of the tool. -/
def HasIds (dev : UsbDevice Handle) : Prop :=
  dev.idVendor = DEV_USB_VID ∧ dev.idProduct = DEV_USB_PID

instance (dev : UsbDevice Handle) : Decidable dev.HasIds := inferInstanceAs (Decidable (_ ∧ _))

/-- The device has a product string, and it is the one of the tool. -/
def reports (dev : UsbDevice Handle) : Bool :=
  decide (dev.iProduct > 0) && UsbString.reportsProduct dev.strings dev.iProductBuffer

/-- The handle of the first call of `usb_open` that succeeds. -/
def OpensWith (dev : UsbDevice Handle) (handle : Handle) : Prop :=
  ∃ n, dev.usbOpen n = some handle ∧ ∀ m < n, dev.usbOpen m = none

/-- Some call of `usb_open` succeeds. -/
def CanOpen (dev : UsbDevice Handle) : Prop := ∃ handle, dev.OpensWith handle

def IsWanted (dev : UsbDevice Handle) : Prop := dev.HasIds ∧ dev.CanOpen ∧ dev.reports = true

/-- The device has the ids of the tool and can never be opened. -/
def IsStuck (dev : UsbDevice Handle) : Prop := dev.HasIds ∧ ¬ dev.CanOpen

theorem canOpen_of_usbOpen {dev : UsbDevice Handle} {n : ℕ} (h : dev.usbOpen n ≠ none) :
    dev.CanOpen := by
  classical
  have hexists : ∃ n, dev.usbOpen n ≠ none := ⟨n, h⟩
  obtain ⟨handle, hhandle⟩ := Option.ne_none_iff_exists'.mp (Nat.find_spec hexists)
  refine ⟨handle, Nat.find hexists, hhandle, fun m hm => ?_⟩
  exact not_not.mp (Nat.find_min hexists hm)

theorem IsStuck.usbOpen_eq_none {dev : UsbDevice Handle} (h : dev.IsStuck) (n : ℕ) :
    dev.usbOpen n = none := by
  by_contra hne
  exact h.2 (canOpen_of_usbOpen hne)

end UsbDevice

namespace DeviceScan

variable {Handle : Type*}

/-- A round of the inner loop: the devices that are left, and how often the first of them
has been opened. It ends with the new value of `handle`. -/
def scanDevice : List (UsbDevice Handle) × ℕ → (List (UsbDevice Handle) × ℕ) ⊕ Option Handle
  | ([], _) => .inr none
  | (dev :: next, attempts) =>
    if dev.HasIds then
      match dev.usbOpen attempts with
      | none => .inl (dev :: next, attempts + 1)
      | some tmpHandle => if dev.reports then .inr (some tmpHandle) else .inl (next, 0)
    else .inl (next, 0)

/-- The search, if the inner loop ends within `fuel` rounds on every bus that it comes to. -/
def scanBuses (fuel : ℕ) : List (List (UsbDevice Handle)) → Option (Option Handle)
  | [] => some none
  | devices :: next => do
    let handle ← Loop.run scanDevice fuel (devices, 0)
    match handle with
    | some handle => some (some handle)
    | none => scanBuses fuel next

/-- The search ends with this handle. -/
def Scans (buses : List (List (UsbDevice Handle))) (handle : Option Handle) : Prop :=
  ∃ fuel, scanBuses fuel buses = some handle

/-- The search ends with the handle of the first wanted device, or with none if there is no
such device. -/
def Finds (buses : List (List (UsbDevice Handle))) : Prop :=
  ∃ handle, Scans buses handle ∧
    ((∃ before dev after, buses.flatten = before ++ dev :: after ∧ (∀ d ∈ before, ¬ d.IsWanted) ∧
        dev.IsWanted ∧ ∃ h, dev.OpensWith h ∧ handle = some h) ∨
      (∀ d ∈ buses.flatten, ¬ d.IsWanted) ∧ handle = none)

/-- A device with the ids of the tool that can never be opened comes behind a wanted one. -/
def Passable (devices : List (UsbDevice Handle)) : Prop :=
  ∀ before dev after, devices = before ++ dev :: after → dev.IsStuck → ∃ d ∈ before, d.IsWanted

/-! ## The devices of one bus -/

/-- The device neither ends the search nor stops it. -/
def IsSkipped (dev : UsbDevice Handle) : Prop := ¬ dev.IsWanted ∧ ¬ dev.IsStuck

/-- Failed attempts at the front of a device change nothing but the time. -/
theorem retry {P : List (UsbDevice Handle) × ℕ → Prop}
    (hP : ∀ s t, scanDevice s = .inl t → P t → P s) {dev : UsbDevice Handle}
    (hids : dev.HasIds) (next : List (UsbDevice Handle)) {n : ℕ}
    (hfail : ∀ m < n, dev.usbOpen m = none) (h : P (dev :: next, n)) : P (dev :: next, 0) := by
  induction n with
  | zero => exact h
  | succ n ih =>
    refine ih (fun m hm => hfail m (by omega)) (hP _ _ ?_ h)
    rw [scanDevice, if_pos hids, hfail n (by omega)]

/-- The search gets past a device that it skips. -/
theorem skip {P : List (UsbDevice Handle) × ℕ → Prop}
    (hP : ∀ s t, scanDevice s = .inl t → P t → P s) {dev : UsbDevice Handle}
    (hdev : IsSkipped dev) {next : List (UsbDevice Handle)} (h : P (next, 0)) :
    P (dev :: next, 0) := by
  by_cases hids : dev.HasIds
  · have hopen : dev.CanOpen := by
      by_contra hclosed
      exact hdev.2 ⟨hids, hclosed⟩
    have hother : dev.reports = false :=
      Bool.eq_false_iff.mpr fun hreports => hdev.1 ⟨hids, hopen, hreports⟩
    obtain ⟨handle, n, hn, hfail⟩ := hopen
    refine retry hP hids next hfail (hP _ _ ?_ h)
    rw [scanDevice, if_pos hids, hn]
    simp only [hother, Bool.false_eq_true, if_false]
  · refine hP _ _ ?_ h
    rw [scanDevice, if_neg hids]

theorem skip_all {P : List (UsbDevice Handle) × ℕ → Prop}
    (hP : ∀ s t, scanDevice s = .inl t → P t → P s) {before next : List (UsbDevice Handle)}
    (hbefore : ∀ d ∈ before, IsSkipped d) (h : P (next, 0)) : P (before ++ next, 0) := by
  induction before with
  | nil => exact h
  | cons d before ih =>
    rw [List.forall_mem_cons] at hbefore
    exact skip hP hbefore.1 (ih hbefore.2)

/-- The search stays at a device that can never be opened. -/
theorem diverges_of_isStuck {dev : UsbDevice Handle} (hdev : dev.IsStuck)
    (next : List (UsbDevice Handle)) (n : ℕ) : Loop.Diverges scanDevice (dev :: next, n) := by
  refine Loop.diverges_of_invariant (fun s => s.1 = dev :: next) ?_ rfl
  rintro ⟨devices, attempts⟩ rfl
  refine ⟨(dev :: next, attempts + 1), ?_, rfl⟩
  rw [scanDevice, if_pos hdev.1, hdev.usbOpen_eq_none]

/-- The search ends at a wanted device. -/
theorem returns_of_isWanted {dev : UsbDevice Handle} (hdev : dev.IsWanted)
    (next : List (UsbDevice Handle)) {handle : Handle} (hopens : dev.OpensWith handle) :
    Loop.Returns scanDevice (dev :: next, 0) (some handle) := by
  obtain ⟨n, hn, hfail⟩ := hopens
  refine retry (P := fun s => Loop.Returns scanDevice s (some handle))
    (fun _ _ h => .of_inl h) hdev.1 next hfail (Loop.returns_of_inr ?_)
  rw [scanDevice, if_pos hdev.1, hn]
  simp only [hdev.2.2, if_true]

/-- The inner loop ends without a handle when it skips all devices. -/
theorem returns_none {devices : List (UsbDevice Handle)} (h : ∀ d ∈ devices, IsSkipped d) :
    Loop.Returns scanDevice (devices, 0) none := by
  have hend : Loop.Returns scanDevice (([] : List (UsbDevice Handle)), 0) none :=
    Loop.returns_of_inr rfl
  have hall := skip_all (P := fun s => Loop.Returns scanDevice s none)
    (fun _ _ h => .of_inl h) h hend
  rwa [List.append_nil] at hall

theorem returns_some {before after : List (UsbDevice Handle)} {dev : UsbDevice Handle}
    (hbefore : ∀ d ∈ before, IsSkipped d) (hdev : dev.IsWanted) {handle : Handle}
    (hopens : dev.OpensWith handle) :
    Loop.Returns scanDevice (before ++ dev :: after, 0) (some handle) :=
  skip_all (P := fun s => Loop.Returns scanDevice s (some handle)) (fun _ _ h => .of_inl h)
    hbefore (returns_of_isWanted hdev after hopens)

theorem diverges {before after : List (UsbDevice Handle)} {dev : UsbDevice Handle}
    (hbefore : ∀ d ∈ before, IsSkipped d) (hdev : dev.IsStuck) :
    Loop.Diverges scanDevice (before ++ dev :: after, 0) :=
  skip_all (P := Loop.Diverges scanDevice) (fun _ _ h => .of_inl h) hbefore
    (diverges_of_isStuck hdev after 0)

/-! ## The buses -/

theorem scanBuses_mono {m n : ℕ} (hle : m ≤ n) {buses : List (List (UsbDevice Handle))}
    {handle : Option Handle} (h : scanBuses m buses = some handle) :
    scanBuses n buses = some handle := by
  induction buses with
  | nil => exact h
  | cons devices next ih =>
    obtain ⟨first, hfirst, hrest⟩ := Option.bind_eq_some_iff.mp h
    refine Option.bind_eq_some_iff.mpr ⟨first, Loop.run_mono hle hfirst, ?_⟩
    cases first with
    | some handle => exact hrest
    | none => exact ih hrest

theorem scans_cons_some {devices : List (UsbDevice Handle)} {handle : Handle}
    (h : Loop.Returns scanDevice (devices, 0) (some handle))
    (next : List (List (UsbDevice Handle))) : Scans (devices :: next) (some handle) := by
  obtain ⟨fuel, hfuel⟩ := h
  exact ⟨fuel, Option.bind_eq_some_iff.mpr ⟨some handle, hfuel, rfl⟩⟩

/-- A bus without a wanted device is left behind. -/
theorem scans_cons_none {devices : List (UsbDevice Handle)}
    (h : Loop.Returns scanDevice (devices, 0) none) (next : List (List (UsbDevice Handle)))
    (handle : Option Handle) : Scans (devices :: next) handle ↔ Scans next handle := by
  constructor
  · rintro ⟨fuel, hfuel⟩
    obtain ⟨first, hfirst, hrest⟩ := Option.bind_eq_some_iff.mp hfuel
    obtain rfl := h.unique ⟨fuel, hfirst⟩
    exact ⟨fuel, hrest⟩
  · rintro ⟨n, hn⟩
    obtain ⟨m, hm⟩ := h
    have hm' := Loop.run_mono (Nat.le_max_left m n) hm
    have hn' := scanBuses_mono (Nat.le_max_right m n) hn
    exact ⟨max m n, Option.bind_eq_some_iff.mpr ⟨none, hm', hn'⟩⟩

theorem not_scans_cons {devices : List (UsbDevice Handle)}
    (h : Loop.Diverges scanDevice (devices, 0)) (next : List (List (UsbDevice Handle)))
    (handle : Option Handle) : ¬ Scans (devices :: next) handle := by
  rintro ⟨fuel, hfuel⟩
  obtain ⟨first, hfirst, -⟩ := Option.bind_eq_some_iff.mp hfuel
  exact h.not_returns first ⟨fuel, hfirst⟩

/-- An element of two lists in a row is in the first one or behind it. -/
theorem eq_append_cons_or {α : Type*} {xs ys before after : List α} {x : α}
    (h : xs ++ ys = before ++ x :: after) :
    (∃ mid, xs = before ++ x :: mid) ∨ ∃ rest, before = xs ++ rest ∧ ys = rest ++ x :: after := by
  rcases List.append_eq_append_iff.mp h with ⟨rest, hbefore, hys⟩ | ⟨mid, hxs, hafter⟩
  · exact .inr ⟨rest, hbefore, hys⟩
  · cases mid with
    | nil => exact .inr ⟨[], by simpa using hxs.symm, by simpa using hafter.symm⟩
    | cons y mid =>
      obtain ⟨rfl, -⟩ := List.cons.inj hafter
      exact .inl ⟨mid, hxs⟩

theorem scans_none {buses : List (List (UsbDevice Handle))}
    (h : ∀ d ∈ buses.flatten, IsSkipped d) : Scans buses none := by
  induction buses with
  | nil => exact ⟨0, rfl⟩
  | cons devices next ih =>
    simp only [List.flatten_cons, List.forall_mem_append] at h
    rw [scans_cons_none (returns_none h.1)]
    exact ih h.2

theorem scans_some {buses : List (List (UsbDevice Handle))}
    {before after : List (UsbDevice Handle)} {dev : UsbDevice Handle}
    (hbuses : buses.flatten = before ++ dev :: after) (hbefore : ∀ d ∈ before, IsSkipped d)
    (hdev : dev.IsWanted) {handle : Handle} (hopens : dev.OpensWith handle) :
    Scans buses (some handle) := by
  induction buses generalizing before with
  | nil => simp at hbuses
  | cons devices next ih =>
    rcases eq_append_cons_or hbuses with ⟨mid, rfl⟩ | ⟨rest, rfl, hnext⟩
    · exact scans_cons_some (returns_some hbefore hdev hopens) next
    · rw [List.forall_mem_append] at hbefore
      rw [scans_cons_none (returns_none hbefore.1)]
      exact ih hnext hbefore.2

theorem not_scans {buses : List (List (UsbDevice Handle))}
    {before after : List (UsbDevice Handle)} {dev : UsbDevice Handle}
    (hbuses : buses.flatten = before ++ dev :: after) (hbefore : ∀ d ∈ before, IsSkipped d)
    (hdev : dev.IsStuck) (handle : Option Handle) : ¬ Scans buses handle := by
  induction buses generalizing before with
  | nil => simp at hbuses
  | cons devices next ih =>
    rcases eq_append_cons_or hbuses with ⟨mid, rfl⟩ | ⟨rest, rfl, hnext⟩
    · exact not_scans_cons (diverges hbefore hdev) next handle
    · rw [List.forall_mem_append] at hbefore
      rw [scans_cons_none (returns_none hbefore.1)]
      exact ih hnext hbefore.2

/-- Either all devices are skipped, or there is a first one that is not. -/
theorem skipped_or_first (devices : List (UsbDevice Handle)) :
    (∀ d ∈ devices, IsSkipped d) ∨ ∃ before dev after, devices = before ++ dev :: after ∧
      (∀ d ∈ before, IsSkipped d) ∧ (dev.IsWanted ∨ dev.IsStuck) := by
  induction devices with
  | nil => exact .inl (List.forall_mem_nil _)
  | cons dev devices ih =>
    by_cases hdev : dev.IsWanted ∨ dev.IsStuck
    · exact .inr ⟨[], dev, devices, rfl, List.forall_mem_nil _, hdev⟩
    · have hskipped : IsSkipped dev := not_or.mp hdev
      rcases ih with hall | ⟨before, first, after, rfl, hbefore, hfirst⟩
      · exact .inl (List.forall_mem_cons.mpr ⟨hskipped, hall⟩)
      · refine .inr ⟨dev :: before, first, after, rfl, ?_, hfirst⟩
        exact List.forall_mem_cons.mpr ⟨hskipped, hbefore⟩

theorem passable_of_skipped {devices : List (UsbDevice Handle)}
    (h : ∀ d ∈ devices, IsSkipped d) : Passable devices := by
  rintro before dev after rfl hstuck
  exact absurd hstuck (h dev (List.mem_append_right _ List.mem_cons_self)).2

theorem passable_of_isWanted {before after : List (UsbDevice Handle)} {dev : UsbDevice Handle}
    (hbefore : ∀ d ∈ before, IsSkipped d) (hdev : dev.IsWanted) :
    Passable (before ++ dev :: after) := by
  intro front late rest hsplit hlate
  rcases eq_append_cons_or hsplit with ⟨mid, rfl⟩ | ⟨gap, rfl, hrest⟩
  · exact absurd hlate (hbefore late (List.mem_append_right _ List.mem_cons_self)).2
  · cases gap with
    | nil =>
      obtain ⟨rfl, -⟩ := List.cons.inj hrest
      exact absurd hdev.2.1 hlate.2
    | cons first gap =>
      obtain ⟨rfl, -⟩ := List.cons.inj hrest
      exact ⟨dev, List.mem_append_right _ List.mem_cons_self, hdev⟩

/-- The search ends with the right handle if and only if every device with the ids of the
tool that can never be opened comes behind a wanted one. -/
theorem finds_iff (buses : List (List (UsbDevice Handle))) :
    Finds buses ↔ Passable buses.flatten := by
  rcases skipped_or_first buses.flatten with hall | ⟨before, dev, after, hbuses, hbefore, hdev⟩
  · have hfinds : Finds buses := ⟨none, scans_none hall, .inr ⟨fun d hd => (hall d hd).1, rfl⟩⟩
    exact iff_of_true hfinds (passable_of_skipped hall)
  rcases hdev with hwanted | hstuck
  · obtain ⟨handle, hopens⟩ := hwanted.2.1
    refine iff_of_true ⟨some handle, scans_some hbuses hbefore hwanted hopens, .inl ?_⟩ ?_
    · exact ⟨before, dev, after, hbuses, fun d hd => (hbefore d hd).1, hwanted, handle, hopens, rfl⟩
    · rw [hbuses]
      exact passable_of_isWanted hbefore hwanted
  · refine iff_of_false ?_ ?_
    · rintro ⟨handle, hscans, -⟩
      exact not_scans hbuses hbefore hstuck handle hscans
    · intro hpassable
      obtain ⟨d, hd, hwanted⟩ := hpassable before dev after hbuses hstuck
      exact (hbefore d hd).1 hwanted

/-- A device with the ids of the tool that is in use by another program. -/
def busy : UsbDevice Unit where
  idVendor := UsbDevice.DEV_USB_VID
  idProduct := UsbDevice.DEV_USB_PID
  iProduct := 1
  usbOpen := fun _ => none
  strings := ⟨fun _ => .error 0, .error 0⟩
  iProductBuffer := .replicate 255 0

/-- The tool. -/
def tool : UsbDevice Unit where
  idVendor := UsbDevice.DEV_USB_VID
  idProduct := UsbDevice.DEV_USB_PID
  iProduct := 1
  usbOpen := fun _ => some ()
  strings := ⟨fun _ => .ok (9, .ofFn fun i => UsbString.DEV_USB_PROD.getD i 0), .error 0⟩
  iProductBuffer := .replicate 255 0

/-- The tool is not found behind a device that is in use. -/
theorem not_finds :
    tool.IsWanted ∧ (∀ fuel, scanBuses fuel [[busy, tool]] = none) ∧ ¬ Finds [[busy, tool]] := by
  have hids : busy.HasIds ∧ tool.HasIds := by decide
  have hbusy : busy.IsStuck := by
    refine ⟨hids.1, ?_⟩
    rintro ⟨handle, n, hn, -⟩
    cases hn
  have hbuses : [[busy, tool]].flatten = [] ++ busy :: [tool] := rfl
  have hscans : ∀ handle, ¬ Scans [[busy, tool]] handle :=
    not_scans hbuses (List.forall_mem_nil _) hbusy
  refine ⟨⟨hids.2, ⟨(), 0, rfl, fun m hm => absurd hm (Nat.not_lt_zero m)⟩, ?_⟩, ?_, ?_⟩
  · decide +kernel
  · intro fuel
    rw [Option.eq_none_iff_forall_ne_some]
    intro handle hhandle
    exact hscans handle ⟨fuel, hhandle⟩
  · rintro ⟨handle, hhandle, -⟩
    exact hscans handle hhandle

end DeviceScan

end RfidTool

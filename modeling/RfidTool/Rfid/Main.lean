import RfidTool.Rfid.ExecutionOptions
import RfidTool.Rfid.TokenReader
import RfidTool.Rfid.UsbGetSamples
import RfidTool.Rfid.UsbPutSamples

/-!
# The tool

`main` over the device: the options, the interface and one of the three things that the tool is
for. Whatever comes between the packets of its transfers, a tool that returns 0 has done the
first that it was asked for: behind `--reset` the firmware goes to its bootloader, `--read`
reports what the decoders make of the readings, and `--program` has had the coil driven by the
commands that write the configuration and the token. Otherwise it returns -1 with the message of
an exception.
-/

namespace RfidTool

/-- What the tool prints. -/
inductive Line where
  | usage (errorMessage : Option String)
  | token (report : Report)
  | error (message : String)
  deriving DecidableEq, Repr

/-- The exit code, and what was printed. -/
structure Exit where
  ret : ℤ
  lines : List Line
  deriving DecidableEq, Repr

/-- What the memory holds where the tool does not initialise it. -/
structure ToolMemory where
  decoders : Coding → Em4100Decoder
  eprom : Vector UInt32 2

/-- Memory that holds zeros. -/
def ToolMemory.blank : ToolMemory := ⟨fun _ => Em4100Decoder.blank, #v[0, 0]⟩

namespace Tool

open Interaction UsbInterface UsbDriver

/-- The `try` block of `main` behind the constructor. -/
def useInterface (memory : ToolMemory) (options : ExecutionOptions) (iface : UsbInterface) :
    UsbProgram Exit := do
  let _ ← iface.getVersion
  if options.resetIface then
    iface.reset
    return ⟨0, []⟩
  else if !options.read && !options.write then return ⟨0, [.usage none]⟩
  else if options.read then
    let samples ← iface.getSamples
    return ⟨0, (TokenReader.machine.output (.fresh memory.decoders) samples).map .token⟩
  else
    iface.putSamples options.configurationSamples
    let em4100Eprom := options.em4100Words memory.eprom
    iface.putSamples (ExecutionOptions.blockSamples 1 em4100Eprom.1)
    iface.putSamples (ExecutionOptions.blockSamples 2 em4100Eprom.2)
    return ⟨0, []⟩

/-- `main`, for the results of `getopt_long`. -/
def main (memory : ToolMemory) (found : Bool) (args : List (Char × String)) :
    Interaction UsbCall UsbAnswer Empty Exit :=
  let options := ExecutionOptions.parse args
  if options.showHelp then return ⟨-1, [.usage none]⟩
  else
    match options.writeError with
    | some errorMessage => return ⟨-1, [.usage (some errorMessage)]⟩
    | none =>
      (do useInterface memory options (← connect found)).catchError fun error =>
        return ⟨-1, [.error error.message]⟩

/-! ## The commands of `--program` -/

open T5557Encoder InterfaceUsbImpl

/-- A frame of a short command fits the interface. -/
theorem fits_frame {bits : List Bool} (h : bits.length ≤ 70) : Fits (T5557Encoder.frame bits) := by
  constructor
  · rw [T5557Encoder.length_frame]
    omega
  · intro sample hsample
    have hmem := getLengthUs_mem_of_mem_frame hsample
    rw [periods]
    simp only [periodLengths, Finset.mem_insert, Finset.mem_singleton] at hmem
    rcases hmem with h | h | h | h <;> rw [h] <;> decide

/-- A frame has no more than four pulses. -/
theorem card_periods_frame_le (bits : List Bool) :
    ((T5557Encoder.frame bits).map periods).toFinset.card ≤ 4 := by
  have himage : ((T5557Encoder.frame bits).map periods).toFinset =
      ((T5557Encoder.frame bits).map Sample.getLengthUs).toFinset.image
        (Int.tdiv · CARRIER_US) := by
    ext n
    simp [periods]
  rw [himage]
  exact Finset.card_image_le.trans (card_frame_le bits)

/-- The bits of a command that writes a block of page 0, without lock and password. -/
def writeCommand (block : UInt8) (data : List Bool) : List Bool :=
  [true, false, false] ++ data ++ msbFirst block.toUInt32 3

theorem blockSamples_eq (block : UInt8) (word : UInt32) :
    ExecutionOptions.blockSamples block word =
      T5557Encoder.frame (writeCommand block (lsbFirst word 32)) := by
  rw [ExecutionOptions.blockSamples, encodeBlock_eq]
  rfl

theorem configurationSamples_eq (options : ExecutionOptions) :
    options.configurationSamples =
      T5557Encoder.frame (writeCommand 0 (configurationBits options.parameters)) := by
  rw [← lsbFirst_fields options.parameters #v[0]]
  exact blockSamples_eq 0 _

/-- The tool returns -1 with the message of an exception: a call of the USB library has failed,
or a transfer was not over when its status was asked for. -/
def Failed (exit : Exit) : Prop :=
  ∃ error : InterfaceError, exit = ⟨-1, [.error error.message]⟩ ∧
    (error = .invalidState ∨ ∃ n < 0, error = .invalidResponse n)

/-- The condition on the end of `main`. -/
abbrev Ending : Type := Exit → List (UsbDriver × UsbEvent) → UsbDriver → Prop

/-- `main` always returns. -/
def Returns (wanted : Ending) :
    Except Empty Exit → List (UsbDriver × UsbEvent) → UsbDriver → Prop
  | .ok exit, tr, d => wanted exit tr d

section

variable {memory : ToolMemory} {args : List (Char × String)} {d : UsbDriver}

/-- What is left to show of `main` is what the `try` block does behind the constructor. -/
theorem returns_of_useInterface {wanted : Ending} (hd : d.Sound)
    (hhelp : (ExecutionOptions.parse args).showHelp = false)
    (herror : (ExecutionOptions.parse args).writeError = none)
    (hfailed : ∀ exit tr d', Failed exit → wanted exit tr d')
    (h : ∀ tr d', d'.Sound → (events tr).foldlM Firmware.step d.firmware = .ok d'.firmware →
      (∀ e ∈ events tr, e.isStart = false) →
      wp UsbLibrary (useInterface memory (ExecutionOptions.parse args) firmwareInterface)
        (fun result tr' d'' => match result with
          | .ok exit => wanted exit (tr ++ tr') d''
          | .error error => error = .invalidState ∨ ∃ n < 0, error = .invalidResponse n) d') :
    wp UsbLibrary (main memory true args) (Returns wanted) d := by
  unfold main
  dsimp only
  rw [if_neg (by simp [hhelp]), herror]
  dsimp only
  rw [wp_catchError, wp_bind]
  refine wp_mono (wp_run (connects_of_sound hd)) fun result tr d' hconnect => ?_
  obtain ⟨hconnects, hrun⟩ := hconnect
  cases result with
  | error error =>
    obtain ⟨n, hneg, rfl⟩ := hconnects
    exact hfailed _ _ _ ⟨_, rfl, .inr ⟨n, hneg, rfl⟩⟩
  | ok device =>
    obtain ⟨rfl, hd', hquiet⟩ := hconnects
    have hfold := (foldlM_project hd hrun).1
    refine wp_mono (h tr d' hd' hfold fun e he => (hquiet e he).1) fun result tr' d'' hend => ?_
    cases result with
    | ok exit => exact hend
    | error error => exact hfailed _ _ _ ⟨error, rfl, hend⟩

/-- An execution of `main` from one of the `try` block behind the constructor. -/
theorem exists_main (h : d.Listening) (hhelp : (ExecutionOptions.parse args).showHelp = false)
    (herror : (ExecutionOptions.parse args).writeError = none)
    (huse : ∀ d', d'.Listening → d'.firmware.control = d.firmware.control →
      d'.firmware.command = d.firmware.command → ∃ exit tr d'', Exec UsbLibrary
        (useInterface memory (ExecutionOptions.parse args) firmwareInterface) d' (.ok exit) tr d'' ∧
        exit.ret = 0) :
    ∃ exit tr d', Exec UsbLibrary (main memory true args) d (.ok exit) tr d' ∧ exit.ret = 0 := by
  obtain ⟨tr, d', hconnect, h', hcontrol, hcommand⟩ := exists_connect h
  obtain ⟨exit, tr', d'', hexec, hret⟩ := huse d' h' hcontrol hcommand
  refine ⟨exit, tr ++ tr', d'', ?_, hret⟩
  unfold main
  dsimp only
  rw [if_neg (by simp [hhelp]), herror]
  exact (hconnect.bind hexec).catchError

theorem length_writeCommand (block : UInt8) {data : List Bool} (h : data.length = 32) :
    (writeCommand block data).length ≤ 70 := by
  simp [writeCommand, h, length_msbFirst]

/-- A device that listens and rests takes a frame. -/
theorem exists_putFrame {bits : List Bool} (hbits : bits.length ≤ 70) (h : d.Listening)
    (hresting : d.firmware.Resting) :
    ∃ tr d', Exec UsbLibrary (firmwareInterface.putSamples (T5557Encoder.frame bits)) d (.ok ()) tr
      d' ∧ d'.Listening ∧ d'.firmware.Resting := by
  have hpulses : (InterfaceUsbImpl.pulses (T5557Encoder.frame bits)).length ≤ 7 := by
    have hfew := card_periods_frame_le bits
    rw [InterfaceUsbImpl.length_pulses]
    omega
  exact exists_putSamples (fits_frame hbits) hpulses h hresting

/-- It takes the three commands of `--program`. -/
theorem exists_putFrames {first second third : List Bool} (hfirst : first.length ≤ 70)
    (hsecond : second.length ≤ 70) (hthird : third.length ≤ 70) (h : d.Listening)
    (hresting : d.firmware.Resting) :
    ∃ tr d', Exec UsbLibrary (do
      firmwareInterface.putSamples (T5557Encoder.frame first)
      firmwareInterface.putSamples (T5557Encoder.frame second)
      firmwareInterface.putSamples (T5557Encoder.frame third)
      return (⟨0, []⟩ : Exit)) d (.ok ⟨0, []⟩) tr d' := by
  obtain ⟨tr₁, d₁, hput₁, h₁, hresting₁⟩ := exists_putFrame hfirst h hresting
  obtain ⟨tr₂, d₂, hput₂, h₂, hresting₂⟩ := exists_putFrame hsecond h₁ hresting₁
  obtain ⟨tr₃, d₃, hput₃, -⟩ := exists_putFrame hthird h₂ hresting₂
  exact ⟨tr₁ ++ (tr₂ ++ (tr₃ ++ [])), d₃, hput₁.bind (hput₂.bind (hput₃.bind (.ret _ _)))⟩

/-- A device that listens and rests lets `--program` return 0. -/
theorem exists_main_program (h : d.Listening) (hresting : d.firmware.Resting)
    (hhelp : (ExecutionOptions.parse args).showHelp = false)
    (hreset : (ExecutionOptions.parse args).resetIface = false)
    (hread : (ExecutionOptions.parse args).read = false)
    (hwrite : (ExecutionOptions.parse args).write = true)
    (herror : (ExecutionOptions.parse args).writeError = none) :
    ∃ exit tr d', Exec UsbLibrary (main memory true args) d (.ok exit) tr d' ∧ exit.ret = 0 := by
  refine exists_main h hhelp herror fun d₀ h₀ hcontrol _ => ?_
  have hresting₀ := hresting.of_control hcontrol
  generalize ExecutionOptions.parse args = options at *
  obtain ⟨tr, d', hexec⟩ := exists_putFrames
    (length_writeCommand 0 (length_configurationBits options.parameters))
    (length_writeCommand 1 (length_lsbFirst (options.em4100Words memory.eprom).1 32))
    (length_writeCommand 2 (length_lsbFirst (options.em4100Words memory.eprom).2 32)) h₀ hresting₀
  refine ⟨⟨0, []⟩, tr, d', ?_, rfl⟩
  unfold useInterface
  rw [if_neg (by simp [hreset]), if_neg (by simp [hwrite]), if_neg (by simp [hread])]
  simp only [configurationSamples_eq, blockSamples_eq]
  generalize writeCommand 0 _ = first at *
  generalize writeCommand 1 _ = second at *
  generalize writeCommand 2 _ = third at *
  exact hexec

end

section

variable {memory : ToolMemory} {args : List (Char × String)} {d : UsbDriver}

/-- A device that listens lets `--read` return 0. -/
theorem exists_main_read (h : d.Listening) (hcommand : d.firmware.command ≠ PROTO_CMD_RESET)
    (hhelp : (ExecutionOptions.parse args).showHelp = false)
    (hreset : (ExecutionOptions.parse args).resetIface = false)
    (hread : (ExecutionOptions.parse args).read = true)
    (herror : (ExecutionOptions.parse args).writeError = none) :
    ∃ exit tr d', Exec UsbLibrary (main memory true args) d (.ok exit) tr d' ∧ exit.ret = 0 := by
  refine exists_main h hhelp herror fun d₀ h₀ _ hsame => ?_
  obtain ⟨samples, tr, d', hexec⟩ := exists_getSamples h₀ (hsame ▸ hcommand)
  generalize ExecutionOptions.parse args = options at *
  refine ⟨⟨0, (TokenReader.machine.output (.fresh memory.decoders) samples).map .token⟩, tr ++ [],
    d', ?_, rfl⟩
  unfold useInterface
  rw [if_neg (by simp [hreset]), if_neg (by simp [hread]), if_pos hread]
  exact hexec.bind (.ret _ _)

/-- How `--reset` may end. -/
def Resets : Ending := fun exit _ d' =>
  Failed exit ∨ exit = ⟨0, []⟩ ∧ d'.Sound ∧ d'.firmware.Bootloads

theorem resets_of_sound (hd : d.Sound) :
    wp UsbLibrary firmwareInterface.reset (fun result _ d' =>
      match result with
      | .ok () => d'.Sound ∧ d'.firmware.Bootloads
      | .error error => ∃ n < 0, error = .invalidResponse n) d := by
  refine wp_doTransferTx rfl rfl (fun tr d' h => ?_) fun n _ _ hneg => ⟨n, hneg, rfl⟩
  have htype := (direction_txRequest PROTO_CMD_RESET 0 0 0).2
  obtain ⟨asked, hasked⟩ := h.asked hd htype
  obtain ⟨before, after, -, -, hafter, -, hfold⟩ := hasked.events
  refine ⟨hd.run h.run, Firmware.Bootloads.foldlM (Firmware.bootloads_of_command rfl) ?_ hfold⟩
  intro rq hrq
  have hnot := hafter _ hrq
  cases hnot

/-- Behind a tool that was asked for `--reset` and returns 0 the firmware is on its way to the
bootloader. -/
theorem wp_main_reset {tr : List (UsbDriver × UsbEvent)} (hrun : Run UsbDriver.step init tr d)
    (hhelp : (ExecutionOptions.parse args).showHelp = false)
    (hreset : (ExecutionOptions.parse args).resetIface = true)
    (herror : (ExecutionOptions.parse args).writeError = none) :
    wp UsbLibrary (main memory true args) (Returns Resets) d := by
  refine returns_of_useInterface (sound_of_run hrun) hhelp herror
    (fun _ _ _ hfailed => .inl hfailed) fun tr₀ d₀ hd₀ _ _ => ?_
  generalize ExecutionOptions.parse args = options at *
  unfold useInterface
  rw [wp_bind, show firmwareInterface.getVersion = .ret (.ok (some ⟨0, 1⟩)) from rfl, wp_ret]
  dsimp only
  rw [if_pos hreset, wp_bind]
  refine wp_mono (resets_of_sound hd₀) fun result tr₁ d₁ hresets => ?_
  match result, hresets with
  | .ok (), ⟨hd₁, hbootloads⟩ => exact .inr ⟨rfl, hd₁, hbootloads⟩
  | .error error, hfailed => exact .inr hfailed

/-- A device that listens lets `--reset` return 0. -/
theorem exists_main_reset (h : d.Listening)
    (hhelp : (ExecutionOptions.parse args).showHelp = false)
    (hreset : (ExecutionOptions.parse args).resetIface = true)
    (herror : (ExecutionOptions.parse args).writeError = none) :
    ∃ exit tr d', Exec UsbLibrary (main memory true args) d (.ok exit) tr d' ∧ exit.ret = 0 := by
  refine exists_main h hhelp herror fun d₀ h₀ _ _ => ?_
  have htype := (direction_txRequest PROTO_CMD_RESET 0 0 0).2
  obtain ⟨tr, d', hwrite⟩ := h₀.exists_writesControl_nil htype (rfl : _ = some _)
  have hexec : Exec UsbLibrary firmwareInterface.reset d₀ (.ok ()) tr d' :=
    exec_doTransferTx rfl rfl hwrite
  generalize ExecutionOptions.parse args = options at *
  refine ⟨⟨0, []⟩, tr ++ [], d', ?_, rfl⟩
  unfold useInterface
  rw [if_pos hreset]
  exact hexec.bind (.ret _ _)

/-- `--reset` for a firmware behind its start. -/
theorem wp_main_reset_init :
    ∃ exit tr d', Exec UsbLibrary (main .blank true [('R', "")]) init (.ok exit) tr d' ∧
      exit.ret = 0 ∧ Returns Resets (.ok exit) tr d' := by
  obtain ⟨exit, tr, d', hexec, hret⟩ := @exists_main_reset .blank [('R', "")] init listening_init
    (by decide) (by decide) (by decide)
  exact ⟨exit, tr, d', hexec, hret, wp_iff_exec.mp (wp_main_reset (.nil init) (by decide)
    (by decide) (by decide)) _ _ _ hexec⟩

/-! ## A host that goes on -/

/-- Whatever the tool is asked for, a firmware without a transfer and without a reset lets it
return 0. -/
theorem exists_main_ret_zero {tr : List (UsbDriver × UsbEvent)}
    (hrun : Run UsbDriver.step init tr d) (hrx : d.usbRxLen = 0)
    (haddress : d.usbNewDeviceAddr <<< 1 = d.usbDeviceAddr) (hidle : d.firmware.state = .idle)
    (hcommand : d.firmware.command ≠ PROTO_CMD_RESET)
    (hhelp : (ExecutionOptions.parse args).showHelp = false)
    (herror : (ExecutionOptions.parse args).writeError = none) :
    ∃ exit tr' d', Exec UsbLibrary (main memory true args) d (.ok exit) tr' d' ∧ exit.ret = 0 := by
  have h : d.Listening := ⟨sound_of_run hrun, hrx, haddress⟩
  cases hreset : (ExecutionOptions.parse args).resetIface with
  | true => exact exists_main_reset h hhelp hreset herror
  | false =>
    cases hread : (ExecutionOptions.parse args).read with
    | true => exact exists_main_read h hcommand hhelp hreset hread herror
    | false =>
      cases hwrite : (ExecutionOptions.parse args).write with
      | true =>
        exact exists_main_program h (resting_of_run hrun hidle) hhelp hreset hread hwrite herror
      | false =>
        refine exists_main h hhelp herror fun d₀ _ _ _ => ⟨⟨0, [.usage none]⟩, [], d₀, ?_, rfl⟩
        generalize ExecutionOptions.parse args = options at *
        unfold useInterface
        rw [if_neg (by simp [hreset]), if_pos (by simp [hread, hwrite])]
        exact .ret _ _

/-- A verbose `--read` for a firmware behind its start. -/
theorem exists_main_ret_zero_verbose :
    ∃ exit tr d', Exec UsbLibrary (main .blank true [('v', ""), ('r', "")]) init (.ok exit) tr d' ∧
      exit.ret = 0 :=
  exists_main_ret_zero (.nil init) rfl rfl rfl (by decide) (by decide) (by decide)

end

end Tool

end RfidTool

import RfidTool.Rfid.Em4100Eprom
import RfidTool.Rfid.T5557Parameters

/-!
# The options of the tool

The loop of `main` over the results of `getopt_long`, and what `--program` makes of the options:
a configuration and the two words of a token, as three commands for the tag. An argument that is
no known bitrate or modulation changes nothing. `-v` sets the level of the log, which is left
out.
-/

namespace RfidTool

/-! ## Numbers -/

namespace Strtol

/-- `isspace` -/
def isSpace (c : Char) : Bool := c = ' ' || (9 ≤ c.toNat && c.toNat ≤ 13)

/-- The value of a digit or a letter; 36 is none. -/
def digitValue (c : Char) : ℕ :=
  if '0' ≤ c ∧ c ≤ '9' then c.toNat - 48
  else if 'a' ≤ c ∧ c ≤ 'z' then c.toNat - 87
  else if 'A' ≤ c ∧ c ≤ 'Z' then c.toNat - 55
  else 36

/-- The number of the leading digits. -/
def number (base : ℕ) (text : List Char) : ℕ :=
  (text.takeWhile fun c => digitValue c < base).foldl (fun n c => base * n + digitValue c) 0

/-- A number with its prefix. -/
def prefixed : List Char → ℕ
  | '0' :: x :: digit :: rest =>
    if (x = 'x' ∨ x = 'X') ∧ digitValue digit < 16 then number 16 (digit :: rest)
    else number 8 ('0' :: x :: digit :: rest)
  | '0' :: rest => number 8 ('0' :: rest)
  | text => number 10 text

end Strtol

open Strtol in
/-- `strtol(optarg, nullptr, 0)` with a `long` of 64 bits. -/
def strtol (optarg : String) : ℤ :=
  match optarg.toList.dropWhile isSpace with
  | '-' :: text => max (-2 ^ 63) (-(prefixed text))
  | '+' :: text => min (2 ^ 63 - 1) (prefixed text)
  | text => min (2 ^ 63 - 1) (prefixed text)

/-! ## Options -/

inductive ModulationOption where
  | unknown | manchester | biphase
  deriving DecidableEq, Repr

inductive BitrateOption where
  | unknown | bitrate16 | bitrate32 | bitrate64
  deriving DecidableEq, Repr

structure ExecutionOptions where
  showHelp : Bool
  resetIface : Bool
  read : Bool
  write : Bool
  customerId : UInt8
  token : UInt32
  modulation : ModulationOption
  bitrate : BitrateOption
  deriving DecidableEq, Repr

namespace ExecutionOptions

/-- The constructor. -/
def default : ExecutionOptions where
  showHelp := false
  resetIface := false
  read := false
  write := false
  customerId := 0
  token := 0
  modulation := .unknown
  bitrate := .unknown

/-- The body of the loop, for an option with its argument. -/
def add (options : ExecutionOptions) : Char × String → ExecutionOptions
  | ('h', _) => { options with showHelp := true }
  | ('r', _) => { options with read := true }
  | ('p', _) => { options with write := true }
  | ('R', _) => { options with resetIface := true }
  | ('b', optarg) =>
    if optarg = "16" then { options with bitrate := .bitrate16 }
    else if optarg = "32" then { options with bitrate := .bitrate32 }
    else if optarg = "64" then { options with bitrate := .bitrate64 }
    else options
  | ('m', optarg) =>
    if optarg = "manchester" then { options with modulation := .manchester }
    else if optarg = "biphase" then { options with modulation := .biphase }
    else options
  | ('c', optarg) => { options with customerId := UInt8.ofInt (strtol optarg) }
  | ('t', optarg) => { options with token := UInt32.ofInt (strtol optarg) }
  | ('v', _) => options
  | _ => { options with showHelp := true }

def parse (args : List (Char × String)) : ExecutionOptions := args.foldl add default

/-- The message of the checks of `--program`. -/
def writeError (options : ExecutionOptions) : Option String :=
  if options.write then
    if options.modulation = .unknown then some "Unknown modulation!"
    else if options.bitrate = .unknown then some "Unknown bitrate"
    else none
  else none

end ExecutionOptions

/-! ## Programming -/

namespace T5557Encoder

/-- The constructor of `Parameters`. -/
def Parameters.default : Parameters where
  lock := false
  masterKey := 0
  dataRate := .rate16
  modulation := .manchester
  pskSubcarrier := .rf2
  answerOnRequest := true
  maxBlock := 0
  password := false
  sequenceTerminator := false
  powerOnResetDelay := false

end T5557Encoder

namespace ExecutionOptions

open T5557Encoder

def dataRate (options : ExecutionOptions) : Option DataRate :=
  match options.bitrate with
  | .bitrate16 => some .rate16
  | .bitrate32 => some .rate32
  | .bitrate64 => some .rate64
  | .unknown => none

def t5557Modulation (options : ExecutionOptions) : Option Modulation :=
  match options.modulation with
  | .manchester => some .manchester
  | .biphase => some .biphase
  | .unknown => none

/-- `params` -/
def parameters (options : ExecutionOptions) : Parameters where
  __ := Parameters.default
  dataRate := options.dataRate.getD Parameters.default.dataRate
  modulation := options.t5557Modulation.getD Parameters.default.modulation
  maxBlock := 2

/-- The configuration of the tag. -/
def configurationSamples (options : ExecutionOptions) : List Sample :=
  encodeParameters options.parameters false 0 []

/-- `em4100Eprom`, in memory that is not initialised. -/
def em4100Eprom (memory : Vector UInt32 2) (options : ExecutionOptions) : Vector UInt32 2 :=
  Em4100Eprom.generate memory options.customerId options.token

/-- `em4100Eprom[0]` and `em4100Eprom[1]` -/
def em4100Words (memory : Vector UInt32 2) (options : ExecutionOptions) : UInt32 × UInt32 :=
  ((options.em4100Eprom memory).get ⟨0, Nat.zero_lt_two⟩,
    (options.em4100Eprom memory).get ⟨1, Nat.one_lt_two⟩)

/-- A block of the tag. -/
def blockSamples (block : UInt8) (word : UInt32) : List Sample :=
  encodeBlock 0 block false false 0 word []

end ExecutionOptions

end RfidTool

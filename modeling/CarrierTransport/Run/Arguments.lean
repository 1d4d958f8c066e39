/-!
# Command lines

A command line names the device and may set three options, each at most once and each with a value:
`-l`, `-c`, `-o`, or in full `--log-level`, `--config`, `--output`. The value is the next argument,
unless that starts with a dash, or is attached: to the short name directly or with an equals sign,
to the full name with an equals sign. After `--` no argument is an option.

The line is read from left to right up to the first request for help or for the version, which is
granted, or the first argument that has no place, which is misuse. Whether the values are complete
is asked at the end of the line.
-/

namespace CarrierTransport.Run

/-! ### Options -/

inductive ValueOption where
  | logLevel
  | configuration
  | output
deriving DecidableEq, Repr

namespace ValueOption

def ofLetter? : Char → Option ValueOption
  | 'l' => some .logLevel
  | 'c' => some .configuration
  | 'o' => some .output
  | _ => none

def ofName? : String → Option ValueOption
  | "log-level" => some .logLevel
  | "config" => some .configuration
  | "output" => some .output
  | _ => none

end ValueOption

def logLevels : List String := ["trace", "info", "debug", "warn", "error"]

/-! ### Arguments -/

inductive Argument where
  /-- The separator in front of arguments that are no options. -/
  | separator
  /-- A request for help or for the version. -/
  | information
  /-- An option, with its value if that is attached. -/
  | option (name : ValueOption) (value : Option String)
  | unknown
  /-- Anything that does not look like an option. -/
  | plain (text : String)
deriving DecidableEq, Repr

namespace Argument

/-- An argument that starts with two dashes. -/
def ofFull (body : List Char) : Argument :=
  let written := String.ofList (body.takeWhile (· ≠ '='))
  let value := match body.dropWhile (· ≠ '=') with
    | '=' :: value => some (String.ofList value)
    | _ => none
  match ValueOption.ofName? written with
  | some name => .option name value
  | none =>
    if (written = "help" ∨ written = "version") ∧ value.isNone then .information else .unknown

/-- An argument that starts with one dash and a letter. -/
def ofShort (letter : Char) (rest : List Char) : Argument :=
  match ValueOption.ofLetter? letter with
  | some name =>
    .option name (match rest with
      | [] => none
      | '=' :: value => some (String.ofList value)
      | value => some (String.ofList value))
  | none => if letter = 'h' ∨ letter = 'V' then .information else .unknown

def ofText (text : String) : Argument :=
  match text.toList with
  | ['-', '-'] => .separator
  | '-' :: '-' :: body => ofFull body
  | '-' :: letter :: rest => ofShort letter rest
  | _ => .plain text

end Argument

/-! ### Command lines -/

/-- What has been read of a command line. -/
structure Given where
  device : Option String
  /-- The options in order, with their values as far as they have one. -/
  options : List (ValueOption × Option String)
  /-- The option that the next argument may be the value of. -/
  pending : Option ValueOption

structure Arguments where
  device : String
  logLevel : String
  configuration : String
  output : String
deriving DecidableEq, Repr

/-- What a command line asks for. -/
inductive Invocation where
  | simulate (arguments : Arguments)
  | information
  | misuse
deriving DecidableEq, Repr

namespace Given

def nothing : Given := ⟨none, [], none⟩

/-- A pending option noted without a value. -/
def settle (given : Given) : Given :=
  match given.pending with
  | none => given
  | some name => { given with options := given.options ++ [(name, none)], pending := none }

/-- An option noted with its value, or pending. -/
def addOption (given : Given) (name : ValueOption) : Option String → Given
  | none => { given.settle with pending := some name }
  | some value =>
    let given := given.settle
    { given with options := given.options ++ [(name, some value)] }

/-- The argument that names the device; there is only one. -/
def addDevice? (given : Given) (text : String) : Option Given :=
  if given.device.isNone then some { given with device := some text } else none

/-- The one value of an option, or its default; none if it is given twice or without a value. -/
def value? (given : Given) (name : ValueOption) (default : String) : Option String :=
  match given.options.filter fun entry => entry.1 = name with
  | [] => some default
  | [(_, value)] => value
  | _ => none

/-- The settings, if they are complete. -/
def finish (given : Given) : Invocation :=
  let given := given.settle
  let arguments : Option Arguments := do
    let device ← given.device
    let logLevel ← given.value? .logLevel "info"
    let configuration ← given.value? .configuration ".config"
    let output ← given.value? .output "results"
    if logLevels.contains logLevel then return { device, logLevel, configuration, output } else none
  match arguments with
  | some arguments => .simulate arguments
  | none => .misuse

/-- Reads arguments that are no options. -/
def readPlain (given : Given) : List String → Invocation
  | [] => given.finish
  | text :: rest =>
    match given.addDevice? text with
    | some given => given.readPlain rest
    | none => .misuse

/-- Reads arguments of any form. -/
def read (given : Given) : List String → Invocation
  | [] => given.finish
  | text :: rest =>
    match Argument.ofText text with
    | .separator => given.settle.readPlain rest
    | .information => .information
    | .option name value => (given.addOption name value).read rest
    | .unknown => .misuse
    | .plain text =>
      match given.pending with
      | some name =>
        let given := { given with pending := none }
        (given.addOption name (some text)).read rest
      | none =>
        match given.addDevice? text with
        | some given => given.read rest
        | none => .misuse

end Given

def usage : String :=
  "usage: <device> [-l <level>] [-c <directory of settings>] [-o <output directory>]"

/-- What a command line asks for. -/
def Invocation.ofArguments (arguments : List String) : Invocation :=
  Given.nothing.read arguments

end CarrierTransport.Run

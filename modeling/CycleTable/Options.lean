import CycleTable.Table.Format
import CycleTable.Text

/-!
# Options

What the program is asked to do, and the values that each option can be given.
-/

namespace CycleTable

structure Options where
  output : Option String := none
  format : Format := .c
  symbol : Option String := none
  descriptors : Option String := none
  entry : Option Nat := none
  check : Option String := none
  verbose : Bool := false
  deriving DecidableEq, Repr

/-- Why arguments are not carried out. -/
inductive UsageFault
  | invalidValue
  | invalidNumber
  | unknownArgument
  | repeatedOption
  | unneededValue
  | help
  | version
  deriving DecidableEq, Repr

inductive OptionKey
  | output
  | format
  | symbol
  | descriptors
  | entry
  | check
  | verbose
  | help
  | version
  deriving DecidableEq, Repr

namespace OptionKey

def all : List OptionKey :=
  [.output, .format, .symbol, .descriptors, .entry, .check, .verbose, .help, .version]

def long : OptionKey → String
  | .output => "output"
  | .format => "format"
  | .symbol => "symbol"
  | .descriptors => "descriptors"
  | .entry => "show"
  | .check => "check"
  | .verbose => "verbose"
  | .help => "help"
  | .version => "version"

def short? : OptionKey → Option Char
  | .output => some 'o'
  | .format => some 'f'
  | .symbol => none
  | .descriptors => some 'd'
  | .entry => some 's'
  | .check => some 'c'
  | .verbose => some 'v'
  | .help => some 'h'
  | .version => some 'V'

def takesValue : OptionKey → Bool
  | .verbose | .help | .version => false
  | _ => true

def ofLong? (name : String) : Option OptionKey :=
  all.find? fun key => key.long == name

def ofShort? (letter : Char) : Option OptionKey :=
  all.find? fun key => key.short? == some letter

end OptionKey

namespace Options

open Text

def path (value : String) : Except UsageFault String :=
  if value.isEmpty then .error .invalidValue else .ok value

/-- A number of sixteen bits, decimal or of base sixteen behind `0x`. A plus sign may stand
before its digits. -/
def number (value : String) : Except UsageFault Nat :=
  let (base, numeral) := match value.toList with
    | '0' :: 'x' :: rest | '0' :: 'X' :: rest => (16, rest)
    | rest => (10, rest)
  let digits := match numeral with
    | '+' :: rest => rest
    | rest => rest
  match (number? base digits).filter fun n => n < 0x10000 && !digits.isEmpty with
  | some n => .ok n
  | none => .error .invalidNumber

/-- Options after one more has been given, with its value if it takes one. -/
def give (options : Options) (key : OptionKey) (value : String) :
    Except UsageFault Options :=
  match key with
  | .output => do return { options with output := some (← path value) }
  | .format => match Format.ofKeyword? value with
    | some format => .ok { options with format }
    | none => .error .invalidValue
  | .symbol => .ok { options with symbol := some value }
  | .descriptors => do return { options with descriptors := some (← path value) }
  | .entry => do return { options with entry := some (← number value) }
  | .check => do return { options with check := some (← path value) }
  | .verbose => .ok { options with verbose := true }
  | .help => .error .help
  | .version => .error .version

end Options

/-!
## Arguments

The options that a list of arguments gives. A value that stands apart from its option is
judged only when the next option is met or the arguments end, so that an argument that is
unknown is reported before a value that is wrong.
-/

/-- An option that has been named, and its value if that has been met. -/
structure PendingOption where
  key : OptionKey
  value : Option String
  deriving DecidableEq, Repr

/-- Arguments read in part. -/
structure ArgumentState where
  options : Options := {}
  given : List OptionKey := []
  pending : Option PendingOption := none
  deriving DecidableEq, Repr

namespace ArgumentState

/-- A missing value is reported before a repeated option, and that before a wrong value. -/
def accept (state : ArgumentState) (key : OptionKey) (value : Option String) :
    Except UsageFault ArgumentState :=
  if key.takesValue && value.isNone then .error .invalidValue
  else if state.given.contains key then .error .repeatedOption
  else do
    let options ← state.options.give key (value.getD "")
    return ⟨options, key :: state.given, state.pending⟩

def settle (state : ArgumentState) : Except UsageFault ArgumentState :=
  match state.pending with
  | none => .ok state
  | some pending => accept { state with pending := none } pending.key pending.value

def complete (state : ArgumentState) (key : OptionKey) (value : Option String) :
    Except UsageFault ArgumentState := do
  let settled ← state.settle
  settled.accept key value

/-- An option whose value is the next argument. -/
def await (state : ArgumentState) (key : OptionKey) : Except UsageFault ArgumentState := do
  let settled ← state.settle
  return { settled with pending := some ⟨key, none⟩ }

/-- Letters behind a single hyphen: options without a value, then perhaps one with it. -/
def readLetters (state : ArgumentState) : List Char → Except UsageFault ArgumentState
  | [] => .ok state
  | letter :: rest => match OptionKey.ofShort? letter with
    | none => .error .unknownArgument
    | some key =>
        if key.takesValue then
          match rest with
          | [] => state.await key
          | '=' :: value => state.complete key (some (String.ofList value))
          | value => state.complete key (some (String.ofList value))
        else do
          let next ← state.complete key none
          next.readLetters rest

/-- A name behind two hyphens, and its value behind an equals sign. -/
def readName (state : ArgumentState) (text : List Char) :
    Except UsageFault ArgumentState :=
  let name := text.takeWhile fun c => c != '='
  let value := match text.dropWhile fun c => c != '=' with
    | [] => none
    | _ :: value => some (String.ofList value)
  match OptionKey.ofLong? (String.ofList name), value with
  | none, _ => .error .unknownArgument
  | some key, some value =>
      if key.takesValue then state.complete key (some value) else .error .unneededValue
  | some key, none =>
      if key.takesValue then state.await key else state.complete key none

/-- An argument that is no option is the value of one that awaits it. -/
def readPlain (state : ArgumentState) (argument : String) :
    Except UsageFault ArgumentState :=
  match state.pending with
  | some ⟨key, none⟩ => .ok { state with pending := some ⟨key, some argument⟩ }
  | _ => .error .unknownArgument

/-- Nothing may follow two hyphens that stand alone. -/
def readAll (state : ArgumentState) : List String → Except UsageFault ArgumentState
  | [] => state.settle
  | argument :: rest => match argument.toList with
    | ['-', '-'] => if rest.isEmpty then state.settle else .error .unknownArgument
    | '-' :: '-' :: text => do
        let next ← state.readName text
        next.readAll rest
    | '-' :: letter :: letters => do
        let next ← state.readLetters (letter :: letters)
        next.readAll rest
    | _ => do
        let next ← state.readPlain argument
        next.readAll rest

end ArgumentState

def Options.ofArguments (arguments : List String) : Except UsageFault Options := do
  let state ← ArgumentState.readAll {} arguments
  return state.options

end CycleTable

import CycleTable.Run

/-!
# The command line

The arguments are read, and a run that follows from them is carried out on the machine at hand.
-/

namespace CycleTable.CommandLine

open Text

def helpLines : List String :=
  [
    "Usage: optable [OPTIONS]",
    "",
    "Options:",
    "  -o, --output <PATH>       Write the table to this file instead of stdout",
    "  -f, --format <FORMAT>     Output format: c, rust, bin, hex or list",
    "      --symbol <NAME>       Name of the emitted array (c and rust formats)",
    "  -d, --descriptors <PATH>  Read the descriptors from a file",
    "  -s, --show <ID>           Print a single table entry (hex ok with 0x)",
    "  -c, --check <PATH>        Compare a .bin or .hex table with the generated one",
    "  -v, --verbose             Enable verbose output",
    "  -h, --help                Print help",
    "  -V, --version             Print version"
  ]

def usageMessage : UsageFault → String
  | .invalidValue => "error: a value is missing or invalid"
  | .invalidNumber => "error: a number is invalid"
  | .unknownArgument => "error: an argument is unknown"
  | .repeatedOption => "error: an option is given more than once"
  | .unneededValue => "error: an option takes no value"
  | .help => unlines helpLines
  | .version => "optable"

def codeAndReason : IO.Error → Nat × String
  | .alreadyExists _ code reason | .invalidArgument _ code reason
  | .permissionDenied _ code reason | .resourceExhausted _ code reason
  | .inappropriateType _ code reason | .noSuchThing _ code reason
  | .interrupted _ code reason | .noFileOrDirectory _ code reason
  | .otherError code reason | .resourceBusy code reason | .resourceVanished code reason
  | .unsupportedOperation code reason | .hardwareFault code reason
  | .unsatisfiedConstraints code reason | .illegalOperation code reason
  | .protocolError code reason | .timeExpired code reason => (code.toNat, reason)
  | .unexpectedEof => (0, "unexpected end of file")
  | .userError reason => (0, reason)

/-- Some calls hand the number over negated, as a word of 32 bits. -/
def fileFault (error : IO.Error) : FileFault :=
  let (number, reason) := codeAndReason error
  let code := if number < 0x80000000 then number else 0x100000000 - number
  if code = 2 then .notFound
  else if code = 20 then .notDirectory
  else if code = 21 then .isDirectory
  else if code = 36 then .nameTooLong
  else .refused code reason.capitalize

def readFile (path : String) : IO (Except FileFault Bytes) := do
  match ← (IO.FS.readBinFile path).toBaseIO with
  | .ok contents => return .ok contents.data.toList
  | .error error => return .error (fileFault error)

def writeFile (path : String) (bytes : Bytes) : IO (Except FileFault Unit) := do
  match ← (IO.FS.writeBinFile path ⟨bytes.toArray⟩).toBaseIO with
  | .ok () => return .ok ()
  | .error error => return .error (fileFault error)

def host : Host IO where
  read := readFile
  write := writeFile
  isTerminal := do (← IO.getStdout).isTty

def execute (options : Options) : IO UInt32 := do
  let report ← options.execute host
  (← IO.getStdout).write ⟨report.stdout.toArray⟩
  IO.eprint report.stderr
  return UInt32.ofNat report.exitCode

end CycleTable.CommandLine

open CycleTable CommandLine in
def main (arguments : List String) : IO UInt32 := do
  match Options.ofArguments arguments with
  | .ok options => execute options
  | .error .help => IO.print (usageMessage .help); return 0
  | .error .version => IO.println (usageMessage .version); return 0
  | .error fault => IO.eprintln (usageMessage fault); return 2

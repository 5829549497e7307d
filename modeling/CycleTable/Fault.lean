import CycleTable.File
import CycleTable.Instruction
import CycleTable.MicroOp
import CycleTable.Text

/-!
# Faults

What can be wrong with a descriptor, a table or a file. A fault is its cause; the wording and the
kind are functions of the cause. A failure is a cause together with the table entry at which it was
met.
-/

namespace CycleTable.Text

def colored (code : String) (text : String) : String :=
  "\x1b[" ++ code ++ "m" ++ text ++ "\x1b[0m"

def red (text : String) : String :=
  colored "91" text

def blue (text : String) : String :=
  colored "94" text

end CycleTable.Text

namespace CycleTable

/-- What is wrong with a line that has the shape of a hex record. -/
inductive RecordDefect
  | length
  | checksum
  deriving DecidableEq, Repr

def RecordDefect.name : RecordDefect → String
  | .length => "length"
  | .checksum => "checksum"

/--
Causes in the order in which the work meets them: a descriptor's text, the cycles of its
instruction, a list of descriptors, a recorded table, a hex document, and what is asked of
the table or of the file system.
-/
inductive Fault
  | blankText
  | unknownMnemonic (name : String)
  | unknownOperand (operand : String)
  | notEncodable (m : Mnemonic) (mode : Mode)
  | noCycles (m : Mnemonic) (mode : Mode)
  | notMemory (mode : Mode)
  | notIndexable (m : Mnemonic) (index : IndexRegister)
  | noOwnOp (m : Mnemonic)
  | notPush (m : Mnemonic)
  | notPull (m : Mnemonic)
  | wrongLength (i : Instruction) (found : Nat)
  | malformedLine (line : Nat)
  | invalidId (line : Nat) (digits : String)
  | wrongCount (found : Nat)
  | wrongId (position found : Nat)
  | wrongSize (found expected : Nat)
  | differs (id step : Nat) (expected : MicroOp) (found : UInt8)
  | badRecord (defect : RecordDefect) (line : String)
  | recordAfterEnd
  | endMissing
  | endUnwritten
  | imageTooLarge
  | noEntry (id : Nat)
  | terminal
  | file (fault : FileFault)
  deriving DecidableEq, Repr

/-- The kinds of fault that a caller tells apart. -/
inductive FaultKind
  | addressingMode
  | instruction
  | descriptor
  | check
  | file
  | general
  deriving DecidableEq, Repr

namespace Fault

def kind : Fault → FaultKind
  | .unknownOperand _ | .notMemory _ => .addressingMode
  | .blankText | .unknownMnemonic _ | .notEncodable _ _ | .noCycles _ _
  | .notIndexable _ _ | .notPush _ | .notPull _ => .instruction
  | .malformedLine _ | .invalidId _ _ | .wrongCount _ | .wrongId _ _ => .descriptor
  | .wrongSize _ _ | .differs _ _ _ _ => .check
  | .file _ => .file
  | .noOwnOp _ | .wrongLength _ _ | .badRecord _ _ | .recordAfterEnd | .endMissing
  | .endUnwritten | .imageTooLarge | .noEntry _ | .terminal => .general

/-- The faults of the cycles of an instruction. -/
def isOfCycles : Fault → Bool
  | .noCycles _ _ | .notMemory _ | .notIndexable _ _ | .noOwnOp _ | .notPush _ | .notPull _
  | .wrongLength _ _ => true
  | _ => false

/-- A number of at least two digits of base sixteen behind its mark. -/
def numbered (mark : String) (number : Nat) : String :=
  mark ++ String.ofList (Text.hex 2 number)

def quoted (text : String) : String :=
  "\"" ++ text ++ "\""

/-- A byte of a table by the name of its micro-op, or by its value if it is no code. -/
def cellName (code : UInt8) : String :=
  match MicroOp.ofCode? code with
  | some op => op.name
  | none => numbered "$" code.toNat

def invalidInstruction (reason : String) : String :=
  Text.red "Invalid instruction" ++ " " ++ reason

def invalidMode (reason : String) : String :=
  Text.red "Invalid addressing mode" ++ " " ++ reason

def atLine (line : Nat) (reason : String) : String :=
  Text.red "Descriptor Error" ++ ", line " ++ toString line ++ ": " ++ reason

def checkFailed (reason : String) : String :=
  Text.red "Check Failed" ++ " " ++ reason

def message : Fault → String
  | .blankText => invalidInstruction "empty descriptor"
  | .unknownMnemonic name => invalidInstruction ("unknown mnemonic " ++ quoted name)
  | .unknownOperand operand => invalidMode ("unrecognized operand " ++ quoted operand)
  | .notEncodable m mode =>
      invalidInstruction
        (m.name ++ " can't be used with " ++ mode.name ++ " addressing")
  | .noCycles m mode =>
      invalidInstruction
        ("no sequence for " ++ m.name ++ " with " ++ mode.name ++ " addressing")
  | .notMemory mode => invalidMode (mode.name ++ " doesn't address memory")
  | .notIndexable m index =>
      invalidInstruction (m.name ++ " can't be indexed by " ++ index.name)
  | .noOwnOp m => m.name ++ " has no micro-op of its own"
  | .notPush m => invalidInstruction (m.name ++ " is not a push")
  | .notPull m => invalidInstruction (m.name ++ " is not a pull")
  | .wrongLength i found =>
      "sequence for " ++ i.display ++ " has " ++ toString found ++ " micro-ops; must be 1 to " ++
        toString cellsPerEntry
  | .malformedLine line => atLine line "expected <id> <mnemonic> [operand]"
  | .invalidId line digits => atLine line ("invalid id " ++ quoted digits)
  | .wrongCount found =>
      "expected " ++ toString entryCount ++ " descriptors but found " ++ toString found
  | .wrongId position found =>
      "descriptor " ++ toString position ++ " has id " ++ numbered "0x" found ++
        "; expected " ++ numbered "0x" position
  | .wrongSize found expected =>
      checkFailed
        ("table has " ++ toString found ++ " cells; expected " ++ toString expected)
  | .differs id step expected found =>
      checkFailed
        ("opcode " ++ numbered "$" id ++ " step " ++ toString step ++ ": expected " ++
          expected.name ++ ", found " ++ cellName found)
  | .badRecord defect line =>
      "bad hex record (" ++ defect.name ++ "): " ++ quoted line
  | .recordAfterEnd => "records after EOF in hex file"
  | .endMissing => "EOF record not found in hex file"
  | .endUnwritten => "cannot write hex file without EOF record"
  | .imageTooLarge => "image is too large for I8HEX"
  | .noEntry id => "no table entry " ++ numbered "$" id
  | .terminal => "refusing to write a binary table to a terminal; use --output"
  | .file fault => fault.message

end Fault

/-- The table entry that was being worked on. -/
structure Context where
  id : Nat
  text : String
  deriving DecidableEq, Repr

/-- A cause of some type, with the entry at which it was met, if it is known. -/
structure Failure (Cause : Type) where
  cause : Cause
  context : Option Context := none
  deriving DecidableEq, Repr

structure Diagnostic where
  kind : FaultKind
  message : String
  deriving DecidableEq, Repr

def Fault.diagnostic (fault : Fault) : Diagnostic :=
  ⟨fault.kind, fault.message⟩

def Context.display (context : Context) : String :=
  "Context: opcode " ++ Fault.numbered "$" context.id ++ " (" ++ context.text ++ ")"

namespace Failure

variable {Cause : Type}

/-- Attach an entry to a failure that has none. -/
def attach (failure : Failure Cause) (context : Context) : Failure Cause :=
  ⟨failure.cause, some (failure.context.getD context)⟩

def diagnostic (failure : Failure Fault) : Failure Diagnostic :=
  ⟨failure.cause.diagnostic, failure.context⟩

/-- The message, and on a second line the entry. -/
def display (failure : Failure Diagnostic) : String :=
  match failure.context with
  | none => failure.cause.message
  | some context => failure.cause.message ++ "\n" ++ context.display

def report (failure : Failure Diagnostic) : String :=
  Text.red "optable::Error" ++ ": " ++ failure.cause.message

end Failure

end CycleTable

import CycleTable.Fault
import CycleTable.Instruction
import CycleTable.Text

/-!
# Statements

The text of a descriptor, such as `LDA nnnn,X`, read as an instruction.

## Operand forms

An operand in a descriptor is no value but a form: how many bytes follow the opcode and how
they make up an address. Each form names one mode.
-/

namespace CycleTable.Operand

open Text

/--
A text has a form. In a form a space stands for any run of blanks, and every other
character for itself in either case.
-/
def fits : (form text : List Char) → Bool
  | [], text => text.isEmpty
  | c :: form, text =>
      if c = ' ' then fits form (trimStart text)
      else match text with
        | [] => false
        | d :: rest => d.toLower == c && fits form rest

def forms : List (List Char × Mode) :=
  [
    ("# nn".toList, .immediate),
    ("nn".toList, .zeroPage),
    ("nn , x".toList, .zeroPageIndexedX),
    ("nn , y".toList, .zeroPageIndexedY),
    ("nnnn".toList, .absolute),
    ("nnnn , x".toList, .absoluteIndexedX),
    ("nnnn , y".toList, .absoluteIndexedY),
    ("( nn ) , y".toList, .indirectIndexedY),
    ("( nn , x )".toList, .indexedIndirectX),
    ("( nnnn )".toList, .indirectAbsolute)
  ]

/-- The mode of the first form in a list that a text has. -/
def modeIn? (forms : List (List Char × Mode)) (text : List Char) : Option Mode :=
  (forms.find? fun form => fits form.1 text).map Prod.snd

def mode? (text : List Char) : Option Mode :=
  modeIn? forms text

end CycleTable.Operand

/-! ## Words and operands -/

namespace CycleTable

/-- A descriptor's text cut into its first word and its operand. -/
structure Statement where
  word : List Char
  operand : List Char
  deriving DecidableEq, Repr

namespace Statement

open Text

/-- A text that is all blank holds no statement, nor does one with a line feed inside its
operand. -/
def ofText? (text : List Char) : Option Statement :=
  let body := trim text
  let operand := trimStart (afterWord body)
  if (Text.word body).isEmpty || operand.contains '\n' then none
  else some ⟨Text.word body, operand⟩

/-- The mnemonic is named in either case. -/
def mnemonic (s : Statement) : Except Fault Mnemonic :=
  let name := String.ofList (upper s.word)
  match Mnemonic.ofName? name with
  | some m => .ok m
  | none => .error (.unknownMnemonic name)

def mode (s : Statement) : Except Fault Mode :=
  if s.operand.isEmpty then .ok .implied
  else match Operand.mode? s.operand with
    | some mode => .ok mode
    | none => .error (.unknownOperand (String.ofList s.operand))

end Statement

/-- A branch's operand byte is a displacement, not an address. -/
def Family.adjust (family : Family) (mode : Mode) : Mode :=
  if family = .branch ∧ mode = .zeroPage then .relative else mode

/--
Read a descriptor's text as an instruction. An unknown mnemonic is reported before an
unknown operand, and either before a pair that does not go together.
-/
def Instruction.ofText (text : String) : Except Fault Instruction :=
  match Statement.ofText? text.toList with
  | none => .error .blankText
  | some s => do
      let m ← s.mnemonic
      let mode := m.family.adjust (← s.mode)
      if m.family.accepts m mode then .ok ⟨m, mode⟩
      else .error (.notEncodable m mode)

end CycleTable

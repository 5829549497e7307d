import CycleTable.Fault
import CycleTable.Text

/-!
# Descriptors

A descriptor names the instruction of one table entry. A complete list holds one for every
id, in order.
-/

namespace CycleTable

structure Descriptor where
  id : Nat
  text : String
  deriving DecidableEq, Repr

namespace Descriptor

def display (d : Descriptor) : String :=
  Fault.numbered "0x" d.id ++ ": " ++ d.text

/-- The first descriptor of a list whose id is not its position. -/
def misplaced? (list : List Descriptor) : Option (Nat × Descriptor) :=
  (list.mapIdx Prod.mk).find? fun (position, d) => d.id != position

/-- The number of descriptors is checked before their order. -/
def validate (list : List Descriptor) : Except Fault Unit :=
  if list.length ≠ entryCount then .error (.wrongCount list.length)
  else match misplaced? list with
    | some (position, d) => .error (.wrongId position d.id)
    | none => .ok ()

theorem misplaced?_eq_none_iff {list : List Descriptor} :
    misplaced? list = none ↔
      ∀ (position : Nat) (d : Descriptor), list[position]? = some d → d.id = position := by
  simp only [misplaced?, List.find?_eq_none, List.mem_mapIdx]
  constructor
  · intro h position d hd
    obtain ⟨hlt, hget⟩ := List.getElem?_eq_some_iff.mp hd
    simpa using h (position, d) ⟨position, hlt, by rw [hget]⟩
  · rintro h pair ⟨position, hlt, rfl⟩
    simpa using h position list[position] (List.getElem?_eq_getElem hlt)

end Descriptor

end CycleTable

/-!
## The notation of descriptor files

A line holds an id, a word and perhaps an operand, and may end in a comment behind a
semicolon. Lines that hold nothing but blanks and a comment are skipped. An id is a decimal
number, or one of base sixteen between the marks `0x` or `$` and `h`, of which one will do.
-/

namespace CycleTable.Descriptor

open Text

/-- A line that has the shape of an entry. Whether the digits make an id is left open. -/
structure EntryLine where
  digits : List Char
  isHex : Bool
  word : List Char
  operand : List Char
  deriving DecidableEq, Repr

/-- Nothing, or a comment up to the end of the line. -/
def isComment : List Char → Bool
  | [] => true
  | c :: rest => c == ';' && !rest.contains '\n'

def isSkipped (line : List Char) : Bool :=
  isComment (trimStart line)

/-- Drop the mark before the digits, and tell whether there was one. -/
def dropMark : List Char → Bool × List Char
  | '$' :: rest => (true, rest)
  | '0' :: c :: rest => if c = 'x' ∨ c = 'X' then (true, rest) else (false, '0' :: c :: rest)
  | text => (false, text)

def dropSuffix : List Char → Bool × List Char
  | c :: rest => if c = 'h' ∨ c = 'H' then (true, rest) else (false, c :: rest)
  | [] => (false, [])

/-- Blanks separate the id from the word; the operand loses the blanks around it. -/
def EntryLine.ofText? (line : List Char) : Option EntryLine :=
  let (marked, numeral) := dropMark (trimStart line)
  let digits := numeral.takeWhile isHexDigit
  let (suffixed, rest) := dropSuffix (numeral.dropWhile isHexDigit)
  let body := rest.takeWhile fun c => c != ';'
  let comment := rest.dropWhile fun c => c != ';'
  let statement := trimStart body
  if digits.isEmpty || statement.isEmpty || statement == body || !isComment comment then
    none
  else
    some ⟨digits, marked || suffixed, Text.word statement, trim (afterWord statement)⟩

namespace EntryLine

/-- Ids have at most sixteen bits. -/
def id? (line : EntryLine) : Option Nat :=
  (number? (if line.isHex then 16 else 10) line.digits).filter fun id => id < 0x10000

def text (line : EntryLine) : String :=
  String.ofList (line.word ++ if line.operand.isEmpty then [] else ' ' :: line.operand)

end EntryLine

def ofLine (lineNumber : Nat) (line : List Char) : Except Fault (Option Descriptor) :=
  if isSkipped line then .ok none
  else match EntryLine.ofText? line with
    | none => .error (.malformedLine lineNumber)
    | some entry => match entry.id? with
      | none => .error (.invalidId lineNumber (String.ofList entry.digits))
      | some id => .ok (some ⟨id, entry.text⟩)

/-- Lines count from the given number, skipped ones included. -/
def readLines (lineNumber : Nat) : List (List Char) → Except Fault (List Descriptor)
  | [] => .ok []
  | line :: rest => do
      let head ← ofLine lineNumber line
      let tail ← readLines (lineNumber + 1) rest
      return head.toList ++ tail

/-- A complete list from lines. A bad line is reported before a wrong count or order. -/
def ofLines (lines : List (List Char)) : Except Fault (List Descriptor) := do
  let list ← readLines 1 lines
  validate list
  return list

def ofFile (contents : Bytes) : Except Fault (List Descriptor) :=
  match ofUtf8? contents with
  | none => .error (.file .notText)
  | some text => ofLines (fileLines text)

/-!
## The standard descriptors

The whole instruction set of the processor, undocumented opcodes included.
-/

/-- The texts by id, eight to a row. -/
def standardTexts : List String :=
  [
    "BRK", "ORA (nn,X)", "???", "SLO (nn,X)", "NOP nn", "ORA nn", "ASL nn", "SLO nn",
    "PHP", "ORA #nn", "ASL", "ANC #nn", "NOP nnnn", "ORA nnnn", "ASL nnnn", "SLO nnnn",
    "BPL nn", "ORA (nn),Y", "???", "SLO (nn),Y", "NOP nn,X", "ORA nn,X", "ASL nn,X", "SLO nn,X",
    "CLC", "ORA nnnn,Y", "NOP", "SLO nnnn,Y", "NOP nnnn,X", "ORA nnnn,X", "ASL nnnn,X", "SLO nnnn,X",
    "JSR nnnn", "AND (nn,X)", "???", "RLA (nn,X)", "BIT nn", "AND nn", "ROL nn", "RLA nn",
    "PLP", "AND #nn", "ROL", "ANC #nn", "BIT nnnn", "AND nnnn", "ROL nnnn", "RLA nnnn",
    "BMI nn", "AND (nn),Y", "???", "RLA (nn),Y", "NOP nn,X", "AND nn,X", "ROL nn,X", "RLA nn,X",
    "SEC", "AND nnnn,Y", "NOP", "RLA nnnn,Y", "NOP nnnn,X", "AND nnnn,X", "ROL nnnn,X", "RLA nnnn,X",
    "RTI", "EOR (nn,X)", "???", "SRE (nn,X)", "NOP nn", "EOR nn", "LSR nn", "SRE nn",
    "PHA", "EOR #nn", "LSR", "ASR #nn", "JMP nnnn", "EOR nnnn", "LSR nnnn", "SRE nnnn",
    "BVC nn", "EOR (nn),Y", "???", "SRE (nn),Y", "NOP nn,X", "EOR nn,X", "LSR nn,X", "SRE nn,X",
    "CLI", "EOR nnnn,Y", "NOP", "SRE nnnn,Y", "NOP nnnn,X", "EOR nnnn,X", "LSR nnnn,X", "SRE nnnn,X",
    "RTS", "ADC (nn,X)", "???", "RRA (nn,X)", "NOP nn", "ADC nn", "ROR nn", "RRA nn",
    "PLA", "ADC #nn", "ROR", "ARR #nn", "JMP (nnnn)", "ADC nnnn", "ROR nnnn", "RRA nnnn",
    "BVS nn", "ADC (nn),Y", "???", "RRA (nn),Y", "NOP nn,X", "ADC nn,X", "ROR nn,X", "RRA nn,X",
    "SEI", "ADC nnnn,Y", "NOP", "RRA nnnn,Y", "NOP nnnn,X", "ADC nnnn,X", "ROR nnnn,X", "RRA nnnn,X",
    "NOP #nn", "STA (nn,X)", "NOP #nn", "SAX (nn,X)", "STY nn", "STA nn", "STX nn", "SAX nn",
    "DEY", "NOP #nn", "TXA", "ANE #nn", "STY nnnn", "STA nnnn", "STX nnnn", "SAX nnnn",
    "BCC nn", "STA (nn),Y", "???", "SHA (nn),Y", "STY nn,X", "STA nn,X", "STX nn,Y", "SAX nn,Y",
    "TYA", "STA nnnn,Y", "TXS", "SHS nnnn,Y", "SHY nnnn,X", "STA nnnn,X", "SHX nnnn,Y", "SHA nnnn,Y",
    "LDY #nn", "LDA (nn,X)", "LDX #nn", "LAX (nn,X)", "LDY nn", "LDA nn", "LDX nn", "LAX nn",
    "TAY", "LDA #nn", "TAX", "LXA #nn", "LDY nnnn", "LDA nnnn", "LDX nnnn", "LAX nnnn",
    "BCS nn", "LDA (nn),Y", "???", "LAX (nn),Y", "LDY nn,X", "LDA nn,X", "LDX nn,Y", "LAX nn,Y",
    "CLV", "LDA nnnn,Y", "TSX", "LAS nnnn,Y", "LDY nnnn,X", "LDA nnnn,X", "LDX nnnn,Y", "LAX nnnn,Y",
    "CPY #nn", "CMP (nn,X)", "NOP #nn", "DCP (nn,X)", "CPY nn", "CMP nn", "DEC nn", "DCP nn",
    "INY", "CMP #nn", "DEX", "SBX #nn", "CPY nnnn", "CMP nnnn", "DEC nnnn", "DCP nnnn",
    "BNE nn", "CMP (nn),Y", "???", "DCP (nn),Y", "NOP nn,X", "CMP nn,X", "DEC nn,X", "DCP nn,X",
    "CLD", "CMP nnnn,Y", "NOP", "DCP nnnn,Y", "NOP nnnn,X", "CMP nnnn,X", "DEC nnnn,X", "DCP nnnn,X",
    "CPX #nn", "SBC (nn,X)", "NOP #nn", "ISB (nn,X)", "CPX nn", "SBC nn", "INC nn", "ISB nn",
    "INX", "SBC #nn", "NOP", "SBC #nn", "CPX nnnn", "SBC nnnn", "INC nnnn", "ISB nnnn",
    "BEQ nn", "SBC (nn),Y", "???", "ISB (nn),Y", "NOP nn,X", "SBC nn,X", "INC nn,X", "ISB nn,X",
    "SED", "SBC nnnn,Y", "NOP", "ISB nnnn,Y", "NOP nnnn,X", "SBC nnnn,X", "INC nnnn,X", "ISB nnnn,X",
    "INT", "RST"
  ]

def standard : List Descriptor :=
  standardTexts.mapIdx Descriptor.mk

end CycleTable.Descriptor

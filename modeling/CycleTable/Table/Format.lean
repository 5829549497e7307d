import CycleTable.File
import CycleTable.IntelHex
import CycleTable.Table
import CycleTable.Text

/-!
# Formats

The forms in which a table is written out, and what is read back of them.

## Source text

A table as the source of an array: one cell to a line, and before the cells of an entry a
comment that names it. Every cell but the terminal one is followed by a comma.
-/

namespace CycleTable.Table

def commentLine (entry : Entry) : String :=
  "    // " ++ entry.descriptor.display

def cellLine (cell : Cell) : String :=
  "    " ++ cell.microOp.name ++ if cell = .terminal then "" else ","

def arrayLines (table : Table) : List String :=
  let cells := table.cells
  (table.entries.mapIdx fun id entry =>
    commentLine entry :: (block cells id).map cellLine).flatten

def noticeLine : String :=
  "// generated by optable; do not edit"

/-- An array in C, over constants that are defined elsewhere. -/
def cLines (table : Table) (symbol : String) : List String :=
  [noticeLine, "// CPU_OP_* values are defined by the execution engine", "",
    "const unsigned char " ++ symbol ++ "[" ++ toString cellCount ++ "] = \x7b"] ++
    table.arrayLines ++ ["\x7d;"]

def constantLine (op : MicroOp) : String :=
  "pub const " ++ op.name ++ ": u8 = " ++ toString op.code.toNat ++ ";"

/-- An array in Rust, behind the constants that it uses. -/
def rustLines (table : Table) (symbol : String) : List String :=
  [noticeLine, ""] ++ MicroOp.all.map constantLine ++
    ["", "#[rustfmt::skip]",
      "pub static " ++ symbol ++ ": [u8; " ++ toString cellCount ++ "] = ["] ++
    table.arrayLines ++ ["];"]

/-!
## Listings

A table for a reader: one line for each entry, or the cells of a single entry.
-/

open Text

def shortNames (code : Microcode) : String :=
  code.listed MicroOp.shortName

def listingLine (entry : Entry) : String :=
  "$" ++ String.ofList (hex 3 entry.descriptor.id) ++ "  " ++
    String.ofList (padRight 12 entry.descriptor.text.toList) ++ " " ++
    String.ofList (padLeft 2 (toString entry.microcode.length).toList) ++ "  " ++
    shortNames entry.microcode

def listingLines (table : Table) : List String :=
  table.entries.map listingLine

/-- When the engine enters a sequence without fetching an opcode. -/
def entranceLines (id : Nat) : List String :=
  if id = interruptId then
    ["  entered instead of an opcode fetch when an interrupt is pending"]
  else if id = resetId then
    ["  entered when the reset line is released"]
  else
    []

def cellNote : Cell → String
  | .step _ => ""
  | .fill => " (fill)"
  | .terminal => " (end of table)"

def stepLine (step : Nat) (cell : Cell) : String :=
  "  " ++ String.ofList (padLeft 2 (toString step).toList) ++ "  " ++
    String.ofList (padLeft 3 (toString cell.code.toNat).toList) ++ "  " ++
    cell.microOp.display ++ cellNote cell

def entryLines (table : Table) (id : Nat) : Except Fault (List String) :=
  match table.entry? id with
  | none => .error (.noEntry id)
  | some entry =>
      .ok
        ([Fault.numbered "0x" id ++ ": " ++ entry.descriptor.text ++ " (" ++
            entry.instruction.mode.name ++ ")"] ++
          entranceLines id ++ (block table.cells id).mapIdx stepLine)

end CycleTable.Table

/-! ## Choice of a format -/

namespace CycleTable

inductive Format
  | c
  | rust
  | binary
  | hex
  | listing
  deriving DecidableEq, Repr

namespace Format

def all : List Format :=
  [.c, .rust, .binary, .hex, .listing]

def name : Format → String
  | .c => "C"
  | .rust => "Rust"
  | .binary => "Bin"
  | .hex => "Hex"
  | .listing => "List"

def keyword : Format → String
  | .c => "c"
  | .rust => "rust"
  | .binary => "bin"
  | .hex => "hex"
  | .listing => "list"

def ofKeyword? (keyword : String) : Option Format :=
  all.find? fun format => format.keyword == keyword

/-- Only the source formats name the array that they define. -/
def usesSymbol : Format → Bool
  | .c | .rust => true
  | .binary | .hex | .listing => false

end Format

namespace Table

open Text

def hexDocument (table : Table) : Except Fault IntelHex.Document :=
  IntelHex.Document.ofImage table.toBytes

/-- A table written out. The symbol names the array in place of the usual name. -/
def encode (table : Table) (format : Format) (symbol : Option String) :
    Except Fault Bytes :=
  match format with
  | .c => .ok (utf8 (unlines (table.cLines (symbol.getD "opcodeTable"))))
  | .rust => .ok (utf8 (unlines (table.rustLines (symbol.getD "OPCODE_TABLE"))))
  | .binary => .ok table.toBytes
  | .hex => do
      let document ← table.hexDocument
      return utf8 (← document.display)
  | .listing => .ok (utf8 (unlines table.listingLines))

end Table

end CycleTable

/-!
## Differences

Bytes that were recorded earlier either are the table, or have another size, or differ
first at some step of some entry.
-/

namespace CycleTable.Table

/-- The first place where a cell's code is not the byte beside it. -/
def firstDifference? (cells : List Cell) (bytes : Bytes) : Option ((Cell × UInt8) × Nat) :=
  (cells.zip bytes).zipIdx.find? fun ((cell, byte), _) => cell.code != byte

def compare (table : Table) (bytes : Bytes) : Except Fault Unit :=
  let cells := table.cells
  if bytes.length ≠ cells.length then .error (.wrongSize bytes.length cells.length)
  else match firstDifference? cells bytes with
    | none => .ok ()
    | some ((cell, byte), place) =>
        .error
          (.differs (place / cellsPerEntry) (place % cellsPerEntry) cell.microOp byte)

end CycleTable.Table

/-!
## Recorded tables

A table that was written to a file earlier, read back to be compared. The file's name tells
whether it is a hex document or the bare bytes.
-/

namespace CycleTable

structure Recorded where
  image : Bytes
  /-- The types of hex records that were left out. -/
  ignored : List UInt8
  deriving DecidableEq, Repr

namespace Recorded

def decode (path : String) (contents : Bytes) : Except Fault Recorded :=
  if Path.hasExtension "hex" path then do
    let document ← IntelHex.Document.ofFile contents
    return ⟨document.image, document.ignoredTypes⟩
  else
    .ok ⟨contents, []⟩

def read (path : String) (contents : Except FileFault Bytes) : Except Fault Recorded :=
  match contents with
  | .error fault => .error (.file fault)
  | .ok bytes => decode path bytes

end Recorded

/-- A file holds the table. -/
def Table.check (table : Table) (path : String) (contents : Except FileFault Bytes) :
    Except Fault Unit := do
  let recorded ← Recorded.read path contents
  table.compare recorded.image

end CycleTable

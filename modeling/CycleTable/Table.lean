import CycleTable.Descriptor
import CycleTable.Fault
import CycleTable.Microcode
import CycleTable.Statement
import CycleTable.Text

/-!
# Tables

The entries of a descriptor list, and the flat run of cells that the engine steps through.
The cells that an entry does not use fetch the next opcode, so a sequence ends at the first
of them.
-/

namespace CycleTable

inductive Cell
  /-- A cycle of an entry's instruction. -/
  | step (op : MicroOp)
  /-- Fetches the next opcode. -/
  | fill
  /-- A fill at the very end of the table. -/
  | terminal
  deriving DecidableEq, Repr

namespace Cell

def microOp : Cell → MicroOp
  | .step op => op
  | .fill | .terminal => .rdOpcode

def code (cell : Cell) : UInt8 :=
  cell.microOp.code

def isPadding : Cell → Bool
  | .step _ => false
  | .fill | .terminal => true

end Cell

structure Entry where
  descriptor : Descriptor
  instruction : Instruction
  microcode : Microcode
  deriving DecidableEq, Repr

namespace Entry

def context (d : Descriptor) : Context :=
  ⟨d.id, d.text⟩

def build (d : Descriptor) : Except Fault Entry := do
  let instruction ← Instruction.ofText d.text
  let microcode ← instruction.microcode
  return ⟨d, instruction, microcode⟩

/-- A descriptor that cannot be built is blamed on its entry. -/
def ofDescriptor (d : Descriptor) : Except (Failure Fault) Entry :=
  (build d).mapError fun fault => (Failure.mk fault none).attach (context d)

def cells (entry : Entry) : List Cell :=
  (entry.microcode.map Cell.step ++ List.replicate cellsPerEntry Cell.fill).take cellsPerEntry

theorem length_cells (entry : Entry) : entry.cells.length = cellsPerEntry := by
  simp [cells]

end Entry

structure Table where
  entries : List Entry
  deriving DecidableEq, Repr

namespace Table

/-- The list as a whole is checked before any of its texts. -/
def ofDescriptors (list : List Descriptor) : Except (Failure Fault) Table := do
  (Descriptor.validate list).mapError fun fault => Failure.mk fault none
  let entries ← list.mapM Entry.ofDescriptor
  return ⟨entries⟩

def body (table : Table) : List Cell :=
  table.entries.flatMap Entry.cells

/-- A fill in the last place leads to no further entry. -/
def markEnd (cells : List Cell) : List Cell :=
  if cells.getLast? = some .fill then cells.dropLast ++ [.terminal] else cells

theorem length_markEnd (cells : List Cell) : (markEnd cells).length = cells.length := by
  unfold markEnd
  split
  · next h =>
    have hne : cells ≠ [] := by
      rintro rfl
      simp at h
    have hpos := List.length_pos_iff.mpr hne
    simp only [List.length_append, List.length_dropLast, List.length_singleton]
    omega
  · rfl

def cells (table : Table) : List Cell :=
  markEnd table.body

theorem length_cells (table : Table) :
    table.cells.length = table.entries.length * cellsPerEntry := by
  rw [cells, length_markEnd, body, List.length_flatMap]
  simp only [Entry.length_cells, List.map_const', List.sum_replicate_nat]

def entry? (table : Table) (id : Nat) : Option Entry :=
  table.entries[id]?

def block (cells : List Cell) (id : Nat) : List Cell :=
  (cells.drop (id * cellsPerEntry)).take cellsPerEntry

def entryCells? (table : Table) (id : Nat) : Option (List Cell) :=
  (table.entry? id).map fun _ => block table.cells id

/-- The table as the engine reads it. -/
def toBytes (table : Table) : Bytes :=
  table.cells.map Cell.code

theorem length_toBytes (table : Table) :
    table.toBytes.length = table.entries.length * cellsPerEntry := by
  rw [toBytes, List.length_map, length_cells]

end Table

end CycleTable

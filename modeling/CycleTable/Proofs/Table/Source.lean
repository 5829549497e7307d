import CycleTable.Proofs.Descriptor.OneLine
import CycleTable.Proofs.Table.Entries
import CycleTable.Proofs.Table.Walk
import CycleTable.Proofs.Text.Lines
import CycleTable.Table.Format
import Mathlib.Data.List.Nodup

/-!
# The source of a table

The source text of a generated table, read line by line, holds the bytes of the table: one
cell to a line, named by the micro-op of its code, with a comment before each entry.
-/

namespace CycleTable

open Text

def cellStart : String := "    CPU_OP_"

namespace MicroOp

theorem name_shape (op : MicroOp) :
    begins nameStem op.name = true ∧ '\n' ∉ op.name.toList ∧ ':' ∉ op.name.toList := by
  have hall : ∀ op ∈ all,
      begins nameStem op.name = true ∧ '\n' ∉ op.name.toList ∧ ':' ∉ op.name.toList := by
    decide +kernel
  exact hall op op.mem_all

theorem name_injective {op other : MicroOp} (h : op.name = other.name) : op = other := by
  have hnodup : (all.map fun op => (utf8 op.name).drop 7).Nodup := by decide +kernel
  exact List.inj_on_of_nodup_map hnodup op.mem_all other.mem_all (by simp only [h])

end MicroOp

namespace Table

variable {list : List Descriptor} {table : Table}

theorem begins_cellLine (cell : Cell) : begins cellStart (cellLine cell) = true := by
  have hname : begins cellStart ("    " ++ cell.microOp.name) = true := by
    have hstem := cell.microOp.name_shape.1
    have hstart : cellStart = "    " ++ MicroOp.nameStem := by decide
    unfold begins at hstem ⊢
    rw [List.isPrefixOf_iff_prefix] at hstem ⊢
    rw [hstart, String.toList_append, String.toList_append]
    exact (List.prefix_append_right_inj _).mpr hstem
  exact begins_append_of_begins hname _

theorem begins_commentLine (entry : Entry) : begins cellStart (commentLine entry) = false := by
  have hcell : begins cellStart "    // " = false := rfl
  have hcomment : begins "    // " cellStart = false := rfl
  exact begins_append_eq_false hcell hcomment _

theorem map_mapIdx {α β γ : Type} (f : β → γ) (g : Nat → α → β) (entries : List α) :
    (entries.mapIdx g).map f = entries.mapIdx fun id entry => f (g id entry) := by
  apply List.ext_getElem?
  intro i
  simp [Function.comp_def]

theorem flatten_blocks {α β : Type} {size : Nat} {entries : List α} {cells : List β}
    (h : cells.length = entries.length * size) :
    (entries.mapIdx fun id _ => (cells.drop (id * size)).take size).flatten = cells := by
  induction entries generalizing cells with
  | nil =>
      rw [List.length_nil, Nat.zero_mul] at h
      rw [List.length_eq_zero_iff.mp h]
      rfl
  | cons entry rest ih =>
      rw [List.length_cons, Nat.succ_mul] at h
      have hrest : (cells.drop size).length = rest.length * size := by
        rw [List.length_drop]
        omega
      have hshift : ∀ id, (cells.drop ((id + 1) * size)).take size =
          ((cells.drop size).drop (id * size)).take size := by
        intro id
        rw [List.drop_drop, Nat.succ_mul, Nat.add_comm size]
      rw [List.mapIdx_cons, List.flatten_cons]
      simp only [hshift, ih hrest, Nat.zero_mul, List.drop_zero]
      exact List.take_append_drop size cells

theorem filter_arrayLines (table : Table) :
    table.arrayLines.filter (begins cellStart) = table.cells.map cellLine := by
  have hcells : ∀ cells : List Cell,
      (cells.map cellLine).filter (begins cellStart) = cells.map cellLine := by
    intro cells
    rw [List.filter_eq_self]
    intro line hline
    rcases List.mem_map.mp hline with ⟨cell, _, rfl⟩
    exact begins_cellLine cell
  have hentry : ∀ (id : Nat) (entry : Entry),
      (commentLine entry :: (block table.cells id).map cellLine).filter (begins cellStart) =
        (block table.cells id).map cellLine := by
    intro id entry
    rw [List.filter_cons, begins_commentLine, hcells]
    rfl
  have hblocks := congrArg (List.map cellLine) (flatten_blocks (length_cells table))
  rw [List.map_flatten, map_mapIdx] at hblocks
  rw [arrayLines, List.filter_flatten, map_mapIdx]
  simp only [hentry]
  exact hblocks

def commentedLines (lines : List String) (id : Nat) (text : String) : List String :=
  ("    // " ++ Fault.numbered "0x" id ++ ": " ++ text) ::
    (lines.drop (id * cellsPerEntry)).take cellsPerEntry

theorem arrayLines_eq (h : ofDescriptors list = .ok table) :
    table.arrayLines =
      (list.mapIdx fun id d => commentedLines (table.cells.map cellLine) id d.text).flatten := by
  rw [arrayLines]
  congr 1
  apply List.ext_getElem?
  intro id
  rw [List.getElem?_mapIdx, List.getElem?_mapIdx, ← getElem?_entries h id, Option.map_map]
  cases hentry : table.entries[id]? with
  | none => rfl
  | some entry =>
      have hd : list[id]? = some entry.descriptor := by
        rw [← getElem?_entries h id, hentry]
        rfl
      have hid := id_of_ofDescriptors h hd
      simp only [Option.map_some, Function.comp_def, commentedLines, commentLine,
        Descriptor.display, hid, block, List.map_take, List.map_drop, String.append_assoc]

theorem newline_not_mem_numbered {id : Nat} (h : id < entryCount) :
    '\n' ∉ (Fault.numbered "0x" id).toList := by
  have hall : ∀ id, id < entryCount → '\n' ∉ (Fault.numbered "0x" id).toList := by
    decide +kernel
  exact hall id h

theorem newline_not_mem_cellLine (cell : Cell) : '\n' ∉ (cellLine cell).toList := by
  have hname := cell.microOp.name_shape.2.1
  unfold cellLine
  rw [String.toList_append, String.toList_append, List.mem_append, List.mem_append, not_or, not_or]
  refine ⟨⟨by decide, hname⟩, ?_⟩
  split
  · decide
  · decide

theorem newline_not_mem_arrayLines (hloaded : Descriptor.IsLoaded list)
    (h : ofDescriptors list = .ok table) :
    ∀ line ∈ table.arrayLines, '\n' ∉ line.toList := by
  intro line hline
  rcases List.mem_flatten.mp hline with ⟨lines, hlines, hmem⟩
  rcases List.mem_mapIdx.mp hlines with ⟨id, hid, rfl⟩
  rcases List.mem_cons.mp hmem with rfl | hcell
  · have hentry : table.entries[id] ∈ table.entries := List.getElem_mem hid
    have hd : list[id]? = some (table.entries[id]).descriptor := by
      rw [← getElem?_entries h id, List.getElem?_eq_getElem hid]
      rfl
    have hbound : id < entryCount := by
      rw [← length_entries h]
      exact hid
    have htext := Descriptor.newline_not_mem_of_isLoaded hloaded (List.mem_of_getElem? hd)
      (isBuilt_of_mem h hentry).instruction
    have hnumber := newline_not_mem_numbered hbound
    rw [← id_of_ofDescriptors h hd] at hnumber
    simp only [commentLine, Descriptor.display, String.toList_append, List.mem_append, not_or]
    exact ⟨by decide, ⟨hnumber, by decide⟩, htext⟩
  · rcases List.mem_map.mp hcell with ⟨cell, _, rfl⟩
    exact newline_not_mem_cellLine cell

def definitionStart (name : String) : String :=
  "pub const " ++ name ++ ": u8 = "

theorem constantLine_eq (op : MicroOp) :
    constantLine op = definitionStart op.name ++ (toString op.code.toNat ++ ";") := by
  rw [constantLine, ← String.append_assoc]
  rfl

theorem begins_definitionStart_iff (op other : MicroOp) (rest : String) :
    begins (definitionStart op.name) (definitionStart other.name ++ rest) = true ↔ other = op := by
  constructor
  · intro h
    unfold begins definitionStart at h
    rw [List.isPrefixOf_iff_prefix] at h
    simp only [String.toList_append, List.append_assoc] at h
    rw [List.prefix_append_right_inj] at h
    rcases h with ⟨more, hmore⟩
    have hcolon : ": u8 = ".toList = ':' :: " u8 = ".toList := by decide
    rw [hcolon, List.append_assoc, List.cons_append, List.cons_append] at hmore
    have hname : op.name.toList = other.name.toList :=
      append_cons_inj op.name_shape.2.2 other.name_shape.2.2 hmore
    exact (MicroOp.name_injective (String.toList_inj.mp hname)).symm
  · intro h
    rw [h]
    apply begins_append_of_begins
    exact List.isPrefixOf_iff_prefix.mpr (List.prefix_refl _)

theorem filter_constantLines (op : MicroOp) :
    (MicroOp.all.map constantLine).filter (begins (definitionStart op.name)) =
      [constantLine op] := by
  have honly : MicroOp.all.filter (· == op) = [op] := by
    have hall : ∀ op ∈ MicroOp.all, MicroOp.all.filter (· == op) = [op] := by decide +kernel
    exact hall op op.mem_all
  have hbegins : ∀ other, (begins (definitionStart op.name) ∘ constantLine) other =
      (other == op) := by
    intro other
    rw [Bool.eq_iff_iff, Function.comp_apply, constantLine_eq, begins_definitionStart_iff,
      beq_iff_eq]
  rw [List.filter_map, List.filter_congr fun other _ => hbegins other, honly]
  rfl

theorem cellLines_of_ofDescriptors (h : ofDescriptors list = .ok table) :
    (table.cells.map cellLine).length = 4128 ∧
      ∀ i, i < 4128 → ∃ op : MicroOp, table.toBytes[i]? = some op.code ∧
        (table.cells.map cellLine)[i]? =
          some ("    " ++ op.name ++ if i = 4127 then "" else ",") := by
  have hlength : table.cells.length = 4128 := length_cells_of_ofDescriptors h
  refine ⟨by rw [List.length_map, hlength], ?_⟩
  intro i hi
  have hlt : i < table.cells.length := by omega
  have hcell := List.getElem?_eq_getElem hlt
  refine ⟨(table.cells[i]).microOp, ?_, ?_⟩
  · rw [toBytes, List.getElem?_map, hcell]
    rfl
  · have hterminal := getElem?_cells_eq_terminal_iff h i
    rw [hcell, Option.some.injEq, cellCount_eq] at hterminal
    have hlast : table.cells[i] = .terminal ↔ i = 4127 := by
      rw [hterminal]
      omega
    rw [List.getElem?_map, hcell, Option.map_some, cellLine]
    simp only [hlast]

/-- A line that holds no feed and could not be taken for a cell. -/
structure IsPlainLine (line : String) : Prop where
  oneLine : '\n' ∉ line.toList
  notCell : begins cellStart line = false

theorem IsPlainLine.append {front rest : String} (h : IsPlainLine front)
    (hfront : begins front cellStart = false) (hrest : '\n' ∉ rest.toList) :
    IsPlainLine (front ++ rest) := by
  constructor
  · rw [String.toList_append, List.mem_append, not_or]
    exact ⟨h.oneLine, hrest⟩
  · exact begins_append_eq_false h.notCell hfront rest

/-- The lines of a text around an array: those before it, its first and its last. -/
structure Frame where
  header : List String
  opening : String
  closing : String

namespace Frame

def lines (frame : Frame) (array : List String) : List String :=
  frame.header ++ frame.opening :: array ++ [frame.closing]

def IsPlain (frame : Frame) : Prop :=
  ∀ line ∈ frame.lines [], IsPlainLine line

variable {frame : Frame} {array : List String}

theorem mem_lines_iff {line : String} :
    line ∈ frame.lines array ↔ line ∈ frame.lines [] ∨ line ∈ array := by
  simp only [lines, List.mem_append, List.mem_cons, List.not_mem_nil, or_false]
  constructor
  · intro h
    rcases h with (hheader | hopening | harray) | hclosing
    · exact Or.inl (Or.inl (Or.inl hheader))
    · exact Or.inl (Or.inl (Or.inr hopening))
    · exact Or.inr harray
    · exact Or.inl (Or.inr hclosing)
  · intro h
    rcases h with ((hheader | hopening) | hclosing) | harray
    · exact Or.inl (Or.inl hheader)
    · exact Or.inl (Or.inr (Or.inl hopening))
    · exact Or.inr hclosing
    · exact Or.inl (Or.inr (Or.inr harray))

theorem textLines_lines (hplain : frame.IsPlain) (harray : ∀ line ∈ array, '\n' ∉ line.toList) :
    textLines (unlines (frame.lines array)) = frame.lines array ++ [""] := by
  apply textLines_unlines
  intro line hline
  rcases mem_lines_iff.mp hline with hframe | hmem
  · exact (hplain line hframe).oneLine
  · exact harray line hmem

theorem filter_lines (hplain : frame.IsPlain) :
    (frame.lines array ++ [""]).filter (begins cellStart) = array.filter (begins cellStart) := by
  have hheader : frame.header.filter (begins cellStart) = [] := by
    rw [List.filter_eq_nil_iff]
    intro line hline
    rw [(hplain line (List.mem_append_left _ (List.mem_append_left _ hline))).notCell]
    exact Bool.false_ne_true
  have hopening : begins cellStart frame.opening = false :=
    (hplain _ (by simp [lines])).notCell
  have hclosing : begins cellStart frame.closing = false :=
    (hplain _ (by simp [lines])).notCell
  have hempty : begins cellStart "" = false := by decide
  simp [lines, List.filter_append, hheader, hopening, hclosing, hempty]

end Frame

def cFrame (symbol : String) : Frame :=
  ⟨[noticeLine, "// CPU_OP_* values are defined by the execution engine", ""],
    "const unsigned char " ++ symbol ++ "[4128] = \x7b", "\x7d;"⟩

def rustFrame (symbol : String) : Frame :=
  ⟨[noticeLine, ""] ++ MicroOp.all.map constantLine ++ ["", "#[rustfmt::skip]"],
    "pub static " ++ symbol ++ ": [u8; 4128] = [", "];"⟩

theorem cLines_eq (table : Table) (symbol : String) :
    table.cLines symbol = (cFrame symbol).lines table.arrayLines := by
  have hcount : "[" ++ toString cellCount ++ "] = \x7b" = "[4128] = \x7b" := by decide
  have hopening : "const unsigned char " ++ symbol ++ "[" ++ toString cellCount ++ "] = \x7b" =
      "const unsigned char " ++ symbol ++ "[4128] = \x7b" := by
    rw [← hcount]
    simp only [String.append_assoc]
  rw [cLines, hopening]
  rfl

theorem rustLines_eq (table : Table) (symbol : String) :
    table.rustLines symbol = (rustFrame symbol).lines table.arrayLines := by
  have hcount : ": [u8; " ++ toString cellCount ++ "] = [" = ": [u8; 4128] = [" := by decide
  have hopening : "pub static " ++ symbol ++ ": [u8; " ++ toString cellCount ++ "] = [" =
      "pub static " ++ symbol ++ ": [u8; 4128] = [" := by
    rw [← hcount]
    simp only [String.append_assoc]
  rw [rustLines, hopening]
  simp [rustFrame, Frame.lines]

theorem isPlain_cFrame {symbol : String} (h : '\n' ∉ symbol.toList) :
    (cFrame symbol).IsPlain := by
  intro line hline
  simp only [cFrame, Frame.lines, List.mem_append, List.mem_cons, List.not_mem_nil,
    or_false] at hline
  rcases hline with ((rfl | rfl | rfl) | rfl) | rfl
  · exact ⟨by decide, by decide⟩
  · exact ⟨by decide, by decide⟩
  · exact ⟨by decide, by decide⟩
  · rw [String.append_assoc]
    refine IsPlainLine.append ⟨by decide, by decide⟩ (by decide) ?_
    rw [String.toList_append, List.mem_append, not_or]
    exact ⟨h, by decide⟩
  · exact ⟨by decide, by decide⟩

theorem isPlainLine_constantLine (op : MicroOp) : IsPlainLine (constantLine op) := by
  have hcode : '\n' ∉ (toString op.code.toNat).toList := by
    have hall : ∀ op ∈ MicroOp.all, '\n' ∉ (toString op.code.toNat).toList := by decide +kernel
    exact hall op op.mem_all
  simp only [constantLine, String.append_assoc]
  refine IsPlainLine.append ⟨by decide, by decide⟩ (by decide) ?_
  simp only [String.toList_append, List.mem_append, not_or]
  exact ⟨op.name_shape.2.1, by decide, hcode, by decide⟩

theorem isPlain_rustFrame {symbol : String} (h : '\n' ∉ symbol.toList) :
    (rustFrame symbol).IsPlain := by
  intro line hline
  simp only [rustFrame, Frame.lines, List.mem_append, List.mem_cons, List.not_mem_nil,
    or_false, List.mem_map] at hline
  rcases hline with (((((rfl | rfl) | ⟨op, _, rfl⟩) | rfl | rfl)) | rfl) | rfl
  · exact ⟨by decide, by decide⟩
  · exact ⟨by decide, by decide⟩
  · exact isPlainLine_constantLine op
  · exact ⟨by decide, by decide⟩
  · exact ⟨by decide, by decide⟩
  · rw [String.append_assoc]
    refine IsPlainLine.append ⟨by decide, by decide⟩ (by decide) ?_
    rw [String.toList_append, List.mem_append, not_or]
    exact ⟨h, by decide⟩
  · exact ⟨by decide, by decide⟩

theorem filter_rustFrame_lines (table : Table) (symbol : String) (op : MicroOp) :
    ((rustFrame symbol).lines table.arrayLines ++ [""]).filter
        (begins (definitionStart op.name)) = [constantLine op] := by
  -- No line but those of the constants begins like a definition.
  have hother : ∀ line, begins "pub const " line = false →
      begins (definitionStart op.name) line = false := by
    intro line hline
    rw [definitionStart, String.append_assoc]
    exact begins_append_left_eq_false hline _
  have harray : table.arrayLines.filter (begins (definitionStart op.name)) = [] := by
    rw [List.filter_eq_nil_iff]
    intro line hline
    rcases List.mem_flatten.mp hline with ⟨lines, hlines, hmem⟩
    rcases List.mem_mapIdx.mp hlines with ⟨id, _, rfl⟩
    have hline : begins "pub const " line = false := by
      rcases List.mem_cons.mp hmem with rfl | hcell
      · exact begins_append_eq_false (by decide) (by decide) _
      · rcases List.mem_map.mp hcell with ⟨cell, _, rfl⟩
        rw [cellLine, String.append_assoc]
        exact begins_append_eq_false (by decide) (by decide) _
    rw [hother line hline]
    exact Bool.false_ne_true
  have hopening : begins (definitionStart op.name) (rustFrame symbol).opening = false := by
    apply hother
    rw [rustFrame, String.append_assoc]
    exact begins_append_eq_false (by decide) (by decide) _
  have hnotice := hother noticeLine (by decide)
  have hempty := hother "" (by decide)
  have hskip := hother "#[rustfmt::skip]" (by decide)
  have hclosing := hother "];" (by decide)
  simp only [Frame.lines, List.filter_append, List.filter_cons, hopening, harray]
  simp only [rustFrame, List.filter_append, List.filter_cons, List.filter_nil,
    filter_constantLines, hnotice, hempty, hskip, hclosing]
  simp

def cellLines (lines : List String) : List String :=
  lines.filter (begins cellStart)

/--
The lines of a source text show the bytes of a table: in the frame stand, for each id, the
comment that gives its descriptor and then its cells, and the cells are named by the
micro-ops of the bytes, with a comma behind all but the last.
-/
structure Shows (lines : List String) (frame : Frame) (list : List Descriptor)
    (bytes : Bytes) : Prop where
  comments : list.length = 258
  count : (cellLines lines).length = 4128
  cell : ∀ i, i < 4128 → ∃ op : MicroOp, bytes[i]? = some op.code ∧
    (cellLines lines)[i]? = some ("    " ++ op.name ++ if i = 4127 then "" else ",")
  layout : lines =
    frame.lines
      (list.mapIdx fun id d => commentedLines (cellLines lines) id d.text).flatten ++ [""]

theorem shows_of_isPlain (hloaded : Descriptor.IsLoaded list) (h : ofDescriptors list = .ok table)
    {frame : Frame} (hplain : frame.IsPlain) :
    Shows (textLines (unlines (frame.lines table.arrayLines))) frame list table.toBytes := by
  have hlines := Frame.textLines_lines hplain (newline_not_mem_arrayLines hloaded h)
  have hcells : cellLines (textLines (unlines (frame.lines table.arrayLines))) =
      table.cells.map cellLine := by
    rw [cellLines, hlines, Frame.filter_lines hplain, filter_arrayLines]
  rcases cellLines_of_ofDescriptors h with ⟨hcount, hcell⟩
  constructor
  · exact length_of_ofDescriptors h
  · rw [hcells]
    exact hcount
  · rw [hcells]
    exact hcell
  · rw [hcells, hlines, arrayLines_eq h]

/--
The source of a table from a list that was loaded, read line by line, shows the bytes of the
table in either language, and the constants behind which it stands in the one that defines
them have the values of those bytes.
-/
theorem source_of_isLoaded (hloaded : Descriptor.IsLoaded list)
    (h : ofDescriptors list = .ok table) {symbol : Option String}
    (hsymbol : ∀ name, symbol = some name → '\n' ∉ name.toList) :
    (∃ text, table.encode .c symbol = .ok (utf8 text) ∧
      Shows (textLines text) (cFrame (symbol.getD "opcodeTable")) list table.toBytes) ∧
    (∃ text, table.encode .rust symbol = .ok (utf8 text) ∧
      Shows (textLines text) (rustFrame (symbol.getD "OPCODE_TABLE")) list table.toBytes ∧
      ∀ op : MicroOp, (textLines text).filter (begins (definitionStart op.name)) =
        [definitionStart op.name ++ toString op.code.toNat ++ ";"]) := by
  have hname : ∀ usual : String, '\n' ∉ usual.toList → '\n' ∉ (symbol.getD usual).toList := by
    intro usual husual
    cases hs : symbol with
    | none => exact husual
    | some name => exact hsymbol name hs
  have hc := isPlain_cFrame (hname "opcodeTable" (by decide))
  have hrust := isPlain_rustFrame (hname "OPCODE_TABLE" (by decide))
  constructor
  · refine ⟨_, rfl, ?_⟩
    rw [cLines_eq]
    exact shows_of_isPlain hloaded h hc
  · refine ⟨_, rfl, ?_⟩
    rw [rustLines_eq]
    refine ⟨shows_of_isPlain hloaded h hrust, ?_⟩
    intro op
    rw [Frame.textLines_lines hrust (newline_not_mem_arrayLines hloaded h),
      filter_rustFrame_lines]
    rfl

theorem source_standard :
    ∃ table text, ofDescriptors Descriptor.standard = .ok table ∧
      table.encode .rust (some "TABLE") = .ok (utf8 text) ∧
      (cellLines (textLines text)).length = 4128 ∧
      (textLines text).filter (begins "pub const CPU_OP_RD_TMP: u8 = ") =
        ["pub const CPU_OP_RD_TMP: u8 = 1;"] := by
  rcases exists_ofDescriptors_standard with ⟨table, h⟩
  have hsymbol : ∀ name, some "TABLE" = some name → '\n' ∉ name.toList := by
    intro name hname
    cases hname
    decide
  rcases (source_of_isLoaded (Or.inl rfl) h hsymbol).2 with ⟨text, hencode, hshows, hconstants⟩
  exact ⟨table, text, h, hencode, hshows.count, hconstants .rdTmp⟩

end Table

end CycleTable

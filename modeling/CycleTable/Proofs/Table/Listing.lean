import CycleTable.Proofs.Descriptor.Printing
import CycleTable.Proofs.Table.Source
import CycleTable.Proofs.Text.Lines

/-!
# Listings read back

The views of a table that are made for a reader tell what the table holds. A listing gives the
micro-ops of each entry behind the last gap of a line, whatever text stands in front of it. The view
of one entry gives its cells, which are found in the table and not in the entry.
-/

namespace CycleTable

open Text

namespace MicroOp

theorem toList_name (op : MicroOp) :
    op.name.toList = nameStem.toList ++ op.shortName.toList := by
  have hstem := op.name_shape.1
  unfold begins at hstem
  obtain ⟨rest, hrest⟩ := List.isPrefixOf_iff_prefix.mp hstem
  rw [shortName, String.toList_ofList, ← hrest, ← String.length_toList, List.drop_left]

theorem nameStem_append_shortName (op : MicroOp) : nameStem ++ op.shortName = op.name := by
  rw [← String.toList_inj, String.toList_append, op.toList_name]

theorem isField_shortName (op : MicroOp) : IsField op.shortName.toList := by
  have hall : ∀ op ∈ all, IsField op.shortName.toList := by decide +kernel
  exact hall op op.mem_all

theorem isField_name (op : MicroOp) : IsField op.name.toList := by
  have hstem : ' ' ∉ nameStem.toList := by decide
  rw [toList_name]
  constructor
  · exact List.append_ne_nil_of_right_ne_nil _ op.isField_shortName.nonempty
  · rw [List.mem_append, not_or]
    exact ⟨hstem, op.isField_shortName.kept⟩

theorem newline_not_mem_shortName (op : MicroOp) : '\n' ∉ op.shortName.toList := by
  have hname := op.name_shape.2.1
  rw [toList_name, List.mem_append, not_or] at hname
  exact hname.2

end MicroOp

namespace Table

variable {list : List Descriptor} {table : Table} {entry : Entry} {code : Microcode} {id : Nat}

/-- Behind its last gap a line names the micro-ops of some microcode, and in front of it their
number. -/
def Lists (line : String) (code : Microcode) : Prop :=
  ∃ front back, IsLastGap line.toList front back ∧
    (∃ before, front = before ++ ' ' :: (toString code.length).toList) ∧
      (back.splitOn ' ').map (fun name => MicroOp.nameStem ++ String.ofList name) =
        code.map MicroOp.name

theorem toList_shortNames (code : Microcode) :
    (shortNames code).toList = [' '].intercalate (code.map fun op => op.shortName.toList) := by
  rw [shortNames, Microcode.listed, String.toList_intercalate, List.map_map]
  rfl

theorem isTight_shortNames (hne : code ≠ []) : IsTight (' ' :: (shortNames code).toList) := by
  have hfields : ∀ word ∈ code.map fun op => op.shortName.toList, IsField word := by
    intro word hword
    obtain ⟨op, _, rfl⟩ := List.mem_map.mp hword
    exact op.isField_shortName
  rw [toList_shortNames, space_cons_intercalate (by simpa using hne)]
  exact isTight_flatMap hfields

theorem splitOn_shortNames (hne : code ≠ []) :
    ((shortNames code).toList.splitOn ' ').map
      (fun name => MicroOp.nameStem ++ String.ofList name) = code.map MicroOp.name := by
  have hkept : ∀ word ∈ code.map fun op => op.shortName.toList, ' ' ∉ word := by
    intro word hword
    obtain ⟨op, _, rfl⟩ := List.mem_map.mp hword
    exact op.isField_shortName.kept
  rw [toList_shortNames, List.splitOn_intercalate ' ' hkept (by simpa using hne), List.map_map]
  apply List.map_congr_left
  intro op _
  rw [Function.comp_apply, String.ofList_toList, op.nameStem_append_shortName]

theorem lists_listingLine (hne : entry.microcode ≠ []) :
    Lists (listingLine entry) entry.microcode := by
  have hspace : " ".toList = [' '] := rfl
  have hspaces : "  ".toList = [' ', ' '] := rfl
  obtain ⟨before, hbefore⟩ : ∃ before : List Char, (listingLine entry).toList =
      (before ++ ' ' :: (toString entry.microcode.length).toList) ++
        ' ' :: ' ' :: (shortNames entry.microcode).toList := by
    refine ⟨"$".toList ++ hex 3 entry.descriptor.id ++ "  ".toList ++
      padRight 12 entry.descriptor.text.toList ++
      List.replicate (2 - (toString entry.microcode.length).toList.length) ' ', ?_⟩
    -- a wide number is not padded, but the space in front of its column is still there
    have hcount := space_cons_padLeft 2 (toString entry.microcode.length).toList
    rw [List.append_assoc _ (List.replicate _ ' '), ← hcount]
    simp only [listingLine, String.toList_append, String.toList_ofList, hspace, hspaces,
      List.append_assoc, List.cons_append, List.nil_append]
  refine ⟨_, _, ?_, ⟨before, rfl⟩, splitOn_shortNames hne⟩
  rw [hbefore]
  exact isLastGap_of_isTight _ (isTight_shortNames hne)

theorem newline_not_mem_hex (width number : Nat) : '\n' ∉ hex width number := by
  have hdigits := (Descriptor.isNumeral_hex width number).isHexDigit (by decide) (by decide)
  intro hmem
  exact ne_of_test (hdigits _ hmem) not_isHexDigit_newline rfl

theorem newline_not_mem_shortNames (code : Microcode) : '\n' ∉ (shortNames code).toList := by
  intro hmem
  have hne : code ≠ [] := by
    rintro rfl
    cases hmem
  have hspaced := List.mem_cons_of_mem ' ' hmem
  rw [toList_shortNames, space_cons_intercalate (by simpa using hne), List.mem_flatMap] at hspaced
  obtain ⟨word, hword, hnewline⟩ := hspaced
  obtain ⟨op, _, rfl⟩ := List.mem_map.mp hword
  obtain hspace | hname := List.mem_cons.mp hnewline
  · cases hspace
  · exact op.newline_not_mem_shortName hname

theorem newline_not_mem_listingLine (htext : '\n' ∉ entry.descriptor.text.toList) :
    '\n' ∉ (listingLine entry).toList := by
  have hcount : '\n' ∉ (toString entry.microcode.length).toList := not_mem_toString rfl _
  simp only [listingLine, String.toList_append, String.toList_ofList, List.mem_append, not_or]
  exact ⟨⟨⟨⟨⟨⟨⟨by decide, newline_not_mem_hex 3 _⟩, by decide⟩,
    not_mem_padRight (by decide) htext 12⟩, by decide⟩,
    not_mem_padLeft (by decide) hcount 2⟩, by decide⟩,
    newline_not_mem_shortNames _⟩

theorem exists_block_eq (hentry : table.entries[id]? = some entry) (hbuilt : entry.IsBuilt) :
    ∃ padding, block table.cells id = entry.microcode.map .step ++ padding ∧
      entry.microcode.length + padding.length = cellsPerEntry ∧
        ∀ cell ∈ padding, cell.isPadding = true := by
  obtain ⟨padding, hcells, hsize, hpadding⟩ :=
    entryCells?_of_getElem? hentry hbuilt.length_microcode_lt
  rw [entryCells?, entry?, hentry] at hcells
  exact ⟨padding, Option.some.inj hcells, hsize, hpadding⟩

theorem code_of_isPadding {cell : Cell} (h : cell.isPadding = true) : cell.code = 0 := by
  cases cell with
  | step op => cases h
  | fill | terminal => rfl

theorem take_drop_toBytes (hentry : table.entries[id]? = some entry) (hbuilt : entry.IsBuilt) :
    (table.toBytes.drop (id * cellsPerEntry)).take cellsPerEntry =
      entry.microcode.map MicroOp.code ++
        List.replicate (cellsPerEntry - entry.microcode.length) 0 := by
  obtain ⟨padding, hblock, hsize, hpadding⟩ := exists_block_eq hentry hbuilt
  have hzeros : padding.map Cell.code =
      List.replicate (cellsPerEntry - entry.microcode.length) 0 := by
    rw [List.eq_replicate_iff, List.length_map]
    refine ⟨by omega, ?_⟩
    intro byte hbyte
    obtain ⟨cell, hcell, rfl⟩ := List.mem_map.mp hbyte
    exact code_of_isPadding (hpadding cell hcell)
  rw [toBytes, ← List.map_drop, ← List.map_take]
  show (block table.cells id).map Cell.code = _
  rw [hblock, List.map_append, List.map_map, hzeros]
  rfl

/-- Writing that goes line by line. What is written before a fault stays written. -/
abbrev Output := EStateM Fault (List String) Unit

namespace Output

def writeLine (line : String) : Output :=
  modify fun written => written ++ [line]

theorem bind_eq_of_ok {work : Output} {more : Unit → Output} {written next : List String}
    (h : work written = .ok () next) : (work >>= more) written = more () next := by
  simp only [bind, EStateM.bind, h]

theorem writeLine_eq (line : String) (written : List String) :
    writeLine line written = .ok () (written ++ [line]) := rfl

theorem forM_writeLine (lines written : List String) :
    lines.forM writeLine written = .ok () (written ++ lines) := by
  induction lines generalizing written with
  | nil =>
      rw [List.append_nil]
      rfl
  | cons line rest ih =>
      have hrest := ih (written ++ [line])
      rw [List.append_assoc] at hrest
      exact hrest

end Output

open Output (writeLine)

/-- The lines of one entry as they are written, one after the other. The entry and its cells are
looked up apart. -/
def writeEntry (table : Table) (id : Nat) : Output :=
  match table.entry? id with
  | none => throw (.noEntry id)
  | some entry => do
      writeLine (Fault.numbered "0x" id ++ ": " ++ entry.descriptor.text ++ " (" ++
        entry.instruction.mode.name ++ ")")
      (entranceLines id).forM writeLine
      (((table.entryCells? id).getD []).mapIdx stepLine).forM writeLine

theorem writeEntry_eq (table : Table) (id : Nat) (written : List String) :
    writeEntry table id written =
      match table.entryLines id with
      | .ok lines => .ok () (written ++ lines)
      | .error fault => .error fault written := by
  unfold writeEntry entryLines
  cases hentry : table.entry? id with
  | none => rfl
  | some entry =>
      have hcells : (table.entryCells? id).getD [] = block table.cells id := by
        rw [entryCells?, hentry]
        rfl
      dsimp only
      rw [hcells, Output.bind_eq_of_ok (Output.writeLine_eq _ _),
        Output.bind_eq_of_ok (Output.forM_writeLine _ _), Output.forM_writeLine]
      simp only [List.append_assoc]

theorem words_append_cellNote {name : List Char} (h : IsField name) (cell : Cell) :
    words (name ++ (cellNote cell).toList) = name :: words (cellNote cell).toList := by
  cases cell with
  | step op =>
      have hnote : (cellNote (.step op)).toList = [] := rfl
      rw [hnote, List.append_nil, h.words_eq]
      rfl
  | fill =>
      have hnote : (cellNote .fill).toList = ' ' :: "(fill)".toList := rfl
      rw [hnote, words_append_space, words_space_cons, h.words_eq]
      rfl
  | terminal =>
      have hnote : (cellNote .terminal).toList = ' ' :: "(end of table)".toList := rfl
      rw [hnote, words_append_space, words_space_cons, h.words_eq]
      rfl

theorem words_stepLine (step : Nat) (cell : Cell) :
    words (stepLine step cell).toList =
      [(toString step).toList, (toString cell.code.toNat).toList, cell.microOp.name.toList] ++
        words (cellNote cell).toList := by
  have hspaces : "  ".toList = [' ', ' '] := rfl
  simp only [stepLine, MicroOp.display_plain, String.toList_append, String.toList_ofList, hspaces,
    List.append_assoc, List.cons_append, List.nil_append, words_space_cons, words_append_space,
    words_append_cellNote cell.microOp.isField_name, (isField_toString step).words_padLeft,
    (isField_toString cell.code.toNat).words_padLeft]

/-- What stands behind a cell that microcode leaves to a fetch. -/
def mark (code : Microcode) (id step : Nat) : List String :=
  if step < code.length then []
  else if id * cellsPerEntry + step = 4127 then ["(end", "of", "table)"]
  else ["(fill)"]

/-- Lines that give the cells of an entry in order, each by its step, its code and the name of that
code, with those marked that are padding. -/
structure ShowsCells (lines : List String) (table : Table) (id : Nat) (code : Microcode) :
    Prop where
  count : lines.length = cellsPerEntry
  step : ∀ step, step < cellsPerEntry → ∃ (op : MicroOp) (line : String),
    table.toBytes[id * cellsPerEntry + step]? = some op.code ∧ lines[step]? = some line ∧
      (words line.toList).map String.ofList =
        [toString step, toString op.code.toNat, op.name] ++ mark code id step

theorem getElem?_block (cells : List Cell) {step : Nat} (h : step < cellsPerEntry) :
    (block cells id)[step]? = cells[id * cellsPerEntry + step]? := by
  rw [block, List.getElem?_take_of_lt h, List.getElem?_drop]

theorem words_cellNote_eq_mark (h : ofDescriptors list = .ok table)
    (hentry : table.entries[id]? = some entry) (hbuilt : entry.IsBuilt) {step : Nat}
    (hstep : step < cellsPerEntry) {cell : Cell}
    (hcell : (block table.cells id)[step]? = some cell) :
    (words (cellNote cell).toList).map String.ofList = mark entry.microcode id step := by
  have hterminal := getElem?_cells_eq_terminal_iff h (id * cellsPerEntry + step)
  rw [← getElem?_block _ hstep, hcell, Option.some.injEq, cellCount_eq] at hterminal
  obtain ⟨padding, hblock, _, hpadding⟩ := exists_block_eq hentry hbuilt
  rw [hblock] at hcell
  unfold mark
  by_cases hlt : step < entry.microcode.length
  · rw [if_pos hlt]
    rw [List.getElem?_append_left (by rwa [List.length_map]), List.getElem?_map] at hcell
    obtain ⟨op, _, rfl⟩ := Option.map_eq_some_iff.mp hcell
    rfl
  · rw [if_neg hlt]
    rw [List.getElem?_append_right (by rw [List.length_map]; omega)] at hcell
    have hpadded := hpadding cell (List.mem_of_getElem? hcell)
    cases cell with
    | step op => cases hpadded
    | fill =>
        rw [if_neg (fun hlast => by simpa using hterminal.mpr (by omega))]
        rfl
    | terminal =>
        rw [if_pos (by have hlast := hterminal.mp rfl; omega)]
        rfl

theorem showsCells_stepLines (h : ofDescriptors list = .ok table)
    (hentry : table.entries[id]? = some entry) (hbuilt : entry.IsBuilt) :
    ShowsCells ((block table.cells id).mapIdx stepLine) table id entry.microcode := by
  obtain ⟨padding, hblock, hsize, _⟩ := exists_block_eq hentry hbuilt
  have hlength : (block table.cells id).length = cellsPerEntry := by
    rw [hblock, List.length_append, List.length_map, hsize]
  constructor
  · rw [List.length_mapIdx, hlength]
  · intro step hstep
    have hcell := List.getElem?_eq_getElem (hlength ▸ hstep)
    generalize (block table.cells id)[step] = cell at hcell
    refine ⟨cell.microOp, stepLine step cell, ?_, ?_, ?_⟩
    · rw [toBytes, List.getElem?_map, ← getElem?_block _ hstep, hcell]
      rfl
    · rw [List.getElem?_mapIdx, hcell]
      rfl
    · rw [words_stepLine, List.map_append, words_cellNote_eq_mark h hentry hbuilt hstep hcell]
      simp only [List.map_cons, List.map_nil, String.ofList_toList]
      rfl

theorem newline_not_mem_text (hloaded : Descriptor.IsLoaded list)
    (h : ofDescriptors list = .ok table) (hentry : table.entries[id]? = some entry) :
    '\n' ∉ entry.descriptor.text.toList := by
  have hd : list[id]? = some entry.descriptor := by
    rw [← getElem?_entries h id, hentry]
    rfl
  exact Descriptor.newline_not_mem_of_isLoaded hloaded (List.mem_of_getElem? hd)
    (isBuilt_of_mem h (List.mem_of_getElem? hentry)).instruction

theorem textLines_listing (hloaded : Descriptor.IsLoaded list)
    (h : ofDescriptors list = .ok table) :
    textLines (unlines table.listingLines) = table.listingLines ++ [""] := by
  apply textLines_unlines
  intro line hline
  obtain ⟨entry, hmem, rfl⟩ := List.mem_map.mp hline
  obtain ⟨id, hentry⟩ := List.mem_iff_getElem?.mp hmem
  exact newline_not_mem_listingLine (newline_not_mem_text hloaded h hentry)

theorem newline_not_mem_stepLine (step : Nat) (cell : Cell) :
    '\n' ∉ (stepLine step cell).toList := by
  have hstep : '\n' ∉ (toString step).toList := not_mem_toString rfl step
  have hcode : '\n' ∉ (toString cell.code.toNat).toList := not_mem_toString rfl _
  have hnote : '\n' ∉ (cellNote cell).toList := by
    cases cell with
    | step op => exact List.not_mem_nil
    | fill | terminal => decide
  simp only [stepLine, MicroOp.display_plain, String.toList_append, String.toList_ofList,
    List.mem_append, not_or]
  exact ⟨⟨⟨⟨⟨⟨by decide, not_mem_padLeft (by decide) hstep 2⟩, by decide⟩,
    not_mem_padLeft (by decide) hcode 3⟩, by decide⟩, cell.microOp.name_shape.2.1⟩, hnote⟩

def headerLines (entry : Entry) (id : Nat) : List String :=
  (Fault.numbered "0x" id ++ ": " ++ entry.descriptor.text ++ " (" ++
    entry.instruction.mode.name ++ ")") :: entranceLines id

theorem length_headerLines (entry : Entry) (hid : id ≤ resetId) :
    (headerLines entry id).length = if id < opcodeCount then 1 else 2 := by
  have hids : id < opcodeCount ∨ id = interruptId ∨ id = resetId := by
    unfold opcodeCount interruptId resetId at *
    omega
  obtain hlt | rfl | rfl := hids
  · have hinterrupt : id ≠ interruptId := Nat.ne_of_lt hlt
    have hreset : id ≠ resetId := Nat.ne_of_lt (Nat.lt_trans hlt (by decide))
    rw [headerLines, entranceLines, if_neg hinterrupt, if_neg hreset, if_pos hlt]
    rfl
  · rfl
  · rfl

theorem entryLines_eq (hentry : table.entries[id]? = some entry) :
    table.entryLines id =
      .ok (headerLines entry id ++ (block table.cells id).mapIdx stepLine) := by
  rw [entryLines, entry?, hentry]
  rfl

theorem textLines_entry (hid : id < entryCount) (htext : '\n' ∉ entry.descriptor.text.toList)
    (cells : List Cell) :
    textLines (unlines (headerLines entry id ++ cells.mapIdx stepLine)) =
      headerLines entry id ++ cells.mapIdx stepLine ++ [""] := by
  apply textLines_unlines
  intro line hline
  obtain hheader | hcell := List.mem_append.mp hline
  · obtain rfl | hentrance := List.mem_cons.mp hheader
    · have hmode : ∀ mode ∈ Mode.all, '\n' ∉ mode.name.toList := by decide
      simp only [String.toList_append, List.mem_append, not_or]
      exact ⟨⟨⟨⟨⟨newline_not_mem_numbered hid, by decide⟩, htext⟩, by decide⟩,
        hmode _ (Mode.mem_all _)⟩, by decide⟩
    · unfold entranceLines at hentrance
      split at hentrance
      · rw [List.mem_singleton.mp hentrance]
        decide
      · split at hentrance
        · rw [List.mem_singleton.mp hentrance]
          decide
        · cases hentrance
  · obtain ⟨step, _, rfl⟩ := List.mem_mapIdx.mp hcell
    exact newline_not_mem_stepLine step _

theorem entryLines_of_resetId_lt (h : ofDescriptors list = .ok table) (hid : resetId < id) :
    table.entryLines id = .error (.noEntry id) := by
  have hnone : table.entries[id]? = none :=
    List.getElem?_eq_none (by rw [length_entries h]; exact hid)
  rw [entryLines, entry?, hnone]

/--
The views of a table from a list that was loaded tell what the table holds. A listing has a line for
each entry, which names its micro-ops behind the last gap and counts them in front of it, and these
are the bytes of the entry up to zeros. An entry is written with its cells in order, those that are
padding marked; nothing is written if there is no such entry.
-/
theorem views_of_isLoaded (hloaded : Descriptor.IsLoaded list)
    (h : ofDescriptors list = .ok table) (symbol : Option String) :
    (∃ text lines, table.encode .listing symbol = .ok (utf8 text) ∧
      textLines text = lines ++ [""] ∧ lines.length = 258 ∧
      ∀ id, id ≤ resetId → ∃ entry line,
        table.entries[id]? = some entry ∧ list[id]? = some entry.descriptor ∧ entry.IsBuilt ∧
        lines[id]? = some line ∧ Lists line entry.microcode ∧
        (table.toBytes.drop (id * cellsPerEntry)).take cellsPerEntry =
          entry.microcode.map MicroOp.code ++
            List.replicate (cellsPerEntry - entry.microcode.length) 0) ∧
    (∀ id written, id ≤ resetId → ∃ entry header lines,
      table.entries[id]? = some entry ∧ table.entryLines id = .ok (header ++ lines) ∧
      writeEntry table id written = .ok () (written ++ (header ++ lines)) ∧
      textLines (unlines (header ++ lines)) = header ++ lines ++ [""] ∧
      header.length = (if id < opcodeCount then 1 else 2) ∧
      ShowsCells lines table id entry.microcode) ∧
    ∀ id written, resetId < id →
      table.entryLines id = .error (.noEntry id) ∧
        writeEntry table id written = .error (.noEntry id) written := by
  refine ⟨⟨_, table.listingLines, rfl, textLines_listing hloaded h, ?_, ?_⟩, ?_, ?_⟩
  · rw [listingLines, List.length_map, length_entries h]
    rfl
  · intro id hid
    obtain ⟨entry, hentry, hbuilt, hd⟩ := exists_entry h (Nat.lt_succ_of_le hid)
    have hne : entry.microcode ≠ [] := List.ne_nil_of_length_pos hbuilt.length_microcode.1
    refine ⟨entry, listingLine entry, hentry, hd, hbuilt, ?_, lists_listingLine hne,
      take_drop_toBytes hentry hbuilt⟩
    rw [listingLines, List.getElem?_map, hentry]
    rfl
  · intro id written hid
    obtain ⟨entry, hentry, hbuilt, _⟩ := exists_entry h (Nat.lt_succ_of_le hid)
    have hlines := entryLines_eq hentry
    refine ⟨entry, headerLines entry id, (block table.cells id).mapIdx stepLine, hentry, hlines, ?_,
      textLines_entry (Nat.lt_succ_of_le hid) (newline_not_mem_text hloaded h hentry) _,
      length_headerLines entry hid, showsCells_stepLines h hentry hbuilt⟩
    rw [writeEntry_eq, hlines]
  · intro id written hid
    have hnone := entryLines_of_resetId_lt h hid
    refine ⟨hnone, ?_⟩
    rw [writeEntry_eq, hnone]

/-- The last entry of the standard table. -/
theorem views_standard :
    ∃ table text lines, ofDescriptors Descriptor.standard = .ok table ∧
      table.encode .listing none = .ok (utf8 text) ∧ (textLines text).length = 259 ∧
      writeEntry table 0x101 [] = .ok () lines ∧ lines.length = 18 ∧
      writeEntry table 0x102 ["kept"] = .error (.noEntry 0x102) ["kept"] := by
  obtain ⟨table, h⟩ := exists_ofDescriptors_standard
  obtain ⟨⟨text, lines, hencode, htext, hcount, _⟩, hentry, hnone⟩ :=
    views_of_isLoaded (Or.inl rfl) h none
  obtain ⟨entry, header, cells, _, _, hwrite, _, hheader, hshows⟩ :=
    hentry 0x101 [] (Nat.le_refl resetId)
  refine ⟨table, text, header ++ cells, h, hencode, ?_, hwrite, ?_,
    (hnone 0x102 ["kept"] (by decide)).2⟩
  · rw [htext, List.length_append, hcount]
    rfl
  · rw [List.length_append, hheader, hshows.count]
    rfl

end Table

end CycleTable

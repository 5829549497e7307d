import CycleTable.Proofs.Microcode.Cases
import CycleTable.Proofs.Table.Entries

/-!
# The cells of a table, and the walk through them

## Blocks

The cells fall into one block for each entry. A block holds the microcode of its entry and
then padding. Marking the end changes the last block only, and no code in it.
-/

namespace CycleTable

open List (replicate)

namespace Cell

@[simp] theorem code_step (op : MicroOp) : (step op).code = op.code := rfl

@[simp] theorem code_fill : fill.code = 0 := rfl

@[simp] theorem code_terminal : terminal.code = 0 := rfl

end Cell

namespace Microcode

def padded (code : Microcode) : List MicroOp :=
  code ++ replicate (cellsPerEntry - code.length) .rdOpcode

theorem length_padded {code : Microcode} (hlen : code.length ≤ cellsPerEntry) :
    code.padded.length = cellsPerEntry := by
  rw [padded, List.length_append, List.length_replicate]
  omega

theorem takeWhile_padded {code : Microcode} (h : code.FetchFree) :
    code.padded.takeWhile (fun op => op != .rdOpcode) = code := by
  have hcode : ∀ op ∈ code, (op != .rdOpcode) = true := by
    intro op hop
    rw [bne_iff_ne]
    exact fun heq => h (heq ▸ hop)
  rw [padded, List.takeWhile_append_of_pos hcode, List.takeWhile_replicate, if_neg (by decide),
    List.append_nil]

/-- Padding hides nothing, since no fetch stands before it. -/
theorem eq_of_padded_eq {code other : Microcode} (h : code.FetchFree) (h' : other.FetchFree)
    (heq : code.padded = other.padded) : code = other := by
  rw [← takeWhile_padded h, heq, takeWhile_padded h']

end Microcode

namespace Entry

def padding (entry : Entry) : List Cell :=
  replicate (cellsPerEntry - entry.microcode.length) .fill

theorem exists_padding_eq {entry : Entry} (hshort : entry.microcode.length < cellsPerEntry) :
    ∃ n, entry.padding = replicate (n + 1) .fill := by
  refine ⟨cellsPerEntry - entry.microcode.length - 1, ?_⟩
  rw [padding, Nat.sub_add_cancel (by omega)]

theorem cells_eq (entry : Entry) (hlen : entry.microcode.length ≤ cellsPerEntry) :
    entry.cells = entry.microcode.map .step ++ entry.padding := by
  unfold cells padding
  rw [List.take_append, List.length_map, List.take_of_length_le (by rwa [List.length_map]),
    List.take_replicate]
  congr 2
  omega

theorem map_microOp_cells {entry : Entry} (hlen : entry.microcode.length ≤ cellsPerEntry) :
    entry.cells.map Cell.microOp = entry.microcode.padded := by
  rw [entry.cells_eq hlen, padding, Microcode.padded, List.map_append, List.map_replicate,
    List.map_map]
  congr 1
  exact List.map_id _

theorem terminal_not_mem_cells (entry : Entry) : Cell.terminal ∉ entry.cells := by
  intro hmem
  have hmem := List.mem_of_mem_take hmem
  simp at hmem

end Entry

namespace Table

theorem map_microOp_markEnd (cells : List Cell) :
    (markEnd cells).map Cell.microOp = cells.map Cell.microOp := by
  unfold markEnd
  split
  · next hlast =>
    obtain ⟨front, rfl⟩ := List.getLast?_eq_some_iff.mp hlast
    rw [List.dropLast_concat, List.map_append, List.map_append]
    rfl
  · rfl

theorem markEnd_append (front : List Cell) {back : List Cell} (hback : back ≠ []) :
    markEnd (front ++ back) = front ++ markEnd back := by
  unfold markEnd
  rw [List.getLast?_append, List.getLast?_eq_some_getLast hback, Option.some_or]
  split
  · rw [List.dropLast_append_of_ne_nil hback, List.append_assoc]
  · rfl

theorem markEnd_replicate_fill (n : Nat) :
    markEnd (replicate (n + 1) .fill) = replicate n .fill ++ [.terminal] := by
  unfold markEnd
  rw [List.replicate_succ', List.getLast?_concat, if_pos rfl, List.dropLast_concat]

theorem getElem?_markEnd_eq_terminal {cells : List Cell} (hfill : cells.getLast? = some .fill)
    (hnone : Cell.terminal ∉ cells) (place : Nat) :
    (markEnd cells)[place]? = some .terminal ↔ place + 1 = cells.length := by
  obtain ⟨front, rfl⟩ := List.getLast?_eq_some_iff.mp hfill
  have hfront : Cell.terminal ∉ front := fun hmem => hnone (List.mem_append_left _ hmem)
  rw [markEnd, if_pos hfill, List.dropLast_concat, List.length_append, List.length_singleton]
  constructor
  · intro hget
    rcases Nat.lt_trichotomy place front.length with hlt | heq | hgt
    · rw [List.getElem?_append_left hlt] at hget
      exact absurd (List.mem_of_getElem? hget) hfront
    · omega
    · rw [List.getElem?_append_right (by omega),
        List.getElem?_eq_none (by simp only [List.length_singleton]; omega)] at hget
      cases hget
  · intro hplace
    obtain rfl : place = front.length := by omega
    exact List.getElem?_concat_length

theorem length_body (table : Table) :
    table.body.length = table.entries.length * cellsPerEntry := by
  rw [← length_cells, cells, length_markEnd]

theorem body_eq_append {table : Table} {id : Nat} {entry : Entry}
    (hentry : table.entries[id]? = some entry) :
    ∃ front back, table.body = front ++ (entry.cells ++ back) ∧
      front.length = id * cellsPerEntry ∧
      (id + 1 = table.entries.length → back = []) ∧
      (id + 1 < table.entries.length → back ≠ []) := by
  obtain ⟨hlt, hget⟩ := List.getElem?_eq_some_iff.mp hentry
  refine ⟨(table.entries.take id).flatMap Entry.cells,
    (table.entries.drop (id + 1)).flatMap Entry.cells, ?_, ?_, ?_, ?_⟩
  · rw [← hget, ← List.flatMap_cons, List.getElem_cons_drop, ← List.flatMap_append,
      List.take_append_drop]
    rfl
  · rw [List.length_flatMap]
    simp only [Entry.length_cells, List.map_const', List.sum_replicate_nat, List.length_take]
    rw [Nat.min_eq_left (Nat.le_of_lt hlt)]
  · intro hlast
    rw [List.drop_of_length_le (by omega)]
    rfl
  · intro hmore hback
    have hlen := congrArg List.length hback
    rw [List.length_flatMap] at hlen
    simp only [Entry.length_cells, List.map_const', List.sum_replicate_nat,
      List.length_drop, List.length_nil, cellsPerEntry] at hlen
    omega

theorem block_append {front cells back : List Cell} {id : Nat}
    (hfront : front.length = id * cellsPerEntry) (hcells : cells.length = cellsPerEntry) :
    block (front ++ (cells ++ back)) id = cells := by
  rw [block, List.drop_append_of_le_length (by omega), ← hfront, List.drop_length,
    List.nil_append, List.take_append_of_le_length (by omega), ← hcells, List.take_length]

theorem block_cells_of_lt {table : Table} {id : Nat} {entry : Entry}
    (hentry : table.entries[id]? = some entry) (hid : id + 1 < table.entries.length) :
    block table.cells id = entry.cells := by
  obtain ⟨front, back, hbody, hfront, -, hback⟩ := body_eq_append hentry
  rw [cells, hbody, ← List.append_assoc, markEnd_append _ (hback hid), List.append_assoc,
    block_append hfront entry.length_cells]

theorem block_cells_of_last {table : Table} {id : Nat} {entry : Entry}
    (hentry : table.entries[id]? = some entry) (hid : id + 1 = table.entries.length) :
    block table.cells id = markEnd entry.cells := by
  obtain ⟨front, back, hbody, hfront, hback, -⟩ := body_eq_append hentry
  have hcells : entry.cells ≠ [] :=
    List.ne_nil_of_length_pos (by rw [entry.length_cells]; decide)
  rw [cells, hbody, hback hid, List.append_nil, markEnd_append _ hcells]
  have hlen : (markEnd entry.cells).length = cellsPerEntry := by
    rw [length_markEnd, entry.length_cells]
  have hblock := @block_append front (markEnd entry.cells) [] id hfront hlen
  rwa [List.append_nil] at hblock

theorem toBytes_eq_map_microOp (table : Table) :
    table.toBytes = (table.cells.map Cell.microOp).map MicroOp.code := by
  rw [List.map_map]
  rfl

theorem toBytes_eq (table : Table) : table.toBytes = table.body.map Cell.code := by
  rw [toBytes_eq_map_microOp, cells, map_microOp_markEnd, List.map_map]
  rfl

theorem getElem?_map_microOp {table : Table} {id step : Nat} {entry : Entry}
    (hentry : table.entries[id]? = some entry)
    (hlen : entry.microcode.length ≤ cellsPerEntry) (hstep : step < cellsPerEntry) :
    (table.cells.map Cell.microOp)[id * cellsPerEntry + step]? =
      entry.microcode.padded[step]? := by
  obtain ⟨front, back, hbody, hfront, -, -⟩ := body_eq_append hentry
  rw [cells, map_microOp_markEnd, hbody, List.map_append, List.map_append,
    Entry.map_microOp_cells hlen,
    List.getElem?_append_right (by rw [List.length_map]; omega), List.length_map, hfront,
    Nat.add_sub_cancel_left,
    List.getElem?_append_left (by rw [Microcode.length_padded hlen]; exact hstep)]

end Table

/-!
## The walk

The engine enters a table at the first cell of an entry, takes one cell per clock, and stops
at the first code that fetches the next opcode. In a generated table it meets the codes of
the entry's microcode, all of them and nothing else, and stops before the next entry.
-/

/--
From a place in some bytes the engine takes the given codes, one per clock, and stops at a
place that holds a fetch.
-/
inductive Walk (bytes : Bytes) : (place : Nat) → (codes : Bytes) → (stop : Nat) → Prop
  | fetch {place : Nat} (hcode : bytes[place]? = some 0) : Walk bytes place [] place
  | step {place stop : Nat} {code : UInt8} {codes : Bytes}
      (hcode : bytes[place]? = some code) (hne : code ≠ 0)
      (hrest : Walk bytes (place + 1) codes stop) : Walk bytes place (code :: codes) stop

namespace Walk

variable {bytes codes codes' : Bytes} {place stop stop' : Nat}

theorem unique (h : Walk bytes place codes stop) (h' : Walk bytes place codes' stop') :
    codes = codes' ∧ stop = stop' := by
  induction h generalizing codes' with
  | fetch hcode =>
      cases h' with
      | fetch => exact ⟨rfl, rfl⟩
      | step hcode' hne' =>
          rw [hcode] at hcode'
          exact absurd (Option.some.inj hcode').symm hne'
  | step hcode hne _ ih =>
      cases h' with
      | fetch hcode' =>
          rw [hcode] at hcode'
          exact absurd (Option.some.inj hcode') hne
      | step hcode' _ hrest' =>
          rw [hcode] at hcode'
          obtain ⟨rfl, rfl⟩ := ih hrest'
          exact ⟨by rw [Option.some.inj hcode'], rfl⟩

theorem of_drop_eq {rest : Bytes} (hdrop : bytes.drop place = codes ++ 0 :: rest)
    (hcodes : (0 : UInt8) ∉ codes) : Walk bytes place codes (place + codes.length) := by
  have hhead : (bytes.drop place)[0]? = bytes[place]? := by
    rw [List.getElem?_drop, Nat.add_zero]
  induction codes generalizing place with
  | nil =>
      rw [hdrop] at hhead
      exact .fetch hhead.symm
  | cons code codes ih =>
      rw [hdrop] at hhead
      have hne : code ≠ 0 := fun heq => hcodes (heq ▸ List.mem_cons_self)
      have htail : bytes.drop (place + 1) = codes ++ 0 :: rest := by
        rw [← List.drop_drop, hdrop]
        rfl
      have hrest := ih htail (fun hmem => hcodes (List.mem_cons_of_mem _ hmem))
        (by rw [List.getElem?_drop, Nat.add_zero])
      rw [List.length_cons, Nat.add_comm codes.length, ← Nat.add_assoc]
      exact .step hhead.symm hne hrest

theorem iff_of_drop_eq {rest : Bytes} (hdrop : bytes.drop place = codes ++ 0 :: rest)
    (hcodes : (0 : UInt8) ∉ codes) :
    Walk bytes place codes' stop' ↔ codes' = codes ∧ stop' = place + codes.length := by
  have hwalk := of_drop_eq hdrop hcodes
  constructor
  · intro h
    exact h.unique hwalk
  · rintro ⟨rfl, rfl⟩
    exact hwalk

end Walk

theorem Microcode.zero_not_mem_map_code {code : Microcode} (h : code.FetchFree) :
    (0 : UInt8) ∉ code.map MicroOp.code := by
  intro hmem
  obtain ⟨op, hop, hzero⟩ := List.mem_map.mp hmem
  rw [MicroOp.code_injective (hzero.trans (by rfl : (0 : UInt8) = MicroOp.rdOpcode.code))]
    at hop
  exact h hop

namespace Table

variable {list : List Descriptor} {table : Table}

theorem exists_drop_toBytes_eq {id : Nat} {entry : Entry}
    (hentry : table.entries[id]? = some entry)
    (hshort : entry.microcode.length < cellsPerEntry) :
    ∃ rest, table.toBytes.drop (id * cellsPerEntry) =
      entry.microcode.map MicroOp.code ++ 0 :: rest := by
  obtain ⟨front, back, hbody, hfront, -, -⟩ := body_eq_append hentry
  rcases Entry.exists_padding_eq hshort with ⟨n, hn⟩
  have hcells : entry.cells = entry.microcode.map .step ++ .fill :: List.replicate n .fill := by
    rw [entry.cells_eq (Nat.le_of_lt hshort), hn, List.replicate_succ]
  refine ⟨(List.replicate n Cell.fill ++ back).map Cell.code, ?_⟩
  rw [toBytes_eq, ← List.map_drop, hbody, ← hfront, List.drop_left, hcells]
  simp [Function.comp_def]

theorem entryCells?_of_getElem? {id : Nat} {entry : Entry}
    (hentry : table.entries[id]? = some entry)
    (hshort : entry.microcode.length < cellsPerEntry) :
    ∃ padding, table.entryCells? id = some (entry.microcode.map .step ++ padding) ∧
      entry.microcode.length + padding.length = cellsPerEntry ∧
      ∀ cell ∈ padding, cell.isPadding = true := by
  have hcells := entry.cells_eq (Nat.le_of_lt hshort)
  have hget : table.entryCells? id = some (block table.cells id) := by
    rw [entryCells?, entry?, hentry, Option.map_some]
  rw [hget]
  have hlt := (List.getElem?_eq_some_iff.mp hentry).1
  rcases Nat.lt_or_ge (id + 1) table.entries.length with hmore | hlast
  · refine ⟨entry.padding, ?_, ?_, ?_⟩
    · rw [block_cells_of_lt hentry hmore, hcells]
    · rw [Entry.padding, List.length_replicate]
      omega
    · intro cell hcell
      rw [List.eq_of_mem_replicate hcell]
      rfl
  · rcases Entry.exists_padding_eq hshort with ⟨n, hn⟩
    have hpadding : entry.padding ≠ [] := by
      rw [hn]
      exact List.cons_ne_nil _ _
    refine ⟨markEnd entry.padding, ?_, ?_, ?_⟩
    · rw [block_cells_of_last hentry (by omega), hcells, markEnd_append _ hpadding]
    · rw [length_markEnd, Entry.padding, List.length_replicate]
      omega
    · intro cell hcell
      rw [hn, markEnd_replicate_fill] at hcell
      rcases List.mem_append.mp hcell with hfill | hterminal
      · rw [List.eq_of_mem_replicate hfill]
        rfl
      · rw [List.mem_singleton.mp hterminal]
        rfl

theorem terminal_not_mem_body (table : Table) : Cell.terminal ∉ table.body := by
  intro hmem
  obtain ⟨entry, -, hcell⟩ := List.mem_flatMap.mp hmem
  exact entry.terminal_not_mem_cells hcell

theorem getD_toBytes_ne_zero (h : ofDescriptors list = .ok table) {id : Nat}
    (hid : id < entryCount) : table.toBytes.getD (id * cellsPerEntry) 0 ≠ 0 := by
  rcases exists_entry h hid with ⟨entry, hentry, hbuilt, _⟩
  have hlen := hbuilt.length_microcode
  have hfree := Microcode.zero_not_mem_map_code
    (Instruction.fetchFree_microcode hbuilt.microcode)
  rcases exists_drop_toBytes_eq hentry hbuilt.length_microcode_lt with ⟨rest, hrest⟩
  cases hcode : entry.microcode with
  | nil =>
      rw [hcode] at hlen
      exact absurd hlen.1 (by decide)
  | cons op more =>
      have hhead := congrArg (List.getD · 0 0) hrest
      simp only [List.getD_eq_getElem?_getD, List.getElem?_drop, Nat.add_zero] at hhead
      rw [List.getD_eq_getElem?_getD, hhead, hcode]
      rw [hcode, List.map_cons, List.mem_cons, not_or] at hfree
      exact fun heq => hfree.1 heq.symm

theorem length_cells_of_ofDescriptors (h : ofDescriptors list = .ok table) :
    table.cells.length = cellCount := by
  rw [length_cells, length_entries h]
  rfl

theorem getLast?_body (h : ofDescriptors list = .ok table) :
    table.body.getLast? = some .fill := by
  obtain ⟨entry, hentry, hbuilt, -⟩ := exists_entry h (by decide : resetId < entryCount)
  obtain ⟨front, back, hbody, -, hback, -⟩ := body_eq_append hentry
  have hshort := hbuilt.length_microcode_lt
  rcases Entry.exists_padding_eq hshort with ⟨n, hn⟩
  rw [hbody, hback (by rw [length_entries h]; rfl), List.append_nil,
    entry.cells_eq (Nat.le_of_lt hshort), hn, List.replicate_succ', ← List.append_assoc,
    ← List.append_assoc, List.getLast?_concat]

theorem getElem?_cells_eq_terminal_iff (h : ofDescriptors list = .ok table) (place : Nat) :
    table.cells[place]? = some .terminal ↔ place + 1 = cellCount := by
  rw [cells, getElem?_markEnd_eq_terminal (getLast?_body h) (terminal_not_mem_body table),
    length_body, length_entries h]
  rfl

/--
The layout of a generated table, and what the engine meets in it: every entry's cells are
its microcode and then padding, a walk from its first cell takes exactly the codes of that
microcode and stops within the entry, and only the table's last cell is terminal.
-/
theorem layout_and_walk_of_ofDescriptors (h : ofDescriptors list = .ok table) :
    table.cells.length = entryCount * cellsPerEntry ∧
    (∀ id, id ≤ resetId → ∃ d instruction code padding,
      list[id]? = some d ∧
      Instruction.ofText d.text = .ok instruction ∧
      instruction.microcode = .ok code ∧
      1 ≤ code.length ∧ code.length ≤ 9 ∧ MicroOp.rdOpcode ∉ code ∧
      table.entryCells? id = some (code.map .step ++ padding) ∧
      code.length + padding.length = cellsPerEntry ∧
      (∀ cell ∈ padding, cell.isPadding = true) ∧
      ∀ codes stop, Walk table.toBytes (id * cellsPerEntry) codes stop ↔
        codes = code.map MicroOp.code ∧ stop = id * cellsPerEntry + code.length ∧
          stop < (id + 1) * cellsPerEntry) ∧
    (∀ id, resetId < id → table.entryCells? id = none) ∧
    ∀ place, table.cells[place]? = some .terminal ↔ place = 4127 := by
  refine ⟨length_cells_of_ofDescriptors h, ?_, ?_, ?_⟩
  · intro id hid
    obtain ⟨entry, hentry, hbuilt, hd⟩ := exists_entry h (Nat.lt_succ_of_le hid)
    have hlen := hbuilt.length_microcode
    have hshort := hbuilt.length_microcode_lt
    have hfree := Instruction.fetchFree_microcode hbuilt.microcode
    obtain ⟨padding, hcells, hsize, hpadding⟩ := entryCells?_of_getElem? hentry hshort
    obtain ⟨rest, hrest⟩ := exists_drop_toBytes_eq hentry hshort
    refine ⟨entry.descriptor, entry.instruction, entry.microcode, padding, hd,
      hbuilt.instruction, hbuilt.microcode, hlen.1, hlen.2, hfree, hcells, hsize, hpadding, ?_⟩
    intro codes stop
    rw [Walk.iff_of_drop_eq hrest (Microcode.zero_not_mem_map_code hfree), List.length_map]
    constructor
    · rintro ⟨rfl, rfl⟩
      refine ⟨rfl, rfl, ?_⟩
      rw [Nat.succ_mul]
      omega
    · rintro ⟨hcodes, hstop, -⟩
      exact ⟨hcodes, hstop⟩
  · intro id hid
    rw [entryCells?, entry?, List.getElem?_eq_none, Option.map_none]
    rw [length_entries h]
    exact hid
  · intro place
    rw [getElem?_cells_eq_terminal_iff h, cellCount_eq]
    omega

theorem layout_and_walk_standard :
    ∃ table, ofDescriptors Descriptor.standard = .ok table ∧
      table.cells.length = 4128 ∧
      Walk table.toBytes 0x6C0 [3, 4, 5, 8, 20] 0x6C5 ∧
      table.entryCells? 0x102 = none ∧
      table.cells[4127]? = some .terminal := by
  obtain ⟨table, h⟩ := exists_ofDescriptors_standard
  obtain ⟨hlen, hentries, hnone, hterminal⟩ := layout_and_walk_of_ofDescriptors h
  obtain ⟨d, instruction, code, -, hd, hinstruction, hcode, -, -, -, -, -, -, hwalk⟩ :=
    hentries 0x6C (by decide)
  obtain rfl := Option.some.inj (Descriptor.getElem?_standard_indirectJump.symm.trans hd)
  obtain rfl : ⟨.jmp, .indirectAbsolute⟩ = instruction := Except.ok.inj hinstruction
  obtain rfl : [.rdL, .rdH, .ldTmpMem, .ldHMemP1LTmp, .ldPcHl] = code := Except.ok.inj hcode
  refine ⟨table, h, hlen, (hwalk _ _).mpr ⟨rfl, rfl, ?_⟩, hnone 0x102 (by decide),
    (hterminal 4127).mpr rfl⟩
  decide

end Table

end CycleTable

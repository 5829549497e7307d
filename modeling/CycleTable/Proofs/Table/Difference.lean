import CycleTable.Proofs.Microcode.Cases
import CycleTable.Proofs.Statement
import CycleTable.Proofs.Table.Walk
import CycleTable.Table.Format

/-!
# Differences between tables

A comparison accepts the bytes of the table alone, and of other bytes it reports the first
that differs. Between two generated tables that place is a step of the least id whose
descriptors name different instructions.
-/

namespace CycleTable

namespace Entry

variable {entry other : Entry}

theorem instruction_eq_iff (hbuilt : entry.IsBuilt) (hother : other.IsBuilt) :
    entry.instruction = other.instruction ↔
      entry.microcode.padded = other.microcode.padded := by
  constructor
  · intro heq
    have hmicrocode := hbuilt.microcode
    rw [heq, hother.microcode] at hmicrocode
    rw [Except.ok.inj hmicrocode]
  · intro hpadded
    have hmicrocode := Microcode.eq_of_padded_eq
      (Instruction.fetchFree_microcode hbuilt.microcode)
      (Instruction.fetchFree_microcode hother.microcode) hpadded
    exact Instruction.eq_of_microcode_eq
      (Instruction.isEncodable_of_ofText hbuilt.instruction)
      (Instruction.isEncodable_of_ofText hother.instruction)
      hbuilt.microcode (hmicrocode ▸ hother.microcode)

end Entry

namespace Table

theorem firstDifference?_eq_none_iff {cells : List Cell} {bytes : Bytes}
    (hlen : bytes.length = cells.length) :
    firstDifference? cells bytes = none ↔ cells.map Cell.code = bytes := by
  unfold firstDifference?
  rw [List.find?_eq_none]
  constructor
  · intro hnone
    apply List.ext_getElem (by rw [List.length_map, hlen])
    intro n hcells hbytes
    rw [List.length_map] at hcells
    have hmem : ((cells[n], bytes[n]), n) ∈ (cells.zip bytes).zipIdx := by
      rw [List.mk_mem_zipIdx_iff_getElem?, List.getElem?_zip_eq_some]
      exact ⟨List.getElem?_eq_getElem hcells, List.getElem?_eq_getElem hbytes⟩
    rw [List.getElem_map]
    simpa using hnone _ hmem
  · rintro hmap ⟨⟨cell, byte⟩, n⟩ hmem
    rw [List.mk_mem_zipIdx_iff_getElem?, List.getElem?_zip_eq_some] at hmem
    have hbyte := hmem.2
    rw [← hmap, List.getElem?_map, hmem.1] at hbyte
    simpa using Option.some.inj hbyte

theorem firstDifference?_eq_some {cells : List Cell} {bytes : Bytes} {cell : Cell}
    {byte : UInt8} {place : Nat}
    (h : firstDifference? cells bytes = some ((cell, byte), place)) :
    cells[place]? = some cell ∧ bytes[place]? = some byte ∧ cell.code ≠ byte ∧
      ∀ n, n < place → (cells.map Cell.code)[n]? = bytes[n]? := by
  unfold firstDifference? at h
  obtain ⟨hdiffers, i, hi, hget, hbefore⟩ := List.find?_eq_some_iff_getElem.mp h
  rw [List.length_zipIdx, List.length_zip] at hi
  have hcells : i < cells.length := by omega
  have hbytes : i < bytes.length := by omega
  rw [List.getElem_zipIdx, List.getElem_zip, Nat.zero_add] at hget
  obtain ⟨⟨rfl, rfl⟩, rfl⟩ : (cells[i] = cell ∧ bytes[i] = byte) ∧ i = place := by
    simpa only [Prod.mk.injEq] using hget
  refine ⟨List.getElem?_eq_getElem hcells, List.getElem?_eq_getElem hbytes,
    by simpa using hdiffers, ?_⟩
  intro n hn
  have hsame := hbefore n hn
  rw [List.getElem_zipIdx, List.getElem_zip] at hsame
  rw [List.getElem?_map, List.getElem?_eq_getElem (Nat.lt_trans hn hcells),
    List.getElem?_eq_getElem (Nat.lt_trans hn hbytes), Option.map_some]
  simpa using hsame

variable {table other : Table} {bytes : Bytes}

theorem compare_eq_ok_iff : table.compare bytes = .ok () ↔ table.toBytes = bytes := by
  by_cases hlen : bytes.length = table.cells.length
  · have hnone := firstDifference?_eq_none_iff hlen
    rw [toBytes, ← hnone]
    cases hfound : firstDifference? table.cells bytes with
    | none => simp [compare, hlen, hfound]
    | some found => simp [compare, hlen, hfound]
  · have hne : table.toBytes ≠ bytes := by
      intro heq
      rw [← heq, toBytes, List.length_map] at hlen
      exact hlen rfl
    simp [compare, hlen, hne]

theorem exists_compare_eq_error (hlen : bytes.length = table.cells.length)
    (hne : table.toBytes ≠ bytes) :
    ∃ id step cell byte, step < cellsPerEntry ∧
      table.compare bytes = .error (.differs id step cell.microOp byte) ∧
      table.cells[id * cellsPerEntry + step]? = some cell ∧
      bytes[id * cellsPerEntry + step]? = some byte ∧ cell.code ≠ byte ∧
      ∀ n, n < id * cellsPerEntry + step → table.toBytes[n]? = bytes[n]? := by
  cases hfound : firstDifference? table.cells bytes with
  | none => exact absurd ((firstDifference?_eq_none_iff hlen).mp hfound) hne
  | some found =>
      obtain ⟨⟨cell, byte⟩, place⟩ := found
      obtain ⟨hcell, hbyte, hdiffers, hbefore⟩ := firstDifference?_eq_some hfound
      rw [← Nat.div_add_mod' place cellsPerEntry] at hcell hbyte hbefore
      refine ⟨place / cellsPerEntry, place % cellsPerEntry, cell, byte,
        Nat.mod_lt _ (by decide), ?_, hcell, hbyte, hdiffers, hbefore⟩
      simp [compare, hlen, hfound]

def instructionAt? (list : List Descriptor) (id : Nat) : Option Instruction :=
  list[id]?.bind fun d => (Instruction.ofText d.text).toOption

/-- The micro-ops of the cells that a list asks for at an id. -/
def microOpsAt? (list : List Descriptor) (id : Nat) : Option (List MicroOp) :=
  (instructionAt? list id).bind fun i => i.microcode.toOption.map Microcode.padded

section Generated

variable {list list' : List Descriptor}

theorem instructionAt?_eq (h : ofDescriptors list = .ok table) {id : Nat} {entry : Entry}
    (hentry : table.entries[id]? = some entry) :
    instructionAt? list id = some entry.instruction := by
  have hbuilt := isBuilt_of_mem h (List.mem_of_getElem? hentry)
  have hd := getElem?_entries h id
  rw [hentry, Option.map_some] at hd
  rw [instructionAt?, ← hd, Option.bind_some, hbuilt.instruction]
  rfl

theorem microOpsAt?_eq (h : ofDescriptors list = .ok table) {id : Nat} {entry : Entry}
    (hentry : table.entries[id]? = some entry) :
    microOpsAt? list id = some entry.microcode.padded := by
  have hbuilt := isBuilt_of_mem h (List.mem_of_getElem? hentry)
  rw [microOpsAt?, instructionAt?_eq h hentry, Option.bind_some, hbuilt.microcode]
  rfl

/-- Two tables hold the same micro-ops for an id exactly if their lists name one instruction
there. -/
theorem instructionAt?_eq_iff (h : ofDescriptors list = .ok table)
    (h' : ofDescriptors list' = .ok other) {id : Nat} (hid : id < entryCount) :
    instructionAt? list id = instructionAt? list' id ↔
      ∀ step, step < cellsPerEntry →
        (table.cells.map Cell.microOp)[id * cellsPerEntry + step]? =
          (other.cells.map Cell.microOp)[id * cellsPerEntry + step]? := by
  obtain ⟨entry, hentry, hbuilt, -⟩ := exists_entry h hid
  obtain ⟨entry', hentry', hbuilt', -⟩ := exists_entry h' hid
  have hlen := Nat.le_of_lt hbuilt.length_microcode_lt
  have hlen' := Nat.le_of_lt hbuilt'.length_microcode_lt
  rw [instructionAt?_eq h hentry, instructionAt?_eq h' hentry', Option.some.injEq,
    Entry.instruction_eq_iff hbuilt hbuilt']
  constructor
  · intro hpadded step hstep
    rw [getElem?_map_microOp hentry hlen hstep, getElem?_map_microOp hentry' hlen' hstep,
      hpadded]
  · intro hcells
    apply List.ext_getElem?
    intro step
    rcases Nat.lt_or_ge step cellsPerEntry with hstep | hstep
    · rw [← getElem?_map_microOp hentry hlen hstep,
        ← getElem?_map_microOp hentry' hlen' hstep]
      exact hcells step hstep
    · rw [List.getElem?_eq_none (by rwa [Microcode.length_padded hlen]),
        List.getElem?_eq_none (by rwa [Microcode.length_padded hlen'])]

theorem map_microOp_eq_of_toBytes_eq {n : Nat}
    (heq : table.toBytes[n]? = other.toBytes[n]?) :
    (table.cells.map Cell.microOp)[n]? = (other.cells.map Cell.microOp)[n]? := by
  rw [toBytes_eq_map_microOp, toBytes_eq_map_microOp, List.getElem?_map (f := MicroOp.code),
    List.getElem?_map (f := MicroOp.code)] at heq
  exact Option.map_injective (fun _ _ => MicroOp.code_injective) heq

theorem toBytes_eq_iff (h : ofDescriptors list = .ok table)
    (h' : ofDescriptors list' = .ok other) :
    table.toBytes = other.toBytes ↔
      ∀ id, id < entryCount → instructionAt? list id = instructionAt? list' id := by
  constructor
  · intro heq id hid
    rw [instructionAt?_eq_iff h h' hid]
    intro step _
    exact map_microOp_eq_of_toBytes_eq (by rw [heq])
  · intro hall
    rw [toBytes_eq_map_microOp, toBytes_eq_map_microOp]
    congr 1
    apply List.ext_getElem?
    intro n
    rcases Nat.lt_or_ge n cellCount with hn | hn
    · have hid : n / cellsPerEntry < entryCount :=
        (Nat.div_lt_iff_lt_mul (by decide)).mpr hn
      have hstep := (instructionAt?_eq_iff h h' hid).mp (hall _ hid) (n % cellsPerEntry)
        (Nat.mod_lt _ (by decide))
      rwa [Nat.div_add_mod'] at hstep
    · rw [List.getElem?_eq_none, List.getElem?_eq_none]
      · rwa [List.length_map, length_cells_of_ofDescriptors h']
      · rwa [List.length_map, length_cells_of_ofDescriptors h]

theorem cellName_code (op : MicroOp) : Fault.cellName op.code = op.name := by
  rw [Fault.cellName, MicroOp.ofCode?_code]

theorem message_differs_code (id step : Nat) (expected found : MicroOp) :
    (Fault.differs id step expected found.code).message =
      Fault.checkFailed ("opcode " ++ Fault.numbered "$" id ++ " step " ++ toString step ++
        ": expected " ++ expected.name ++ ", found " ++ found.name) := by
  rw [← cellName_code found]
  rfl

/--
Comparing the tables of two lists tells exactly whether the lists name the same instruction
for every id, however they spell it. If they do not, the report names the least id where
they differ, the first step where its micro-ops do, and what stands there in either table.
-/
theorem compare_toBytes_of_ofDescriptors (h : ofDescriptors list = .ok table)
    (h' : ofDescriptors list' = .ok other) :
    (table.compare other.toBytes = .ok () ↔
      ∀ id, id < entryCount → instructionAt? list id = instructionAt? list' id) ∧
    (¬ (∀ id, id < entryCount → instructionAt? list id = instructionAt? list' id) →
      ∃ id step expected found ops ops',
        table.compare other.toBytes = .error (.differs id step expected found.code) ∧
        (Fault.differs id step expected found.code).kind = .check ∧
        (Fault.differs id step expected found.code).message =
          Fault.checkFailed ("opcode " ++ Fault.numbered "$" id ++ " step " ++ toString step ++
            ": expected " ++ expected.name ++ ", found " ++ found.name) ∧
        id < entryCount ∧ instructionAt? list id ≠ instructionAt? list' id ∧
        (∀ earlier, earlier < id →
          instructionAt? list earlier = instructionAt? list' earlier) ∧
        microOpsAt? list id = some ops ∧ microOpsAt? list' id = some ops' ∧
        ops[step]? = some expected ∧ ops'[step]? = some found ∧ expected ≠ found ∧
        ∀ earlier, earlier < step → ops[earlier]? = ops'[earlier]?) := by
  refine ⟨compare_eq_ok_iff.trans (toBytes_eq_iff h h'), ?_⟩
  intro hdiffer
  have hbytes : table.toBytes ≠ other.toBytes := fun heq =>
    hdiffer ((toBytes_eq_iff h h').mp heq)
  have hsize : other.toBytes.length = table.cells.length := by
    rw [length_toBytes, length_cells, length_entries h, length_entries h']
  obtain ⟨id, step, cell, byte, hstep, hcompare, hcell, hbyte, hne, hbefore⟩ :=
    exists_compare_eq_error hsize hbytes
  obtain ⟨cell', hcell', rfl⟩ : ∃ cell', other.cells[id * cellsPerEntry + step]? = some cell' ∧
      cell'.code = byte := by
    rw [toBytes, List.getElem?_map] at hbyte
    exact Option.map_eq_some_iff.mp hbyte
  have hid : id < entryCount := by
    have hplace := (List.getElem?_eq_some_iff.mp hcell).1
    rw [length_cells_of_ofDescriptors h] at hplace
    simp only [cellCount, cellsPerEntry] at hplace
    omega
  obtain ⟨entry, hentry, hbuilt, -⟩ := exists_entry h hid
  obtain ⟨entry', hentry', hbuilt', -⟩ := exists_entry h' hid
  have hat {step : Nat} (hlt : step < cellsPerEntry) :=
    getElem?_map_microOp hentry (Nat.le_of_lt hbuilt.length_microcode_lt) hlt
  have hat' {step : Nat} (hlt : step < cellsPerEntry) :=
    getElem?_map_microOp hentry' (Nat.le_of_lt hbuilt'.length_microcode_lt) hlt
  -- Codes are of one micro-op each, so the cells agree wherever the bytes do.
  have hsame : ∀ n, n < id * cellsPerEntry + step →
      (table.cells.map Cell.microOp)[n]? = (other.cells.map Cell.microOp)[n]? :=
    fun n hn => map_microOp_eq_of_toBytes_eq (hbefore n hn)
  have hexpected := hat hstep
  rw [List.getElem?_map, hcell, Option.map_some] at hexpected
  have hfound := hat' hstep
  rw [List.getElem?_map, hcell', Option.map_some] at hfound
  have hops : cell.microOp ≠ cell'.microOp := fun heq => hne (congrArg MicroOp.code heq)
  refine ⟨id, step, cell.microOp, cell'.microOp, entry.microcode.padded,
    entry'.microcode.padded, hcompare, rfl, message_differs_code _ _ _ _, hid, ?_, ?_,
    microOpsAt?_eq h hentry, microOpsAt?_eq h' hentry', hexpected.symm, hfound.symm, hops, ?_⟩
  · intro heq
    have hboth := (instructionAt?_eq_iff h h' hid).mp heq step hstep
    rw [hat hstep, hat' hstep, ← hexpected, ← hfound] at hboth
    exact hops (Option.some.inj hboth)
  · intro earlier hearlier
    rw [instructionAt?_eq_iff h h' (Nat.lt_trans hearlier hid)]
    intro step' hstep'
    apply hsame
    simp only [cellsPerEntry] at hstep' ⊢
    omega
  · intro earlier hearlier
    have hlt := Nat.lt_trans hearlier hstep
    rw [← hat hlt, ← hat' hlt]
    exact hsame _ (Nat.add_lt_add_left hearlier _)

end Generated

theorem compare_standard_directJump :
    ∃ table other, ofDescriptors Descriptor.standard = .ok table ∧
      ofDescriptors (Descriptor.standard.set 0x6C ⟨0x6C, "jmp nnnn"⟩) = .ok other ∧
      table.compare other.toBytes =
        .error (.differs 0x6C 2 .ldTmpMem MicroOp.ldPcHl.code) := by
  obtain ⟨table, h⟩ := exists_ofDescriptors_standard
  have hjump : Instruction.ofText "jmp nnnn" = .ok ⟨.jmp, .absolute⟩ := by rfl
  have hcode : (⟨.jmp, .absolute⟩ : Instruction).microcode = .ok [.rdL, .rdH, .ldPcHl] := rfl
  have h' := ofDescriptors_set h 0x6C hjump hcode
  have hindirect : instructionAt? Descriptor.standard 0x6C =
      some ⟨.jmp, .indirectAbsolute⟩ := by
    rw [instructionAt?, Descriptor.getElem?_standard_indirectJump]
    rfl
  have hdirect : instructionAt? (Descriptor.standard.set 0x6C ⟨0x6C, "jmp nnnn"⟩) 0x6C =
      some ⟨.jmp, .absolute⟩ := by
    rw [instructionAt?, List.getElem?_set_self
      (List.getElem?_eq_some_iff.mp Descriptor.getElem?_standard_indirectJump).1]
    rfl
  refine ⟨table, _, h, h', ?_⟩
  obtain ⟨id, step, expected, found, ops, ops', hcompare, -, -, -, hid, -, hops, hops',
      hexpected, hfound, hne, hearlier⟩ := (compare_toBytes_of_ofDescriptors h h').2 (by
    intro hall
    have hsame := hall 0x6C (by decide)
    rw [hindirect, hdirect] at hsame
    cases hsame)
  obtain rfl : id = 0x6C := by
    by_cases heq : id = 0x6C
    · exact heq
    · rw [instructionAt?, instructionAt?, List.getElem?_set_ne (Ne.symm heq)] at hid
      exact absurd rfl hid
  rw [microOpsAt?, hindirect] at hops
  rw [microOpsAt?, hdirect] at hops'
  obtain rfl := Option.some.inj hops
  obtain rfl := Option.some.inj hops'
  -- two steps agree, the third does not
  match step with
  | 0 | 1 => exact absurd (Option.some.inj (hexpected.symm.trans hfound)) hne
  | 2 =>
      cases hexpected
      cases hfound
      exact hcompare
  | step + 3 => cases hearlier 2 (by omega)

end Table

end CycleTable

import CycleTable.Descriptor
import CycleTable.Proofs.Success
import CycleTable.Table

/-!
# The entries of a generated table

A table is generated exactly from a list that is complete and whose texts can all be built.
Its entries then stand in the order of the list, each with the instruction that its text
names and the microcode of that instruction.
-/

namespace CycleTable

namespace Descriptor

theorem validate_eq_ok_iff {list : List Descriptor} :
    validate list = .ok () ↔
      list.length = entryCount ∧
        ∀ (position : Nat) (d : Descriptor), list[position]? = some d → d.id = position := by
  rw [← misplaced?_eq_none_iff]
  unfold validate
  by_cases hcount : list.length = entryCount
  · cases hplace : misplaced? list with
    | none => simp [hcount]
    | some found => simp [hcount]
  · simp [hcount]

theorem ofLines_eq_ok_iff {lines : List (List Char)} {list : List Descriptor} :
    ofLines lines = .ok list ↔ readLines 1 lines = .ok list ∧ validate list = .ok () := by
  simp only [ofLines, bind_eq_ok_iff]
  constructor
  · intro h
    obtain ⟨read, hread, _, hvalid, hlist⟩ := h
    cases hlist
    exact ⟨hread, hvalid⟩
  · intro h
    exact ⟨list, h.1, (), h.2, rfl⟩

/-- The list holds a descriptor for every id, in order. -/
def IsComplete (list : List Descriptor) : Prop :=
  list.map Descriptor.id = List.range entryCount

theorem isComplete_iff_validate_eq_ok {list : List Descriptor} :
    IsComplete list ↔ validate list = .ok () := by
  rw [validate_eq_ok_iff]
  constructor
  · intro h
    constructor
    · have hlength := congrArg List.length h
      rw [List.length_map, List.length_range] at hlength
      exact hlength
    · intro position d hd
      have hplace := congrArg (·[position]?) h
      simp only [List.getElem?_map, hd, Option.map_some] at hplace
      rcases List.getElem?_eq_some_iff.mp hplace.symm with ⟨_, hid⟩
      rw [List.getElem_range] at hid
      exact hid.symm
  · intro h
    rcases h with ⟨hcount, hids⟩
    refine List.ext_getElem (by rw [List.length_map, hcount, List.length_range]) ?_
    intro position hlt hlt'
    rw [List.getElem_map, List.getElem_range]
    exact hids position _ (List.getElem?_eq_getElem _)

theorem isComplete_map_range {entry : Nat → Descriptor}
    (h : ∀ id, id < entryCount → (entry id).id = id) :
    IsComplete ((List.range entryCount).map entry) := by
  have hall : ∀ id ∈ List.range entryCount, (entry id).id = id :=
    fun id hid => h id (List.mem_range.mp hid)
  rw [IsComplete, List.map_map]
  exact (List.map_congr_left hall).trans (List.map_id _)

theorem kind_of_validate_eq_error {list : List Descriptor} {fault : Fault}
    (h : validate list = .error fault) : fault.kind = .descriptor := by
  unfold validate at h
  split at h
  · cases h
    rfl
  · split at h
    · cases h
      rfl
    · cases h

end Descriptor

namespace Entry

/-- The entry is what building its descriptor gives. -/
structure IsBuilt (entry : Entry) : Prop where
  instruction : Instruction.ofText entry.descriptor.text = .ok entry.instruction
  microcode : entry.instruction.microcode = .ok entry.microcode

theorem IsBuilt.length_microcode {entry : Entry} (hbuilt : entry.IsBuilt) :
    1 ≤ entry.microcode.length ∧ entry.microcode.length ≤ 9 :=
  Instruction.length_microcode hbuilt.microcode

theorem IsBuilt.length_microcode_lt {entry : Entry} (hbuilt : entry.IsBuilt) :
    entry.microcode.length < cellsPerEntry :=
  Nat.lt_of_le_of_lt hbuilt.length_microcode.2 (by decide)

theorem ofDescriptor_eq_ok_iff {d : Descriptor} {entry : Entry} :
    ofDescriptor d = .ok entry ↔ entry.descriptor = d ∧ entry.IsBuilt := by
  simp only [ofDescriptor, mapError_eq_ok_iff, build, bind_eq_ok_iff]
  constructor
  · rintro ⟨instruction, hi, microcode, hm, ⟨⟩⟩
    exact ⟨rfl, hi, hm⟩
  · obtain ⟨descriptor, instruction, microcode⟩ := entry
    rintro ⟨rfl, hbuilt⟩
    exact ⟨instruction, hbuilt.instruction, microcode, hbuilt.microcode, rfl⟩

end Entry

namespace Table

variable {list : List Descriptor} {table : Table}

theorem ofDescriptors_eq_ok_iff :
    ofDescriptors list = .ok table ↔
      Descriptor.validate list = .ok () ∧
        table.entries.map Entry.descriptor = list ∧
          ∀ entry ∈ table.entries, entry.IsBuilt := by
  simp only [ofDescriptors, bind_eq_ok_iff, mapError_eq_ok_iff]
  constructor
  · rintro ⟨⟨⟩, hvalid, entries, hentries, ⟨⟩⟩
    exact ⟨hvalid, (mapM_eq_ok_iff fun _ _ => Entry.ofDescriptor_eq_ok_iff).mp hentries⟩
  · rintro ⟨hvalid, hentries⟩
    exact ⟨(), hvalid, table.entries,
      (mapM_eq_ok_iff fun _ _ => Entry.ofDescriptor_eq_ok_iff).mpr hentries, rfl⟩

theorem length_of_ofDescriptors (h : ofDescriptors list = .ok table) :
    list.length = entryCount :=
  (Descriptor.validate_eq_ok_iff.mp (ofDescriptors_eq_ok_iff.mp h).1).1

theorem id_of_ofDescriptors (h : ofDescriptors list = .ok table) {id : Nat} {d : Descriptor}
    (hd : list[id]? = some d) : d.id = id :=
  (Descriptor.validate_eq_ok_iff.mp (ofDescriptors_eq_ok_iff.mp h).1).2 id d hd

theorem length_entries (h : ofDescriptors list = .ok table) :
    table.entries.length = entryCount := by
  have hmap := congrArg List.length (ofDescriptors_eq_ok_iff.mp h).2.1
  rw [List.length_map] at hmap
  exact hmap.trans (length_of_ofDescriptors h)

theorem isBuilt_of_mem (h : ofDescriptors list = .ok table) {entry : Entry}
    (hentry : entry ∈ table.entries) : entry.IsBuilt :=
  (ofDescriptors_eq_ok_iff.mp h).2.2 entry hentry

theorem getElem?_entries (h : ofDescriptors list = .ok table) (id : Nat) :
    (table.entries[id]?).map Entry.descriptor = list[id]? := by
  rw [← List.getElem?_map, (ofDescriptors_eq_ok_iff.mp h).2.1]

theorem exists_entry (h : ofDescriptors list = .ok table) {id : Nat} (hid : id < entryCount) :
    ∃ entry, table.entries[id]? = some entry ∧ entry.IsBuilt ∧
      list[id]? = some entry.descriptor := by
  have hlt : id < table.entries.length := by
    rw [length_entries h]
    exact hid
  have hget := List.getElem?_eq_getElem hlt
  refine ⟨table.entries[id], hget, isBuilt_of_mem h (List.getElem_mem hlt), ?_⟩
  rw [← getElem?_entries h, hget]
  rfl

theorem ofDescriptors_set (h : ofDescriptors list = .ok table) (id : Nat) {text : String}
    {instruction : Instruction} {code : Microcode}
    (hinstruction : Instruction.ofText text = .ok instruction)
    (hcode : instruction.microcode = .ok code) :
    ofDescriptors (list.set id ⟨id, text⟩) =
      .ok ⟨table.entries.set id ⟨⟨id, text⟩, instruction, code⟩⟩ := by
  obtain ⟨hvalid, hmap, hbuilt⟩ := ofDescriptors_eq_ok_iff.mp h
  obtain ⟨hcount, hids⟩ := Descriptor.validate_eq_ok_iff.mp hvalid
  rw [ofDescriptors_eq_ok_iff, Descriptor.validate_eq_ok_iff, List.length_set]
  refine ⟨⟨hcount, ?_⟩, ?_, ?_⟩
  · intro position d hd
    rw [List.getElem?_set] at hd
    split at hd
    · next heq =>
      split at hd
      · cases hd
        exact heq
      · cases hd
    · exact hids position d hd
  · rw [List.map_set, hmap]
  · intro entry hentry
    rcases List.mem_or_eq_of_mem_set hentry with hmem | rfl
    · exact hbuilt entry hmem
    · exact ⟨hinstruction, hcode⟩

end Table

/-!
## The standard table

The standard descriptors make a table. Among them is the one instruction that jumps through
memory.
-/

theorem Descriptor.getElem?_standard_indirectJump :
    standard[0x6C]? = some ⟨0x6C, "JMP (nnnn)"⟩ := by
  decide +kernel

namespace Table

theorem exists_ofDescriptors_standard :
    ∃ table, ofDescriptors Descriptor.standard = .ok table := by
  have hbuilt : (ofDescriptors Descriptor.standard).isOk = true := by decide +kernel
  cases htable : ofDescriptors Descriptor.standard with
  | error failure =>
      rw [htable] at hbuilt
      cases hbuilt
  | ok table => exact ⟨table, rfl⟩

end Table

end CycleTable

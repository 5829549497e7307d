import CycleTable.Proofs.Descriptor.Loading
import CycleTable.Proofs.Microcode.Complete
import CycleTable.Proofs.Statement

/-!
# Lists that make no table

A list makes a table exactly if it is complete and each of its texts is an instruction. A list
that is not complete is at fault as a whole; in a complete one the first text that is none is
blamed, with its entry.
-/

namespace CycleTable

theorem Instruction.exists_microcode_of_ofText {text : String} {i : Instruction}
    (h : ofText text = .ok i) : ∃ code, i.microcode = .ok code :=
  exists_microcode (isEncodable_of_ofText h)

theorem Instruction.blame_of_rejects {text : String} {fault : Fault} (h : Rejects text fault) :
    fault.kind ≠ .general ∧ fault.isOfCycles = false := by
  cases h with
  | noStatement | mnemonic | operand | pair =>
      refine ⟨?_, rfl⟩
      intro hkind
      cases hkind

theorem Fault.isOfCycles_of_kind {fault : Fault} (h : fault.kind = .descriptor) :
    fault.isOfCycles = false := by
  cases fault with
  | noCycles | notMemory | notIndexable | noOwnOp | notPush | notPull | wrongLength => cases h
  | _ => rfl

namespace Entry

variable {d : Descriptor} {failure : Failure Fault}

theorem exists_ofDescriptor_iff :
    (∃ entry, ofDescriptor d = .ok entry) ↔ ∃ i, Instruction.ofText d.text = .ok i := by
  simp only [ofDescriptor_eq_ok_iff]
  constructor
  · intro h
    rcases h with ⟨entry, rfl, hbuilt⟩
    exact ⟨entry.instruction, hbuilt.instruction⟩
  · intro h
    rcases h with ⟨i, hi⟩
    rcases Instruction.exists_microcode_of_ofText hi with ⟨code, hcode⟩
    exact ⟨⟨d, i, code⟩, rfl, hi, hcode⟩

/-- An entry that cannot be built has a text that is no instruction: the cycles are never what is
missing. -/
theorem ofDescriptor_eq_error_iff :
    ofDescriptor d = .error failure ↔
      Instruction.ofText d.text = .error failure.cause ∧
        failure.context = some (context d) := by
  simp only [ofDescriptor, mapError_eq_error_iff, build, bind_eq_error_iff]
  constructor
  · intro h
    rcases h with ⟨cause, hcause | ⟨i, hi, hmicrocode | ⟨_, _, hpure⟩⟩, rfl⟩
    · exact ⟨hcause, rfl⟩
    · rcases Instruction.exists_microcode_of_ofText hi with ⟨code, hcode⟩
      rw [hcode] at hmicrocode
      cases hmicrocode
    · cases hpure
  · intro h
    obtain ⟨cause, place⟩ := failure
    rcases h with ⟨hcause, rfl⟩
    exact ⟨cause, Or.inl hcause, rfl⟩

end Entry

namespace Table

variable {list : List Descriptor} {failure : Failure Fault}

theorem ofDescriptors_eq_error_of_not_isComplete (h : ¬ Descriptor.IsComplete list) :
    ∃ fault, ofDescriptors list = .error ⟨fault, none⟩ ∧ fault.kind = .descriptor := by
  cases hvalid : Descriptor.validate list with
  | ok =>
      exact absurd (Descriptor.isComplete_iff_validate_eq_ok.mpr hvalid) h
  | error fault =>
      refine ⟨fault, ?_, Descriptor.kind_of_validate_eq_error hvalid⟩
      rw [ofDescriptors, hvalid]
      rfl

theorem ofDescriptors_eq_error_iff (h : Descriptor.IsComplete list) :
    ofDescriptors list = .error failure ↔
      ∃ (id : Nat) (d : Descriptor), list[id]? = some d ∧ Entry.ofDescriptor d = .error failure ∧
        ∀ (earlier : Nat) (other : Descriptor), earlier < id → list[earlier]? = some other →
          ∃ entry, Entry.ofDescriptor other = .ok entry := by
  rw [← mapM_eq_error_iff, ofDescriptors, Descriptor.isComplete_iff_validate_eq_ok.mp h]
  cases list.mapM Entry.ofDescriptor with
  | ok entries =>
      show Except.ok _ = Except.error failure ↔ Except.ok entries = Except.error failure
      simp
  | error other =>
      show Except.error other = Except.error failure ↔ Except.error other = Except.error failure
      simp

theorem exists_ofDescriptors_iff :
    (∃ table, ofDescriptors list = .ok table) ↔
      Descriptor.IsComplete list ∧ ∀ d ∈ list, ∃ i, Instruction.ofText d.text = .ok i := by
  constructor
  · intro h
    rcases h with ⟨table, htable⟩
    rcases ofDescriptors_eq_ok_iff.mp htable with ⟨hvalid, hmap, hbuilt⟩
    refine ⟨Descriptor.isComplete_iff_validate_eq_ok.mpr hvalid, ?_⟩
    intro d hd
    rw [← hmap] at hd
    rcases List.mem_map.mp hd with ⟨entry, hentry, rfl⟩
    exact ⟨entry.instruction, (hbuilt entry hentry).instruction⟩
  · intro h
    rcases h with ⟨hcomplete, htexts⟩
    cases hmake : ofDescriptors list with
    | ok table => exact ⟨table, rfl⟩
    | error failure =>
        rcases (ofDescriptors_eq_error_iff hcomplete).mp hmake with ⟨id, d, hd, hrefused, _⟩
        rcases htexts d (List.mem_of_getElem? hd) with ⟨i, hi⟩
        rw [(Entry.ofDescriptor_eq_error_iff.mp hrefused).1] at hi
        cases hi

/--
A list makes a table exactly if it is complete and each of its texts is an instruction. Such an
instruction has cycles that fit in an entry, so none of the faults that cycles can have is ever
reported. What is reported of an incomplete list names no entry, whatever its texts are. Of a
complete one the first entry whose text is no instruction is named, and what is wrong with the text
is the cause.
-/
theorem ofDescriptors_blames_first (list : List Descriptor) :
    ((∃ table, ofDescriptors list = .ok table) ↔
        Descriptor.IsComplete list ∧ ∀ d ∈ list, ∃ i, Instruction.ofText d.text = .ok i) ∧
      (∀ text i, Instruction.ofText text = .ok i → ∃ code, i.cycles = .ok code ∧
        1 ≤ code.length ∧ code.length ≤ cellsPerEntry ∧ i.microcode = .ok code) ∧
      (∀ (i : Instruction) fault, i.microcode = .error fault → fault.isOfCycles = true) ∧
      (¬ Descriptor.IsComplete list →
        ∃ fault, ofDescriptors list = .error ⟨fault, none⟩ ∧ fault.kind = .descriptor) ∧
      (Descriptor.IsComplete list → ∀ failure, ofDescriptors list = .error failure ↔
        ∃ (id : Nat) (d : Descriptor), list[id]? = some d ∧
          Instruction.ofText d.text = .error failure.cause ∧
          failure.context = some ⟨id, d.text⟩ ∧
          ∀ (earlier : Nat) (other : Descriptor), earlier < id → list[earlier]? = some other →
            ∃ i, Instruction.ofText other.text = .ok i) ∧
      ∀ failure, ofDescriptors list = .error failure →
        failure.cause.kind ≠ .general ∧ failure.cause.isOfCycles = false := by
  refine ⟨exists_ofDescriptors_iff, ?_, Instruction.failsInCycles_microcode,
    ofDescriptors_eq_error_of_not_isComplete, ?_, ?_⟩
  · intro text i hi
    rcases Instruction.exists_cycles (Instruction.isEncodable_of_ofText hi) with ⟨code, hcode⟩
    have hlength := Instruction.length_cycles hcode
    have hfits : 9 ≤ cellsPerEntry := by decide
    exact ⟨code, hcode, hlength.1, Nat.le_trans hlength.2 hfits,
      (Instruction.microcode_eq_cycles i).trans hcode⟩
  · intro hcomplete failure
    have hids := (Descriptor.validate_eq_ok_iff.mp
      (Descriptor.isComplete_iff_validate_eq_ok.mp hcomplete)).2
    simp only [ofDescriptors_eq_error_iff hcomplete, Entry.ofDescriptor_eq_error_iff,
      Entry.exists_ofDescriptor_iff, Entry.context, and_assoc]
    constructor
    · intro h
      rcases h with ⟨id, d, hd, hcause, hcontext, hbefore⟩
      rw [hids id d hd] at hcontext
      exact ⟨id, d, hd, hcause, hcontext, hbefore⟩
    · intro h
      rcases h with ⟨id, d, hd, hcause, hcontext, hbefore⟩
      rw [← hids id d hd] at hcontext
      exact ⟨id, d, hd, hcause, hcontext, hbefore⟩
  · intro failure hfailure
    by_cases hcomplete : Descriptor.IsComplete list
    · rcases (ofDescriptors_eq_error_iff hcomplete).mp hfailure with ⟨_, _, _, hrefused, _⟩
      have hcause := (Entry.ofDescriptor_eq_error_iff.mp hrefused).1
      exact Instruction.blame_of_rejects (Instruction.rejects_of_ofText_eq_error hcause)
    · rcases ofDescriptors_eq_error_of_not_isComplete hcomplete with ⟨fault, hfault, hkind⟩
      rw [hfault] at hfailure
      cases hfailure
      refine ⟨?_, Fault.isOfCycles_of_kind hkind⟩
      rw [hkind]
      decide

/-- The later of two unknown texts is not named, nor is either once the last entry is missing. -/
theorem ofDescriptors_blames_unknown_operand :
    ofDescriptors ((Descriptor.idleList.set 0x50 ⟨0x50, "XYZ"⟩).set 0x42 ⟨0x42, "LDA nn,Q"⟩) =
        .error ⟨.unknownOperand "nn,Q", some ⟨0x42, "LDA nn,Q"⟩⟩ ∧
      ∃ fault, ofDescriptors (Descriptor.idleList.set 0x50 ⟨0x50, "XYZ"⟩).dropLast =
          .error ⟨fault, none⟩ ∧ fault.kind = .descriptor := by
  have hnop : Instruction.ofText "NOP" = .ok ⟨.nop, .implied⟩ := by rfl
  constructor
  · have hcomplete : Descriptor.IsComplete
        ((Descriptor.idleList.set 0x50 ⟨0x50, "XYZ"⟩).set 0x42 ⟨0x42, "LDA nn,Q"⟩) := by
      rw [Descriptor.IsComplete]
      decide +kernel
    rcases ofDescriptors_blames_first _ with ⟨_, _, _, _, hblame, _⟩
    rw [hblame hcomplete]
    refine ⟨0x42, ⟨0x42, "LDA nn,Q"⟩, by decide +kernel, by rfl, rfl, ?_⟩
    intro earlier other hlt hother
    rw [List.getElem?_set_ne (by omega), List.getElem?_set_ne (by omega), Descriptor.idleList,
      List.getElem?_map, Option.map_eq_some_iff] at hother
    rcases hother with ⟨_, _, rfl⟩
    exact ⟨_, hnop⟩
  · rcases ofDescriptors_blames_first _ with ⟨_, _, _, hincomplete, _⟩
    apply hincomplete
    rw [Descriptor.IsComplete]
    decide +kernel

end Table

end CycleTable

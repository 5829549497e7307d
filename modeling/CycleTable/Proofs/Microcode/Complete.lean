import CycleTable.Microcode
import CycleTable.Proofs.Success

/-!
# Microcode of every instruction

The pairs of a mnemonic and a mode that can be encoded are told apart from the cycles that they
have, and from the micro-ops that the cycles need. No such pair is left without cycles.
-/

namespace CycleTable

namespace Mnemonic

variable {m : Mnemonic}

theorem exists_ownOp_of_isSome (h : m.ownOp?.isSome = true) : ∃ op, m.ownOp = .ok op := by
  rcases Option.isSome_iff_exists.mp h with ⟨op, hop⟩
  exact ⟨op, by rw [ownOp, hop]⟩

theorem exists_ownOp
    (hfamily : m.family ∈ [Family.branch, .register, .illegal, .shift, .store]) :
    ∃ op, m.ownOp = .ok op := by
  have hall : ∀ m ∈ all, m.family ∈ [Family.branch, .register, .illegal, .shift, .store] →
      m.ownOp?.isSome = true := by
    decide
  exact exists_ownOp_of_isSome (hall m (mem_all m) hfamily)

theorem exists_ownOp_of_read (hfamily : m.family = .read) (hm : m ≠ .asr) :
    ∃ op, m.ownOp = .ok op := by
  have hall : ∀ m ∈ all, m.family = .read → m ≠ .asr → m.ownOp?.isSome = true := by decide
  exact exists_ownOp_of_isSome (hall m (mem_all m) hfamily hm)

theorem exists_indexOp {index : IndexRegister}
    (hunstable : m.family = .unstableStore → (m.unstableIndexOp? index).isSome = true) :
    ∃ op, m.indexOp index = .ok op := by
  by_cases hfamily : m.family = .unstableStore
  · rcases Option.isSome_iff_exists.mp (hunstable hfamily) with ⟨op, hop⟩
    exact ⟨op, by simp only [indexOp, hfamily, hop, if_true]⟩
  · simp only [indexOp, hfamily, if_false]
    cases m.memoryUse with
    | readOnly | store | readModifyWrite =>
        cases index with
        | x => exact ⟨_, rfl⟩
        | y => exact ⟨_, rfl⟩

end Mnemonic

namespace Instruction

variable {m : Mnemonic} {mode : Mode}

theorem exists_addressing (hmode : mode.isMemory = true) (h : isEncodable ⟨m, mode⟩ = true) :
    ∃ code, addressing ⟨m, mode⟩ = .ok code := by
  have hunstable : ∀ index, mode.pageIndex? = some index → m.family = .unstableStore →
      (m.unstableIndexOp? index).isSome = true := by
    intro index hindex hfamily
    simpa [isEncodable, family, hfamily, Family.accepts, hindex] using h
  cases mode with
  | absoluteIndexedX =>
      rcases Mnemonic.exists_indexOp (hunstable .x rfl) with ⟨op, hop⟩
      exact ⟨_, bind_eq_ok_iff.mpr ⟨op, hop, rfl⟩⟩
  | absoluteIndexedY | indirectIndexedY =>
      rcases Mnemonic.exists_indexOp (hunstable .y rfl) with ⟨op, hop⟩
      exact ⟨_, bind_eq_ok_iff.mpr ⟨op, hop, rfl⟩⟩
  | implied | immediate | indirectAbsolute | relative => cases hmode
  | _ => exact ⟨_, rfl⟩

theorem exists_modification (mode : Mode)
    (hfamily : m.family = .shift ∨ m.family = .readModifyWrite) :
    ∃ code, modification ⟨m, mode⟩ = .ok code := by
  have hall : ∀ m ∈ Mnemonic.all, m.family = .shift ∨ m.family = .readModifyWrite →
      m.fusedOps? = none → m.ownOp?.isSome = true := by
    decide
  unfold modification
  cases hfused : m.fusedOps? with
  | some pair => exact ⟨_, rfl⟩
  | none =>
      rcases Mnemonic.exists_ownOp_of_isSome (hall m (Mnemonic.mem_all m) hfamily hfused) with
        ⟨op, hop⟩
      exact ⟨_, bind_eq_ok_iff.mpr ⟨op, hop, rfl⟩⟩

def memoryFamilies : List Family :=
  [.shift, .readModifyWrite, .store, .unstableStore, .read, .nop]

theorem exists_operandPhase (hfamily : m.family ∈ memoryFamilies) (hmode : mode.isMemory = true)
    (h : isEncodable ⟨m, mode⟩ = true) : ∃ code, operandPhase ⟨m, mode⟩ = .ok code := by
  unfold operandPhase
  cases hm : m.family with
  | shift =>
      rcases exists_modification mode (.inl hm) with ⟨change, hchange⟩
      exact ⟨_, by simp only [family, hm, hchange]; rfl⟩
  | readModifyWrite =>
      rcases exists_modification mode (.inr hm) with ⟨change, hchange⟩
      exact ⟨_, by simp only [family, hm, hchange]; rfl⟩
  | store =>
      rcases Mnemonic.exists_ownOp (m := m) (by rw [hm]; decide) with ⟨op, hop⟩
      exact ⟨_, by simp only [family, hm, hop]; rfl⟩
  | read =>
      have hasr : m ≠ .asr := by
        intro hasr
        rw [hasr] at h
        cases mode with
        | immediate => cases hmode
        | _ => cases h
      rcases Mnemonic.exists_ownOp_of_read hm hasr with ⟨op, hop⟩
      exact ⟨_, by simp only [family, hm, hop]; rfl⟩
  | unstableStore | nop => exact ⟨_, by simp only [family, hm]; rfl⟩
  | _ =>
      rw [hm] at hfamily
      exact absurd hfamily (by decide)

theorem cycles_of_isMemory (hfamily : m.family ∈ memoryFamilies)
    (hmode : mode.isMemory = true) :
    cycles ⟨m, mode⟩ =
      (do return (← addressing ⟨m, mode⟩) ++ (← operandPhase ⟨m, mode⟩)) := by
  unfold cycles
  cases hm : m.family with
  | shift | readModifyWrite | store | unstableStore | read | nop =>
      cases mode with
      | implied | immediate | indirectAbsolute | relative => cases hmode
      | _ => simp only [family, hm, Mode.isMemory, if_true]
  | _ =>
      rw [hm] at hfamily
      exact absurd hfamily (by decide)

theorem exists_readImmediate (hfamily : m.family = .read) :
    ∃ code, readImmediate m = .ok code := by
  unfold readImmediate
  split
  · exact ⟨_, rfl⟩
  · next hasr =>
    rcases Mnemonic.exists_ownOp_of_read hfamily hasr with ⟨op, hop⟩
    exact ⟨_, bind_eq_ok_iff.mpr ⟨op, hop, rfl⟩⟩

theorem exists_push (hfamily : m.family = .push) : ∃ code, push m = .ok code := by
  have hall : ∀ m ∈ Mnemonic.all, m.family = .push → m = .pha ∨ m = .php := by decide
  rcases hall m (Mnemonic.mem_all m) hfamily with rfl | rfl
  · exact ⟨_, rfl⟩
  · exact ⟨_, rfl⟩

theorem exists_pull (hfamily : m.family = .pull) : ∃ code, pull m = .ok code := by
  have hall : ∀ m ∈ Mnemonic.all, m.family = .pull → m = .pla ∨ m = .plp := by decide
  rcases hall m (Mnemonic.mem_all m) hfamily with rfl | rfl
  · exact ⟨_, rfl⟩
  · exact ⟨_, rfl⟩

theorem exists_cycles {i : Instruction} (h : i.isEncodable = true) :
    ∃ code, i.cycles = .ok code := by
  obtain ⟨m, mode⟩ := i
  by_cases hmemory : m.family ∈ memoryFamilies ∧ mode.isMemory = true
  · rcases exists_addressing hmemory.2 h with ⟨front, hfront⟩
    rcases exists_operandPhase hmemory.1 hmemory.2 h with ⟨phase, hphase⟩
    rw [cycles_of_isMemory hmemory.1 hmemory.2, hfront, hphase]
    exact ⟨_, rfl⟩
  -- From here on the operand, if there is one, is not in memory.
  have hother : m.family ∈ memoryFamilies → mode.isMemory = false := by
    intro hfamily
    exact eq_false_of_ne_true fun hmode => hmemory ⟨hfamily, hmode⟩
  have haccepts : m.family.accepts m mode = true := h
  unfold cycles
  cases hm : m.family with
  | branch =>
      obtain rfl : mode = .relative := by simpa [hm, Family.accepts] using haccepts
      rcases Mnemonic.exists_ownOp (m := m) (by rw [hm]; decide) with ⟨op, hop⟩
      exact ⟨_, by simp only [family, hm, hop]; rfl⟩
  | jump =>
      have hmode : mode = .absolute ∨ mode = .indirectAbsolute := by
        simpa [hm, Family.accepts] using haccepts
      rcases hmode with rfl | rfl
      · exact ⟨_, by simp only [family, hm]; rfl⟩
      · exact ⟨_, by simp only [family, hm]; rfl⟩
  | subroutine =>
      obtain rfl : mode = .absolute := by simpa [hm, Family.accepts] using haccepts
      exact ⟨_, by simp only [family, hm]; rfl⟩
  | forceBreak | interrupt | reset | returnFromSubroutine | returnFromInterrupt =>
      obtain rfl : mode = .implied := by simpa [hm, Family.accepts] using haccepts
      exact ⟨_, by simp only [family, hm]; rfl⟩
  | push =>
      obtain rfl : mode = .implied := by simpa [hm, Family.accepts] using haccepts
      rcases exists_push hm with ⟨code, hcode⟩
      exact ⟨code, by simp only [family, hm, hcode]⟩
  | pull =>
      obtain rfl : mode = .implied := by simpa [hm, Family.accepts] using haccepts
      rcases exists_pull hm with ⟨code, hcode⟩
      exact ⟨code, by simp only [family, hm, hcode]⟩
  | register | illegal =>
      obtain rfl : mode = .implied := by simpa [hm, Family.accepts] using haccepts
      rcases Mnemonic.exists_ownOp (m := m) (by rw [hm]; decide) with ⟨op, hop⟩
      exact ⟨_, by simp only [family, hm, hop]; rfl⟩
  | shift =>
      have hmode := hother (by rw [hm]; decide)
      obtain rfl : mode = .implied := by simpa [hm, Family.accepts, hmode] using haccepts
      rcases Mnemonic.exists_ownOp (m := m) (by rw [hm]; decide) with ⟨op, hop⟩
      exact ⟨_, by simp only [family, hm, hop]; rfl⟩
  | readModifyWrite | store =>
      have hmode := hother (by rw [hm]; decide)
      simp [hm, Family.accepts, hmode] at haccepts
  | unstableStore =>
      have hmode := hother (by rw [hm]; decide)
      cases hindex : mode.pageIndex? with
      | none => simp [hm, Family.accepts, hindex] at haccepts
      | some index =>
          rw [Mode.isMemory_of_pageIndex? hindex] at hmode
          cases hmode
  | read =>
      have hmode := hother (by rw [hm]; decide)
      obtain rfl : mode = .immediate := by simpa [hm, Family.accepts, hmode] using haccepts
      rcases exists_readImmediate hm with ⟨code, hcode⟩
      exact ⟨code, by simp only [family, hm, hcode]⟩
  | nop =>
      have hmode := hother (by rw [hm]; decide)
      have himmediate : mode = .implied ∨ mode = .immediate := by
        simpa [hm, Family.accepts, hmode] using haccepts
      rcases himmediate with rfl | rfl
      · exact ⟨_, by simp only [family, hm]; rfl⟩
      · exact ⟨_, by simp only [family, hm]; rfl⟩

theorem exists_microcode {i : Instruction} (h : i.isEncodable = true) :
    ∃ code, i.microcode = .ok code := by
  rw [microcode_eq_cycles]
  exact exists_cycles h

end Instruction

/-! ## Faults of the cycles -/

def FailsInCycles {α : Type} (outcome : Except Fault α) : Prop :=
  FailsWith (fun fault => fault.isOfCycles = true) outcome

theorem Mnemonic.failsInCycles_ownOp (m : Mnemonic) : FailsInCycles m.ownOp := by
  unfold ownOp
  split
  · exact failsWith_ok _ _
  · exact failsWith_error rfl

theorem Mnemonic.failsInCycles_indexOp (m : Mnemonic) (index : IndexRegister) :
    FailsInCycles (m.indexOp index) := by
  unfold indexOp
  split
  · split
    · exact failsWith_ok _ _
    · exact failsWith_error rfl
  · split <;> exact failsWith_ok _ _

namespace Instruction

variable (i : Instruction)

theorem failsInCycles_addressing : FailsInCycles i.addressing := by
  unfold addressing
  split
  case h_5 | h_6 | h_7 => exact (i.mnemonic.failsInCycles_indexOp _).bind fun _ => failsWith_ok _ _
  case h_9 | h_10 | h_11 | h_12 => exact failsWith_error rfl
  all_goals exact failsWith_ok _ _

theorem failsInCycles_modification : FailsInCycles i.modification := by
  unfold modification
  split
  · exact failsWith_ok _ _
  · exact i.mnemonic.failsInCycles_ownOp.bind fun _ => failsWith_ok _ _

theorem failsInCycles_operandPhase : FailsInCycles i.operandPhase := by
  unfold operandPhase
  split
  case h_1 | h_2 => exact i.failsInCycles_modification.bind fun _ => failsWith_ok _ _
  case h_3 | h_5 => exact i.mnemonic.failsInCycles_ownOp.bind fun _ => failsWith_ok _ _
  case h_4 | h_6 => exact failsWith_ok _ _
  case h_7 => exact failsWith_error rfl

theorem failsInCycles_readImmediate (m : Mnemonic) : FailsInCycles (readImmediate m) := by
  unfold readImmediate
  split
  · exact failsWith_ok _ _
  · exact (Mnemonic.failsInCycles_ownOp _).bind fun _ => failsWith_ok _ _

theorem failsInCycles_push (m : Mnemonic) : FailsInCycles (push m) := by
  unfold push
  split
  case h_3 => exact failsWith_error rfl
  all_goals exact failsWith_ok _ _

theorem failsInCycles_pull (m : Mnemonic) : FailsInCycles (pull m) := by
  unfold pull
  split
  case h_3 => exact failsWith_error rfl
  all_goals exact failsWith_ok _ _

theorem failsInCycles_cycles : FailsInCycles i.cycles := by
  have hown : FailsInCycles i.mnemonic.ownOp := i.mnemonic.failsInCycles_ownOp
  unfold cycles
  split
  case h_1 | h_12 | h_13 | h_14 => exact hown.bind fun _ => failsWith_ok _ _
  case h_10 => exact failsInCycles_push _
  case h_11 => exact failsInCycles_pull _
  case h_15 => exact failsInCycles_readImmediate _
  case h_18 =>
    split
    · refine i.failsInCycles_addressing.bind fun front => ?_
      exact i.failsInCycles_operandPhase.bind fun phase => failsWith_ok _ _
    · exact failsWith_error rfl
  all_goals exact failsWith_ok _ _

theorem failsInCycles_microcode : FailsInCycles i.microcode := by
  refine i.failsInCycles_cycles.bind fun code => ?_
  split
  · exact failsWith_error rfl
  · exact failsWith_ok _ _

end Instruction

end CycleTable

import CycleTable.Microcode
import CycleTable.Proofs.Success

/-!
# The microcode of an instruction

## Its forms

What the cycles of an instruction can be: those of a memory operand behind those that
resolve its address, those of an immediate operand, a form around the mnemonic's own
micro-op, or one of a few sequences that are always the same.
-/

namespace CycleTable.Instruction

/-- The sequences that hold no micro-op of a mnemonic's own. -/
def fixedCycles : List Microcode :=
  [
    [.rdL, .rdH, .ldPcHl],
    [.rdL, .rdH, .ldTmpMem, .ldHMemP1LTmp, .ldPcHl],
    [.rdL, .ldDummyMemSp, .pushPch, .pushPcl, .rdH, .ldPcHl],
    [.rdTmpNoDebug, .pushPch, .pushPcl, .brk, .pushTmp] ++ loadPcFromVector,
    [.ldDummyMemPc, .ldDummyMemSp, .pushPch, .pushPcl, .interrupt, .pushTmp] ++
      loadPcFromVector,
    [.decSp, .decSp, .reset, .decSp] ++ loadPcFromVector,
    [.ldDummyMemPc, .ldDummyMemSp, .popPcl, .popPch, .rdTmpNoDebug],
    [.ldDummyMemPc, .ldDummyMemSp, .popTmp, .ldSrTmp, .popPcl, .popPch],
    [.ldDummyMemPc, .ldTmpA, .pushTmp],
    [.ldDummyMemPc, .ldTmpSr, .pushTmp],
    [.ldDummyMemPc, .ldDummyMemSp, .popTmp, .setNz, .ldATmp],
    [.ldDummyMemPc, .ldDummyMemSp, .popTmp, .ldSrTmp],
    [.ldDummyMemPc],
    [.rdTmp]
  ]

variable {i : Instruction} {m : Mnemonic} {code : Microcode}

theorem mem_fixedCycles_of_push (h : push m = .ok code) : code ∈ fixedCycles := by
  unfold push at h
  split at h
  · cases h
    decide
  · cases h
    decide
  · cases h

theorem mem_fixedCycles_of_pull (h : pull m = .ok code) : code ∈ fixedCycles := by
  unfold pull at h
  split at h
  · cases h
    decide
  · cases h
    decide
  · cases h

theorem microcode_cases (h : i.microcode = .ok code) :
    (∃ front phase, i.mode.isMemory = true ∧ i.addressing = .ok front ∧
      i.operandPhase = .ok phase ∧ code = front ++ phase) ∨
    (i.mode = .immediate ∧ readImmediate i.mnemonic = .ok code) ∨
    (∃ op, i.mnemonic.ownOp = .ok op ∧
      (code = [.rdL, op, .jmpRelative] ∨ code = [op] ∨
        code = [.ldTmpA, op, .ldATmp, .ldDummyMemPc])) ∨
    code ∈ fixedCycles := by
  have hown {form : MicroOp → Microcode}
      (hform : (do return form (← i.mnemonic.ownOp)) = Except.ok code) :
      ∃ op, i.mnemonic.ownOp = .ok op ∧ code = form op := by
    obtain ⟨op, hop, ⟨⟩⟩ := bind_eq_ok_iff.mp hform
    exact ⟨op, hop, rfl⟩
  have hfixed {other : Microcode} (hmem : other ∈ fixedCycles)
      (heq : Except.ok (ε := Fault) other = .ok code) : code ∈ fixedCycles := by
    cases heq
    exact hmem
  rw [microcode_eq_cycles] at h
  unfold cycles at h
  split at h
  -- most rules give the same cycles to every instruction that they are for
  case h_2 | h_3 | h_4 | h_5 | h_6 | h_7 | h_8 | h_9 | h_16 | h_17 =>
    exact .inr (.inr (.inr (hfixed (by decide) h)))
  case h_10 => exact .inr (.inr (.inr (mem_fixedCycles_of_push h)))
  case h_11 => exact .inr (.inr (.inr (mem_fixedCycles_of_pull h)))
  case h_1 =>
    obtain ⟨op, hop, hcode⟩ := hown h
    exact .inr (.inr (.inl ⟨op, hop, .inl hcode⟩))
  case h_12 | h_13 =>
    obtain ⟨op, hop, hcode⟩ := hown h
    exact .inr (.inr (.inl ⟨op, hop, .inr (.inl hcode)⟩))
  case h_14 =>
    obtain ⟨op, hop, hcode⟩ := hown h
    exact .inr (.inr (.inl ⟨op, hop, .inr (.inr hcode)⟩))
  case h_15 _ hmode => exact .inr (.inl ⟨hmode, h⟩)
  case h_18 =>
    split at h
    · next hmemory =>
      obtain ⟨front, hfront, hrest⟩ := bind_eq_ok_iff.mp h
      obtain ⟨phase, hphase, ⟨⟩⟩ := bind_eq_ok_iff.mp hrest
      exact .inl ⟨front, phase, hmemory, hfront, hphase, rfl⟩
    · cases h

end CycleTable.Instruction

/-!
## No fetches

The engine takes a fetch for the end of a sequence. No micro-op that an instruction is made
of fetches an opcode: neither the mnemonics' own and paired ones, nor those that resolve an
address, nor those of any family's cycles.
-/

namespace CycleTable

/-- No micro-op of the sequence ends it before its last cycle. -/
def Microcode.FetchFree (code : Microcode) : Prop :=
  MicroOp.rdOpcode ∉ code

instance (code : Microcode) : Decidable code.FetchFree :=
  inferInstanceAs (Decidable (MicroOp.rdOpcode ∉ code))

namespace Microcode

@[simp] theorem fetchFree_nil : FetchFree [] := by
  simp [FetchFree]

@[simp] theorem fetchFree_cons {op : MicroOp} {code : Microcode} :
    FetchFree (op :: code) ↔ op ≠ .rdOpcode ∧ code.FetchFree := by
  simp [FetchFree, eq_comm]

@[simp] theorem fetchFree_append {front back : Microcode} :
    FetchFree (front ++ back) ↔ front.FetchFree ∧ back.FetchFree := by
  simp [FetchFree]

end Microcode

open Microcode

namespace Mnemonic

variable {m : Mnemonic} {op : MicroOp}

theorem ownOp_ne_rdOpcode (h : m.ownOp = .ok op) : op ≠ .rdOpcode := by
  rintro rfl
  cases m <;> cases h

theorem fusedOps?_fetchFree {first second : MicroOp}
    (h : m.fusedOps? = some (first, second)) : FetchFree [first, second] := by
  cases m <;> cases h <;> decide

theorem indexOp_ne_rdOpcode {index : IndexRegister} (h : m.indexOp index = .ok op) :
    op ≠ .rdOpcode := by
  rintro rfl
  cases m <;> cases index <;> cases h

end Mnemonic

namespace Instruction

variable {i : Instruction} {code : Microcode}

theorem fetchFree_addressing (h : i.addressing = .ok code) : FetchFree code := by
  obtain ⟨m, mode⟩ := i
  cases mode with
  | absoluteIndexedX | absoluteIndexedY | indirectIndexedY =>
      obtain ⟨op, hop, ⟨⟩⟩ := bind_eq_ok_iff.mp h
      simpa using Mnemonic.indexOp_ne_rdOpcode hop
  | zeroPage | zeroPageIndexedX | zeroPageIndexedY | absolute | indexedIndirectX =>
      cases h
      decide
  | _ => cases h

theorem fetchFree_modification (h : i.modification = .ok code) : FetchFree code := by
  unfold modification at h
  split at h
  · next hfused =>
    cases h
    exact Mnemonic.fusedOps?_fetchFree hfused
  · obtain ⟨op, hop, ⟨⟩⟩ := bind_eq_ok_iff.mp h
    simpa using Mnemonic.ownOp_ne_rdOpcode hop

theorem fetchFree_operandPhase (h : i.operandPhase = .ok code) : FetchFree code := by
  unfold operandPhase at h
  split at h
  · obtain ⟨change, hchange, ⟨⟩⟩ := bind_eq_ok_iff.mp h
    simpa using fetchFree_modification hchange
  · obtain ⟨change, hchange, ⟨⟩⟩ := bind_eq_ok_iff.mp h
    simpa using fetchFree_modification hchange
  · obtain ⟨op, hop, ⟨⟩⟩ := bind_eq_ok_iff.mp h
    simpa using Mnemonic.ownOp_ne_rdOpcode hop
  · cases h
    decide
  · obtain ⟨op, hop, ⟨⟩⟩ := bind_eq_ok_iff.mp h
    simpa using Mnemonic.ownOp_ne_rdOpcode hop
  · cases h
    decide
  · cases h

theorem fetchFree_readImmediate {m : Mnemonic} (h : readImmediate m = .ok code) :
    FetchFree code := by
  unfold readImmediate at h
  split at h
  · cases h
    decide
  · obtain ⟨op, hop, ⟨⟩⟩ := bind_eq_ok_iff.mp h
    simpa using Mnemonic.ownOp_ne_rdOpcode hop

theorem fetchFree_microcode (h : i.microcode = .ok code) : FetchFree code := by
  rcases microcode_cases h with ⟨front, phase, -, hfront, hphase, rfl⟩ | ⟨-, himm⟩ |
    ⟨op, hop, hcode⟩ | hfixed
  · exact fetchFree_append.mpr ⟨fetchFree_addressing hfront, fetchFree_operandPhase hphase⟩
  · exact fetchFree_readImmediate himm
  · have hne := Mnemonic.ownOp_ne_rdOpcode hop
    rcases hcode with rfl | rfl | rfl <;> simpa using hne
  · have hall : ∀ code ∈ fixedCycles, FetchFree code := by decide
    exact hall code hfixed

end Instruction

end CycleTable

/-!
## Disassembly

An instruction can be read back off its microcode, so that no two instructions that can be
encoded share theirs. Sequences that never vary are known by sight. Any other tells its
mnemonic by the micro-ops that are not common to many, and its mode by the cycles that
resolve the address.
-/

namespace CycleTable

namespace Microcode

/-- The instructions of the sequences that never vary, in the order of those. -/
def fixedInstructions : List Instruction :=
  [
    ⟨.jmp, .absolute⟩, ⟨.jmp, .indirectAbsolute⟩, ⟨.jsr, .absolute⟩, ⟨.brk, .implied⟩,
    ⟨.int, .implied⟩, ⟨.rst, .implied⟩, ⟨.rts, .implied⟩, ⟨.rti, .implied⟩,
    ⟨.pha, .implied⟩, ⟨.php, .implied⟩, ⟨.pla, .implied⟩, ⟨.plp, .implied⟩,
    ⟨.nop, .implied⟩, ⟨.nop, .immediate⟩
  ]

/-- Micro-ops that move bytes or index addresses for many mnemonics. -/
def isCommon : MicroOp → Bool
  | .rdTmp | .rdL | .rdH | .ldTmpMem | .ldMemTmp | .ldMemTmpNoDebug | .ldHMemP1LTmp
  | .ldDummyMemPc | .ldTmpA | .ldATmp | .jmpRelative
  | .addrX | .addrXSlow | .addrXZeroPage | .addrY | .addrYSlow | .addrYZeroPage => true
  | _ => false

/-- The mnemonic whose operation is the given micro-ops; without any, the one that does
nothing. -/
def mnemonic? : Microcode → Option Mnemonic
  | [] => some .nop
  | [op] => Mnemonic.all.find? fun m =>
      m.ownOp? == some op || m.unstableIndexOp? .x == some op ||
        m.unstableIndexOp? .y == some op
  | [first, second] =>
      if first = .and ∧ second = .lsr then some .asr
      else Mnemonic.all.find? fun m => m.fusedOps? == some (first, second)
  | _ => none

def pageIndex? : MicroOp → Option IndexRegister
  | .addrX | .addrXSlow | .addrXShy => some .x
  | .addrY | .addrYSlow | .addrYSha | .addrYShs | .addrYShx => some .y
  | _ => none

def memoryMode : Microcode → Mode
  | second :: third :: fourth =>
      if second = .rdH then
        match pageIndex? third with
        | some .x => .absoluteIndexedX
        | some .y => .absoluteIndexedY
        | none => .absolute
      else if second = .addrXZeroPage then
        if third = .ldTmpMem ∧ fourth.head? = some .ldHMemP1LTmp then .indexedIndirectX
        else .zeroPageIndexedX
      else if second = .addrYZeroPage then .zeroPageIndexedY
      else if third = .ldHMemP1LTmp then .indirectIndexedY
      else if third = .jmpRelative then .relative
      else .zeroPage
  | _ => .zeroPage

def mode : Microcode → Mode
  | [] => .implied
  | first :: rest =>
      if first = .rdL then memoryMode rest
      else if first = .rdTmp then .immediate
      else .implied

def instruction? (code : Microcode) : Option Instruction :=
  match (Instruction.fixedCycles.zip fixedInstructions).lookup code with
  | some i => some i
  | none => (mnemonic? (code.filter fun op => !isCommon op)).map fun m => ⟨m, mode code⟩

end Microcode

namespace Instruction

theorem instruction?_microcode {i : Instruction} {code : Microcode}
    (hi : i.isEncodable = true) (h : i.microcode = .ok code) :
    code.instruction? = some i := by
  have hall : ∀ m ∈ Mnemonic.all, ∀ mode ∈ Mode.all, isEncodable ⟨m, mode⟩ = true →
      (match microcode ⟨m, mode⟩ with
        | .ok code => code.instruction? == some ⟨m, mode⟩
        | .error _ => true) = true := by
    decide +kernel
  have hread := hall i.mnemonic (Mnemonic.mem_all _) i.mode (Mode.mem_all _) hi
  rw [h] at hread
  simpa using hread

theorem eq_of_microcode_eq {i other : Instruction} {code : Microcode}
    (hi : i.isEncodable = true) (hother : other.isEncodable = true)
    (h : i.microcode = .ok code) (h' : other.microcode = .ok code) : i = other := by
  have hread := instruction?_microcode hi h
  rw [instruction?_microcode hother h'] at hread
  exact (Option.some.inj hread).symm

end Instruction

end CycleTable

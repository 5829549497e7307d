import CycleTable.Fault
import CycleTable.Instruction

/-!
# Microcode

The micro-ops of an instruction in the order of its cycles. A memory instruction first
resolves its address, then goes through the cycles of its family:

* a read loads the operand into the temporary latch and works on the latch,
* a store writes without loading,
* a read-modify-write loads, writes back what it loaded, works, and writes the result.
-/

namespace CycleTable

abbrev Microcode := List MicroOp

namespace Microcode

/-- The micro-ops by one of their names, separated by single spaces. -/
def listed (code : Microcode) (name : MicroOp → String) : String :=
  " ".intercalate (code.map name)

def display (code : Microcode) : String :=
  code.listed MicroOp.name

end Microcode

namespace Mnemonic

def ownOp (m : Mnemonic) : Except Fault MicroOp :=
  match m.ownOp? with
  | some op => .ok op
  | none => .error (.noOwnOp m)

/--
The micro-op that adds an index register to a two-byte address. Only a read may go on
before the high byte is right, since a write cannot be undone.
-/
def indexOp (m : Mnemonic) (index : IndexRegister) : Except Fault MicroOp :=
  if m.family = .unstableStore then
    match m.unstableIndexOp? index with
    | some op => .ok op
    | none => .error (.notIndexable m index)
  else match m.memoryUse, index with
    | .readOnly, .x => .ok .addrX
    | .readOnly, .y => .ok .addrY
    | _, .x => .ok .addrXSlow
    | _, .y => .ok .addrYSlow

end Mnemonic

namespace Instruction

/-- The cycles that resolve the effective address of a data operand. -/
def addressing (i : Instruction) : Except Fault Microcode :=
  match i.mode with
  | .zeroPage => .ok [.rdL]
  | .zeroPageIndexedX => .ok [.rdL, .addrXZeroPage]
  | .zeroPageIndexedY => .ok [.rdL, .addrYZeroPage]
  | .absolute => .ok [.rdL, .rdH]
  | .absoluteIndexedX => do return [.rdL, .rdH, ← i.mnemonic.indexOp .x]
  | .absoluteIndexedY => do return [.rdL, .rdH, ← i.mnemonic.indexOp .y]
  | .indirectIndexedY => do
      return [.rdL, .ldTmpMem, .ldHMemP1LTmp, ← i.mnemonic.indexOp .y]
  | .indexedIndirectX => .ok [.rdL, .addrXZeroPage, .ldTmpMem, .ldHMemP1LTmp]
  | .implied | .immediate | .indirectAbsolute | .relative => .error (.notMemory i.mode)

/-- The operation of a read-modify-write: a pair of micro-ops, or the mnemonic's own. -/
def modification (i : Instruction) : Except Fault Microcode :=
  match i.mnemonic.fusedOps? with
  | some (first, second) => .ok [first, second]
  | none => do return [← i.mnemonic.ownOp]

/--
What is done with a memory operand once its address is resolved. An instruction without an
operation still reads the bus.
-/
def operandPhase (i : Instruction) : Except Fault Microcode :=
  match i.family with
  | .shift | .readModifyWrite => do
      return [.ldTmpMem, .ldMemTmpNoDebug] ++ (← i.modification) ++ [.ldMemTmp]
  | .store => do return [← i.mnemonic.ownOp]
  | .unstableStore => .ok [.ldMemTmp]
  | .read => do return [.ldTmpMem, ← i.mnemonic.ownOp]
  | .nop => .ok [.ldTmpMem]
  | _ => .error (.noCycles i.mnemonic i.mode)

/-- The engine has put the vector's address on the bus. -/
def loadPcFromVector : Microcode :=
  [.ldTmpMem, .ldHMemP1LTmp, .ldPcHl]

/-- One mnemonic works on the operand and then shifts the accumulator. -/
def readImmediate (m : Mnemonic) : Except Fault Microcode :=
  match m with
  | .asr => .ok [.rdTmp, .and, .ldTmpA, .lsr, .ldATmp]
  | m => do return [.rdTmp, ← m.ownOp]

def push (m : Mnemonic) : Except Fault Microcode :=
  match m with
  | .pha => .ok [.ldDummyMemPc, .ldTmpA, .pushTmp]
  | .php => .ok [.ldDummyMemPc, .ldTmpSr, .pushTmp]
  | m => .error (.notPush m)

def pull (m : Mnemonic) : Except Fault Microcode :=
  match m with
  | .pla => .ok [.ldDummyMemPc, .ldDummyMemSp, .popTmp, .setNz, .ldATmp]
  | .plp => .ok [.ldDummyMemPc, .ldDummyMemSp, .popTmp, .ldSrTmp]
  | m => .error (.notPull m)

/--
The cycles that the rule for a family and a mode gives. At a reset the stack pointer moves as for
three pushes, but nothing is written.
-/
def cycles (i : Instruction) : Except Fault Microcode :=
  match i.family, i.mode with
  | .branch, .relative => do return [.rdL, ← i.mnemonic.ownOp, .jmpRelative]
  | .jump, .absolute => .ok [.rdL, .rdH, .ldPcHl]
  | .jump, .indirectAbsolute => .ok [.rdL, .rdH, .ldTmpMem, .ldHMemP1LTmp, .ldPcHl]
  | .subroutine, .absolute =>
      .ok [.rdL, .ldDummyMemSp, .pushPch, .pushPcl, .rdH, .ldPcHl]
  | .forceBreak, .implied =>
      .ok ([.rdTmpNoDebug, .pushPch, .pushPcl, .brk, .pushTmp] ++ loadPcFromVector)
  | .interrupt, .implied =>
      .ok ([.ldDummyMemPc, .ldDummyMemSp, .pushPch, .pushPcl, .interrupt, .pushTmp] ++
        loadPcFromVector)
  | .reset, .implied => .ok ([.decSp, .decSp, .reset, .decSp] ++ loadPcFromVector)
  | .returnFromSubroutine, .implied =>
      .ok [.ldDummyMemPc, .ldDummyMemSp, .popPcl, .popPch, .rdTmpNoDebug]
  | .returnFromInterrupt, .implied =>
      .ok [.ldDummyMemPc, .ldDummyMemSp, .popTmp, .ldSrTmp, .popPcl, .popPch]
  | .push, .implied => push i.mnemonic
  | .pull, .implied => pull i.mnemonic
  | .register, .implied | .illegal, .implied => do return [← i.mnemonic.ownOp]
  | .shift, .implied => do
      return [.ldTmpA, ← i.mnemonic.ownOp, .ldATmp, .ldDummyMemPc]
  | .read, .immediate => readImmediate i.mnemonic
  | .nop, .implied => .ok [.ldDummyMemPc]
  | .nop, .immediate => .ok [.rdTmp]
  | _, mode =>
      if mode.isMemory then do return (← i.addressing) ++ (← i.operandPhase)
      else .error (.noCycles i.mnemonic i.mode)

/-- The cycles of an instruction, which have to fit in the cells of an entry. -/
def microcode (i : Instruction) : Except Fault Microcode := do
  let code ← i.cycles
  if code.isEmpty || cellsPerEntry < code.length then .error (.wrongLength i code.length)
  else return code

/-- No rule gives less than one cycle or more than nine. -/
theorem length_cycles {i : Instruction} {code : Microcode}
    (h : i.cycles = .ok code) : 1 ≤ code.length ∧ code.length ≤ 9 := by
  have hall : ∀ m ∈ Mnemonic.all, ∀ mode ∈ Mode.all,
      (match cycles ⟨m, mode⟩ with
        | .ok code => 1 ≤ code.length && code.length ≤ 9
        | .error _ => true) = true := by
    decide +kernel
  have hi := hall i.mnemonic (Mnemonic.mem_all _) i.mode (Mode.mem_all _)
  rw [h] at hi
  simpa using hi

theorem microcode_eq_cycles (i : Instruction) : i.microcode = i.cycles := by
  unfold microcode
  cases h : i.cycles with
  | error fault => rfl
  | ok code =>
      obtain ⟨hone, hnine⟩ := length_cycles h
      have hfits : (code.isEmpty || cellsPerEntry < code.length) = false := by
        rw [Bool.or_eq_false_iff, List.isEmpty_eq_false_iff, decide_eq_false_iff_not]
        refine ⟨List.ne_nil_of_length_pos hone, ?_⟩
        rw [cellsPerEntry]
        omega
      simp only [bind, Except.bind, hfits, Bool.false_eq_true, if_false]
      rfl

theorem length_microcode {i : Instruction} {code : Microcode}
    (h : i.microcode = .ok code) : 1 ≤ code.length ∧ code.length ≤ 9 := by
  rw [microcode_eq_cycles] at h
  exact length_cycles h

end Instruction

end CycleTable

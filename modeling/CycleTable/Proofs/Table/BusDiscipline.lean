import CycleTable.Proofs.Microcode.Cases
import CycleTable.Proofs.Microcode.Complete
import CycleTable.Proofs.Statement
import CycleTable.Proofs.Table.Walk

/-!
# The discipline on the bus

How often an instruction writes to its operand and when, what it loads before that, and how it
crosses a page. Which instructions may be encoded, what use they make of memory, and their cycles
are told in different places. What is said here holds only of all of them together.
-/

namespace CycleTable

open Microcode (pageIndex?)

namespace MicroOp

/-- The micro-ops that write to the address of an operand. -/
def isOperandWrite : MicroOp → Bool
  | .ldMemTmp | .ldMemTmpNoDebug | .sta | .stx | .sty | .sax => true
  | _ => false

def isArithmetic : MicroOp → Bool
  | .adc | .and | .asl | .cmp | .dec | .eor | .inc | .lsr | .ora | .rol | .ror | .sbc => true
  | _ => false

def isFastIndex : MicroOp → Bool
  | .addrX | .addrY => true
  | _ => false

/-- Micro-ops that neither write to an operand nor index an address across pages. -/
def isInert (op : MicroOp) : Bool :=
  !op.isOperandWrite && (pageIndex? op).isNone

variable {op : MicroOp}

theorem isOperandWrite_of_isInert (h : op.isInert = true) : op.isOperandWrite = false := by
  simp only [isInert, Bool.and_eq_true] at h
  simpa using h.1

theorem pageIndex?_of_isInert (h : op.isInert = true) : pageIndex? op = none := by
  simp only [isInert, Bool.and_eq_true] at h
  simpa using h.2

theorem isInert_of_isArithmetic (h : op.isArithmetic = true) : op.isInert = true := by
  cases op with
  | adc | and | asl | cmp | dec | eor | inc | lsr | ora | rol | ror | sbc => rfl
  | _ => cases h

theorem pageIndex?_of_isOperandWrite (h : op.isOperandWrite = true) : pageIndex? op = none := by
  cases op with
  | ldMemTmp | ldMemTmpNoDebug | sta | stx | sty | sax => rfl
  | _ => cases h

end MicroOp

namespace Microcode

/-- Every byte that is loaded is the low byte of a pointer, whose high byte is loaded next. -/
def LoadsPointersOnly (code : Microcode) : Prop :=
  ∀ place, code[place]? = some .ldTmpMem → code[place + 1]? = some .ldHMemP1LTmp

variable {op : MicroOp} {front back code : Microcode}

theorem loadsPointersOnly_nil : LoadsPointersOnly [] := by
  intro place h
  cases h

theorem loadsPointersOnly_cons :
    LoadsPointersOnly (op :: code) ↔
      (op = .ldTmpMem → code.head? = some .ldHMemP1LTmp) ∧ LoadsPointersOnly code := by
  constructor
  · intro h
    refine ⟨?_, fun place hplace => h (place + 1) hplace⟩
    intro hop
    have hnext := h 0 (by rw [hop]; rfl)
    rw [List.head?_eq_getElem?]
    exact hnext
  · intro h place hplace
    cases place with
    | zero =>
        have hnext := h.1 (Option.some.inj hplace)
        rw [List.head?_eq_getElem?] at hnext
        exact hnext
    | succ place => exact h.2 place hplace

instance decidableLoadsPointersOnly : (code : Microcode) → Decidable code.LoadsPointersOnly
  | [] => isTrue loadsPointersOnly_nil
  | _ :: rest =>
      have := decidableLoadsPointersOnly rest
      decidable_of_iff _ loadsPointersOnly_cons.symm

theorem loadsPointersOnly_singleton (h : op ≠ .ldTmpMem) : LoadsPointersOnly [op] :=
  loadsPointersOnly_cons.mpr ⟨fun hop => absurd hop h, loadsPointersOnly_nil⟩

theorem LoadsPointersOnly.append (hfront : LoadsPointersOnly front)
    (hback : LoadsPointersOnly back) : LoadsPointersOnly (front ++ back) := by
  induction front with
  | nil => exact hback
  | cons op rest ih =>
      rw [loadsPointersOnly_cons] at hfront
      rw [List.cons_append, loadsPointersOnly_cons]
      refine ⟨?_, ih hfront.2⟩
      intro hop
      rw [List.head?_append, hfront.1 hop]
      rfl

end Microcode

namespace Mnemonic

variable {m : Mnemonic} {op : MicroOp} {index : IndexRegister}

theorem ownOp?_of_ownOp (h : m.ownOp = .ok op) : m.ownOp? = some op := by
  unfold ownOp at h
  split at h
  · next own hown =>
    rw [hown, Except.ok.inj h]
  · cases h

theorem test_of_ownOp {test : MicroOp → Bool} (h : m.ownOp = .ok op)
    (htest : m.ownOp?.all test = true) : test op = true := by
  rw [ownOp?_of_ownOp h] at htest
  exact htest

theorem isInert_of_ownOp (h : m.ownOp = .ok op) (hfamily : m.family ≠ .store) :
    op.isInert = true := by
  have hall : ∀ m ∈ all, m.family ≠ .store → m.ownOp?.all MicroOp.isInert = true := by decide
  exact test_of_ownOp h (hall m (mem_all m) hfamily)

theorem isOperandWrite_of_ownOp (h : m.ownOp = .ok op) (hfamily : m.family = .store) :
    op.isOperandWrite = true := by
  have hall : ∀ m ∈ all, m.family = .store → m.ownOp?.all MicroOp.isOperandWrite = true := by
    decide
  exact test_of_ownOp h (hall m (mem_all m) hfamily)

theorem isArithmetic_of_ownOp (h : m.ownOp = .ok op)
    (hfamily : m.family = .shift ∨ m.family = .readModifyWrite) : op.isArithmetic = true := by
  have hall : ∀ m ∈ all, m.family = .shift ∨ m.family = .readModifyWrite →
      m.ownOp?.all MicroOp.isArithmetic = true := by
    decide
  exact test_of_ownOp h (hall m (mem_all m) hfamily)

theorem isArithmetic_of_fusedOps? {first second : MicroOp}
    (h : m.fusedOps? = some (first, second)) :
    first.isArithmetic = true ∧ second.isArithmetic = true := by
  have hall : ∀ m ∈ all,
      m.fusedOps?.all (fun pair => pair.1.isArithmetic && pair.2.isArithmetic) = true := by
    decide
  have hpair := hall m (mem_all m)
  rw [h] at hpair
  simpa using hpair

theorem indexOp_spec (h : m.indexOp index = .ok op) :
    pageIndex? op = some index ∧ (op.isFastIndex = true ↔ m.memoryUse = .readOnly) := by
  unfold indexOp at h
  split at h
  · next hfamily =>
    have hall : ∀ m ∈ all, ∀ index ∈ [IndexRegister.x, .y],
        (m.unstableIndexOp? index).all (fun op =>
          pageIndex? op == some index && !op.isFastIndex) = true := by
      decide
    have hop := hall m (mem_all m) index (by cases index <;> decide)
    have huse : m.memoryUse = .store := by rw [memoryUse, hfamily]; rfl
    split at h
    · next found hfound =>
      cases h
      rw [hfound] at hop
      simpa [huse] using hop
    · cases h
  · cases huse : m.memoryUse with
    | readOnly | store | readModifyWrite =>
        rw [huse] at h
        cases index with
        | x | y =>
            cases h
            exact ⟨rfl, by decide⟩

end Mnemonic

namespace Microcode

/-- Cycles that resolve an address, with the register that is added to one of two bytes. -/
structure Resolves (m : Mnemonic) (index? : Option IndexRegister) (front : Microcode) : Prop where
  noWrite : ∀ op ∈ front, op.isOperandWrite = false
  pageIndex : front.filterMap pageIndex? = index?.toList
  fast : ∀ op ∈ front, (pageIndex? op).isSome = true →
    (op.isFastIndex = true ↔ m.memoryUse = .readOnly)
  pointers : front.LoadsPointersOnly

/-- Cycles that make some use of a memory operand whose address is resolved. -/
inductive UsesOperand : MemoryUse → Microcode → Prop
  | readOnly {phase : Microcode} (hinert : ∀ op ∈ phase, op.isInert = true) :
      UsesOperand .readOnly phase
  | store {op : MicroOp} (hwrite : op.isOperandWrite = true) : UsesOperand .store [op]
  | readModifyWrite {change : Microcode} (hlength : change.length = 1 ∨ change.length = 2)
      (harithmetic : ∀ op ∈ change, op.isArithmetic = true) :
      UsesOperand .readModifyWrite ([.ldTmpMem, .ldMemTmpNoDebug] ++ change ++ [.ldMemTmp])

variable {m : Mnemonic} {use : MemoryUse} {index : IndexRegister} {op : MicroOp}
  {front phase code : Microcode}

theorem filter_isOperandWrite_eq_nil_iff :
    code.filter MicroOp.isOperandWrite = [] ↔ ∀ op ∈ code, op.isOperandWrite = false := by
  simp only [List.filter_eq_nil_iff, Bool.not_eq_true]

theorem resolves_of_isInert (hinert : ∀ op ∈ front, op.isInert = true)
    (hpointers : front.LoadsPointersOnly) : Resolves m none front where
  noWrite := fun op hop => MicroOp.isOperandWrite_of_isInert (hinert op hop)
  pageIndex :=
    List.filterMap_eq_nil_iff.mpr fun op hop => MicroOp.pageIndex?_of_isInert (hinert op hop)
  fast := by
    intro op hop hindex
    rw [MicroOp.pageIndex?_of_isInert (hinert op hop)] at hindex
    cases hindex
  pointers := hpointers

theorem Resolves.append_indexOp (h : Resolves m none front) (hop : m.indexOp index = .ok op) :
    Resolves m (some index) (front ++ [op]) := by
  obtain ⟨hindex, hfast⟩ := Mnemonic.indexOp_spec hop
  constructor
  · refine List.forall_mem_append.mpr ⟨h.noWrite, ?_⟩
    rw [List.forall_mem_singleton]
    cases hwrite : op.isOperandWrite with
    | false => rfl
    | true =>
        rw [MicroOp.pageIndex?_of_isOperandWrite hwrite] at hindex
        cases hindex
  · rw [List.filterMap_append, h.pageIndex, List.filterMap_cons_some hindex]
    rfl
  · refine List.forall_mem_append.mpr ⟨h.fast, ?_⟩
    rw [List.forall_mem_singleton]
    intro _
    exact hfast
  · refine h.pointers.append (loadsPointersOnly_singleton ?_)
    rintro rfl
    cases hindex

theorem UsesOperand.pageIndex?_eq_none (h : UsesOperand use phase) :
    ∀ op ∈ phase, pageIndex? op = none := by
  cases h with
  | readOnly hinert => exact fun op hop => MicroOp.pageIndex?_of_isInert (hinert op hop)
  | store hwrite =>
      exact List.forall_mem_singleton.mpr (MicroOp.pageIndex?_of_isOperandWrite hwrite)
  | readModifyWrite hlength harithmetic =>
      refine List.forall_mem_append.mpr ⟨List.forall_mem_append.mpr ⟨by decide, ?_⟩, by decide⟩
      intro op hop
      exact MicroOp.pageIndex?_of_isInert (MicroOp.isInert_of_isArithmetic (harithmetic op hop))

end Microcode

namespace Family

variable {family : Family} {m : Mnemonic} {mode : Mode}

theorem mem_memoryFamilies {use : MemoryUse} (huse : family.memoryUse = use)
    (hwrites : use ≠ .readOnly) : family ∈ Instruction.memoryFamilies := by
  cases family with
  | shift | readModifyWrite | store | unstableStore => decide
  | _ => exact absurd huse.symm hwrites

theorem isMemory_of_accepts (huse : family.memoryUse = .store)
    (h : family.accepts m mode = true) : mode.isMemory = true := by
  cases family with
  | store => exact h
  | unstableStore =>
      cases hindex : mode.pageIndex? with
      | none => simp [accepts, hindex] at h
      | some index => exact Mode.isMemory_of_pageIndex? hindex
  | _ => cases huse

theorem pageIndex?_of_accepts (hother : family ∉ Instruction.memoryFamilies)
    (h : family.accepts m mode = true) : mode.pageIndex? = none := by
  cases family with
  | shift | readModifyWrite | store | unstableStore | read | nop => exact absurd (by decide) hother
  | _ =>
      cases mode with
      | absoluteIndexedX | absoluteIndexedY | indirectIndexedY => cases h
      | _ => rfl

end Family

open Microcode (Resolves UsesOperand LoadsPointersOnly)

namespace Instruction

variable {i : Instruction} {m : Mnemonic} {code front phase change : Microcode}

theorem resolves_addressing (h : i.addressing = .ok front) :
    Resolves i.mnemonic i.mode.pageIndex? front := by
  obtain ⟨m, mode⟩ := i
  cases mode with
  | absoluteIndexedX | absoluteIndexedY =>
      obtain ⟨op, hop, ⟨⟩⟩ := bind_eq_ok_iff.mp h
      have hfront : Resolves m none [.rdL, .rdH] :=
        Microcode.resolves_of_isInert (by decide) (by decide)
      exact hfront.append_indexOp hop
  | indirectIndexedY =>
      obtain ⟨op, hop, ⟨⟩⟩ := bind_eq_ok_iff.mp h
      have hfront : Resolves m none [.rdL, .ldTmpMem, .ldHMemP1LTmp] :=
        Microcode.resolves_of_isInert (by decide) (by decide)
      exact hfront.append_indexOp hop
  | implied | immediate | indirectAbsolute | relative => cases h
  | _ =>
      cases h
      exact Microcode.resolves_of_isInert (by decide) (by decide)

theorem length_modification (h : i.modification = .ok change) :
    change.length = 1 ∨ change.length = 2 := by
  unfold modification at h
  split at h
  · cases h
    exact Or.inr rfl
  · obtain ⟨op, _, ⟨⟩⟩ := bind_eq_ok_iff.mp h
    exact Or.inl rfl

theorem isArithmetic_of_mem_modification (h : i.modification = .ok change)
    (hfamily : i.family = .shift ∨ i.family = .readModifyWrite) :
    ∀ op ∈ change, op.isArithmetic = true := by
  unfold modification at h
  split at h
  · next hfused =>
    obtain ⟨hfirst, hsecond⟩ := Mnemonic.isArithmetic_of_fusedOps? hfused
    cases h
    exact List.forall_mem_cons.mpr ⟨hfirst, List.forall_mem_singleton.mpr hsecond⟩
  · obtain ⟨op, hop, ⟨⟩⟩ := bind_eq_ok_iff.mp h
    exact List.forall_mem_singleton.mpr (Mnemonic.isArithmetic_of_ownOp hop hfamily)

theorem usesOperand_modification (h : i.modification = .ok change)
    (hfamily : i.family = .shift ∨ i.family = .readModifyWrite) :
    UsesOperand .readModifyWrite ([.ldTmpMem, .ldMemTmpNoDebug] ++ change ++ [.ldMemTmp]) :=
  UsesOperand.readModifyWrite (length_modification h) (isArithmetic_of_mem_modification h hfamily)

theorem usesOperand_operandPhase (h : i.operandPhase = .ok phase) :
    UsesOperand i.mnemonic.memoryUse phase := by
  have huse : i.mnemonic.memoryUse = i.family.memoryUse := rfl
  rw [huse]
  unfold operandPhase at h
  split at h
  · next hfamily =>
    obtain ⟨change, hchange, ⟨⟩⟩ := bind_eq_ok_iff.mp h
    rw [hfamily]
    exact usesOperand_modification hchange (Or.inl hfamily)
  · next hfamily =>
    obtain ⟨change, hchange, ⟨⟩⟩ := bind_eq_ok_iff.mp h
    rw [hfamily]
    exact usesOperand_modification hchange (Or.inr hfamily)
  · next hfamily =>
    obtain ⟨op, hop, ⟨⟩⟩ := bind_eq_ok_iff.mp h
    rw [hfamily]
    exact UsesOperand.store (Mnemonic.isOperandWrite_of_ownOp hop hfamily)
  · next hfamily =>
    cases h
    rw [hfamily]
    exact UsesOperand.store rfl
  · next hfamily =>
    obtain ⟨op, hop, ⟨⟩⟩ := bind_eq_ok_iff.mp h
    have hinert : op.isInert = true :=
      Mnemonic.isInert_of_ownOp hop (by rw [← family, hfamily]; decide)
    rw [hfamily]
    exact UsesOperand.readOnly
      (List.forall_mem_cons.mpr ⟨rfl, List.forall_mem_singleton.mpr hinert⟩)
  · next hfamily =>
    cases h
    rw [hfamily]
    exact UsesOperand.readOnly (by decide)
  · cases h

/--
How an instruction treats the bus. One that modifies memory loads its operand, writes it back as it
was, works on it, and writes the result; one that stores writes in its last cycle, and loads nothing
but pointers before; any other writes to no operand. A page is crossed once, in the register that
the mode adds, and only a read does so without waiting.
-/
structure BusDiscipline (i : Instruction) (code : Microcode) : Prop where
  readModifyWrite : i.mode.isMemory = true → i.mnemonic.memoryUse = .readModifyWrite →
    ∃ front change, code = front ++ ([.ldTmpMem, .ldMemTmpNoDebug] ++ change ++ [.ldMemTmp]) ∧
      (change.length = 1 ∨ change.length = 2) ∧ (∀ op ∈ change, op.isArithmetic = true) ∧
        code.filter MicroOp.isOperandWrite = [.ldMemTmpNoDebug, .ldMemTmp]
  store : i.mnemonic.memoryUse = .store →
    ∃ front op, code = front ++ [op] ∧ code.filter MicroOp.isOperandWrite = [op] ∧
      code.LoadsPointersOnly
  noWrite : (i.mode.isMemory = true → i.mnemonic.memoryUse ≠ .readModifyWrite) →
    i.mnemonic.memoryUse ≠ .store → code.filter MicroOp.isOperandWrite = []
  pageIndex : code.filterMap pageIndex? = i.mode.pageIndex?.toList
  fast : ∀ op ∈ code, (pageIndex? op).isSome = true →
    (op.isFastIndex = true ↔ i.mnemonic.memoryUse = .readOnly)

theorem busDiscipline_append (hmode : i.mode.isMemory = true)
    (hfront : Resolves i.mnemonic i.mode.pageIndex? front)
    (hphase : UsesOperand i.mnemonic.memoryUse phase) : BusDiscipline i (front ++ phase) := by
  -- Nothing is written while the address is resolved, and it is indexed by then.
  have hfilter : (front ++ phase).filter MicroOp.isOperandWrite =
      phase.filter MicroOp.isOperandWrite := by
    rw [List.filter_append, Microcode.filter_isOperandWrite_eq_nil_iff.mpr hfront.noWrite,
      List.nil_append]
  have hindexed := hphase.pageIndex?_eq_none
  generalize huse : i.mnemonic.memoryUse = use at hphase
  constructor
  · intro _ hmodify
    rw [hmodify] at huse
    subst huse
    cases hphase with
    | @readModifyWrite change hlength harithmetic =>
        refine ⟨front, change, rfl, hlength, harithmetic, ?_⟩
        have hchange := Microcode.filter_isOperandWrite_eq_nil_iff.mpr fun op hop =>
          MicroOp.isOperandWrite_of_isInert (MicroOp.isInert_of_isArithmetic (harithmetic op hop))
        rw [hfilter, List.filter_append, List.filter_append, hchange]
        rfl
  · intro hstore
    rw [hstore] at huse
    subst huse
    cases hphase with
    | @store op hwrite =>
        refine ⟨front, op, rfl, ?_, ?_⟩
        · rw [hfilter, List.filter_cons_of_pos hwrite]
          rfl
        · refine hfront.pointers.append (Microcode.loadsPointersOnly_singleton ?_)
          rintro rfl
          cases hwrite
  · intro hmodify hstore
    cases hphase with
    | readOnly hinert =>
        rw [hfilter, Microcode.filter_isOperandWrite_eq_nil_iff]
        exact fun op hop => MicroOp.isOperandWrite_of_isInert (hinert op hop)
    | store => exact absurd huse hstore
    | readModifyWrite => exact absurd huse (hmodify hmode)
  · rw [List.filterMap_append, hfront.pageIndex, List.filterMap_eq_nil_iff.mpr hindexed,
      List.append_nil]
  · refine List.forall_mem_append.mpr ⟨hfront.fast, ?_⟩
    intro op hop hindex
    rw [hindexed op hop] at hindex
    cases hindex

theorem busDiscipline_of_isInert (hinert : ∀ op ∈ code, op.isInert = true)
    (hmodify : i.mode.isMemory = true → i.mnemonic.memoryUse ≠ .readModifyWrite)
    (hstore : i.mnemonic.memoryUse ≠ .store) (hindex : i.mode.pageIndex? = none) :
    BusDiscipline i code where
  readModifyWrite := fun hmode huse => absurd huse (hmodify hmode)
  store := fun huse => absurd huse hstore
  noWrite := fun _ _ => Microcode.filter_isOperandWrite_eq_nil_iff.mpr fun op hop =>
    MicroOp.isOperandWrite_of_isInert (hinert op hop)
  pageIndex := by
    rw [hindex]
    exact List.filterMap_eq_nil_iff.mpr fun op hop => MicroOp.pageIndex?_of_isInert (hinert op hop)
  fast := by
    intro op hop hsome
    rw [MicroOp.pageIndex?_of_isInert (hinert op hop)] at hsome
    cases hsome

theorem family_mem_memoryFamilies (h : i.operandPhase = .ok phase) :
    i.family ∈ memoryFamilies := by
  unfold operandPhase at h
  split at h
  case h_7 => cases h
  all_goals
    next hfamily =>
      rw [hfamily]
      decide

theorem isInert_of_readImmediate (h : readImmediate m = .ok code) (hfamily : m.family ≠ .store) :
    ∀ op ∈ code, op.isInert = true := by
  unfold readImmediate at h
  split at h
  · cases h
    decide
  · obtain ⟨op, hop, ⟨⟩⟩ := bind_eq_ok_iff.mp h
    have hinert := Mnemonic.isInert_of_ownOp hop hfamily
    exact List.forall_mem_cons.mpr ⟨rfl, List.forall_mem_singleton.mpr hinert⟩

theorem busDiscipline_of_microcode (hi : i.isEncodable = true) (h : i.microcode = .ok code) :
    BusDiscipline i code := by
  by_cases hmemory : i.family ∈ memoryFamilies ∧ i.mode.isMemory = true
  · obtain ⟨m, mode⟩ := i
    rw [microcode_eq_cycles, cycles_of_isMemory hmemory.1 hmemory.2] at h
    obtain ⟨front, hfront, hrest⟩ := bind_eq_ok_iff.mp h
    obtain ⟨phase, hphase, ⟨⟩⟩ := bind_eq_ok_iff.mp hrest
    exact busDiscipline_append hmemory.2 (resolves_addressing hfront)
      (usesOperand_operandPhase hphase)
  · -- Cycles are built here for more than may be encoded, some of it in modes that cross pages.
    have hstore : i.mnemonic.memoryUse ≠ .store := fun huse =>
      hmemory ⟨Family.mem_memoryFamilies huse (by decide), Family.isMemory_of_accepts huse hi⟩
    have hmodify : i.mode.isMemory = true → i.mnemonic.memoryUse ≠ .readModifyWrite :=
      fun hmode huse => hmemory ⟨Family.mem_memoryFamilies huse (by decide), hmode⟩
    have hfamily : i.mnemonic.family ≠ .store := fun heq =>
      hstore (by rw [Mnemonic.memoryUse, heq]; rfl)
    have hindex : i.mode.pageIndex? = none := by
      cases hindex : i.mode.pageIndex? with
      | none => rfl
      | some index =>
          have hmode := Mode.isMemory_of_pageIndex? hindex
          rw [Family.pageIndex?_of_accepts (fun hmem => hmemory ⟨hmem, hmode⟩) hi] at hindex
          cases hindex
    refine busDiscipline_of_isInert ?_ hmodify hstore hindex
    obtain ⟨front, phase, hmode, _, hphase, _⟩ | ⟨_, himmediate⟩ | ⟨op, hop, hcode⟩ | hfixed :=
      microcode_cases h
    · exact absurd ⟨family_mem_memoryFamilies hphase, hmode⟩ hmemory
    · exact isInert_of_readImmediate himmediate hfamily
    · have hinert := Mnemonic.isInert_of_ownOp hop hfamily
      obtain rfl | rfl | rfl := hcode
      · exact List.forall_mem_cons.mpr ⟨rfl, List.forall_mem_cons.mpr ⟨hinert, by decide⟩⟩
      · exact List.forall_mem_singleton.mpr hinert
      · exact List.forall_mem_cons.mpr ⟨rfl, List.forall_mem_cons.mpr ⟨hinert, by decide⟩⟩
    · have hall : ∀ code ∈ fixedCycles, ∀ op ∈ code, op.isInert = true := by decide
      exact hall code hfixed

end Instruction

namespace Table

variable {list : List Descriptor} {table : Table}

/-- The cells of every entry are cycles that keep the discipline of its instruction, and padding. -/
theorem busDiscipline_of_ofDescriptors (h : ofDescriptors list = .ok table) {id : Nat}
    (hid : id ≤ resetId) :
    ∃ d instruction code padding, list[id]? = some d ∧
      Instruction.ofText d.text = .ok instruction ∧ instruction.microcode = .ok code ∧
        table.entryCells? id = some (code.map .step ++ padding) ∧
          (∀ cell ∈ padding, cell.isPadding = true) ∧ instruction.BusDiscipline code := by
  obtain ⟨entry, hentry, hbuilt, hd⟩ := exists_entry h (Nat.lt_succ_of_le hid)
  obtain ⟨padding, hcells, _, hpadding⟩ := entryCells?_of_getElem? hentry hbuilt.length_microcode_lt
  have hencodable := Instruction.isEncodable_of_ofText hbuilt.instruction
  exact ⟨entry.descriptor, entry.instruction, entry.microcode, padding, hd, hbuilt.instruction,
    hbuilt.microcode, hcells, hpadding,
    Instruction.busDiscipline_of_microcode hencodable hbuilt.microcode⟩

/-- The longest entry of the standard table writes twice. -/
theorem busDiscipline_standard_longest :
    ∃ (table : Table) (code : Microcode) (padding : List Cell),
      ofDescriptors Descriptor.standard = .ok table ∧
        table.entryCells? 0xF3 = some (code.map .step ++ padding) ∧ code.length = 9 ∧
          code.filter MicroOp.isOperandWrite = [.ldMemTmpNoDebug, .ldMemTmp] := by
  obtain ⟨table, h⟩ := exists_ofDescriptors_standard
  obtain ⟨d, instruction, code, padding, hd, hinstruction, hcode, hcells, _, hbus⟩ :=
    busDiscipline_of_ofDescriptors h (by decide : 0xF3 ≤ resetId)
  have hstandard : Descriptor.standard[0xF3]? = some ⟨0xF3, "ISB (nn),Y"⟩ := by decide +kernel
  obtain rfl := Option.some.inj (hstandard.symm.trans hd)
  obtain rfl : ⟨.isb, .indirectIndexedY⟩ = instruction := Except.ok.inj hinstruction
  obtain ⟨_, _, _, _, _, hwrites⟩ := hbus.readModifyWrite rfl rfl
  cases hcode
  exact ⟨table, _, padding, h, hcells, rfl, hwrites⟩

end Table

end CycleTable

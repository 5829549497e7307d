import CycleTable.MicroOp

/-!
# Instructions

A mnemonic with an addressing mode: the modes, the mnemonics and what each of them is made of, and
the modes that a family of mnemonics can be encoded with.

## Addressing modes

How an instruction finds its operand, and the index register that a mode adds to an
address.
-/

namespace CycleTable

inductive IndexRegister
  | x
  | y
  deriving DecidableEq, Repr

def IndexRegister.name : IndexRegister → String
  | .x => "X"
  | .y => "Y"

inductive Mode
  | implied
  | immediate
  | zeroPage
  | zeroPageIndexedX
  | zeroPageIndexedY
  | absolute
  | absoluteIndexedX
  | absoluteIndexedY
  | indirectIndexedY
  | indexedIndirectX
  | indirectAbsolute
  | relative
  deriving DecidableEq, Repr

namespace Mode

def all : List Mode :=
  [
    .implied, .immediate, .zeroPage, .zeroPageIndexedX, .zeroPageIndexedY, .absolute,
    .absoluteIndexedX, .absoluteIndexedY, .indirectIndexedY, .indexedIndirectX,
    .indirectAbsolute, .relative
  ]

def name : Mode → String
  | .implied => "Implied"
  | .immediate => "Immediate"
  | .zeroPage => "ZeroPage"
  | .zeroPageIndexedX => "ZeroPageIndexedX"
  | .zeroPageIndexedY => "ZeroPageIndexedY"
  | .absolute => "Absolute"
  | .absoluteIndexedX => "AbsoluteIndexedX"
  | .absoluteIndexedY => "AbsoluteIndexedY"
  | .indirectIndexedY => "IndirectIndexedY"
  | .indexedIndirectX => "IndexedIndirectX"
  | .indirectAbsolute => "IndirectAbsolute"
  | .relative => "Relative"

/-- The modes that resolve the effective address of a data operand. -/
def isMemory : Mode → Bool
  | .zeroPage | .zeroPageIndexedX | .zeroPageIndexedY | .absolute | .absoluteIndexedX
  | .absoluteIndexedY | .indirectIndexedY | .indexedIndirectX => true
  | .implied | .immediate | .indirectAbsolute | .relative => false

/--
The register that is added to a two-byte address, where the sum may lie on another page.
Zero-page indexing wraps and has none.
-/
def pageIndex? : Mode → Option IndexRegister
  | .absoluteIndexedX => some .x
  | .absoluteIndexedY | .indirectIndexedY => some .y
  | _ => none

theorem mem_all (mode : Mode) : mode ∈ all := by
  cases mode <;> decide

theorem isMemory_of_pageIndex? {mode : Mode} {index : IndexRegister}
    (h : mode.pageIndex? = some index) : mode.isMemory = true := by
  cases mode <;> simp [pageIndex?] at h <;> rfl

end Mode

/-!
## Mnemonics

The closed set of instruction names. A name is written in upper case.
-/

/--
The documented mnemonics, then the undocumented ones from `anc` on, the two sequences that
the engine enters itself, and the opcode that halts or has no defined behaviour.
-/
inductive Mnemonic
  | adc | and | asl | bcc | bcs | beq | bit | bmi | bne | bpl | brk | bvc | bvs | clc
  | cld | cli | clv | cmp | cpx | cpy | dec | dex | dey | eor | inc | inx | iny | jmp
  | jsr | lda | ldx | ldy | lsr | nop | ora | pha | php | pla | plp | rol | ror | rti
  | rts | sbc | sec | sed | sei | sta | stx | sty | tax | tay | tsx | txa | txs | tya
  | anc | ane | arr | asr | dcp | isb | las | lax | lxa | rla | rra | sax | sbx | sha
  | shs | shx | shy | slo | sre
  | int | rst
  | illegal
  deriving DecidableEq, Repr

namespace Mnemonic

def all : List Mnemonic :=
  [
    .adc, .and, .asl, .bcc, .bcs, .beq, .bit, .bmi, .bne, .bpl, .brk, .bvc, .bvs, .clc,
    .cld, .cli, .clv, .cmp, .cpx, .cpy, .dec, .dex, .dey, .eor, .inc, .inx, .iny, .jmp,
    .jsr, .lda, .ldx, .ldy, .lsr, .nop, .ora, .pha, .php, .pla, .plp, .rol, .ror, .rti,
    .rts, .sbc, .sec, .sed, .sei, .sta, .stx, .sty, .tax, .tay, .tsx, .txa, .txs, .tya,
    .anc, .ane, .arr, .asr, .dcp, .isb, .las, .lax, .lxa, .rla, .rra, .sax, .sbx, .sha,
    .shs, .shx, .shy, .slo, .sre, .int, .rst, .illegal
  ]

def name : Mnemonic → String
  | .adc => "ADC" | .and => "AND" | .asl => "ASL" | .bcc => "BCC" | .bcs => "BCS"
  | .beq => "BEQ" | .bit => "BIT" | .bmi => "BMI" | .bne => "BNE" | .bpl => "BPL"
  | .brk => "BRK" | .bvc => "BVC" | .bvs => "BVS" | .clc => "CLC" | .cld => "CLD"
  | .cli => "CLI" | .clv => "CLV" | .cmp => "CMP" | .cpx => "CPX" | .cpy => "CPY"
  | .dec => "DEC" | .dex => "DEX" | .dey => "DEY" | .eor => "EOR" | .inc => "INC"
  | .inx => "INX" | .iny => "INY" | .jmp => "JMP" | .jsr => "JSR" | .lda => "LDA"
  | .ldx => "LDX" | .ldy => "LDY" | .lsr => "LSR" | .nop => "NOP" | .ora => "ORA"
  | .pha => "PHA" | .php => "PHP" | .pla => "PLA" | .plp => "PLP" | .rol => "ROL"
  | .ror => "ROR" | .rti => "RTI" | .rts => "RTS" | .sbc => "SBC" | .sec => "SEC"
  | .sed => "SED" | .sei => "SEI" | .sta => "STA" | .stx => "STX" | .sty => "STY"
  | .tax => "TAX" | .tay => "TAY" | .tsx => "TSX" | .txa => "TXA" | .txs => "TXS"
  | .tya => "TYA" | .anc => "ANC" | .ane => "ANE" | .arr => "ARR" | .asr => "ASR"
  | .dcp => "DCP" | .isb => "ISB" | .las => "LAS" | .lax => "LAX" | .lxa => "LXA"
  | .rla => "RLA" | .rra => "RRA" | .sax => "SAX" | .sbx => "SBX" | .sha => "SHA"
  | .shs => "SHS" | .shx => "SHX" | .shy => "SHY" | .slo => "SLO" | .sre => "SRE"
  | .int => "INT" | .rst => "RST" | .illegal => "???"

def ofName? (name : String) : Option Mnemonic :=
  all.find? fun m => m.name == name

def display (m : Mnemonic) (setting : Text.Setting := {}) : String :=
  setting.apply m.name

theorem mem_all (m : Mnemonic) : m ∈ all := by
  cases m <;> decide

theorem name_of_ofName? {name : String} {m : Mnemonic} (h : ofName? name = some m) :
    m.name = name := by
  have hname := List.find?_some h
  simpa using hname

end Mnemonic

/-!
## Families of mnemonics

What decides the cycles of an instruction: the family of its mnemonic, how it treats its
memory operand, and the micro-ops that are its own.
-/

/-- Mnemonics of one family go through the same cycles in the same mode. -/
inductive Family
  | branch
  | jump
  | subroutine
  | forceBreak
  | interrupt
  | reset
  | returnFromSubroutine
  | returnFromInterrupt
  | push
  | pull
  | register
  | shift
  | readModifyWrite
  | store
  /-- What is stored depends on the high byte of the address. -/
  | unstableStore
  | read
  | nop
  | illegal
  deriving DecidableEq, Repr

namespace Family

def all : List Family :=
  [
    .branch, .jump, .subroutine, .forceBreak, .interrupt, .reset, .returnFromSubroutine,
    .returnFromInterrupt, .push, .pull, .register, .shift, .readModifyWrite, .store,
    .unstableStore, .read, .nop, .illegal
  ]

theorem mem_all (family : Family) : family ∈ all := by
  cases family <;> decide

end Family

/-- How an instruction treats its memory operand. -/
inductive MemoryUse
  /-- Loaded, never written. -/
  | readOnly
  /-- Written once, never loaded. -/
  | store
  /-- Loaded, written back as it was, then written with the result. -/
  | readModifyWrite
  deriving DecidableEq, Repr

def Family.memoryUse : Family → MemoryUse
  | .shift | .readModifyWrite => .readModifyWrite
  | .store | .unstableStore => .store
  | _ => .readOnly

namespace Mnemonic

def family : Mnemonic → Family
  | .bcc | .bcs | .beq | .bmi | .bne | .bpl | .bvc | .bvs => .branch
  | .jmp => .jump
  | .jsr => .subroutine
  | .brk => .forceBreak
  | .int => .interrupt
  | .rst => .reset
  | .rts => .returnFromSubroutine
  | .rti => .returnFromInterrupt
  | .pha | .php => .push
  | .pla | .plp => .pull
  | .clc | .cld | .cli | .clv | .sec | .sed | .sei | .dex | .dey | .inx | .iny | .tax
  | .tay | .tsx | .txa | .txs | .tya => .register
  | .asl | .lsr | .rol | .ror => .shift
  | .inc | .dec | .slo | .rla | .sre | .rra | .dcp | .isb => .readModifyWrite
  | .sta | .stx | .sty | .sax => .store
  | .sha | .shs | .shx | .shy => .unstableStore
  | .nop => .nop
  | .illegal => .illegal
  | .adc | .and | .bit | .cmp | .cpx | .cpy | .eor | .lda | .ldx | .ldy | .ora | .sbc
  | .anc | .ane | .arr | .asr | .las | .lax | .lxa | .sbx => .read

def memoryUse (m : Mnemonic) : MemoryUse :=
  m.family.memoryUse

/-- The micro-op that does what the mnemonic names, where a single one does. -/
def ownOp? : Mnemonic → Option MicroOp
  | .adc => some .adc | .and => some .and | .asl => some .asl | .bcc => some .bcc
  | .bcs => some .bcs | .beq => some .beq | .bit => some .bit | .bmi => some .bmi
  | .bne => some .bne | .bpl => some .bpl | .brk => some .brk | .bvc => some .bvc
  | .bvs => some .bvs | .clc => some .clc | .cld => some .cld | .cli => some .cli
  | .clv => some .clv | .cmp => some .cmp | .cpx => some .cpx | .cpy => some .cpy
  | .dec => some .dec | .dex => some .dex | .dey => some .dey | .eor => some .eor
  | .inc => some .inc | .inx => some .inx | .iny => some .iny | .lda => some .lda
  | .ldx => some .ldx | .ldy => some .ldy | .lsr => some .lsr | .ora => some .ora
  | .rol => some .rol | .ror => some .ror | .sbc => some .sbc | .sec => some .sec
  | .sed => some .sed | .sei => some .sei | .sta => some .sta | .stx => some .stx
  | .sty => some .sty | .tax => some .tax | .tay => some .tay | .tsx => some .tsx
  | .txa => some .txa | .txs => some .txs | .tya => some .tya | .anc => some .anc
  | .ane => some .ane | .arr => some .arr | .las => some .las | .lax => some .lax
  | .lxa => some .lxa | .sax => some .sax | .sbx => some .sbx | .int => some .interrupt
  | .rst => some .reset | .illegal => some .invalidOpcode
  | .asr | .dcp | .isb | .rla | .rra | .slo | .sre | .sha | .shs | .shx | .shy | .jmp
  | .jsr | .nop | .pha | .php | .pla | .plp | .rti | .rts => none

/-- The pair of micro-ops of a mnemonic that shifts or counts a memory operand and then
uses the result. -/
def fusedOps? : Mnemonic → Option (MicroOp × MicroOp)
  | .slo => some (.asl, .ora)
  | .rla => some (.rol, .and)
  | .sre => some (.lsr, .eor)
  | .rra => some (.ror, .adc)
  | .dcp => some (.dec, .cmp)
  | .isb => some (.inc, .sbc)
  | _ => none

def isImmediateOnly : Mnemonic → Bool
  | .anc | .ane | .arr | .asr | .lxa | .sbx => true
  | _ => false

/-- The micro-op that indexes for an unstable store and also computes what is stored. -/
def unstableIndexOp? : Mnemonic → IndexRegister → Option MicroOp
  | .shy, .x => some .addrXShy
  | .sha, .y => some .addrYSha
  | .shs, .y => some .addrYShs
  | .shx, .y => some .addrYShx
  | _, _ => none

end Mnemonic

/-! ## Encoding -/

/-- The modes in which a mnemonic, taken as one of the given family, can be encoded. -/
def Family.accepts (family : Family) (m : Mnemonic) (mode : Mode) : Bool :=
  match family with
  | .branch => mode == .relative
  | .jump => mode == .absolute || mode == .indirectAbsolute
  | .subroutine => mode == .absolute
  | .forceBreak | .interrupt | .reset | .returnFromSubroutine | .returnFromInterrupt
  | .push | .pull | .register | .illegal => mode == .implied
  | .shift => mode == .implied || mode.isMemory
  | .readModifyWrite | .store => mode.isMemory
  | .unstableStore => (mode.pageIndex?.bind m.unstableIndexOp?).isSome
  | .read => mode == .immediate || (mode.isMemory && !m.isImmediateOnly)
  | .nop => mode == .implied || mode == .immediate || mode.isMemory

structure Instruction where
  mnemonic : Mnemonic
  mode : Mode
  deriving DecidableEq, Repr

namespace Instruction

def family (i : Instruction) : Family :=
  i.mnemonic.family

def isEncodable (i : Instruction) : Bool :=
  i.family.accepts i.mnemonic i.mode

def display (i : Instruction) : String :=
  i.mnemonic.display ++ " " ++ i.mode.name

end Instruction

end CycleTable

import CycleTable.Text

/-!
# Micro-ops

One micro-op is the work of one clock cycle. The codes are the wire format of every table:
the engine that steps through a table dispatches on them.
-/

namespace CycleTable

/--
The micro-ops in the order of their codes: fetches from the program counter, memory at the
resolved address, the stack, latches and registers, the indexing of an address, and what
instructions do with their operands.
-/
inductive MicroOp
  | rdOpcode | rdTmp | rdTmpNoDebug | rdL | rdH
  | ldTmpMem | ldMemTmp | ldMemTmpNoDebug | ldHMemP1LTmp | ldDummyMemPc | ldDummyMemSp
  | pushTmp | popTmp | pushPcl | popPcl | pushPch | popPch | decSp
  | ldTmpSr | ldTmpA | ldPcHl | ldSrTmp | ldATmp
  | addrX | addrXSlow | addrXZeroPage | addrXShy | addrY | addrYSlow | addrYZeroPage
  | addrYSha | addrYShs | addrYShx
  | setNz | adc | anc | and | ane | arr | asl | bcc | bcs | beq | bit | bmi | bne | bpl
  | brk | bvc | bvs | clc | cld | cli | clv | cmp | cpx | cpy | dec | dex | dey | eor
  | inc | interrupt | inx | iny | jmpRelative | las | lax | lda | ldx | ldy | lsr | lxa
  | ora | reset | rol | ror | sax | sbc | sbx | sec | sed | sei | sta | stx | sty | tax
  | tay | tsx | txa | txs | tya
  | invalidOpcode
  deriving DecidableEq, Repr

namespace MicroOp

def all : List MicroOp :=
  [
    .rdOpcode, .rdTmp, .rdTmpNoDebug, .rdL, .rdH, .ldTmpMem, .ldMemTmp, .ldMemTmpNoDebug,
    .ldHMemP1LTmp, .ldDummyMemPc, .ldDummyMemSp, .pushTmp, .popTmp, .pushPcl, .popPcl,
    .pushPch, .popPch, .decSp, .ldTmpSr, .ldTmpA, .ldPcHl, .ldSrTmp, .ldATmp, .addrX,
    .addrXSlow, .addrXZeroPage, .addrXShy, .addrY, .addrYSlow, .addrYZeroPage, .addrYSha,
    .addrYShs, .addrYShx, .setNz, .adc, .anc, .and, .ane, .arr, .asl, .bcc, .bcs, .beq,
    .bit, .bmi, .bne, .bpl, .brk, .bvc, .bvs, .clc, .cld, .cli, .clv, .cmp, .cpx, .cpy,
    .dec, .dex, .dey, .eor, .inc, .interrupt, .inx, .iny, .jmpRelative, .las, .lax, .lda,
    .ldx, .ldy, .lsr, .lxa, .ora, .reset, .rol, .ror, .sax, .sbc, .sbx, .sec, .sed, .sei,
    .sta, .stx, .sty, .tax, .tay, .tsx, .txa, .txs, .tya, .invalidOpcode
  ]

/-- Codes count from zero, without a gap. -/
def code (op : MicroOp) : UInt8 :=
  UInt8.ofNat op.ctorIdx

def ofCode? (code : UInt8) : Option MicroOp :=
  all[code.toNat]?

/-- The constant that the engine's sources give to a code. -/
def name : MicroOp → String
  | .rdOpcode => "CPU_OP_RD_OPCODE"
  | .rdTmp => "CPU_OP_RD_TMP"
  | .rdTmpNoDebug => "CPU_OP_RD_TMP_NODEBUG"
  | .rdL => "CPU_OP_RD_L"
  | .rdH => "CPU_OP_RD_H"
  | .ldTmpMem => "CPU_OP_LD_TMP_MEM"
  | .ldMemTmp => "CPU_OP_LD_MEM_TMP"
  | .ldMemTmpNoDebug => "CPU_OP_LD_MEM_TMP_NODEBUG"
  | .ldHMemP1LTmp => "CPU_OP_LD_H_MEMP1_L_TMP"
  | .ldDummyMemPc => "CPU_OP_LD_DUMMY_MEM_PC"
  | .ldDummyMemSp => "CPU_OP_LD_DUMMY_MEM_SP"
  | .pushTmp => "CPU_OP_PUSH_TMP"
  | .popTmp => "CPU_OP_POP_TMP"
  | .pushPcl => "CPU_OP_PUSH_PCL"
  | .popPcl => "CPU_OP_POP_PCL"
  | .pushPch => "CPU_OP_PUSH_PCH"
  | .popPch => "CPU_OP_POP_PCH"
  | .decSp => "CPU_OP_DEC_SP"
  | .ldTmpSr => "CPU_OP_LD_TMP_SR"
  | .ldTmpA => "CPU_OP_LD_TMP_A"
  | .ldPcHl => "CPU_OP_LD_PC_HL"
  | .ldSrTmp => "CPU_OP_LD_SR_TMP"
  | .ldATmp => "CPU_OP_LD_A_TMP"
  | .addrX => "CPU_OP_ADDR_X"
  | .addrXSlow => "CPU_OP_ADDR_X_SLOW"
  | .addrXZeroPage => "CPU_OP_ADDR_X_ZEROPAGE"
  | .addrXShy => "CPU_OP_ADDR_X_SHY"
  | .addrY => "CPU_OP_ADDR_Y"
  | .addrYSlow => "CPU_OP_ADDR_Y_SLOW"
  | .addrYZeroPage => "CPU_OP_ADDR_Y_ZEROPAGE"
  | .addrYSha => "CPU_OP_ADDR_Y_SHA"
  | .addrYShs => "CPU_OP_ADDR_Y_SHS"
  | .addrYShx => "CPU_OP_ADDR_Y_SHX"
  | .setNz => "CPU_OP_SET_NZ"
  | .adc => "CPU_OP_ADC"
  | .anc => "CPU_OP_ANC"
  | .and => "CPU_OP_AND"
  | .ane => "CPU_OP_ANE"
  | .arr => "CPU_OP_ARR"
  | .asl => "CPU_OP_ASL"
  | .bcc => "CPU_OP_BCC"
  | .bcs => "CPU_OP_BCS"
  | .beq => "CPU_OP_BEQ"
  | .bit => "CPU_OP_BIT"
  | .bmi => "CPU_OP_BMI"
  | .bne => "CPU_OP_BNE"
  | .bpl => "CPU_OP_BPL"
  | .brk => "CPU_OP_BRK"
  | .bvc => "CPU_OP_BVC"
  | .bvs => "CPU_OP_BVS"
  | .clc => "CPU_OP_CLC"
  | .cld => "CPU_OP_CLD"
  | .cli => "CPU_OP_CLI"
  | .clv => "CPU_OP_CLV"
  | .cmp => "CPU_OP_CMP"
  | .cpx => "CPU_OP_CPX"
  | .cpy => "CPU_OP_CPY"
  | .dec => "CPU_OP_DEC"
  | .dex => "CPU_OP_DEX"
  | .dey => "CPU_OP_DEY"
  | .eor => "CPU_OP_EOR"
  | .inc => "CPU_OP_INC"
  | .interrupt => "CPU_OP_INTERRUPT"
  | .inx => "CPU_OP_INX"
  | .iny => "CPU_OP_INY"
  | .jmpRelative => "CPU_OP_JMP_RELATIVE"
  | .las => "CPU_OP_LAS"
  | .lax => "CPU_OP_LAX"
  | .lda => "CPU_OP_LDA"
  | .ldx => "CPU_OP_LDX"
  | .ldy => "CPU_OP_LDY"
  | .lsr => "CPU_OP_LSR"
  | .lxa => "CPU_OP_LXA"
  | .ora => "CPU_OP_ORA"
  | .reset => "CPU_OP_RESET"
  | .rol => "CPU_OP_ROL"
  | .ror => "CPU_OP_ROR"
  | .sax => "CPU_OP_SAX"
  | .sbc => "CPU_OP_SBC"
  | .sbx => "CPU_OP_SBX"
  | .sec => "CPU_OP_SEC"
  | .sed => "CPU_OP_SED"
  | .sei => "CPU_OP_SEI"
  | .sta => "CPU_OP_STA"
  | .stx => "CPU_OP_STX"
  | .sty => "CPU_OP_STY"
  | .tax => "CPU_OP_TAX"
  | .tay => "CPU_OP_TAY"
  | .tsx => "CPU_OP_TSX"
  | .txa => "CPU_OP_TXA"
  | .txs => "CPU_OP_TXS"
  | .tya => "CPU_OP_TYA"
  | .invalidOpcode => "CPU_OP_INVALID_OPCODE"

/-- What every name begins with. -/
def nameStem : String := "CPU_OP_"

def shortName (op : MicroOp) : String :=
  String.ofList (op.name.toList.drop nameStem.length)

/-- A micro-op is printed as its name, in whatever way the name is to be set. -/
def display (op : MicroOp) (setting : Text.Setting := {}) : String :=
  setting.apply op.name

@[simp] theorem display_plain (op : MicroOp) : op.display = op.name :=
  Text.Setting.apply_plain op.name

example : MicroOp.rdL.display { alignment := .right, width := 12 } = " CPU_OP_RD_L" := by decide

theorem ofCode?_code (op : MicroOp) : ofCode? op.code = some op := by
  cases op <;> rfl

theorem code_injective {op other : MicroOp} (h : op.code = other.code) : op = other := by
  have hop := ofCode?_code op
  rw [h, ofCode?_code] at hop
  exact (Option.some.inj hop).symm

theorem mem_all (op : MicroOp) : op ∈ all := by
  cases op <;> decide

end MicroOp

/-!
## Dimensions of a table

One entry for each opcode byte, then the two sequences that the engine enters without
fetching an opcode. Every entry has the same number of cells, so that the engine finds an
entry at `id * cellsPerEntry`.
-/

def opcodeCount : Nat := 0x100

def interruptId : Nat := 0x100

/-- The entry for a released reset line, always the last. -/
def resetId : Nat := 0x101

def entryCount : Nat := opcodeCount + 2

def cellsPerEntry : Nat := 16

def cellCount : Nat := entryCount * cellsPerEntry

theorem cellCount_eq : cellCount = 4128 := rfl

end CycleTable

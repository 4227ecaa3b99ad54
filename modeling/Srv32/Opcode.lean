import Mathlib.Logic.Function.Basic

/-! Constants and instruction fields that `tools/opcode.h` and `rtl/opcode.vh` share. -/

namespace Srv32

abbrev Word := BitVec 32
abbrev Byte := BitVec 8

/-! Major opcodes, `inst[6:0]`. -/

@[simp] abbrev opAuipc : BitVec 7 := 0x17#7
@[simp] abbrev opLui : BitVec 7 := 0x37#7
@[simp] abbrev opJal : BitVec 7 := 0x6f#7
@[simp] abbrev opJalr : BitVec 7 := 0x67#7
@[simp] abbrev opBranch : BitVec 7 := 0x63#7
@[simp] abbrev opLoad : BitVec 7 := 0x03#7
@[simp] abbrev opStore : BitVec 7 := 0x23#7
@[simp] abbrev opArithI : BitVec 7 := 0x13#7
@[simp] abbrev opArithR : BitVec 7 := 0x33#7
@[simp] abbrev opFence : BitVec 7 := 0x0f#7
@[simp] abbrev opSystem : BitVec 7 := 0x73#7

/-! `func3`, `inst[14:12]`. -/

@[simp] abbrev opBeq : BitVec 3 := 0#3
@[simp] abbrev opBne : BitVec 3 := 1#3
@[simp] abbrev opBlt : BitVec 3 := 4#3
@[simp] abbrev opBge : BitVec 3 := 5#3
@[simp] abbrev opBltu : BitVec 3 := 6#3
@[simp] abbrev opBgeu : BitVec 3 := 7#3

@[simp] abbrev opLb : BitVec 3 := 0#3
@[simp] abbrev opLh : BitVec 3 := 1#3
@[simp] abbrev opLw : BitVec 3 := 2#3
@[simp] abbrev opLbu : BitVec 3 := 4#3
@[simp] abbrev opLhu : BitVec 3 := 5#3

@[simp] abbrev opSb : BitVec 3 := 0#3
@[simp] abbrev opSh : BitVec 3 := 1#3
@[simp] abbrev opSw : BitVec 3 := 2#3

@[simp] abbrev opAdd : BitVec 3 := 0#3
@[simp] abbrev opSll : BitVec 3 := 1#3
@[simp] abbrev opSlt : BitVec 3 := 2#3
@[simp] abbrev opSltu : BitVec 3 := 3#3
@[simp] abbrev opXor : BitVec 3 := 4#3
@[simp] abbrev opSr : BitVec 3 := 5#3
@[simp] abbrev opOr : BitVec 3 := 6#3
@[simp] abbrev opAnd : BitVec 3 := 7#3

@[simp] abbrev opMul : BitVec 3 := 0#3
@[simp] abbrev opMulh : BitVec 3 := 1#3
@[simp] abbrev opMulsu : BitVec 3 := 2#3
@[simp] abbrev opMulu : BitVec 3 := 3#3
@[simp] abbrev opDiv : BitVec 3 := 4#3
@[simp] abbrev opDivu : BitVec 3 := 5#3
@[simp] abbrev opRem : BitVec 3 := 6#3
@[simp] abbrev opRemu : BitVec 3 := 7#3

@[simp] abbrev opEcall : BitVec 3 := 0#3
@[simp] abbrev opCsrrw : BitVec 3 := 1#3
@[simp] abbrev opCsrrs : BitVec 3 := 2#3
@[simp] abbrev opCsrrc : BitVec 3 := 3#3
@[simp] abbrev opCsrrwi : BitVec 3 := 5#3
@[simp] abbrev opCsrrsi : BitVec 3 := 6#3
@[simp] abbrev opCsrrci : BitVec 3 := 7#3

/-! `func3` of the B extension. -/

@[simp] abbrev opClmul : BitVec 3 := 1#3
@[simp] abbrev opClmulh : BitVec 3 := 3#3
@[simp] abbrev opClmulr : BitVec 3 := 2#3
@[simp] abbrev opMax : BitVec 3 := 6#3
@[simp] abbrev opMaxu : BitVec 3 := 7#3
@[simp] abbrev opMin : BitVec 3 := 4#3
@[simp] abbrev opMinu : BitVec 3 := 5#3
@[simp] abbrev opSh1add : BitVec 3 := 2#3
@[simp] abbrev opSh2add : BitVec 3 := 4#3
@[simp] abbrev opSh3add : BitVec 3 := 6#3
@[simp] abbrev opBclr : BitVec 3 := 1#3
@[simp] abbrev opBext : BitVec 3 := 5#3
@[simp] abbrev opRol : BitVec 3 := 1#3
@[simp] abbrev opRor : BitVec 3 := 5#3

/-! `func7`, `inst[31:25]`. -/

@[simp] abbrev fnRv32i : BitVec 7 := 0x00#7
@[simp] abbrev fnRv32m : BitVec 7 := 0x01#7
@[simp] abbrev fnSrl : BitVec 7 := 0x00#7
@[simp] abbrev fnSra : BitVec 7 := 0x20#7
@[simp] abbrev fnZext : BitVec 7 := 0x04#7
@[simp] abbrev fnMinmax : BitVec 7 := 0x05#7
@[simp] abbrev fnShadd : BitVec 7 := 0x10#7
@[simp] abbrev fnBset : BitVec 7 := 0x14#7
@[simp] abbrev fnAndn : BitVec 7 := 0x20#7
@[simp] abbrev fnBclr : BitVec 7 := 0x24#7
@[simp] abbrev fnClz : BitVec 7 := 0x30#7
@[simp] abbrev fnBinv : BitVec 7 := 0x34#7
@[simp] abbrev fnRev : BitVec 7 := 0x34#7

/-! CSR numbers. -/

@[simp] abbrev csrMvendorid : BitVec 12 := 0xF11#12
@[simp] abbrev csrMarchid : BitVec 12 := 0xF12#12
@[simp] abbrev csrMimpid : BitVec 12 := 0xF13#12
@[simp] abbrev csrMhartid : BitVec 12 := 0xF14#12
@[simp] abbrev csrMstatus : BitVec 12 := 0x300#12
@[simp] abbrev csrMisa : BitVec 12 := 0x301#12
@[simp] abbrev csrMie : BitVec 12 := 0x304#12
@[simp] abbrev csrMtvec : BitVec 12 := 0x305#12
@[simp] abbrev csrMstatush : BitVec 12 := 0x310#12
@[simp] abbrev csrMscratch : BitVec 12 := 0x340#12
@[simp] abbrev csrMepc : BitVec 12 := 0x341#12
@[simp] abbrev csrMcause : BitVec 12 := 0x342#12
@[simp] abbrev csrMtval : BitVec 12 := 0x343#12
@[simp] abbrev csrMip : BitVec 12 := 0x344#12
@[simp] abbrev csrRdcycle : BitVec 12 := 0xc00#12
@[simp] abbrev csrRdcycleh : BitVec 12 := 0xc80#12
@[simp] abbrev csrRdinstret : BitVec 12 := 0xc02#12
@[simp] abbrev csrRdinstreth : BitVec 12 := 0xc82#12

/-! System calls. -/

@[simp] abbrev sysOpen : Word := 0x31#32
@[simp] abbrev sysLseek : Word := 0x32#32
@[simp] abbrev sysClose : Word := 0x39#32
@[simp] abbrev sysRead : Word := 0x3f#32
@[simp] abbrev sysWrite : Word := 0x40#32
@[simp] abbrev sysExit : Word := 0x5d#32
@[simp] abbrev sysDump : Word := 0x88#32
@[simp] abbrev sysDumpBin : Word := 0x99#32

/-! Exception codes. -/

@[simp] abbrev trapInstAlign : Word := 0#32
@[simp] abbrev trapInstFail : Word := 1#32
@[simp] abbrev trapInstIll : Word := 2#32
@[simp] abbrev trapBreak : Word := 3#32
@[simp] abbrev trapLdAlign : Word := 4#32
@[simp] abbrev trapLdFail : Word := 5#32
@[simp] abbrev trapStAlign : Word := 6#32
@[simp] abbrev trapStFail : Word := 7#32
@[simp] abbrev trapEcall : Word := 11#32
@[simp] abbrev intMsi : Word := 0x80000003#32
@[simp] abbrev intMtime : Word := 0x80000007#32
@[simp] abbrev intMei : Word := 0x8000000b#32

/-! Bits of `mstatus`, `mie` and `mip`. -/

@[simp] abbrev bitMie : Nat := 3
@[simp] abbrev bitMpie : Nat := 7
@[simp] abbrev bitMsie : Nat := 3
@[simp] abbrev bitMtie : Nat := 7
@[simp] abbrev bitMeie : Nat := 11
@[simp] abbrev bitMsip : Nat := 3
@[simp] abbrev bitMtip : Nat := 7
@[simp] abbrev bitMeip : Nat := 11

/-! Identification registers. -/

@[simp] abbrev mvendorid : Word := 0#32
@[simp] abbrev marchid : Word := 0#32
@[simp] abbrev mimpid : Word := 0#32
@[simp] abbrev mhartid : Word := 0#32

/-- `MISA`: bit 30 is XLEN, bit 8 the base ISA, bits 12, 4 and 1 the M, E and B extensions. -/
def misa (rv32m rv32e rv32b : Bool) : Word :=
  1#32 <<< 30 ||| (if rv32m then 1#32 <<< 12 else 0#32) ||| 1#32 <<< 8 |||
    (if rv32e then 1#32 <<< 4 else 0#32) ||| (if rv32b then 1#32 <<< 1 else 0#32)

/-! Memory map. -/

@[simp] abbrev mmioPutc : Word := 0xa000001c#32
@[simp] abbrev mmioGetc : Word := 0xa0000020#32
@[simp] abbrev mmioExit : Word := 0xa000002c#32
@[simp] abbrev mmioTohost : Word := 0xa0000030#32
@[simp] abbrev mmioFromhost : Word := 0xa0000034#32
@[simp] abbrev mmioMtime : Word := 0x90000000#32
@[simp] abbrev mmioMtimecmp : Word := 0x90000008#32
@[simp] abbrev mmioMsip : Word := 0x90000010#32

/-! Register numbers the simulator names. -/

@[simp] abbrev regT0 : BitVec 5 := 5#5
@[simp] abbrev regA0 : BitVec 5 := 10#5
@[simp] abbrev regA1 : BitVec 5 := 11#5
@[simp] abbrev regA2 : BitVec 5 := 12#5
@[simp] abbrev regA7 : BitVec 5 := 17#5

/-! Instruction fields: the bit-fields of `INST` and the ranges of `opcode.vh`. -/

def opcode (inst : Word) : BitVec 7 := inst.extractLsb' 0 7
def rd (inst : Word) : BitVec 5 := inst.extractLsb' 7 5
def func3 (inst : Word) : BitVec 3 := inst.extractLsb' 12 3
def rs1 (inst : Word) : BitVec 5 := inst.extractLsb' 15 5
def rs2 (inst : Word) : BitVec 5 := inst.extractLsb' 20 5
def func7 (inst : Word) : BitVec 7 := inst.extractLsb' 25 7
def imm12 (inst : Word) : BitVec 12 := inst.extractLsb' 20 12
def imm20 (inst : Word) : BitVec 20 := inst.extractLsb' 12 20

end Srv32

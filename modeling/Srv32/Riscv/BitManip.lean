import Srv32.Riscv.Instr

/-! The bit-manipulation extensions Zba, Zbb, Zbc and Zbs on RV32, as the manual lists them: the
instructions and their encodings. -/

namespace Riscv

/-- Two source registers: Zba, Zbb, Zbc and Zbs in this order. -/
inductive BitOp where
  | sh1add | sh2add | sh3add
  | andn | orn | xnor | max | maxu | min | minu | rol | ror
  | clmul | clmulh | clmulr
  | bclr | bext | binv | bset
  deriving DecidableEq, Repr

/-- One source register: all of Zbb. The field of the second is part of the opcode. -/
inductive BitUnOp where
  | clz | ctz | cpop | sextB | sextH | zextH | orcB | rev8
  deriving DecidableEq, Repr

/-- A register and a bit number: Zbb and Zbs. -/
inductive BitImmOp where
  | rori | bclri | bexti | binvi | bseti
  deriving DecidableEq, Repr

inductive BitInstr where
  | reg (op : BitOp) (rd rs1 rs2 : BitVec 5)
  | un (op : BitUnOp) (rd rs1 : BitVec 5)
  | imm (op : BitImmOp) (rd rs1 shamt : BitVec 5)
  deriving DecidableEq, Repr

def BitOp.funct7 : BitOp → BitVec 7
  | sh1add | sh2add | sh3add => 0b0010000#7
  | andn | orn | xnor => 0b0100000#7
  | max | maxu | min | minu => 0b0000101#7
  | rol | ror => 0b0110000#7
  | clmul | clmulh | clmulr => 0b0000101#7
  | bclr | bext => 0b0100100#7
  | binv => 0b0110100#7
  | bset => 0b0010100#7

def BitOp.funct3 : BitOp → BitVec 3
  | sh1add => 0b010#3 | sh2add => 0b100#3 | sh3add => 0b110#3
  | andn => 0b111#3 | orn => 0b110#3 | xnor => 0b100#3
  | max => 0b110#3 | maxu => 0b111#3 | min => 0b100#3 | minu => 0b101#3
  | rol => 0b001#3 | ror => 0b101#3
  | clmul => 0b001#3 | clmulh => 0b011#3 | clmulr => 0b010#3
  | bclr => 0b001#3 | bext => 0b101#3 | binv => 0b001#3 | bset => 0b001#3

def BitUnOp.opcode : BitUnOp → BitVec 7
  | zextH => 0b0110011#7
  | clz | ctz | cpop | sextB | sextH | orcB | rev8 => 0b0010011#7

def BitUnOp.funct7 : BitUnOp → BitVec 7
  | clz | ctz | cpop | sextB | sextH => 0b0110000#7
  | zextH => 0b0000100#7
  | orcB => 0b0010100#7
  | rev8 => 0b0110100#7

def BitUnOp.rs2 : BitUnOp → BitVec 5
  | clz => 0b00000#5 | ctz => 0b00001#5 | cpop => 0b00010#5 | sextB => 0b00100#5
  | sextH => 0b00101#5 | zextH => 0b00000#5 | orcB => 0b00111#5 | rev8 => 0b11000#5

def BitUnOp.funct3 : BitUnOp → BitVec 3
  | clz | ctz | cpop | sextB | sextH => 0b001#3
  | zextH => 0b100#3
  | orcB | rev8 => 0b101#3

def BitImmOp.funct7 : BitImmOp → BitVec 7
  | rori => 0b0110000#7 | bclri => 0b0100100#7 | bexti => 0b0100100#7 | binvi => 0b0110100#7
  | bseti => 0b0010100#7

def BitImmOp.funct3 : BitImmOp → BitVec 3
  | rori => 0b101#3 | bclri => 0b001#3 | bexti => 0b101#3 | binvi => 0b001#3 | bseti => 0b001#3

def BitInstr.encode : BitInstr → BitVec 32
  | reg op rd rs1 rs2 => rType op.funct7 rs2 rs1 op.funct3 rd 0b0110011#7
  | un op rd rs1 => rType op.funct7 op.rs2 rs1 op.funct3 rd op.opcode
  | imm op rd rs1 shamt => rType op.funct7 shamt rs1 op.funct3 rd 0b0010011#7

/-- The word is an instruction of RV32IM, as far as `Instr` lists it, or of the extensions. -/
def Assigned (w : BitVec 32) : Prop :=
  (∃ i : Instr, i.encode = w) ∨ ∃ i : BitInstr, i.encode = w

end Riscv

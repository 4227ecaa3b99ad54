import Mathlib.Algebra.Group.Int.Defs
import Mathlib.Algebra.Group.Nat.Defs
import Mathlib.Data.Nat.Notation
import Mathlib.Logic.Function.Basic

/-! RV32I without FENCE and SYSTEM, and RV32M, as the unprivileged manual lists them: the
instructions, their encodings, and what they compute. -/

namespace Riscv

/-! Instructions. -/

inductive Cond where
  | eq | ne | lt | ge | ltu | geu
  deriving DecidableEq, Repr

inductive LoadOp where
  | lb | lh | lw | lbu | lhu
  deriving DecidableEq, Repr

inductive StoreOp where
  | sb | sh | sw
  deriving DecidableEq, Repr

inductive ImmOp where
  | addi | slti | sltiu | xori | ori | andi
  deriving DecidableEq, Repr

inductive ShiftOp where
  | sll | srl | sra
  deriving DecidableEq, Repr

inductive RegOp where
  | add | sub | slt | sltu | xor | or | and
  | mul | mulh | mulhsu | mulhu | div | divu | rem | remu
  deriving DecidableEq, Repr

/-- An instruction with its register numbers and immediate. Offsets of jumps and branches are
even: the field holds them without their low bit. -/
inductive Instr where
  | lui (rd : BitVec 5) (imm : BitVec 20)
  | auipc (rd : BitVec 5) (imm : BitVec 20)
  | jal (rd : BitVec 5) (off : BitVec 20)
  | jalr (rd rs1 : BitVec 5) (off : BitVec 12)
  | branch (c : Cond) (rs1 rs2 : BitVec 5) (off : BitVec 12)
  | load (op : LoadOp) (rd rs1 : BitVec 5) (off : BitVec 12)
  | store (op : StoreOp) (rs1 rs2 : BitVec 5) (off : BitVec 12)
  | opImm (op : ImmOp) (rd rs1 : BitVec 5) (imm : BitVec 12)
  | shiftImm (op : ShiftOp) (rd rs1 shamt : BitVec 5)
  | reg (op : RegOp) (rd rs1 rs2 : BitVec 5)
  | regShift (op : ShiftOp) (rd rs1 rs2 : BitVec 5)
  deriving DecidableEq, Repr

/-! Encodings. -/

def rType (funct7 : BitVec 7) (rs2 rs1 : BitVec 5) (funct3 : BitVec 3) (rd : BitVec 5)
    (op : BitVec 7) : BitVec 32 :=
  funct7 ++ rs2 ++ rs1 ++ funct3 ++ rd ++ op

def iType (imm : BitVec 12) (rs1 : BitVec 5) (funct3 : BitVec 3) (rd : BitVec 5)
    (op : BitVec 7) : BitVec 32 :=
  imm ++ rs1 ++ funct3 ++ rd ++ op

def sType (imm : BitVec 12) (rs2 rs1 : BitVec 5) (funct3 : BitVec 3) (op : BitVec 7) :
    BitVec 32 :=
  imm.extractLsb' 5 7 ++ rs2 ++ rs1 ++ funct3 ++ imm.extractLsb' 0 5 ++ op

/-- `off` is `imm[12:1]`. -/
def bType (off : BitVec 12) (rs2 rs1 : BitVec 5) (funct3 : BitVec 3) (op : BitVec 7) :
    BitVec 32 :=
  off.extractLsb' 11 1 ++ off.extractLsb' 4 6 ++ rs2 ++ rs1 ++ funct3 ++ off.extractLsb' 0 4 ++
    off.extractLsb' 10 1 ++ op

def uType (imm : BitVec 20) (rd : BitVec 5) (op : BitVec 7) : BitVec 32 := imm ++ rd ++ op

/-- `off` is `imm[20:1]`. -/
def jType (off : BitVec 20) (rd : BitVec 5) (op : BitVec 7) : BitVec 32 :=
  off.extractLsb' 19 1 ++ off.extractLsb' 0 10 ++ off.extractLsb' 10 1 ++
    off.extractLsb' 11 8 ++ rd ++ op

def Cond.funct3 : Cond → BitVec 3
  | eq => 0b000#3 | ne => 0b001#3 | lt => 0b100#3 | ge => 0b101#3 | ltu => 0b110#3
  | geu => 0b111#3

def LoadOp.funct3 : LoadOp → BitVec 3
  | lb => 0b000#3 | lh => 0b001#3 | lw => 0b010#3 | lbu => 0b100#3 | lhu => 0b101#3

def StoreOp.funct3 : StoreOp → BitVec 3
  | sb => 0b000#3 | sh => 0b001#3 | sw => 0b010#3

def ImmOp.funct3 : ImmOp → BitVec 3
  | addi => 0b000#3 | slti => 0b010#3 | sltiu => 0b011#3 | xori => 0b100#3 | ori => 0b110#3
  | andi => 0b111#3

def ShiftOp.funct3 : ShiftOp → BitVec 3
  | sll => 0b001#3 | srl => 0b101#3 | sra => 0b101#3

def ShiftOp.funct7 : ShiftOp → BitVec 7
  | sll => 0b0000000#7 | srl => 0b0000000#7 | sra => 0b0100000#7

def RegOp.funct3 : RegOp → BitVec 3
  | add => 0b000#3 | sub => 0b000#3 | slt => 0b010#3 | sltu => 0b011#3 | xor => 0b100#3
  | or => 0b110#3 | and => 0b111#3
  | mul => 0b000#3 | mulh => 0b001#3 | mulhsu => 0b010#3 | mulhu => 0b011#3
  | div => 0b100#3 | divu => 0b101#3 | rem => 0b110#3 | remu => 0b111#3

def RegOp.funct7 : RegOp → BitVec 7
  | add => 0b0000000#7 | sub => 0b0100000#7 | slt => 0b0000000#7 | sltu => 0b0000000#7
  | xor => 0b0000000#7 | or => 0b0000000#7 | and => 0b0000000#7
  | mul => 0b0000001#7 | mulh => 0b0000001#7 | mulhsu => 0b0000001#7 | mulhu => 0b0000001#7
  | div => 0b0000001#7 | divu => 0b0000001#7 | rem => 0b0000001#7 | remu => 0b0000001#7

def Instr.encode : Instr → BitVec 32
  | lui rd imm => uType imm rd 0b0110111#7
  | auipc rd imm => uType imm rd 0b0010111#7
  | jal rd off => jType off rd 0b1101111#7
  | jalr rd rs1 off => iType off rs1 0b000#3 rd 0b1100111#7
  | branch c rs1 rs2 off => bType off rs2 rs1 c.funct3 0b1100011#7
  | load op rd rs1 off => iType off rs1 op.funct3 rd 0b0000011#7
  | store op rs1 rs2 off => sType off rs2 rs1 op.funct3 0b0100011#7
  | opImm op rd rs1 imm => iType imm rs1 op.funct3 rd 0b0010011#7
  | shiftImm op rd rs1 shamt => rType op.funct7 shamt rs1 op.funct3 rd 0b0010011#7
  | reg op rd rs1 rs2 => rType op.funct7 rs2 rs1 op.funct3 rd 0b0110011#7
  | regShift op rd rs1 rs2 => rType op.funct7 rs2 rs1 op.funct3 rd 0b0110011#7

/-! What the operations compute, in integers where signs and overflow matter. -/

abbrev intMin : BitVec 32 := BitVec.intMin 32

def flag (p : Prop) [Decidable p] : BitVec 32 := if p then 1#32 else 0#32

def Cond.holds (a b : BitVec 32) : Cond → Bool
  | eq => a == b
  | ne => a != b
  | lt => a.toInt < b.toInt
  | ge => b.toInt ≤ a.toInt
  | ltu => a.toNat < b.toNat
  | geu => b.toNat ≤ a.toNat

def ImmOp.eval (a b : BitVec 32) : ImmOp → BitVec 32
  | addi => a + b
  | slti => flag (a.toInt < b.toInt)
  | sltiu => flag (a.toNat < b.toNat)
  | xori => a ^^^ b
  | ori => a ||| b
  | andi => a &&& b

/-- The count is five bits; SRA divides by a power of two, rounding down. -/
def ShiftOp.eval (a : BitVec 32) (n : ℕ) : ShiftOp → BitVec 32
  | sll => BitVec.ofNat 32 (a.toNat * 2 ^ n)
  | srl => BitVec.ofNat 32 (a.toNat / 2 ^ n)
  | sra => BitVec.ofInt 32 (a.toInt / 2 ^ n)

/-- Products are cut to their low or high half. Division rounds towards zero; division by zero
and the one signed overflow have fixed results. -/
def RegOp.eval (a b : BitVec 32) : RegOp → BitVec 32
  | add => BitVec.ofInt 32 (a.toInt + b.toInt)
  | sub => BitVec.ofInt 32 (a.toInt - b.toInt)
  | slt => flag (a.toInt < b.toInt)
  | sltu => flag (a.toNat < b.toNat)
  | xor => a ^^^ b
  | or => a ||| b
  | and => a &&& b
  | mul => BitVec.ofInt 32 (a.toInt * b.toInt)
  | mulh => BitVec.ofInt 32 (a.toInt * b.toInt / 2 ^ 32)
  | mulhsu => BitVec.ofInt 32 (a.toInt * b.toNat / 2 ^ 32)
  | mulhu => BitVec.ofNat 32 (a.toNat * b.toNat / 2 ^ 32)
  | div =>
    if b = 0#32 then BitVec.allOnes 32
    else if a = intMin ∧ b = BitVec.allOnes 32 then intMin
    else BitVec.ofInt 32 (a.toInt.tdiv b.toInt)
  | divu => if b = 0#32 then BitVec.allOnes 32 else BitVec.ofNat 32 (a.toNat / b.toNat)
  | rem =>
    if b = 0#32 then a
    else if a = intMin ∧ b = BitVec.allOnes 32 then 0#32
    else BitVec.ofInt 32 (a.toInt.tmod b.toInt)
  | remu => if b = 0#32 then a else BitVec.ofNat 32 (a.toNat % b.toNat)

/-! The machine. -/

/-- A hart: pc, registers with `x0` zero, and byte-addressed memory. -/
@[ext] structure Machine where
  pc : BitVec 32
  x : BitVec 5 → BitVec 32
  mem : BitVec 32 → BitVec 8
  zero : x 0#5 = 0#32

namespace Machine

variable (s : Machine)

/-- Writes to `x0` are dropped. -/
def set (rd : BitVec 5) (v : BitVec 32) : Machine where
  pc := s.pc
  x := if rd = 0#5 then s.x else Function.update s.x rd v
  mem := s.mem
  zero := by
    split
    · exact s.zero
    · rename_i h
      rw [Function.update_of_ne (Ne.symm h), s.zero]

def goto (pc : BitVec 32) : Machine := { s with pc := pc }

/-- The next instruction in sequence, behind one of `len` bytes. -/
def next (len : BitVec 32) : Machine := s.goto (s.pc + len)

def half (a : BitVec 32) : BitVec 16 := s.mem (a + 1#32) ++ s.mem a

def word (a : BitVec 32) : BitVec 32 :=
  s.mem (a + 3#32) ++ s.mem (a + 2#32) ++ s.mem (a + 1#32) ++ s.mem a

/-- The low `n` bytes of `v`, stored at `a`, low byte first. -/
def put (a : BitVec 32) (n : ℕ) (v : BitVec 32) : Machine :=
  { s with mem := fun w =>
      if (w - a).toNat < n then v.extractLsb' (8 * (w - a).toNat) 8 else s.mem w }

end Machine

def LoadOp.size : LoadOp → ℕ
  | lb => 1 | lh => 2 | lw => 4 | lbu => 1 | lhu => 2

def StoreOp.size : StoreOp → ℕ
  | sb => 1 | sh => 2 | sw => 4

def LoadOp.value (s : Machine) (a : BitVec 32) : LoadOp → BitVec 32
  | lb => (s.mem a).signExtend 32
  | lh => (s.half a).signExtend 32
  | lw => s.word a
  | lbu => (s.mem a).setWidth 32
  | lhu => (s.half a).setWidth 32

namespace Instr

/-- The offset of a jump or branch from its field. -/
def offset {w : ℕ} (off : BitVec w) : BitVec 32 := (off ++ 0#1).signExtend 32

/-- One instruction of `len` bytes: four, or two for one that is compressed. -/
def step (len : BitVec 32) (s : Machine) : Instr → Machine
  | lui rd imm => (s.set rd (imm ++ 0#12)).next len
  | auipc rd imm => (s.set rd (s.pc + (imm ++ 0#12))).next len
  | jal rd off => (s.set rd (s.pc + len)).goto (s.pc + offset off)
  | jalr rd rs1 off =>
    (s.set rd (s.pc + len)).goto ((s.x rs1 + off.signExtend 32) &&& ~~~1#32)
  | branch c rs1 rs2 off =>
    if c.holds (s.x rs1) (s.x rs2) then s.goto (s.pc + offset off) else s.next len
  | load op rd rs1 off => (s.set rd (op.value s (s.x rs1 + off.signExtend 32))).next len
  | store op rs1 rs2 off => (s.put (s.x rs1 + off.signExtend 32) op.size (s.x rs2)).next len
  | opImm op rd rs1 imm => (s.set rd (op.eval (s.x rs1) (imm.signExtend 32))).next len
  | shiftImm op rd rs1 shamt => (s.set rd (op.eval (s.x rs1) shamt.toNat)).next len
  | reg op rd rs1 rs2 => (s.set rd (op.eval (s.x rs1) (s.x rs2))).next len
  | regShift op rd rs1 rs2 => (s.set rd (op.eval (s.x rs1) ((s.x rs2).toNat % 32))).next len

def access (s : Machine) : Instr → Option (BitVec 32 × ℕ)
  | load op _ rs1 off => some (s.x rs1 + off.signExtend 32, op.size)
  | store op rs1 _ off => some (s.x rs1 + off.signExtend 32, op.size)
  | _ => none

def isJump : Instr → Bool
  | jal .. => true
  | jalr .. => true
  | _ => false

def isM : Instr → Bool
  | reg op .. => op.funct7 == 1#7
  | _ => false

end Instr

end Riscv

import Srv32.Opcode

/-! The decode and execute stages of `rtl/riscv.v`: the registers stage 1 loads, and the wires
of stage 2 as functions of what that stage reads. -/

namespace Srv32.Rtl

/-- The parameters of the core; `RV32E` and `RV32C` are 0. -/
structure Param where
  rv32m : Bool
  rv32b : Bool
  deriving DecidableEq, Repr

def Param.rv32im : Param := ⟨true, false⟩

@[simp] theorem Param.rv32im_rv32m : Param.rv32im.rv32m = true := rfl

def nop : Word := 0x00000013#32
def resetVec : Word := 0#32

/-- The registers stage 1 decodes an instruction into. -/
structure Ex where
  imm : Word
  immSel : Bool
  src1Sel : BitVec 5
  src2Sel : BitVec 5
  dstSel : BitVec 5
  aluOp : BitVec 3
  subtype : Bool
  memwr : Bool
  alu : Bool
  csr : Bool
  csrWr : Bool
  lui : Bool
  auipc : Bool
  jal : Bool
  jalr : Bool
  branch : Bool
  system : Bool
  systemOp : Bool
  illegal : Bool
  mul : Bool
  deriving DecidableEq, Repr

def Ex.reset : Ex :=
  ⟨0, false, 0, 0, 0, 0, false, false, false, false, false, false, false, false, false, false,
    false, false, false, false⟩

/-- `imm` -/
def immOf (inst : Word) : Word :=
  if opcode inst = opAuipc ∨ opcode inst = opLui then inst.extractLsb' 12 20 ++ 0#12
  else if opcode inst = opJal then
    (inst.extractLsb' 31 1 ++ inst.extractLsb' 12 8 ++ inst.extractLsb' 20 1 ++
      inst.extractLsb' 21 10 ++ 0#1).signExtend 32
  else if opcode inst = opBranch then
    (inst.extractLsb' 31 1 ++ inst.extractLsb' 7 1 ++ inst.extractLsb' 25 6 ++
      inst.extractLsb' 8 4 ++ 0#1).signExtend 32
  else if opcode inst = opStore then
    (inst.extractLsb' 25 7 ++ inst.extractLsb' 7 5).signExtend 32
  else if opcode inst = opJalr ∨ opcode inst = opLoad then (imm12 inst).signExtend 32
  else if opcode inst = opArithI then
    if func3 inst = opSll ∨ func3 inst = opSr then (rs2 inst).setWidth 32
    else (imm12 inst).signExtend 32
  else if opcode inst = opSystem then (imm12 inst).setWidth 32
  else 0#32

def isLoadOp (op : BitVec 3) : Bool :=
  op == opLb || op == opLh || op == opLw || op == opLbu || op == opLhu

def isStoreOp (op : BitVec 3) : Bool := op == opSb || op == opSh || op == opSw

/-- `FUNC7` 0x00 or 0x20, the two groups `ex_alu` accepts of OP_ARITHR. -/
def isAluFn (fn : BitVec 7) : Bool := fn == 0x00#7 || fn == 0x20#7

/-- What `ex_illegal` negates. -/
def isLegal (p : Param) (inst : Word) : Bool :=
  opcode inst == opAuipc || opcode inst == opLui || opcode inst == opJal ||
  opcode inst == opJalr || opcode inst == opBranch ||
  (opcode inst == opLoad && isLoadOp (func3 inst)) ||
  (opcode inst == opStore && isStoreOp (func3 inst)) ||
  opcode inst == opArithI ||
  (opcode inst == opArithR && isAluFn (func7 inst)) ||
  (opcode inst == opArithR && func7 inst == 0x01#7 && p.rv32m) ||
  opcode inst == opFence || opcode inst == opSystem

/-- The decoder of stage 1. -/
def decode (p : Param) (inst : Word) : Ex where
  imm := immOf inst
  immSel := opcode inst == opJalr || opcode inst == opLoad || opcode inst == opArithI
  src1Sel := rs1 inst
  src2Sel := rs2 inst
  dstSel := rd inst
  aluOp := func3 inst
  subtype := inst.getLsbD 30 && !(opcode inst == opArithI && func3 inst == opAdd)
  memwr := opcode inst == opStore
  alu := opcode inst == opArithI || (opcode inst == opArithR && isAluFn (func7 inst))
  csr := opcode inst == opSystem && func3 inst != opEcall
  csrWr := opcode inst == opSystem && func3 inst != opEcall &&
    !(func3 inst != opCsrrw && func3 inst != opCsrrwi && rs1 inst == 0#5)
  lui := opcode inst == opLui
  auipc := opcode inst == opAuipc
  jal := opcode inst == opJal
  jalr := opcode inst == opJalr
  branch := opcode inst == opBranch
  system := opcode inst == opSystem && func3 inst == 0#3
  systemOp := opcode inst == opSystem
  illegal := !isLegal p inst
  mul := opcode inst == opArithR && func7 inst == 0x01#7 && p.rv32m

structure Csr where
  mscratch : Word
  mstatus : Word
  mstatush : Word
  misa : Word
  mie : Word
  mip : Word
  mtvec : Word
  mepc : Word
  mcause : Word
  mtval : Word
  deriving DecidableEq, Repr

/-- The register `ex_csr_read` selects by number; `none` in its `default` arm. -/
def Csr.read (c : Csr) (cycle instret : BitVec 64) (n : BitVec 12) : Option Word :=
  if n = csrMvendorid then some mvendorid
  else if n = csrMarchid then some marchid
  else if n = csrMimpid then some mimpid
  else if n = csrMhartid then some mhartid
  else if n = csrMscratch then some c.mscratch
  else if n = csrMstatus then some c.mstatus
  else if n = csrMstatush then some c.mstatush
  else if n = csrMisa then some c.misa
  else if n = csrMie then some c.mie
  else if n = csrMip then some c.mip
  else if n = csrMtvec then some c.mtvec
  else if n = csrMepc then some c.mepc
  else if n = csrMcause then some c.mcause
  else if n = csrMtval then some c.mtval
  else if n = csrRdcycle then some (cycle.extractLsb' 0 32)
  else if n = csrRdcycleh then some (cycle.extractLsb' 32 32)
  else if n = csrRdinstret then some (instret.extractLsb' 0 32)
  else if n = csrRdinstreth then some (instret.extractLsb' 32 32)
  else none

/-- `reg[n] <= b` on one bit of a 32-bit register. -/
def setBit (w : Word) (n : Nat) (b : Bool) : Word :=
  if b then w ||| 1#32 <<< n else w &&& ~~~(1#32 <<< n)

/-- `{w[31:1], 1'b0}` -/
def even (w : Word) : Word := w.extractLsb' 1 31 ++ 0#1

/-- Everything stage 2 reads in one cycle: the instruction, its operands after forwarding,
`fetch_pc`, `ex_flush`, the CSRs and the interrupt inputs. -/
structure Slot where
  ex : Ex
  pc : Word
  insn : Word
  mem2reg : Bool
  fetchPc : Word
  regRdata1 : Word
  regRdata2 : Word
  flush : Bool
  csr : Csr
  cycle : BitVec 64
  instret : BitVec 64
  timerIrq : Bool
  swIrq : Bool
  irq : Bool

namespace Slot

variable (p : Param) (x : Slot)

def aluOp1 : Word := x.regRdata1
def aluOp2 : Word := if x.ex.immSel then x.ex.imm else x.regRdata2
def resultSubs : BitVec 33 := x.aluOp1.signExtend 33 - x.aluOp2.signExtend 33
def resultSubu : BitVec 33 := x.aluOp1.setWidth 33 - x.aluOp2.setWidth 33
def memaddr : Word := x.aluOp1 + x.ex.imm
def systemcall : Bool := x.ex.system && !x.flush

/-! `next_pc`, `branch_taken` and `ex_ill_branch` -/

/-- The condition of each branch; `none` in the `default` arm. -/
def branchCond : Option Bool :=
  if x.ex.aluOp = opBeq then some (x.resultSubs == 0#33)
  else if x.ex.aluOp = opBne then some (x.resultSubs != 0#33)
  else if x.ex.aluOp = opBlt then some (x.resultSubs.getLsbD 32)
  else if x.ex.aluOp = opBge then some (!x.resultSubs.getLsbD 32)
  else if x.ex.aluOp = opBltu then some (x.resultSubu.getLsbD 32)
  else if x.ex.aluOp = opBgeu then some (!x.resultSubu.getLsbD 32)
  else none

def nextPc : Word :=
  if x.ex.jal then even (x.pc + x.ex.imm)
  else if x.ex.jalr then even (x.aluOp1 + x.ex.imm)
  else if x.ex.branch then
    match x.branchCond with
    | some true => x.pc + x.ex.imm
    | some false => x.fetchPc + 4#32
    | none => x.fetchPc
  else x.fetchPc + 4#32

def branchTaken : Bool :=
  if x.ex.jal then !x.flush
  else if x.ex.jalr then !x.flush
  else if x.ex.branch then !x.flush && x.branchCond.getD true
  else false

def illBranch : Bool := !x.ex.jal && !x.ex.jalr && x.ex.branch && x.branchCond.isNone

/-! RV32M -/

def resultMul : BitVec 64 := x.aluOp1.signExtend 64 * x.aluOp2.signExtend 64
def resultMulu : BitVec 64 := x.aluOp1.setWidth 64 * x.aluOp2.setWidth 64
def resultMulsu : BitVec 64 := x.aluOp1.signExtend 64 * x.aluOp2.setWidth 64

def resultDiv : Word :=
  if x.aluOp2 = 0#32 then 0xffffffff#32
  else if x.aluOp1 = 0x80000000#32 ∧ x.aluOp2 = 0xffffffff#32 then 0x80000000#32
  else x.aluOp1.sdiv x.aluOp2

def resultDivu : Word := if x.aluOp2 = 0#32 then 0xffffffff#32 else x.aluOp1 / x.aluOp2

def resultRem : Word :=
  if x.aluOp2 = 0#32 then x.aluOp1
  else if x.aluOp1 = 0x80000000#32 ∧ x.aluOp2 = 0xffffffff#32 then 0#32
  else x.aluOp1.srem x.aluOp2

def resultRemu : Word := if x.aluOp2 = 0#32 then x.aluOp1 else x.aluOp1 % x.aluOp2

/-- The `ex_mul` arm of `ex_result`; without RV32M all its results are 0. -/
def mulResult : Word :=
  if !p.rv32m then 0#32
  else if x.ex.aluOp = opMul then x.resultMul.extractLsb' 0 32
  else if x.ex.aluOp = opMulh then x.resultMul.extractLsb' 32 32
  else if x.ex.aluOp = opMulsu then x.resultMulsu.extractLsb' 32 32
  else if x.ex.aluOp = opMulu then x.resultMulu.extractLsb' 32 32
  else if x.ex.aluOp = opDiv then x.resultDiv
  else if x.ex.aluOp = opDivu then x.resultDivu
  else if x.ex.aluOp = opRem then x.resultRem
  else x.resultRemu

/-- The `ex_alu` arm of `ex_result`. -/
def aluResult : Word :=
  let shamt := (x.aluOp2.extractLsb' 0 5).toNat
  if x.ex.aluOp = opAdd then
    if x.ex.subtype then x.aluOp1 - x.aluOp2 else x.aluOp1 + x.aluOp2
  else if x.ex.aluOp = opSll then x.aluOp1 <<< shamt
  else if x.ex.aluOp = opSlt then if x.resultSubs.getLsbD 32 then 1#32 else 0#32
  else if x.ex.aluOp = opSltu then if x.resultSubu.getLsbD 32 then 1#32 else 0#32
  else if x.ex.aluOp = opXor then x.aluOp1 ^^^ x.aluOp2
  else if x.ex.aluOp = opSr then
    if x.ex.subtype then x.aluOp1.sshiftRight shamt else x.aluOp1 >>> shamt
  else if x.ex.aluOp = opOr then x.aluOp1 ||| x.aluOp2
  else x.aluOp1 &&& x.aluOp2

/-! CSR read -/

/-- The `case` of `ex_csr_read`. -/
def csrValue : Option Word := x.csr.read x.cycle x.instret (x.ex.imm.extractLsb' 0 12)

def csrRead : Word := if x.ex.csr && !x.flush then x.csrValue.getD 0#32 else 0#32

def illCsr : Bool := x.ex.csr && !x.flush && x.csrValue.isNone

/-- `ex_result` -/
def result : Word :=
  if x.ex.memwr then x.aluOp2
  else if x.ex.jal then x.pc + 4#32
  else if x.ex.jalr then x.pc + 4#32
  else if x.ex.lui then x.ex.imm
  else if x.ex.auipc then x.pc + x.ex.imm
  else if x.ex.csr then x.csrRead
  else if x.ex.mul then x.mulResult p
  else if x.ex.alu then x.aluResult
  else 0#32

/-! Exceptions and interrupts -/

def ldAlignExcp : Bool :=
  x.mem2reg && !x.flush &&
    ((x.ex.aluOp == opLh && x.memaddr.getLsbD 0) ||
     (x.ex.aluOp == opLw && (x.memaddr.getLsbD 0 || x.memaddr.getLsbD 1)) ||
     (x.ex.aluOp == opLhu && x.memaddr.getLsbD 0))

def stAlignExcp : Bool :=
  x.ex.memwr && !x.flush &&
    ((x.ex.aluOp == opSh && x.memaddr.getLsbD 0) ||
     (x.ex.aluOp == opSw && (x.memaddr.getLsbD 0 || x.memaddr.getLsbD 1)))

def instIllExcp : Bool := !x.flush && (x.illBranch || x.illCsr || x.ex.illegal)
def instAlignExcp : Bool := !x.flush && (x.nextPc.getLsbD 0 || x.nextPc.getLsbD 1)

/-- An interrupt input gated by `mstatus.MIE`, its bit of `mie`, and the instruction. -/
def irqGate (irq : Bool) (bit : Nat) : Bool :=
  irq && x.csr.mstatus.getLsbD bitMie && x.csr.mie.getLsbD bit && !x.ex.systemOp && !x.flush

def timerInt : Bool := x.irqGate x.timerIrq bitMtie
def swInt : Bool := x.irqGate x.swIrq bitMsie
def extInt : Bool := x.irqGate x.irq bitMeie

def excp : Bool := x.instIllExcp || x.instAlignExcp || x.ldAlignExcp || x.stAlignExcp

def trapNop : Bool := x.excp && !x.flush

def trap : Bool :=
  (x.excp || x.timerInt || x.swInt || x.extInt || x.systemcall) && !x.flush

/-- `ex_imm[1:0]`, which tells ECALL, EBREAK and MRET apart. -/
def envKind : BitVec 2 := x.ex.imm.extractLsb' 0 2

def mcause : Word :=
  if x.instIllExcp then trapInstIll
  else if x.instAlignExcp then trapInstAlign
  else if x.ldAlignExcp then trapLdAlign
  else if x.stAlignExcp then trapStAlign
  else if x.timerInt then intMtime
  else if x.swInt then intMsi
  else if x.extInt then intMei
  else if x.systemcall then
    if x.envKind = 0#2 then trapEcall
    else if x.envKind = 1#2 then trapBreak
    else if x.envKind = 2#2 then x.csr.mcause
    else trapInstIll
  else 0#32

/-- `{csr_mtvec[31:2], 2'b00}` -/
def mtvecBase : Word := x.csr.mtvec.extractLsb' 2 30 ++ 0#2

def trapPc : Word :=
  if x.systemcall && x.envKind == 2#2 then x.csr.mepc
  else if x.csr.mtvec.getLsbD 0 then
    x.mtvecBase + (0#26 ++ x.mcause.extractLsb' 0 4 ++ 0#2)
  else x.mtvecBase

def csrData : Word := if x.ex.aluOp.getLsbD 2 then x.ex.src1Sel.setWidth 32 else x.regRdata1

/-- `{ex_ret_pc, 1'b0}` -/
def retPc : Word :=
  if x.ex.jal || x.ex.jalr || (x.ex.branch && x.branchTaken) then even x.nextPc
  else (x.pc.extractLsb' 1 31 + 2#31) ++ 0#1

/-! CSR update; the two `always` blocks act when the slot is neither stalled nor flushed. -/

/-- Write, set or clear, by the low bits of `ex_alu_op`. -/
def csrOp (old : Word) : Word :=
  if !x.ex.aluOp.getLsbD 1 then x.csrData
  else if !x.ex.aluOp.getLsbD 0 then old ||| x.csrData
  else old &&& ~~~x.csrData

def enter (c : Csr) (cause epc tval : Word) : Csr :=
  { c with
    mcause := cause
    mepc := epc
    mtval := tval
    mstatus := setBit (setBit c.mstatus bitMpie (c.mstatus.getLsbD bitMie)) bitMie false }

/-- The `ex_csr_wr` arm of the trap CSR block. -/
def trapCsrWrite (c : Csr) : Csr :=
  let n := x.ex.imm.extractLsb' 0 12
  if n = csrMepc then { c with mepc := x.csrOp c.mepc }
  else if n = csrMcause then { c with mcause := x.csrOp c.mcause }
  else if n = csrMtval then { c with mtval := x.csrOp c.mtval }
  else if n = csrMstatus then { c with mstatus := x.csrOp c.mstatus }
  else if n = csrMstatush then { c with mstatush := x.csrOp c.mstatush }
  else if n = csrMip then { c with mip := x.csrOp c.mip }
  else c

/-- The `ex_systemcall` arm of the trap CSR block. -/
def envCsr (c : Csr) : Csr :=
  if x.envKind = 0#2 then enter c trapEcall (even x.pc) 0#32
  else if x.envKind = 1#2 then enter c trapBreak (even x.pc) (even x.pc)
  else if x.envKind = 2#2 then
    { c with
      mepc := even x.pc
      mtval := 0#32
      mstatus := setBit c.mstatus bitMie (c.mstatus.getLsbD bitMpie) }
  else { c with mcause := trapInstIll, mepc := even x.pc, mtval := x.insn }

/-- The trap CSR block. -/
def trapCsr (c : Csr) : Csr :=
  if x.instIllExcp then enter c trapInstIll (even x.pc) x.insn
  else if x.ex.csrWr then x.trapCsrWrite c
  else if x.instAlignExcp then enter c trapInstAlign (even x.pc) x.nextPc
  else if x.ldAlignExcp then enter c trapLdAlign (even x.pc) x.memaddr
  else if x.stAlignExcp then enter c trapStAlign (even x.pc) x.memaddr
  else if x.timerInt then
    { enter c intMtime x.retPc 0#32 with mip := setBit c.mip bitMtip true }
  else if x.swInt then { enter c intMsi x.retPc 0#32 with mip := setBit c.mip bitMsip true }
  else if x.extInt then { enter c intMei x.retPc 0#32 with mip := setBit c.mip bitMeip true }
  else if x.systemcall then x.envCsr c
  else c

/-- The CSR file block. -/
def csrFile (c : Csr) : Csr :=
  let n := x.ex.imm.extractLsb' 0 12
  if x.ex.csrWr then
    if n = csrMscratch then { c with mscratch := x.csrOp c.mscratch }
    else if n = csrMisa then { c with misa := x.csrOp c.misa }
    else if n = csrMie then { c with mie := x.csrOp c.mie }
    else if n = csrMtvec then { c with mtvec := x.csrOp c.mtvec }
    else c
  else c

/-- The CSRs after the slot. The two blocks drive different registers. -/
def csrNext : Csr := if x.flush then x.csr else x.csrFile (x.trapCsr x.csr)

/-- `fetch_pc` after the slot. -/
def fetchNext : Word :=
  if x.flush then x.fetchPc + 4#32
  else if x.trap then x.trapPc
  else even x.nextPc

/-- The condition that raises `wb_memwr`. -/
def memwr : Bool := x.ex.memwr && !x.flush && !x.stAlignExcp

def wstrb : BitVec 4 :=
  if x.ex.aluOp = opSb then 1#4 <<< (x.memaddr.extractLsb' 0 2).toNat
  else if x.ex.aluOp = opSh then if x.memaddr.getLsbD 1 then 0b1100#4 else 0b0011#4
  else 0xf#4

def wdata : Word :=
  if x.ex.aluOp = opSb then
    let b := x.aluOp2.extractLsb' 0 8
    b ++ b ++ b ++ b
  else if x.ex.aluOp = opSh then x.aluOp2.extractLsb' 0 16 ++ x.aluOp2.extractLsb' 0 16
  else if x.ex.aluOp = opSw then x.aluOp2
  else 0#32

/-- `wb_alu2reg` after the slot. -/
def alu2reg : Bool :=
  x.ex.alu || x.ex.lui || x.ex.auipc || x.ex.jal || x.ex.jalr || x.ex.csr || x.ex.mul ||
    (x.mem2reg && !x.ldAlignExcp)

end Slot

end Srv32.Rtl

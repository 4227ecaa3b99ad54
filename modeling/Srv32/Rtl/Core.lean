import Srv32.Rtl.Slot

/-! The registers of `rtl/riscv.v` and one clock edge of the core. -/

namespace Srv32.Rtl

structure Input where
  stall : Bool
  timerIrq : Bool
  swIrq : Bool
  interrupt : Bool
  imemValid : Bool
  imemRdata : Word
  dmemWvalid : Bool
  dmemRvalid : Bool
  dmemRresp : Bool
  dmemRdata : Word

structure State where
  stallR : Bool
  flush : Bool
  pipefill : BitVec 2
  fetchPc : Word
  ifPc : Word
  ex : Ex
  exPc : Word
  exInsn : Word
  exMem2reg : Bool
  wbResult : Word
  wbAlu2reg : Bool
  wbDstSel : BitVec 5
  wbBranch : Bool
  wbBranchNxt : Bool
  wbMem2reg : Bool
  wbRaddr : BitVec 2
  wbAluOp : BitVec 3
  wbMemwr : Bool
  wbWaddr : Word
  wbWstrb : BitVec 4
  wbWdata : Word
  wbNop : Bool
  wbNopMore : Bool
  wbTrapNop : Bool
  wbPc : Word
  wbInsn : Word
  csr : Csr
  cycle : BitVec 64
  instret : BitVec 64
  regs : BitVec 5 → Word
  exception : Bool

/-- The registers under reset; `csr_mscratch` has no reset value. -/
def State.reset (p : Param) (mscratch : Word) : State where
  stallR := true
  flush := true
  pipefill := 0
  fetchPc := resetVec
  ifPc := resetVec
  ex := Ex.reset
  exPc := resetVec
  exInsn := nop
  exMem2reg := false
  wbResult := 0
  wbAlu2reg := false
  wbDstSel := 0
  wbBranch := false
  wbBranchNxt := false
  wbMem2reg := false
  wbRaddr := 0
  wbAluOp := 0
  wbMemwr := false
  wbWaddr := 0
  wbWstrb := 0
  wbWdata := 0
  wbNop := false
  wbNopMore := false
  wbTrapNop := false
  wbPc := resetVec
  wbInsn := 0
  csr := ⟨mscratch, 0, 0, misa p.rv32m false p.rv32b, 0, 0, 0, 0, 0, 0⟩
  cycle := 0
  instret := 0
  regs := fun _ => 0
  exception := false

/-- `wb_rdata`: the lane `wb_raddr` selects from the read data, extended as `wb_alu_op` says. -/
def loadData (op : BitVec 3) (raddr : BitVec 2) (rdata : Word) : Word :=
  let byte : Byte :=
    if raddr = 0#2 then rdata.extractLsb' 0 8
    else if raddr = 1#2 then rdata.extractLsb' 8 8
    else if raddr = 2#2 then rdata.extractLsb' 16 8
    else rdata.extractLsb' 24 8
  let half : BitVec 16 :=
    if raddr.getLsbD 1 then rdata.extractLsb' 16 16 else rdata.extractLsb' 0 16
  if op = opLb then byte.signExtend 32
  else if op = opLh then half.signExtend 32
  else if op = opLw then rdata
  else if op = opLbu then byte.setWidth 32
  else if op = opLhu then half.setWidth 32
  else 0#32

namespace State

variable (p : Param) (i : Input) (s : State)

def ifStall : Bool := s.stallR || !i.imemValid
def exStall : Bool := s.stallR || s.ifStall i || (s.exMem2reg && !i.dmemRvalid)
def wbStall : Bool :=
  s.stallR || (s.wbMemwr && !i.dmemWvalid) || (s.wbMem2reg && !i.dmemRresp)

def exFlush : Bool := s.wbBranch || s.wbBranchNxt
def wbFlush : Bool := s.wbNop || s.wbNopMore

def inst : Word := if s.flush then nop else i.imemRdata

def wbRdata : Word := loadData s.wbAluOp s.wbRaddr i.dmemRdata

def wbValue : Word := if s.wbMem2reg then s.wbRdata i else s.wbResult

/-- `reg_rdata1` and `reg_rdata2`: a register read with forwarding from stage 3. -/
def regRdata (n : BitVec 5) : Word :=
  if n = 0#5 then 0#32
  else if !s.wbFlush && s.wbAlu2reg && s.wbDstSel == n then s.wbValue i
  else s.regs n

def slot : Slot where
  ex := s.ex
  pc := s.exPc
  insn := s.exInsn
  mem2reg := s.exMem2reg
  fetchPc := s.fetchPc
  regRdata1 := s.regRdata i s.ex.src1Sel
  regRdata2 := s.regRdata i s.ex.src2Sel
  flush := s.exFlush
  csr := s.csr
  cycle := s.cycle
  instret := s.instret
  timerIrq := i.timerIrq
  swIrq := i.swIrq
  irq := i.interrupt

/-! Output ports -/

def imemReady : Bool := !s.stallR && !s.wbStall i
def imemAddr : Word := s.fetchPc
def dmemWready : Bool := s.wbMemwr
def dmemRready : Bool := s.exMem2reg
def dmemRaddr : Word := (s.slot i).memaddr
def timerEn : Bool := s.pipefill == 2#2

/-- The write port of the register file fires. -/
def regWrite : Bool :=
  s.wbAlu2reg && !s.stallR && !(s.wbStall i || s.wbFlush) && !s.wbTrapNop

/-- The register file after the write port; there is no register 0. -/
def regsNext : BitVec 5 → Word :=
  if s.regWrite i ∧ s.wbDstSel ≠ 0#5 then Function.update s.regs s.wbDstSel (s.wbValue i)
  else s.regs

/-- `ex_mem2reg`, which no stall holds. -/
def mem2regNext : Bool :=
  if opcode (s.inst i) = opLoad then true
  else if s.exMem2reg && i.dmemRvalid then false
  else s.exMem2reg

/-- `wb_memwr`, which no stall holds. -/
def memwrNext : Bool :=
  if (s.slot i).memwr then true
  else if s.wbMemwr && i.dmemWvalid then false
  else s.wbMemwr

/-- The counters and `pipefill`. -/
def counting : Bool := !s.stallR && s.pipefill == 2#2

def step : State :=
  let x := s.slot i
  let ifGo := !s.ifStall i
  let exGo := !s.exStall i
  let nopGo := exGo && !(s.wbMemwr && !i.dmemWvalid)
  let stGo := exGo && s.ex.memwr
  { stallR := i.stall
    flush := s.stallR
    pipefill := if !s.stallR ∧ s.pipefill ≠ 2#2 then s.pipefill + 1#2 else s.pipefill
    fetchPc := if exGo then x.fetchNext else s.fetchPc
    ifPc := if !s.wbStall i then s.fetchPc else s.ifPc
    ex := if ifGo then decode p (s.inst i) else s.ex
    exPc := if ifGo then s.ifPc else s.exPc
    exInsn := if ifGo then s.inst i else s.exInsn
    exMem2reg := s.mem2regNext i
    wbResult := if exGo then x.result p else s.wbResult
    wbAlu2reg := if exGo then x.alu2reg else s.wbAlu2reg
    wbDstSel := if exGo then s.ex.dstSel else s.wbDstSel
    wbBranch := if exGo then x.branchTaken || x.trap else s.wbBranch
    wbBranchNxt := if exGo then s.wbBranch else s.wbBranchNxt
    wbMem2reg := if exGo then s.exMem2reg else s.wbMem2reg
    wbRaddr := if exGo then x.memaddr.extractLsb' 0 2 else s.wbRaddr
    wbAluOp := if exGo then s.ex.aluOp else s.wbAluOp
    wbMemwr := s.memwrNext i
    wbWaddr := if stGo then x.memaddr else s.wbWaddr
    wbWstrb := if stGo then x.wstrb else s.wbWstrb
    wbWdata := if stGo then x.wdata else s.wbWdata
    wbNop := if nopGo then s.wbBranch else s.wbNop
    wbNopMore := if nopGo then s.wbNop else s.wbNopMore
    wbTrapNop := if nopGo then x.trapNop else s.wbTrapNop
    wbPc := if exGo then s.exPc else s.wbPc
    wbInsn := if exGo then s.exInsn else s.wbInsn
    csr := if exGo then x.csrNext else s.csr
    cycle := if s.counting then s.cycle + 1#64 else s.cycle
    instret := if s.counting && exGo && !s.exFlush then s.instret + 1#64 else s.instret
    regs := s.regsNext i
    exception := s.exception || x.excp }

end State

end Srv32.Rtl

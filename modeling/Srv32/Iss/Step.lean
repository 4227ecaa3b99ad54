import Srv32.Iss.Memory
import Srv32.Iss.Decode
import Srv32.Iss.Csr
import Srv32.Iss.Decompress

/-! One step of the simulator (`srv32_step`): the arms of its opcode switch, and its prologue. -/

namespace Srv32.Iss

/-! A C shift of a 32-bit operand by a register is undefined for counts from 32 on; the
hosts the simulator runs on take the count modulo 32. -/

def shl (x n : Word) : Word := x <<< (n.toNat % 32)
def shr (x n : Word) : Word := x >>> (n.toNat % 32)
def sar (x n : Word) : Word := x.sshiftRight (n.toNat % 32)

def ofBool (b : Bool) : Word := if b then 1#32 else 0#32

/-- The halves of the 64-bit unions of the multiply arms. -/
def high (r : BitVec 64) : Word := r.extractLsb' 32 32

/-- The 64-bit quotient and remainder of the signed divide arms. -/
def quot (a b : Word) : Word := ((a.signExtend 64).sdiv (b.signExtend 64)).extractLsb' 0 32
def rem (a b : Word) : Word := ((a.signExtend 64).srem (b.signExtend 64)).extractLsb' 0 32

namespace Rv

variable (cfg : Config) (rv : Rv) (inst : Word)

/-- An arm that writes `v` to `rd`, or traps. -/
def writeRd (v : Option Word) : Flow :=
  match v with
  | some v => .brk (rv.writeRegs cfg (rd inst) v)
  | none => rv.trapRet trapInstIll inst

def execAuipc : Flow := .brk (rv.writeRegs cfg (rd inst) (rv.pc + immU inst))

def execLui : Flow := .brk (rv.writeRegs cfg (rd inst) (immU inst))

/-- The return address of a jump at `pc`. -/
def linkPc (compressed : Bool) : Word :=
  if compressed then rv.pc + 2#32 else rv.pc + 4#32

/-- The common end of JAL and JALR: clear bit 0, leave a misaligned target to the next
step, else link and charge the penalty. -/
def jump (compressed : Bool) (target : Word) : Flow :=
  let target := target &&& ~~~1#32
  if !cfg.rv32c ∧ target &&& 3#32 ≠ 0#32 then .ret (.code rvOkay) { rv with pc := target }
  else
    let rv' := { rv with pc := target }.writeRegs cfg (rd inst) (rv.linkPc compressed)
    .ret (.code rvOkay) (rv'.cycleAdd rv.branchPenalty)

def execJal (compressed : Bool) : Flow :=
  let pcOff := immJ inst
  if pcOff = 0#32 then .ret (.code rvExit) { rv with pc := rv.pc + pcOff, exitcode := 1#32 }
  else rv.jump cfg inst compressed (rv.pc + pcOff)

def execJalr (compressed : Bool) : Flow :=
  let pcNew := rv.readRegs cfg (rs1 inst) + immI inst
  if pcNew = rv.pc then .ret (.code rvExit) { rv with pc := pcNew, exitcode := 1#32 }
  else rv.jump cfg inst compressed pcNew

/-- One condition arm of OP_BRANCH. -/
def branchArm (taken : Bool) (offset : Word) : Flow :=
  if taken then
    let rv' := { rv with pc := rv.pc + offset }
    if (!rv.branchPredict ∨ (0#32).slt offset) ∧ rv'.pc &&& 3#32 = 0#32 then
      .ret (.code rvOkay) (rv'.cycleAdd rv.branchPenalty)
    else .ret (.code rvOkay) rv'
  else .brk rv

def execBranch : Flow :=
  let a := rv.readRegs cfg (rs1 inst)
  let b := rv.readRegs cfg (rs2 inst)
  let offset := immB inst
  if func3 inst = opBeq then rv.branchArm (a == b) offset
  else if func3 inst = opBne then rv.branchArm (a != b) offset
  else if func3 inst = opBlt then rv.branchArm (a.slt b) offset
  else if func3 inst = opBge then rv.branchArm (b.sle a) offset
  else if func3 inst = opBltu then rv.branchArm (a.ult b) offset
  else if func3 inst = opBgeu then rv.branchArm (b.ule a) offset
  else rv.trapRet trapInstIll inst

/-- The extra cycle of a data access when instructions and data share one RAM. -/
def ramCycle : Rv := if rv.singleram then rv.cycleAdd 1#32 else rv

def execLoad (host : Host) : Flow :=
  let address := rv.readRegs cfg (rs1 inst) + immI inst
  let (result, data) := rv.memrwLoad host (func3 inst) address
  let rv := rv.ramCycle
  if result = trapLdFail then rv.trapRet trapLdFail address
  else if result = trapLdAlign then rv.trapRet trapLdAlign address
  else if result = trapInstIll then rv.trapRet trapInstIll inst
  else .brk (rv.writeRegs cfg (rd inst) data)

def execStore (host : Host) : Flow :=
  let address := rv.readRegs cfg (rs1 inst) + immS inst
  let data := rv.readRegs cfg (rs2 inst)
  match rv.memrwStore host (func3 inst) address data with
  | (.code result, rv) =>
    let rv := rv.ramCycle
    if result = trapStFail then rv.trapRet trapStFail address
    else if result = trapStAlign then rv.trapRet trapStAlign address
    else if result = trapInstIll then rv.trapRet trapInstIll inst
    else .brk rv
  | (r, rv) => .ret r rv

/-! OP_ARITHI -/

/-- CLZ: a binary search for the highest set bit. -/
def clz (x : Word) : Word :=
  if x = 0#32 then 32#32
  else
    let (x, r) := if x &&& 0xffff0000#32 = 0#32 then (x <<< 16, 16#32) else (x, 0#32)
    let (x, r) := if x &&& 0xff000000#32 = 0#32 then (x <<< 8, r + 8#32) else (x, r)
    let (x, r) := if x &&& 0xf0000000#32 = 0#32 then (x <<< 4, r + 4#32) else (x, r)
    let (x, r) := if x &&& 0xc0000000#32 = 0#32 then (x <<< 2, r + 2#32) else (x, r)
    if x &&& 0x80000000#32 = 0#32 then r + 1#32 else r

/-- CPOP: `while (n) { n &= n - 1; c++; }` -/
def cpopLoop (n c : Word) : Word :=
  if n = 0#32 then c else cpopLoop (n &&& (n - 1#32)) (c + 1#32)
termination_by n.toNat
decreasing_by
  rename_i h
  have hn : 0 < n.toNat :=
    Nat.pos_of_ne_zero fun h0 => h (BitVec.eq_of_toNat_eq (by simpa using h0))
  have hle : (n &&& (n - 1#32)).toNat ≤ (n - 1#32).toNat := by
    rw [BitVec.toNat_and]
    exact Nat.and_le_right
  have hsub : (n - 1#32).toNat = n.toNat - 1 := by
    rw [BitVec.toNat_sub]
    simp only [BitVec.toNat_ofNat]
    omega
  omega

def ctzTable : List Nat :=
  [0, 1, 28, 2, 29, 14, 24, 3, 30, 22, 20, 15, 25, 17, 4, 8,
   31, 27, 13, 23, 21, 19, 16, 7, 26, 12, 18, 6, 11, 5, 10, 9]

/-- CTZ: the lowest set bit, hashed by a de Bruijn product into a table. -/
def ctz (x : Word) : Word :=
  if x = 0#32 then 32#32
  else BitVec.ofNat 32 (ctzTable.getD (((x &&& -x) * 0x077CB531#32) >>> 27).toNat 0)

def sextB (x : Word) : Word :=
  let n := x &&& 0xff#32
  if n &&& 0x80#32 ≠ 0#32 then n ||| 0xffffff00#32 else n

def sextH (x : Word) : Word :=
  let n := x &&& 0xffff#32
  if n &&& 0x8000#32 ≠ 0#32 then n ||| 0xffff0000#32 else n

def orcB (v : Word) : Word :=
  (if v &&& 0x000000ff#32 ≠ 0#32 then 0x000000ff#32 else 0#32) |||
  (if v &&& 0x0000ff00#32 ≠ 0#32 then 0x0000ff00#32 else 0#32) |||
  (if v &&& 0x00ff0000#32 ≠ 0#32 then 0x00ff0000#32 else 0#32) |||
  (if v &&& 0xff000000#32 ≠ 0#32 then 0xff000000#32 else 0#32)

def rev8 (n : Word) : Word :=
  (n >>> 24 &&& 0x000000ff#32) ||| (n >>> 8 &&& 0x0000ff00#32) |||
  (n <<< 8 &&& 0x00ff0000#32) ||| (n <<< 24 &&& 0xff000000#32)

/-- The value an OP_ARITHI instruction writes to `rd`; `none` where it traps. -/
def arithI : Option Word :=
  let a := rv.readRegs cfg (rs1 inst)
  let shamt : Word := (rs2 inst).setWidth 32
  if func3 inst = opAdd then some (a + immI inst)
  else if func3 inst = opSlt then some (ofBool (a.slt (immI inst)))
  else if func3 inst = opSltu then some (ofBool (a.ult (immI inst)))
  else if func3 inst = opXor then some (a ^^^ immI inst)
  else if func3 inst = opOr then some (a ||| immI inst)
  else if func3 inst = opAnd then some (a &&& immI inst)
  else if func3 inst = opSll then
    if func7 inst = fnRv32i then some (shl a shamt)
    else if cfg.rv32b ∧ func7 inst = fnBset then some (a ||| shl 1#32 shamt)
    else if cfg.rv32b ∧ func7 inst = fnBclr then some (a &&& ~~~(shl 1#32 shamt))
    else if cfg.rv32b ∧ func7 inst = fnClz then
      if rs2 inst = 0#5 then some (clz a)
      else if rs2 inst = 2#5 then some (cpopLoop a 0#32)
      else if rs2 inst = 1#5 then some (ctz a)
      else if rs2 inst = 4#5 then some (sextB a)
      else if rs2 inst = 5#5 then some (sextH a)
      else none
    else if cfg.rv32b ∧ func7 inst = fnBinv then some (a ^^^ shl 1#32 shamt)
    else none
  else
    if func7 inst = fnSrl then some (shr a shamt)
    else if func7 inst = fnSra then some (sar a shamt)
    else if cfg.rv32b ∧ func7 inst = fnBset then
      if rs2 inst = 7#5 then some (orcB a) else none
    else if cfg.rv32b ∧ func7 inst = fnBclr then some (sar a shamt &&& 1#32)
    else if cfg.rv32b ∧ func7 inst = fnClz then some (shr a shamt ||| shl a (32#32 - shamt))
    else if cfg.rv32b ∧ func7 inst = fnRev then
      if shamt = 0x18#32 then some (rev8 a) else none
    else none

/-! OP_ARITHR -/

def arithM (op : BitVec 3) (a b : Word) : Word :=
  if op = opMul then a * b
  else if op = opMulh then high (a.signExtend 64 * b.signExtend 64)
  else if op = opMulsu then high (a.signExtend 64 * b.setWidth 64)
  else if op = opMulu then high (a.setWidth 64 * b.setWidth 64)
  else if op = opDiv then if b ≠ 0#32 then quot a b else 0xffffffff#32
  else if op = opDivu then if b ≠ 0#32 then a / b else 0xffffffff#32
  else if op = opRem then if b ≠ 0#32 then rem a b else a
  else if b ≠ 0#32 then a % b else a

def arithBase (op : BitVec 3) (a b : Word) : Word :=
  if op = opAdd then a + b
  else if op = opSll then shl a b
  else if op = opSlt then ofBool (a.slt b)
  else if op = opSltu then ofBool (a.ult b)
  else if op = opXor then a ^^^ b
  else if op = opSr then shr a b
  else if op = opOr then a ||| b
  else a &&& b

def arithAndn (op : BitVec 3) (a b : Word) : Option Word :=
  if op = opAdd then some (a - b)
  else if op = opSr then some (sar a b)
  else if cfg.rv32b ∧ op = opAnd then some (a &&& ~~~b)
  else if cfg.rv32b ∧ op = opOr then some (a ||| ~~~b)
  else if cfg.rv32b ∧ op = opXor then some (~~~(a ^^^ b))
  else none

/-- The carry-less loops: `term i` is what iteration `i` adds when bit `i` of `b` is set. -/
def clmulLoop (is : List Nat) (b : Word) (term : Nat → Word) : Word :=
  is.foldl (fun n i => if b.getLsbD i then n ^^^ term i else n) 0#32

def arithMinmax (op : BitVec 3) (a b : Word) : Option Word :=
  if op = opClmul then some (clmulLoop (List.range 32) b fun i => a <<< i)
  else if op = opClmulh then some (clmulLoop (List.range' 1 31) b fun i => a >>> (32 - i))
  else if op = opClmulr then some (clmulLoop (List.range 32) b fun i => a >>> (32 - i - 1))
  else if op = opMax then some (if b.slt a then a else b)
  else if op = opMaxu then some (if b.ult a then a else b)
  else if op = opMin then some (if a.slt b then a else b)
  else if op = opMinu then some (if a.ult b then a else b)
  else none

/-- The groups of OP_ARITHR that only the B extension has. -/
def arithB (op : BitVec 3) (a b : Word) : Option Word :=
  let n := b &&& 0x1f#32
  if func7 inst = fnZext then some (a &&& 0xffff#32)
  else if func7 inst = fnMinmax then arithMinmax op a b
  else if func7 inst = fnShadd then
    if op = opSh1add then some (b + a <<< 1)
    else if op = opSh2add then some (b + a <<< 2)
    else if op = opSh3add then some (b + a <<< 3)
    else none
  else if func7 inst = fnBset then some (a ||| shl 1#32 n)
  else if func7 inst = fnBclr then
    if op = opBclr then some (a &&& ~~~(shl 1#32 n))
    else if op = opBext then some (sar a n &&& 1#32)
    else none
  else if func7 inst = fnClz then
    if op = opRol then some (shl a n ||| shr a (32#32 - n))
    else if op = opRor then some (shr a n ||| shl a (32#32 - n))
    else none
  else if func7 inst = fnBinv then some (a ^^^ shl 1#32 n)
  else none

/-- The value an OP_ARITHR instruction writes to `rd`; `none` where it traps. -/
def arithR : Option Word :=
  let a := rv.readRegs cfg (rs1 inst)
  let b := rv.readRegs cfg (rs2 inst)
  if cfg.rv32m ∧ func7 inst = fnRv32m then some (arithM (func3 inst) a b)
  else if func7 inst = fnRv32i then some (arithBase (func3 inst) a b)
  else if func7 inst = fnAndn then arithAndn cfg (func3 inst) a b
  else if cfg.rv32b then arithB inst (func3 inst) a b
  else none

/-! OP_SYSTEM -/

def execEcall (host : Host) : Flow :=
  match rv.syscall host (rv.readRegs cfg cfg.sys) (rv.readRegs cfg regA0)
      (rv.readRegs cfg regA1) (rv.readRegs cfg regA2) with
  | (.error r, rv) => .ret r rv
  | (.ok res, rv) =>
    let rv := if res ≠ -1#32 then rv.writeRegs cfg regA0 res else rv
    rv.trapRet trapEcall 0#32

def execMret : Flow :=
  let rv := { rv with
    pc := rv.csr.mepc
    csr.mstatus := if rv.csr.mstatus &&& 1#32 <<< bitMpie ≠ 0#32
      then rv.csr.mstatus ||| 1#32 <<< bitMie else rv.csr.mstatus &&& ~~~(1#32 <<< bitMie) }
  if !cfg.rv32c ∧ rv.pc &&& 3#32 ≠ 0#32 then .ret (.code rvOkay) rv
  else .ret (.code rvOkay) (rv.cycleAdd rv.branchPenalty)

/-- The `inst.i.imm & 3` switch of OP_ECALL. -/
def execEnv (host : Host) : Flow :=
  let k := (imm12 inst).extractLsb' 0 2
  if k = 0#2 then rv.execEcall cfg host
  else if k = 1#2 then rv.trapRet trapBreak rv.pc
  else if k = 2#2 then rv.execMret cfg
  else rv.trapRet trapInstIll 0#32

/-- `csr_type`, `val` and `update` of a CSR instruction; `none` for a `func3` that is not one. -/
def csrOperand : Option (BitVec 3 × Word × Bool) :=
  let zimm : Word := (rs1 inst).setWidth 32
  let reg := rv.readRegs cfg (rs1 inst)
  if func3 inst = opCsrrwi then some (opCsrrw, zimm, true)
  else if func3 inst = opCsrrw then some (opCsrrw, reg, true)
  else if func3 inst = opCsrrsi then some (opCsrrs, zimm, rs1 inst != 0#5)
  else if func3 inst = opCsrrs then some (opCsrrs, reg, rs1 inst != 0#5)
  else if func3 inst = opCsrrci then some (opCsrrc, zimm, rs1 inst != 0#5)
  else if func3 inst = opCsrrc then some (opCsrrc, reg, rs1 inst != 0#5)
  else none

def execCsr : Flow :=
  match rv.csrOperand cfg inst with
  | none => rv.trapRet trapInstIll inst
  | some (mode, val, update) =>
    match rv.csr.rw (imm12 inst) mode val update with
    | (result, true, csr) => .brk ({ rv with csr := csr }.writeRegs cfg (rd inst) result)
    | (_, false, csr) => { rv with csr := csr }.trapRet trapInstIll 0#32

def execSystem (host : Host) : Flow :=
  if func3 inst = opEcall then rv.execEnv cfg inst host else rv.execCsr cfg inst

/-- `switch (inst.r.op)` -/
def exec (host : Host) (compressed : Bool) : Flow :=
  if opcode inst = opAuipc then rv.execAuipc cfg inst
  else if opcode inst = opLui then rv.execLui cfg inst
  else if opcode inst = opJal then rv.execJal cfg inst compressed
  else if opcode inst = opJalr then rv.execJalr cfg inst compressed
  else if opcode inst = opBranch then rv.execBranch cfg inst
  else if opcode inst = opLoad then rv.execLoad cfg inst host
  else if opcode inst = opStore then rv.execStore cfg inst host
  else if opcode inst = opArithI then rv.writeRd cfg inst (rv.arithI cfg inst)
  else if opcode inst = opArithR then rv.writeRd cfg inst (rv.arithR cfg inst)
  else if opcode inst = opFence then .brk rv
  else if opcode inst = opSystem then rv.execSystem cfg inst host
  else rv.trapRet trapInstIll inst

/-- The switch, and the advance of the pc after its `break`. -/
def execNext (host : Host) (compressed : Bool) : Ret × Rv :=
  match rv.exec cfg inst host compressed with
  | .brk rv => (.code rvOkay, { rv with pc := rv.linkPc compressed })
  | .ret r rv => (r, rv)

/-! The prologue. -/

def mieSet : Bool := rv.csr.mstatus &&& 1#32 <<< bitMie != 0#32

/-- The three interrupt entries at the head of the step. -/
def enterInts : Rv :=
  let rv := if rv.latch.timerIrq ∧ rv.mieSet then rv.int intMtime bitMtip false else rv
  let rv := if rv.latch.swIrqNext ∧ rv.mieSet then rv.int intMsi bitMsip false else rv
  if rv.latch.extIrqNext ∧ rv.mieSet then rv.int intMei bitMeip false else rv

/-- The range and alignment checks of the pc. -/
def checkPc : Rv :=
  let rv := if (rv.memBase + rv.memSize).sle rv.pc ∨ rv.pc.slt rv.memBase
    then rv.trap trapInstFail rv.pc else rv
  let mask := if cfg.rv32c then 1#32 else 3#32
  if rv.pc &&& mask ≠ 0#32 then rv.trap trapInstAlign rv.pc else rv

/-- `inst.inst` after the fetch. -/
def fetch (host : Host) : Word :=
  match rv.readMem rv.pc 4#32 with
  | some b => wordOfBytes b
  | none => host.inst

/-- `instc.inst` after the fetch. -/
def fetchC (host : Host) : BitVec 16 :=
  match rv.readMem rv.pc 2#32 with
  | some b => b 1 ++ b 0
  | none => host.instc

/-- The sampling of the interrupt latches for the instruction fetched. -/
def sampleIrq (inst : Word) : Rv :=
  let sys := opcode inst = opSystem
  let mie := rv.csr.mie
  { rv with latch := { rv.latch with
      timerIrq := rv.csr.mtimecmp.sle rv.csr.mtime ∧ rv.mieSet ∧
        mie &&& 1#32 <<< bitMtie ≠ 0#32 ∧ ¬sys
      swIrqNext := rv.latch.swIrq ∧ rv.mieSet ∧ mie &&& 1#32 <<< bitMsie ≠ 0#32 ∧ ¬sys
      swIrq := rv.csr.msip &&& 1#32 ≠ 0#32
      extIrqNext := rv.latch.extIrq ∧ rv.mieSet ∧ mie &&& 1#32 <<< bitMeie ≠ 0#32 ∧ ¬sys
      extIrq := rv.csr.msip &&& 1#32 <<< 16 ≠ 0#32 } }

/-- The counters of the step, and `prev_pc`. -/
def count : Rv :=
  let rv := { rv with csr := { rv.csr with
      time := rv.csr.time + 1#64
      instret := rv.csr.instret + 1#64 } }
  { rv.cycleAdd 1#32 with prevPc := rv.pc }

/-- The step up to the fetch. -/
def settle : Rv :=
  ({ rv with mtimeUpdate := false }.writeRegs cfg 0#5 0#32).enterInts.checkPc cfg

/-- The step up to the opcode switch: the state there and the word fetched. -/
def prologue (host : Host) : Rv × Word :=
  let rv := rv.settle cfg
  let inst := rv.fetch host
  ((rv.sampleIrq inst).count, inst)

/-- The compressed decoding between the prologue and the switch: the extra cycle when the
instruction length changes, then an illegal-instruction trap or the word to execute. -/
def expand (instc : BitVec 16) (inst : Word) : Except (Ret × Rv) (Rv × Word × Bool) :=
  let d := compressedDecoder instc inst
  let rv := if rv.latch.compressedPrev ≠ d.compressed then rv.cycleAdd 1#32 else rv
  let rv := { rv with latch.compressedPrev := d.compressed }
  if d.illegal then .error (.code rvTrap, rv.trap trapInstIll (instc.signExtend 32))
  else .ok (rv, d.inst, d.compressed)

end Rv

def srv32Step (cfg : Config) (host : Host) (rv : Rv) : Ret × Rv :=
  let (rv', inst) := rv.prologue cfg host
  if cfg.rv32c then
    match rv'.expand ((rv.settle cfg).fetchC host) inst with
    | .error r => r
    | .ok (rv', inst, compressed) => rv'.execNext cfg inst host compressed
  else rv'.execNext cfg inst host false

end Srv32.Iss

import Srv32.Opcode

/-! The simulator's state (`tools/rvsim.h`, `struct rv`) and its register and counter access. -/

namespace Srv32.Iss

/-- The `RV32?_ENABLED` switches the simulator is compiled with. -/
structure Config where
  rv32m : Bool
  rv32e : Bool
  rv32b : Bool
  rv32c : Bool
  deriving DecidableEq, Repr

namespace Config

/-- The default build of `tools/Makefile`. -/
def rv32im : Config := ⟨true, false, false, false⟩

@[simp] theorem rv32im_rv32m : rv32im.rv32m = true := rfl
@[simp] theorem rv32im_rv32e : rv32im.rv32e = false := rfl
@[simp] theorem rv32im_rv32b : rv32im.rv32b = false := rfl
@[simp] theorem rv32im_rv32c : rv32im.rv32c = false := rfl

def regnum (cfg : Config) : Nat := if cfg.rv32e then 16 else 32

/-- `SYS`, the register that holds the system call number. -/
def sys (cfg : Config) : BitVec 5 := if cfg.rv32e then regT0 else regA7

end Config

/-- The union `COUNTER`: a `long long` and its two halves. -/
abbrev Counter := BitVec 64

namespace Counter

def lo (c : Counter) : Word := c.extractLsb' 0 32
def hi (c : Counter) : Word := c.extractLsb' 32 32
def setLo (c : Counter) (v : Word) : Counter := c.hi ++ v
def setHi (c : Counter) (v : Word) : Counter := v ++ c.lo

end Counter

structure Csr where
  time : Counter
  cycle : Counter
  instret : Counter
  mtime : Counter
  mtimecmp : Counter
  mvendorid : Word
  marchid : Word
  mimpid : Word
  mhartid : Word
  mscratch : Word
  mstatus : Word
  mstatush : Word
  misa : Word
  mie : Word
  mtvec : Word
  mepc : Word
  mcause : Word
  mip : Word
  mtval : Word
  msip : Word

/-- The static variables of `srv32_step`. -/
structure Latch where
  timerIrq : Bool
  swIrq : Bool
  swIrqNext : Bool
  extIrq : Bool
  extIrqNext : Bool
  compressedPrev : Bool

/-- `struct rv`, with the static variables of `srv32_step` and of `htif.c`. Memory is
indexed by the offset from `mem_base`. -/
structure Rv where
  pc : Word
  prevPc : Word
  regs : BitVec 5 → Word
  csr : Csr
  debugEn : Bool
  branchPenalty : Word
  branchPredict : Bool
  memSize : Word
  memBase : Word
  mem : Int → Byte
  singleram : Bool
  mtimeUpdate : Bool
  exitcode : Word
  latch : Latch
  htifResult : Word

/-- A call of the host with its arguments. A pointer is an index of the memory array. -/
inductive HostCall where
  | open_ (path : Option Int)
  | close (fd : Word)
  | lseek (fd offset whence : Word)
  | read (fd : Word) (buf : Option Int) (count : Word)
  | write (fd : Word) (buf : Option Int) (count : Word)
  deriving DecidableEq, Repr

/-- What the host supplies to one call of `srv32_step`: a key, the result of each system call
and the bytes it delivers, whether a dump file opens, and the contents of the automatic
variables `inst` and `instc` when the fetch leaves them unset. -/
structure Host where
  getch : Word
  sys : HostCall → Word
  input : HostCall → Nat → Byte
  fopen : Bool
  inst : Word
  instc : BitVec 16

/-- A host without input, whose system calls fail. -/
def Host.none : Host := ⟨-1#32, fun _ => -1#32, fun _ _ => 0#8, false, 0#32, 0#16⟩

@[simp] abbrev rvOkay : Word := 0#32
@[simp] abbrev rvTrap : Word := 1#32
@[simp] abbrev rvExit : Word := 2#32

/-- How a call ends: it returns an `int`, the process exits inside it, or it dereferences a
pointer outside guest memory. -/
inductive Ret where
  | code (v : Word)
  | exit (status : Word)
  | segv
  deriving DecidableEq, Repr

/-- How an arm of the opcode switch ends: `break`, or `return`. -/
inductive Flow where
  | brk (rv : Rv)
  | ret (r : Ret) (rv : Rv)

namespace Rv

/-- The state `main` enters its loop in, without options: `MEMBASE` is 0 and `memsize` is
`MEMSIZE`, in kilobytes. -/
def boot (cfg : Config) (memsize : Nat) (mem : Int → Byte) : Rv where
  pc := 0#32
  prevPc := 0#32
  regs := fun _ => 0#32
  csr :=
    { time := 0, cycle := 0, instret := 0, mtime := 0, mtimecmp := 0
      mvendorid := mvendorid, marchid := marchid, mimpid := mimpid, mhartid := mhartid
      mscratch := 0, mstatus := 0, mstatush := 0, misa := misa cfg.rv32m cfg.rv32e cfg.rv32b
      mie := 0, mtvec := 0, mepc := 0, mcause := 0, mip := 0, mtval := 0, msip := 0 }
  debugEn := false
  branchPenalty := 2#32
  branchPredict := false
  memSize := BitVec.ofNat 32 (memsize * 2 * 1024)
  memBase := 0#32
  mem := mem
  singleram := false
  mtimeUpdate := false
  exitcode := 0#32
  latch := ⟨false, false, false, false, false, false⟩
  htifResult := 0#32

variable (cfg : Config) (rv : Rv)

def readRegs (n : BitVec 5) : Word := if cfg.regnum ≤ n.toNat then 0#32 else rv.regs n

def writeRegs (n : BitVec 5) (v : Word) : Rv :=
  if cfg.regnum ≤ n.toNat then rv else { rv with regs := Function.update rv.regs n v }

def cycleAdd (count : Word) : Rv :=
  { rv with csr := { rv.csr with
      cycle := rv.csr.cycle + count.signExtend 64
      mtime := if rv.mtimeUpdate then rv.csr.mtime else rv.csr.mtime + count.signExtend 64 } }

/-- The update of `mstatus` on trap entry: MPIE takes MIE, and MIE is cleared. -/
def pushMie (mstatus : Word) : Word :=
  let m := if mstatus &&& 1#32 <<< bitMie ≠ 0#32 then mstatus ||| 1#32 <<< bitMpie
    else mstatus &&& ~~~(1#32 <<< bitMpie)
  m &&& ~~~(1#32 <<< bitMie)

def trap (cause val : Word) : Rv :=
  let rv := rv.cycleAdd rv.branchPenalty
  { rv with
    csr := { rv.csr with
      mcause := cause
      mstatus := pushMie rv.csr.mstatus
      mepc := rv.prevPc
      mtval := val }
    pc := if rv.csr.mtvec &&& 1#32 ≠ 0#32 then (rv.csr.mtvec &&& 0xfffffffe#32) + cause * 4#32
      else rv.csr.mtvec }

def int (cause : Word) (src : Nat) (compressed : Bool) : Rv :=
  let rv := if rv.pc = (if compressed then rv.prevPc + 2#32 else rv.prevPc + 4#32)
    then rv.cycleAdd rv.branchPenalty else rv
  { rv with
    csr := { rv.csr with
      mcause := cause
      mstatus := pushMie rv.csr.mstatus
      mip := rv.csr.mip ||| 1#32 <<< src
      mepc := rv.pc }
    pc := if rv.csr.mtvec &&& 1#32 ≠ 0#32
      then (rv.csr.mtvec &&& 0xfffffffe#32) + (cause &&& ~~~(1#32 <<< 31)) * 4#32
      else rv.csr.mtvec }

/-- `srv32_trap` followed by `return RV_TRAP` -/
def trapRet (cause val : Word) : Flow := .ret (.code rvTrap) (rv.trap cause val)

end Rv

end Srv32.Iss

import Srv32.Rtl.Core
import Mathlib.Algebra.Group.Nat.Defs
import Mathlib.Data.Nat.Log

/-! The two-port memory of `testbench/memmodel.v`, and the core between an instruction and a
data memory as `testbench/testbench.v` places them. -/

namespace Srv32.Rtl

/-- `new` in the byte lanes `strb` selects, `old` in the others. -/
def mergeBytes (strb : BitVec 4) (old new : Word) : Word :=
  let lane (k : Nat) : Byte :=
    if strb.getLsbD k then new.extractLsb' (8 * k) 8 else old.extractLsb' (8 * k) 8
  lane 3 ++ lane 2 ++ lane 1 ++ lane 0

structure MemPort where
  rready : Bool
  wready : Bool
  raddr : BitVec 30
  waddr : BitVec 30
  wdata : Word
  wstrb : BitVec 4

/-- `mem2ports`: the words of `ram`, and the registered read data. -/
structure Mem2ports where
  ram : Nat → Word
  rdata : Word

namespace Mem2ports

/-- `ADDRW` of a memory of `size` bytes. -/
def addrw (size : Nat) : Nat := Nat.clog 2 (size / 4)

/-- `radr` and `wadr`: the low `ADDRW` bits of a word address. -/
def index (size : Nat) (addr : BitVec 30) : Nat := addr.toNat % 2 ^ addrw size

/-- One positive edge: a read sees the bytes written in the same cycle. -/
def step (size : Nat) (b : MemPort) (m : Mem2ports) : Mem2ports where
  ram :=
    if b.wready then
      Function.update m.ram (index size b.waddr)
        (mergeBytes b.wstrb (m.ram (index size b.waddr)) b.wdata)
    else m.ram
  rdata :=
    if b.rready then
      if b.wready ∧ index size b.raddr = index size b.waddr then
        mergeBytes b.wstrb (m.ram (index size b.raddr)) b.wdata
      else m.ram (index size b.raddr)
    else m.rdata

end Mem2ports

/-- `IRAMSIZE`, `DRAMSIZE` and `DRAMBASE` for `MEMSIZE` kilobytes; `IRAMBASE` is 0. -/
def ramSize (memsize : Nat) : Nat := memsize * 1024

/-- `addr[31:2] - (DRAMBASE/4)` -/
def dramIndex (memsize : Nat) (addr : Word) : BitVec 30 :=
  addr.extractLsb' 2 30 - BitVec.ofNat 30 (ramSize memsize / 4)

/-- The core with its instruction and data memory. -/
structure Board where
  core : State
  imem : Mem2ports
  dmem : Mem2ports

/-- The pins the surroundings drive. -/
structure Pins where
  stall : Bool
  timerIrq : Bool
  swIrq : Bool
  interrupt : Bool

namespace Board

variable (p : Param) (memsize : Nat) (pins : Pins) (b : Board)

/-- The core's inputs: the memories are always ready. -/
def input : Input where
  stall := pins.stall
  timerIrq := pins.timerIrq
  swIrq := pins.swIrq
  interrupt := pins.interrupt
  imemValid := true
  imemRdata := b.imem.rdata
  dmemWvalid := true
  dmemRvalid := true
  dmemRresp := true
  dmemRdata := b.dmem.rdata

def imemPort : MemPort where
  rready := b.core.imemReady (b.input pins)
  wready := false
  raddr := b.core.imemAddr.extractLsb' 2 30
  waddr := 0
  wdata := 0
  wstrb := 0

def dmemPort : MemPort where
  rready := b.core.dmemRready
  wready := b.core.dmemWready
  raddr := dramIndex memsize (b.core.dmemRaddr (b.input pins))
  waddr := dramIndex memsize b.core.wbWaddr
  wdata := b.core.wbWdata
  wstrb := b.core.wbWstrb

def step : Board where
  core := b.core.step p (b.input pins)
  imem := b.imem.step (ramSize memsize) (b.imemPort pins)
  dmem := b.dmem.step (ramSize memsize) (b.dmemPort memsize pins)

def run (pins : Nat → Pins) : Nat → Board
  | 0 => b
  | n + 1 => (run pins n).step p memsize (pins n)

end Board

end Srv32.Rtl

import Srv32.Refine.DataMem
import Srv32.Rtl.Retire

/-! The data path of the core: the registers a store leaves for the write port, `mem2ports`, and
the lane of a load. It behaves like the byte memory of the simulator. -/

namespace Srv32.Rtl

/-- The data memory and the registers of stage 3 that access it. -/
structure DataPath where
  mem : Mem2ports
  memwr : Bool
  waddr : Word
  wstrb : BitVec 4
  wdata : Word
  raddr : BitVec 2
  aluOp : BitVec 3

namespace DataPath

variable (memsize : ℕ) (u : DataPath) (x : Slot)

/-- One cycle with `x` in stage 2 and nothing stalled. -/
def step : DataPath where
  mem := u.mem.step (ramSize memsize)
    ⟨x.mem2reg, u.memwr, dramIndex memsize x.memaddr, dramIndex memsize u.waddr, u.wdata, u.wstrb⟩
  memwr := x.memwr
  waddr := if x.ex.memwr then x.memaddr else u.waddr
  wstrb := if x.ex.memwr then x.wstrb else u.wstrb
  wdata := if x.ex.memwr then x.wdata else u.wdata
  raddr := x.memaddr.extractLsb' 0 2
  aluOp := x.ex.aluOp

/-- `wb_rdata` -/
def rdata : Word := loadData u.aluOp u.raddr u.mem.rdata

/-- The words of the memory once the store of stage 3 has landed. -/
def contents : ℕ → Word :=
  let i := Mem2ports.index (ramSize memsize) (dramIndex memsize u.waddr)
  if u.memwr then Function.update u.mem.ram i (mergeBytes u.wstrb (u.mem.ram i) u.wdata)
  else u.mem.ram

theorem step_ram : (u.step memsize x).mem.ram = u.contents memsize := by
  simp only [step, Mem2ports.step, contents]

/-- A read sees the store of stage 3, which writes in the same cycle. -/
theorem step_rdata (h : x.mem2reg = true) : (u.step memsize x).mem.rdata =
    u.contents memsize (Mem2ports.index (ramSize memsize) (dramIndex memsize x.memaddr)) := by
  rw [← step_ram memsize u x]
  exact Mem2ports.step_rdata h

theorem contents_store (h : x.memwr = true) : (u.step memsize x).contents memsize =
    Function.update (u.contents memsize)
      (Mem2ports.index (ramSize memsize) (dramIndex memsize x.memaddr))
      (mergeBytes x.wstrb (u.contents memsize
        (Mem2ports.index (ramSize memsize) (dramIndex memsize x.memaddr))) x.wdata) := by
  have hm : x.ex.memwr = true := by
    simp only [Slot.memwr, Bool.and_eq_true] at h
    exact h.1.1
  have hram := step_ram memsize u x
  have hw : (u.step memsize x).memwr = true := h
  rw [contents, hw, if_pos rfl, hram]
  simp only [step, hm, if_true]

theorem contents_idle (h : x.memwr = false) :
    (u.step memsize x).contents memsize = u.contents memsize := by
  have hw : (u.step memsize x).memwr = false := h
  rw [contents, hw, if_neg (by simp), step_ram]

end DataPath

def Board.dataPath (b : Board) : DataPath :=
  ⟨b.dmem, b.core.wbMemwr, b.core.wbWaddr, b.core.wbWstrb, b.core.wbWdata, b.core.wbRaddr,
    b.core.wbAluOp⟩

namespace Board

variable {p : Param} {memsize : ℕ} {b : Board}

/-- A board that is not stalled steps its data path, on the slot in stage 2. -/
theorem dataPath_step {pins : Pins} (hp : pins.stall = false) (hs : b.core.stallR = false) :
    (b.step p memsize pins).dataPath = b.dataPath.step memsize (b.core.slot (b.input pins)) := by
  have hr : Ready (b.input pins) := ⟨hp, rfl, rfl, rfl, rfl⟩
  rw [Board.dataPath, Board.step, State.step_ready hr hs]
  rfl

/-- The store of stage 3 lands with the next edge. -/
theorem dataPath_contents (pins : Pins) :
    (b.step p memsize pins).dmem.ram = b.dataPath.contents memsize := rfl

theorem run_stallR {pins : ℕ → Pins} (hp : ∀ t, (pins t).stall = false)
    (hs : b.core.stallR = false) (n : ℕ) : (b.run p memsize pins n).core.stallR = false := by
  induction n with
  | zero => exact hs
  | succ n ih =>
    have hr : Ready ((b.run p memsize pins n).input (pins n)) := ⟨hp n, rfl, rfl, rfl, rfl⟩
    rw [run, step, State.step_ready hr ih]

end Board

end Srv32.Rtl

namespace Srv32.Refine

open Iss (Rv Host byteOfWord)
open Iss.Rv (width)
open Rtl (Slot Board Pins Param DataPath ramSize Mem2ports dramIndex)

/-- What an instruction does to the data RAM. -/
inductive DataOp where
  | load (op : BitVec 3) (address : Word)
  | store (op : BitVec 3) (address data : Word)
  | idle

namespace DataOp

/-- The access is one of the eight, aligned to its width and inside the data RAM. -/
def Ok (memsize : ℕ) : DataOp → Prop
  | .load op a => Rtl.isLoadOp op = true ∧ a.toNat % (width op).toNat = 0 ∧
      ramSize memsize ≤ a.toNat ∧ a.toNat < 2 * ramSize memsize
  | .store op a _ => Rtl.isStoreOp op = true ∧ a.toNat % (width op).toNat = 0 ∧
      ramSize memsize ≤ a.toNat ∧ a.toNat < 2 * ramSize memsize
  | .idle => True

/-- The slot carries the access out. -/
def Presents (x : Slot) : DataOp → Prop
  | .load op a => x.mem2reg = true ∧ x.ex.memwr = false ∧ x.ex.aluOp = op ∧ x.memaddr = a
  | .store op a v => x.ex.memwr = true ∧ x.flush = false ∧ x.ex.aluOp = op ∧ x.memaddr = a ∧
      x.aluOp2 = v
  | .idle => x.memwr = false

/-- The simulator after the access. -/
def next (host : Host) (rv : Rv) : DataOp → Rv
  | .load _ _ => rv
  | .store op a v => (rv.memrwStore host op a v).2
  | .idle => rv

/-- The simulator after the first `n` accesses of a sequence. -/
def run (hosts : ℕ → Host) (rv : Rv) (os : ℕ → DataOp) : ℕ → Rv
  | 0 => rv
  | n + 1 => (os n).next (hosts n) (run hosts rv os n)

end DataOp

variable {memsize : ℕ} {prog : ℕ → Word} {rv : Rv} {host : Host} {u : DataPath} {x : Slot}

theorem Mapped.next (h : Mapped memsize rv) (o : DataOp) : Mapped memsize (o.next host rv) := by
  cases o with
  | load op a => exact h
  | idle => exact h
  | store op a v =>
    obtain ⟨_, _, _, _, _, _, _, he⟩ := Rv.stored_memrwStore op a v
    rw [DataOp.next, he]
    exact ⟨h.memBase, h.memSize, h.small⟩

theorem Mapped.run (h : Mapped memsize rv) (hosts : ℕ → Host) (os : ℕ → DataOp) (n : ℕ) :
    Mapped memsize (DataOp.run hosts rv os n) := by
  induction n with
  | zero => exact h
  | succ n ih => exact ih.next (os n)

theorem width_cases (op : BitVec 3) (h : Rtl.isLoadOp op = true ∨ Rtl.isStoreOp op = true) :
    (width op).toNat = 1 ∨ (width op).toNat = 2 ∨ (width op).toNat = 4 := by
  revert h
  rcases Bits.cases3 op with rfl | rfl | rfl | rfl | rfl | rfl | rfl | rfl <;> decide

theorem Mapped.memOk_data (h : Mapped memsize rv) {op : BitVec 3} {a : Word}
    (hop : Rtl.isLoadOp op = true ∨ Rtl.isStoreOp op = true)
    (ha : a.toNat % (width op).toNat = 0) (hhi : a.toNat < 2 * ramSize memsize) :
    rv.memOk a (width op) = true := by
  have hw := width_le op hop
  have hsmall := h.based.small
  have h4 := Rtl.ramSize_mod memsize
  refine (Iss.Rv.memOk_iff h.based hw (by omega)).mpr ?_
  -- the end of the RAM is a multiple of every width
  rcases width_cases op hop with hn | hn | hn <;> rw [hn] at ha ⊢ <;> omega

theorem load_sim (h : SameMem memsize prog (u.contents memsize) rv.mem) (hm : Mapped memsize rv)
    {op : BitVec 3} {a : Word} (hok : (DataOp.load op a).Ok memsize)
    (hx : (DataOp.load op a).Presents x) :
    rv.memrwLoad host op a = (0#32, (u.step memsize x).rdata) := by
  obtain ⟨hop, hal, hlo, hhi⟩ := hok
  obtain ⟨hld, -, rfl, rfl⟩ := hx
  have h4 := Rtl.ramSize_mod memsize
  have hsmall := hm.based.small
  have hin := hm.memOk_data (Or.inl hop) hal hhi
  have hword : (u.step memsize x).mem.rdata =
      u.contents memsize ((x.memaddr.toNat - ramSize memsize) / 4) := by
    rw [DataPath.step_rdata memsize u x hld, Rtl.index_dram hm.small hlo hhi]
  rw [Rv.memrwLoad, Rv.loadLen_of_aligned hop hal]
  simp only [Rv.readMem, hin, if_true]
  refine congrArg (Prod.mk 0#32) ?_
  change _ = Rtl.loadData x.ex.aluOp (x.memaddr.extractLsb' 0 2) (u.step memsize x).mem.rdata
  rw [hword]
  refine loadData_eq hop hal _ _ fun i hi => ?_
  have hd := h.data (x.memaddr.toNat - ramSize memsize + i) (by omega)
  rw [Iss.Rv.offset_eq hm.based (by omega)]
  rw [show ramSize memsize + (x.memaddr.toNat - ramSize memsize + i) = x.memaddr.toNat + i by
    omega] at hd
  push_cast at hd
  rw [hd]
  congr 2 <;> omega

theorem memwr_of_aligned (hst : x.ex.memwr = true) (hf : x.flush = false)
    (hop : Rtl.isStoreOp x.ex.aluOp = true)
    (hal : x.memaddr.toNat % (width x.ex.aluOp).toNat = 0) : x.memwr = true := by
  have hexcp : x.stAlignExcp = false := by
    simp only [Slot.stAlignExcp, Bits.testBit_zero, Bits.testBit_one]
    simp only [Rtl.isStoreOp, Bool.or_eq_true, beq_iff_eq] at hop
    rcases hop with (ho | ho) | ho <;> rw [ho] at hal ⊢ <;> simp [width] at hal ⊢ <;> omega
  rw [Slot.memwr, hst, hf, hexcp]
  rfl

theorem SameMem.next (h : SameMem memsize prog (u.contents memsize) rv.mem)
    (hm : Mapped memsize rv) {o : DataOp} (hok : o.Ok memsize) (hx : o.Presents x) :
    SameMem memsize prog ((u.step memsize x).contents memsize) (o.next host rv).mem := by
  cases o with
  | idle =>
    rw [DataPath.contents_idle memsize u x hx]
    exact h
  | load op a =>
    have hidle : x.memwr = false := by
      rw [Slot.memwr, hx.2.1]
      rfl
    rw [DataPath.contents_idle memsize u x hidle]
    exact h
  | store op a v =>
    obtain ⟨hop, hal, hlo, hhi⟩ := hok
    obtain ⟨hst, hf, rfl, rfl, rfl⟩ := hx
    have hsmall := hm.based.small
    have hin := hm.memOk_data (Or.inr hop) hal hhi
    have hmem : ((DataOp.store x.ex.aluOp x.memaddr x.aluOp2).next host rv).mem =
        rv.copyIn x.memaddr.toNat (width x.ex.aluOp).toNat (byteOfWord x.aluOp2) := by
      rw [DataOp.next, Rv.memrwStore, Rv.storeLen_of_aligned hop hal]
      simp only [Rv.writeMem, hin, if_true]
      rw [Iss.Rv.offset_eq hm.based (by omega), width_toInt _ (Or.inr hop)]
    rw [DataPath.contents_store memsize u x (memwr_of_aligned hst hf hop hal), hmem]
    exact h.store hm.small hop hal hlo hhi

section

variable (p : Param) (memsize : ℕ) (pins : ℕ → Pins) (b : Board)

def boardSlot (t : ℕ) : Slot :=
  (b.run p memsize pins t).core.slot ((b.run p memsize pins t).input (pins t))

def boardRdata (t : ℕ) : Word :=
  (b.run p memsize pins t).core.wbRdata ((b.run p memsize pins t).input (pins t))

end

/-- The data RAM of a board that is not stalled, one access a cycle, against the memory of the
simulator. The word memory shows each store in the cycle after the next. -/
theorem data_path_simulates (p : Param) (memsize : ℕ) (pins : ℕ → Pins) (b : Board)
    (prog : ℕ → Word) (hosts : ℕ → Host) (rv : Rv) (os : ℕ → DataOp) (n : ℕ)
    (hp : ∀ t, (pins t).stall = false) (hs : b.core.stallR = false) (hm : Mapped memsize rv)
    (h0 : SameMem memsize prog (b.run p memsize pins 1).dmem.ram rv.mem)
    (hok : ∀ t < n, (os t).Ok memsize)
    (hx : ∀ t < n, (os t).Presents (boardSlot p memsize pins b t)) :
    (∀ t ≤ n, SameMem memsize prog (b.run p memsize pins (t + 1)).dmem.ram
        (DataOp.run hosts rv os t).mem) ∧
      ∀ t < n, ∀ op a, os t = .load op a →
        (DataOp.run hosts rv os t).memrwLoad (hosts t) op a =
          (0#32, boardRdata p memsize pins b (t + 1)) := by
  have hstep : ∀ t, (b.run p memsize pins (t + 1)).dataPath =
      (b.run p memsize pins t).dataPath.step memsize (boardSlot p memsize pins b t) := fun t =>
    Board.dataPath_step (hp t) (Board.run_stallR hp hs t)
  have hram : ∀ t, (b.run p memsize pins (t + 1)).dmem.ram =
      (b.run p memsize pins t).dataPath.contents memsize := fun t => Board.dataPath_contents _
  -- what the accesses up to `t` leave is in the RAM or on the write port
  have hmem : ∀ t ≤ n, SameMem memsize prog
      ((b.run p memsize pins t).dataPath.contents memsize) (DataOp.run hosts rv os t).mem := by
    intro t ht
    induction t with
    | zero =>
      rw [← hram]
      exact h0
    | succ t ih =>
      rw [hstep]
      exact (ih (by omega)).next (hm.run hosts os t) (hok t (by omega)) (hx t (by omega))
  refine ⟨fun t ht => ?_, fun t ht op a ho => ?_⟩
  · rw [hram]
    exact hmem t ht
  · have hok' := hok t ht
    have hx' := hx t ht
    rw [ho] at hok' hx'
    rw [load_sim (hmem t (by omega)) (hm.run hosts os t) hok' hx', ← hstep]
    rfl

/-- `sb x2, 1(x1)` in stage 2 and `lh x3, 0(x1)` behind it, at the start of an empty data RAM. -/
def sbLhBoard : Board where
  core := { Rtl.State.reset .rv32im 0#32 with
    stallR := false
    flush := false
    ex := Rtl.decode .rv32im 0x002080a3#32
    exInsn := 0x002080a3#32
    regs := fun n => if n = 1#5 then 0x400#32 else 0x87654321#32 }
  imem := ⟨fun _ => 0x00009183#32, 0x00009183#32⟩
  dmem := ⟨fun _ => 0#32, 0#32⟩

def sbLh : ℕ → DataOp
  | 0 => .store opSb 0x401#32 0x87654321#32
  | 1 => .load opLh 0x400#32
  | _ => .idle

def quiet : ℕ → Pins := fun _ => ⟨false, false, false, false⟩

/-- The load has the byte the store puts there in the same cycle. -/
theorem data_path_simulates_sb_lh : boardRdata .rv32im 1 quiet sbLhBoard 2 = 0x2100#32 ∧
    (DataOp.run (fun _ => .none) (Rv.boot .rv32im 1 (Iss.image [])) sbLh 1).memrwLoad .none opLh
      0x400#32 = (0#32, boardRdata .rv32im 1 quiet sbLhBoard 2) := by
  have hm : Mapped 1 (Rv.boot .rv32im 1 (Iss.image [])) := ⟨rfl, rfl, by decide⟩
  have h0 : SameMem 1 (fun _ => 0#32) (sbLhBoard.run .rv32im 1 quiet 1).dmem.ram
      (Rv.boot .rv32im 1 (Iss.image [])).mem := sameMem_image []
  have hsim := data_path_simulates .rv32im 1 quiet sbLhBoard _ (fun _ => .none) _ sbLh 2
    (fun _ => rfl) rfl hm h0 ?_ ?_
  · exact ⟨by decide +kernel, hsim.2 1 (by decide) opLh 0x400#32 rfl⟩
  · intro t ht
    rcases (by omega : t = 0 ∨ t = 1) with rfl | rfl
    · exact ⟨by decide, by decide, by decide, by decide⟩
    · exact ⟨by decide, by decide, by decide, by decide⟩
  · intro t ht
    rcases (by omega : t = 0 ∨ t = 1) with rfl | rfl
    · exact ⟨by decide +kernel, by decide +kernel, by decide +kernel, by decide +kernel,
        by decide +kernel⟩
    · exact ⟨by decide +kernel, by decide +kernel, by decide +kernel, by decide +kernel⟩

end Srv32.Refine

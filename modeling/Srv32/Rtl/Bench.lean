import Srv32.Rtl.Hart
import Srv32.Trace

/-! `testbench/testbench.v` around the system: what it answers to the stores of the core, what it
writes to the console and to `dump.txt`, and when it ends the simulation. -/

namespace Srv32.Rtl

open Trace (dumpLine)

/-- The function `getw` of `mem2ports`. -/
def getw (memsize : ℕ) (ram : ℕ → Word) (address : Word) : Word :=
  ram (Mem2ports.index (ramSize memsize) (address.extractLsb' 2 30))

/-- The function `getb` of `mem2ports`. -/
def getb (memsize : ℕ) (ram : ℕ → Word) (address : Word) : Byte :=
  (getw memsize ram address).extractLsb' (8 * (address.toNat % 4)) 8

/-- What the testbench does on a request: the characters it writes to the console for the program,
the text it writes to `dump.txt`, the new `result`, and whether it calls `$finish`. The statistics
it prints before that are left out. -/
structure Reply where
  console : List Byte
  dump : List Char
  result : Option Word
  finish : Bool

def Reply.none : Reply := ⟨[], [], Option.none, false⟩

/-- `%c` -/
def charOf (b : Byte) : Char := Char.ofNat b.toNat

/-- The values of `i` in `for (i = start; i < stop; i = i + step)`. -/
def steps (step : ℕ) (start stop : Word) : List Word :=
  (List.range ((stop.toNat - start.toNat + (step - 1)) / step)).map fun j =>
    start + BitVec.ofNat 32 (step * j)

section

variable (memsize : ℕ) (ram : ℕ → Word)

def iramSize : Word := BitVec.ofNat 32 (ramSize memsize)

/-- A store to `MMIO_TOHOST`: the request block is in the data memory. -/
def tohostReply (wdata : Word) : Reply :=
  let arg (k : Word) : Word := getw memsize ram (wdata - iramSize memsize + k)
  if arg 0#32 = sysLseek then { Reply.none with result := some 0xffffffff#32 }
  else if arg 0#32 = sysWrite then
    { Reply.none with
      console :=
        if arg 4#32 = 1#32 then
          (List.range (arg 12#32).toNat).map fun i =>
            getb memsize ram (arg 8#32 - iramSize memsize + BitVec.ofNat 32 i)
        else []
      result := some (arg 12#32) }
  else if arg 0#32 = sysExit then { Reply.none with result := some 0#32, finish := true }
  else if arg 0#32 = sysDump then
    { Reply.none with
      dump := (steps 4 (arg 4#32) (arg 8#32)).flatMap fun i =>
        dumpLine (getw memsize ram (i - iramSize memsize))
      result := some 0#32 }
  else if arg 0#32 = sysDumpBin then
    { Reply.none with
      dump := (steps 1 (arg 4#32) (arg 8#32)).flatMap fun i =>
        [charOf (getb memsize ram (i - iramSize memsize)), '\n']
      result := some 0#32 }
  else Reply.none

def storeReply (waddr wdata : Word) : Reply :=
  if waddr = mmioPutc then
    { Reply.none with console := [wdata.extractLsb' 0 8], result := some 1#32 }
  else if waddr = mmioExit then { Reply.none with result := some 1#32, finish := true }
  else if waddr = mmioTohost then tohostReply memsize ram wdata
  else if !isClint waddr && decide (2 ^ Nat.clog 2 (2 * ramSize memsize) ≤ waddr.toNat) then
    { Reply.none with finish := true }
  else Reply.none

/-- ECALL -/
def callReply (regs : BitVec 5 → Word) : Reply :=
  let byte (a : Word) : Byte := getb memsize ram (a - iramSize memsize)
  if regs regA7 = sysExit then { Reply.none with finish := true }
  else if regs regA7 = sysWrite ∧ regs regA0 = 1#32 then
    { Reply.none with
      console := (List.range (regs regA2).toNat).map fun i =>
        byte (regs regA1 + BitVec.ofNat 32 i) }
  else if regs regA7 = sysDump then
    { Reply.none with
      dump := (steps 4 (regs regA0) (regs regA1)).flatMap fun i =>
        dumpLine (byte (i + 3#32) ++ byte (i + 2#32) ++ byte (i + 1#32) ++ byte i) }
  else if regs regA7 = sysDumpBin then
    { Reply.none with
      dump := (steps 1 (regs regA0) (regs regA1)).map fun i => charOf (byte i) }
  else Reply.none

end

/-- The registers of the testbench beside the system: `result`, `wb_system` and `wb_break` of the
core, the watchdog, what has been written, and whether `$finish` has been called. -/
structure Bench where
  soc : Soc
  result : Word
  wbSystem : Bool
  wbBreak : BitVec 2
  nextPc : Word
  count : BitVec 8
  console : List Byte
  dump : List Char
  finished : Bool

namespace Bench

variable (p : Param) (memsize : ℕ) (stall : Bool) (b : Bench)

def input : Input := b.soc.top.input (b.soc.input ⟨stall, b.result⟩)

/-- The answer to the core's store. -/
def stores : Reply :=
  let core := b.soc.top.core
  if core.dmemWready then storeReply memsize b.soc.dmem.ram core.wbWaddr core.wbWdata
  else Reply.none

def calls : Reply :=
  if b.wbSystem && !b.soc.top.core.wbStall (b.input stall) && b.wbBreak == 0#2 then
    callReply memsize b.soc.dmem.ram b.soc.top.core.regs
  else Reply.none

/-- "IMEM address out of range" -/
def imemRange : Bool :=
  b.soc.top.core.imemReady (b.input stall) &&
    decide (2 ^ Nat.clog 2 (ramSize memsize) ≤ b.soc.top.core.imemAddr.toNat)

/-- "Exception cached but mtvec is not initialized" -/
def untrapped : Bool :=
  let core := b.soc.top.core
  !core.exStall (b.input stall) && (core.slot (b.input stall)).trap &&
    core.csr.mtvec.extractLsb' 2 30 == 0#30

/-- One positive edge of the clock. After `$finish` nothing is written any more. -/
def step : Bench :=
  let core := b.soc.top.core
  let go := !core.exStall (b.input stall)
  { soc := b.soc.step p memsize ⟨stall, b.result⟩
    result := (b.stores memsize).result.getD b.result
    wbSystem := if go then (core.slot (b.input stall)).systemcall else b.wbSystem
    wbBreak := if go then (core.slot (b.input stall)).envKind else b.wbBreak
    nextPc := core.ifPc
    count := if b.nextPc = core.ifPc then b.count + 1#8 else 0#8
    console :=
      if b.finished then b.console
      else b.console ++ (b.stores memsize).console ++ (b.calls memsize stall).console
    dump :=
      if b.finished then b.dump
      else b.dump ++ (b.stores memsize).dump ++ (b.calls memsize stall).dump
    finished :=
      b.finished || (b.stores memsize).finish || (b.calls memsize stall).finish ||
        b.imemRange memsize stall || b.untrapped stall || decide (100 < b.count.toNat) }

def run (stall : ℕ → Bool) : ℕ → Bench
  | 0 => b
  | n + 1 => (run stall n).step p memsize (stall n)

/-- The testbench under reset, its memories loaded. -/
def boot (p : Param) (mscratch : Word) (prog data : ℕ → Word) (rdata result : Word) : Bench where
  soc := .boot p mscratch prog data rdata
  result := result
  wbSystem := false
  wbBreak := 0#2
  nextPc := 0#32
  count := 0#8
  console := []
  dump := []
  finished := false

/-- What the testbench gives the system. -/
def host (stall : ℕ → Bool) (t : ℕ) : HostPins := ⟨stall t, (b.run p memsize stall t).result⟩

def inputs (stall : ℕ → Bool) : ℕ → Input := b.soc.coreInputs p memsize (b.host p memsize stall)

variable {p memsize b} {st : ℕ → Bool} {m : Word} {k : ℕ}

theorem soc_run (t : ℕ) : (b.run p memsize st t).soc = b.soc.run p memsize (b.host p memsize st) t := by
  induction t with
  | zero => rfl
  | succ t ih =>
    rw [Soc.run, ← ih]
    rfl

theorem input_run (t : ℕ) :
    (b.run p memsize st t).input (st t) = b.inputs p memsize st t := by
  rw [inputs, Soc.coreInputs_eq, ← soc_run]
  rfl

theorem finished_mono {t u : ℕ} (h : t ≤ u) (hu : (b.run p memsize st u).finished = false) :
    (b.run p memsize st t).finished = false := by
  induction u, h using Nat.le_induction with
  | base => exact hu
  | succ u _ ih =>
    refine ih ?_
    have : ((b.run p memsize st u).finished || _ || _ || _ || _ || _) = false := hu
    simp only [Bool.or_eq_false_iff] at this
    exact this.1.1.1.1.1

theorem ended_next {t : ℕ}
    (hf : (((b.run p memsize st t).stores memsize).finish ||
      ((b.run p memsize st t).calls memsize (st t)).finish) = true)
    (hc : ((b.run p memsize st t).stores memsize).console ++
      ((b.run p memsize st t).calls memsize (st t)).console = [])
    (hd : ((b.run p memsize st t).stores memsize).dump ++
      ((b.run p memsize st t).calls memsize (st t)).dump = []) :
    (b.run p memsize st (t + 1)).finished = true ∧
      (b.run p memsize st (t + 1)).console = (b.run p memsize st t).console ∧
      (b.run p memsize st (t + 1)).dump = (b.run p memsize st t).dump := by
  refine ⟨?_, ?_, ?_⟩
  · change ((b.run p memsize st t).finished || _ || _ || _ || _ || _) = true
    simp only [Bool.or_assoc, Bool.or_eq_true] at hf ⊢
    tauto
  · change (if _ then _ else _ ++ (Bench.stores _ _).console ++ (Bench.calls _ _ _).console) = _
    rw [List.append_assoc, hc, List.append_nil, ite_self]
  · change (if _ then _ else _ ++ (Bench.stores _ _).dump ++ (Bench.calls _ _ _).dump) = _
    rw [List.append_assoc, hd, List.append_nil, ite_self]

theorem written_after {t u : ℕ} (h : t ≤ u) (ht : (b.run p memsize st t).finished = true) :
    (b.run p memsize st u).finished = true ∧
      (b.run p memsize st u).console = (b.run p memsize st t).console ∧
      (b.run p memsize st u).dump = (b.run p memsize st t).dump := by
  induction u, h using Nat.le_induction with
  | base => exact ⟨ht, rfl, rfl⟩
  | succ u _ ih =>
    obtain ⟨hf, hc, hd⟩ := ih
    refine ⟨?_, ?_, ?_⟩
    · change ((b.run p memsize st u).finished || _ || _ || _ || _ || _) = true
      rw [hf]
      rfl
    · rw [← hc]
      exact if_pos hf
    · rw [← hd]
      exact if_pos hf

end Bench

/-- The testbench's answer to the store of a slot. -/
def Slot.stores (memsize : ℕ) (ram : ℕ → Word) (x : Slot) : Reply :=
  if x.memwr then storeReply memsize ram x.memaddr x.wdata else Reply.none

/-- The testbench's answer to the ECALL of a slot. -/
def Slot.calls (memsize : ℕ) (ram : ℕ → Word) (regs : BitVec 5 → Word) (x : Slot) : Reply :=
  if x.systemcall && x.envKind == 0#2 then callReply memsize ram regs else Reply.none

namespace State

variable {p : Param} {i : ℕ → Input} {m : Word} {k : ℕ}

theorem systemcall_of_not_trap {x : Slot} (hf : x.flush = false) (ht : x.trap = false) :
    x.systemcall = false := by
  rw [Slot.trap_eq hf] at ht
  simp only [Bool.or_eq_false_iff] at ht
  exact ht.1.2

/-- Until the first instruction, stage 2 is stalled or idle, and fetch is on its first words. -/
theorem run_idle (h : ReadyFrom k i) {t : ℕ} (ht : t < startup k) :
    ((run p i m t).stallR = true ∨
      (slotAt p i m t).trap = false ∧ (slotAt p i m t).systemcall = false) ∧
      (run p i m t).fetchPc.toNat ≤ 4 := by
  unfold startup at ht
  rcases (by omega : t ≤ k ∨ t = k + 1 ∨ t = k + 2) with htk | rfl | rfl
  · rw [run_reset h htk]
    exact ⟨Or.inl rfl, Nat.zero_le _⟩
  · obtain ⟨hr, -, -, -⟩ :=
      idle_slot (i (k + 1)) { reset p m with stallR := false } rfl rfl rfl rfl rfl
    simp only [Slot.redirects, Bool.or_eq_false_iff] at hr
    rw [slotAt, run_released h]
    exact ⟨Or.inr ⟨hr.2, systemcall_of_not_trap rfl hr.2⟩, Nat.zero_le _⟩
  · have hb := run_filling (p := p) (m := m) h
    rw [slotAt]
    have hf : (run p i m (k + 2)).exFlush = false := by
      simp [exFlush, hb.wbBranch, hb.wbBranchNxt]
    obtain ⟨hr, -, -, -⟩ := idle_slot (i (k + 2)) (run p i m (k + 2))
      (by rw [hb.ex, idle_nop]) hf hb.exMem2reg (by rw [hb.fetchPc]; rfl) (by rw [hb.csr]; rfl)
    simp only [Slot.redirects, Bool.or_eq_false_iff] at hr
    refine ⟨Or.inr ⟨hr.2, systemcall_of_not_trap hf hr.2⟩, ?_⟩
    rw [hb.fetchPc]
    decide

/-- The cycles from one instruction to the next, together, are all of them. -/
theorem exCycle_cover {t : ℕ} (ht : startup k ≤ t) :
    ∃ n, exCycle p i m k n ≤ t ∧ t < exCycle p i m k (n + 1) := by
  by_contra hc
  simp only [not_exists, not_and, not_lt] at hc
  have hle : ∀ n, exCycle p i m k n ≤ t := by
    intro n
    induction n with
    | zero => exact ht
    | succ n ih => exact hc n ih
  have := hle (t + 1)
  have := (exCycle_strictMono (p := p) (i := i) (m := m) (k := k)).le_apply (x := t + 1)
  omega

/-- Fetch runs at most two words ahead of the instructions. -/
theorem run_fetchPc_lt (h : ReadyFrom k i) {n t limit : ℕ} (hlim : limit ≤ 2 ^ 32)
    (ht : t < exCycle p i m k n)
    (hpc : ∀ j ≤ n, (run p i m (exCycle p i m k j)).exPc.toNat + 8 < limit) :
    (run p i m t).fetchPc.toNat < limit := by
  have hadd : ∀ (a b : Word), a.toNat + b.toNat < limit → (a + b).toNat < limit := by
    intro a b hab
    rw [BitVec.toNat_add, Nat.mod_eq_of_lt (by omega)]
    exact hab
  by_cases hts : t < startup k
  · have := (run_idle (p := p) (m := m) h hts).2
    have := hpc 0 (Nat.zero_le _)
    omega
  obtain ⟨j, hle, hlt⟩ := exCycle_cover (p := p) (i := i) (m := m) (not_lt.mp hts)
  have hjn : j < n := by
    by_contra hc
    have := (exCycle_strictMono (p := p) (i := i) (m := m) (k := k)).monotone (not_lt.mp hc)
    omega
  obtain ⟨hsj, hfj⟩ := exCycle_spec (p := p) (m := m) h j
  have hnext := hpc (j + 1) hjn
  have hcur := hpc j hjn.le
  rw [exCycle] at hlt hnext
  generalize exCycle p i m k j = c at *
  have hstep : ∀ v, startup k ≤ v → (run p i m (v + 1)).fetchPc = (slotAt p i m v).fetchNext := by
    intro v hv
    rw [run, step_ready (h.ready (by unfold startup at hv; omega)) (run_flowing h hv).stallR]
    rfl
  have hfetch : (run p i m c).fetchPc = (run p i m c).exPc + 8#32 :=
    ((run_flowing h hsj).loaded hfj (i c)).fetchPc
  have hbt := (run_between (p := p) (m := m) h hsj hfj).1
  rw [run_next_pc (p := p) (m := m) h hsj hfj] at hnext
  rw [nextCycle] at hlt hbt
  cases hrd : (slotAt p i m c).redirects with
  | false =>
    rw [hrd, if_neg (by simp)] at hlt
    obtain rfl : t = c := by omega
    rw [hfetch]
    exact hadd _ 8#32 hcur
  | true =>
    rw [hrd, if_pos rfl] at hlt hbt hnext
    rcases (by omega : t = c ∨ t = c + 1 ∨ t = c + 2) with rfl | rfl | rfl
    · rw [hfetch]
      exact hadd _ 8#32 hcur
    · rw [hstep c hsj]
      omega
    · have hfl : (slotAt p i m (c + 1)).flush = true := hbt (c + 1) (by omega) (by omega)
      have hn : (slotAt p i m (c + 1)).fetchNext = (run p i m (c + 1)).fetchPc + 4#32 :=
        if_pos hfl
      rw [hstep (c + 1) (by omega), hn, hstep c hsj]
      refine hadd _ 4#32 ?_
      change _ + 4 < limit
      omega

end State

namespace Bench

variable {p : Param} {memsize : ℕ} {b : Bench} {st : ℕ → Bool} {m : Word} {k : ℕ}

theorem readyFrom (hs : ∀ t, st t = decide (t < k)) :
    ReadyFrom k (b.inputs p memsize st) :=
  Soc.readyFrom hs

section

variable (hb : b.soc.top.core = .reset p m)
include hb

theorem core_run (t : ℕ) : (b.run p memsize st t).soc.top.core =
    State.run p (b.inputs p memsize st) m t := by
  rw [soc_run, Soc.core_run hb]
  rfl

theorem slot_run (t : ℕ) : (b.run p memsize st t).soc.top.core.slot
      ((b.run p memsize st t).input (st t)) =
    State.slotAt p (b.inputs p memsize st) m t := by
  rw [input_run, core_run hb]
  rfl

variable (memsize) (hs : ∀ t, st t = decide (t < k))
include hs

/-- Nothing is asked of the testbench before the first instruction has left stage 2. -/
theorem quiet_startup {t : ℕ} (ht : t ≤ startup k) :
    (b.run p memsize st t).stores memsize = Reply.none ∧
      (b.wbSystem = false → (b.run p memsize st t).wbSystem = false) := by
  refine ⟨?_, fun h0 => ?_⟩
  · have hw := Soc.write_startup memsize (b.host p memsize st) hb hs ht
    rw [← soc_run] at hw
    rw [stores, hw]
    rfl
  · induction t with
    | zero => exact h0
    | succ t ih =>
      have hr : ReadyFrom k (b.inputs p memsize st) := readyFrom hs
      have hidle := (State.run_idle (p := p) (m := m) hr (t := t) ht).1
      change (if (!(b.run p memsize st t).soc.top.core.exStall _) = true then
        ((b.run p memsize st t).soc.top.core.slot _).systemcall else _) = false
      rw [slot_run hb, ih (by omega)]
      rcases hidle with hst | ⟨-, hsys⟩
      · rw [if_neg]
        rw [core_run hb, State.exStall, hst]
        simp
      · rw [hsys, ite_self]

theorem written_startup (h0 : b.wbSystem = false) {t : ℕ} (ht : t ≤ startup k + 1) :
    (b.run p memsize st t).console = b.console ∧ (b.run p memsize st t).dump = b.dump := by
  induction t with
  | zero => exact ⟨rfl, rfl⟩
  | succ t ih =>
    obtain ⟨hc, hd⟩ := ih (by omega)
    obtain ⟨hr, hw⟩ := quiet_startup memsize hb hs (t := t) (by omega)
    have hq : (b.run p memsize st t).calls memsize (st t) = Reply.none := by
      rw [calls, hw h0]
      rfl
    refine ⟨?_, ?_⟩
    · change (if _ then _ else _ ++ (Bench.stores _ _).console ++ (Bench.calls _ _ _).console) = _
      rw [hr, hq, hc]
      simp [Reply.none]
    · change (if _ then _ else _ ++ (Bench.stores _ _).dump ++ (Bench.calls _ _ _).dump) = _
      rw [hr, hq, hd]
      simp [Reply.none]

/-- What the core has in write-back is the slot of the cycle before. -/
theorem asks_succ {t : ℕ} (ht : startup k ≤ t) :
    (b.run p memsize st (t + 1)).stores memsize =
        (State.slotAt p (b.inputs p memsize st) m t).stores memsize
          (b.run p memsize st (t + 1)).soc.dmem.ram ∧
      (b.run p memsize st (t + 1)).calls memsize (st (t + 1)) =
        (State.slotAt p (b.inputs p memsize st) m t).calls memsize
          (b.run p memsize st (t + 1)).soc.dmem.ram
          (b.run p memsize st (t + 1)).soc.top.core.regs := by
  have hr : ReadyFrom k (b.inputs p memsize st) := readyFrom hs
  have hf := State.run_flowing (p := p) (m := m) hr ht
  have hf' := State.run_flowing (p := p) (m := m) hr (t := t + 1) (by omega)
  have hrt := hr.ready (t := t) (by unfold startup at ht; omega)
  have hrt' := hr.ready (t := t + 1) (by unfold startup at ht; omega)
  constructor
  · have hw := State.run_wready (p := p) (m := m) hr ht
    rw [stores, core_run hb, Slot.stores, hw]
    cases hm : (State.slotAt p (b.inputs p memsize st) m t).memwr with
    | false => rfl
    | true =>
      have hp := State.run_wport (p := p) hr ht hm
      simp only [State.wport, Prod.mk.injEq] at hp
      rw [hp.1, hp.2.2]
  · have hgo : (b.run p memsize st t).soc.top.core.exStall
        ((b.run p memsize st t).input (st t)) = false := by
      rw [input_run, core_run hb]
      simp [State.exStall, State.ifStall, hf.stallR, hrt.imemValid, hrt.dmemRvalid]
    have hst : (b.run p memsize st (t + 1)).soc.top.core.wbStall
        ((b.run p memsize st (t + 1)).input (st (t + 1))) = false := by
      rw [input_run, core_run hb]
      simp [State.wbStall, hf'.stallR, hrt'.dmemWvalid, hrt'.dmemRresp]
    have hsys : (b.run p memsize st (t + 1)).wbSystem =
        (State.slotAt p (b.inputs p memsize st) m t).systemcall := by
      change (if (!(b.run p memsize st t).soc.top.core.exStall _) = true then
        ((b.run p memsize st t).soc.top.core.slot _).systemcall else _) = _
      rw [hgo, slot_run hb]
      rfl
    have hbr : (b.run p memsize st (t + 1)).wbBreak =
        (State.slotAt p (b.inputs p memsize st) m t).envKind := by
      change (if (!(b.run p memsize st t).soc.top.core.exStall _) = true then
        ((b.run p memsize st t).soc.top.core.slot _).envKind else _) = _
      rw [hgo, slot_run hb]
      rfl
    rw [calls, hst, hsys, hbr, Bool.not_false, Bool.and_true]
    rfl

theorem quiet_flushed {t : ℕ} (ht : startup k ≤ t)
    (hf : (State.run p (b.inputs p memsize st) m t).exFlush = true) :
    (b.run p memsize st (t + 1)).stores memsize = Reply.none ∧
      (b.run p memsize st (t + 1)).calls memsize (st (t + 1)) = Reply.none := by
  have hfl : (State.slotAt p (b.inputs p memsize st) m t).flush = true := hf
  have hsys : (State.slotAt p (b.inputs p memsize st) m t).systemcall = false := by
    simp [Slot.systemcall, hfl]
  obtain ⟨h1, h2⟩ := asks_succ memsize hb hs ht
  rw [h1, h2, Slot.stores, Slot.calls, Slot.memwr_flush hfl, hsys]
  exact ⟨rfl, rfl⟩

/-- What an instruction makes the testbench write is there at the next one. -/
theorem written_next {t : ℕ} (ht : startup k ≤ t)
    (hf : (State.run p (b.inputs p memsize st) m t).exFlush = false) :
    let u := State.nextCycle p (b.inputs p memsize st) m t
    let r := (b.run p memsize st (t + 1)).stores memsize
    let q := (b.run p memsize st (t + 1)).calls memsize (st (t + 1))
    (b.run p memsize st (u + 1)).result = r.result.getD (b.run p memsize st (t + 1)).result ∧
    ((b.run p memsize st (t + 1)).finished = false →
      (b.run p memsize st (u + 1)).console =
          (b.run p memsize st (t + 1)).console ++ r.console ++ q.console ∧
        (b.run p memsize st (u + 1)).dump =
          (b.run p memsize st (t + 1)).dump ++ r.dump ++ q.dump) := by
  have hr : ReadyFrom k (b.inputs p memsize st) := readyFrom hs
  have hbt := (State.run_between (p := p) (m := m) hr ht hf).1
  -- the flushed slots behind a redirect leave everything as it is
  have hquiet : ∀ v, startup k ≤ v →
      (State.run p (b.inputs p memsize st) m v).exFlush = true →
      (b.run p memsize st (v + 2)).result = (b.run p memsize st (v + 1)).result ∧
      (b.run p memsize st (v + 2)).console = (b.run p memsize st (v + 1)).console ∧
      (b.run p memsize st (v + 2)).dump = (b.run p memsize st (v + 1)).dump := by
    intro v hv hfl
    obtain ⟨h1, h2⟩ := quiet_flushed memsize hb hs hv hfl
    refine ⟨?_, ?_, ?_⟩
    · change (Bench.stores _ _).result.getD _ = _
      rw [h1]
      rfl
    · change (if _ then _ else _ ++ (Bench.stores _ _).console ++ (Bench.calls _ _ _).console) = _
      rw [h1, h2]
      simp [Reply.none]
    · change (if _ then _ else _ ++ (Bench.stores _ _).dump ++ (Bench.calls _ _ _).dump) = _
      rw [h1, h2]
      simp [Reply.none]
  intro u r q
  have hsame : (b.run p memsize st (u + 1)).result = (b.run p memsize st (t + 2)).result ∧
      (b.run p memsize st (u + 1)).console = (b.run p memsize st (t + 2)).console ∧
      (b.run p memsize st (u + 1)).dump = (b.run p memsize st (t + 2)).dump := by
    rw [State.nextCycle] at hbt
    cases hrd : (State.slotAt p (b.inputs p memsize st) m t).redirects with
    | false =>
      have hu : u = t + 1 := if_neg (by simpa using hrd)
      rw [hu]
      exact ⟨rfl, rfl, rfl⟩
    | true =>
      have hu : u = t + 3 := if_pos hrd
      rw [hrd, if_pos rfl] at hbt
      obtain ⟨h1, h2, h3⟩ := hquiet (t + 1) (by omega) (hbt _ (by omega) (by omega))
      obtain ⟨h4, h5, h6⟩ := hquiet (t + 2) (by omega) (hbt _ (by omega) (by omega))
      rw [hu]
      exact ⟨h4.trans h1, h5.trans h2, h6.trans h3⟩
  rw [hsame.1, hsame.2.1, hsame.2.2]
  refine ⟨rfl, fun hfin => ⟨?_, ?_⟩⟩
  · exact if_neg (by simp [hfin])
  · exact if_neg (by simp [hfin])

/-! The watchdog. -/

omit hs hb in
theorem count_step (t : ℕ) : (b.run p memsize st (t + 2)).count =
    if (b.run p memsize st t).soc.top.core.ifPc = (b.run p memsize st (t + 1)).soc.top.core.ifPc
    then (b.run p memsize st (t + 1)).count + 1#8 else 0#8 := rfl

/-- Fetch moves on, but in the cycle of a jump to the word that is fetched next. -/
theorem fetchPc_moves {t : ℕ} (ht : startup k ≤ t)
    (hrd : (State.slotAt p (b.inputs p memsize st) m t).redirects = false) :
    (b.run p memsize st (t + 3)).count = 0#8 := by
  have hr : ReadyFrom k (b.inputs p memsize st) := readyFrom hs
  have hif : ∀ v, startup k ≤ v → (State.run p (b.inputs p memsize st) m (v + 1)).ifPc =
      (State.run p (b.inputs p memsize st) m v).fetchPc := by
    intro v hv
    rw [State.run, State.step_ready (hr.ready (by unfold startup at hv; omega))
      (State.run_flowing hr hv).stallR]
  have hnext : (State.run p (b.inputs p memsize st) m (t + 1)).fetchPc =
      (State.slotAt p (b.inputs p memsize st) m t).fetchNext := by
    rw [State.run, State.step_ready (hr.ready (by unfold startup at ht; omega))
      (State.run_flowing hr ht).stallR]
    rfl
  have hmove : (State.slotAt p (b.inputs p memsize st) m t).fetchNext =
      (State.run p (b.inputs p memsize st) m t).fetchPc + 4#32 := by
    cases hf : (State.slotAt p (b.inputs p memsize st) m t).flush with
    | true => exact if_pos hf
    | false => exact Slot.fetchNext_of_not_redirects hf hrd
  rw [count_step, core_run hb, core_run hb, hif t ht, hif (t + 1) (by omega), hnext, hmove]
  refine if_neg fun h => ?_
  bv_omega

theorem count_alternates {t : ℕ} (ht : startup k ≤ t) :
    (b.run p memsize st (t + 3)).count = 0#8 ∨ (b.run p memsize st (t + 4)).count = 0#8 := by
  have hr : ReadyFrom k (b.inputs p memsize st) := readyFrom hs
  cases hrd : (State.slotAt p (b.inputs p memsize st) m t).redirects with
  | false => exact Or.inl (fetchPc_moves memsize hb hs ht hrd)
  | true =>
    have hf : (State.run p (b.inputs p memsize st) m t).exFlush = false := by
      by_contra hc
      have hfl : (State.slotAt p (b.inputs p memsize st) m t).flush = true :=
        eq_true_of_ne_false hc
      simp [Slot.redirects, hfl] at hrd
    have hbt := (State.run_between hr ht hf).1
    rw [State.nextCycle, if_pos hrd] at hbt
    have hfl : (State.slotAt p (b.inputs p memsize st) m (t + 1)).flush = true :=
      hbt (t + 1) (by omega) (by omega)
    refine Or.inr (fetchPc_moves memsize hb hs (t := t + 1) (by omega) ?_)
    simp [Slot.redirects, hfl]

theorem count_le (h0 : b.count = 0#8) (hk : k ≤ 90) (t : ℕ) :
    (b.run p memsize st t).count.toNat ≤ 100 := by
  have hgrow : ∀ u, (b.run p memsize st (u + 1)).count.toNat ≤
      (b.run p memsize st u).count.toNat + 1 := by
    intro u
    change BitVec.toNat (if _ then _ else _) ≤ _
    split
    · rw [BitVec.toNat_add]
      exact Nat.mod_le _ _
    · exact Nat.zero_le _
  have hstart : ∀ u, (b.run p memsize st u).count.toNat ≤ u := by
    intro u
    induction u with
    | zero =>
      change b.count.toNat ≤ 0
      rw [h0]
      rfl
    | succ u ih => exact (hgrow u).trans (by omega)
  by_cases ht : t ≤ startup k + 3
  · exact (hstart t).trans (by unfold startup at ht; omega)
  · obtain ⟨u, rfl⟩ : ∃ u, t = u + 4 := ⟨t - 4, by omega⟩
    rcases count_alternates memsize hb hs (t := u) (by omega) with h | h
    · have := hgrow (u + 3)
      rw [h] at this
      exact this.trans (by decide)
    · rw [h]
      decide

/-! The end of the simulation. -/

/-- The simulation goes on as long as no instruction asks for its end, none traps before `mtvec` is
set, and fetch stays inside the instruction memory. -/
theorem unfinished (h0 : b.finished = false) (hw : b.wbSystem = false) (hct : b.count = 0#8)
    (hk : k ≤ 90) (hsize : ramSize memsize ≤ 2 ^ 32) {n : ℕ}
    (hask : ∀ j < n,
      ((b.run p memsize st (State.exCycle p (b.inputs p memsize st) m k j + 1)).stores
        memsize).finish = false ∧
      ((b.run p memsize st (State.exCycle p (b.inputs p memsize st) m k j + 1)).calls memsize
        (st (State.exCycle p (b.inputs p memsize st) m k j + 1))).finish = false)
    (htrap : ∀ j < n, (State.slotAt p (b.inputs p memsize st) m
        (State.exCycle p (b.inputs p memsize st) m k j)).trap = true →
      (State.run p (b.inputs p memsize st) m
        (State.exCycle p (b.inputs p memsize st) m k j)).csr.mtvec.extractLsb' 2 30 ≠ 0#30)
    (hpc : ∀ j ≤ n, (State.run p (b.inputs p memsize st) m
      (State.exCycle p (b.inputs p memsize st) m k j)).exPc.toNat + 8 < ramSize memsize) {t : ℕ}
    (ht : t ≤ State.exCycle p (b.inputs p memsize st) m k n) :
    (b.run p memsize st t).finished = false := by
  have hr : ReadyFrom k (b.inputs p memsize st) := readyFrom hs
  -- an unflushed cycle before that of instruction `n` is the cycle of an earlier one
  have hearlier : ∀ v, startup k ≤ v → v < State.exCycle p (b.inputs p memsize st) m k n →
      (State.run p (b.inputs p memsize st) m v).exFlush = false →
      ∃ j < n, v = State.exCycle p (b.inputs p memsize st) m k j := by
    intro v hv hvn hf
    obtain ⟨j, rfl⟩ := (State.exFlush_iff hr hv).mp hf
    exact ⟨j, (State.exCycle_strictMono).lt_iff_lt.mp hvn, rfl⟩
  induction t with
  | zero => exact h0
  | succ t ih =>
    have hstores : ((b.run p memsize st t).stores memsize).finish = false ∧
        ((b.run p memsize st t).calls memsize (st t)).finish = false := by
      rcases Nat.lt_or_ge (startup k) t with hlt | hle
      · obtain ⟨v, rfl⟩ : ∃ v, t = v + 1 := ⟨t - 1, by omega⟩
        cases hf : (State.run p (b.inputs p memsize st) m v).exFlush with
        | true =>
          obtain ⟨h1, h2⟩ := quiet_flushed memsize hb hs (by omega) hf
          rw [h1, h2]
          exact ⟨rfl, rfl⟩
        | false =>
          obtain ⟨j, hj, rfl⟩ := hearlier v (by omega) (by omega) hf
          exact hask j hj
      · obtain ⟨h1, h2⟩ := quiet_startup memsize hb hs hle
        rw [h1, calls, h2 hw]
        exact ⟨rfl, rfl⟩
    have hrange : (b.run p memsize st t).imemRange memsize (st t) = false := by
      have hlt := State.run_fetchPc_lt hr hsize (t := t) (by omega) hpc
      have hle := Nat.le_pow_clog (b := 2) (by omega) (ramSize memsize)
      rw [imemRange, core_run hb, State.imemAddr, decide_eq_false (by omega), Bool.and_false]
    have huntrapped : (b.run p memsize st t).untrapped (st t) = false := by
      rw [untrapped, slot_run hb, core_run hb]
      rcases Nat.lt_or_ge t (startup k) with hlt | hle
      · rcases (State.run_idle (p := p) (m := m) hr hlt).1 with hst | ⟨htr, -⟩
        · simp [State.exStall, hst]
        · simp [htr]
      · cases hf : (State.run p (b.inputs p memsize st) m t).exFlush with
        | true =>
          have hfl : (State.slotAt p (b.inputs p memsize st) m t).flush = true := hf
          simp [Slot.trap_flush hfl]
        | false =>
          obtain ⟨j, hj, rfl⟩ := hearlier t hle (by omega) hf
          have := htrap j hj
          cases htr : (State.slotAt p (b.inputs p memsize st) m
              (State.exCycle p (b.inputs p memsize st) m k j)).trap with
          | false => simp
          | true => simp [this htr]
    have hcount := count_le memsize hb hs hct hk t
    change ((b.run p memsize st t).finished || (Bench.stores _ _).finish ||
      (Bench.calls _ _ _).finish || Bench.imemRange _ _ _ || Bench.untrapped _ _ ||
      decide (100 < (b.run p memsize st t).count.toNat)) = false
    rw [ih (by omega), hstores.1, hstores.2, hrange, huntrapped, decide_eq_false (by omega)]
    rfl

end

end Bench

end Srv32.Rtl

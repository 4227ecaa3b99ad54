import Srv32.Rtl.Retire

/-! The `stall` input: two runs between the same memories, one of them stalled at any time. The
stalled run drops the word in F/D, and its `ex_mem2reg` and `wb_memwr` move on; where that does
not matter, it does the same things later. -/

namespace Srv32.Rtl

/-- A data-memory write, a register write, or an instruction executed. -/
inductive Event where
  | store (addr : Word) (strb : BitVec 4) (data : Word)
  | write (r : BitVec 5) (v : Word)
  | exec (pc insn : Word)
  deriving DecidableEq, Repr

namespace Board

variable (b : Board)

def storeEvents : List Event :=
  if b.core.dmemWready then [.store b.core.wbWaddr b.core.wbWstrb b.core.wbWdata] else []

def writeEvents (pins : Pins) : List Event :=
  if b.core.regWrite (b.input pins) = true ∧ b.core.wbDstSel ≠ 0#5 then
    [.write b.core.wbDstSel (b.core.wbValue (b.input pins))]
  else []

def execEvents (pins : Pins) : List Event :=
  if !b.core.exStall (b.input pins) && !b.core.exFlush then [.exec b.core.exPc b.core.exInsn]
  else []

def events (pins : Pins) : List Event :=
  b.storeEvents ++ b.writeEvents pins ++ b.execEvents pins

def trace (p : Param) (memsize : ℕ) (pins : ℕ → Pins) : ℕ → List Event
  | 0 => []
  | n + 1 => trace p memsize pins n ++ (b.run p memsize pins n).events (pins n)

end Board

structure Pins.Quiet (pins : Pins) : Prop where
  timerIrq : pins.timerIrq = false
  swIrq : pins.swIrq = false
  interrupt : pins.interrupt = false

theorem Pins.Quiet.eq {q r : Pins} (hq : q.Quiet) (hr : r.Quiet) (hs : q.stall = r.stall) :
    q = r := by
  obtain ⟨a, b, c, d⟩ := q
  obtain ⟨a', b', c', d'⟩ := r
  have h1 : b = b' := hq.timerIrq.trans hr.timerIrq.symm
  have h2 : c = c' := hq.swIrq.trans hr.swIrq.symm
  have h3 : d = d' := hq.interrupt.trans hr.interrupt.symm
  have h4 : a = a' := hs
  rw [h1, h2, h3, h4]

theorem Calm.quiet {k : ℕ} {pins : ℕ → Pins} (h : Calm k pins) (t : ℕ) : (pins t).Quiet :=
  ⟨h.timerIrq t, h.swIrq t, h.interrupt t⟩

/-- The registers a stalled run shares with the other one at every time. -/
structure Frame where
  pipefill : BitVec 2
  fetchPc : Word
  ifPc : Word
  exPc : Word
  wbBranch : Bool
  wbBranchNxt : Bool
  wbNop : Bool
  wbNopMore : Bool
  wbTrapNop : Bool
  csr : Csr
  cycle : BitVec 64
  instret : BitVec 64
  regs : BitVec 5 → Word

def State.frame (s : State) : Frame where
  pipefill := s.pipefill
  fetchPc := s.fetchPc
  ifPc := s.ifPc
  exPc := s.exPc
  wbBranch := s.wbBranch
  wbBranchNxt := s.wbBranchNxt
  wbNop := s.wbNop
  wbNopMore := s.wbNopMore
  wbTrapNop := s.wbTrapNop
  csr := s.csr
  cycle := s.cycle
  instret := s.instret
  regs := s.regs

namespace State

variable {p : Param} {i : Input} {s : State}

/-- One edge under `stall_r`: everything holds but the four registers that `stall_r` does not
gate. -/
theorem step_held (hw : i.dmemWvalid = true) (hr : i.dmemRvalid = true) (hs : s.stallR = true) :
    s.step p i =
      { s with
        stallR := i.stall
        flush := true
        exMem2reg := opcode (s.inst i) == opLoad
        wbMemwr := (s.slot i).memwr
        exception := s.exception || (s.slot i).excp } := by
  have hif : s.ifStall i = true := by simp [ifStall, hs]
  have hex : s.exStall i = true := by simp [exStall, hs]
  have hwb : s.wbStall i = true := by simp [wbStall, hs]
  have hreg : s.regsNext i = s.regs := by simp [regsNext, regWrite, hs]
  simp only [step, hif, hex, hwb, mem2regNext_of_valid hr, memwrNext_of_valid hw, hreg, hs,
    counting]
  simp

end State

namespace Board

variable {p : Param} {memsize : ℕ} {a b : Board} {q r : Pins}

/-- The value stage 3 writes back, which depends on no pin. -/
def value (b : Board) : Word :=
  if b.core.wbMem2reg then loadData b.core.wbAluOp b.core.wbRaddr b.dmem.rdata
  else b.core.wbResult

/-- `a` stands where `b` does: the stages agree where they are not flushed. -/
structure Alike (p : Param) (a b : Board) : Prop where
  frame : a.core.frame = b.core.frame
  exec : b.core.exFlush = false → a.core.ex = b.core.ex ∧ a.core.exInsn = b.core.exInsn ∧
    a.core.exMem2reg = b.core.exMem2reg
  back : b.core.wbFlush = false → b.core.wbTrapNop = false →
    a.core.wbAlu2reg = b.core.wbAlu2reg ∧
    (b.core.wbAlu2reg = true → a.core.wbDstSel = b.core.wbDstSel ∧
      a.core.wbMem2reg = b.core.wbMem2reg ∧ a.value = b.value)
  imem : a.imem = b.imem
  stallR : b.core.stallR = false
  flush : b.core.flush = false
  nop : b.core.wbNop = b.core.wbBranchNxt
  trapNop : b.core.wbTrapNop = true → b.core.wbBranch = true
  decoded : b.core.ex = decode p b.core.exInsn
  mem2reg : b.core.exMem2reg = (opcode b.core.exInsn == opLoad)
  jump : b.core.wbBranch = true → b.core.wbTrapNop = false → b.core.wbMem2reg = false

namespace Alike

theorem exFlush (h : Alike p a b) : a.core.exFlush = b.core.exFlush := by
  have h1 := congrArg Frame.wbBranch h.frame
  have h2 := congrArg Frame.wbBranchNxt h.frame
  simp only [State.frame] at h1 h2
  rw [State.exFlush, State.exFlush, h1, h2]

theorem wbFlush (h : Alike p a b) : a.core.wbFlush = b.core.wbFlush := by
  have h1 := congrArg Frame.wbNop h.frame
  have h2 := congrArg Frame.wbNopMore h.frame
  simp only [State.frame] at h1 h2
  rw [State.wbFlush, State.wbFlush, h1, h2]

theorem regRdata (h : Alike p a b) (hf : b.core.exFlush = false) (n : BitVec 5) :
    a.core.regRdata (a.input q) n = b.core.regRdata (b.input r) n := by
  have hregs : a.core.regs = b.core.regs := congrArg Frame.regs h.frame
  have htrap : b.core.wbTrapNop = false := by
    cases hn : b.core.wbTrapNop with
    | false => rfl
    | true =>
      rw [State.exFlush, h.trapNop hn] at hf
      cases hf
  rw [State.regRdata, State.regRdata, h.wbFlush, hregs]
  cases hw : b.core.wbFlush with
  | true => simp
  | false =>
    obtain ⟨halu, hval⟩ := h.back hw htrap
    rw [halu]
    cases hal : b.core.wbAlu2reg with
    | false => simp
    | true =>
      obtain ⟨hd, -, hv⟩ := hval hal
      have hv' : a.core.wbValue (a.input q) = b.core.wbValue (b.input r) := hv
      rw [hd, hv']

/-- An instruction that is not flushed executes in the same slot. -/
theorem slot (h : Alike p a b) (hf : b.core.exFlush = false) (hq : q.Quiet) (hr : r.Quiet) :
    a.core.slot (a.input q) = b.core.slot (b.input r) := by
  obtain ⟨hex, hin, hm⟩ := h.exec hf
  have hpc : a.core.exPc = b.core.exPc := congrArg Frame.exPc h.frame
  have hfetch : a.core.fetchPc = b.core.fetchPc := congrArg Frame.fetchPc h.frame
  have hcsr : a.core.csr = b.core.csr := congrArg Frame.csr h.frame
  have hcy : a.core.cycle = b.core.cycle := congrArg Frame.cycle h.frame
  have hret : a.core.instret = b.core.instret := congrArg Frame.instret h.frame
  have ht : (a.input q).timerIrq = (b.input r).timerIrq := hq.timerIrq.trans hr.timerIrq.symm
  have hs : (a.input q).swIrq = (b.input r).swIrq := hq.swIrq.trans hr.swIrq.symm
  have hi : (a.input q).interrupt = (b.input r).interrupt := hq.interrupt.trans hr.interrupt.symm
  simp only [State.slot, hex, hin, hm, hpc, hfetch, hcsr, hcy, hret, ht, hs, hi, h.exFlush,
    h.regRdata (q := q) (r := r) hf]

/-- What a slot decides is the same, flushed or not. -/
theorem decides (h : Alike p a b) (hq : q.Quiet) (hr : r.Quiet) :
    (a.core.slot (a.input q)).fetchNext = (b.core.slot (b.input r)).fetchNext ∧
    (a.core.slot (a.input q)).redirects = (b.core.slot (b.input r)).redirects ∧
    (a.core.slot (a.input q)).trapNop = (b.core.slot (b.input r)).trapNop ∧
    (a.core.slot (a.input q)).csrNext = (b.core.slot (b.input r)).csrNext ∧
    (a.core.slot (a.input q)).memwr = (b.core.slot (b.input r)).memwr := by
  cases hf : b.core.exFlush with
  | false =>
    rw [h.slot hf hq hr]
    exact ⟨rfl, rfl, rfl, rfl, rfl⟩
  | true =>
    have hfa : a.core.exFlush = true := h.exFlush.trans hf
    have hfetch : a.core.fetchPc = b.core.fetchPc := congrArg Frame.fetchPc h.frame
    have hcsr : a.core.csr = b.core.csr := congrArg Frame.csr h.frame
    simp [Slot.fetchNext, Slot.redirects, Slot.csrNext, hf, hfa, hfetch, hcsr]

theorem regWrite (h : Alike p a b) (hs : a.core.stallR = false) :
    a.core.regWrite (a.input q) = b.core.regWrite (b.input r) ∧
      (b.core.regWrite (b.input r) = true →
        a.core.wbDstSel = b.core.wbDstSel ∧ a.value = b.value) := by
  have htrap : a.core.wbTrapNop = b.core.wbTrapNop := congrArg Frame.wbTrapNop h.frame
  have hwa : a.core.wbStall (a.input q) = false := by simp [State.wbStall, input, hs]
  have hwb : b.core.wbStall (b.input r) = false := by simp [State.wbStall, input, h.stallR]
  simp only [State.regWrite, hs, h.stallR, hwa, hwb, h.wbFlush, htrap]
  cases hf : b.core.wbFlush with
  | true => simp
  | false =>
    cases ht : b.core.wbTrapNop with
    | true => simp
    | false =>
      obtain ⟨halu, hval⟩ := h.back hf ht
      rw [halu]
      cases hal : b.core.wbAlu2reg with
      | false => simp
      | true =>
        obtain ⟨hd, -, hv⟩ := hval hal
        exact ⟨rfl, fun _ => ⟨hd, hv⟩⟩

theorem regsNext (h : Alike p a b) (hs : a.core.stallR = false) :
    a.core.regsNext (a.input q) = b.core.regsNext (b.input r) := by
  have hregs : a.core.regs = b.core.regs := congrArg Frame.regs h.frame
  obtain ⟨hw, hv⟩ := h.regWrite (q := q) (r := r) hs
  rw [State.regsNext, State.regsNext, hw, hregs]
  cases hb : b.core.regWrite (b.input r) with
  | false => simp
  | true =>
    obtain ⟨hd, hval⟩ := hv hb
    have hval' : a.core.wbValue (a.input q) = b.core.wbValue (b.input r) := hval
    rw [hd, hval']

end Alike

/-- One edge when nothing holds the pipeline, whatever `stall` is. -/
theorem core_step (p : Param) (memsize : ℕ) (r : Pins) (hs : b.core.stallR = false) :
    (b.step p memsize r).core =
    { stallR := r.stall
      flush := false
      pipefill := if b.core.pipefill = 2#2 then b.core.pipefill else b.core.pipefill + 1#2
      fetchPc := (b.core.slot (b.input r)).fetchNext
      ifPc := b.core.fetchPc
      ex := decode p (b.core.inst (b.input r))
      exPc := b.core.ifPc
      exInsn := b.core.inst (b.input r)
      exMem2reg := opcode (b.core.inst (b.input r)) == opLoad
      wbResult := (b.core.slot (b.input r)).result p
      wbAlu2reg := (b.core.slot (b.input r)).alu2reg
      wbDstSel := b.core.ex.dstSel
      wbBranch := (b.core.slot (b.input r)).redirects
      wbBranchNxt := b.core.wbBranch
      wbMem2reg := b.core.exMem2reg
      wbRaddr := (b.core.slot (b.input r)).memaddr.extractLsb' 0 2
      wbAluOp := b.core.ex.aluOp
      wbMemwr := (b.core.slot (b.input r)).memwr
      wbWaddr := if b.core.ex.memwr then (b.core.slot (b.input r)).memaddr else b.core.wbWaddr
      wbWstrb := if b.core.ex.memwr then (b.core.slot (b.input r)).wstrb else b.core.wbWstrb
      wbWdata := if b.core.ex.memwr then (b.core.slot (b.input r)).wdata else b.core.wbWdata
      wbNop := b.core.wbBranch
      wbNopMore := b.core.wbNop
      wbTrapNop := (b.core.slot (b.input r)).trapNop
      wbPc := b.core.exPc
      wbInsn := b.core.exInsn
      csr := (b.core.slot (b.input r)).csrNext
      cycle := if b.core.pipefill = 2#2 then b.core.cycle + 1#64 else b.core.cycle
      instret := if b.core.pipefill = 2#2 ∧ b.core.exFlush = false then b.core.instret + 1#64
        else b.core.instret
      regs := b.core.regsNext (b.input r)
      exception := b.core.exception || (b.core.slot (b.input r)).excp } := by
  have hi : Ready { b.input r with stall := false } := ⟨rfl, rfl, rfl, rfl, rfl⟩
  change { b.core.step p { b.input r with stall := false } with stallR := r.stall } = _
  rw [State.step_ready hi hs]
  rfl

theorem not_load_of_redirects {x : Slot} (hd : x.ex = decode p x.insn)
    (hm : x.mem2reg = (opcode x.insn == opLoad))
    (hi : x.timerIrq = false ∧ x.swIrq = false ∧ x.irq = false) (hr : x.redirects = true)
    (ht : x.trapNop = false) : x.mem2reg = false := by
  obtain ⟨h0, h1, h2⟩ := hi
  by_contra hl
  rw [Bool.not_eq_false] at hl
  have ho : opcode x.insn = opLoad := beq_iff_eq.mp (hm.symm.trans hl)
  have hjal : x.ex.jal = false := by rw [hd]; simp [decode, ho]
  have hjalr : x.ex.jalr = false := by rw [hd]; simp [decode, ho]
  have hbranch : x.ex.branch = false := by rw [hd]; simp [decode, ho]
  have hsys : x.ex.system = false := by rw [hd]; simp [decode, ho]
  cases hf : x.flush with
  | true => simp [Slot.redirects, hf] at hr
  | false =>
    simp [Slot.redirects, Slot.branchTaken, Slot.trap, Slot.timerInt, Slot.swInt, Slot.extInt,
      Slot.irqGate, Slot.systemcall, hjal, hjalr, hbranch, hsys, h0, h1, h2, hf] at hr
    simp [Slot.trapNop, hr, hf] at ht

/-- A cycle that is not stalled in either run keeps them alike, if the words in F/D are the same
or will be flushed, and a load in EX reads the same. -/
theorem Alike.next (h : Alike p a b) (hq : q.Quiet) (hr : r.Quiet) (hrs : r.stall = false)
    (hs : a.core.stallR = false)
    (hfd : a.core.inst (a.input q) = b.core.inst (b.input r) ∨
      (b.core.slot (b.input r)).redirects = true ∨ b.core.wbBranch = true)
    (himem : (a.step p memsize q).imem = (b.step p memsize r).imem)
    (hdata : b.core.exFlush = false → b.core.exMem2reg = true →
      (a.step p memsize q).dmem.rdata = (b.step p memsize r).dmem.rdata) :
    Alike p (a.step p memsize q) (b.step p memsize r) := by
  have hca := core_step p memsize q hs
  have hcb := core_step p memsize r h.stallR
  obtain ⟨hfetch, hred, htn, hcsr, -⟩ := h.decides hq hr
  have hregs := h.regsNext (q := q) (r := r) hs
  have hframe : ∀ {α : Type} (f : Frame → α), f a.core.frame = f b.core.frame := fun f => by
    rw [h.frame]
  have hpf : a.core.pipefill = b.core.pipefill := hframe Frame.pipefill
  have hfp : a.core.fetchPc = b.core.fetchPc := hframe Frame.fetchPc
  have hip : a.core.ifPc = b.core.ifPc := hframe Frame.ifPc
  have hbr : a.core.wbBranch = b.core.wbBranch := hframe Frame.wbBranch
  have hno : a.core.wbNop = b.core.wbNop := hframe Frame.wbNop
  have hcy : a.core.cycle = b.core.cycle := hframe Frame.cycle
  have hir : a.core.instret = b.core.instret := hframe Frame.instret
  refine ⟨?_, ?_, ?_, himem, ?_, ?_, ?_, ?_, ?_, ?_, ?_⟩
  · rw [hca, hcb]
    simp only [State.frame, hfetch, hred, htn, hcsr, hregs, hpf, hfp, hip, hbr, hno, hcy, hir,
      h.exFlush]
  · intro hf
    -- the word in F/D is in EX now, and not flushed
    have hsame : a.core.inst (a.input q) = b.core.inst (b.input r) := by
      rcases hfd with he | hrd | hb
      · exact he
      · rw [hcb, State.exFlush, hrd] at hf
        cases hf
      · rw [hcb, State.exFlush, hb, Bool.or_true] at hf
        cases hf
    rw [hca, hcb, hsame]
    exact ⟨rfl, rfl, rfl⟩
  · intro hwf htrap
    have hef : b.core.exFlush = false := by
      rw [hcb, State.wbFlush, h.nop] at hwf
      exact hwf
    have hslot := h.slot hef hq hr
    obtain ⟨hex, -, hm⟩ := h.exec hef
    have hval : (a.step p memsize q).value = (b.step p memsize r).value := by
      rw [value, value, hca, hcb]
      simp only [hslot, hex, hm]
      cases hl : b.core.exMem2reg with
      | false => simp
      | true => rw [hdata hef hl]
    rw [hca, hcb, hslot, hex]
    exact ⟨rfl, fun _ => ⟨rfl, hm, hval⟩⟩
  · rw [hcb]
    exact hrs
  · rw [hcb]
  · rw [hcb]
  · intro ht
    rw [hcb] at ht ⊢
    simp [Slot.redirects, Slot.trap_of_trapNop ht]
  · rw [hcb]
  · rw [hcb]
  · intro hrd htn
    rw [hcb] at hrd htn ⊢
    exact not_load_of_redirects (x := b.core.slot (b.input r)) h.decoded h.mem2reg
      ⟨hr.timerIrq, hr.swIrq, hr.interrupt⟩ hrd htn

/-- Both runs are at the start of the same cycle. -/
structure Twin (p : Param) (a b : Board) : Prop extends Alike p a b where
  fresh : a.core.flush = false
  memwr : a.core.wbMemwr = b.core.wbMemwr
  port : b.core.wbMemwr = true → a.core.wport = b.core.wport
  ram : a.dmem.ram = b.dmem.ram

/-- `stall` may come up in this cycle: the word in F/D, which gets lost, is a NOP or will be
flushed, and EX holds neither a load nor a store, nor F/D a load, that is executed. -/
def StallSafe (b : Board) (r : Pins) : Prop :=
  let x := b.core.slot (b.input r)
  let word := b.core.inst (b.input r)
  (word = Rtl.nop ∨ x.redirects = true ∨ b.core.wbBranch = true) ∧
    (x.flush = true ∨ (x.mem2reg = false ∧ opcode word ≠ opLoad)) ∧ x.memwr = false

instance (b : Board) (r : Pins) : Decidable (b.StallSafe r) :=
  inferInstanceAs (Decidable (_ ∧ _ ∧ _))

/-- The stalled run is held in a cycle the other one has still to do. -/
structure Paused (p : Param) (memsize : ℕ) (r : Pins) (a b : Board) : Prop
    extends Alike p a b where
  flushed : a.core.flush = true
  memwr : a.core.wbMemwr = false
  ram : a.dmem.ram = (b.step p memsize r).dmem.ram
  safe : b.StallSafe r

theorem inst_of_flush (h : b.core.flush = true) : b.core.inst (b.input r) = Rtl.nop := by
  simp [State.inst, h]

theorem inst_of_not_flush (h : b.core.flush = false) :
    b.core.inst (b.input r) = b.imem.rdata := by
  simp [State.inst, h, input]

/-- A held cycle keeps the boards alike, if it reads no data for an instruction that is not
flushed. -/
theorem Alike.held (h : Alike p a b) (hs : a.core.stallR = true) (hsafe : b.StallSafe r)
    (hl : b.core.exFlush = false → opcode (a.core.inst (a.input q)) ≠ opLoad) :
    Alike p (a.step p memsize q) b := by
  have hca : (a.step p memsize q).core = _ :=
    State.step_held (p := p) (s := a.core) (i := a.input q) rfl rfl hs
  have himem : (a.step p memsize q).imem = a.imem := by
    have hrr : (a.imemPort q).rready = false := by
      change (!a.core.stallR && _) = false
      rw [hs]
      rfl
    change a.imem.step _ _ = _
    rw [Mem2ports.step, hrr]
    rfl
  -- `ex_mem2reg` takes the word in F/D although EX is held; no load is there to lose it
  have hidle : b.core.exFlush = false → b.core.exMem2reg = false := by
    intro hf
    rcases hsafe.2.1 with hx | hx
    · exact absurd (hf.symm.trans hx) (by simp)
    · exact hx.1
  refine ⟨?_, ?_, ?_, himem.trans h.imem, h.stallR, h.flush, h.nop, h.trapNop, h.decoded,
    h.mem2reg, h.jump⟩
  · rw [← h.frame, hca]
    rfl
  · intro hf
    obtain ⟨hex, hin, -⟩ := h.exec hf
    rw [hca]
    refine ⟨hex, hin, ?_⟩
    rw [hidle hf]
    exact beq_eq_false_iff_ne.mpr (hl hf)
  · intro hwf htrap
    obtain ⟨halu, hrest⟩ := h.back hwf htrap
    have hm : (a.step p memsize q).core.wbMem2reg = a.core.wbMem2reg := by rw [hca]
    rw [hca]
    refine ⟨halu, fun hal => ?_⟩
    obtain ⟨hd, hmr, hv⟩ := hrest hal
    refine ⟨hd, hmr, ?_⟩
    rw [← hv]
    cases hf : b.core.exFlush with
    | false =>
      have hrr : (a.dmemPort memsize q).rready = false := by
        change a.core.exMem2reg = false
        rw [(h.exec hf).2.2, hidle hf]
      have hrd : (a.step p memsize q).dmem.rdata = a.dmem.rdata := by
        change (a.dmem.step _ _).rdata = _
        rw [Mem2ports.step, hrr]
        rfl
      rw [value, value, hrd, hca]
    | true =>
      -- stage 3 holds the instruction that redirected fetch
      have hbr : b.core.wbBranch = true := by
        rw [State.wbFlush, h.nop, Bool.or_eq_false_iff] at hwf
        rw [State.exFlush, hwf.1, Bool.or_false] at hf
        exact hf
      have hno : a.core.wbMem2reg = false := hmr.trans (h.jump hbr htrap)
      rw [value, value, hca]
      simp only [hno]
      rfl

theorem dmem_ram_eq (hm : a.core.wbMemwr = b.core.wbMemwr)
    (hp : b.core.wbMemwr = true → a.core.wport = b.core.wport)
    (hr : a.dmem.ram = b.dmem.ram) :
    (a.step p memsize q).dmem.ram = (b.step p memsize r).dmem.ram := by
  cases hw : b.core.wbMemwr with
  | false =>
    have ha : (a.step p memsize q).dmem.ram = a.dmem.ram := Mem2ports.step_ram (hm.trans hw)
    have hb : (b.step p memsize r).dmem.ram = b.dmem.ram := Mem2ports.step_ram hw
    rw [ha, hb, hr]
  | true =>
    have ha : (a.step p memsize q).dmem.ram = _ := Mem2ports.step_ram_write (hm.trans hw)
    have hb : (b.step p memsize r).dmem.ram = _ := Mem2ports.step_ram_write hw
    have hport := hp hw
    simp only [State.wport, Prod.mk.injEq] at hport
    obtain ⟨h1, h2, h3⟩ := hport
    rw [ha, hb]
    simp only [dmemPort, hr, h1, h2, h3]

theorem Alike.imem_step (h : Alike p a b) (hs : a.core.stallR = false) :
    (a.step p memsize q).imem = (b.step p memsize r).imem := by
  have hfp : a.core.fetchPc = b.core.fetchPc := congrArg Frame.fetchPc h.frame
  have hra : a.core.imemReady (a.input q) = true := by
    simp [State.imemReady, State.wbStall, input, hs]
  have hrb : b.core.imemReady (b.input r) = true := by
    simp [State.imemReady, State.wbStall, input, h.stallR]
  change a.imem.step _ (a.imemPort q) = b.imem.step _ (b.imemPort r)
  simp only [imemPort, hra, hrb, h.imem, State.imemAddr, hfp]

section

variable (hq : q.Quiet) (hr : r.Quiet)
include hq hr

theorem Twin.go (h : Twin p a b) (hrs : r.stall = false) (hs : a.core.stallR = false) :
    Twin p (a.step p memsize q) (b.step p memsize r) := by
  have hinst : a.core.inst (a.input q) = b.core.inst (b.input r) := by
    rw [inst_of_not_flush h.fresh, inst_of_not_flush h.flush, h.imem]
  have hram : (a.step p memsize q).dmem.ram = (b.step p memsize r).dmem.ram :=
    dmem_ram_eq h.memwr h.port h.ram
  have hca := core_step p memsize q hs
  have hcb := core_step p memsize r h.stallR
  -- the same word comes in, so nothing is lost
  refine ⟨h.toAlike.next hq hr hrs hs (.inl hinst) (h.imem_step hs) ?_, ?_, ?_, ?_, hram⟩
  · intro hf hl
    have hslot := h.slot hf hq hr
    have hla : a.core.exMem2reg = true := (h.exec hf).2.2.trans hl
    have haddr : dramIndex memsize (a.core.dmemRaddr (a.input q)) =
        dramIndex memsize (b.core.dmemRaddr (b.input r)) := by
      rw [State.dmemRaddr, State.dmemRaddr, hslot]
    have hrd : ∀ {c : Board} {s : Pins}, c.core.exMem2reg = true →
        (c.step p memsize s).dmem.rdata = (c.step p memsize s).dmem.ram
          (Mem2ports.index (ramSize memsize)
            (dramIndex memsize (c.core.dmemRaddr (c.input s)))) := fun {c s} hc =>
      Mem2ports.step_rdata (b := c.dmemPort memsize s) hc
    rw [hrd hla, hrd hl, haddr, hram]
  · rw [hca]
  · rw [hca, hcb]
    exact (h.decides hq hr).2.2.2.2
  · intro hw
    rw [hcb] at hw
    have hf : b.core.exFlush = false := by
      cases hf : b.core.exFlush with
      | false => rfl
      | true =>
        have hw' : (b.core.slot (b.input r)).memwr = true := hw
        rw [Slot.memwr_flush hf] at hw'
        cases hw'
    have hslot := h.slot hf hq hr
    have hex : a.core.ex = b.core.ex := (h.exec hf).1
    have hst : b.core.ex.memwr = true := by
      have hw' : (b.core.slot (b.input r)).memwr = true := hw
      simp only [Slot.memwr, Bool.and_eq_true] at hw'
      exact hw'.1.1
    rw [hca, hcb]
    simp only [State.wport, hslot, hex, hst, if_true]

theorem Twin.pause (h : Twin p a b) (hs : a.core.stallR = true) (hsafe : a.StallSafe q) :
    Paused p memsize r (a.step p memsize q) b := by
  have hinst : a.core.inst (a.input q) = b.core.inst (b.input r) := by
    rw [inst_of_not_flush h.fresh, inst_of_not_flush h.flush, h.imem]
  have hbr : a.core.wbBranch = b.core.wbBranch := congrArg Frame.wbBranch h.frame
  obtain ⟨-, hred, -, -, hmem⟩ := h.decides hq hr
  have hsafe' : b.StallSafe r := by
    obtain ⟨hd, hl, hw⟩ := hsafe
    rw [hinst, hred, hbr] at hd
    rw [hmem] at hw
    refine ⟨hd, ?_, hw⟩
    cases hf : b.core.exFlush with
    | true => exact .inl hf
    | false =>
      rw [h.slot hf hq hr, hinst] at hl
      exact hl
  have hload : b.core.exFlush = false → opcode (a.core.inst (a.input q)) ≠ opLoad := by
    intro hf
    rcases hsafe'.2.1 with hx | hx
    · exact absurd (hf.symm.trans hx) (by simp)
    · rw [hinst]
      exact hx.2
  have hca : (a.step p memsize q).core = _ :=
    State.step_held (p := p) (s := a.core) (i := a.input q) rfl rfl hs
  refine ⟨h.toAlike.held hs hsafe' hload, ?_, ?_, dmem_ram_eq h.memwr h.port h.ram, hsafe'⟩
  · rw [hca]
  · rw [hca]
    exact hsafe.2.2

theorem Paused.held (h : Paused p memsize r a b) (hs : a.core.stallR = true) :
    Paused p memsize r (a.step p memsize q) b := by
  have hnop : a.core.inst (a.input q) = Rtl.nop := inst_of_flush h.flushed
  have hload : opcode (a.core.inst (a.input q)) ≠ opLoad := by
    rw [hnop]
    decide
  have hca : (a.step p memsize q).core = _ :=
    State.step_held (p := p) (s := a.core) (i := a.input q) rfl rfl hs
  have hram : (a.step p memsize q).dmem.ram = a.dmem.ram := Mem2ports.step_ram h.memwr
  refine ⟨h.toAlike.held hs h.safe fun _ => hload, ?_, ?_, hram.trans h.ram, h.safe⟩
  · rw [hca]
  · rw [hca]
    exact (h.decides hq hr).2.2.2.2.trans h.safe.2.2

/-- The cycle that ends the pause: the word in F/D becomes a NOP. -/
theorem Paused.resume (h : Paused p memsize r a b) (hrs : r.stall = false)
    (hs : a.core.stallR = false) : Twin p (a.step p memsize q) (b.step p memsize r) := by
  have hnop : a.core.inst (a.input q) = Rtl.nop := inst_of_flush h.flushed
  obtain ⟨hdrop, hl, hw⟩ := h.safe
  have hfd : a.core.inst (a.input q) = b.core.inst (b.input r) ∨
      (b.core.slot (b.input r)).redirects = true ∨ b.core.wbBranch = true := by
    rcases hdrop with hn | hx
    · exact .inl (hnop.trans hn.symm)
    · exact .inr hx
  have hca := core_step p memsize q hs
  have hcb := core_step p memsize r h.stallR
  have hram : (a.step p memsize q).dmem.ram = a.dmem.ram := Mem2ports.step_ram h.memwr
  refine ⟨h.toAlike.next hq hr hrs hs hfd (h.imem_step hs) ?_, ?_, ?_, ?_, hram.trans h.ram⟩
  · intro hf hmr
    rcases hl with hx | hx
    · exact absurd (hf.symm.trans hx) (by simp)
    · exact absurd (hmr.symm.trans hx.1) (by simp)
  · rw [hca]
  · rw [hca, hcb]
    exact (h.decides hq hr).2.2.2.2
  · intro hm
    rw [hcb] at hm
    exact absurd (hw.symm.trans hm) (by simp)

end

/-! What happens in those cycles. -/

theorem Alike.writeEvents (h : Alike p a b) (hs : a.core.stallR = false) :
    a.writeEvents q = b.writeEvents r := by
  obtain ⟨hw, hv⟩ := h.regWrite (q := q) (r := r) hs
  rw [Board.writeEvents, Board.writeEvents, hw]
  cases hb : b.core.regWrite (b.input r) with
  | false => simp
  | true =>
    obtain ⟨hd, hval⟩ := hv hb
    have hval' : a.core.wbValue (a.input q) = b.core.wbValue (b.input r) := hval
    rw [hd, hval']

theorem Alike.execEvents (h : Alike p a b) (hs : a.core.stallR = false) :
    a.execEvents q = b.execEvents r := by
  have hpc : a.core.exPc = b.core.exPc := congrArg Frame.exPc h.frame
  have hea : a.core.exStall (a.input q) = false := by
    simp [State.exStall, State.ifStall, input, hs]
  have heb : b.core.exStall (b.input r) = false := by
    simp [State.exStall, State.ifStall, input, h.stallR]
  rw [Board.execEvents, Board.execEvents, hea, heb, h.exFlush, hpc]
  cases hf : b.core.exFlush with
  | true => simp
  | false => rw [(h.exec hf).2.1]

theorem events_held (hs : a.core.stallR = true) : a.events q = a.storeEvents := by
  have hw : a.writeEvents q = [] := by simp [writeEvents, State.regWrite, hs]
  have he : a.execEvents q = [] := by simp [execEvents, State.exStall, hs]
  rw [events, hw, he, List.append_nil, List.append_nil]

theorem Twin.storeEvents (h : Twin p a b) : a.storeEvents = b.storeEvents := by
  rw [Board.storeEvents, Board.storeEvents, State.dmemWready, State.dmemWready, h.memwr]
  cases hw : b.core.wbMemwr with
  | false => rfl
  | true =>
    have hport := h.port hw
    simp only [State.wport, Prod.mk.injEq] at hport
    obtain ⟨ha, hs, hd⟩ := hport
    rw [ha, hs, hd]

theorem Paused.storeEvents (h : Paused p memsize r a b) : a.storeEvents = [] := by
  rw [Board.storeEvents, State.dmemWready, h.memwr]
  rfl

/-- The stalled run `a`, with the events `ta` behind it, against the other run `b` and `tb`. -/
def Follows (p : Param) (memsize : ℕ) (r : Pins) (a b : Board) (ta tb : List Event) : Prop :=
  (Twin p a b ∧ ta = tb) ∨ (Paused p memsize r a b ∧ ta = tb ++ b.storeEvents)

section

variable {r' : Pins} {ta tb : List Event} (hq : q.Quiet) (hr : r.Quiet)
include hq hr

/-- A held cycle: the other run waits. -/
theorem Follows.wait (h : Follows p memsize r a b ta tb) (hs : a.core.stallR = true)
    (hsafe : a.core.flush = false → a.StallSafe q) :
    Follows p memsize r (a.step p memsize q) b (ta ++ a.events q) tb := by
  rw [events_held hs]
  rcases h with ⟨ht, hev⟩ | ⟨hp, hev⟩
  · refine .inr ⟨ht.pause hq hr hs (hsafe ht.fresh), ?_⟩
    rw [hev, ht.storeEvents]
  · refine .inr ⟨hp.held hq hr hs, ?_⟩
    rw [hp.storeEvents, List.append_nil, hev]

theorem Follows.go (h : Follows p memsize r a b ta tb) (hs : a.core.stallR = false)
    (hrs : r.stall = false) :
    Follows p memsize r' (a.step p memsize q) (b.step p memsize r) (ta ++ a.events q)
      (tb ++ b.events r) := by
  rcases h with ⟨ht, hev⟩ | ⟨hp, hev⟩
  · refine .inl ⟨ht.go hq hr hrs hs, ?_⟩
    rw [events, events, hev, ht.storeEvents, ht.toAlike.writeEvents (r := r) hs,
      ht.toAlike.execEvents (r := r) hs]
  · refine .inl ⟨hp.resume hq hr hrs hs, ?_⟩
    rw [events, events, hp.storeEvents, List.nil_append, hev, hp.toAlike.writeEvents (r := r) hs,
      hp.toAlike.execEvents (r := r) hs]
    simp only [List.append_assoc]

end

/-- `stall` only reaches `stall_r`. -/
theorem step_stall (p : Param) (memsize : ℕ) (pins : Pins) (b : Board) :
    b.step p memsize pins =
      { b.step p memsize { pins with stall := false } with
        core := { (b.step p memsize { pins with stall := false }).core with
          stallR := pins.stall } } := rfl

/-- The runs part: only `stall_r` differs. -/
theorem Twin.start (hs : b.core.stallR = false)
    (hn : (b.step p memsize { q with stall := false }).core.wbBranch = false) :
    Twin p (b.step p memsize q) (b.step p memsize { q with stall := false }) := by
  have hb := core_step p memsize { q with stall := false } hs
  rw [step_stall]
  generalize hc : b.step p memsize { q with stall := false } = c at hb hn ⊢
  refine ⟨⟨rfl, fun _ => ⟨rfl, rfl, rfl⟩, fun _ _ => ⟨rfl, fun _ => ⟨rfl, rfl, rfl⟩⟩, rfl, ?_, ?_,
    ?_, ?_, ?_, ?_, ?_⟩, ?_, rfl, fun _ => rfl, rfl⟩
  · rw [hb]
  · rw [hb]
  · rw [hb]
  · intro ht
    rw [hb] at ht ⊢
    simp [Slot.redirects, Slot.trap_of_trapNop ht]
  · rw [hb]
  · rw [hb]
  · intro hbr
    exact absurd (hn.symm.trans hbr) (by simp)
  · change c.core.flush = false
    rw [hb]

end Board

/-- A run whose `stall` input is high for `k` cycles from reset, low for one, and then does
anything, but always goes low again. -/
structure Stalling (k : ℕ) (pins : ℕ → Pins) : Prop where
  high : ∀ t, t < k → (pins t).stall = true
  low : (pins k).stall = false
  again : ∀ n, ∃ t, n ≤ t ∧ (pins t).stall = false
  quiet : ∀ t, (pins t).Quiet

/-- Two runs do the same things in the same order: what either has done by some cycle the other
has done by some cycle too. -/
def SameEvents (ta tb : ℕ → List Event) : Prop :=
  (∀ n, ∃ u, ta n <+: tb u) ∧ ∀ u, ∃ n, tb u <+: ta n

namespace Board

variable {p : Param} {memsize k : ℕ} {pa pb : ℕ → Pins} {m : Word} {prog data : ℕ → Word}
  {rd0 : Word}

theorem run_succ (b : Board) (pins : ℕ → Pins) (n : ℕ) :
    b.run p memsize pins (n + 1) = (b.run p memsize pins n).step p memsize (pins n) := rfl

theorem trace_succ (b : Board) (pins : ℕ → Pins) (n : ℕ) : b.trace p memsize pins (n + 1) =
    b.trace p memsize pins n ++ (b.run p memsize pins n).events (pins n) := rfl

theorem trace_mono (b : Board) (pins : ℕ → Pins) {n u : ℕ} (hnu : n ≤ u) :
    b.trace p memsize pins n <+: b.trace p memsize pins u := by
  induction u, hnu using Nat.le_induction with
  | base => exact List.prefix_refl _
  | succ u _ ih => exact ih.trans (List.prefix_append _ _)

/-- How many of the first `n` cycles are not held. -/
def awake (p : Param) (memsize : ℕ) (pins : ℕ → Pins) (b : Board) : ℕ → ℕ
  | 0 => 0
  | n + 1 => awake p memsize pins b n + if (b.run p memsize pins n).core.stallR then 0 else 1

/-- Up to the first cycle after reset the runs are the same. -/
theorem run_eq (p : Param) (memsize : ℕ) (b : Board) (ha : Stalling k pa) (hb : Calm k pb)
    {t : ℕ} (ht : t ≤ k + 1) :
    b.run p memsize pa t = b.run p memsize pb t ∧
      b.trace p memsize pa t = b.trace p memsize pb t := by
  induction t with
  | zero => exact ⟨rfl, rfl⟩
  | succ t ih =>
    obtain ⟨hr, htr⟩ := ih (by omega)
    have hpins : pa t = pb t := by
      have hs : (pa t).stall = (pb t).stall := by
        rw [hb.stall]
        rcases Nat.lt_or_ge t k with hlt | hge
        · rw [ha.high t hlt, decide_eq_true hlt]
        · obtain rfl : t = k := by omega
          rw [ha.low, decide_eq_false (by omega)]
      exact (ha.quiet t).eq (hb.quiet t) hs
    rw [run, run, trace, trace, hr, htr, hpins]
    exact ⟨rfl, rfl⟩

theorem awake_reset (ha : Stalling k pa) (hb : Calm k pb) {t : ℕ} (ht : t ≤ k + 1) :
    (boot p m prog data rd0).awake p memsize pa t = 0 := by
  induction t with
  | zero => rfl
  | succ t ih =>
    have hcore : ((boot p m prog data rd0).run p memsize pa t).core = .reset p m := by
      rw [(run_eq _ _ _ ha hb (by omega)).1, core_run rfl]
      exact State.run_reset (readyFrom hb) (by omega)
    rw [awake, ih (by omega), hcore]
    rfl

theorem follows_start (ha : Stalling k pa) (hb : Calm k pb) (r : Pins) :
    Follows p memsize r ((boot p m prog data rd0).run p memsize pa (k + 2))
      ((boot p m prog data rd0).run p memsize pb (k + 2))
      ((boot p m prog data rd0).trace p memsize pa (k + 2))
      ((boot p m prog data rd0).trace p memsize pb (k + 2)) := by
  obtain ⟨hrun, htrace⟩ := run_eq p memsize (boot p m prog data rd0) ha hb
    (le_refl (k + 1))
  have hpins : pb (k + 1) = { pa (k + 1) with stall := false } := by
    have hqa := ha.quiet (k + 1)
    refine (hb.quiet (k + 1)).eq ⟨hqa.timerIrq, hqa.swIrq, hqa.interrupt⟩ ?_
    rw [hb.stall, decide_eq_false (by omega)]
  have hfill : ((boot p m prog data rd0).run p memsize pb (k + 2)).core.Filling p m := by
    rw [core_run rfl]
    exact State.run_filling (readyFrom hb)
  have hrel : ((boot p m prog data rd0).run p memsize pb (k + 1)).core.stallR = false := by
    rw [core_run rfl, State.run_released (readyFrom hb)]
  refine .inl ⟨?_, ?_⟩
  · rw [run_succ _ _ (k + 1), run_succ _ _ (k + 1), hrun, hpins]
    refine Twin.start hrel ?_
    rw [← hpins]
    exact hfill.wbBranch
  · rw [trace_succ _ _ (k + 1), trace_succ _ _ (k + 1), hrun, htrace, hpins]
    rfl

/-- The stalled run follows the other one, which has done as many cycles as the stalled one was
not held. -/
theorem follows (ha : Stalling k pa) (hb : Calm k pb)
    (hsafe : ∀ t, k + 2 ≤ t → ((boot p m prog data rd0).run p memsize pa t).core.stallR = true →
      ((boot p m prog data rd0).run p memsize pa t).core.flush = false →
      ((boot p m prog data rd0).run p memsize pa t).StallSafe (pa t)) {n : ℕ} (hn : k + 2 ≤ n) :
    Follows p memsize (pb (k + 1 + (boot p m prog data rd0).awake p memsize pa n))
      ((boot p m prog data rd0).run p memsize pa n)
      ((boot p m prog data rd0).run p memsize pb
        (k + 1 + (boot p m prog data rd0).awake p memsize pa n))
      ((boot p m prog data rd0).trace p memsize pa n)
      ((boot p m prog data rd0).trace p memsize pb
        (k + 1 + (boot p m prog data rd0).awake p memsize pa n)) := by
  induction n, hn using Nat.le_induction with
  | base =>
    have hrel : ((boot p m prog data rd0).run p memsize pa (k + 1)).core.stallR = false := by
      rw [(run_eq _ _ _ ha hb le_rfl).1, core_run rfl, State.run_released (readyFrom hb)]
    have haw : (boot p m prog data rd0).awake p memsize pa (k + 2) = 1 := by
      rw [awake, awake_reset ha hb le_rfl, hrel]
      rfl
    rw [haw]
    exact follows_start ha hb _
  | succ n hn ih =>
    cases hs : ((boot p m prog data rd0).run p memsize pa n).core.stallR with
    | true =>
      have haw : (boot p m prog data rd0).awake p memsize pa (n + 1) =
          (boot p m prog data rd0).awake p memsize pa n := by
        rw [awake, hs]
        rfl
      rw [haw, run_succ, trace_succ]
      exact ih.wait (ha.quiet n) (hb.quiet _) hs (hsafe n hn hs)
    | false =>
      have haw : (boot p m prog data rd0).awake p memsize pa (n + 1) =
          (boot p m prog data rd0).awake p memsize pa n + 1 := by
        rw [awake, hs]
        rfl
      have hlow : (pb (k + 1 + (boot p m prog data rd0).awake p memsize pa n)).stall = false := by
        rw [hb.stall, decide_eq_false (by omega)]
      rw [haw, ← Nat.add_assoc, run_succ, trace_succ, run_succ, trace_succ]
      exact ih.go (ha.quiet n) (hb.quiet _) hs hlow

theorem awake_mono (b : Board) (pins : ℕ → Pins) {n u : ℕ} (hnu : n ≤ u) :
    b.awake p memsize pins n ≤ b.awake p memsize pins u := by
  induction u, hnu using Nat.le_induction with
  | base => exact le_rfl
  | succ u _ ih => exact ih.trans (Nat.le_add_right _ _)

/-- `stall` goes low again and again, so the other run gets arbitrarily far. -/
theorem awake_unbounded (p : Param) (memsize : ℕ) (b : Board) (ha : Stalling k pa) (u : ℕ) :
    ∃ n, k + 2 ≤ n ∧ u ≤ b.awake p memsize pa n := by
  induction u with
  | zero => exact ⟨k + 2, le_rfl, Nat.zero_le _⟩
  | succ u ih =>
    obtain ⟨n, hn, hu⟩ := ih
    obtain ⟨t, ht, hlow⟩ := ha.again n
    have hmono : b.awake p memsize pa n ≤ b.awake p memsize pa (t + 1) :=
      awake_mono b pa (by omega)
    -- `stall_r` is low one cycle later
    have hs : (b.run p memsize pa (t + 1)).core.stallR = false := hlow
    refine ⟨t + 2, by omega, ?_⟩
    rw [awake, hs, if_neg (by simp)]
    omega

/-- Two runs of one program between the same memories, one of them stalled at any time, do the
same things, if every stall starts in a cycle it is safe in. -/
theorem stall_transparent (p : Param) (memsize k : ℕ) (m : Word) (prog data : ℕ → Word)
    (rd0 : Word) (pa pb : ℕ → Pins) (ha : Stalling k pa) (hb : Calm k pb)
    (hsafe : ∀ t, k + 2 ≤ t → ((boot p m prog data rd0).run p memsize pa t).core.stallR = true →
      ((boot p m prog data rd0).run p memsize pa t).core.flush = false →
      ((boot p m prog data rd0).run p memsize pa t).StallSafe (pa t)) :
    SameEvents ((boot p m prog data rd0).trace p memsize pa)
      ((boot p m prog data rd0).trace p memsize pb) := by
  refine ⟨fun n => ?_, fun u => ?_⟩
  · have h := follows (p := p) ha hb hsafe (Nat.le_add_left (k + 2) n)
    have hle : (boot p m prog data rd0).trace p memsize pa n <+:
        (boot p m prog data rd0).trace p memsize pa (n + (k + 2)) :=
      trace_mono _ _ (by omega)
    refine ⟨k + 1 + (boot p m prog data rd0).awake p memsize pa (n + (k + 2)) + 1, hle.trans ?_⟩
    rw [trace_succ]
    rcases h with ⟨-, hev⟩ | ⟨-, hev⟩
    · rw [hev]
      exact List.prefix_append _ _
    · rw [hev, events, List.append_assoc, ← List.append_assoc]
      exact List.prefix_append _ _
  · obtain ⟨n, hn, hu⟩ := awake_unbounded p memsize (boot p m prog data rd0) ha u
    have h := follows (p := p) ha hb hsafe hn
    have hle : (boot p m prog data rd0).trace p memsize pb u <+:
        (boot p m prog data rd0).trace p memsize pb
          (k + 1 + (boot p m prog data rd0).awake p memsize pa n) :=
      trace_mono _ _ (by omega)
    refine ⟨n, hle.trans ?_⟩
    rcases h with ⟨-, hev⟩ | ⟨-, hev⟩
    · exact ⟨[], by rw [List.append_nil, hev]⟩
    · rw [hev]
      exact List.prefix_append _ _

/-- `stall` high in the cycles 3 and 4 only. -/
def pulse (t : ℕ) : Pins := ⟨t == 3 || t == 4, false, false, false⟩

theorem stalling_pulse : Stalling 0 pulse := by
  refine ⟨fun t ht => absurd ht (Nat.not_lt_zero t), rfl, fun n => ⟨n + 5, by omega, ?_⟩,
    fun _ => ⟨rfl, rfl, rfl⟩⟩
  have h3 : (n + 5 == 3) = false := by
    rw [beq_eq_false_iff_ne]
    omega
  have h4 : (n + 5 == 4) = false := by
    rw [beq_eq_false_iff_ne]
    omega
  change (n + 5 == 3 || n + 5 == 4) = false
  rw [h3, h4]
  rfl

/-- A program of four words followed by NOPs. -/
def fourWords (w0 w1 w2 w3 : Word) (n : ℕ) : Word :=
  if n = 0 then w0 else if n = 1 then w1 else if n = 2 then w2 else if n = 3 then w3 else Rtl.nop

/-- The pulse comes up with `jal x0, 8` in EX, so the word in F/D is flushed anyway. -/
theorem stall_transparent_jal :
    let prog := fourWords 0x00500093#32 0x0080006f#32 0x00700093#32 0x00102023#32
    let b := boot ⟨true, true⟩ 0#32 prog (fun _ => 0#32) 0#32
    SameEvents (b.trace ⟨true, true⟩ 1 pulse)
      (b.trace ⟨true, true⟩ 1 fun _ => ⟨false, false, false, false⟩) := by
  intro prog b
  refine stall_transparent ⟨true, true⟩ 1 0 0#32 prog (fun _ => 0#32) 0#32 pulse _ stalling_pulse
    calm_low ?_
  intro t ht hs hf
  obtain ⟨u, rfl⟩ : ∃ u, t = u + 1 := ⟨t - 1, by omega⟩
  have hu : (u == 3 || u == 4) = true := hs
  rw [Bool.or_eq_true, beq_iff_eq, beq_iff_eq] at hu
  rcases hu with rfl | rfl
  · decide +kernel
  · revert hf
    decide +kernel

/-- Two traces of which neither is a prefix of the other. -/
theorem not_sameEvents (b : Board) (pins : ℕ → Pins) {ta : ℕ → List Event} {n u : ℕ}
    (h1 : ¬ ta n <+: b.trace p memsize pins u) (h2 : ¬ b.trace p memsize pins u <+: ta n) :
    ¬ SameEvents ta (b.trace p memsize pins) := by
  rintro ⟨h, -⟩
  obtain ⟨v, hv⟩ := h n
  rcases Nat.le_total v u with hvu | huv
  · exact h1 (hv.trans (trace_mono b pins hvu))
  · rcases List.prefix_or_prefix_of_prefix hv (trace_mono b pins huv) with hp | hp
    · exact h1 hp
    · exact h2 hp

/-- The same pulse between straight-line code: the third instruction is lost. -/
theorem stall_drops_addi :
    let prog := fourWords 0x00500093#32 0x00108093#32 0x00108093#32 0x00102023#32
    let b := boot ⟨true, true⟩ 0#32 prog (fun _ => 0#32) 0#32
    Stalling 0 pulse ∧ (Calm 0 fun _ => ⟨false, false, false, false⟩) ∧
      ¬ SameEvents (b.trace ⟨true, true⟩ 1 pulse)
        (b.trace ⟨true, true⟩ 1 fun _ => ⟨false, false, false, false⟩) := by
  intro prog b
  refine ⟨stalling_pulse, calm_low, not_sameEvents (n := 9) (u := 7) b _ ?_ ?_⟩
  · decide +kernel
  · decide +kernel

end Board

end Srv32.Rtl

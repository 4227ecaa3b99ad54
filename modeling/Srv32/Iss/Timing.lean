import Srv32.Iss.Interrupt

/-! Two runs with different timing options: as long as no interrupt is enabled and the program
reads no clock, they differ in `cycle` and `mtime` alone. -/

namespace Srv32.Iss

/-- A CSR instruction that reads the cycle counter: all forms but CSRRW and CSRRWI to `x0`. -/
def readsCycle (inst : Word) : Prop :=
  isCsrWord inst ∧ (imm12 inst = csrRdcycle ∨ imm12 inst = csrRdcycleh) ∧
    ¬ ((func3 inst = opCsrrw ∨ func3 inst = opCsrrwi) ∧ rd inst = 0#5)

/-- The timing options, and the state that depends on them. -/
structure Timing where
  branchPenalty : Word
  branchPredict : Bool
  singleram : Bool
  cycle : Counter
  mtime : Counter

/-- How an arm ended in one run, and in the other. -/
inductive Alike (R : Rv → Rv → Prop) : Flow → Flow → Prop
  | brk {a b : Rv} (h : R a b) : Alike R (.brk a) (.brk b)
  | ret {r : Ret} {a b : Rv} (h : R a b) : Alike R (.ret r a) (.ret r b)

theorem Alike.mono {R S : Rv → Rv → Prop} (hRS : ∀ {a b}, R a b → S a b) {f g : Flow}
    (h : Alike R f g) : Alike S f g := by
  cases h with
  | brk h => exact .brk (hRS h)
  | ret h => exact .ret (hRS h)

theorem Alike.ite {R : Rv → Rv → Prop} {p : Prop} [Decidable p] {f f' g g' : Flow}
    (hf : p → Alike R f f') (hg : ¬ p → Alike R g g') :
    Alike R (if p then f else g) (if p then f' else g') := by
  split_ifs with hp
  · exact hf hp
  · exact hg hp

namespace Rv

/-- A load from the device register MTIME, or from its upper half. -/
def readsMtime (cfg : Config) (rv : Rv) (inst : Word) : Prop :=
  opcode inst = opLoad ∧
    (∃ n, loadBytes (func3 inst) = some n ∧
      rv.memOk (rv.loadAddress cfg inst) (BitVec.ofNat 32 n) = false) ∧
    (rv.loadAddress cfg inst = mmioMtime ∨ rv.loadAddress cfg inst = mmioMtime + 4#32)

/-- The step reads a clock. -/
def ReadsClock (cfg : Config) (host : Host) (rv : Rv) : Prop :=
  ∃ d inst c, rv.dispatch cfg host = .ok (d, inst, c) ∧
    (readsCycle inst ∨ d.readsMtime cfg inst)

/-- The state with the timing options, `cycle` and `mtime` of `t`. -/
def retime (rv : Rv) (t : Timing) : Rv :=
  { rv with
    branchPenalty := t.branchPenalty
    branchPredict := t.branchPredict
    singleram := t.singleram
    csr := { rv.csr with cycle := t.cycle, mtime := t.mtime } }

/-- The same state but for the timing. -/
def Retimed (a b : Rv) : Prop := ∃ t, b = a.retime t

/-- `x0` as the next step clears it. -/
def clear (rv : Rv) : Rv := { rv with regs := Function.update rv.regs 0#5 0#32 }

/-- The same between steps, where `x0` holds what was last written to it. -/
def Retimed0 (a b : Rv) : Prop := Retimed a.clear b.clear

@[simp] theorem retime_readRegs (a : Rv) (t : Timing) (cfg : Config) (n : BitVec 5) :
    (a.retime t).readRegs cfg n = a.readRegs cfg n := rfl
@[simp] theorem retime_pc (a : Rv) (t : Timing) : (a.retime t).pc = a.pc := rfl
@[simp] theorem retime_mieSet (a : Rv) (t : Timing) : (a.retime t).mieSet = a.mieSet := rfl
@[simp] theorem retime_getMemptr (a : Rv) (t : Timing) (v : Word) :
    (a.retime t).getMemptr v = a.getMemptr v := rfl
@[simp] theorem retime_intAt (a : Rv) (t : Timing) (m : Int) :
    (a.retime t).intAt m = a.intAt m := rfl
@[simp] theorem retime_memOk (a : Rv) (t : Timing) (v len : Word) :
    (a.retime t).memOk v len = a.memOk v len := rfl
@[simp] theorem retime_dump (a : Rv) (t : Timing) (host : Host) (aligned : Bool) (a0 a1 : Word) :
    (a.retime t).dump host aligned a0 a1 = a.dump host aligned a0 a1 := rfl
@[simp] theorem retime_progExit (a : Rv) (t : Timing) : (a.retime t).progExit = a.progExit := rfl
@[simp] theorem retime_readMem (a : Rv) (t : Timing) (v len : Word) :
    (a.retime t).readMem v len = a.readMem v len := rfl

variable {cfg : Config} {a b : Rv} {inst : Word} {host : Host} {c : Bool}

namespace Retimed

theorem clear (h : Retimed a b) : Retimed0 a b := by
  obtain ⟨t, rfl⟩ := h
  exact ⟨⟨_, _, _, _, _⟩, rfl⟩

theorem chargeLeft (h : Retimed a b) (m : Word) : Retimed (a.cycleAdd m) b := by
  obtain ⟨t, rfl⟩ := h
  exact ⟨⟨_, _, _, _, _⟩, rfl⟩

theorem chargeRight (h : Retimed a b) (n : Word) : Retimed a (b.cycleAdd n) := by
  obtain ⟨t, rfl⟩ := h
  exact ⟨⟨_, _, _, _, _⟩, rfl⟩

theorem charge (h : Retimed a b) (m n : Word) : Retimed (a.cycleAdd m) (b.cycleAdd n) :=
  (h.chargeLeft m).chargeRight n

theorem readRegs (h : Retimed a b) (n : BitVec 5) : a.readRegs cfg n = b.readRegs cfg n := by
  obtain ⟨t, rfl⟩ := h
  rfl

theorem pc (h : Retimed a b) : a.pc = b.pc := by
  obtain ⟨t, rfl⟩ := h
  rfl

theorem linkPc (h : Retimed a b) : a.linkPc c = b.linkPc c := by
  rw [Rv.linkPc, Rv.linkPc, h.pc]

theorem mieSet (h : Retimed a b) : a.mieSet = b.mieSet := by
  obtain ⟨t, rfl⟩ := h
  rfl

theorem setPc (h : Retimed a b) (p : Word) : Retimed { a with pc := p } { b with pc := p } := by
  obtain ⟨t, rfl⟩ := h
  exact ⟨⟨_, _, _, _, _⟩, rfl⟩

theorem setPrevPc (h : Retimed a b) (p : Word) :
    Retimed { a with prevPc := p } { b with prevPc := p } := by
  obtain ⟨t, rfl⟩ := h
  exact ⟨t, rfl⟩

/-- Both runs decide alike, `d` and `d'` being the same test in two states. -/
theorem ite {p : Prop} {d d' : Decidable p} {a' b' : Rv} (h : Retimed a b)
    (h' : Retimed a' b') : Retimed (@ite _ p d a a') (@ite _ p d' b b') := by
  by_cases hp : p
  · rw [if_pos hp, if_pos hp]
    exact h
  · rw [if_neg hp, if_neg hp]
    exact h'

theorem writeRegs (h : Retimed a b) (n : BitVec 5) (v : Word) :
    Retimed (a.writeRegs cfg n v) (b.writeRegs cfg n v) := by
  obtain ⟨t, rfl⟩ := h
  unfold Rv.writeRegs
  split_ifs
  · exact ⟨⟨_, _, _, _, _⟩, rfl⟩
  · exact ⟨⟨_, _, _, _, _⟩, rfl⟩

theorem trap (h : Retimed a b) (cause val : Word) :
    Retimed (a.trap cause val) (b.trap cause val) := by
  have hc := h.charge a.branchPenalty b.branchPenalty
  unfold Rv.trap
  generalize a.cycleAdd a.branchPenalty = a' at hc ⊢
  generalize b.cycleAdd b.branchPenalty = b' at hc ⊢
  obtain ⟨t, rfl⟩ := hc
  exact ⟨⟨_, _, _, _, _⟩, rfl⟩

theorem ramCycle (h : Retimed a b) : Retimed a.ramCycle b.ramCycle := by
  unfold Rv.ramCycle
  split_ifs
  · exact h.charge _ _
  · exact h.chargeLeft _
  · exact h.chargeRight _
  · exact h

end Retimed

/-! The arms of the switch. -/

section

variable (h : Retimed a b)
include h

theorem alike_write (n : BitVec 5) (v : Word) :
    Alike Retimed (.brk (a.writeRegs cfg n v)) (.brk (b.writeRegs cfg n v)) :=
  .brk (h.writeRegs n v)

theorem alike_trapRet (cause val : Word) :
    Alike Retimed (a.trapRet cause val) (b.trapRet cause val) := .ret (h.trap cause val)

theorem alike_writeRd (v : Option Word) :
    Alike Retimed (a.writeRd cfg inst v) (b.writeRd cfg inst v) := by
  cases v with
  | none => exact alike_trapRet h _ _
  | some v => exact alike_write h _ v

theorem alike_self (p : Word) :
    Alike Retimed (.ret (.code rvExit) { a with pc := p, exitcode := 1#32 })
      (.ret (.code rvExit) { b with pc := p, exitcode := 1#32 }) := by
  obtain ⟨t, rfl⟩ := h
  exact .ret ⟨⟨_, _, _, _, _⟩, rfl⟩

theorem alike_jump (t : Word) : Alike Retimed (a.jump cfg inst c t) (b.jump cfg inst c t) := by
  unfold jump
  rw [h.linkPc]
  simp only
  split_ifs
  · exact .ret (h.setPc _)
  · exact .ret (((h.setPc _).writeRegs _ _).charge _ _)

theorem alike_jal : Alike Retimed (a.execJal cfg inst c) (b.execJal cfg inst c) := by
  unfold execJal
  rw [h.pc]
  simp only
  split_ifs
  · exact alike_self h _
  · exact alike_jump h _

theorem alike_jalr : Alike Retimed (a.execJalr cfg inst c) (b.execJalr cfg inst c) := by
  unfold execJalr
  rw [h.pc, h.readRegs]
  simp only
  split_ifs
  · exact alike_self h _
  · exact alike_jump h _

/-- The charge of a branch may differ, its target not. -/
theorem alike_branchArm (taken : Bool) (off : Word) :
    Alike Retimed (a.branchArm taken off) (b.branchArm taken off) := by
  have hp := h.setPc (b.pc + off)
  unfold branchArm
  rw [h.pc]
  simp only
  split_ifs
  · exact .ret (hp.charge _ _)
  · exact .ret (hp.chargeLeft _)
  · exact .ret (hp.chargeRight _)
  · exact .ret hp
  · exact .brk h

theorem alike_branch : Alike Retimed (a.execBranch cfg inst) (b.execBranch cfg inst) := by
  unfold execBranch
  rw [h.readRegs, h.readRegs]
  simp only
  split_ifs <;> first | exact alike_branchArm h _ _ | exact alike_trapRet h _ _

theorem memrwLoad_retimed {op : BitVec 3} {address : Word}
    (hn : ¬ ((∃ n, loadBytes op = some n ∧ a.memOk address (BitVec.ofNat 32 n) = false) ∧
      (address = mmioMtime ∨ address = mmioMtime + 4#32))) :
    a.memrwLoad host op address = b.memrwLoad host op address := by
  obtain ⟨t, rfl⟩ := h
  unfold memrwLoad
  rw [loadLen_eq]
  cases hb : loadBytes op with
  | none => rfl
  | some n =>
    simp only
    by_cases ha : address.toNat % n = 0
    · rw [if_pos ha]
      simp only [readMem]
      by_cases hm : a.memOk address (BitVec.ofNat 32 n) = true
      · rw [retime_memOk, if_pos hm, if_pos hm]
        rfl
      · rw [retime_memOk, if_neg hm, if_neg hm]
        have hne : ¬ address = mmioMtime ∧ ¬ address = mmioMtime + 4#32 :=
          not_or.mp fun he => hn ⟨⟨n, hb, Bool.eq_false_of_not_eq_true hm⟩, he⟩
        simp only [loadDevice, if_neg hne.1, if_neg hne.2]
        rfl
    · rw [if_neg ha]

theorem alike_load (hn : opcode inst = opLoad → ¬ a.readsMtime cfg inst)
    (ho : opcode inst = opLoad) :
    Alike Retimed (a.execLoad cfg inst host) (b.execLoad cfg inst host) := by
  have hl : a.memrwLoad host (func3 inst) _ = b.memrwLoad host (func3 inst) _ :=
    memrwLoad_retimed h fun hc => hn ho ⟨ho, show _ ∧ (a.loadAddress cfg inst = _ ∨ _) from hc⟩
  rw [loadAddress] at hl
  have hr := h.ramCycle
  unfold execLoad
  simp only
  rw [hl, h.readRegs]
  split_ifs
  · exact alike_trapRet hr _ _
  · exact alike_trapRet hr _ _
  · exact alike_trapRet hr _ _
  · exact alike_write hr _ _

end

/-- The same result, and the same state but for the timing. -/
def Same {α : Type} (r r' : α × Rv) : Prop := r'.1 = r.1 ∧ Retimed r.2 r'.2

theorem same_ite {α : Type} {p : Prop} {d d' : Decidable p} {f f' g g' : α × Rv}
    (hf : Same f f') (hg : Same g g') : Same (@ite _ p d f g) (@ite _ p d' f' g') := by
  by_cases hp : p
  · rw [if_pos hp, if_pos hp]
    exact hf
  · rw [if_neg hp, if_neg hp]
    exact hg

theorem retime_hostRead (a : Rv) (t : Timing) (host : Host) (fd : Word) (p : Option Int)
    (count : Word) :
    (a.retime t).hostRead host fd p count = (a.hostRead host fd p count).retime t := by
  cases p <;> rfl

theorem same_tohost (a : Rv) (t : Timing) (host : Host) (v : Word) :
    Same (a.tohost host v) ((a.retime t).tohost host v) := by
  unfold tohost
  rw [retime_getMemptr]
  cases a.getMemptr v with
  | none => exact ⟨rfl, t, rfl⟩
  | some m =>
    iterate 4 refine same_ite ⟨rfl, t, rfl⟩ ?_
    refine same_ite ⟨rfl, t, ?_⟩ ?_
    · rw [show (a.retime t).hostRead host _ _ _ = _ from retime_hostRead a t host _ _ _]
      rfl
    iterate 2 refine same_ite ⟨rfl, t, rfl⟩ ?_
    exact same_ite ⟨rfl, t, rfl⟩ ⟨rfl, t, rfl⟩

theorem same_storeDevice (a : Rv) (t : Timing) (host : Host) (op : BitVec 3) (v w : Word) :
    Same (a.storeDevice host op v w) ((a.retime t).storeDevice host op v w) := by
  unfold storeDevice
  refine same_ite ⟨rfl, t, rfl⟩ ?_
  refine same_ite ⟨rfl, t, rfl⟩ ?_
  refine same_ite ⟨rfl, t, rfl⟩ ?_
  refine same_ite ?_ ?_
  · obtain ⟨h1, h2⟩ := same_tohost a t host w
    generalize (a.retime t).tohost host w = r' at h1 h2 ⊢
    generalize a.tohost host w = r at h1 h2 ⊢
    obtain ⟨k, s⟩ := r
    obtain ⟨k', s'⟩ := r'
    obtain rfl : k' = k := h1
    cases k' <;> exact ⟨rfl, h2⟩
  refine same_ite ⟨rfl, ⟨_, _, _, _, _⟩, rfl⟩ ?_
  refine same_ite ⟨rfl, ⟨_, _, _, _, _⟩, rfl⟩ ?_
  refine same_ite ⟨rfl, t, rfl⟩ ?_
  refine same_ite ⟨rfl, t, rfl⟩ ?_
  exact same_ite ⟨rfl, t, rfl⟩ ⟨rfl, t, rfl⟩

theorem same_memrwStore (a : Rv) (t : Timing) (host : Host) (op : BitVec 3) (v w : Word) :
    Same (a.memrwStore host op v w) ((a.retime t).memrwStore host op v w) := by
  unfold memrwStore
  cases storeLen op v with
  | error k => exact ⟨rfl, t, rfl⟩
  | ok len =>
    have hw : (a.retime t).writeMem v len (byteOfWord w) =
        (a.writeMem v len (byteOfWord w)).map (·.retime t) := by
      rw [writeMem, writeMem, retime_memOk]
      by_cases hm : a.memOk v len = true
      · rw [if_pos hm, if_pos hm]
        rfl
      · rw [if_neg hm, if_neg hm]
        rfl
    simp only [hw]
    cases a.writeMem v len (byteOfWord w) with
    | some s => exact ⟨rfl, t, rfl⟩
    | none => exact same_storeDevice a t host op v w

theorem same_syscall (a : Rv) (t : Timing) (host : Host) (f a0 a1 a2 : Word) :
    Same (a.syscall host f a0 a1 a2) ((a.retime t).syscall host f a0 a1 a2) := by
  unfold syscall
  iterate 4 refine same_ite ⟨rfl, t, rfl⟩ ?_
  refine same_ite ⟨rfl, t, retime_hostRead a t host _ _ _⟩ ?_
  refine same_ite ⟨rfl, t, rfl⟩ ?_
  refine same_ite ?_ ?_
  · rw [retime_dump]
    cases a.dump host (dumpAligned a0 a1) a0 a1 <;> exact ⟨rfl, t, rfl⟩
  refine same_ite ?_ ⟨rfl, t, rfl⟩
  rw [retime_dump]
  cases a.dump host true a0 a1 <;> exact ⟨rfl, t, rfl⟩

theorem alike_store (h : Retimed a b) :
    Alike Retimed (a.execStore cfg inst host) (b.execStore cfg inst host) := by
  obtain ⟨t, rfl⟩ := h
  unfold execStore
  simp only [retime_readRegs]
  obtain ⟨hr, hs⟩ :
      Same (a.memrwStore host (func3 inst) _ _) ((a.retime t).memrwStore host _ _ _) :=
    same_memrwStore a t host (func3 inst) (a.readRegs cfg (rs1 inst) + immS inst)
      (a.readRegs cfg (rs2 inst))
  generalize (a.retime t).memrwStore host _ _ _ = r' at hr hs ⊢
  generalize a.memrwStore host _ _ _ = r at hr hs ⊢
  obtain ⟨k, s⟩ := r
  obtain ⟨k', s'⟩ := r'
  obtain rfl : k' = k := hr
  have hram := Retimed.ramCycle hs
  cases k' with
  | code result =>
    refine Alike.ite (fun _ => alike_trapRet hram _ _) fun _ => ?_
    refine Alike.ite (fun _ => alike_trapRet hram _ _) fun _ => ?_
    exact Alike.ite (fun _ => alike_trapRet hram _ _) fun _ => .brk hram
  | exit status => exact .ret hs
  | segv => exact .ret hs

theorem alike_ecall (h : Retimed a b) :
    Alike Retimed (a.execEcall cfg host) (b.execEcall cfg host) := by
  obtain ⟨t, rfl⟩ := h
  unfold execEcall
  simp only [retime_readRegs]
  obtain ⟨hr, hs⟩ : Same (a.syscall host _ _ _ _) ((a.retime t).syscall host _ _ _ _) :=
    same_syscall a t host (a.readRegs cfg cfg.sys) (a.readRegs cfg regA0) (a.readRegs cfg regA1)
      (a.readRegs cfg regA2)
  generalize (a.retime t).syscall host _ _ _ _ = r' at hr hs ⊢
  generalize a.syscall host _ _ _ _ = r at hr hs ⊢
  obtain ⟨k, s⟩ := r
  obtain ⟨k', s'⟩ := r'
  obtain rfl : k' = k := hr
  cases k' with
  | error r => exact .ret hs
  | ok res =>
    simp only
    split_ifs
    · exact alike_trapRet (Retimed.writeRegs hs _ _) _ _
    · exact alike_trapRet hs _ _

theorem retimed_mret (h : Retimed a b) : Retimed
    { a with
      pc := a.csr.mepc
      csr.mstatus := if a.csr.mstatus &&& 1#32 <<< bitMpie ≠ 0#32
        then a.csr.mstatus ||| 1#32 <<< bitMie else a.csr.mstatus &&& ~~~(1#32 <<< bitMie) }
    { b with
      pc := b.csr.mepc
      csr.mstatus := if b.csr.mstatus &&& 1#32 <<< bitMpie ≠ 0#32
        then b.csr.mstatus ||| 1#32 <<< bitMie else b.csr.mstatus &&& ~~~(1#32 <<< bitMie) } := by
  obtain ⟨t, rfl⟩ := h
  exact ⟨t, rfl⟩

theorem alike_mret (h : Retimed a b) : Alike Retimed (a.execMret cfg) (b.execMret cfg) := by
  have hret := retimed_mret h
  unfold execMret
  generalize ({ a with pc := _, csr.mstatus := _ } : Rv) = a' at hret ⊢
  generalize ({ b with pc := _, csr.mstatus := _ } : Rv) = b' at hret ⊢
  simp only
  rw [hret.pc]
  split_ifs
  · exact .ret hret
  · exact .ret (hret.charge _ _)

theorem alike_env (h : Retimed a b) :
    Alike Retimed (a.execEnv cfg inst host) (b.execEnv cfg inst host) := by
  unfold execEnv
  simp only
  rw [h.pc]
  split_ifs
  · exact alike_ecall h
  · exact alike_trapRet h _ _
  · exact alike_mret h
  · exact alike_trapRet h _ _

/-- The same access: but for the cycle counter, which no CSR instruction writes. -/
structure SameAccess (r r' : Word × Bool × Csr) : Prop where
  value : r'.1 = r.1
  legal : r'.2.1 = r.2.1
  csr : r'.2.2 = { r.2.2 with cycle := r'.2.2.cycle, mtime := r'.2.2.mtime }

theorem sameAccess_ite {p : Prop} {d d' : Decidable p} {f f' g g' : Word × Bool × Csr}
    (hf : p → SameAccess f f') (hg : SameAccess g g') :
    SameAccess (@ite _ p d f g) (@ite _ p d' f' g') := by
  by_cases hp : p
  · rw [if_pos hp, if_pos hp]
    exact hf hp
  · rw [if_neg hp, if_neg hp]
    exact hg

theorem sameAccess_rw (a : Csr) (x y : Counter) {regs : BitVec 12} (hc : regs ≠ csrRdcycle)
    (hch : regs ≠ csrRdcycleh) (mode : BitVec 3) (val : Word) (update : Bool) :
    SameAccess (a.rw regs mode val update)
      ({ a with cycle := x, mtime := y }.rw regs mode val update) := by
  unfold Csr.rw
  refine sameAccess_ite (fun h => absurd h hc) ?_
  refine sameAccess_ite (fun h => absurd h hch) ?_
  -- no other number reads or writes a clock
  iterate 16
    refine sameAccess_ite (fun _ => ⟨rfl, rfl, rfl⟩) ?_
  exact ⟨rfl, rfl, rfl⟩

theorem rw_cycle (a : Csr) {regs : BitVec 12} (h : regs = csrRdcycle ∨ regs = csrRdcycleh)
    (mode : BitVec 3) (val : Word) (update : Bool) :
    ∃ v, a.rw regs mode val update = (v, true, a) := by
  rcases h with rfl | rfl
  · exact ⟨_, rfl⟩
  · exact ⟨_, rfl⟩

theorem clear_writeRegs_zero (a : Rv) (v : Word) : (a.writeRegs cfg 0#5 v).clear = a.clear := by
  unfold Rv.clear writeRegs
  split_ifs
  · rfl
  · simp only [Function.update_idem]

theorem alike_csr (h : Retimed a b) (hi : isCsrWord inst) (hn : ¬ readsCycle inst) :
    Alike Retimed0 (a.execCsr cfg inst) (b.execCsr cfg inst) := by
  have hop : a.csrOperand cfg inst = b.csrOperand cfg inst := by
    rw [csrOperand, csrOperand, h.readRegs]
  unfold execCsr
  rw [hop]
  cases b.csrOperand cfg inst with
  | none => exact (alike_trapRet h _ _).mono Retimed.clear
  | some t =>
    obtain ⟨mode, val, update⟩ := t
    simp only
    by_cases hc : imm12 inst = csrRdcycle ∨ imm12 inst = csrRdcycleh
    · -- the value goes to `x0`
      have hrd : rd inst = 0#5 := by
        by_contra hne
        exact hn ⟨hi, hc, fun hw => hne hw.2⟩
      obtain ⟨v, hv⟩ := rw_cycle a.csr hc mode val update
      obtain ⟨w, hw⟩ := rw_cycle b.csr hc mode val update
      simp only [hv, hw, hrd]
      refine .brk ?_
      rw [Retimed0, clear_writeRegs_zero, clear_writeRegs_zero]
      exact h.clear
    -- any other number reads and writes the same in both
    · obtain ⟨t, rfl⟩ := h
      obtain ⟨hne, hne'⟩ := not_or.mp hc
      obtain ⟨h1, h2, h3⟩ : SameAccess (a.csr.rw _ _ _ _) ((a.retime t).csr.rw _ _ _ _) :=
        sameAccess_rw a.csr t.cycle t.mtime hne hne' mode val update
      generalize (a.retime t).csr.rw (imm12 inst) mode val update = r' at h1 h2 h3 ⊢
      generalize a.csr.rw (imm12 inst) mode val update = r at h1 h2 h3 ⊢
      obtain ⟨v, legal, csr⟩ := r
      obtain ⟨v', legal', csr'⟩ := r'
      obtain rfl : v' = v := h1
      obtain rfl : legal' = legal := h2
      have hs : Retimed { a with csr := csr } { a.retime t with csr := csr' } := by
        rw [show csr' = _ from h3]
        exact ⟨⟨_, _, _, _, _⟩, rfl⟩
      cases legal' with
      | true => exact .brk (hs.writeRegs _ _).clear
      | false => exact (alike_trapRet hs _ _).mono Retimed.clear

theorem alike_exec (h : Retimed a b) (hc : ¬ readsCycle inst) (hm : ¬ a.readsMtime cfg inst) :
    Alike Retimed0 (a.exec cfg inst host c) (b.exec cfg inst host c) := by
  have up : ∀ {f g : Flow}, Alike Retimed f g → Alike Retimed0 f g :=
    fun hfg => hfg.mono Retimed.clear
  have harith : a.arithI cfg inst = b.arithI cfg inst ∧ a.arithR cfg inst = b.arithR cfg inst := by
    obtain ⟨t, rfl⟩ := h
    exact ⟨rfl, rfl⟩
  unfold exec
  refine Alike.ite (fun _ => ?_) fun _ => ?_
  · unfold execAuipc
    rw [h.pc]
    exact up (alike_write h _ _)
  refine Alike.ite (fun _ => up (alike_write h _ _)) fun _ => ?_
  refine Alike.ite (fun _ => up (alike_jal h)) fun _ => ?_
  refine Alike.ite (fun _ => up (alike_jalr h)) fun _ => ?_
  refine Alike.ite (fun _ => up (alike_branch h)) fun _ => ?_
  refine Alike.ite (fun ho => up (alike_load h (fun _ => hm) ho)) fun _ => ?_
  refine Alike.ite (fun _ => up (alike_store h)) fun _ => ?_
  refine Alike.ite (fun _ => ?_) fun _ => ?_
  · rw [harith.1]
    exact up (alike_writeRd h _)
  refine Alike.ite (fun _ => ?_) fun _ => ?_
  · rw [harith.2]
    exact up (alike_writeRd h _)
  refine Alike.ite (fun _ => up (.brk h)) fun _ => ?_
  refine Alike.ite (fun ho => ?_) fun _ => up (alike_trapRet h _ _)
  unfold execSystem
  exact Alike.ite (fun _ => up (alike_env h)) fun hf => alike_csr h ⟨ho, hf⟩ hc

/-! The step. -/

theorem retimed_checkAlign (h : Retimed a b) (mask : Word) : Retimed
    (if a.pc &&& mask ≠ 0#32 then a.trap trapInstAlign a.pc else a)
    (if b.pc &&& mask ≠ 0#32 then b.trap trapInstAlign b.pc else b) := by
  have ht := h.trap trapInstAlign a.pc
  obtain ⟨t, rfl⟩ := h
  exact Retimed.ite ht ⟨t, rfl⟩

theorem retimed_checkPc (h : Retimed a b) : Retimed (a.checkPc cfg) (b.checkPc cfg) := by
  have ht := h.trap trapInstFail a.pc
  apply retimed_checkAlign
  obtain ⟨t, rfl⟩ := h
  exact Retimed.ite ht ⟨t, rfl⟩

/-- With interrupts off, two states that agree between steps fetch from states that agree. -/
theorem Retimed0.settle (h : Retimed0 a b) (hm : a.mieSet = false) :
    Retimed (a.settle cfg) (b.settle cfg) := by
  have hw : ∀ s : Rv, { s with mtimeUpdate := false }.writeRegs cfg 0#5 0#32 =
      { s.clear with mtimeUpdate := false } := by
    intro s
    have h0 : ¬ cfg.regnum ≤ (0#5).toNat := by
      unfold Config.regnum
      split_ifs <;> simp
    rw [writeRegs, if_neg h0]
    rfl
  have hb : b.mieSet = false := by
    rw [← hm]
    exact (Retimed.mieSet h).symm
  have ha' : ({ a.clear with mtimeUpdate := false } : Rv).mieSet = false := hm
  have hb' : ({ b.clear with mtimeUpdate := false } : Rv).mieSet = false := hb
  unfold Rv.settle
  rw [hw, hw, enterInts_off ha', enterInts_off hb']
  apply retimed_checkPc
  obtain ⟨t, ht⟩ := h
  rw [ht]
  exact ⟨t, rfl⟩

theorem settle_mieSet (hm : a.mieSet = false) : (a.settle cfg).mieSet = false := by
  have hw : ({ a with mtimeUpdate := false }.writeRegs cfg 0#5 0#32).mieSet = false := by
    rw [mieSet, writeRegs_csr]
    exact hm
  have htrap : ∀ {p : Prop} [Decidable p] (s : Rv) (cause val : Word), s.mieSet = false →
      (if p then s.trap cause val else s).mieSet = false := by
    intro p _ s cause val hs
    split_ifs
    · exact mieSet_trap cause val
    · exact hs
  rw [Rv.settle, enterInts_off hw]
  exact htrap _ _ _ (htrap _ _ _ hw)

/-- The timer comparison is the one place where `mtime` would matter: MIE masks it. -/
theorem Retimed.sampleIrq (h : Retimed a b) (hm : a.mieSet = false) (w : Word) :
    Retimed (a.sampleIrq w) (b.sampleIrq w) := by
  have hb := h.mieSet.symm.trans hm
  have hlatch : (b.sampleIrq w).latch = (a.sampleIrq w).latch := by
    unfold Rv.sampleIrq
    rw [hm, hb]
    obtain ⟨t, rfl⟩ := h
    simp only [Bool.false_eq_true, false_and, and_false, decide_false]
    rfl
  have ha : ∀ s : Rv, s.sampleIrq w = { s with latch := (s.sampleIrq w).latch } := fun _ => rfl
  rw [ha a, ha b, hlatch]
  generalize (a.sampleIrq w).latch = l
  obtain ⟨t, rfl⟩ := h
  exact ⟨t, rfl⟩

theorem Retimed.count (h : Retimed a b) : Retimed a.count b.count := by
  have hc : Retimed
      { a with csr := { a.csr with time := a.csr.time + 1#64, instret := a.csr.instret + 1#64 } }
      { b with
        csr := { b.csr with time := b.csr.time + 1#64, instret := b.csr.instret + 1#64 } } := by
    obtain ⟨t, rfl⟩ := h
    exact ⟨t, rfl⟩
  have hp := (hc.charge 1#32 1#32).setPrevPc a.pc
  obtain ⟨t, rfl⟩ := h
  exact hp

theorem Retimed.expand (h : Retimed a b) (k : BitVec 16) (w : Word) :
    (∃ r s s', a.expand k w = .error (r, s) ∧ b.expand k w = .error (r, s') ∧ Retimed s s') ∨
    ∃ s s' i c, a.expand k w = .ok (s, i, c) ∧ b.expand k w = .ok (s', i, c) ∧ Retimed s s' := by
  have hlatch : ∀ {s s' : Rv}, Retimed s s' → ∀ p, Retimed { s with latch.compressedPrev := p }
      { s' with latch.compressedPrev := p } := by
    rintro s s' ⟨t, rfl⟩ p
    exact ⟨t, rfl⟩
  have hc := h.charge 1#32 1#32
  have hr : Retimed
      (if a.latch.compressedPrev ≠ (compressedDecoder k w).compressed then a.cycleAdd 1#32 else a)
      (if b.latch.compressedPrev ≠ (compressedDecoder k w).compressed
        then b.cycleAdd 1#32 else b) := by
    obtain ⟨t, rfl⟩ := h
    exact Retimed.ite hc ⟨t, rfl⟩
  have hd := hlatch hr (compressedDecoder k w).compressed
  by_cases hill : (compressedDecoder k w).illegal = true
  · exact Or.inl ⟨_, _, _, if_pos hill, if_pos hill, hd.trap _ _⟩
  · exact Or.inr ⟨_, _, _, _, if_neg hill, if_neg hill, hd⟩

theorem dispatch_retimed (h : Retimed0 a b) (hm : a.mieSet = false) :
    (∃ r s s', a.dispatch cfg host = .error (r, s) ∧ b.dispatch cfg host = .error (r, s') ∧
      Retimed s s') ∨
    ∃ s s' i c, a.dispatch cfg host = .ok (s, i, c) ∧ b.dispatch cfg host = .ok (s', i, c) ∧
      Retimed s s' := by
  have hs : Retimed (a.settle cfg) (b.settle cfg) := h.settle hm
  have hf : (b.settle cfg).fetch host = (a.settle cfg).fetch host ∧
      (b.settle cfg).fetchC host = (a.settle cfg).fetchC host := by
    obtain ⟨t, ht⟩ := hs
    rw [ht]
    exact ⟨rfl, rfl⟩
  have hp := (hs.sampleIrq (settle_mieSet hm) ((a.settle cfg).fetch host)).count
  unfold dispatch prologue
  simp only
  rw [hf.1, hf.2]
  split_ifs
  · exact hp.expand _ _
  · exact Or.inr ⟨_, _, _, _, rfl, rfl, hp⟩

theorem step_retimed (h : Retimed0 a b) (hm : a.mieSet = false)
    (hc : ¬ ReadsClock cfg host a) :
    (srv32Step cfg host a).1 = (srv32Step cfg host b).1 ∧
      Retimed0 (srv32Step cfg host a).2 (srv32Step cfg host b).2 := by
  rw [srv32Step_eq, srv32Step_eq]
  have hd : _ ∨ ∃ s s' i c, a.dispatch cfg host = .ok (s, i, c) ∧ _ := dispatch_retimed h hm
  rcases hd with ⟨r, s, s', ha, hb, hs⟩ | ⟨s, s', i, c, ha, hb, hs⟩
  · rw [ha, hb]
    exact ⟨rfl, hs.clear⟩
  · have hx : Alike Retimed0 (s.exec cfg i host c) (s'.exec cfg i host c) :=
      alike_exec hs (fun hr => hc ⟨s, i, c, ha, Or.inl hr⟩) fun hr => hc ⟨s, i, c, ha, Or.inr hr⟩
    rw [ha, hb]
    simp only [execNext]
    generalize s.exec cfg i host c = f at hx ⊢
    generalize s'.exec cfg i host c = g at hx ⊢
    cases hx with
    | ret h => exact ⟨rfl, h⟩
    | brk h =>
      rename_i d d'
      refine ⟨rfl, ?_⟩
      have hl : d'.linkPc c = d.linkPc c := (Retimed.linkPc (c := c) h).symm
      change Retimed0 { d with pc := d.linkPc c } { d' with pc := d'.linkPc c }
      rw [hl]
      obtain ⟨t, ht⟩ := h
      exact ⟨t, congrArg (fun x : Rv => { x with pc := d.linkPc c }) ht⟩

/-- What two runs have in common: all but `cycle`, `mtime` and the timing options. -/
structure SameResults (a b : Rv) : Prop where
  pc : b.pc = a.pc
  regs : ∀ n, n ≠ 0#5 → b.regs n = a.regs n
  mem : b.mem = a.mem
  csr : b.csr = { a.csr with cycle := b.csr.cycle, mtime := b.csr.mtime }
  exitcode : b.exitcode = a.exitcode

theorem Retimed0.sameResults (h : Retimed0 a b) : SameResults a b := by
  obtain ⟨t, ht⟩ := h
  have hregs : ∀ s : Rv, ∀ n, n ≠ 0#5 → s.clear.regs n = s.regs n :=
    fun s n hn => Function.update_of_ne hn _ _
  have hpc := congrArg Rv.pc ht
  have hmem := congrArg Rv.mem ht
  have hcsr := congrArg Rv.csr ht
  have hexit := congrArg Rv.exitcode ht
  refine ⟨hpc, fun n hn => ?_, hmem, ?_, hexit⟩
  · rw [← hregs b n hn, ht, ← hregs a n hn]
    rfl
  · rw [show b.csr = (a.retime t).csr from hcsr]
    rfl

/-- Two runs whose options differ only in their timing, of a program that reads no clock and never
enables interrupts, return the same from every step and have the same results in every state. -/
theorem timing_independent (cfg : Config) (o : Options) (penalty : Word) (predict single : Bool)
    (mem : Int → Byte) (host : ℕ → Host)
    (hm : ∀ n, (run cfg host (reset cfg o mem) n).csr.mstatus.getLsbD bitMie = false)
    (hc : ∀ n, ¬ ReadsClock cfg (host n) (run cfg host (reset cfg o mem) n)) (n : ℕ) :
    let o' := { o with branchPenalty := penalty, branchPredict := predict, singleram := single }
    SameResults (run cfg host (reset cfg o mem) n) (run cfg host (reset cfg o' mem) n) ∧
      (result cfg host (reset cfg o mem) n).1 = (result cfg host (reset cfg o' mem) n).1 := by
  intro o'
  have hoff : ∀ n, (run cfg host (reset cfg o mem) n).mieSet = false := by
    intro n
    rw [mieSet_eq, hm n]
  have hrun : ∀ n, Retimed0 (run cfg host (reset cfg o mem) n)
      (run cfg host (reset cfg o' mem) n) := by
    intro n
    induction n with
    | zero => exact ⟨⟨_, _, _, _, _⟩, rfl⟩
    | succ n ih => exact (step_retimed ih (hoff n) (hc n)).2
  exact ⟨(hrun n).sameResults, (step_retimed (hrun n) (hoff n) (hc n)).1⟩

/-- A state about to execute `beq x0, x0, 0` at address 0, with interrupts off. -/
structure Spins (rv : Rv) : Prop where
  pc : rv.pc = 0#32
  mstatus : rv.csr.mstatus = 0#32
  mem : rv.mem = image [0x00000063#32]
  memBase : rv.memBase = 0#32
  memSize : rv.memSize = 0x1000#32

theorem Spins.dispatch (h : Spins a) : ∃ d, Spins d ∧
    a.dispatch .rv32im host = .ok (d, 0x00000063#32, false) := by
  have hm : a.mieSet = false := by
    rw [mieSet, h.mstatus]
    rfl
  have hs : a.settle .rv32im = a.fresh := by
    refine Undisturbed.settle (Or.inl hm) ?_ ?_
    · rw [InRange, h.memBase, h.memSize, h.pc]
      decide
    · rw [h.pc]
      rfl
  have hf : a.fresh.fetch host = 0x00000063#32 := by
    have hmo : a.fresh.memOk a.fresh.pc 4#32 = true := by
      change a.memOk a.pc 4#32 = true
      rw [memOk, h.memBase, h.memSize, h.pc]
      decide
    have ho : a.fresh.offset a.fresh.pc = 0 := by
      change a.offset a.pc = 0
      rw [offset, h.memBase, h.pc]
      decide
    have hmem : a.fresh.mem = image [0x00000063#32] := h.mem
    rw [fetch, readMem, if_pos hmo, ho, hmem]
    change wordOfBytes (fun i => image [0x00000063#32] (0 + i)) = _
    decide
  refine ⟨(a.fresh.sampleIrq 0x00000063#32).count,
    ⟨h.pc, h.mstatus, h.mem, h.memBase, h.memSize⟩, ?_⟩
  unfold Rv.dispatch prologue
  simp only [hs, hf]
  rfl

theorem Spins.step (h : Spins a) : Spins (srv32Step .rv32im host a).2 := by
  obtain ⟨d, hd, he⟩ : ∃ d, _ ∧ a.dispatch .rv32im host = _ := h.dispatch
  have hx : d.exec .rv32im 0x00000063#32 host false = d.branchArm true 0#32 := by
    have hb : (d.readRegs .rv32im 0#5 == d.readRegs .rv32im 0#5) = true := beq_self_eq_true _
    change d.branchArm (d.readRegs .rv32im 0#5 == d.readRegs .rv32im 0#5) 0#32 = _
    rw [hb]
  obtain ⟨n, hn⟩ : ∃ n, d.branchArm true 0#32 =
      .ret (.code rvOkay) ({ d with pc := d.pc + 0#32 }.cycleAdd n) := by
    unfold branchArm
    simp only [if_true]
    split_ifs
    · exact ⟨_, rfl⟩
    · exact ⟨0#32, by rw [cycleAdd_zero]⟩
  rw [srv32Step_eq, he]
  simp only [execNext, hx, hn]
  refine ⟨?_, hd.mstatus, hd.mem, hd.memBase, hd.memSize⟩
  change d.pc + 0#32 = 0#32
  rw [hd.pc]
  rfl

theorem Spins.run (h : Spins a) (host : ℕ → Host) (n : ℕ) :
    Spins (Iss.run .rv32im host a n) :=
  run_invariant (fun _ _ => Spins.step) h host n

theorem Spins.readsNothing (h : Spins a) : ¬ ReadsClock .rv32im host a := by
  rintro ⟨d, inst, c, he, hr⟩
  obtain ⟨d', -, he'⟩ : ∃ d, _ ∧ a.dispatch .rv32im host = _ := h.dispatch
  rw [he'] at he
  cases he
  rcases hr with hr | hr
  · exact absurd hr.1 (by decide)
  · exact absurd hr.1 (by decide)

/-- A loop of one taken branch, with a penalty of two cycles and with none. -/
theorem timing_independent_spin :
    let o : Options := ⟨2#32, false, false, false, 0#32, 0x1000#32⟩
    let mem := image [0x00000063#32]
    ∀ n, SameResults (run .rv32im (fun _ => .none) (reset .rv32im o mem) n)
      (run .rv32im (fun _ => .none) (reset .rv32im { o with branchPenalty := 0#32 } mem) n) := by
  intro o mem n
  have h0 : Spins (reset .rv32im o mem) := ⟨rfl, rfl, rfl, rfl, rfl⟩
  refine (timing_independent .rv32im o 0#32 false false mem (fun _ => .none) (fun k => ?_)
    (fun k => ?_) n).1
  · rw [(h0.run _ k).mstatus]
    rfl
  · exact (h0.run _ k).readsNothing

end Rv

end Srv32.Iss

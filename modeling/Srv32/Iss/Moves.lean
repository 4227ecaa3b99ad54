import Srv32.Iss.Run
import Srv32.Device

/-! What a step of the simulator does to its clock: it charges the cycle counter, a penalty or one
cycle at a time, and stores to the CLINT registers. -/

namespace Srv32.Iss

open Device (Reg Regs)

/-- What only a store to the CLINT changes, with the options it depends on. -/
@[ext] structure Clock where
  phase : Counter
  mtimecmp : Counter
  msip : Word
  mtimeUpdate : Bool
  singleram : Bool
  memBase : Word
  memSize : Word

/-- The state an arm of the switch leaves. -/
def Flow.state : Flow → Rv
  | .brk rv => rv
  | .ret _ rv => rv

namespace Rv

def clock (rv : Rv) : Clock where
  phase := rv.csr.mtime - rv.csr.cycle
  mtimecmp := rv.csr.mtimecmp
  msip := rv.csr.msip
  mtimeUpdate := rv.mtimeUpdate
  singleram := rv.singleram
  memBase := rv.memBase
  memSize := rv.memSize

/-- The CLINT registers. -/
def device (d : Rv) : Regs := ⟨d.csr.mtime, d.csr.mtimecmp, d.csr.msip⟩

/-- What a word store to a CLINT register leaves. -/
def storeReg (d : Rv) (r : Reg) (v : Word) : Rv :=
  match r with
  | .mtime => { d with csr.mtime := d.csr.mtime.setLo v - 1#64, mtimeUpdate := true }
  | .mtimeh => { d with csr.mtime := d.csr.mtime.setHi v - 1#64, mtimeUpdate := true }
  | .mtimecmp => { d with csr.mtimecmp := d.csr.mtimecmp.setLo v }
  | .mtimecmph => { d with csr.mtimecmp := d.csr.mtimecmp.setHi v }
  | .msip => { d with csr.msip := v }

/-- The store `inst` reaches the register `r`. -/
def StoresTo (cfg : Config) (d : Rv) (inst : Word) (r : Reg) : Prop :=
  d.storeAddress cfg inst = r.addr ∧
    ∃ n, storeBytes (func3 inst) = some n ∧ d.memOk r.addr (BitVec.ofNat 32 n) = false

/-- Neither the clock nor the cycle counter moves. -/
structure Idle (a b : Rv) : Prop where
  clock : b.clock = a.clock
  cycle : b.csr.cycle = a.csr.cycle
  branchPenalty : b.branchPenalty = a.branchPenalty

/-- From `a` to `b` the cycle counter is charged at most `k` times, with one cycle or the penalty,
and nothing is stored to the CLINT but to the registers `ok`. -/
inductive Moves (ok : Reg → Prop) : ℕ → Rv → Rv → Prop
  | idle {k : ℕ} {a b : Rv} (h : Idle a b) : Moves ok k a b
  | charge {k : ℕ} {a : Rv} {n : Word} (h : n = 1#32 ∨ n = a.branchPenalty) :
      Moves ok (k + 1) a (a.cycleAdd n)
  | store {k : ℕ} {a : Rv} {r : Reg} {v : Word} (h : ok r) : Moves ok k a (a.storeReg r v)
  | trans {k l : ℕ} {a b d : Rv} (h : Moves ok k a b) (h' : Moves ok l b d) :
      Moves ok (k + l) a d

variable {ok : Reg → Prop} {k l : ℕ} {cfg : Config} {a b d rv : Rv} {inst : Word} {host : Host}
  {c : Bool}

theorem Idle.refl (a : Rv) : Idle a a := ⟨rfl, rfl, rfl⟩

namespace Moves

theorem refl (a : Rv) : Moves ok k a a := .idle (.refl a)

theorem mono (h : Moves ok k a b) (hl : k ≤ l) : Moves ok l a b := by
  induction h generalizing l with
  | idle h => exact .idle h
  | @charge k a n h =>
    obtain ⟨j, rfl⟩ := Nat.exists_eq_add_of_le' (Nat.le_of_add_left_le hl)
    exact .charge h
  | store h => exact .store h
  | @trans k k' a b d _ _ ih ih' =>
    have hsum : l - k' + k' = l := by omega
    rw [← hsum]
    exact (ih (by omega)).trans (ih' le_rfl)

theorem andIdle (h : Moves ok k a b) (h' : Idle b d) : Moves ok k a d := h.trans (l := 0) (.idle h')

theorem branchPenalty (h : Moves ok k a b) : b.branchPenalty = a.branchPenalty := by
  induction h with
  | idle h => exact h.branchPenalty
  | charge h => rfl
  | @store k a r v h => cases r <;> rfl
  | trans _ _ ih ih' => exact ih'.trans ih

theorem penalty (h : Moves ok k a b) : Moves ok (k + 1) a (b.cycleAdd a.branchPenalty) :=
  h.trans (.charge (k := 0) (Or.inr h.branchPenalty.symm))

theorem one (h : Moves ok k a b) : Moves ok (k + 1) a (b.cycleAdd 1#32) :=
  h.trans (.charge (k := 0) (Or.inl rfl))

theorem ite {p : Prop} [Decidable p] {x y : Rv} (hx : p → Moves ok k a x)
    (hy : ¬ p → Moves ok k a y) : Moves ok k a (if p then x else y) := by
  split
  · exact hx ‹_›
  · exact hy ‹_›

end Moves

theorem moves_ramCycle : Moves ok 1 rv rv.ramCycle :=
  Moves.ite (fun _ => Moves.one (k := 0) (.refl rv)) fun _ => .refl rv

theorem idle_writeRegs (n : BitVec 5) (v : Word) : Idle rv (rv.writeRegs cfg n v) := by
  unfold writeRegs
  split
  · exact .refl rv
  · exact ⟨rfl, rfl, rfl⟩

theorem idle_pc (p : Word) : Idle rv { rv with pc := p } := ⟨rfl, rfl, rfl⟩

theorem moves_trap (cause val : Word) : Moves ok 1 rv (rv.trap cause val) := by
  unfold trap
  exact (Moves.penalty (k := 0) (.refl rv)).andIdle ⟨rfl, rfl, rfl⟩

theorem moves_int (cause : Word) (src : Nat) : Moves ok 1 rv (rv.int cause src c) := by
  have hcharge : Moves ok 1 rv
      (if rv.pc = (if c then rv.prevPc + 2#32 else rv.prevPc + 4#32) then
        rv.cycleAdd rv.branchPenalty else rv) :=
    Moves.ite (fun _ => Moves.penalty (k := 0) (.refl rv)) fun _ => .refl rv
  exact hcharge.andIdle ⟨rfl, rfl, rfl⟩

/-! The arms of the switch. -/

/-- The arm moves the clock. -/
def FlowMoves (ok : Reg → Prop) (rv : Rv) (f : Flow) : Prop := Moves ok 2 rv f.state

theorem flowMoves_ite {p : Prop} [Decidable p] {f g : Flow} (hf : p → FlowMoves ok rv f)
    (hg : ¬ p → FlowMoves ok rv g) : FlowMoves ok rv (if p then f else g) := by
  split
  · exact hf ‹_›
  · exact hg ‹_›

theorem moves_trapRet (cause val : Word) : FlowMoves ok rv (rv.trapRet cause val) :=
  (moves_trap cause val).mono (by omega)

theorem moves_write (n : BitVec 5) (v : Word) : FlowMoves ok rv (.brk (rv.writeRegs cfg n v)) :=
  .idle (idle_writeRegs n v)

theorem moves_writeRd (v : Option Word) : FlowMoves ok rv (rv.writeRd cfg inst v) := by
  cases v with
  | none => exact moves_trapRet _ _
  | some v => exact moves_write _ v

theorem moves_jump (t : Word) : FlowMoves ok rv (rv.jump cfg inst c t) := by
  unfold jump
  apply flowMoves_ite
  · intro _
    exact .idle (idle_pc _)
  · intro _
    exact Moves.penalty ((Moves.idle (k := 1) (idle_pc _)).andIdle (idle_writeRegs _ _))

theorem moves_jal : FlowMoves ok rv (rv.execJal cfg inst c) := by
  unfold execJal
  apply flowMoves_ite
  · intro _
    exact .idle ⟨rfl, rfl, rfl⟩
  · intro _
    exact moves_jump _

theorem moves_jalr : FlowMoves ok rv (rv.execJalr cfg inst c) := by
  unfold execJalr
  apply flowMoves_ite
  · intro _
    exact .idle ⟨rfl, rfl, rfl⟩
  · intro _
    exact moves_jump _

theorem moves_branchArm (taken : Bool) (off : Word) : FlowMoves ok rv (rv.branchArm taken off) := by
  unfold branchArm
  apply flowMoves_ite
  · intro _
    apply flowMoves_ite
    · intro _
      exact Moves.penalty (Moves.idle (k := 1) (idle_pc _))
    · intro _
      exact .idle (idle_pc _)
  · intro _
    exact .refl rv

theorem moves_branch : FlowMoves ok rv (rv.execBranch cfg inst) := by
  unfold execBranch
  simp only
  split_ifs <;> first | exact moves_branchArm _ _ | exact moves_trapRet _ _

theorem moves_load : FlowMoves ok rv (rv.execLoad cfg inst host) := by
  have htrap : ∀ k v, FlowMoves ok rv (rv.ramCycle.trapRet k v) := fun k v =>
    moves_ramCycle.trans (moves_trap k v)
  unfold execLoad
  simp only
  split_ifs
  · exact htrap _ _
  · exact htrap _ _
  · exact htrap _ _
  · exact (moves_ramCycle.mono (by omega)).andIdle (idle_writeRegs _ _)

theorem idle_hostRead (fd : Word) (p : Option Int) (count : Word) :
    Idle rv (rv.hostRead host fd p count) := by
  cases p with
  | none => exact .refl rv
  | some off => exact ⟨rfl, rfl, rfl⟩

theorem idle_tohost (v : Word) : Idle rv (rv.tohost host v).2 := by
  unfold tohost
  cases rv.getMemptr v with
  | none => exact .refl rv
  | some m =>
    simp only
    split_ifs
    iterate 3 exact ⟨rfl, rfl, rfl⟩
    · exact .refl rv
    · cases rv.getMemptr (rv.intAt (m + 8)) <;> exact ⟨rfl, rfl, rfl⟩
    iterate 3 exact ⟨rfl, rfl, rfl⟩
    · exact .refl rv

/-- Where `memrw` keeps the bits outside the mask, it takes all of the new word. -/
theorem storeDevice_reg (op : BitVec 3) (r : Reg) (v : Word) :
    d.storeDevice host op r.addr v =
      (.code 0#32, d.storeReg r (d.device.word r &&& ~~~storeMask op ||| v)) := by
  cases r <;> rfl

theorem moves_storeDevice (op : BitVec 3) {addr v : Word} (h : ∀ r : Reg, addr = r.addr → ok r) :
    Moves ok k rv (rv.storeDevice host op addr v).2 := by
  -- of the devices just the CLINT registers belong to the clock
  by_cases hr : ∃ r : Reg, addr = r.addr
  · obtain ⟨r, rfl⟩ := hr
    rw [storeDevice_reg]
    exact .store (h r rfl)
  · have hno : ∀ r : Reg, addr ≠ r.addr := fun r ha => hr ⟨r, ha⟩
    have h0 : addr ≠ mmioMtime := hno .mtime
    have h1 : addr ≠ mmioMtime + 4#32 := hno .mtimeh
    have h2 : addr ≠ mmioMtimecmp := hno .mtimecmp
    have h3 : addr ≠ mmioMtimecmp + 4#32 := hno .mtimecmph
    have h4 : addr ≠ mmioMsip := hno .msip
    unfold storeDevice
    simp only [if_neg h0, if_neg h1, if_neg h2, if_neg h3, if_neg h4]
    split_ifs
    · exact .refl rv
    · exact .refl rv
    · exact .idle ⟨rfl, rfl, rfl⟩
    · have hto : Idle rv (rv.tohost host v).2 := idle_tohost v
      rcases ht : rv.tohost host v with ⟨_ | r, rv'⟩ <;> rw [ht] at hto <;> exact .idle hto
    · exact .refl rv

theorem moves_memrwStore (op : BitVec 3) {addr v : Word} (h : ∀ (r : Reg) (n : ℕ), addr = r.addr →
    storeBytes op = some n → rv.memOk addr (BitVec.ofNat 32 n) = false → ok r) :
    Moves ok k rv (rv.memrwStore host op addr v).2 := by
  rw [memrwStore, storeLen_eq]
  cases hb : storeBytes op with
  | none => exact .refl rv
  | some n =>
    by_cases ha : addr.toNat % n = 0
    · simp only [if_pos ha, writeMem]
      cases hm : rv.memOk addr (BitVec.ofNat 32 n) with
      | true => exact .idle ⟨rfl, rfl, rfl⟩
      | false => exact moves_storeDevice op fun r hr => h r n hr hb hm
    · simp only [if_neg ha]
      exact .refl rv

theorem moves_store (h : ∀ r, rv.StoresTo cfg inst r → ok r) :
    FlowMoves ok rv (rv.execStore cfg inst host) := by
  unfold execStore
  simp only
  have hst : Moves ok 0 rv (rv.memrwStore host (func3 inst) (rv.storeAddress cfg inst)
      (rv.readRegs cfg (rs2 inst))).2 :=
    moves_memrwStore (func3 inst) fun r n hr hb hm => h r ⟨hr, n, hb, hr ▸ hm⟩
  rw [storeAddress] at hst
  rcases hs : rv.memrwStore host (func3 inst) (rv.readRegs cfg (rs1 inst) + immS inst)
    (rv.readRegs cfg (rs2 inst)) with ⟨r, rv'⟩
  rw [hs] at hst
  cases r with
  | code e =>
    have hram : Moves ok 1 rv rv'.ramCycle := hst.trans moves_ramCycle
    simp only
    split_ifs
    · exact hram.trans (moves_trap _ _)
    · exact hram.trans (moves_trap _ _)
    · exact hram.trans (moves_trap _ _)
    · exact hram.mono (by omega)
  | exit s => exact hst.mono (by omega)
  | segv => exact hst.mono (by omega)

theorem idle_syscall (func a0 a1 a2 : Word) :
    Idle rv (rv.syscall host func a0 a1 a2).2 := by
  simp only [syscall]
  split_ifs
  iterate 4 exact .refl rv
  · exact idle_hostRead _ _ _
  · exact .refl rv
  · cases rv.dump host (dumpAligned a0 a1) a0 a1 <;> exact .refl rv
  · cases rv.dump host true a0 a1 <;> exact .refl rv
  · exact .refl rv

theorem moves_ecall : FlowMoves ok rv (rv.execEcall cfg host) := by
  have hsys : Idle rv (rv.syscall host _ _ _ _).2 :=
    idle_syscall (rv.readRegs cfg cfg.sys) (rv.readRegs cfg regA0) (rv.readRegs cfg regA1)
      (rv.readRegs cfg regA2)
  unfold execEcall
  rcases hs : rv.syscall host (rv.readRegs cfg cfg.sys) (rv.readRegs cfg regA0)
    (rv.readRegs cfg regA1) (rv.readRegs cfg regA2) with ⟨r | res, rv'⟩
  · rw [hs] at hsys
    exact .idle hsys
  · rw [hs] at hsys
    have hsys' : Moves ok 1 rv rv' := .idle hsys
    simp only
    split_ifs
    · exact (hsys'.andIdle (idle_writeRegs _ _)).trans (moves_trap _ _)
    · exact hsys'.trans (moves_trap _ _)

theorem moves_mret : FlowMoves ok rv (rv.execMret cfg) := by
  unfold execMret
  simp only
  split_ifs <;> first | exact .idle ⟨rfl, rfl, rfl⟩ | skip
  all_goals
    refine Moves.penalty (k := 1) (.idle ?_)
    exact ⟨rfl, rfl, rfl⟩

theorem idle_setCsr {c' : Csr} (h : CsrWritten rv.csr c') : Idle rv { rv with csr := c' } := by
  obtain ⟨_, _, _, _, _, _, _, _, _, _, rfl⟩ := h
  exact ⟨rfl, rfl, rfl⟩

theorem moves_csr : FlowMoves ok rv (rv.execCsr cfg inst) := by
  unfold execCsr
  cases rv.csrOperand cfg inst with
  | none => exact moves_trapRet _ _
  | some t =>
    obtain ⟨mode, val, update⟩ := t
    have hrw : CsrAccessed rv.csr _ := rv.csr.rw_accessed (imm12 inst) mode val update
    rcases hr : rv.csr.rw (imm12 inst) mode val update with ⟨res, legal, csr⟩
    rw [hr] at hrw
    -- a number it does not know leaves the CSRs and traps
    rcases hrw with ⟨hl, hw⟩ | ⟨hl, he⟩
    · obtain rfl : legal = true := hl
      simp only [hr]
      exact (Moves.idle (idle_setCsr hw)).andIdle (idle_writeRegs _ _)
    · obtain rfl : legal = false := hl
      obtain rfl : csr = rv.csr := he
      simp only [hr]
      exact moves_trapRet _ _

theorem moves_system : FlowMoves ok rv (rv.execSystem cfg inst host) := by
  unfold execSystem execEnv
  simp only
  split_ifs
  · exact moves_ecall
  · exact moves_trapRet _ _
  · exact moves_mret
  · exact moves_trapRet _ _
  · exact moves_csr

theorem moves_exec
    (h : opcode inst = opStore → ∀ r, rv.StoresTo cfg inst r → ok r) :
    FlowMoves ok rv (rv.exec cfg inst host c) := by
  unfold exec
  -- the arms in the order of the source; FENCE is the one that does nothing
  refine flowMoves_ite (fun _ => moves_write _ _) fun _ => ?_
  refine flowMoves_ite (fun _ => moves_write _ _) fun _ => ?_
  refine flowMoves_ite (fun _ => moves_jal) fun _ => ?_
  refine flowMoves_ite (fun _ => moves_jalr) fun _ => ?_
  refine flowMoves_ite (fun _ => moves_branch) fun _ => ?_
  refine flowMoves_ite (fun _ => moves_load) fun _ => ?_
  refine flowMoves_ite (fun ho => moves_store (h ho)) fun _ => ?_
  refine flowMoves_ite (fun _ => moves_writeRd _) fun _ => ?_
  refine flowMoves_ite (fun _ => moves_writeRd _) fun _ => ?_
  refine flowMoves_ite (fun _ => Moves.refl rv) fun _ => ?_
  exact flowMoves_ite (fun _ => moves_system) fun _ => moves_trapRet _ _

theorem moves_execNext
    (h : opcode inst = opStore → ∀ r, rv.StoresTo cfg inst r → ok r) :
    Moves ok 2 rv (rv.execNext cfg inst host c).2 := by
  have hexec : FlowMoves ok rv (rv.exec cfg inst host c) := moves_exec h
  unfold execNext
  cases hf : rv.exec cfg inst host c with
  | brk rv' =>
    rw [hf] at hexec
    exact Moves.andIdle hexec (idle_pc _)
  | ret r rv' =>
    rw [hf] at hexec
    exact hexec

/-! The head of the step. -/

theorem moves_enterInts : Moves ok 3 rv rv.enterInts := by
  have hint : ∀ (s : Rv) (b : Prop) [Decidable b] (cause : Word) (src : Nat),
      Moves ok 1 s (if b then s.int cause src false else s) :=
    fun s b _ cause src => Moves.ite (fun _ => moves_int cause src) fun _ => .refl s
  -- the three sources are tested one after the other, each in what the one before left
  exact ((hint rv _ _ _).trans (hint _ _ _ _)).trans (hint _ _ _ _)

theorem moves_checkPc : Moves ok 2 rv (rv.checkPc cfg) := by
  have htrap : ∀ (s : Rv) (b : Prop) [Decidable b] (cause val : Word),
      Moves ok 1 s (if b then s.trap cause val else s) :=
    fun s b _ cause val => Moves.ite (fun _ => moves_trap cause val) fun _ => .refl s
  -- the alignment test looks at the pc the range test left
  exact (htrap rv _ _ _).trans (htrap _ _ _ _)

/-- The step clears `mtime_update`, charges what precedes the fetch, and counts one cycle. -/
theorem moves_prologue (cfg : Config) (host : Host) (rv : Rv) :
    ∃ s, Moves ok 5 { rv with mtimeUpdate := false } s ∧
      Idle (s.cycleAdd 1#32) (rv.prologue cfg host).1 := by
  have hhead : Moves ok 5 { rv with mtimeUpdate := false } (rv.settle cfg) :=
    ((Moves.idle (k := 0) (idle_writeRegs _ _)).trans moves_enterInts).trans moves_checkPc
  exact ⟨rv.settle cfg, hhead, rfl, rfl, rfl⟩

/-- After that a compressed instruction may cost one cycle more, and an illegal one traps. -/
theorem moves_dispatch (cfg : Config) (host : Host) (rv : Rv) :
    ∃ s, Moves ok 5 { rv with mtimeUpdate := false } s ∧
      match rv.dispatch cfg host with
      | .error r => Moves ok 2 (s.cycleAdd 1#32) r.2
      | .ok t => Moves ok 1 (s.cycleAdd 1#32) t.1 := by
  obtain ⟨s, hs, hidle⟩ := moves_prologue cfg host rv
  refine ⟨s, hs, ?_⟩
  rw [dispatch]
  simp only
  generalize (rv.prologue cfg host).1 = e at hidle
  -- one cycle more when the length is not that of the instruction before
  have hcharge : ∀ q : Bool, Moves ok 1 (s.cycleAdd 1#32)
      (if e.latch.compressedPrev ≠ q then e.cycleAdd 1#32 else e) := fun q =>
    Moves.ite (fun _ => Moves.one (k := 0) (.idle hidle)) fun _ => .idle hidle
  by_cases hc : cfg.rv32c = true
  · rw [if_pos hc, expand]
    generalize compressedDecoder _ _ = i
    simp only
    have hlen := hcharge i.compressed
    generalize (if e.latch.compressedPrev ≠ i.compressed then e.cycleAdd 1#32 else e) = f at hlen ⊢
    split_ifs
    · have hcut : Moves ok 1 (s.cycleAdd 1#32) { f with latch.compressedPrev := i.compressed } :=
        hlen.andIdle ⟨rfl, rfl, rfl⟩
      exact hcut.trans (moves_trap _ _)
    · exact hlen.andIdle ⟨rfl, rfl, rfl⟩
  · rw [if_neg hc]
    exact .idle hidle

theorem moves_step (cfg : Config) (host : Host) (rv : Rv)
    (h : ∀ d inst c, rv.dispatch cfg host = .ok (d, inst, c) → opcode inst = opStore →
      ∀ r, d.StoresTo cfg inst r → ok r) :
    ∃ s, Moves ok 5 { rv with mtimeUpdate := false } s ∧
      Moves ok 3 (s.cycleAdd 1#32) (srv32Step cfg host rv).2 := by
  obtain ⟨s, hs, hd⟩ := moves_dispatch cfg host rv
  refine ⟨s, hs, ?_⟩
  rw [srv32Step_eq]
  rcases hdis : rv.dispatch cfg host with r | ⟨d, inst, c⟩ <;> rw [hdis] at hd
  · exact hd.mono (by omega)
  · exact hd.trans (moves_execNext (h d inst c hdis))

end Rv

end Srv32.Iss

import Srv32.Iss.Jump

/-! Return from an interrupt. A handler runs with MIE clear, so nothing but its own CSR
instructions, or a trap, touches what the entry has put into the trap CSRs; its MRET undoes the
entry. -/

namespace Srv32.Iss.Rv

variable {cfg : Config} {rv d s : Rv} {inst : Word} {host : Host} {c : Bool} {n : BitVec 12}

/-- The CSRs that hold the state of the interrupted program. -/
def trapCsrs : List (BitVec 12) := [csrMstatus, csrMepc, csrMcause, csrMtval, csrMip]

structure Held (a b : Csr) : Prop where
  mstatus : b.mstatus = a.mstatus
  mepc : b.mepc = a.mepc
  mcause : b.mcause = a.mcause
  mtval : b.mtval = a.mtval
  mip : b.mip = a.mip

/-- The word is a CSR instruction that writes CSR `n`. -/
def WritesCsr (cfg : Config) (d : Rv) (inst : Word) (n : BitVec 12) : Prop :=
  isCsrWord inst ∧ imm12 inst = n ∧ ∃ mode val, d.csrOperand cfg inst = some (mode, val, true)

/-- The step takes no synchronous trap, neither for the pc nor for the instruction, and writes none
of the trap CSRs. -/
structure Quiet (cfg : Config) (host : Host) (rv : Rv) : Prop where
  checks : rv.InRange rv.startPc ∧ PcAligned cfg rv.startPc
  noTrap : (srv32Step cfg host rv).1 ≠ .code rvTrap
  csrs : ∀ d inst c, rv.dispatch cfg host = .ok (d, inst, c) →
    ∀ n ∈ trapCsrs, ¬ WritesCsr cfg d inst n

def ExecutesMret (cfg : Config) (host : Host) (rv : Rv) : Prop :=
  ∃ d inst c, rv.dispatch cfg host = .ok (d, inst, c) ∧ reachesMret inst

theorem Held.refl (a : Csr) : Held a a := ⟨rfl, rfl, rfl, rfl, rfl⟩

theorem Held.trans {a b e : Csr} (h : Held a b) (h' : Held b e) : Held a e :=
  ⟨h'.mstatus.trans h.mstatus, h'.mepc.trans h.mepc, h'.mcause.trans h.mcause,
    h'.mtval.trans h.mtval, h'.mip.trans h.mip⟩

/-! One instruction. -/

theorem held_works {a b : Rv} (h : Works a b) : Held a.csr b.csr := by
  obtain ⟨_, _, _, _, _, _, _, _, _, _, rfl⟩ := h
  exact ⟨rfl, rfl, rfl, rfl, rfl⟩

/-- `csr_rw` with a number that is not one of theirs, or without an update. -/
theorem held_rw (a : Csr) (mode : BitVec 3) (val : Word) (update : Bool)
    (h : update = true → n ∉ trapCsrs) : Held a (a.rw n mode val update).2.2 := by
  have hoff : n ∈ trapCsrs → update = false := by
    intro hn
    rw [← Bool.not_eq_true]
    exact fun hu => h hu hn
  unfold Csr.rw
  iterate 18
    refine iteInduction (motive := fun r : Word × Bool × Csr => Held a r.2.2) (fun hn => ?_)
      fun _ => ?_
    · -- the registers of the list keep their value by `hoff`, the others are not compared
      first
        | exact ⟨rfl, rfl, rfl, rfl, rfl⟩
        | rw [hoff (by rw [hn]; decide)]
          exact ⟨rfl, rfl, rfl, rfl, rfl⟩
  exact Held.refl a

theorem held_execCsr (hi : isCsrWord inst) (hw : ∀ n ∈ trapCsrs, ¬ WritesCsr cfg d inst n)
    (ht : (d.execNext cfg inst host c).1 ≠ .code rvTrap) :
    Held d.csr (d.execNext cfg inst host c).2.csr := by
  have hx : d.exec cfg inst host c = d.execCsr cfg inst := by
    simp [exec, hi.1, execSystem, hi.2]
  unfold execNext at ht ⊢
  rw [hx, execCsr] at ht ⊢
  cases ho : d.csrOperand cfg inst with
  | none =>
    rw [ho] at ht
    exact absurd rfl ht
  | some t =>
    obtain ⟨mode, val, update⟩ := t
    rw [ho] at ht
    have hheld := held_rw (n := imm12 inst) d.csr mode val update fun hu hn => by
      subst hu
      exact hw _ hn ⟨hi, rfl, mode, val, ho⟩
    rcases hr : d.csr.rw (imm12 inst) mode val update with ⟨res, legal, csr⟩
    rw [hr] at hheld
    cases legal with
    | false =>
      simp only [hr] at ht
      exact absurd rfl ht
    | true =>
      simp only [hr, writeRegs_csr]
      exact hheld

theorem held_execNext (hm : ¬ reachesMret inst) (hw : ∀ n ∈ trapCsrs, ¬ WritesCsr cfg d inst n)
    (ht : (d.execNext cfg inst host c).1 ≠ .code rvTrap) :
    Held d.csr (d.execNext cfg inst host c).2.csr := by
  by_cases hi : isCsrWord inst
  · exact held_execCsr hi hw ht
  · have ho := exec_outcome cfg d inst host c
    unfold execNext at ht ⊢
    generalize d.exec cfg inst host c = f at ht ho ⊢
    cases ho with
    | next hworks hp =>
      have h := held_works hworks
      exact h
    | leave hworks hr => exact held_works hworks
    | trap hc hcause => exact absurd rfl ht
    | ecall hworks he => exact absurd rfl ht
    | mret hworks hmret => exact absurd hmret hm
    | csr hc hcsr => exact absurd hcsr hi

/-- What comes to the switch still has the CSRs of the settled state. -/
theorem held_dispatch (hd : rv.dispatch cfg host = .ok (d, inst, c)) :
    Held (rv.settle cfg).csr d.csr := by
  rcases dispatch_cases cfg host rv with ⟨d', i', c', hd', hr⟩ | ⟨d', val, hd', -⟩
  · rw [hd] at hd'
    cases hd'
    obtain ⟨_, _, _, _, _, rfl⟩ := hr.state
    exact ⟨rfl, rfl, rfl, rfl, rfl⟩
  · rw [hd] at hd'
    cases hd'

theorem Quiet.dispatch (h : Quiet cfg host rv) :
    ∃ d inst c, rv.dispatch cfg host = .ok (d, inst, c) := by
  have hstep := srv32Step_eq cfg host rv
  rcases dispatch_cases cfg host rv with ⟨d, inst, c, hd, -⟩ | ⟨d, val, hd, -⟩
  · exact ⟨d, inst, c, hd⟩
  · rw [hd] at hstep
    exact absurd (congrArg Prod.fst hstep) h.noTrap

/-- From the settled state on, a step of the handler other than its MRET holds them. -/
theorem Quiet.held (h : Quiet cfg host rv) (hm : ¬ ExecutesMret cfg host rv) :
    Held (rv.settle cfg).csr (srv32Step cfg host rv).2.csr := by
  obtain ⟨d, inst, c, hd⟩ := h.dispatch
  have hstep : srv32Step cfg host rv = d.execNext cfg inst host c := by
    rw [srv32Step_eq, hd]
  have ht := h.noTrap
  rw [hstep] at ht ⊢
  exact (held_dispatch hd).trans
    (held_execNext (fun hr => hm ⟨d, inst, c, hd, hr⟩) (h.csrs d inst c hd) ht)

/-! The head of the step. -/

/-- Without a trap for the pc the settled state is that after the entry. -/
theorem Quiet.settle (h : Quiet cfg host rv) : rv.settle cfg = (rv.head cfg).enterInts := by
  obtain ⟨hpc, hmap, -⟩ := entered cfg rv
  have hr : (rv.head cfg).enterInts.InRange (rv.head cfg).enterInts.pc := by
    rw [hpc, hmap.inRange]
    exact h.checks.1
  have ha : PcAligned cfg (rv.head cfg).enterInts.pc := by
    rw [hpc]
    exact h.checks.2
  exact checkPc_good hr ha

/-- With MIE clear no interrupt is entered, and the trap CSRs are those the step came with. -/
theorem Quiet.held_settle (h : Quiet cfg host rv) (hoff : rv.mieSet = false) :
    rv.entries cfg = [] ∧ Held rv.csr (rv.settle cfg).csr := by
  have hm : (rv.head cfg).mieSet = false := (head_mieSet cfg rv).trans hoff
  refine ⟨entriesOf_off hm, ?_⟩
  rw [h.settle, enterInts_off hm, head_csr]
  exact Held.refl _

/-- The step that enters an interrupt settles in the state after the entry. -/
theorem Quiet.settle_entry (h : Quiet cfg host rv) {e : Entry} (he : e ∈ rv.entries cfg) :
    rv.settle cfg = e.after := by
  have hent := enterAll_eq sources (rv.head cfg)
  change (rv.head cfg).enterInts = ((rv.entries cfg).getLast?.map Entry.after).getD _ at hent
  rw [h.settle, hent, entries_eq_of_mem he]
  rfl

/-! The run of the handler. -/

/-- Up to the MRET at step `N`, each step settles with the CSRs of the entry, and enters no further
interrupt. -/
theorem handler_held {host : ℕ → Host} {N : ℕ} {e : Entry} (he : e ∈ rv.entries cfg)
    (hq : ∀ k ≤ N, Quiet cfg (host k) (run cfg host rv k))
    (hm : ∀ k < N, ¬ ExecutesMret cfg (host k) (run cfg host rv k)) (k : ℕ) (hk : k ≤ N) :
    Held e.after.csr ((run cfg host rv k).settle cfg).csr ∧
      (0 < k → (run cfg host rv k).entries cfg = []) := by
  induction k with
  | zero =>
    have h := (hq 0 hk).settle_entry he
    exact ⟨h ▸ Held.refl _, fun h0 => absurd h0 (Nat.lt_irrefl 0)⟩
  | succ k ih =>
    have hlt : k < N := hk
    obtain ⟨hheld, -⟩ := ih hlt.le
    have hnext : Held e.after.csr (run cfg host rv (k + 1)).csr :=
      hheld.trans ((hq k hlt.le).held (hm k hlt))
    have hoff : (run cfg host rv (k + 1)).mieSet = false := by
      rw [mieSet, hnext.mstatus]
      exact mieSet_after e.source
    obtain ⟨hnone, hsettle⟩ := (hq (k + 1) hk).held_settle hoff
    exact ⟨hnext.trans hsettle, fun _ => hnone⟩

theorem execNext_mret (hi : reachesMret inst) (hp : d.csr.mstatus.getLsbD bitMpie = true) :
    (d.execNext cfg inst host c).2.pc = d.csr.mepc ∧
      (d.execNext cfg inst host c).2.csr.mstatus = d.csr.mstatus ||| 1#32 <<< bitMie := by
  have hx : d.exec cfg inst host c = d.execMret cfg := by
    simp [exec, hi.1, execSystem, hi.2.1, execEnv, hi.2.2]
  have hmpie : d.csr.mstatus &&& 1#32 <<< bitMpie ≠ 0#32 :=
    (Bits.and_bit_ne_zero _ (by decide)).mpr hp
  rw [execNext, hx, execMret]
  simp only [if_pos hmpie]
  split_ifs <;> exact ⟨rfl, rfl⟩

/-- From the entry of an interrupt, in the step from `rv`, to the MRET of its handler in step `N`:
nothing else is entered, the CSRs stand as the entry left them, and the interrupted program
continues at its pc with interrupts on. -/
structure Returns (cfg : Config) (host : ℕ → Host) (rv : Rv) (e : Entry) (N : ℕ) : Prop where
  alone : ∀ k, 0 < k → k ≤ N → (run cfg host rv k).entries cfg = []
  held : ∀ k ≤ N, Held e.after.csr ((run cfg host rv k).settle cfg).csr
  pc : (run cfg host rv (N + 1)).pc = rv.pc
  mie : (run cfg host rv (N + 1)).csr.mstatus.getLsbD bitMie = true
  mstatus : ∀ i, i ≠ bitMie → i ≠ bitMpie →
    (run cfg host rv (N + 1)).csr.mstatus.getLsbD i = rv.csr.mstatus.getLsbD i

/-- An interrupt returns: from any state whose step enters one, through any handler that takes no
synchronous trap, does not write the trap CSRs and ends with its first MRET. -/
theorem interrupt_returns (cfg : Config) (host : ℕ → Host) (rv : Rv) (e : Entry) (N : ℕ)
    (he : e ∈ rv.entries cfg) (hq : ∀ k ≤ N, Quiet cfg (host k) (run cfg host rv k))
    (hm : ∀ k < N, ¬ ExecutesMret cfg (host k) (run cfg host rv k))
    (hend : ExecutesMret cfg (host N) (run cfg host rv N)) : Returns cfg host rv e N := by
  have hheld := handler_held he hq hm
  obtain ⟨d, inst, c, hd, hi⟩ := hend
  have hatMret : Held e.after.csr d.csr := (hheld N (Nat.le_refl N)).1.trans (held_dispatch hd)
  -- what the entry has stored
  obtain ⟨hb, -, -, hon⟩ := mem_entriesOf he
  have hcsr : e.before.csr = rv.csr := by
    rw [hb]
    exact writeRegs_csr _ _
  have hmepc : d.csr.mepc = rv.pc := hatMret.mepc.trans (entry_mepc he)
  have hmstatus : d.csr.mstatus = pushMie rv.csr.mstatus := by
    rw [hatMret.mstatus, Entry.after, int_mstatus, hcsr]
  have hmie : rv.csr.mstatus.getLsbD bitMie = true := by
    have h : (rv.head cfg).mieSet = true := hon
    rwa [head_mieSet, mieSet_eq] at h
  obtain ⟨hpc, hstatus⟩ : (d.execNext cfg inst (host N) c).2.pc = d.csr.mepc ∧ _ :=
    execNext_mret hi (by rw [hmstatus, pushMie_mpie, hmie])
  have hrun : run cfg host rv (N + 1) = (d.execNext cfg inst (host N) c).2 := by
    change (srv32Step cfg (host N) (run cfg host rv N)).2 = _
    rw [srv32Step_eq, hd]
  constructor
  · intro k h0 hk
    exact (hheld k hk).2 h0
  · intro k hk
    exact (hheld k hk).1
  · rw [hrun, hpc, hmepc]
  · rw [hrun, hstatus, BitVec.getLsbD_or]
    simp
  · intro i h3 h7
    rw [hrun, hstatus, BitVec.getLsbD_or, Bits.getLsbD_one_shiftLeft h3, Bool.or_false, hmstatus,
      pushMie_bit _ h3 h7]

/-! Without compressed instructions both conditions are about the word fetched. -/

theorem quiet_rv32im (hc : rv.InRange rv.startPc ∧ PcAligned .rv32im rv.startPc)
    (ht : (srv32Step .rv32im host rv).1 ≠ .code rvTrap)
    (hw : ¬ isCsrWord (rv.prologue .rv32im host).2) : Quiet .rv32im host rv := by
  refine ⟨hc, ht, fun d inst c hd n hn h => hw ?_⟩
  rw [dispatch_rv32im] at hd
  cases hd
  exact h.1

theorem executesMret_rv32im :
    ExecutesMret .rv32im host rv ↔ reachesMret (rv.prologue .rv32im host).2 := by
  constructor
  · rintro ⟨d, inst, c, hd, hi⟩
    rw [dispatch_rv32im] at hd
    cases hd
    exact hi
  · intro h
    exact ⟨_, _, _, dispatch_rv32im rv host, h⟩

/-- At 8, with the timer interrupt latched, and the handler `nop; mret` at 0. -/
def atEntry : Rv :=
  { Rv.boot .rv32im 1 (image [0x00000013#32, 0x30200073#32]) with
    pc := 8#32
    csr := { (Rv.boot .rv32im 1 (image [])).csr with mstatus := 8#32 }
    latch := { (Rv.boot .rv32im 1 (image [])).latch with timerIrq := true } }

/-- The second step of the handler returns. -/
theorem interrupt_returns_timer :
    Returns .rv32im (fun _ => .none) atEntry
      ⟨⟨intMtime, bitMtip, bitMtie, Latch.timerIrq⟩, atEntry.head .rv32im⟩ 1 := by
  have hchecks : ∀ k ≤ 1, (run .rv32im (fun _ => .none) atEntry k).InRange
      (run .rv32im (fun _ => .none) atEntry k).startPc ∧
      PcAligned .rv32im (run .rv32im (fun _ => .none) atEntry k).startPc := by decide +kernel
  have htrap : ∀ k ≤ 1, (srv32Step .rv32im .none (run .rv32im (fun _ => .none) atEntry k)).1 ≠
      .code rvTrap := by decide +kernel
  have hcsr : ∀ k ≤ 1, ¬ isCsrWord
      ((run .rv32im (fun _ => .none) atEntry k).prologue .rv32im .none).2 := by decide +kernel
  have hmret : ∀ k < 1, ¬ reachesMret
      ((run .rv32im (fun _ => .none) atEntry k).prologue .rv32im .none).2 := by decide +kernel
  refine interrupt_returns .rv32im (fun _ => .none) atEntry _ 1 ?_ ?_ ?_ ?_
  · rw [entries, sources, entriesOf, if_pos (by decide +kernel)]
    exact List.mem_cons_self
  · intro k hk
    exact quiet_rv32im (hchecks k hk) (htrap k hk) (hcsr k hk)
  · intro k hk
    rw [executesMret_rv32im]
    exact hmret k hk
  · rw [executesMret_rv32im]
    decide +kernel

end Srv32.Iss.Rv

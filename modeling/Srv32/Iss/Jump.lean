import Srv32.Iss.Fetch

/-! Jumps to misaligned targets, without RV32C. The step after the jump finds the misalignment and
charges it to the jump by `prev_pc`, unless it enters an interrupt first: that stores the target
in `mepc`. -/

namespace Srv32.Iss.Rv

variable {cfg : Config} {rv d : Rv} {inst t v : Word} {host : Host} {c : Bool}

/-- The condition of a branch. -/
def branchHolds (cfg : Config) (d : Rv) (inst : Word) : Bool :=
  let a := d.readRegs cfg (rs1 inst)
  let b := d.readRegs cfg (rs2 inst)
  if func3 inst = opBeq then a == b
  else if func3 inst = opBne then a != b
  else if func3 inst = opBlt then a.slt b
  else if func3 inst = opBge then b.sle a
  else if func3 inst = opBltu then a.ult b
  else if func3 inst = opBgeu then b.ule a
  else false

/-- Where JAL, JALR and a taken branch go. -/
def jumpTarget (cfg : Config) (d : Rv) (inst : Word) : Option Word :=
  if opcode inst = opJal then some ((d.pc + immJ inst) &&& ~~~1#32)
  else if opcode inst = opJalr then
    some ((d.readRegs cfg (rs1 inst) + immI inst) &&& ~~~1#32)
  else if opcode inst = opBranch ∧ d.branchHolds cfg inst then some (d.pc + immB inst)
  else none

/-- From the switch at the jump: its step leaves only the pc, and the next one, whose result at the
switch this is, has taken the exception for it before it fetches. -/
structure ChargedToJump (cfg : Config) (d : Rv) (t : Word) (r : Ret × Rv) : Prop where
  okay : r.1 = .code rvOkay
  regs : r.2.regs = d.regs
  mcause : (r.2.settle cfg).csr.mcause = trapInstAlign
  mepc : (r.2.settle cfg).csr.mepc = d.pc
  mtval : (r.2.settle cfg).csr.mtval = t
  pc : (r.2.settle cfg).pc = vectorOf d.csr.mtvec trapInstAlign
  kept : ∀ n, n ≠ 0#5 → (r.2.settle cfg).regs n = d.regs n

/-- What `srv32_int` and `srv32_trap` store in `mepc` in the step from `rv`: the checks of the pc
trap with one value. -/
inductive MepcStore (cfg : Config) (host : Host) (rv : Rv) : Word → Prop where
  | int {e : Entry} (h : e ∈ rv.entries cfg) : MepcStore cfg host rv e.after.csr.mepc
  | check (h : ¬ (rv.InRange rv.startPc ∧ PcAligned cfg rv.startPc)) :
      MepcStore cfg host rv (rv.settle cfg).csr.mepc
  | trap (h : (srv32Step cfg host rv).1 = .code rvTrap) :
      MepcStore cfg host rv (srv32Step cfg host rv).2.csr.mepc

/-- The step enters no interrupt at a misaligned pc, and has aligned vectors when it needs one for
a check of the pc. -/
structure Calm (cfg : Config) (rv : Rv) : Prop where
  entry : ¬ PcAligned cfg rv.pc → rv.Undisturbed
  vector : ¬ (rv.InRange rv.startPc ∧ PcAligned cfg rv.startPc) → rv.csr.mtvec.getLsbD 1 = false

instance (cfg : Config) (rv : Rv) : Decidable (Calm cfg rv) :=
  decidable_of_iff ((¬ PcAligned cfg rv.pc → rv.Undisturbed) ∧
      (¬ (rv.InRange rv.startPc ∧ PcAligned cfg rv.startPc) → rv.csr.mtvec.getLsbD 1 = false))
    ⟨fun h => ⟨h.1, h.2⟩, fun h => ⟨h.1, h.2⟩⟩

theorem pcAligned_iff (hc : cfg.rv32c = false) (p : Word) :
    PcAligned cfg p ↔ p.toNat % 4 = 0 := by
  rw [PcAligned, hc, if_neg (by simp), Bits.and_three_eq_zero]

/-! The jump. -/

theorem execBranch_taken (ho : opcode inst = opBranch) (hb : d.branchHolds cfg inst = true) :
    d.exec cfg inst host c = d.branchArm true (immB inst) := by
  have hx : d.exec cfg inst host c = d.execBranch cfg inst := by simp [exec, ho]
  rw [hx, execBranch]
  simp only [branchHolds] at hb
  split_ifs at hb ⊢ <;> rw [hb]

theorem jump_misaligned (hc : cfg.rv32c = false) (ht : ¬ PcAligned cfg (t &&& ~~~1#32)) :
    d.jump cfg inst c t = .ret (.code rvOkay) { d with pc := t &&& ~~~1#32 } := by
  rw [pcAligned_iff hc, ← Bits.and_three_eq_zero] at ht
  rw [jump]
  exact if_pos ⟨by rw [hc]; rfl, ht⟩

/-- A misaligned target ends the arm before `rd` is written. -/
theorem exec_jump_misaligned (hc : cfg.rv32c = false) (ha : PcAligned cfg d.pc)
    (hj : d.jumpTarget cfg inst = some t) (ht : ¬ PcAligned cfg t) :
    d.exec cfg inst host c = .ret (.code rvOkay) { d with pc := t } := by
  -- a jump to itself ends the program, but its target is aligned
  have hself : d.pc &&& ~~~1#32 ≠ t := by
    intro h
    apply ht
    rw [pcAligned_iff hc] at ha ⊢
    rw [← h, Bits.toNat_clearBit0]
    omega
  rw [jumpTarget] at hj
  split_ifs at hj with h1 h2 h3
  · obtain rfl := Option.some.inj hj
    have hoff : immJ inst ≠ 0#32 := by
      intro h0
      apply hself
      rw [h0, BitVec.add_zero]
    have hx : d.exec cfg inst host c = d.execJal cfg inst c := by simp [exec, h1]
    rw [hx, execJal, if_neg hoff]
    exact jump_misaligned hc ht
  · obtain rfl := Option.some.inj hj
    have hne : d.readRegs cfg (rs1 inst) + immI inst ≠ d.pc := by
      intro h0
      apply hself
      rw [h0]
    have hx : d.exec cfg inst host c = d.execJalr cfg inst c := by simp [exec, h2]
    rw [hx, execJalr, if_neg hne]
    exact jump_misaligned hc ht
  · obtain rfl := Option.some.inj hj
    have ht3 : d.pc + immB inst &&& 3#32 ≠ 0#32 := by
      rw [ne_eq, Bits.and_three_eq_zero, ← pcAligned_iff hc]
      exact ht
    rw [execBranch_taken h3.1 h3.2, branchArm]
    simp [ht3]

/-! The state a step leaves. -/

theorem Works.prevPc {a b : Rv} (h : Works a b) : b.prevPc = a.prevPc := by
  obtain ⟨_, _, _, _, _, _, _, _, _, _, rfl⟩ := h
  rfl

theorem Ready.prevPc {s : Rv} (h : Ready host s d inst) : d.prevPc = s.pc ∧ d.pc = s.pc := by
  obtain ⟨_, _, _, _, _, rfl⟩ := h.state
  exact ⟨rfl, rfl⟩

/-- A step leaves the pc it fetched from in `prev_pc`, and in `mepc` if it traps. -/
theorem step_prevPc (cfg : Config) (host : Host) (rv : Rv) :
    (srv32Step cfg host rv).2.prevPc = (rv.settle cfg).pc ∧
      ((srv32Step cfg host rv).1 = .code rvTrap →
        (srv32Step cfg host rv).2.csr.mepc = (rv.settle cfg).pc) := by
  have hstep := srv32Step_eq cfg host rv
  rcases dispatch_cases cfg host rv with ⟨d, inst, c, hd, hr⟩ | ⟨d, val, hd, hr⟩
  · rw [hd] at hstep
    simp only [execNext] at hstep
    have ho := exec_outcome cfg d inst host c
    generalize d.exec cfg inst host c = f at hstep ho
    rw [hstep, ← hr.prevPc.1]
    cases ho with
    | next hw hp => exact ⟨hw.prevPc, fun h => absurd h (by simp)⟩
    | leave hw hne => exact ⟨hw.prevPc, fun h => absurd h hne⟩
    | trap hc hcause => exact ⟨hc.works.prevPc, fun _ => hc.works.prevPc⟩
    | ecall hw hi => exact ⟨hw.prevPc, fun _ => hw.prevPc⟩
    | mret hw hi => exact ⟨hw.prevPc, fun h => absurd h (by simp)⟩
    | csr hc hi => exact ⟨(works_writeRegs _ _).prevPc, fun h => absurd h (by simp)⟩
  · rw [hd] at hstep
    rw [hstep, ← hr.prevPc.1]
    exact ⟨rfl, fun _ => rfl⟩

theorem dispatch_prevPc (hd : rv.dispatch cfg host = .ok (d, inst, c)) : d.prevPc = d.pc := by
  rcases dispatch_cases cfg host rv with ⟨d', i', c', hd', hr⟩ | ⟨d', val, hd', -⟩
  · obtain ⟨rfl, -⟩ : d = d' ∧ inst = i' := by
      rw [hd] at hd'
      cases hd'
      exact ⟨rfl, rfl⟩
    rw [hr.prevPc.1, hr.prevPc.2]
  · rw [hd] at hd'
    cases hd'

/-- A check of the pc that fails stores `prev_pc`. -/
theorem settle_check (h : ¬ (rv.InRange rv.startPc ∧ PcAligned cfg rv.startPc)) :
    (rv.settle cfg).csr.mepc = rv.prevPc := by
  obtain ⟨hpc, hmap, hprev⟩ := entered cfg rv
  change ((rv.head cfg).enterInts.checkPc cfg).csr.mepc = rv.prevPc
  rw [← hpc, ← hmap.inRange] at h
  rw [← hprev]
  by_cases hr : (rv.head cfg).enterInts.InRange (rv.head cfg).enterInts.pc
  · rw [checkPc_align hr fun ha => h ⟨hr, ha⟩]
    rfl
  · rw [checkPc_range hr]
    split_ifs <;> rfl

/-! Interrupts at the target. -/

theorem entries_of_undisturbed (h : rv.Undisturbed) : rv.entries cfg = [] := by
  rcases h with hoff | ⟨ht, hs, he⟩
  · exact entriesOf_off ((head_mieSet cfg rv).trans hoff)
  · simp [entries, sources, entriesOf, ht, hs, he]

/-- An interrupt entered stores the pc the step came with. -/
theorem entry_mepc {e : Entry} (h : e ∈ rv.entries cfg) : e.after.csr.mepc = rv.pc := by
  obtain ⟨hb, -, -, -⟩ := mem_entriesOf h
  obtain ⟨i, s⟩ := e
  obtain rfl : s = _ := hb
  rw [Entry.after, int_eq]
  exact writeRegs_pc _ _

/-- One that is latched with MIE set is entered. -/
theorem mepcStore_pc (h : ¬ rv.Undisturbed) : MepcStore cfg host rv rv.pc := by
  have hne : rv.entries cfg ≠ [] := by
    intro hnil
    apply h
    rw [Undisturbed]
    change entriesOf sources (rv.head cfg) = [] at hnil
    simp only [sources, entriesOf, head_mieSet, head_latch] at hnil
    split_ifs at hnil with h1 h2 h3
    cases hon : rv.mieSet with
    | false => exact Or.inl rfl
    | true => simp_all
  obtain ⟨e, he⟩ := List.exists_mem_of_ne_nil _ hne
  rw [← entry_mepc he]
  exact .int he

/-! Runs. -/

/-- A calm step from an aligned `prev_pc` leaves an aligned `prev_pc`, and stores only aligned
values in `mepc`. -/
theorem calm_step (h : Calm cfg rv) (hp : PcAligned cfg rv.prevPc) :
    PcAligned cfg (srv32Step cfg host rv).2.prevPc ∧
      ∀ v, MepcStore cfg host rv v → PcAligned cfg v := by
  obtain ⟨hprev, htrap⟩ := step_prevPc cfg host rv
  have hpc : PcAligned cfg (rv.settle cfg).pc := by
    rw [settle_pc]
    by_cases hg : rv.InRange rv.startPc ∧ PcAligned cfg rv.startPc
    · simp [hg]
    · have hv : ∀ off, PcAligned cfg (vectorOf rv.csr.mtvec off) := by
        intro off
        rw [pcAligned_vectorOf]
        exact Or.inr (h.vector hg)
      by_cases hr : rv.InRange rv.startPc
      · have ha : ¬ PcAligned cfg rv.startPc := fun ha => hg ⟨hr, ha⟩
        simp [hr, ha, hv]
      · simp [hr, hv]
  refine ⟨by rw [hprev]; exact hpc, fun v hv => ?_⟩
  cases hv with
  | int he =>
    rw [entry_mepc he]
    by_contra ha
    rw [entries_of_undisturbed (h.entry ha)] at he
    cases he
  | check hg =>
    rw [settle_check hg]
    exact hp
  | trap ht =>
    rw [htrap ht]
    exact hpc

theorem charged_to_jump (hc : cfg.rv32c = false) (hd : rv.dispatch cfg host = .ok (d, inst, c))
    (ha : PcAligned cfg d.pc) (hj : d.jumpTarget cfg inst = some t) (hr : d.InRange t)
    (ht : ¬ PcAligned cfg t) (hu : (srv32Step cfg host rv).2.Undisturbed) :
    ChargedToJump cfg d t (srv32Step cfg host rv) := by
  have hstep : srv32Step cfg host rv = (.code rvOkay, { d with pc := t }) := by
    rw [srv32Step_eq, hd]
    simp only [execNext, exec_jump_misaligned hc ha hj ht]
  have hprev : d.prevPc = d.pc := dispatch_prevPc hd
  rw [hstep] at hu ⊢
  generalize hw : ({ d with pc := t } : Rv).head cfg = w
  have hwp : w.pc = t ∧ w.prevPc = d.prevPc ∧ w.csr = d.csr ∧ w.latch = d.latch ∧
      w.memBase = d.memBase ∧ w.memSize = d.memSize ∧ ∀ n, n ≠ 0#5 → w.regs n = d.regs n := by
    rw [← hw, head, writeRegs]
    split_ifs
    · exact ⟨rfl, rfl, rfl, rfl, rfl, rfl, fun _ _ => rfl⟩
    · exact ⟨rfl, rfl, rfl, rfl, rfl, rfl, fun n hn => Function.update_of_ne hn _ _⟩
  obtain ⟨hpc, hwprev, hcsr, hlatch, hbase, hsize, hregs⟩ := hwp
  have hent : w.enterInts = w := by
    rcases hu with hm | ⟨h1, h2, h3⟩
    · refine enterInts_off ?_
      rw [mieSet, hcsr]
      exact hm
    · exact enterInts_none (by rw [hlatch]; exact h1) (by rw [hlatch]; exact h2)
        (by rw [hlatch]; exact h3)
  have hset : ({ d with pc := t } : Rv).settle cfg = w.trap trapInstAlign t := by
    have hrw : w.InRange w.pc := by
      rw [hpc, InRange, hbase, hsize]
      exact hr
    change (({ d with pc := t } : Rv).head cfg).enterInts.checkPc cfg = _
    rw [hw, hent, checkPc_align hrw (by rw [hpc]; exact ht), hpc]
  constructor
  · rfl
  · rfl
  · rw [hset]
    rfl
  · rw [hset, trap_mepc, hwprev, hprev]
  · rw [hset]
    rfl
  · rw [hset, trap_pc, hcsr]
  · intro n hn
    rw [hset]
    exact hregs n hn

/-- The pc of a calm run is aligned wherever it comes to the switch. -/
theorem calm_run (cfg : Config) (o : Options) (mem : Int → Byte) (host : ℕ → Host)
    (hb : PcAligned cfg o.memBase) (n : ℕ)
    (hcalm : ∀ m ≤ n, Calm cfg (run cfg host (reset cfg o mem) m)) :
    PcAligned cfg (run cfg host (reset cfg o mem) n).prevPc := by
  induction n with
  | zero => exact hb
  | succ n ih =>
    have hprev := ih fun m hm => hcalm m (hm.trans (Nat.le_succ n))
    exact (calm_step (hcalm n (Nat.le_succ n)) hprev).1

/-- Without RV32C, in a run from an aligned `mem_base` whose steps have all been calm, and with the
next step calm too: `mepc` has only been given aligned addresses, and a jump to a misaligned target
in memory is charged with the exception. -/
theorem misaligned_jump_charged (cfg : Config) (o : Options) (mem : Int → Byte)
    (host : ℕ → Host) (n : ℕ) (hc : cfg.rv32c = false) (hb : o.memBase.toNat % 4 = 0)
    (hcalm : ∀ m ≤ n + 1, Calm cfg (run cfg host (reset cfg o mem) m)) :
    (∀ v, MepcStore cfg (host n) (run cfg host (reset cfg o mem) n) v → v.toNat % 4 = 0) ∧
      ∀ d inst c t,
        (run cfg host (reset cfg o mem) n).dispatch cfg (host n) = .ok (d, inst, c) →
        d.jumpTarget cfg inst = some t → d.InRange t → t.toNat % 4 ≠ 0 →
          ChargedToJump cfg d t (srv32Step cfg (host n) (run cfg host (reset cfg o mem) n)) := by
  have hn : Calm cfg (run cfg host (reset cfg o mem) n) := hcalm n (Nat.le_succ n)
  have hprev := calm_run cfg o mem host ((pcAligned_iff hc _).mpr hb) n
    fun m hm => hcalm m (hm.trans (Nat.le_succ n))
  obtain ⟨hnext, hstores⟩ :
      PcAligned cfg (srv32Step cfg (host n) (run cfg host (reset cfg o mem) n)).2.prevPc ∧
        ∀ v, MepcStore cfg (host n) (run cfg host (reset cfg o mem) n) v → PcAligned cfg v :=
    calm_step hn hprev
  constructor
  · intro v hv
    exact (pcAligned_iff hc v).mp (hstores v hv)
  · intro d inst c t hd hj hr ht
    have htm : ¬ PcAligned cfg t := by
      rw [pcAligned_iff hc]
      exact ht
    have hpc : d.prevPc = d.pc := dispatch_prevPc hd
    have ha : PcAligned cfg d.pc := by
      rw [(dispatch_fetch hd).2.1, ← (step_prevPc cfg (host n) _).1]
      exact hnext
    have hmis : (run cfg host (reset cfg o mem) (n + 1)).pc = t := by
      have hx : d.exec cfg inst (host n) c = _ := exec_jump_misaligned hc ha hj htm
      change (srv32Step cfg (host n) (run cfg host (reset cfg o mem) n)).2.pc = t
      rw [srv32Step_eq, hd]
      simp only [execNext, hx]
    refine charged_to_jump hc hd ha hj hr htm ((hcalm (n + 1) (Nat.le_refl _)).entry ?_)
    rw [hmis]
    exact htm

/-- Before the jump of `addi x1, x0, 0x80; csrw mie, x1; csrsi mstatus, 8; jal x0, 6`, with the
timer due. -/
def atJal : Rv := run .rv32im (fun _ => .none) (reset .rv32im options4k
  (image [0x08000093#32, 0x30409073#32, 0x30046073#32, 0x0060006f#32])) 3

/-- The step after the jump enters the timer interrupt, with the target in `mepc`. -/
theorem misaligned_jump_interrupted :
    let d := (atJal.prologue .rv32im .none).1
    atJal.dispatch .rv32im .none = .ok (d, 0x0060006f#32, false) ∧
      d.jumpTarget .rv32im 0x0060006f#32 = some 18#32 ∧ d.InRange 18#32 ∧
      ¬ ChargedToJump .rv32im d 18#32 (srv32Step .rv32im .none atJal) ∧
      MepcStore .rv32im .none (srv32Step .rv32im .none atJal).2 18#32 := by
  intro d
  have hw : (atJal.prologue .rv32im .none).2 = 0x0060006f#32 := by decide +kernel
  have hpc : (srv32Step .rv32im .none atJal).2.pc = 18#32 := by decide +kernel
  have hu : ¬ (srv32Step .rv32im .none atJal).2.Undisturbed := by decide +kernel
  have hcause : ((srv32Step .rv32im .none atJal).2.settle .rv32im).csr.mcause = intMtime := by
    decide +kernel
  refine ⟨by rw [dispatch_rv32im, hw], by decide +kernel, by decide +kernel, fun h => ?_, ?_⟩
  · exact absurd (hcause.symm.trans h.mcause) (by decide)
  · rw [← hpc]
    exact mepcStore_pc hu

/-- From reset `jal x0, 6` is charged. -/
theorem misaligned_jump_jal :
    let rv := reset .rv32im options4k (image [0x0060006f#32])
    ChargedToJump .rv32im (rv.prologue .rv32im .none).1 6#32 (srv32Step .rv32im .none rv) := by
  intro rv
  have hw : (rv.prologue .rv32im .none).2 = 0x0060006f#32 := by decide +kernel
  refine (misaligned_jump_charged .rv32im options4k (image [0x0060006f#32]) (fun _ => .none) 0
    rfl (by decide) (by decide +kernel)).2 (rv.prologue .rv32im .none).1 0x0060006f#32 false 6#32
    ?_ (by decide +kernel) (by decide +kernel) (by decide)
  change rv.dispatch .rv32im .none = _
  rw [dispatch_rv32im, hw]

end Srv32.Iss.Rv

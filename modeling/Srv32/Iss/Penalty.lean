import Srv32.Iss.Jump
import Srv32.Iss.Loop

/-! What transfers of control cost. A branch is charged in its own arm; an interrupt entry is
charged in the next step, which tells from `prev_pc` whether there was a transfer. -/

namespace Srv32.Iss

namespace Rv

variable {cfg : Config} {rv d : Rv} {inst t : Word} {host : Host} {c : Bool}

def isCond (inst : Word) : Prop :=
  opcode inst = opBranch ∧ func3 inst ∈ [opBeq, opBne, opBlt, opBge, opBltu, opBgeu]

/-- The static prediction: taken, unless the branch goes forward. -/
def predictsTaken (inst : Word) : Bool := !(0#32).slt (immB inst)

/-- Without prediction every branch is fetched past. -/
def mispredicted (cfg : Config) (d : Rv) (inst : Word) : Bool :=
  if d.branchPredict then d.branchHolds cfg inst != predictsTaken inst
  else d.branchHolds cfg inst

/-- What a refetch costs in the counter. -/
def penalty (d : Rv) : Counter := d.branchPenalty.signExtend 64

/-- The branch is charged when it is mispredicted, and only then. -/
def BranchLaw (cfg : Config) (d : Rv) (inst : Word) (r : Ret × Rv) : Prop :=
  r.2.csr.cycle = d.csr.cycle + if d.mispredicted cfg inst then d.penalty else 0#64

/-- The branch is none predicted taken that falls through, and none mispredicted that is taken to
an address off a multiple of four. -/
def BranchCharged (cfg : Config) (d : Rv) (inst : Word) : Prop :=
  d.branchPenalty = 0#32 ∨
    ¬ (d.branchPredict = true ∧ predictsTaken inst = true ∧ d.branchHolds cfg inst = false) ∧
    ¬ (d.mispredicted cfg inst = true ∧ d.branchHolds cfg inst = true ∧
      (d.pc + immB inst) &&& 3#32 ≠ 0#32)

instance (inst : Word) : Decidable (isCond inst) := inferInstanceAs (Decidable (_ ∧ _))

instance (cfg : Config) (d : Rv) (inst : Word) (r : Ret × Rv) :
    Decidable (BranchLaw cfg d inst r) := inferInstanceAs (Decidable (_ = _))

instance (cfg : Config) (d : Rv) (inst : Word) : Decidable (BranchCharged cfg d inst) :=
  inferInstanceAs (Decidable (_ ∨ _))

theorem penalty_eq_zero (d : Rv) : d.penalty = 0#64 ↔ d.branchPenalty = 0#32 := by
  rw [penalty]
  constructor
  · intro h
    have hlow := congrArg (BitVec.setWidth 32) h
    rwa [Bits.setWidth_signExtend _ (by decide)] at hlow
  · intro h
    rw [h]
    decide

theorem cycle_cycleAdd (n : Word) : (d.cycleAdd n).csr.cycle = d.csr.cycle + n.signExtend 64 := rfl

/-! A branch. -/

/-- The six arms are one, with the condition of the branch. -/
theorem exec_branch (hb : isCond inst) :
    d.exec cfg inst host c = d.branchArm (d.branchHolds cfg inst) (immB inst) := by
  obtain ⟨ho, hf⟩ := hb
  have hx : d.exec cfg inst host c = d.execBranch cfg inst := by simp [exec, ho]
  simp only [List.mem_cons, List.not_mem_nil, or_false] at hf
  rw [hx, execBranch, branchHolds]
  rcases hf with h | h | h | h | h | h <;> simp [h]

/-- With any other `func3` the opcode of a branch traps. -/
theorem execBranch_illegal (ho : opcode inst = opBranch) (hb : ¬ isCond inst) :
    d.execBranch cfg inst = d.trapRet trapInstIll inst := by
  have hf : func3 inst ∉ [opBeq, opBne, opBlt, opBge, opBltu, opBgeu] := fun h => hb ⟨ho, h⟩
  simp only [List.mem_cons, List.not_mem_nil, or_false, not_or] at hf
  simp [execBranch, hf]

theorem execNext_fallsThrough (hb : isCond inst) (hn : d.branchHolds cfg inst = false) :
    d.execNext cfg inst host c = (.code rvOkay, { d with pc := d.linkPc c }) := by
  rw [execNext, exec_branch hb, hn]
  rfl

theorem execNext_taken (hb : isCond inst) (ht : d.branchHolds cfg inst = true) :
    d.execNext cfg inst host c = (.code rvOkay,
      if (d.branchPredict = true → predictsTaken inst = false) ∧
          (d.pc + immB inst) &&& 3#32 = 0#32
        then { d with pc := d.pc + immB inst }.cycleAdd d.branchPenalty
        else { d with pc := d.pc + immB inst }) := by
  have hguard : ((!d.branchPredict) = true ∨ (0#32).slt (immB inst) = true) ↔
      (d.branchPredict = true → predictsTaken inst = false) := by
    rw [predictsTaken]
    cases d.branchPredict <;> cases (0#32).slt (immB inst) <;> decide
  rw [execNext, exec_branch hb, ht, branchArm, if_pos rfl]
  simp only [hguard]
  split_ifs <;> rfl

/-- The cycles of a branch: it is charged when it is mispredicted, is taken, and has an aligned
target. -/
theorem cycle_branch (hb : isCond inst) :
    (d.execNext cfg inst host c).2.csr.cycle = d.csr.cycle +
      if d.mispredicted cfg inst = true ∧ d.branchHolds cfg inst = true ∧
        (d.pc + immB inst) &&& 3#32 = 0#32 then d.penalty else 0#64 := by
  cases hh : d.branchHolds cfg inst with
  | false =>
    rw [execNext_fallsThrough hb hh, if_neg (by simp)]
    exact (BitVec.add_zero _).symm
  | true =>
    have hmis : d.mispredicted cfg inst = true ↔
        (d.branchPredict = true → predictsTaken inst = false) := by
      rw [mispredicted, hh]
      cases d.branchPredict <;> cases predictsTaken inst <;> decide
    rw [execNext_taken hb hh]
    simp only [← hmis, true_and]
    split_ifs
    · rfl
    · exact (BitVec.add_zero _).symm

/-- For every branch, of either configuration and under every option: it costs the penalty exactly
when it is mispredicted, unless it is of one of two kinds that are never charged. -/
theorem branch_cost_iff (hd : rv.dispatch cfg host = .ok (d, inst, c)) (hb : isCond inst) :
    BranchLaw cfg d inst (srv32Step cfg host rv) ↔ BranchCharged cfg d inst := by
  have hstep : srv32Step cfg host rv = d.execNext cfg inst host c := by rw [srv32Step_eq, hd]
  rw [BranchLaw, BranchCharged, hstep, cycle_branch hb, BitVec.add_right_inj,
    ← penalty_eq_zero]
  cases hm : d.mispredicted cfg inst with
  | false =>
    -- nothing is due, and nothing is charged
    have hno : ¬ (d.branchPredict = true ∧ predictsTaken inst = true ∧
        d.branchHolds cfg inst = false) := by
      rintro ⟨hp, hs, hh⟩
      simp [mispredicted, hp, hs, hh] at hm
    simp [hno]
  | true =>
    have hfall : d.branchPredict = true ∧ predictsTaken inst = true ∧
        d.branchHolds cfg inst = false ↔ d.branchHolds cfg inst = false := by
      constructor
      · exact fun h => h.2.2
      · intro hh
        rw [mispredicted, hh] at hm
        split_ifs at hm with hp
        exact ⟨hp, by simpa using hm, hh⟩
    rw [hfall]
    cases d.branchHolds cfg inst <;> by_cases hz : (d.pc + immB inst) &&& 3#32 = 0#32 <;>
      simp [hz, eq_comm]

/-- Under prediction, `bne x0, x0, -4` falls through and costs nothing. -/
theorem branch_cost_back :
    let rv := run .rv32im (fun _ => .none)
      (reset .rv32im ⟨2#32, true, false, false, 0#32, 0x1000#32⟩
        (image [0x00000013#32, 0xfe001ee3#32])) 1
    let d := (rv.prologue .rv32im .none).1
    rv.dispatch .rv32im .none = .ok (d, 0xfe001ee3#32, false) ∧ isCond 0xfe001ee3#32 ∧
      PcAligned .rv32im (d.pc + immB 0xfe001ee3#32) ∧
      d.mispredicted .rv32im 0xfe001ee3#32 = true ∧
      ¬ BranchLaw .rv32im d 0xfe001ee3#32 (srv32Step .rv32im .none rv) := by
  intro rv d
  have hw : (rv.prologue .rv32im .none).2 = 0xfe001ee3#32 := by decide +kernel
  refine ⟨?_, by decide, by decide +kernel, by decide +kernel, by decide +kernel⟩
  rw [dispatch_rv32im, hw]

/-- Without prediction, `beq x0, x0, 8` at the reset address costs two cycles more. -/
theorem branch_cost_ahead :
    let rv := reset .rv32im ⟨2#32, false, false, false, 0#32, 0x1000#32⟩ (image [0x00000463#32])
    let d := (rv.prologue .rv32im .none).1
    BranchLaw .rv32im d 0x00000463#32 (srv32Step .rv32im .none rv) ∧
      (srv32Step .rv32im .none rv).2.csr.cycle = d.csr.cycle + 2#64 := by
  intro rv d
  have hw : (rv.prologue .rv32im .none).2 = 0x00000463#32 := by decide +kernel
  have hd : rv.dispatch .rv32im .none = .ok (d, 0x00000463#32, false) := by
    rw [dispatch_rv32im, hw]
  exact ⟨(branch_cost_iff hd (by decide)).mpr (by decide +kernel), by decide +kernel⟩

/-! An interrupt entry. -/

/-- The arm of the transfer charges it: a branch as above, a jump unless its target is left to the
next step. -/
def TransferCharged (cfg : Config) (d : Rv) (inst t : Word) : Prop :=
  if opcode inst = opBranch then d.mispredicted cfg inst = true ∧ t &&& 3#32 = 0#32
  else cfg.rv32c = true ∨ t &&& 3#32 = 0#32

/-- The entry costs the penalty unless it follows a transfer, and a transfer with the entry after it
costs it once. -/
def EntryLaw (cfg : Config) (d : Rv) (inst : Word) (e : Entry) : Prop :=
  e.after.csr.cycle = e.before.csr.cycle +
      (if (d.jumpTarget cfg inst).isSome then 0#64 else d.penalty) ∧
    ((d.jumpTarget cfg inst).isSome → e.after.csr.cycle = d.csr.cycle + d.penalty)

/-- Four bytes on means no transfer, and a transfer has paid. -/
def EntryCharged (cfg : Config) (d : Rv) (inst : Word) (c : Bool) : Prop :=
  d.branchPenalty = 0#32 ∨
    match d.jumpTarget cfg inst with
    | none => c = false
    | some t => t ≠ d.pc + 4#32 ∧ TransferCharged cfg d inst t

instance (cfg : Config) (d : Rv) (inst t : Word) : Decidable (TransferCharged cfg d inst t) :=
  inferInstanceAs (Decidable (if opcode inst = opBranch
    then d.mispredicted cfg inst = true ∧ t &&& 3#32 = 0#32
    else cfg.rv32c = true ∨ t &&& 3#32 = 0#32))

instance (cfg : Config) (d : Rv) (inst : Word) (e : Entry) : Decidable (EntryLaw cfg d inst e) :=
  inferInstanceAs (Decidable (_ ∧ _))

/-- What the next step compares. -/
structure Left (d s : Rv) (p : Word) : Prop where
  pc : s.pc = p
  prevPc : s.prevPc = d.prevPc
  branchPenalty : s.branchPenalty = d.branchPenalty

theorem Works.left {s : Rv} (h : Works d s) (p : Word) : Left d { s with pc := p } p := by
  obtain ⟨_, _, _, _, _, _, _, _, _, _, rfl⟩ := h
  exact ⟨rfl, rfl, rfl⟩

theorem jump_left (cfg : Config) (d : Rv) (inst : Word) (c : Bool) (p : Word) :
    ∃ s, d.jump cfg inst c p = .ret (.code rvOkay) s ∧
    Left d s (p &&& ~~~1#32) ∧ s.csr.cycle = d.csr.cycle +
      if cfg.rv32c = true ∨ (p &&& ~~~1#32) &&& 3#32 = 0#32 then d.penalty else 0#64 := by
  rw [jump]
  by_cases hz : !cfg.rv32c ∧ (p &&& ~~~1#32) &&& 3#32 ≠ 0#32
  · refine ⟨{ d with pc := p &&& ~~~1#32 }, if_pos hz, ⟨rfl, rfl, rfl⟩, ?_⟩
    rw [if_neg (by simp_all)]
    exact (BitVec.add_zero _).symm
  · refine ⟨_, if_neg hz, ?_, ?_⟩
    · have hw : Works d (({ d with pc := p &&& ~~~1#32 } : Rv).writeRegs cfg (rd inst)
          (d.linkPc c)) := (works_pc _).trans (works_writeRegs _ _)
      obtain ⟨_, _, _, _, _, _, _, _, _, _, hs⟩ := hw.trans (works_cycleAdd d.branchPenalty)
      refine ⟨?_, ?_, ?_⟩
      · exact writeRegs_pc _ _
      · rw [hs]
      · rw [hs]
    · have hy : cfg.rv32c = true ∨ (p &&& ~~~1#32) &&& 3#32 = 0#32 := by
        by_contra h
        apply hz
        simp_all
      rw [if_pos hy, cycle_cycleAdd, writeRegs_csr]
      rfl

/-- A transfer that does not end the program. -/
theorem transfer_left (hj : d.jumpTarget cfg inst = some t)
    (hg : (d.execNext cfg inst host c).1.goes = true) :
    Left d (d.execNext cfg inst host c).2 t ∧
      (d.execNext cfg inst host c).2.csr.cycle = d.csr.cycle +
        if TransferCharged cfg d inst t then d.penalty else 0#64 := by
  have hjump : ∀ p, d.exec cfg inst host c = d.jump cfg inst c p → opcode inst ≠ opBranch →
      t = p &&& ~~~1#32 → Left d (d.execNext cfg inst host c).2 t ∧
        (d.execNext cfg inst host c).2.csr.cycle = d.csr.cycle +
          if TransferCharged cfg d inst t then d.penalty else 0#64 := by
    intro p hx ho htp
    obtain ⟨s, hs, hl, hc⟩ := jump_left cfg d inst c p
    rw [execNext, hx, hs, htp]
    simp only [TransferCharged, if_neg ho]
    exact ⟨hl, hc⟩
  rw [jumpTarget] at hj
  split_ifs at hj with h1 h2 h3
  · have hx : d.exec cfg inst host c = d.execJal cfg inst c := by simp [exec, h1]
    by_cases h0 : immJ inst = 0#32
    · rw [execNext, hx, execJal, if_pos h0] at hg
      simp [Ret.goes] at hg
    · rw [execJal, if_neg h0] at hx
      exact hjump _ hx (by simp [h1]) (Option.some.inj hj).symm
  · have hx : d.exec cfg inst host c = d.execJalr cfg inst c := by simp [exec, h2]
    by_cases h0 : d.readRegs cfg (rs1 inst) + immI inst = d.pc
    · rw [execNext, hx, execJalr, if_pos h0] at hg
      simp [Ret.goes] at hg
    · rw [execJalr, if_neg h0] at hx
      exact hjump _ hx (by simp [h2]) (Option.some.inj hj).symm
  · have hb : isCond inst := by
      refine ⟨h3.1, ?_⟩
      have hh := h3.2
      rw [branchHolds] at hh
      by_contra hno
      simp only [List.mem_cons, List.not_mem_nil, or_false, not_or] at hno
      simp [hno] at hh
    obtain rfl := Option.some.inj hj
    refine ⟨?_, ?_⟩
    · rw [execNext_taken hb h3.2]
      simp only
      split_ifs
      · exact ⟨rfl, rfl, rfl⟩
      · exact ⟨rfl, rfl, rfl⟩
    · rw [cycle_branch hb]
      simp [TransferCharged, h3.1, h3.2]

/-- What is no transfer is no JAL, no JALR and no branch that is taken. -/
theorem jumpTarget_eq_none (hj : d.jumpTarget cfg inst = none) :
    opcode inst ≠ opJal ∧ opcode inst ≠ opJalr ∧
      (opcode inst = opBranch → d.branchHolds cfg inst = false) := by
  rw [jumpTarget] at hj
  split_ifs at hj with h1 h2 h3
  refine ⟨h1, h2, fun hb => ?_⟩
  rw [← Bool.not_eq_true]
  exact fun hh => h3 ⟨hb, hh⟩

/-- An arm that is no transfer and returns: it traps, or it ends the run. -/
theorem ret_ends {r : Ret} {s : Rv} (ho : opcode inst ≠ opSystem)
    (hj : d.jumpTarget cfg inst = none) (hx : d.exec cfg inst host c = .ret r s) :
    r = .code rvTrap ∨ r.goes = false := by
  have htrap : ∀ {d' : Rv} {k v : Word}, d'.trapRet k v = .ret r s → r = .code rvTrap := by
    intro d' k v h
    rw [trapRet] at h
    cases h
    rfl
  have hwrite : ∀ v, d.writeRd cfg inst v = .ret r s → r = .code rvTrap := by
    intro v h
    cases v with
    | none => exact htrap h
    | some v => cases h
  have hstore : d.execStore cfg inst host = .ret r s →
      r = .code rvTrap ∨ r.goes = false := by
    intro h
    rw [execStore] at h
    rcases hm : d.memrwStore host (func3 inst) (d.readRegs cfg (rs1 inst) + immS inst)
      (d.readRegs cfg (rs2 inst)) with ⟨_ | _ | _, d'⟩
    · simp only [hm] at h
      split_ifs at h <;> exact Or.inl (htrap h)
    · simp only [hm] at h
      cases h
      exact Or.inr rfl
    · simp only [hm] at h
      cases h
      exact Or.inr rfl
  obtain ⟨hjal, hjalr, hbr⟩ := jumpTarget_eq_none hj
  by_cases hb : isCond inst
  · rw [exec_branch hb, hbr hb.1] at hx
    cases hx
  rw [exec, if_neg hjal, if_neg hjalr, if_neg ho] at hx
  split_ifs at hx with h1 h2 h3 h4 h5 h6 h7 h8
  · cases hx
  · cases hx
  · rw [execBranch_illegal h3 hb] at hx
    exact Or.inl (htrap hx)
  · rw [execLoad] at hx
    simp only at hx
    split_ifs at hx <;> exact Or.inl (htrap hx)
  · exact hstore hx
  · exact Or.inl (hwrite _ hx)
  · exact Or.inl (hwrite _ hx)
  · exact Or.inl (htrap hx)

/-- What is no transfer leaves the address after itself, when interrupts stay on. -/
theorem stays_left (ho : opcode inst ≠ opSystem) (hj : d.jumpTarget cfg inst = none)
    (hg : (d.execNext cfg inst host c).1.goes = true)
    (hm : (d.execNext cfg inst host c).2.mieSet = true) :
    Left d (d.execNext cfg inst host c).2 (d.linkPc c) := by
  have hout := exec_outcome cfg d inst host c
  cases hx : d.exec cfg inst host c with
  | ret r s =>
    rw [execNext, hx] at hg hm
    rcases ret_ends ho hj hx with htrap | hend
    · rw [hx] at hout
      exfalso
      generalize hf : Flow.ret r s = f at hout
      cases hout with
      | next hw hp => cases hf
      | leave hw hr =>
        cases hf
        exact hr htrap
      | trap hc hcause =>
        cases hf
        simp at hm
      | ecall hw hi => exact ho hi.1
      | mret hw hi => exact ho hi.1
      | csr hc hi => cases hf
    · simp only at hg
      rw [hend] at hg
      cases hg
  | brk s =>
    rw [hx] at hout
    rw [execNext, hx]
    generalize hf : Flow.brk s = f at hout
    cases hout with
    | next hw hp =>
      cases hf
      have hlink : s.linkPc c = d.linkPc c := by rw [linkPc, linkPc, hp]
      simp only [hlink]
      exact hw.left _
    | leave hw hr => cases hf
    | trap hc hcause => cases hf
    | ecall hw hi => cases hf
    | mret hw hi => cases hf
    | csr hc hi => exact absurd hi.1 ho

/-- A step that leaves an interrupt to be entered comes to the switch, with an instruction outside
SYSTEM, and leaves MIE set. -/
theorem entry_follows {e : Entry} (he : e ∈ (srv32Step cfg host rv).2.entries cfg) :
    e.before = (srv32Step cfg host rv).2.head cfg ∧ (srv32Step cfg host rv).2.mieSet = true ∧
      ∃ d inst c, rv.dispatch cfg host = .ok (d, inst, c) ∧ opcode inst ≠ opSystem := by
  obtain ⟨hb, hs, hl, hm⟩ := mem_entriesOf he
  have hmie : (srv32Step cfg host rv).2.mieSet = true := (head_mieSet cfg _).symm.trans hm
  refine ⟨hb, hmie, ?_⟩
  have hword : opcode ((rv.settle cfg).fetch host) ≠ opSystem := by
    obtain ⟨⟨p, hlatch⟩, -⟩ := step_latch cfg host rv
    rw [writeRegs_latch] at hl
    change e.source.latched (srv32Step cfg host rv).2.latch = true at hl
    rw [hlatch] at hl
    have hsample : e.source.latched ((rv.settle cfg).sampleIrq
        ((rv.settle cfg).fetch host)).latch = true := by
      simp only [sources, List.mem_cons, List.not_mem_nil, or_false] at hs
      rcases hs with hs | hs | hs <;> rw [hs] at hl ⊢ <;> exact hl
    exact (sampleIrq_latched hs hsample).2.2
  have hstep := srv32Step_eq cfg host rv
  rcases dispatch_cases cfg host rv with ⟨d, inst, c, hd, hr⟩ | ⟨d, val, hd, -⟩
  · refine ⟨d, inst, c, hd, ?_⟩
    rcases hr.word with h | h | h
    · rw [h]
      exact hword
    · exact h
    · -- C.EBREAK traps
      rw [hd, h] at hstep
      have hx : d.exec cfg 0x00100073#32 host c = d.trapRet trapBreak d.pc := rfl
      simp only [execNext, hx, trapRet] at hstep
      rw [hstep] at hmie
      simp at hmie
  · rw [hd] at hstep
    rw [hstep] at hmie
    simp at hmie

theorem int_cycle (cause : Word) (src : ℕ) :
    (rv.int cause src false).csr.cycle = rv.csr.cycle +
      if rv.pc = rv.prevPc + 4#32 then rv.penalty else 0#64 := by
  rw [int]
  by_cases h : rv.pc = rv.prevPc + 4#32
  · simp [h, cycleAdd, penalty]
  · simp [h]

/-- The entry after a step that left `p` is charged when `p` is four bytes on. -/
theorem entry_cycle {s : Rv} {e : Entry} {p : Word} (hl : Left d s p) (hprev : d.prevPc = d.pc)
    (hb : e.before = s.head cfg) :
    e.before.csr.cycle = s.csr.cycle ∧
      e.after.csr.cycle = s.csr.cycle + if p = d.pc + 4#32 then d.penalty else 0#64 := by
  have hh : (s.head cfg).pc = s.pc ∧ (s.head cfg).prevPc = s.prevPc ∧
      (s.head cfg).branchPenalty = s.branchPenalty := by
    rw [head, writeRegs]
    split_ifs
    · exact ⟨rfl, rfl, rfl⟩
    · exact ⟨rfl, rfl, rfl⟩
  rw [Entry.after, int_cycle, hb, head_csr, penalty, hh.1, hh.2.1, hh.2.2, hl.pc, hl.prevPc,
    hl.branchPenalty, hprev]
  exact ⟨rfl, rfl⟩

/-- In every run of the loop from reset, under every option and for either configuration, each
interrupt entry follows an instruction, and is charged as it should be exactly when that was no
compressed instruction that falls through, and no transfer to four bytes on or without a charge of
its own. -/
theorem entry_cost_iff (cfg : Config) (o : Options) (mem : Int → Byte) (host : ℕ → Host) (n : ℕ)
    (hlive : Reaches cfg host (reset cfg o mem) n) {e : Entry}
    (he : e ∈ (run cfg host (reset cfg o mem) n).entries cfg) :
    ∃ m d inst c, n = m + 1 ∧
      (run cfg host (reset cfg o mem) m).dispatch cfg (host m) = .ok (d, inst, c) ∧
      (EntryLaw cfg d inst e ↔ EntryCharged cfg d inst c) := by
  cases n with
  | zero =>
    -- nothing is latched at reset
    exfalso
    change e ∈ (reset cfg o mem).entries cfg at he
    have hnone : (reset cfg o mem).entries cfg = [] :=
      entries_of_undisturbed (Or.inr ⟨rfl, rfl, rfl⟩)
    rw [hnone] at he
    cases he
  | succ m =>
    generalize hrv : run cfg host (reset cfg o mem) m = rv at *
    have hrun : run cfg host (reset cfg o mem) (m + 1) = (srv32Step cfg (host m) rv).2 := by
      rw [run, hrv]
    rw [hrun] at he
    obtain ⟨hb, hmie, d, inst, c, hd, ho⟩ := entry_follows he
    have hstep : srv32Step cfg (host m) rv = d.execNext cfg inst (host m) c := by
      rw [srv32Step_eq, hd]
    have hg : (d.execNext cfg inst (host m) c).1.goes = true := by
      have := hlive m (Nat.lt_succ_self m)
      rw [result, hrv, hstep] at this
      exact this
    refine ⟨m, d, inst, c, rfl, by rw [hrv]; exact hd, ?_⟩
    rw [hstep] at hb hmie
    rw [EntryLaw, EntryCharged, ← penalty_eq_zero]
    cases hj : d.jumpTarget cfg inst with
    | none =>
      obtain ⟨h1, h2⟩ := entry_cycle (stays_left ho hj hg hmie) (dispatch_prevPc hd) hb
      have hlink : d.linkPc c = d.pc + 4#32 ↔ c = false := by
        rw [linkPc]
        cases c <;> simp
      rw [h1, h2]
      simp only [hlink, BitVec.add_right_inj]
      cases c <;> simp [eq_comm]
    | some t =>
      obtain ⟨hl, hc⟩ := transfer_left hj hg
      obtain ⟨h1, h2⟩ := entry_cycle hl (dispatch_prevPc hd) hb
      rw [h1, h2, hc]
      by_cases hp : d.penalty = 0#64
      · simp [hp]
      · by_cases ht : t = d.pc + 4#32
        · simp [hp, ht]
        · by_cases hcharge : TransferCharged cfg d inst t
          · simp [ht, hcharge]
          · simp [hp, ht, hcharge]

/-- `addi x1, x0, 0x80; csrw mie, x1; csrsi mstatus, 8` and the word `w`, with the timer due. -/
def timerDue (w : Word) : Rv := reset .rv32im options4k
  (image [0x08000093#32, 0x30409073#32, 0x30046073#32, w, 0x00000013#32])

/-- `jal x0, 4` is charged in its arm, and again by the entry after it. -/
theorem entry_cost_twice :
    let rv := run .rv32im (fun _ => .none) (timerDue 0x0040006f#32)
    let d := ((rv 3).prologue .rv32im .none).1
    Reaches .rv32im (fun _ => .none) (timerDue 0x0040006f#32) 4 ∧
      (rv 3).dispatch .rv32im .none = .ok (d, 0x0040006f#32, false) ∧
      d.jumpTarget .rv32im 0x0040006f#32 = some (d.pc + 4#32) ∧
      ∃ e ∈ (rv 4).entries .rv32im, ¬ EntryLaw .rv32im d 0x0040006f#32 e := by
  intro rv d
  have hw : ((rv 3).prologue .rv32im .none).2 = 0x0040006f#32 := by decide +kernel
  refine ⟨by decide +kernel, ?_, by decide +kernel, by decide +kernel⟩
  rw [dispatch_rv32im, hw]

/-- After a NOP the entry pays. -/
theorem entry_cost_nop :
    let rv := run .rv32im (fun _ => .none) (timerDue 0x00000013#32)
    let d := ((rv 3).prologue .rv32im .none).1
    (rv 4).entries .rv32im ≠ [] ∧
      ∀ e ∈ (rv 4).entries .rv32im, EntryLaw .rv32im d 0x00000013#32 e := by
  intro rv d
  have hw : ((rv 3).prologue .rv32im .none).2 = 0x00000013#32 := by decide +kernel
  have hlen : ((rv 4).entries .rv32im).length = 1 := by decide +kernel
  refine ⟨List.ne_nil_of_length_eq_add_one hlen, fun e he => ?_⟩
  obtain ⟨m, d', inst, c, hm, hd, hiff⟩ := entry_cost_iff .rv32im options4k
    (image [0x08000093#32, 0x30409073#32, 0x30046073#32, 0x00000013#32, 0x00000013#32])
    (fun _ => .none) 4 (by decide +kernel) he
  obtain rfl : m = 3 := by omega
  have h3 : (rv 3).dispatch .rv32im .none = .ok (d, 0x00000013#32, false) := by
    rw [dispatch_rv32im, hw]
  have hsame : (d, 0x00000013#32, false) = (d', inst, c) := Except.ok.inj (h3.symm.trans hd)
  simp only [Prod.mk.injEq] at hsame
  obtain ⟨rfl, rfl, rfl⟩ := hsame
  exact hiff.mpr (Or.inr rfl)

end Rv

end Srv32.Iss

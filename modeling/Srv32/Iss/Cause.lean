import Srv32.Iss.Fetch
import Mathlib.Data.Bool.AllAny

/-! The causes of exceptions and of interrupts, and where they lead. -/

namespace Srv32.Iss

def causes : List Word :=
  [trapInstAlign, trapInstFail, trapInstIll, trapBreak, trapLdAlign, trapLdFail, trapStAlign,
    trapStFail, trapEcall]

def interrupts : List Word := [intMtime, intMsi, intMei]

/-- A cause without the interrupt bit. -/
def exceptionCode (mcause : Word) : Word := mcause &&& ~~~(1#32 <<< 31)

theorem exceptionCode_of_mem : ∀ cause ∈ causes, exceptionCode cause = cause :=
  List.all_iff_forall_prop.mp (by decide)

/-- An arm that traps has one of these causes. -/
def Flow.Caused : Flow → Prop
  | .brk _ => True
  | .ret r rv => r = .code rvTrap → rv.csr.mcause ∈ causes

namespace Rv

variable {cfg : Config} {rv rv' : Rv} {inst : Word} {host : Host} {c : Bool}

theorem caused_trapRet {cause val : Word} (h : cause ∈ causes) :
    (rv.trapRet cause val).Caused := fun _ => h

theorem caused_of_ne {r : Ret} (h : r ≠ .code rvTrap) : (Flow.ret r rv).Caused :=
  fun he => absurd he h

theorem caused_writeRd (v : Option Word) : (rv.writeRd cfg inst v).Caused := by
  cases v with
  | none => exact caused_trapRet (by decide)
  | some v => trivial

theorem caused_jump (t : Word) : (rv.jump cfg inst c t).Caused := by
  simp only [jump]
  split_ifs <;> exact caused_of_ne (by decide)

theorem caused_branch : (rv.execBranch cfg inst).Caused := by
  have harm : ∀ taken offset, (rv.branchArm taken offset).Caused := by
    intro taken offset
    simp only [branchArm]
    split_ifs
    · exact caused_of_ne (by decide)
    · exact caused_of_ne (by decide)
    · trivial
  simp only [execBranch]
  split_ifs
  iterate 6 exact harm _ _
  exact caused_trapRet (by decide)

theorem caused_load : (rv.execLoad cfg inst host).Caused := by
  simp only [execLoad]
  split_ifs
  iterate 3 exact caused_trapRet (by decide)
  trivial

/-- `memrw` itself does not return `RV_TRAP`: its codes are causes. -/
theorem caused_store : (rv.execStore cfg inst host).Caused := by
  simp only [execStore]
  rcases rv.memrwStore host (func3 inst) (rv.readRegs cfg (rs1 inst) + immS inst)
    (rv.readRegs cfg (rs2 inst)) with ⟨r | s | _, rv'⟩
  · simp only
    split_ifs
    iterate 3 exact caused_trapRet (by decide)
    trivial
  · exact caused_of_ne (by simp)
  · exact caused_of_ne (by simp)

theorem caused_ecall : (rv.execEcall cfg host).Caused := by
  obtain ⟨-, hr⟩ : Works rv (rv.syscall host _ _ _ _).2 ∧ _ :=
    syscall_works (rv.readRegs cfg cfg.sys) (rv.readRegs cfg regA0) (rv.readRegs cfg regA1)
      (rv.readRegs cfg regA2)
  simp only [execEcall]
  rcases hs : rv.syscall host (rv.readRegs cfg cfg.sys) (rv.readRegs cfg regA0)
    (rv.readRegs cfg regA1) (rv.readRegs cfg regA2) with ⟨r | res, rv'⟩
  · rw [hs] at hr
    exact caused_of_ne (hr r rfl)
  · exact caused_trapRet (by decide)

theorem caused_system : (rv.execSystem cfg inst host).Caused := by
  simp only [execSystem]
  split_ifs
  · simp only [execEnv]
    split_ifs
    · exact caused_ecall
    · exact caused_trapRet (by decide)
    · simp only [execMret]
      split_ifs <;> exact caused_of_ne (by decide)
    · exact caused_trapRet (by decide)
  · simp only [execCsr]
    cases rv.csrOperand cfg inst with
    | none => exact caused_trapRet (by decide)
    | some o =>
      obtain ⟨mode, val, update⟩ := o
      dsimp only
      rcases rv.csr.rw (imm12 inst) mode val update with ⟨result, _ | _, csr⟩
      · exact caused_trapRet (by decide)
      · trivial

theorem exec_caused : (rv.exec cfg inst host c).Caused := by
  have hif : ∀ {p : Prop} [Decidable p] {f g : Flow}, f.Caused → g.Caused →
      (if p then f else g).Caused := by
    intro p _ f g hf hg
    split
    · exact hf
    · exact hg
  have hexit : ∀ s : Rv, (Flow.ret (.code rvExit) s).Caused := fun _ => caused_of_ne (by decide)
  refine hif trivial (hif trivial ?_)
  refine hif (hif (hexit _) (caused_jump _)) (hif (hif (hexit _) (caused_jump _)) ?_)
  refine hif caused_branch (hif caused_load (hif caused_store ?_))
  refine hif (caused_writeRd _) (hif (caused_writeRd _) (hif trivial ?_))
  exact hif caused_system (caused_trapRet (by decide))

/-- What a trap leaves of `s`, `pc` being the instruction. -/
structure TrapsAt (s : Rv) (pc : Word) (t : Rv) : Prop where
  mcause : t.csr.mcause ∈ causes ∨ t.csr.mcause ∈ interrupts
  mepc : t.csr.mepc = pc
  mstatus : t.csr.mstatus = pushMie s.csr.mstatus
  mtvec : t.csr.mtvec = s.csr.mtvec
  pc : t.pc = vectorOf s.csr.mtvec (exceptionCode t.csr.mcause)

theorem trapsAt_trap {s d : Rv} (hr : Ready host s d inst) (hw : Works d rv') {cause : Word}
    (h : cause ∈ causes) (val : Word) : TrapsAt s s.pc (rv'.trap cause val) := by
  refine ⟨Or.inl h, ?_, ?_, ?_, ?_⟩
  on_goal 4 => rw [trap_mcause, exceptionCode_of_mem cause h]
  all_goals
    obtain ⟨_, _, _, _, _, rfl⟩ := hr.state
    obtain ⟨_, _, _, _, _, _, _, _, _, _, rfl⟩ := hw
    rfl

/-- A step that returns `RV_TRAP` has trapped with one of the causes. -/
theorem step_trapsAt (h : (srv32Step cfg host rv).1 = .code rvTrap) :
    TrapsAt (rv.settle cfg) (rv.settle cfg).pc (srv32Step cfg host rv).2 := by
  have hstep := srv32Step_eq cfg host rv
  rcases dispatch_cases cfg host rv with ⟨d, inst, c, hd, hr⟩ | ⟨d, val, hd, hr⟩
  · rw [hd] at hstep
    simp only [execNext] at hstep
    have ho := exec_outcome cfg d inst host c
    have hc : (d.exec cfg inst host c).Caused := exec_caused
    generalize d.exec cfg inst host c = f at hstep ho hc
    rw [hstep] at h ⊢
    cases ho with
    | next hw hp => exact absurd h (by simp)
    | leave hw hne => exact absurd h hne
    | trap hcharged _ => exact trapsAt_trap hr hcharged.works (hc rfl) _
    | ecall hw hi => exact trapsAt_trap hr hw (hc rfl) _
    | mret hw hi => exact absurd h (by simp)
    | csr hw hi => exact absurd h (by simp)
  · rw [hd] at hstep
    rw [hstep]
    exact trapsAt_trap hr (Works.refl d) (by decide) _

/-- A check of the pc that fails traps behind the instruction that led there, unless the handler
itself is misaligned. -/
theorem fetch_trapsAt (hu : rv.Undisturbed) (h : ¬ (rv.InRange rv.pc ∧ rv.pc.toNat % 4 = 0))
    (hv : rv.csr.mtvec.getLsbD 1 = false) : TrapsAt rv rv.prevPc (rv.settle .rv32im) := by
  have ht : ∀ cause val, cause ∈ causes → TrapsAt rv rv.prevPc (rv.fresh.trap cause val) := by
    intro cause val hc
    refine ⟨Or.inl hc, rfl, rfl, rfl, ?_⟩
    rw [trap_mcause, exceptionCode_of_mem cause hc]
    rfl
  rw [settle_eq, hu.enterInts]
  by_cases hr : rv.fresh.InRange rv.fresh.pc
  · rw [checkPc_misaligned hr fun ha => h ⟨hr, ha⟩]
    exact ht _ _ (by decide)
  · have ha : (vectorOf rv.fresh.csr.mtvec trapInstFail).toNat % 4 = 0 :=
      (vectorOf_aligned _ _).mpr hv
    rw [checkPc_unmapped hr, if_pos ha]
    exact ht _ _ (by decide)

/-- An interrupt traps in front of the instruction, if its handler can be fetched. -/
theorem entry_trapsAt {e : Entry} (he : e ∈ rv.entries .rv32im) (hr : rv.InRange e.after.pc)
    (ha : e.after.pc.toNat % 4 = 0) : TrapsAt rv rv.pc (rv.settle .rv32im) := by
  obtain ⟨hb, hs, -, -⟩ := mem_entriesOf he
  obtain ⟨i, s⟩ := e
  obtain rfl : s = rv.fresh := hb.trans (writeRegs_rv32im _ _)
  have hc : i.cause ∈ interrupts := List.mem_map_of_mem (f := Source.cause) hs
  have hmem : (Entry.after ⟨i, rv.fresh⟩).InRange (Entry.after ⟨i, rv.fresh⟩).pc := by
    have hkept : Mapped rv (Entry.after ⟨i, rv.fresh⟩) := by
      rw [Entry.after, int_eq]
      exact ⟨rfl, rfl, rfl, rfl⟩
    rw [hkept.inRange]
    exact hr
  rw [settle_of_entry he, checkPc_ok hmem ha, Entry.after, int_eq]
  exact ⟨Or.inr hc, rfl, rfl, rfl, rfl⟩

end Rv

end Srv32.Iss

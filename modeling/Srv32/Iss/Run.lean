import Srv32.Iss.Access

/-! Runs of the simulator, and what one step can leave of the state: one case for each way an arm
of the opcode switch ends. -/

namespace Srv32.Iss

/-- The command line: what `main` may set otherwise than its defaults. -/
structure Options where
  branchPenalty : Word
  branchPredict : Bool
  singleram : Bool
  debugEn : Bool
  memBase : Word
  memSize : Word

/-- The state `main` enters its loop in. -/
def Rv.reset (cfg : Config) (o : Options) (mem : Int → Byte) : Rv :=
  { Rv.boot cfg 0 mem with
    pc := o.memBase
    prevPc := o.memBase
    branchPenalty := o.branchPenalty
    branchPredict := o.branchPredict
    singleram := o.singleram
    debugEn := o.debugEn
    memBase := o.memBase
    memSize := o.memSize }

/-- The state before step `n`; `host` supplies what each step takes from outside. -/
def run (cfg : Config) (host : ℕ → Host) (rv : Rv) : ℕ → Rv
  | 0 => rv
  | n + 1 => (srv32Step cfg (host n) (run cfg host rv n)).2

/-- The state at the opcode switch of step `n`, and the word executed. -/
def atSwitch (cfg : Config) (host : ℕ → Host) (rv : Rv) (n : ℕ) : Rv × Word :=
  (run cfg host rv n).prologue cfg (host n)

/-- What step `n` returns. -/
def result (cfg : Config) (host : ℕ → Host) (rv : Rv) (n : ℕ) : Ret × Rv :=
  srv32Step cfg (host n) (run cfg host rv n)

/-- A property every step keeps holds in the whole run. -/
theorem run_invariant {cfg : Config} {P : Rv → Prop}
    (hstep : ∀ host rv, P rv → P (srv32Step cfg host rv).2) {rv : Rv} (h0 : P rv)
    (host : ℕ → Host) (n : ℕ) : P (run cfg host rv n) := by
  induction n with
  | zero => exact h0
  | succ n ih => exact hstep (host n) _ ih

/-- A word that reaches `csr_rw`. -/
def isCsrWord (inst : Word) : Prop := opcode inst = opSystem ∧ func3 inst ≠ opEcall

/-- A word that reaches the ECALL case. -/
def reachesEcall (inst : Word) : Prop :=
  opcode inst = opSystem ∧ func3 inst = opEcall ∧ (imm12 inst).extractLsb' 0 2 = 0#2

/-- A word that reaches the MRET case. -/
def reachesMret (inst : Word) : Prop :=
  opcode inst = opSystem ∧ func3 inst = opEcall ∧ (imm12 inst).extractLsb' 0 2 = 2#2

instance (inst : Word) : Decidable (isCsrWord inst) := inferInstanceAs (Decidable (_ ∧ _))
instance (inst : Word) : Decidable (reachesEcall inst) := inferInstanceAs (Decidable (_ ∧ _))
instance (inst : Word) : Decidable (reachesMret inst) := inferInstanceAs (Decidable (_ ∧ _))

/-- What `csr_rw` leaves alone: the counters and the CLINT registers. -/
def CsrWritten (c c' : Csr) : Prop :=
  ∃ mscratch mstatus mstatush misa mie mip mtvec mepc mcause mtval, c' = { c with
    mscratch := mscratch, mstatus := mstatus, mstatush := mstatush, misa := misa, mie := mie
    mip := mip, mtvec := mtvec, mepc := mepc, mcause := mcause, mtval := mtval }

/-- The two ways `csr_rw` ends: a CSR that does not exist is not written. -/
def CsrAccessed (c : Csr) (r : Word × Bool × Csr) : Prop :=
  (r.2.1 = true ∧ CsrWritten c r.2.2) ∨ (r.2.1 = false ∧ r.2.2 = c)

theorem Csr.rw_accessed (c : Csr) (regs : BitVec 12) (mode : BitVec 3) (val : Word)
    (update : Bool) : CsrAccessed c (c.rw regs mode val update) := by
  have hok : ∀ w c', CsrWritten c c' → CsrAccessed c (w, true, c') := fun _ _ h => Or.inl ⟨rfl, h⟩
  unfold Csr.rw
  iterate 18
    refine iteInduction (motive := CsrAccessed c) (fun _ => ?_) fun _ => ?_
    · exact hok _ _ ⟨_, _, _, _, _, _, _, _, _, _, rfl⟩
  exact Or.inr ⟨rfl, rfl⟩

namespace Rv

/-- What the arms without a trap change, SYSTEM apart: the pc, the registers, memory, the CLINT
registers, the cycle counter, and what `htif.c` and `main` keep. -/
def Works (rv rv' : Rv) : Prop :=
  ∃ pc regs mem cycle mtime mtimecmp msip upd code res, rv' = { rv with
    pc := pc
    regs := regs
    mem := mem
    csr := { rv.csr with cycle := cycle, mtime := mtime, mtimecmp := mtimecmp, msip := msip }
    mtimeUpdate := upd
    exitcode := code
    htifResult := res }

/-- What an arm changes before it traps. -/
def Charged (rv rv' : Rv) : Prop :=
  ∃ cycle mtime code, rv' = { rv with
    csr := { rv.csr with cycle := cycle, mtime := mtime }
    exitcode := code }

/-- How an arm of the switch ends. -/
inductive Outcome (cfg : Config) (rv : Rv) (inst : Word) : Flow → Prop
  | next {rv' : Rv} (hw : Works rv rv') (hp : rv'.pc = rv.pc) : Outcome cfg rv inst (.brk rv')
  | leave {r : Ret} {rv' : Rv} (hw : Works rv rv') (hr : r ≠ .code rvTrap) :
      Outcome cfg rv inst (.ret r rv')
  | trap {rv' : Rv} {cause val : Word} (hc : Charged rv rv') (hcause : cause ≠ trapEcall) :
      Outcome cfg rv inst (rv'.trapRet cause val)
  | ecall {rv' : Rv} (hw : Works rv rv') (hi : reachesEcall inst) :
      Outcome cfg rv inst (rv'.trapRet trapEcall 0#32)
  | mret {rv' : Rv} {mstatus : Word} (hw : Works rv rv') (hi : reachesMret inst) :
      Outcome cfg rv inst (.ret (.code rvOkay) { rv' with csr.mstatus := mstatus })
  | csr {c : Csr} {r : BitVec 5} {v : Word} (hc : CsrWritten rv.csr c) (hi : isCsrWord inst) :
      Outcome cfg rv inst (.brk ({ rv with csr := c }.writeRegs cfg r v))

variable {cfg : Config} {rv rv' : Rv} {inst : Word} {host : Host} {c : Bool}

theorem Works.refl (rv : Rv) : Works rv rv := ⟨_, _, _, _, _, _, _, _, _, _, rfl⟩

theorem Works.trans {a b d : Rv} (h : Works a b) (h' : Works b d) : Works a d := by
  obtain ⟨_, _, _, _, _, _, _, _, _, _, rfl⟩ := h
  obtain ⟨_, _, _, _, _, _, _, _, _, _, rfl⟩ := h'
  exact ⟨_, _, _, _, _, _, _, _, _, _, rfl⟩

theorem works_writeRegs (n : BitVec 5) (v : Word) : Works rv (rv.writeRegs cfg n v) := by
  unfold writeRegs
  split
  · exact Works.refl rv
  · exact ⟨_, _, _, _, _, _, _, _, _, _, rfl⟩

theorem works_cycleAdd (n : Word) : Works rv (rv.cycleAdd n) :=
  ⟨_, _, _, _, _, _, _, _, _, _, rfl⟩

theorem works_pc (p : Word) : Works rv { rv with pc := p } :=
  ⟨_, _, _, _, _, _, _, _, _, _, rfl⟩

theorem charged_refl (rv : Rv) : Charged rv rv := ⟨_, _, _, rfl⟩

theorem Charged.works (h : Charged rv rv') : Works rv rv' := by
  obtain ⟨_, _, _, rfl⟩ := h
  exact ⟨_, _, _, _, _, _, _, _, _, _, rfl⟩

theorem Charged.trans {a b d : Rv} (h : Charged a b) (h' : Charged b d) : Charged a d := by
  obtain ⟨_, _, _, rfl⟩ := h
  obtain ⟨_, _, _, rfl⟩ := h'
  exact ⟨_, _, _, rfl⟩

theorem charged_ramCycle : Charged rv rv.ramCycle := by
  unfold ramCycle
  split
  · exact ⟨_, _, _, rfl⟩
  · exact charged_refl rv

theorem Stored.works (h : Stored rv rv') : Works rv rv' := by
  obtain ⟨_, _, _, _, _, _, _, rfl⟩ := h
  exact ⟨_, _, _, _, _, _, _, _, _, _, rfl⟩

theorem Stored.pc (h : Stored rv rv') : rv'.pc = rv.pc := by
  obtain ⟨_, _, _, _, _, _, _, rfl⟩ := h
  rfl

@[simp] theorem writeRegs_pc (n : BitVec 5) (v : Word) : (rv.writeRegs cfg n v).pc = rv.pc := by
  unfold writeRegs
  split <;> rfl

/-! The arms of the switch. -/

theorem outcome_write (n : BitVec 5) (v : Word) :
    Outcome cfg rv inst (.brk (rv.writeRegs cfg n v)) :=
  .next (works_writeRegs n v) (writeRegs_pc n v)

theorem outcome_illegal (val : Word) : Outcome cfg rv inst (rv.trapRet trapInstIll val) :=
  .trap (charged_refl rv) (by decide)

theorem outcome_writeRd (v : Option Word) : Outcome cfg rv inst (rv.writeRd cfg inst v) := by
  cases v with
  | none => exact outcome_illegal inst
  | some v => exact outcome_write _ v

theorem outcome_jump (t : Word) : Outcome cfg rv inst (rv.jump cfg inst c t) := by
  unfold jump
  simp only
  split_ifs
  · exact .leave (works_pc _) (by decide)
  · refine .leave ?_ (by decide)
    exact ((works_pc _).trans (works_writeRegs _ _)).trans (works_cycleAdd _)

theorem outcome_self (p : Word) :
    Outcome cfg rv inst (.ret (.code rvExit) { rv with pc := p, exitcode := 1#32 }) :=
  .leave ⟨_, _, _, _, _, _, _, _, _, _, rfl⟩ (by decide)

theorem outcome_jal : Outcome cfg rv inst (rv.execJal cfg inst c) := by
  unfold execJal
  simp only
  split_ifs
  · exact outcome_self _
  · exact outcome_jump _

theorem outcome_jalr : Outcome cfg rv inst (rv.execJalr cfg inst c) := by
  unfold execJalr
  simp only
  split_ifs
  · exact outcome_self _
  · exact outcome_jump _

theorem outcome_branchArm (taken : Bool) (off : Word) :
    Outcome cfg rv inst (rv.branchArm taken off) := by
  unfold branchArm
  simp only
  split_ifs
  · exact .leave ((works_pc _).trans (works_cycleAdd _)) (by decide)
  · exact .leave (works_pc _) (by decide)
  · exact .next (Works.refl rv) rfl

theorem outcome_branch : Outcome cfg rv inst (rv.execBranch cfg inst) := by
  unfold execBranch
  simp only
  split_ifs <;> first | exact outcome_branchArm _ _ | exact outcome_illegal _

theorem outcome_load : Outcome cfg rv inst (rv.execLoad cfg inst host) := by
  have htrap : ∀ k a, k ≠ trapEcall → Outcome cfg rv inst (rv.ramCycle.trapRet k a) :=
    fun k a hk => .trap charged_ramCycle hk
  unfold execLoad
  simp only
  split_ifs
  · exact htrap _ _ (by decide)
  · exact htrap _ _ (by decide)
  · exact htrap _ _ (by decide)
  · refine .next (charged_ramCycle.works.trans (works_writeRegs _ _)) ?_
    rw [writeRegs_pc, ramCycle_pc]

/-- A store that traps has stored nothing: the codes of `memrw` that trap come without an effect,
but for that of the exit register, which leaves the exit code. -/
theorem memrwStore_charged {op : BitVec 3} {a v k : Word}
    (h : (rv.memrwStore host op a v).1 = .code k) (hk : k ≠ 0#32) :
    Charged rv (rv.memrwStore host op a v).2 := by
  unfold memrwStore at h ⊢
  cases hl : storeLen op a with
  | error e => exact charged_refl rv
  | ok len =>
    rw [hl] at h
    simp only at h ⊢
    cases hw : rv.writeMem a len (byteOfWord v) with
    | some rv' =>
      rw [hw] at h
      exact absurd (Ret.code.inj h).symm hk
    | none =>
      rw [hw] at h
      simp only at h ⊢
      by_cases hd : a ∈ storeDevices
      · by_cases he : a = mmioExit
        · rw [he, storeDevice_exit]
          exact ⟨_, _, _, rfl⟩
        · by_cases ht : a = mmioTohost
          · rw [ht, storeDevice_tohost] at h
            rcases hto : rv.tohost host v with ⟨_ | r, rv'⟩
            · rw [hto] at h
              exact absurd (Ret.code.inj h).symm hk
            · rw [hto] at h
              exact absurd h (tohost_some (r := r) (by rw [hto]) k)
          · rw [storeDevice_code op v hd he ht] at h
            exact absurd (Ret.code.inj h).symm hk
      · rw [storeDevice_fault op v hd]
        exact charged_refl rv

theorem outcome_store : Outcome cfg rv inst (rv.execStore cfg inst host) := by
  unfold execStore
  simp only
  generalize rv.readRegs cfg (rs1 inst) + immS inst = a
  generalize rv.readRegs cfg (rs2 inst) = v
  have hst : Stored rv (rv.memrwStore host _ _ _).2 := stored_memrwStore (func3 inst) a v
  have hch : ∀ k, (rv.memrwStore host (func3 inst) a v).1 = .code k → k ≠ 0#32 →
      Charged rv (rv.memrwStore host (func3 inst) a v).2 :=
    fun k h hk => memrwStore_charged h hk
  rcases hs : rv.memrwStore host (func3 inst) a v with ⟨r, rv'⟩
  rw [hs] at hst hch
  cases r with
  | code k =>
    have htrap : ∀ j b, k = j → j ≠ 0#32 → j ≠ trapEcall →
        Outcome cfg rv inst (rv'.ramCycle.trapRet j b) := by
      intro j b hj hj0 hje
      have hcharged : Charged rv rv' := hch k rfl (hj ▸ hj0)
      exact .trap (hcharged.trans charged_ramCycle) hje
    simp only
    split_ifs with h1 h2 h3
    · exact htrap _ _ h1 (by decide) (by decide)
    · exact htrap _ _ h2 (by decide) (by decide)
    · exact htrap _ _ h3 (by decide) (by decide)
    · refine .next (hst.works.trans charged_ramCycle.works) ?_
      rw [ramCycle_pc, hst.pc]
  | exit s => exact .leave hst.works (by simp)
  | segv => exact .leave hst.works (by simp)

theorem works_hostRead (fd : Word) (p : Option Int) (count : Word) :
    Works rv (rv.hostRead host fd p count) := by
  cases p with
  | none => exact Works.refl rv
  | some off => exact ⟨_, _, _, _, _, _, _, _, _, _, rfl⟩

theorem dump_some {aligned : Bool} {a0 a1 : Word} {r : Ret}
    (h : rv.dump host aligned a0 a1 = some r) : r ≠ .code rvTrap := by
  unfold dump at h
  split_ifs at h <;> cases h <;> simp

theorem syscall_works (func a0 a1 a2 : Word) : Works rv (rv.syscall host func a0 a1 a2).2 ∧
    ∀ r, (rv.syscall host func a0 a1 a2).1 = .error r → r ≠ .code rvTrap := by
  simp only [syscall]
  split_ifs
  iterate 3 exact ⟨Works.refl rv, fun r h => by cases h⟩
  · refine ⟨Works.refl rv, fun r h => ?_⟩
    obtain rfl : rv.progExit = r := Except.error.inj h
    simp [progExit]
  · exact ⟨works_hostRead _ _ _, fun r h => by cases h⟩
  · exact ⟨Works.refl rv, fun r h => by cases h⟩
  · cases hd : rv.dump host (dumpAligned a0 a1) a0 a1 with
    | none => exact ⟨Works.refl rv, fun r h => by cases h⟩
    | some r =>
      refine ⟨Works.refl rv, fun r' h => ?_⟩
      obtain rfl : r = r' := Except.error.inj h
      exact dump_some hd
  · cases hd : rv.dump host true a0 a1 with
    | none => exact ⟨Works.refl rv, fun r h => by cases h⟩
    | some r =>
      refine ⟨Works.refl rv, fun r' h => ?_⟩
      obtain rfl : r = r' := Except.error.inj h
      exact dump_some hd
  · exact ⟨Works.refl rv, fun r h => by cases h⟩

theorem outcome_ecall (hi : reachesEcall inst) :
    Outcome cfg rv inst (rv.execEcall cfg host) := by
  obtain ⟨hw, hr⟩ : Works rv (rv.syscall host _ _ _ _).2 ∧ _ :=
    syscall_works (rv.readRegs cfg cfg.sys) (rv.readRegs cfg regA0) (rv.readRegs cfg regA1)
      (rv.readRegs cfg regA2)
  unfold execEcall
  rcases hs : rv.syscall host (rv.readRegs cfg cfg.sys) (rv.readRegs cfg regA0)
    (rv.readRegs cfg regA1) (rv.readRegs cfg regA2) with ⟨r | res, rv'⟩
  · rw [hs] at hw hr
    exact .leave hw (hr r rfl)
  · rw [hs] at hw
    simp only
    split_ifs
    · exact .ecall (hw.trans (works_writeRegs _ _)) hi
    · exact .ecall hw hi

theorem outcome_mret (hi : reachesMret inst) : Outcome cfg rv inst (rv.execMret cfg) := by
  unfold execMret
  simp only
  split_ifs
  · exact .mret (works_pc _) hi
  · exact .mret (works_pc _) hi
  · exact .mret ((works_pc _).trans (works_cycleAdd rv.branchPenalty)) hi
  · exact .mret ((works_pc _).trans (works_cycleAdd rv.branchPenalty)) hi

theorem outcome_env (ho : opcode inst = opSystem) (hf : func3 inst = opEcall) :
    Outcome cfg rv inst (rv.execEnv cfg inst host) := by
  unfold execEnv
  simp only
  split_ifs with h0 h1 h2
  · exact outcome_ecall ⟨ho, hf, h0⟩
  · exact .trap (charged_refl rv) (by decide)
  · exact outcome_mret ⟨ho, hf, h2⟩
  · exact outcome_illegal _

theorem outcome_csr (hi : isCsrWord inst) : Outcome cfg rv inst (rv.execCsr cfg inst) := by
  unfold execCsr
  cases rv.csrOperand cfg inst with
  | none => exact outcome_illegal _
  | some t =>
    obtain ⟨mode, val, update⟩ := t
    have hrw : CsrAccessed rv.csr _ := rv.csr.rw_accessed (imm12 inst) mode val update
    rcases hr : rv.csr.rw (imm12 inst) mode val update with ⟨res, legal, csr⟩
    rw [hr] at hrw
    rcases hrw with ⟨hl, hw⟩ | ⟨hl, he⟩
    · obtain rfl : legal = true := hl
      simp only [hr]
      exact .csr hw hi
    · obtain rfl : legal = false := hl
      obtain rfl : csr = rv.csr := he
      simp only [hr]
      exact outcome_illegal _

/-- Every instruction word, legal or not, ends in one of these ways. -/
theorem exec_outcome (cfg : Config) (rv : Rv) (inst : Word) (host : Host) (c : Bool) :
    Outcome cfg rv inst (rv.exec cfg inst host c) := by
  have hif : ∀ {p : Prop} [Decidable p] {a b : Flow}, (p → Outcome cfg rv inst a) →
      Outcome cfg rv inst b → Outcome cfg rv inst (if p then a else b) := by
    intro p _ a b ha hb
    split_ifs with hp
    · exact ha hp
    · exact hb
  refine hif (fun _ => outcome_write _ _) ?_
  refine hif (fun _ => outcome_write _ _) ?_
  refine hif (fun _ => outcome_jal) ?_
  refine hif (fun _ => outcome_jalr) ?_
  refine hif (fun _ => outcome_branch) ?_
  refine hif (fun _ => outcome_load) ?_
  refine hif (fun _ => outcome_store) ?_
  refine hif (fun _ => outcome_writeRd _) ?_
  refine hif (fun _ => outcome_writeRd _) ?_
  refine hif (fun _ => .next (Works.refl rv) rfl) ?_
  refine hif (fun ho => ?_) (outcome_illegal _)
  unfold execSystem
  split_ifs with hf
  · exact outcome_env ho hf
  · exact outcome_csr ⟨ho, hf⟩

/-! Compressed instructions: none expands to a SYSTEM instruction, but for C.EBREAK. -/

theorem extractLsb'_append_low {n : ℕ} (x : BitVec n) (op : BitVec 7) :
    (x ++ op).extractLsb' 0 7 = op := by
  ext i hi
  simp [BitVec.getLsbD_append, hi]

theorem opcode_mkR (op f7 : BitVec 7) (d s1 s2 : BitVec 5) (f3 : BitVec 3) :
    opcode (mkR op d f3 s1 s2 f7) = op := extractLsb'_append_low _ op

theorem opcode_mkI (op : BitVec 7) (d s1 : BitVec 5) (f3 : BitVec 3) (imm : Word) :
    opcode (mkI op d f3 s1 imm) = op := extractLsb'_append_low _ op

theorem opcode_mkS (op : BitVec 7) (imm1 imm2 : Word) (f3 : BitVec 3) (s1 s2 : BitVec 5) :
    opcode (mkS op imm1 f3 s1 s2 imm2) = op := extractLsb'_append_low _ op

theorem opcode_mkU (op : BitVec 7) (d : BitVec 5) (imm : Word) :
    opcode (mkU op d imm) = op := extractLsb'_append_low _ op

/-- The decoder found nothing, or a word outside SYSTEM. -/
def NotSystem (r : Option Word) : Prop := ∀ w, r = some w → opcode w ≠ opSystem

theorem notSystem_none : NotSystem none := fun _ h => by cases h

theorem notSystem_some {w : Word} {op : BitVec 7} (h : opcode w = op) (hop : op ≠ opSystem) :
    NotSystem (some w) := by
  rintro _ ⟨rfl⟩
  rwa [h]

theorem notSystem_ite {p : Prop} [Decidable p] {a b : Option Word} (ha : NotSystem a)
    (hb : NotSystem b) : NotSystem (if p then a else b) := by
  split_ifs
  · exact ha
  · exact hb

theorem notSystem_mkI {op : BitVec 7} {d s1 : BitVec 5} {f3 : BitVec 3} {imm : Word}
    (hop : op ≠ opSystem) : NotSystem (some (mkI op d f3 s1 imm)) :=
  notSystem_some (opcode_mkI op d s1 f3 imm) hop

theorem notSystem_mkR {op f7 : BitVec 7} {d s1 s2 : BitVec 5} {f3 : BitVec 3}
    (hop : op ≠ opSystem) : NotSystem (some (mkR op d f3 s1 s2 f7)) :=
  notSystem_some (opcode_mkR op f7 d s1 s2 f3) hop

theorem notSystem_mkS {op : BitVec 7} {imm1 imm2 : Word} {f3 : BitVec 3} {s1 s2 : BitVec 5}
    (hop : op ≠ opSystem) : NotSystem (some (mkS op imm1 f3 s1 s2 imm2)) :=
  notSystem_some (opcode_mkS op imm1 imm2 f3 s1 s2) hop

theorem notSystem_mkU {op : BitVec 7} {d : BitVec 5} {imm : Word} (hop : op ≠ opSystem) :
    NotSystem (some (mkU op d imm)) :=
  notSystem_some (opcode_mkU op d imm) hop

theorem decodeC0_notSystem (k : BitVec 16) : NotSystem (decodeC0 k) := by
  unfold decodeC0
  split_ifs
  · exact notSystem_none
  · exact notSystem_mkI (by decide)
  · exact notSystem_none
  · exact notSystem_mkI (by decide)
  · exact notSystem_mkS (by decide)
  · exact notSystem_none

theorem decodeCa_notSystem (k : BitVec 16) : NotSystem (decodeCa k) := by
  unfold decodeCa
  refine notSystem_ite (notSystem_mkR (by decide)) ?_
  refine notSystem_ite (notSystem_mkR (by decide)) ?_
  refine notSystem_ite (notSystem_mkI (by decide)) ?_
  refine notSystem_ite notSystem_none ?_
  refine notSystem_ite (notSystem_mkR (by decide)) ?_
  refine notSystem_ite (notSystem_mkR (by decide)) ?_
  exact notSystem_ite (notSystem_mkR (by decide)) (notSystem_mkR (by decide))

theorem decodeC1_notSystem (k : BitVec 16) : NotSystem (decodeC1 k) := by
  have hnop : NotSystem (some cNop) := notSystem_mkI (by decide)
  unfold decodeC1
  refine notSystem_ite (notSystem_ite hnop (notSystem_mkI (by decide))) ?_
  refine notSystem_ite (notSystem_mkS (by decide)) ?_
  refine notSystem_ite (notSystem_mkS (by decide)) ?_
  refine notSystem_ite (notSystem_mkU (by decide)) ?_
  refine notSystem_ite (notSystem_mkU (by decide)) ?_
  refine notSystem_ite (notSystem_ite hnop (notSystem_mkI (by decide))) ?_
  refine notSystem_ite (notSystem_ite ?_ ?_) (decodeCa_notSystem k)
  · exact notSystem_ite (notSystem_mkI (by decide)) notSystem_none
  · exact notSystem_ite (notSystem_ite (notSystem_mkU (by decide)) notSystem_none) hnop

theorem decodeC2_notSystem (k : BitVec 16) :
    NotSystem (decodeC2 k) ∨ decodeC2 k = some 0x00100073#32 := by
  unfold decodeC2
  split_ifs
  · exact Or.inl (notSystem_mkI (by decide))
  · exact Or.inl (notSystem_mkR (by decide))
  · exact Or.inr rfl
  · exact Or.inl (notSystem_mkI (by decide))
  · exact Or.inl (notSystem_mkR (by decide))
  · exact Or.inl notSystem_none
  · exact Or.inl (notSystem_mkI (by decide))
  · exact Or.inl notSystem_none
  · exact Or.inl (notSystem_mkR (by decide))
  · exact Or.inl notSystem_none
  · exact Or.inl (notSystem_mkS (by decide))
  · exact Or.inl notSystem_none

theorem compressedDecoder_opcode {k : BitVec 16} {inst : Word} (hk : cOp k ≠ 3#2)
    (h : (compressedDecoder k inst).illegal = false) :
    opcode (compressedDecoder k inst).inst ≠ opSystem ∨
      (compressedDecoder k inst).inst = 0x00100073#32 := by
  have hsome : ∀ {r : Option Word}, r.isNone = false → r = some (r.getD 0#32) := by
    intro r hr
    cases r with
    | none => cases hr
    | some w => rfl
  unfold compressedDecoder at h ⊢
  simp only [if_neg hk] at h ⊢
  split_ifs at h ⊢
  · exact Or.inl (decodeC0_notSystem k _ (hsome h))
  · exact Or.inl (decodeC1_notSystem k _ (hsome h))
  · rcases decodeC2_notSystem k with hn | he
    · exact Or.inl (hn _ (hsome h))
    · exact Or.inr (congrArg (Option.getD · 0#32) he)

/-! From the prologue to the switch. -/

/-- The step up to the switch: it ends at an illegal compressed instruction, or delivers the state
there, the word to execute and its form. -/
def dispatch (cfg : Config) (host : Host) (rv : Rv) : Except (Ret × Rv) (Rv × Word × Bool) :=
  let (rv', inst) := rv.prologue cfg host
  if cfg.rv32c then rv'.expand ((rv.settle cfg).fetchC host) inst else .ok (rv', inst, false)

theorem srv32Step_eq (cfg : Config) (host : Host) (rv : Rv) : srv32Step cfg host rv =
    match rv.dispatch cfg host with
    | .error r => r
    | .ok (rv', inst, c) => rv'.execNext cfg inst host c := by
  unfold srv32Step dispatch
  simp only
  split_ifs <;> rfl

/-- Without compressed instructions the switch executes the word fetched. -/
theorem dispatch_rv32im (rv : Rv) (host : Host) : rv.dispatch .rv32im host =
    .ok ((rv.prologue .rv32im host).1, (rv.prologue .rv32im host).2, false) := rfl

/-- What stands at the switch, from the state `s` the word was fetched in: only counters and
latches have changed. -/
structure Ready (host : Host) (s d : Rv) (inst : Word) : Prop where
  state : ∃ time cycle instret mtime compressedPrev, d =
    { s.sampleIrq (s.fetch host) with
      prevPc := s.pc
      csr := { s.csr with time := time, cycle := cycle, instret := instret, mtime := mtime }
      latch := { (s.sampleIrq (s.fetch host)).latch with compressedPrev := compressedPrev } }
  word : inst = s.fetch host ∨ opcode inst ≠ opSystem ∨ inst = 0x00100073#32

/-- The step reaches the switch, or traps there at an illegal compressed instruction. -/
theorem dispatch_cases (cfg : Config) (host : Host) (rv : Rv) :
    (∃ d inst c, rv.dispatch cfg host = .ok (d, inst, c) ∧
      Ready host (rv.settle cfg) d inst) ∨
    ∃ d val, rv.dispatch cfg host = .error (.code rvTrap, d.trap trapInstIll val) ∧
      Ready host (rv.settle cfg) d ((rv.settle cfg).fetch host) := by
  generalize hs : rv.settle cfg = s
  have hpro : rv.prologue cfg host = ((s.sampleIrq (s.fetch host)).count, s.fetch host) := by
    rw [prologue, hs]
  have hready : ∀ n p inst, (inst = s.fetch host ∨ opcode inst ≠ opSystem ∨ inst = 0x00100073#32) →
      Ready host s { (s.sampleIrq (s.fetch host)).count.cycleAdd n with
        latch.compressedPrev := p } inst :=
    fun _ _ _ hw => ⟨⟨_, _, _, _, _, rfl⟩, hw⟩
  unfold dispatch
  rw [hpro, hs]
  simp only
  by_cases hc : cfg.rv32c = true
  · rw [if_pos hc, expand]
    obtain ⟨n, hn⟩ : ∃ n, (if (s.sampleIrq (s.fetch host)).count.latch.compressedPrev ≠
        (compressedDecoder (s.fetchC host) (s.fetch host)).compressed
        then (s.sampleIrq (s.fetch host)).count.cycleAdd 1#32
        else (s.sampleIrq (s.fetch host)).count) =
        (s.sampleIrq (s.fetch host)).count.cycleAdd n := by
      split_ifs
      · exact ⟨1#32, rfl⟩
      · exact ⟨0#32, (cycleAdd_zero _).symm⟩
    simp only [hn]
    cases hill : (compressedDecoder (s.fetchC host) (s.fetch host)).illegal with
    | true => exact Or.inr ⟨_, _, if_pos rfl, hready n _ _ (Or.inl rfl)⟩
    | false =>
      refine Or.inl ⟨_, _, _, if_neg (by simp), hready n _ _ ?_⟩
      by_cases hk : cOp (s.fetchC host) = 3#2
      · left
        simp [compressedDecoder, hk]
      · exact Or.inr (compressedDecoder_opcode hk hill)
  · rw [if_neg hc]
    refine Or.inl ⟨_, _, _, rfl, ?_⟩
    have h := hready 0#32 (s.sampleIrq (s.fetch host)).count.latch.compressedPrev _ (Or.inl rfl)
    rw [cycleAdd_zero] at h
    exact h

end Rv

end Srv32.Iss

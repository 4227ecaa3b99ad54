import Srv32.Refine.Exec
import Srv32.Rtl.Trap

/-! Which instruction words the two models reject. -/

namespace Srv32.Iss

def TrapsIllegal (r : Ret × Rv) : Prop := r.1 = .code rvTrap ∧ r.2.csr.mcause = trapInstIll

instance (r : Ret × Rv) : Decidable (TrapsIllegal r) := inferInstanceAs (Decidable (_ ∧ _))

namespace Rv

variable {rv : Rv} {inst : Word} {host : Host} {cause val : Word}

/-- `readRegs (rs1) + imm` of a load and of a store. -/
def loadAddr (rv : Rv) (inst : Word) : Word := rv.regs (rs1 inst) + immI inst
def storeAddr (rv : Rv) (inst : Word) : Word := rv.regs (rs1 inst) + immS inst

/-- Bytes a load or store accesses, by `func3`. -/
def width (op : BitVec 3) : Word := 1#32 <<< (op.toNat % 4)

/-- The data access of `inst` is aligned and inside memory. -/
def DataOk (rv : Rv) (inst : Word) : Prop :=
  (opcode inst = opLoad → Rtl.isLoadOp (func3 inst) = true →
    (rv.loadAddr inst).toNat % (width (func3 inst)).toNat = 0 ∧
      rv.memOk (rv.loadAddr inst) (width (func3 inst)) = true) ∧
  (opcode inst = opStore → Rtl.isStoreOp (func3 inst) = true →
    (rv.storeAddr inst).toNat % (width (func3 inst)).toNat = 0 ∧
      rv.memOk (rv.storeAddr inst) (width (func3 inst)) = true)

theorem loadLen_of_illegal {op : BitVec 3} (h : Rtl.isLoadOp op = false) (a : Word) :
    loadLen op a = .error trapInstIll := by
  simp only [Rtl.isLoadOp, Bool.or_eq_false_iff, beq_eq_false_iff_ne] at h
  simp [loadLen, h]

theorem loadLen_of_aligned {op : BitVec 3} (h : Rtl.isLoadOp op = true) {a : Word}
    (ha : a.toNat % (width op).toNat = 0) : loadLen op a = .ok (width op) := by
  rcases Bits.cases3 op with rfl | rfl | rfl | rfl | rfl | rfl | rfl | rfl
  · rfl
  · have h1 : a &&& 1#32 = 0#32 := (Bits.and_one_eq_zero a).mpr ha
    simp [loadLen, h1, width]
  · have h3 : a &&& 3#32 = 0#32 := (Bits.and_three_eq_zero a).mpr ha
    simp [loadLen, h3, width]
  · simp [Rtl.isLoadOp] at h
  · rfl
  · have h1 : a &&& 1#32 = 0#32 := (Bits.and_one_eq_zero a).mpr ha
    simp [loadLen, h1, width]
  · simp [Rtl.isLoadOp] at h
  · simp [Rtl.isLoadOp] at h

theorem storeLen_of_illegal {op : BitVec 3} (h : Rtl.isStoreOp op = false) (a : Word) :
    storeLen op a = .error trapInstIll := by
  simp only [Rtl.isStoreOp, Bool.or_eq_false_iff, beq_eq_false_iff_ne] at h
  simp [storeLen, h]

theorem storeLen_of_aligned {op : BitVec 3} (h : Rtl.isStoreOp op = true) {a : Word}
    (ha : a.toNat % (width op).toNat = 0) : storeLen op a = .ok (width op) := by
  simp only [Rtl.isStoreOp, Bool.or_eq_true, beq_iff_eq] at h
  rcases h with (rfl | rfl) | rfl
  · rfl
  · have h1 : a &&& 1#32 = 0#32 := (Bits.and_one_eq_zero a).mpr ha
    simp [storeLen, h1, width]
  · have h3 : a &&& 3#32 = 0#32 := (Bits.and_three_eq_zero a).mpr ha
    simp [storeLen, h3, width]

/-- The value an aligned load from memory puts in `rd`. -/
def loadValue (rv : Rv) (inst : Word) : Word :=
  loadExtend (func3 inst) (lowBytes (width (func3 inst)) fun i =>
    rv.mem (rv.offset (rv.loadAddr inst) + i))

theorem memrwLoad_of_dataOk (hd : rv.DataOk inst) (ho : opcode inst = opLoad)
    (hl : Rtl.isLoadOp (func3 inst) = true) :
    rv.memrwLoad host (func3 inst) (rv.loadAddr inst) = (0#32, rv.loadValue inst) := by
  obtain ⟨ha, hm⟩ := hd.1 ho hl
  have hr : rv.readMem (rv.loadAddr inst) (width (func3 inst)) =
      some fun i : ℕ => rv.mem (rv.offset (rv.loadAddr inst) + i) := by
    rw [readMem, if_pos hm]
  simp only [memrwLoad, loadLen_of_aligned hl ha, hr]
  rfl

theorem exec_load (hd : rv.DataOk inst) (ho : opcode inst = opLoad)
    (hl : Rtl.isLoadOp (func3 inst) = true) :
    rv.exec .rv32im inst host false = .brk { rv.ramCycle with
      regs := Function.update rv.regs (rd inst) (rv.loadValue inst) } := by
  have hld : rv.memrwLoad host (func3 inst) (rv.loadAddr inst) = (0#32, rv.loadValue inst) :=
    memrwLoad_of_dataOk hd ho hl
  have hreg : rv.ramCycle.regs = rv.regs := by
    unfold ramCycle
    split <;> rfl
  have hop : opcode inst = opLoad := ho
  simp only [exec, hop, execLoad, readRegs_rv32im]
  rw [show rv.regs (rs1 inst) + immI inst = rv.loadAddr inst from rfl, hld]
  simp [hreg]

theorem memrwStore_of_dataOk (hd : rv.DataOk inst) (ho : opcode inst = opStore)
    (hl : Rtl.isStoreOp (func3 inst) = true) :
    rv.memrwStore host (func3 inst) (rv.storeAddr inst) (rv.regs (rs2 inst)) =
      (.code 0#32, { rv with
        mem := rv.copyIn (rv.offset (rv.storeAddr inst)) (width (func3 inst)).toInt
          (byteOfWord (rv.regs (rs2 inst))) }) := by
  obtain ⟨ha, hm⟩ := hd.2 ho hl
  simp only [memrwStore, storeLen_of_aligned hl ha, writeMem, hm, if_true]

theorem exec_store (hd : rv.DataOk inst) (ho : opcode inst = opStore)
    (hl : Rtl.isStoreOp (func3 inst) = true) :
    rv.exec .rv32im inst host false = .brk { rv with
      mem := rv.copyIn (rv.offset (rv.storeAddr inst)) (width (func3 inst)).toInt
        (byteOfWord (rv.regs (rs2 inst))) }.ramCycle := by
  have hw : rv.memrwStore host (func3 inst) (rv.storeAddr inst) (rv.regs (rs2 inst)) =
      (.code 0#32, { rv with
        mem := rv.copyIn (rv.offset (rv.storeAddr inst)) (width (func3 inst)).toInt
          (byteOfWord (rv.regs (rs2 inst))) }) := memrwStore_of_dataOk hd ho hl
  simp only [exec, ho, execStore, readRegs_rv32im]
  rw [show rv.regs (rs1 inst) + immS inst = rv.storeAddr inst from rfl, hw]
  simp

/-! The words the simulator rejects. -/

/-- `inst` has one of the opcodes. -/
def knownOp (inst : Word) : Bool :=
  opcode inst == opAuipc || opcode inst == opLui || opcode inst == opJal ||
  opcode inst == opJalr || opcode inst == opBranch || opcode inst == opLoad ||
  opcode inst == opStore || opcode inst == opArithI || opcode inst == opArithR ||
  opcode inst == opFence || opcode inst == opSystem

/-- A shift by an immediate with a reserved `func7`. -/
def badShift (inst : Word) : Bool :=
  (func3 inst == opSll && func7 inst != fnRv32i) ||
    (func3 inst == opSr && func7 inst != fnSrl && func7 inst != fnSra)

theorem arithI_eq_none : rv.arithI .rv32im inst = none ↔ badShift inst = true := by
  rcases Bits.cases3 (func3 inst) with h | h | h | h | h | h | h | h <;>
    by_cases h0 : func7 inst = fnSrl <;> by_cases h2 : func7 inst = fnSra <;>
      simp [arithI, badShift, h, h0, h2]

/-- A reserved OP_ARITHR group, or a reserved member of the group of SUB and SRA. -/
def badArithR (inst : Word) : Bool :=
  (func7 inst != fnRv32m && func7 inst != fnRv32i && func7 inst != fnAndn) ||
    (func7 inst == fnAndn && func3 inst != opAdd && func3 inst != opSr)

theorem arithR_eq_none : rv.arithR .rv32im inst = none ↔ badArithR inst = true := by
  by_cases h1 : func7 inst = fnRv32m
  · simp [arithR, badArithR, h1]
  · by_cases h0 : func7 inst = fnRv32i
    · simp [arithR, badArithR, h0]
    · by_cases h2 : func7 inst = fnAndn
      · by_cases h3 : func3 inst = opAdd
        · simp [arithR, badArithR, arithAndn, h2, h3]
        · by_cases h5 : func3 inst = opSr <;> simp [arithR, badArithR, arithAndn, h2, h3, h5]
      · simp [arithR, badArithR, h0, h1, h2]

/-- Words with `func3` 0 and `imm[1:0]` 3, `func3` 4, or an unsupported CSR number. -/
def badSystem (inst : Word) : Bool :=
  if func3 inst = opEcall then (imm12 inst).extractLsb' 0 2 == 3#2
  else func3 inst == 4#3 || decide (imm12 inst ∉ Rtl.Slot.csrNumbers)

/-- The words the simulator takes an illegal-instruction trap on. -/
def rejects (inst : Word) : Bool :=
  if opcode inst = opBranch then func3 inst == 2#3 || func3 inst == 3#3
  else if opcode inst = opLoad then !Rtl.isLoadOp (func3 inst)
  else if opcode inst = opStore then !Rtl.isStoreOp (func3 inst)
  else if opcode inst = opArithI then badShift inst
  else if opcode inst = opArithR then badArithR inst
  else if opcode inst = opSystem then badSystem inst
  else !knownOp inst

/-- An arm that does not return from a trap. -/
def NoTrap : Flow → Prop
  | .brk _ => True
  | .ret r _ => r ≠ .code rvTrap

theorem not_trapsIllegal (h : NoTrap (rv.exec .rv32im inst host false)) :
    ¬ TrapsIllegal (rv.execNext .rv32im inst host false) := by
  unfold execNext
  cases he : rv.exec .rv32im inst host false with
  | brk rv' => simp [TrapsIllegal]
  | ret r rv' =>
    rw [he] at h
    exact fun ht => h ht.1

theorem trapsIllegal_of_trapRet {rv' : Rv}
    (h : rv.exec .rv32im inst host false = rv'.trapRet cause val) :
    TrapsIllegal (rv.execNext .rv32im inst host false) ↔ cause = trapInstIll := by
  simp only [execNext, h, trapRet, TrapsIllegal, true_and]
  rfl

/-- An arm that has no value for `rd` traps, and leaves the registers alone. -/
theorem execNext_writeRd_none {cfg : Config} {c : Bool}
    (he : rv.exec cfg inst host c = rv.writeRd cfg inst none) :
    rv.execNext cfg inst host c = (.code rvTrap, rv.trap trapInstIll inst) := by
  rw [execNext, he]
  rfl

/-- An arm that may write `rd` raises the exception exactly if it has no value. -/
theorem trapsIllegal_writeRd {cfg : Config} {c : Bool} {v : Option Word}
    (he : rv.exec cfg inst host c = rv.writeRd cfg inst v) :
    TrapsIllegal (rv.execNext cfg inst host c) ↔ v = none := by
  cases v with
  | none =>
    rw [execNext_writeRd_none he]
    exact iff_of_true ⟨rfl, rfl⟩ rfl
  | some w =>
    have hx : (rv.execNext cfg inst host c).1 = .code rvOkay := by
      rw [execNext, he]
      rfl
    have hno : ¬ TrapsIllegal (rv.execNext cfg inst host c) := by
      intro h
      exact absurd (hx.symm.trans h.1) (by decide)
    exact iff_of_false hno (by simp)

theorem noTrap_jump (t : Word) : NoTrap (rv.jump .rv32im inst false t) := by
  simp only [jump]
  split_ifs <;> simp [NoTrap]

theorem noTrap_execJal : NoTrap (rv.execJal .rv32im inst false) := by
  rw [execJal]
  split
  · simp [NoTrap]
  · exact noTrap_jump _

theorem noTrap_execJalr : NoTrap (rv.execJalr .rv32im inst false) := by
  rw [execJalr]
  split
  · simp [NoTrap]
  · exact noTrap_jump _

theorem noTrap_branchArm (taken : Bool) (t : Word) : NoTrap (rv.branchArm taken t) := by
  simp only [branchArm]
  split_ifs <;> simp [NoTrap]

theorem noTrap_execMret : NoTrap (rv.execMret .rv32im) := by
  simp only [execMret]
  split_ifs <;> simp [NoTrap]

theorem exec_load_illegal (ho : opcode inst = opLoad)
    (hl : Rtl.isLoadOp (func3 inst) = false) :
    rv.exec .rv32im inst host false = rv.ramCycle.trapRet trapInstIll inst := by
  simp [exec, ho, execLoad, memrwLoad, loadLen_of_illegal hl]

theorem exec_store_illegal (ho : opcode inst = opStore)
    (hl : Rtl.isStoreOp (func3 inst) = false) :
    rv.exec .rv32im inst host false = rv.ramCycle.trapRet trapInstIll inst := by
  simp [exec, ho, execStore, memrwStore, storeLen_of_illegal hl]

theorem trapsIllegal_branch (ho : opcode inst = opBranch) :
    TrapsIllegal (rv.execNext .rv32im inst host false) ↔ rejects inst = true := by
  have he : rv.exec .rv32im inst host false = rv.execBranch .rv32im inst := by simp [exec, ho]
  simp only [rejects, ho, if_true]
  rcases Bits.cases3 (func3 inst) with h | h | h | h | h | h | h | h
  case inr.inr.inl | inr.inr.inr.inl =>
    have ht : rv.exec .rv32im inst host false = rv.trapRet trapInstIll inst := by
      rw [he]
      simp [execBranch, h]
    rw [trapsIllegal_of_trapRet ht]
    simp [h]
  all_goals
    refine iff_of_false (not_trapsIllegal ?_) (by simp [h])
    rw [he]
    simpa [execBranch, h] using noTrap_branchArm _ _

/-! The environment instructions. -/

theorem exec_ecall (ho : opcode inst = opSystem) (h3 : func3 inst = opEcall)
    (hk : (imm12 inst).extractLsb' 0 2 = 0#2) :
    rv.exec .rv32im inst host false = rv.execEcall .rv32im host := by
  simp [exec, ho, execSystem, h3, execEnv, hk]

theorem exec_ebreak (ho : opcode inst = opSystem) (h3 : func3 inst = opEcall)
    (hk : (imm12 inst).extractLsb' 0 2 = 1#2) :
    rv.exec .rv32im inst host false = rv.trapRet trapBreak rv.pc := by
  simp [exec, ho, execSystem, h3, execEnv, hk]

theorem exec_mret (ho : opcode inst = opSystem) (h3 : func3 inst = opEcall)
    (hk : (imm12 inst).extractLsb' 0 2 = 2#2) :
    rv.exec .rv32im inst host false = rv.execMret .rv32im := by
  simp [exec, ho, execSystem, h3, execEnv, hk]

theorem exec_env3 (ho : opcode inst = opSystem) (h3 : func3 inst = opEcall)
    (hk : (imm12 inst).extractLsb' 0 2 = 3#2) :
    rv.exec .rv32im inst host false = rv.trapRet trapInstIll 0#32 := by
  simp [exec, ho, execSystem, h3, execEnv, hk]

theorem syscall_error {func a0 a1 a2 : Word} {r : Ret} {rv' : Rv}
    (h : rv.syscall host func a0 a1 a2 = (.error r, rv')) (c : Word) : r ≠ .code c := by
  have hd : ∀ al r, rv.dump host al a0 a1 = some r → r ≠ .code c := by
    intro al r hr
    simp only [dump] at hr
    split_ifs at hr <;> simp only [Option.some.injEq] at hr <;> subst hr <;> simp
  simp only [syscall] at h
  split_ifs at h
  iterate 3 cases h
  · cases h
    simp [progExit]
  iterate 2 cases h
  · cases hdump : rv.dump host (dumpAligned a0 a1) a0 a1 with
    | none => rw [hdump] at h; cases h
    | some r' =>
      rw [hdump] at h
      cases h
      exact hd _ _ hdump
  · cases hdump : rv.dump host true a0 a1 with
    | none => rw [hdump] at h; cases h
    | some r' =>
      rw [hdump] at h
      cases h
      exact hd _ _ hdump
  · cases h

theorem trapsIllegal_env (ho : opcode inst = opSystem) (h3 : func3 inst = opEcall) :
    TrapsIllegal (rv.execNext .rv32im inst host false) ↔
      (imm12 inst).extractLsb' 0 2 = 3#2 := by
  have hk : ∀ q : BitVec 2, q = 0#2 ∨ q = 1#2 ∨ q = 2#2 ∨ q = 3#2 := by decide
  rcases hk ((imm12 inst).extractLsb' 0 2) with k | k | k | k
  · refine iff_of_false ?_ (by simp [k])
    have he : rv.exec .rv32im inst host false = _ := exec_ecall ho h3 k
    rcases hs : rv.syscall host (rv.readRegs .rv32im (Config.sys .rv32im))
      (rv.readRegs .rv32im regA0) (rv.readRegs .rv32im regA1)
      (rv.readRegs .rv32im regA2) with ⟨r | res, rv'⟩
    · rw [execEcall, hs] at he
      rw [execNext, he]
      exact fun ht => syscall_error hs _ ht.1
    · rw [execEcall, hs] at he
      rw [trapsIllegal_of_trapRet he]
      decide
  · rw [trapsIllegal_of_trapRet (exec_ebreak ho h3 k), k]
    decide
  · refine iff_of_false (not_trapsIllegal ?_) (by simp [k])
    rw [exec_mret ho h3 k]
    exact noTrap_execMret
  · rw [trapsIllegal_of_trapRet (exec_env3 ho h3 k)]
    simp [k]

/-! The CSR instructions. -/

theorem rw_legal (c : Csr) (n : BitVec 12) (mode : BitVec 3) (val : Word) (update : Bool) :
    (c.rw n mode val update).2.1 = decide (n ∈ Rtl.Slot.csrNumbers) := by
  by_cases h : n ∈ Rtl.Slot.csrNumbers
  · rw [decide_eq_true h]
    simp only [Rtl.Slot.csrNumbers, List.mem_cons, List.not_mem_nil, or_false] at h
    rcases h with rfl | rfl | rfl | rfl | rfl | rfl | rfl | rfl | rfl | rfl | rfl | rfl | rfl |
      rfl | rfl | rfl | rfl | rfl <;> rfl
  · rw [decide_eq_false h]
    simp only [Rtl.Slot.csrNumbers, List.mem_cons, List.not_mem_nil, or_false, not_or] at h
    simp only [Csr.rw, h, if_false]

theorem rw_illegal (c : Csr) {n : BitVec 12} (mode : BitVec 3) (val : Word) (update : Bool)
    (h : n ∉ Rtl.Slot.csrNumbers) : c.rw n mode val update = (0#32, false, c) := by
  simp only [Rtl.Slot.csrNumbers, List.mem_cons, List.not_mem_nil, or_false, not_or] at h
  simp only [Csr.rw, h, if_false]

theorem exec_csr (ho : opcode inst = opSystem) (h3 : func3 inst ≠ opEcall) :
    rv.exec .rv32im inst host false = rv.execCsr .rv32im inst := by
  simp [exec, ho, execSystem, h3]

theorem csrOperand_eq_none : rv.csrOperand .rv32im inst = none ↔
    func3 inst = opEcall ∨ func3 inst = 4#3 := by
  rcases Bits.cases3 (func3 inst) with h | h | h | h | h | h | h | h <;> simp [csrOperand, h]

theorem trapsIllegal_csr (ho : opcode inst = opSystem) (h3 : func3 inst ≠ opEcall) :
    TrapsIllegal (rv.execNext .rv32im inst host false) ↔
      func3 inst = 4#3 ∨ imm12 inst ∉ Rtl.Slot.csrNumbers := by
  have he : rv.exec .rv32im inst host false = _ := exec_csr ho h3
  rcases hop : rv.csrOperand .rv32im inst with _ | ⟨mode, val, update⟩
  · have h4 : func3 inst = 4#3 := (csrOperand_eq_none.mp hop).resolve_left h3
    rw [execCsr, hop] at he
    rw [trapsIllegal_of_trapRet he]
    simp [h4]
  · have h4 : func3 inst ≠ 4#3 := by
      intro h4
      rw [csrOperand_eq_none.mpr (Or.inr h4)] at hop
      cases hop
    have hl := rw_legal rv.csr (imm12 inst) mode val update
    rcases hrw : rv.csr.rw (imm12 inst) mode val update with ⟨res, legal, csr⟩
    rw [hrw] at hl
    rw [execCsr, hop] at he
    simp only [hrw] at he
    cases legal with
    | true =>
      have hin : imm12 inst ∈ Rtl.Slot.csrNumbers := by simpa using hl.symm
      refine iff_of_false (not_trapsIllegal ?_) (by simp [h4, hin])
      rw [he]
      trivial
    | false =>
      have hin : imm12 inst ∉ Rtl.Slot.csrNumbers := by simpa using hl.symm
      rw [trapsIllegal_of_trapRet he]
      simp [hin]

theorem trapsIllegal_iff (hd : rv.DataOk inst) :
    TrapsIllegal (rv.execNext .rv32im inst host false) ↔ rejects inst = true := by
  by_cases h1 : opcode inst = opAuipc
  · simpa [rejects, knownOp, h1] using not_trapsIllegal (by simp [exec, h1, execAuipc, NoTrap])
  by_cases h2 : opcode inst = opLui
  · simpa [rejects, knownOp, h2] using not_trapsIllegal (by simp [exec, h2, execLui, NoTrap])
  by_cases h3 : opcode inst = opJal
  · refine iff_of_false (not_trapsIllegal ?_) (by simp [rejects, knownOp, h3])
    have hx : rv.exec .rv32im inst host false = rv.execJal .rv32im inst false := by simp [exec, h3]
    rw [hx]
    exact noTrap_execJal
  by_cases h4 : opcode inst = opJalr
  · refine iff_of_false (not_trapsIllegal ?_) (by simp [rejects, knownOp, h4])
    have hx : rv.exec .rv32im inst host false = rv.execJalr .rv32im inst false := by
      simp [exec, h4]
    rw [hx]
    exact noTrap_execJalr
  by_cases h5 : opcode inst = opBranch
  · exact trapsIllegal_branch h5
  by_cases h6 : opcode inst = opLoad
  · cases hl : Rtl.isLoadOp (func3 inst) with
    | true =>
      refine iff_of_false (not_trapsIllegal ?_) (by simp [rejects, h6, hl])
      rw [exec_load hd h6 hl]
      trivial
    | false =>
      rw [trapsIllegal_of_trapRet (exec_load_illegal h6 hl)]
      simp [rejects, h6, hl]
  by_cases h7 : opcode inst = opStore
  · cases hl : Rtl.isStoreOp (func3 inst) with
    | true =>
      refine iff_of_false (not_trapsIllegal ?_) (by simp [rejects, h7, hl])
      rw [exec_store hd h7 hl]
      trivial
    | false =>
      rw [trapsIllegal_of_trapRet (exec_store_illegal h7 hl)]
      simp [rejects, h7, hl]
  by_cases h8 : opcode inst = opArithI
  · rw [trapsIllegal_writeRd (v := rv.arithI .rv32im inst) (by simp [exec, h8]), arithI_eq_none]
    simp [rejects, h8]
  by_cases h9 : opcode inst = opArithR
  · rw [trapsIllegal_writeRd (v := rv.arithR .rv32im inst) (by simp [exec, h9]), arithR_eq_none]
    simp [rejects, h9]
  by_cases h10 : opcode inst = opFence
  · simpa [rejects, knownOp, h10] using not_trapsIllegal (by simp [exec, h10, NoTrap])
  by_cases h11 : opcode inst = opSystem
  · by_cases hf : func3 inst = opEcall
    · rw [trapsIllegal_env h11 hf]
      simp [rejects, h11, badSystem, hf]
    · rw [trapsIllegal_csr h11 hf]
      simp [rejects, h11, badSystem, hf]
  · have he : rv.exec .rv32im inst host false = rv.trapRet trapInstIll inst := by
      simp only [exec, h1, h2, h3, h4, h5, h6, h7, h8, h9, h10, h11, if_false]
    rw [trapsIllegal_of_trapRet he]
    simp [rejects, knownOp, h1, h2, h3, h4, h5, h6, h7, h8, h9, h10, h11]

end Rv

end Srv32.Iss

namespace Srv32.Rtl.Slot

open Iss (Rv)

variable {x : Slot}

/-- The words that set `ex_illegal`, `ex_ill_branch` or `ex_ill_csr`. -/
def illegalWord (inst : Word) : Bool :=
  if opcode inst = opBranch then func3 inst == 2#3 || func3 inst == 3#3
  else if opcode inst = opLoad then !isLoadOp (func3 inst)
  else if opcode inst = opStore then !isStoreOp (func3 inst)
  else if opcode inst = opArithI then false
  else if opcode inst = opArithR then
    func7 inst != fnRv32i && func7 inst != fnAndn && func7 inst != fnRv32m
  else if opcode inst = opSystem then
    func3 inst != opEcall && decide (imm12 inst ∉ csrNumbers)
  else !Rv.knownOp inst

/-- SYSTEM with `func3` 0 and `imm[1:0]` 3. -/
def isEnv3 (inst : Word) : Bool :=
  opcode inst == opSystem && func3 inst == opEcall && (imm12 inst).extractLsb' 0 2 == 3#2

theorem branchCond_isNone (hl : Loaded .rv32im x) :
    x.branchCond.isNone = (func3 x.insn == 2#3 || func3 x.insn == 3#3) := by
  have hop : x.ex.aluOp = func3 x.insn := by simp [hl.decoded, decode]
  rw [branchCond, hop]
  rcases Bits.cases3 (func3 x.insn) with h | h | h | h | h | h | h | h <;> simp [h]

theorem instIllExcp_eq (hl : Loaded .rv32im x) : x.instIllExcp = illegalWord x.insn := by
  have hb := branchCond_isNone hl
  have hc : opcode x.insn = opSystem → x.csrValue.isNone = decide (imm12 x.insn ∉ csrNumbers) := by
    intro ho
    rw [csrValue_isNone, hl.decoded]
    change decide ((immOf x.insn).extractLsb' 0 12 ∉ csrNumbers) = _
    rw [immOf_system ho]
  simp only [instIllExcp, illBranch, illCsr, hl.unflushed, hb, hl.decoded, decode, illegalWord,
    isLegal, Rv.knownOp, Bool.not_false, Bool.true_and, Bool.and_true]
  by_cases h5 : opcode x.insn = opBranch
  · simp [h5]
  by_cases h6 : opcode x.insn = opLoad
  · simp [h6]
  by_cases h7 : opcode x.insn = opStore
  · simp [h7]
  by_cases h8 : opcode x.insn = opArithI
  · simp [h8]
  by_cases h9 : opcode x.insn = opArithR
  · simp [h9, isAluFn, bne]
  by_cases h11 : opcode x.insn = opSystem
  · simp [h11, hc]
  · simp [h5, h6, h7, h8, h9, h11, beq_eq_false_iff_ne.mpr h5, beq_eq_false_iff_ne.mpr h6,
      beq_eq_false_iff_ne.mpr h7, beq_eq_false_iff_ne.mpr h8, beq_eq_false_iff_ne.mpr h9,
      beq_eq_false_iff_ne.mpr h11]

theorem systemcall_eq_env (hl : Loaded .rv32im x) : x.systemcall =
    (opcode x.insn == opSystem && func3 x.insn == opEcall) := by
  simp [systemcall, hl.unflushed, hl.decoded, decode]

theorem envKind_eq (hl : Loaded .rv32im x) (ho : opcode x.insn = opSystem) :
    x.envKind = (imm12 x.insn).extractLsb' 0 2 := by
  have hi : immOf x.insn = (imm12 x.insn).setWidth 32 := by simp [immOf, ho]
  rw [envKind, hl.decoded]
  change (immOf x.insn).extractLsb' 0 2 = _
  rw [hi]
  apply BitVec.eq_of_getLsbD_eq
  intro i h
  interval_cases i <;> simp

/-- The core takes a trap, not an MRET, and records cause 2. -/
def TrapsIllegal (x : Slot) : Prop :=
  x.trap = true ∧ x.isMret = false ∧ x.csrNext.mcause = trapInstIll

instance (x : Slot) : Decidable x.TrapsIllegal := inferInstanceAs (Decidable (_ ∧ _ ∧ _))

theorem trapsIllegal_iff (hl : Loaded .rv32im x) (hpc : x.pc.toNat % 4 = 0) :
    x.TrapsIllegal ↔ (illegalWord x.insn || isEnv3 x.insn) = true := by
  rw [← instIllExcp_eq hl]
  constructor
  · rintro ⟨ht, hm, hc⟩
    rw [csrNext_mcause hl hpc ht] at hc
    cases cause_of_trap ht with
    | illegal hill => simp [hill]
    | instAlign hill ha => simp [mcause, hill, ha] at hc
    | ldAlign hill ha hld => simp [mcause, hill, ha, hld] at hc
    | stAlign hill ha hld hst => simp [mcause, hill, ha, hld, hst] at hc
    | timer hx h1 =>
      simp only [excp, Bool.or_eq_false_iff, and_assoc] at hx
      simp [mcause, hx, h1] at hc
    | software hx h1 h2 =>
      simp only [excp, Bool.or_eq_false_iff, and_assoc] at hx
      simp [mcause, hx, h1, h2] at hc
    | external hx h1 h2 h3 =>
      simp only [excp, Bool.or_eq_false_iff, and_assoc] at hx
      simp [mcause, hx, h1, h2, h3] at hc
    | env hx h1 h2 h3 hs =>
      simp only [excp, Bool.or_eq_false_iff, and_assoc] at hx
      have hso := hs
      rw [systemcall_eq_env hl, Bool.and_eq_true, beq_iff_eq, beq_iff_eq] at hso
      have hk2 : x.envKind ≠ 2#2 := by simpa [isMret, hs] using hm
      have hk : ∀ q : BitVec 2, q = 0#2 ∨ q = 1#2 ∨ q = 2#2 ∨ q = 3#2 := by decide
      rcases hk x.envKind with k | k | k | k
      · simp [mcause, hx, h1, h2, h3, hs, k] at hc
      · simp [mcause, hx, h1, h2, h3, hs, k] at hc
      · exact absurd k hk2
      · rw [envKind_eq hl hso.1] at k
        simp [isEnv3, hso, k]
  · intro h
    cases hill : x.instIllExcp with
    | true =>
      have ht : x.trap = true := by simp [trap, excp, hill, hl.unflushed]
      refine ⟨ht, ?_, ?_⟩
      · by_contra hm
        simp only [isMret, Bool.not_eq_false, Bool.and_eq_true] at hm
        have hs := hm.1
        rw [systemcall_eq_env hl, Bool.and_eq_true, beq_iff_eq, beq_iff_eq] at hs
        rw [instIllExcp_eq hl] at hill
        simp [illegalWord, hs] at hill
      · rw [csrNext_mcause hl hpc ht]
        simp [mcause, hill]
    | false =>
      rw [hill, Bool.false_or] at h
      simp only [isEnv3, Bool.and_eq_true, beq_iff_eq] at h
      obtain ⟨⟨ho, h3⟩, hk⟩ := h
      have hs : x.systemcall = true := by simp [systemcall_eq_env hl, ho, h3]
      have hk' : x.envKind = 3#2 := by rw [envKind_eq hl ho, hk]
      have ht : x.trap = true := by simp [trap, hs, hl.unflushed]
      refine ⟨ht, by simp [isMret, hk'], ?_⟩
      have ha : x.instAlignExcp = false :=
        instAlignExcp_of_no_jump hl hpc (by simp [hl.decoded, decode, ho])
          (by simp [hl.decoded, decode, ho]) (by simp [hl.decoded, decode, ho])
      have hld : x.ldAlignExcp = false := by simp [ldAlignExcp, hl.mem2reg, ho]
      have hst : x.stAlignExcp = false := by simp [stAlignExcp, hl.decoded, decode, ho]
      have hop : x.ex.systemOp = true := by simp [hl.decoded, decode, ho]
      rw [csrNext_mcause hl hpc ht]
      simp [mcause, hill, ha, hld, hst, timerInt, swInt, extInt, irqGate, hop, hs, hk']

end Srv32.Rtl.Slot

namespace Srv32.Refine

open Iss (Rv Host srv32Step)
open Rtl (Slot)

/-- The words only stage 2 executes: reserved shifts and OP_ARITHR words, and CSR instructions
with `func3` 4. -/
def onlyRtl (inst : Word) : Bool :=
  reserved inst ||
    (opcode inst == opSystem && func3 inst == 4#3 && decide (imm12 inst ∈ Slot.csrNumbers))

theorem onlyRtl_disjoint {inst : Word} (h : onlyRtl inst = true) :
    (Slot.illegalWord inst || Slot.isEnv3 inst) = false := by
  simp only [onlyRtl, reserved, Bool.or_eq_true, Bool.and_eq_true, beq_iff_eq] at h
  rcases h with (⟨ho, -⟩ | ⟨⟨⟨ho, h7⟩, -⟩, -⟩) | ⟨⟨ho, h3⟩, hn⟩
  · simp [Slot.illegalWord, Slot.isEnv3, ho]
  · simp [Slot.illegalWord, Slot.isEnv3, ho, h7]
  · have hn' : imm12 inst ∈ Slot.csrNumbers := by simpa using hn
    simp [Slot.illegalWord, Slot.isEnv3, ho, h3, hn']

/-- The simulator rejects what the core rejects, and the words only the core executes. -/
theorem rejects_eq (inst : Word) :
    Rv.rejects inst = (Slot.illegalWord inst || Slot.isEnv3 inst || onlyRtl inst) := by
  by_cases h5 : opcode inst = opBranch
  · simp [Rv.rejects, Slot.illegalWord, Slot.isEnv3, onlyRtl, reserved, h5]
  by_cases h6 : opcode inst = opLoad
  · simp [Rv.rejects, Slot.illegalWord, Slot.isEnv3, onlyRtl, reserved, h6]
  by_cases h7 : opcode inst = opStore
  · simp [Rv.rejects, Slot.illegalWord, Slot.isEnv3, onlyRtl, reserved, h7]
  by_cases h8 : opcode inst = opArithI
  · simp [Rv.rejects, Slot.illegalWord, Slot.isEnv3, onlyRtl, reserved, h8, Rv.badShift]
  by_cases h9 : opcode inst = opArithR
  · by_cases hf : func7 inst = fnAndn
    · simp [Rv.rejects, Slot.illegalWord, Slot.isEnv3, onlyRtl, reserved, h9, Rv.badArithR, hf]
    · have hf' : (func7 inst == fnAndn) = false := beq_eq_false_iff_ne.mpr hf
      simp only [Rv.rejects, Slot.illegalWord, Slot.isEnv3, onlyRtl, reserved, h9, Rv.badArithR,
        hf', bne]
      cases func7 inst == fnRv32i <;> cases func7 inst == fnRv32m <;> rfl
  by_cases h11 : opcode inst = opSystem
  · by_cases hn : imm12 inst ∈ Slot.csrNumbers
    · by_cases h3 : func3 inst = opEcall
      · simp [Rv.rejects, Slot.illegalWord, Slot.isEnv3, onlyRtl, reserved, h11, Rv.badSystem, h3]
      · simp [Rv.rejects, Slot.illegalWord, Slot.isEnv3, onlyRtl, reserved, h11, Rv.badSystem, h3,
          hn]
    · by_cases h3 : func3 inst = opEcall <;>
        simp [Rv.rejects, Slot.illegalWord, Slot.isEnv3, onlyRtl, reserved, h11, Rv.badSystem, h3,
          hn]
  · simp [Rv.rejects, Slot.illegalWord, Slot.isEnv3, onlyRtl, reserved, h5, h6, h7, h8, h9, h11,
      beq_eq_false_iff_ne.mpr h8, beq_eq_false_iff_ne.mpr h9, beq_eq_false_iff_ne.mpr h11]

/-- From equal states the two models agree on whether a word is illegal just when it is not one
that only stage 2 executes. -/
theorem illegal_agree_iff (k : Known) (host : Host) (rv : Rv) (x : Slot)
    (h : Matched k x (rv.prologue .rv32im host).1 (rv.prologue .rv32im host).2)
    (hd : (rv.prologue .rv32im host).1.DataOk (rv.prologue .rv32im host).2) :
    (Iss.TrapsIllegal (srv32Step .rv32im host rv) ↔ x.TrapsIllegal) ↔
      onlyRtl (rv.prologue .rv32im host).2 = false := by
  have hs : srv32Step .rv32im host rv =
      (rv.prologue .rv32im host).1.execNext .rv32im (rv.prologue .rv32im host).2 host false := rfl
  have hx : x.pc.toNat % 4 = 0 := by
    rw [h.pc]
    exact h.aligned
  rw [hs, Rv.trapsIllegal_iff hd, rejects_eq, Slot.trapsIllegal_iff h.loaded hx, h.insn]
  cases ho : onlyRtl (rv.prologue .rv32im host).2 with
  | false => simp
  | true => simp [onlyRtl_disjoint ho]

/-- `slli x0, x0, 0` with `func7` 1 traps in the simulator only. -/
theorem illegal_disagree_slli :
    let rv := Rv.boot .rv32im 1 (Iss.image [0x02001013#32])
    let d := rv.prologue .rv32im .none
    Matched .all (slotOf d.1 d.2) d.1 d.2 ∧ d.1.DataOk d.2 ∧
      ¬ (Iss.TrapsIllegal (srv32Step .rv32im .none rv) ↔ (slotOf d.1 d.2).TrapsIllegal) := by
  intro rv d
  have hd : d.2 = 0x02001013#32 := by decide
  have hl : opcode (0x02001013#32) ≠ opLoad ∧ opcode (0x02001013#32) ≠ opStore := by decide
  refine ⟨matched_slotOf _ _ _ (by decide) (by decide) (by decide) (by decide) (by decide)
    (by decide), ?_, by decide⟩
  rw [Rv.DataOk, hd]
  exact ⟨fun h => absurd h hl.1, fun h => absurd h hl.2⟩

/-- On `slli x0, x0, 0` itself they agree. -/
theorem illegal_agree_slli :
    let rv := Rv.boot .rv32im 1 (Iss.image [0x00001013#32])
    let d := rv.prologue .rv32im .none
    Iss.TrapsIllegal (srv32Step .rv32im .none rv) ↔ (slotOf d.1 d.2).TrapsIllegal := by
  intro rv d
  have hd : d.2 = 0x00001013#32 := by decide
  have hl : opcode (0x00001013#32) ≠ opLoad ∧ opcode (0x00001013#32) ≠ opStore := by decide
  refine (illegal_agree_iff .all .none rv _ (matched_slotOf _ _ _ (by decide) (by decide)
    (by decide) (by decide) (by decide) (by decide)) ?_).mpr (by decide)
  rw [Rv.DataOk]
  exact ⟨fun h => absurd (hd ▸ h) hl.1, fun h => absurd (hd ▸ h) hl.2⟩

end Srv32.Refine

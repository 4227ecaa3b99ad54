import Srv32.Iss.Moves
import Srv32.Trace

/-! What the simulator writes for the program: characters to the console, and `dump.txt`. -/

namespace Srv32.Iss

open Trace (dumpLine)

/-- What the program writes in one call of `srv32_step`: to descriptor 1, and to `dump.txt` when it
is opened, which empties it. The messages of the simulator itself, and the statistics of
`prog_exit`, are no part of it. -/
structure Output where
  console : List Byte
  dump : Option (List Char)

def Output.none : Output := ⟨[], Option.none⟩

namespace Rv

variable (rv : Rv) (host : Host)

/-- `write(fd, ptr, count)` to descriptor 1: the host takes as many bytes as its result says. -/
def hostWrite (fd : Word) (ptr : Option ℤ) (count : Word) : List Byte :=
  match ptr with
  | some off =>
    if fd = 1#32 then (List.range (moved (host.sys (.write fd ptr count)) count)).map
      fun i : ℕ => rv.mem (off + i)
    else []
  | Option.none => []

/-- The loop of SYS_DUMP. -/
def dumpWords (start stop : Option ℤ) : List Char :=
  match start, stop with
  | some s, some e =>
    (List.range ((e - s) / 4).toNat).flatMap fun j : ℕ => dumpLine (rv.intAt (s + 4 * j))
  | _, _ => []

def dumpText (a0 a1 : Word) : Option (List Char) :=
  if !host.fopen then Option.none
  else if !dumpAligned a0 a1 then some []
  else some (rv.dumpWords (rv.getMemptr a0) (rv.getMemptr a1))

/-- The arms of `srv32_tohost` and `srv32_syscall` that write. -/
def requestOutput (func a0 a1 a2 : Word) : Output :=
  if func = sysWrite then ⟨rv.hostWrite host a0 (rv.getMemptr a1) a2, Option.none⟩
  else if func = sysDump then ⟨[], rv.dumpText host a0 a1⟩
  else Output.none

def storeOutput (address data : Word) : Output :=
  if address = mmioPutc then ⟨[data.extractLsb' 0 8], Option.none⟩
  else if address = mmioTohost then
    match rv.getMemptr data with
    | some m => rv.requestOutput host (rv.intAt m) (rv.intAt (m + 4)) (rv.intAt (m + 8))
        (rv.intAt (m + 12))
    | Option.none => Output.none
  else Output.none

/-- What the opcode switch writes for `inst`. -/
def output (cfg : Config) (inst : Word) : Output :=
  if opcode inst = opStore then
    let address := rv.readRegs cfg (rs1 inst) + immS inst
    match storeLen (func3 inst) address with
    | .ok len =>
      if rv.memOk address len then Output.none
      else rv.storeOutput host address (rv.readRegs cfg (rs2 inst))
    | .error _ => Output.none
  else if opcode inst = opSystem ∧ func3 inst = opEcall ∧ (imm12 inst).extractLsb' 0 2 = 0#2 then
    rv.requestOutput host (rv.readRegs cfg cfg.sys) (rv.readRegs cfg regA0)
      (rv.readRegs cfg regA1) (rv.readRegs cfg regA2)
  else Output.none

variable {rv host} in
theorem hostWrite_of_ne {fd : Word} (h : fd ≠ 1#32) (ptr : Option ℤ) (count : Word) :
    rv.hostWrite host fd ptr count = [] := by
  cases ptr with
  | none => rfl
  | some off => exact if_neg h

/-! Only a store outside memory changes what FROMHOST holds. -/

variable {rv host} {cfg : Config} {inst : Word} {c : Bool}

@[simp] theorem writeRegs_htifResult (n : BitVec 5) (v : Word) :
    (rv.writeRegs cfg n v).htifResult = rv.htifResult := by
  unfold writeRegs
  split <;> rfl

@[simp] theorem cycleAdd_htifResult (n : Word) : (rv.cycleAdd n).htifResult = rv.htifResult := rfl

@[simp] theorem trap_htifResult (cause val : Word) :
    (rv.trap cause val).htifResult = rv.htifResult := rfl

@[simp] theorem int_htifResult (cause : Word) (src : ℕ) :
    (rv.int cause src c).htifResult = rv.htifResult := by
  simp only [int]
  split_ifs <;> rfl

@[simp] theorem ramCycle_htifResult : rv.ramCycle.htifResult = rv.htifResult := by
  unfold ramCycle
  split <;> rfl

theorem settle_htifResult : (rv.settle cfg).htifResult = rv.htifResult := by
  simp only [settle, enterInts, checkPc]
  split_ifs <;> simp

@[simp] theorem trapRet_htifResult (cause val : Word) :
    (rv.trapRet cause val).state.htifResult = rv.htifResult := rfl

theorem writeRd_htifResult (v : Option Word) :
    (rv.writeRd cfg inst v).state.htifResult = rv.htifResult := by
  cases v with
  | none => rfl
  | some v => exact writeRegs_htifResult _ _

theorem jump_htifResult (t : Word) : (rv.jump cfg inst c t).state.htifResult = rv.htifResult := by
  simp only [jump]
  split_ifs
  · rfl
  · exact writeRegs_htifResult _ _

theorem execBranch_htifResult : (rv.execBranch cfg inst).state.htifResult = rv.htifResult := by
  have harm : ∀ taken offset, (rv.branchArm taken offset).state.htifResult = rv.htifResult := by
    intro taken offset
    simp only [branchArm]
    split_ifs <;> rfl
  simp only [execBranch]
  split_ifs
  iterate 6 exact harm _ _
  exact trapRet_htifResult _ _

theorem execLoad_htifResult : (rv.execLoad cfg inst host).state.htifResult = rv.htifResult := by
  simp only [execLoad]
  split_ifs <;> simp [Flow.state, trapRet]

theorem execStore_htifResult (hst : ∀ len,
      storeLen (func3 inst) (rv.readRegs cfg (rs1 inst) + immS inst) = .ok len →
        rv.memOk (rv.readRegs cfg (rs1 inst) + immS inst) len = true) :
    (rv.execStore cfg inst host).state.htifResult = rv.htifResult := by
  have hw : ∃ r rv', rv.memrwStore host (func3 inst)
      (rv.readRegs cfg (rs1 inst) + immS inst) (rv.readRegs cfg (rs2 inst)) = (.code r, rv') ∧
        rv'.htifResult = rv.htifResult := by
    simp only [memrwStore]
    cases hl : storeLen (func3 inst) (rv.readRegs cfg (rs1 inst) + immS inst) with
    | error e => exact ⟨_, _, rfl, rfl⟩
    | ok len =>
      simp only [writeMem, hst len hl, if_true]
      exact ⟨_, _, rfl, rfl⟩
  obtain ⟨r, rv', hr, hk⟩ := hw
  simp only [execStore, hr]
  split_ifs <;> simp [Flow.state, trapRet, hk]

theorem syscall_htifResult (func a0 a1 a2 : Word) :
    (rv.syscall host func a0 a1 a2).2.htifResult = rv.htifResult := by
  have hread : ∀ fd p count, (rv.hostRead host fd p count).htifResult = rv.htifResult := by
    intro fd p count
    cases p <;> rfl
  simp only [syscall]
  split_ifs
  iterate 4 rfl
  · exact hread _ _ _
  · rfl
  · cases rv.dump host (dumpAligned a0 a1) a0 a1 <;> rfl
  · cases rv.dump host true a0 a1 <;> rfl
  · rfl

theorem execEcall_htifResult : (rv.execEcall cfg host).state.htifResult = rv.htifResult := by
  have hs : (rv.syscall host (rv.readRegs cfg cfg.sys) (rv.readRegs cfg regA0)
    (rv.readRegs cfg regA1) (rv.readRegs cfg regA2)).2.htifResult = rv.htifResult :=
      syscall_htifResult _ _ _ _
  simp only [execEcall]
  rcases hr : rv.syscall host (rv.readRegs cfg cfg.sys) (rv.readRegs cfg regA0)
    (rv.readRegs cfg regA1) (rv.readRegs cfg regA2) with ⟨r | res, rv'⟩ <;> rw [hr] at hs
  · exact hs
  · refine Eq.trans ?_ hs
    dsimp only
    rw [trapRet_htifResult]
    split_ifs
    · exact writeRegs_htifResult _ _
    · rfl

theorem execSystem_htifResult : (rv.execSystem cfg inst host).state.htifResult =
    rv.htifResult := by
  simp only [execSystem]
  split_ifs
  · simp only [execEnv]
    split_ifs
    · exact execEcall_htifResult
    · rfl
    · simp only [execMret]
      split_ifs <;> rfl
    · rfl
  · simp only [execCsr]
    cases rv.csrOperand cfg inst with
    | none => rfl
    | some o =>
      obtain ⟨mode, val, update⟩ := o
      dsimp only
      rcases rv.csr.rw (imm12 inst) mode val update with ⟨result, _ | _, csr⟩
      · rfl
      · exact writeRegs_htifResult _ _

theorem exec_htifResult (hst : opcode inst = opStore → ∀ len,
      storeLen (func3 inst) (rv.readRegs cfg (rs1 inst) + immS inst) = .ok len →
        rv.memOk (rv.readRegs cfg (rs1 inst) + immS inst) len = true) :
    (rv.exec cfg inst host c).state.htifResult = rv.htifResult := by
  have hif : ∀ {p : Prop} [Decidable p] {f g : Flow}, (p → f.state.htifResult = rv.htifResult) →
      g.state.htifResult = rv.htifResult → (if p then f else g).state.htifResult = rv.htifResult := by
    intro p _ f g hf hg
    split
    · rename_i hp
      exact hf hp
    · exact hg
  refine hif (fun _ => writeRegs_htifResult _ _) ?_
  refine hif (fun _ => writeRegs_htifResult _ _) ?_
  refine hif (fun _ => hif (fun _ => rfl) (jump_htifResult _)) ?_
  refine hif (fun _ => hif (fun _ => rfl) (jump_htifResult _)) ?_
  refine hif (fun _ => execBranch_htifResult) ?_
  refine hif (fun _ => execLoad_htifResult) ?_
  refine hif (fun ho => execStore_htifResult (hst ho)) ?_
  refine hif (fun _ => writeRd_htifResult _) ?_
  refine hif (fun _ => writeRd_htifResult _) ?_
  refine hif (fun _ => rfl) ?_
  exact hif (fun _ => execSystem_htifResult) (trapRet_htifResult _ _)

theorem execNext_htifResult (hst : opcode inst = opStore → ∀ len,
      storeLen (func3 inst) (rv.readRegs cfg (rs1 inst) + immS inst) = .ok len →
        rv.memOk (rv.readRegs cfg (rs1 inst) + immS inst) len = true) :
    (rv.execNext cfg inst host c).2.htifResult = rv.htifResult := by
  have h : (rv.exec cfg inst host c).state.htifResult = rv.htifResult := exec_htifResult hst
  rw [execNext]
  cases hx : rv.exec cfg inst host c with
  | brk s =>
    rw [hx] at h
    exact h
  | ret r s =>
    rw [hx] at h
    exact h

end Rv

/-- What the simulator has written before step `n`. -/
def written (cfg : Config) (hosts : ℕ → Host) (rv : Rv) : ℕ → List Byte × List Char
  | 0 => ([], [])
  | n + 1 =>
    let (d, inst) := atSwitch cfg hosts rv n
    let out := d.output (hosts n) cfg inst
    ((written cfg hosts rv n).1 ++ out.console, out.dump.getD (written cfg hosts rv n).2)

end Srv32.Iss

import Srv32.Iss.Bounds

/-! Every way a LOAD or a STORE ends, in every configuration. -/

namespace Srv32.Iss

/-- The step returned from a trap with this cause. -/
def TrapsWith (r : Ret × Rv) (cause : Word) : Prop :=
  r.1 = .code rvTrap ∧ r.2.csr.mcause = cause

instance (r : Ret × Rv) (cause : Word) : Decidable (TrapsWith r cause) :=
  inferInstanceAs (Decidable (_ ∧ _))

namespace Rv

/-- Bytes a load reads, and a store writes, by `func3`; `none` for an undefined width. -/
def loadBytes (op : BitVec 3) : Option ℕ :=
  if op = opLb ∨ op = opLbu then some 1
  else if op = opLh ∨ op = opLhu then some 2
  else if op = opLw then some 4
  else none

def storeBytes (op : BitVec 3) : Option ℕ :=
  if op = opSb then some 1 else if op = opSh then some 2 else if op = opSw then some 4 else none

theorem loadBytes_mem {op : BitVec 3} {n : ℕ} (h : loadBytes op = some n) :
    n = 1 ∨ n = 2 ∨ n = 4 := by
  unfold loadBytes at h
  split_ifs at h <;> cases h <;> simp

theorem storeBytes_mem {op : BitVec 3} {n : ℕ} (h : storeBytes op = some n) :
    n = 1 ∨ n = 2 ∨ n = 4 := by
  unfold storeBytes at h
  split_ifs at h <;> cases h <;> simp

/-- The width and alignment switch at the head of `memrw`. -/
theorem loadLen_eq (op : BitVec 3) (a : Word) : loadLen op a =
    match loadBytes op with
    | none => .error trapInstIll
    | some n => if a.toNat % n = 0 then .ok (BitVec.ofNat 32 n) else .error trapLdAlign := by
  have h1 := Bits.and_one_eq_zero a
  have h3 := Bits.and_three_eq_zero a
  rcases Bits.cases3 op with rfl | rfl | rfl | rfl | rfl | rfl | rfl | rfl <;>
    simp [loadLen, loadBytes, h1, h3, Nat.mod_one, ite_not] <;> split_ifs <;>
      first | rfl | omega

theorem storeLen_eq (op : BitVec 3) (a : Word) : storeLen op a =
    match storeBytes op with
    | none => .error trapInstIll
    | some n => if a.toNat % n = 0 then .ok (BitVec.ofNat 32 n) else .error trapStAlign := by
  have h1 := Bits.and_one_eq_zero a
  have h3 := Bits.and_three_eq_zero a
  rcases Bits.cases3 op with rfl | rfl | rfl | rfl | rfl | rfl | rfl | rfl <;>
    simp [storeLen, storeBytes, h1, h3, Nat.mod_one, ite_not]
  split_ifs <;> first | rfl | omega

/-- The effective addresses. -/
def loadAddress (cfg : Config) (rv : Rv) (inst : Word) : Word :=
  rv.readRegs cfg (rs1 inst) + immI inst

def storeAddress (cfg : Config) (rv : Rv) (inst : Word) : Word :=
  rv.readRegs cfg (rs1 inst) + immS inst

variable {cfg : Config} {rv : Rv} {inst : Word} {host : Host} {c : Bool} {n : ℕ}

/-! LOAD -/

section

variable (ho : opcode inst = opLoad)
include ho

theorem exec_load_eq : rv.exec cfg inst host c = rv.execLoad cfg inst host := by
  simp only [exec, ho]
  rfl

theorem exec_load_undefined (hb : loadBytes (func3 inst) = none) :
    rv.exec cfg inst host c = rv.ramCycle.trapRet trapInstIll inst := by
  rw [exec_load_eq ho, execLoad, memrwLoad, loadLen_eq, hb]
  rfl

theorem exec_load_misaligned (hb : loadBytes (func3 inst) = some n)
    (ha : (rv.loadAddress cfg inst).toNat % n ≠ 0) :
    rv.exec cfg inst host c = rv.ramCycle.trapRet trapLdAlign (rv.loadAddress cfg inst) := by
  rw [loadAddress] at ha
  rw [exec_load_eq ho, execLoad, memrwLoad, loadLen_eq, hb]
  simp only [if_neg ha]
  rfl

theorem exec_load_ram (hb : loadBytes (func3 inst) = some n)
    (ha : (rv.loadAddress cfg inst).toNat % n = 0)
    (hm : rv.memOk (rv.loadAddress cfg inst) (BitVec.ofNat 32 n) = true) :
    rv.exec cfg inst host c = .brk (rv.ramCycle.writeRegs cfg (rd inst)
      (loadExtend (func3 inst) (lowBytes (BitVec.ofNat 32 n) fun i =>
        rv.mem (rv.offset (rv.loadAddress cfg inst) + i)))) := by
  rw [loadAddress] at *
  rw [exec_load_eq ho, execLoad, memrwLoad, loadLen_eq, hb]
  simp only [if_pos ha, readMem, if_pos hm]
  rfl

theorem exec_load_device (hb : loadBytes (func3 inst) = some n)
    (ha : (rv.loadAddress cfg inst).toNat % n = 0)
    (hm : rv.memOk (rv.loadAddress cfg inst) (BitVec.ofNat 32 n) = false) :
    rv.exec cfg inst host c =
      match rv.loadDevice host (rv.loadAddress cfg inst) with
      | some data => .brk (rv.ramCycle.writeRegs cfg (rd inst) (loadExtend (func3 inst) data))
      | none => rv.ramCycle.trapRet trapLdFail (rv.loadAddress cfg inst) := by
  rw [loadAddress] at *
  rw [exec_load_eq ho, execLoad, memrwLoad, loadLen_eq, hb]
  simp only [if_pos ha, readMem, hm]
  cases rv.loadDevice host (rv.readRegs cfg (rs1 inst) + immI inst) <;> rfl

end

/-! STORE -/

section

variable (ho : opcode inst = opStore)
include ho

theorem exec_store_eq : rv.exec cfg inst host c = rv.execStore cfg inst host := by
  simp only [exec, ho]
  rfl

theorem exec_store_undefined (hb : storeBytes (func3 inst) = none) :
    rv.exec cfg inst host c = rv.ramCycle.trapRet trapInstIll inst := by
  rw [exec_store_eq ho, execStore, memrwStore, storeLen_eq, hb]
  rfl

theorem exec_store_misaligned (hb : storeBytes (func3 inst) = some n)
    (ha : (rv.storeAddress cfg inst).toNat % n ≠ 0) :
    rv.exec cfg inst host c = rv.ramCycle.trapRet trapStAlign (rv.storeAddress cfg inst) := by
  rw [storeAddress] at ha
  rw [exec_store_eq ho, execStore, memrwStore, storeLen_eq, hb]
  simp only [if_neg ha]
  rfl

theorem exec_store_ram (hb : storeBytes (func3 inst) = some n)
    (ha : (rv.storeAddress cfg inst).toNat % n = 0)
    (hm : rv.memOk (rv.storeAddress cfg inst) (BitVec.ofNat 32 n) = true) :
    rv.exec cfg inst host c = .brk { rv with
      mem := rv.copyIn (rv.offset (rv.storeAddress cfg inst)) n
        (byteOfWord (rv.readRegs cfg (rs2 inst))) }.ramCycle := by
  have hn : (BitVec.ofNat 32 n).toInt = n := by
    rcases storeBytes_mem hb with rfl | rfl | rfl <;> rfl
  rw [storeAddress] at *
  rw [exec_store_eq ho, execStore, memrwStore, storeLen_eq, hb]
  simp only [if_pos ha, writeMem, if_pos hm, hn]
  rfl

/-- To a device register, a request to the host, or a fault. The codes of `memrw` are read as trap
causes: `RV_EXIT` is that of an illegal instruction. -/
theorem exec_store_device (hb : storeBytes (func3 inst) = some n)
    (ha : (rv.storeAddress cfg inst).toNat % n = 0)
    (hm : rv.memOk (rv.storeAddress cfg inst) (BitVec.ofNat 32 n) = false) :
    rv.exec cfg inst host c =
      match rv.storeDevice host (func3 inst) (rv.storeAddress cfg inst)
        (rv.readRegs cfg (rs2 inst)) with
      | (.code result, rv') =>
        if result = trapStFail then rv'.ramCycle.trapRet trapStFail (rv.storeAddress cfg inst)
        else if result = trapStAlign then
          rv'.ramCycle.trapRet trapStAlign (rv.storeAddress cfg inst)
        else if result = trapInstIll then rv'.ramCycle.trapRet trapInstIll inst
        else .brk rv'.ramCycle
      | (r, rv') => .ret r rv' := by
  rw [storeAddress] at *
  rw [exec_store_eq ho, execStore, memrwStore, storeLen_eq, hb]
  simp only [if_pos ha, writeMem, hm]
  rfl

end

/-! Device registers. -/

/-- The registers a load reaches, and those a store reaches. -/
def loadDevices : List Word :=
  [mmioPutc, mmioGetc, mmioExit, mmioFromhost, mmioMtime, mmioMtime + 4#32, mmioMtimecmp,
    mmioMtimecmp + 4#32, mmioMsip]

def storeDevices : List Word :=
  [mmioPutc, mmioGetc, mmioExit, mmioTohost, mmioMtime, mmioMtime + 4#32, mmioMtimecmp,
    mmioMtimecmp + 4#32, mmioMsip]

theorem loadDevice_isSome (a : Word) :
    (rv.loadDevice host a).isSome = true ↔ a ∈ loadDevices := by
  simp only [loadDevice, loadDevices, apply_ite Option.isSome, Option.isSome_some,
    Option.isSome_none, Bool.if_true_left, Bool.or_eq_true, decide_eq_true_eq, Bool.false_eq_true,
    List.mem_cons, List.not_mem_nil]

/-- The request to the host at index `m` asks for no dump that fails. -/
structure DumpOk (rv : Rv) (host : Host) (m : Int) : Prop where
  dump : rv.intAt m = sysDump → host.fopen = true ∧
    dumpAligned (rv.intAt (m + 4)) (rv.intAt (m + 8)) = true ∧
    dumpEnds (rv.getMemptr (rv.intAt (m + 4))) (rv.getMemptr (rv.intAt (m + 8))) = true
  dumpBin : rv.intAt m = sysDumpBin → host.fopen = true ∧
    dumpEnds (rv.getMemptr (rv.intAt (m + 4))) (rv.getMemptr (rv.intAt (m + 8))) = true

theorem dump_eq_none (aligned : Bool) (a0 a1 : Word) : rv.dump host aligned a0 a1 = none ↔
    host.fopen = true ∧ aligned = true ∧
      dumpEnds (rv.getMemptr a0) (rv.getMemptr a1) = true := by
  unfold dump
  cases host.fopen <;> cases aligned <;>
    cases dumpEnds (rv.getMemptr a0) (rv.getMemptr a1) <;> simp

theorem tohost_eq_none (a : Word) : (rv.tohost host a).1 = none ↔
    ∃ m, rv.getMemptr a = some m ∧ rv.intAt m ≠ sysExit ∧ rv.DumpOk host m := by
  rw [tohost]
  cases hm : rv.getMemptr a with
  | none => simp
  | some m =>
    simp only [Option.some.injEq, exists_eq_left']
    -- every other request returns
    have hother : rv.intAt m ≠ sysExit → rv.intAt m ≠ sysDump → rv.intAt m ≠ sysDumpBin →
        ((none : Option Ret) = none ↔ rv.intAt m ≠ sysExit ∧ rv.DumpOk host m) := fun h1 h2 h3 =>
      ⟨fun _ => ⟨h1, fun h => absurd h h2, fun h => absurd h h3⟩, fun _ => rfl⟩
    split_ifs with hopen hclose hseek hexit hread hwrite hdump hbin
    iterate 3 exact hother (by simp [*]) (by simp [*]) (by simp [*])
    · exact ⟨fun h => (h : False).elim, fun h => absurd hexit h.1⟩
    iterate 2 exact hother (by simp [*]) (by simp [*]) (by simp [*])
    · have hne : rv.intAt m ≠ sysDumpBin := by
        rw [hdump]
        decide
      rw [dump_eq_none]
      exact ⟨fun h => ⟨hexit, fun _ => h, fun hb => absurd hb hne⟩, fun h => h.2.dump hdump⟩
    · rw [dump_eq_none]
      exact ⟨fun h => ⟨hexit, fun hb => absurd hb hdump, fun _ => ⟨h.1, h.2.2⟩⟩,
        fun h => ⟨(h.2.dumpBin hbin).1, rfl, (h.2.dumpBin hbin).2⟩⟩
    · exact hother hexit hdump hbin

/-- What a store outside memory does by its address. -/
theorem storeDevice_fault (op : BitVec 3) {a : Word} (v : Word) (h : a ∉ storeDevices) :
    rv.storeDevice host op a v = (.code trapStFail, rv) := by
  simp only [storeDevices, List.mem_cons, List.not_mem_nil, or_false, not_or] at h
  simp only [storeDevice, if_neg h.1, if_neg h.2.1, if_neg h.2.2.1, if_neg h.2.2.2.1,
    if_neg h.2.2.2.2.1, if_neg h.2.2.2.2.2.1, if_neg h.2.2.2.2.2.2.1, if_neg h.2.2.2.2.2.2.2.1,
    if_neg h.2.2.2.2.2.2.2.2]

theorem storeDevice_exit (op : BitVec 3) (v : Word) :
    rv.storeDevice host op mmioExit v = (.code rvExit, { rv with exitcode := v }) := rfl

theorem storeDevice_tohost (op : BitVec 3) (v : Word) :
    rv.storeDevice host op mmioTohost v =
      match rv.tohost host v with
      | (some r, rv') => (r, rv')
      | (none, rv') => (.code 0#32, rv') := rfl

theorem storeDevice_code (op : BitVec 3) {a : Word} (v : Word) (h : a ∈ storeDevices)
    (he : a ≠ mmioExit) (ht : a ≠ mmioTohost) :
    (rv.storeDevice host op a v).1 = .code 0#32 := by
  unfold storeDevice
  simp only
  rw [if_neg he, if_neg ht]
  simp only [storeDevices, List.mem_cons, List.not_mem_nil, or_false, he, ht, false_or] at h
  split_ifs with h1 h2 h3 h4 h5 h6 h7 <;> first | rfl | skip
  simp only [h1, h2, h3, h4, h5, h6, h7, or_self] at h

/-! How the step ends. -/

theorem ramCycle_pc : rv.ramCycle.pc = rv.pc := by
  unfold ramCycle
  split <;> rfl

theorem execNext_trapRet {rv' : Rv} {cause val : Word}
    (he : rv.exec cfg inst host c = rv'.trapRet cause val) :
    rv.execNext cfg inst host c = (.code rvTrap, rv'.trap cause val) := by
  rw [execNext, he, trapRet]

theorem execNext_brk {rv' : Rv} (he : rv.exec cfg inst host c = .brk rv') :
    rv.execNext cfg inst host c = (.code rvOkay, { rv' with pc := rv'.linkPc c }) := by
  rw [execNext, he]

/-- One of the four ways: the trap with this cause, or the next instruction. -/
inductive Ending where
  | trap (cause : Word)
  | exit
  | next
  | other
  deriving DecidableEq

/-- The ending of a result; `exit` leaves `v` in `exitcode`, `next` leaves the pc behind the
instruction. -/
def Ends (pc v : Word) (r : Ret × Rv) : Ending → Prop
  | .trap cause => TrapsWith r cause
  | .exit => r.1 = .code rvExit ∧ r.2.exitcode = v
  | .next => r.1 = .code rvOkay ∧ r.2.pc = pc
  | .other => ∀ k, r.1 ≠ .code k

theorem ends_trap {pc v cause val : Word} (e : Ending) :
    Ends pc v (.code rvTrap, rv.trap cause val) e ↔ e = .trap cause := by
  cases e with
  | trap k =>
    simp only [Ends, TrapsWith, trap_mcause, true_and, Ending.trap.injEq]
    exact eq_comm
  | exit => simp [Ends]
  | next => simp [Ends]
  | other => simp [Ends]

theorem ends_next {v : Word} {rv' : Rv} (e : Ending) :
    Ends (rv'.linkPc c) v (.code rvOkay, { rv' with pc := rv'.linkPc c }) e ↔ e = .next := by
  cases e <;> simp [Ends, TrapsWith]

/-- The ending the access should have. -/
def loadEnding (cfg : Config) (rv : Rv) (inst : Word) : Ending :=
  let a := rv.loadAddress cfg inst
  match loadBytes (func3 inst) with
  | none => .trap trapInstIll
  | some n =>
    if a.toNat % n ≠ 0 then .trap trapLdAlign
    else if rv.Inside a n ∨ a ∈ loadDevices then .next
    else .trap trapLdFail

def storeEnding (cfg : Config) (rv : Rv) (inst : Word) : Ending :=
  let a := rv.storeAddress cfg inst
  match storeBytes (func3 inst) with
  | none => .trap trapInstIll
  | some n =>
    if a.toNat % n ≠ 0 then .trap trapStAlign
    else if rv.Inside a n then .next
    else if a = mmioExit then .exit
    else if a ∈ storeDevices then .next
    else .trap trapStFail

theorem ofNat_toInt {n : ℕ} (hn : n = 1 ∨ n = 2 ∨ n = 4) :
    (BitVec.ofNat 32 n).toInt = n ∧ (BitVec.ofNat 32 n).toNat = n := by
  rcases hn with rfl | rfl | rfl <;> exact ⟨rfl, rfl⟩

/-- Without a wrap the check is the bound. -/
theorem memOk_bytes (h : rv.Laid) {a : Word} (hn : n = 1 ∨ n = 2 ∨ n = 4)
    (hw : a.toInt + n < 2 ^ 31) : rv.memOk a (BitVec.ofNat 32 n) = true ↔ rv.Inside a n := by
  obtain ⟨hi, ht⟩ := ofNat_toInt hn
  rw [memOk_iff_inside h (by omega) (by omega), ht]

theorem load_ends (h : rv.Laid) (ho : opcode inst = opLoad)
    (hw : ∀ n, loadBytes (func3 inst) = some n → (rv.loadAddress cfg inst).toInt + n < 2 ^ 31)
    (v : Word) (e : Ending) :
    Ends (rv.linkPc c) v (rv.execNext cfg inst host c) e ↔ e = rv.loadEnding cfg inst := by
  have hlink : ∀ r : BitVec 5, ∀ w, (rv.ramCycle.writeRegs cfg r w).linkPc c = rv.linkPc c := by
    intro r w
    have hpc : (rv.ramCycle.writeRegs cfg r w).pc = rv.pc := by
      unfold writeRegs
      split <;> exact ramCycle_pc
    rw [linkPc, linkPc, hpc]
  rw [loadEnding]
  cases hb : loadBytes (func3 inst) with
  | none =>
    rw [execNext_trapRet (exec_load_undefined ho hb)]
    exact ends_trap e
  | some n =>
    have hok := memOk_bytes h (loadBytes_mem hb) (hw n hb)
    dsimp only
    by_cases ha : (rv.loadAddress cfg inst).toNat % n = 0
    · rw [if_neg (not_not.mpr ha)]
      by_cases hin : rv.Inside (rv.loadAddress cfg inst) n
      · rw [if_pos (Or.inl hin), execNext_brk (exec_load_ram ho hb ha (hok.mpr hin)),
          ← hlink (rd inst)]
        exact ends_next e
      · have hx : rv.exec cfg inst host c = _ := exec_load_device ho hb ha <| by
          rw [← Bool.not_eq_true, hok]
          exact hin
        have hd : (rv.loadDevice host _).isSome = true ↔ _ :=
          loadDevice_isSome (rv.loadAddress cfg inst)
        cases hv : rv.loadDevice host (rv.loadAddress cfg inst) with
        | none =>
          rw [hv] at hx hd
          rw [if_neg fun hc => hc.elim hin fun hm => by simpa using hd.mpr hm,
            execNext_trapRet hx]
          exact ends_trap e
        | some data =>
          rw [hv] at hx hd
          rw [if_pos (Or.inr (hd.mp rfl)), execNext_brk hx, ← hlink (rd inst)]
          exact ends_next e
    · rw [if_pos ha, execNext_trapRet (exec_load_misaligned ho hb ha)]
      exact ends_trap e

/-- A request that does not return ends the process, or faults in it. -/
theorem tohost_some {a : Word} {r : Ret} (h : (rv.tohost host a).1 = some r) (k : Word) :
    r ≠ .code k := by
  have hdump : ∀ b a0 a1, rv.dump host b a0 a1 = some r → r ≠ .code k := by
    intro b a0 a1 hd
    unfold dump at hd
    split_ifs at hd <;> cases hd <;> simp
  rw [tohost] at h
  cases hm : rv.getMemptr a with
  | none =>
    rw [hm] at h
    cases h
    simp
  | some m =>
    rw [hm] at h
    dsimp only at h
    split_ifs at h
    · cases h
      simp [progExit]
    · exact hdump _ _ _ h
    · exact hdump _ _ _ h

/-- A store outside memory that returns to the next instruction. -/
theorem exec_store_next (ho : opcode inst = opStore) (hb : storeBytes (func3 inst) = some n)
    (ha : (rv.storeAddress cfg inst).toNat % n = 0)
    (hm : rv.memOk (rv.storeAddress cfg inst) (BitVec.ofNat 32 n) = false)
    (hd : (rv.storeDevice host (func3 inst) (rv.storeAddress cfg inst)
      (rv.readRegs cfg (rs2 inst))).1 = .code 0#32) (v : Word) (e : Ending) :
    Ends (rv.linkPc c) v (rv.execNext cfg inst host c) e ↔ e = .next := by
  have hx : rv.exec cfg inst host c = _ := exec_store_device ho hb ha hm
  have hst : Stored rv (rv.storeDevice host _ _ _).2 :=
    stored_storeDevice (func3 inst) (rv.storeAddress cfg inst) (rv.readRegs cfg (rs2 inst))
  rcases hs : rv.storeDevice host (func3 inst) (rv.storeAddress cfg inst)
    (rv.readRegs cfg (rs2 inst)) with ⟨r, rv'⟩
  rw [hs] at hx hd hst
  obtain rfl : r = .code 0#32 := hd
  have hpc : rv'.ramCycle.linkPc c = rv.linkPc c := by
    obtain ⟨_, _, _, _, _, _, _, rfl⟩ := hst
    rw [linkPc, linkPc, ramCycle_pc]
  rw [execNext_brk (hx.trans (by rfl)), ← hpc]
  exact ends_next e

/-- Stores outside memory that end as they should: none to the exit register, and no request to
the host through a pointer outside memory, or for a dump that fails. -/
structure StoreReturns (cfg : Config) (rv : Rv) (inst : Word) (host : Host) : Prop where
  notExit : rv.storeAddress cfg inst ≠ mmioExit
  htif : rv.storeAddress cfg inst = mmioTohost →
    ∃ m, rv.getMemptr (rv.readRegs cfg (rs2 inst)) = some m ∧ rv.DumpOk host m

/-- Outside memory the address decides: the exit register, a device, or neither. -/
theorem deviceStore_ends_iff (ho : opcode inst = opStore) (hb : storeBytes (func3 inst) = some n)
    (ha : (rv.storeAddress cfg inst).toNat % n = 0)
    (hm : rv.memOk (rv.storeAddress cfg inst) (BitVec.ofNat 32 n) = false)
    (hexit : rv.storeAddress cfg inst = mmioTohost →
      ∀ m, rv.getMemptr (rv.readRegs cfg (rs2 inst)) = some m → rv.intAt m ≠ sysExit) :
    (∀ e, Ends (rv.linkPc c) (rv.readRegs cfg (rs2 inst)) (rv.execNext cfg inst host c) e ↔
        e = if rv.storeAddress cfg inst = mmioExit then .exit
          else if rv.storeAddress cfg inst ∈ storeDevices then .next
          else .trap trapStFail) ↔ StoreReturns cfg rv inst host := by
  have hx : rv.exec cfg inst host c = _ := exec_store_device ho hb ha hm
  by_cases hex : rv.storeAddress cfg inst = mmioExit
  · -- `RV_EXIT` is read as the cause of an illegal instruction
    rw [if_pos hex]
    refine iff_of_false (fun hall => ?_) fun hs => hs.notExit hex
    have he := (hall .exit).mpr rfl
    rw [hex, storeDevice_exit] at hx
    rw [execNext_trapRet (hx.trans (by rfl)), ends_trap] at he
    cases he
  · rw [if_neg hex]
    by_cases hd : rv.storeAddress cfg inst ∈ storeDevices
    · rw [if_pos hd]
      by_cases hto : rv.storeAddress cfg inst = mmioTohost
      · have hret : (rv.tohost host _).1 = none ↔ _ :=
          tohost_eq_none (rv.readRegs cfg (rs2 inst))
        rcases hr : rv.tohost host (rv.readRegs cfg (rs2 inst)) with ⟨_ | r, rv'⟩
        · rw [hr] at hret
          refine iff_of_true (exec_store_next ho hb ha hm ?_ _)
            ⟨hex, fun _ => (hret.mp rfl).imp fun m hm => ⟨hm.1, hm.2.2⟩⟩
          rw [hto, storeDevice_tohost, hr]
        · rw [hr] at hret
          refine iff_of_false (fun hall => ?_) fun hs => ?_
          -- it ended the process, so it did not go on
          · have he := (hall .next).mpr rfl
            rw [hto, storeDevice_tohost, hr] at hx
            have hne := tohost_some (r := r) (by rw [hr])
            cases r with
            | code k => exact hne k rfl
            | exit s =>
              rw [execNext, hx] at he
              cases he.1
            | segv =>
              rw [execNext, hx] at he
              cases he.1
          · obtain ⟨m, hp, hdump⟩ := hs.htif hto
            cases hret.mpr ⟨m, hp, hexit hto m hp, hdump⟩
      · refine iff_of_true (exec_store_next ho hb ha hm ?_ _)
          ⟨hex, fun ht => absurd ht hto⟩
        exact storeDevice_code _ _ hd hex hto
    · rw [if_neg hd]
      refine iff_of_true (fun e => ?_) ⟨hex, fun ht => ?_⟩
      · rw [storeDevice_fault _ _ hd] at hx
        rw [execNext_trapRet (hx.trans (by rfl))]
        exact ends_trap e
      · exact absurd (by rw [ht]; decide) hd

theorem store_ends_iff (h : rv.Laid) (ho : opcode inst = opStore)
    (hw : ∀ n, storeBytes (func3 inst) = some n → (rv.storeAddress cfg inst).toInt + n < 2 ^ 31)
    (hexit : rv.storeAddress cfg inst = mmioTohost →
      ∀ m, rv.getMemptr (rv.readRegs cfg (rs2 inst)) = some m → rv.intAt m ≠ sysExit) :
    (∀ e, Ends (rv.linkPc c) (rv.readRegs cfg (rs2 inst)) (rv.execNext cfg inst host c) e ↔
        e = rv.storeEnding cfg inst) ↔
      ∀ n, storeBytes (func3 inst) = some n → (rv.storeAddress cfg inst).toNat % n = 0 →
        ¬ rv.Inside (rv.storeAddress cfg inst) n → StoreReturns cfg rv inst host := by
  rw [storeEnding]
  cases hb : storeBytes (func3 inst) with
  | none =>
    refine iff_of_true (fun e => ?_) fun n hn => by cases hn
    rw [execNext_trapRet (exec_store_undefined ho hb)]
    exact ends_trap e
  | some n =>
    have hok := memOk_bytes h (storeBytes_mem hb) (hw n hb)
    simp only [Option.some.injEq, forall_eq']
    by_cases ha : (rv.storeAddress cfg inst).toNat % n = 0
    · rw [if_neg (not_not.mpr ha)]
      by_cases hin : rv.Inside (rv.storeAddress cfg inst) n
      · refine iff_of_true (fun e => ?_) fun _ hni => absurd hin hni
        obtain ⟨rv', hx, hpc⟩ : ∃ rv' : Rv,
            rv.exec cfg inst host c = .brk rv'.ramCycle ∧ rv'.pc = rv.pc :=
          ⟨_, exec_store_ram ho hb ha (hok.mpr hin), rfl⟩
        have hlink : rv'.ramCycle.linkPc c = rv.linkPc c := by
          rw [linkPc, linkPc, ramCycle_pc, hpc]
        rw [if_pos hin, execNext_brk hx, ← hlink]
        exact ends_next e
      · have hm : rv.memOk (rv.storeAddress cfg inst) (BitVec.ofNat 32 n) = false := by
          rw [← Bool.not_eq_true, hok]
          exact hin
        simp only [ha, hin, not_false_eq_true, true_implies, if_false]
        exact deviceStore_ends_iff ho hb ha hm hexit
    · rw [if_pos ha]
      refine iff_of_true (fun e => ?_) fun h0 => absurd h0 ha
      rw [execNext_trapRet (exec_store_misaligned ho hb ha)]
      exact ends_trap e

/-- A LOAD or STORE word ends in exactly the way its width, alignment and address call for: `Ends`
holds of that ending and of no other. -/
def AccessEnds (cfg : Config) (rv : Rv) (inst : Word) (host : Host) (c : Bool) : Prop :=
  ∀ e, Ends (rv.linkPc c) (rv.readRegs cfg (rs2 inst)) (rv.execNext cfg inst host c) e ↔
    e = if opcode inst = opLoad then rv.loadEnding cfg inst else rv.storeEnding cfg inst

/-- The access is a store of `n` aligned bytes outside memory. -/
def DeviceStore (cfg : Config) (rv : Rv) (inst : Word) (n : ℕ) : Prop :=
  opcode inst = opStore ∧ storeBytes (func3 inst) = some n ∧
    (rv.storeAddress cfg inst).toNat % n = 0 ∧ ¬ rv.Inside (rv.storeAddress cfg inst) n

/-- Every load, and every store that is neither one to the exit register nor a request to the host
that does not return, ends as it should. -/
theorem access_ends_iff (cfg : Config) (rv : Rv) (inst : Word) (host : Host) (c : Bool)
    (h : rv.Laid) (ho : opcode inst = opLoad ∨ opcode inst = opStore)
    (hload : opcode inst = opLoad → ∀ n, loadBytes (func3 inst) = some n →
      (rv.loadAddress cfg inst).toInt + n < 2 ^ 31)
    (hstore : opcode inst = opStore → ∀ n, storeBytes (func3 inst) = some n →
      (rv.storeAddress cfg inst).toInt + n < 2 ^ 31)
    (hexit : opcode inst = opStore → rv.storeAddress cfg inst = mmioTohost →
      ∀ m, rv.getMemptr (rv.readRegs cfg (rs2 inst)) = some m → rv.intAt m ≠ sysExit) :
    AccessEnds cfg rv inst host c ↔
      ∀ n, DeviceStore cfg rv inst n → StoreReturns cfg rv inst host := by
  rcases ho with ho | ho
  · have hne : opcode inst ≠ opStore := by
      rw [ho]
      decide
    refine iff_of_true (fun e => ?_) fun n hd => absurd hd.1 hne
    rw [if_pos ho]
    exact load_ends h ho (hload ho) _ e
  · have hne : opcode inst ≠ opLoad := by
      rw [ho]
      decide
    rw [AccessEnds, if_neg hne, store_ends_iff h ho (hstore ho) (hexit ho)]
    exact ⟨fun hr n hd => hr n hd.2.1 hd.2.2.1 hd.2.2.2,
      fun hr n hb ha hi => hr n ⟨ho, hb, ha, hi⟩⟩

/-- `sw x0, 0(x1)` to the exit register: the step traps as an illegal instruction. -/
theorem access_ends_exit :
    let rv := { Rv.boot .rv32im 1 (image []) with
      regs := fun n => if n = 1#5 then mmioExit else 0#32 }
    rv.Laid ∧ rv.storeAddress .rv32im 0x0000a023#32 = mmioExit ∧
      rv.storeEnding .rv32im 0x0000a023#32 = .exit ∧
      TrapsWith (rv.execNext .rv32im 0x0000a023#32 .none false) trapInstIll ∧
      ¬ AccessEnds .rv32im rv 0x0000a023#32 .none false := by
  intro rv
  have htrap : TrapsWith (rv.execNext .rv32im 0x0000a023#32 .none false) trapInstIll := by decide
  refine ⟨⟨by decide, by decide⟩, by decide, by decide, htrap, fun hall => ?_⟩
  have := (hall (.trap trapInstIll)).mp htrap
  exact absurd this (by decide)

/-- `lw x1, 0(x0)` after reset goes on to the next instruction. -/
theorem access_ends_lw :
    AccessEnds .rv32im (Rv.boot .rv32im 1 (image [])) 0x00002083#32 .none false := by
  refine (access_ends_iff .rv32im (Rv.boot .rv32im 1 (image [])) 0x00002083#32 .none false
    ⟨by decide, by decide⟩ (Or.inl (by decide)) (fun _ n hn => ?_)
    (fun h => absurd h (by decide)) (fun h => absurd h (by decide))).mpr
    fun n hd => absurd hd.1 (by decide)
  obtain rfl : 4 = n := Option.some.inj hn
  decide

/-! Bounds. -/

/-- A guest access to these bytes that is aligned, outside memory and at no device register ends in
an access-fault trap. -/
def GuestFaults (rv : Rv) (a len : Word) : Prop :=
  ∀ cfg host inst c, a.toNat % len.toNat = 0 → ¬ rv.Inside a len.toNat →
    (opcode inst = opLoad → loadBytes (func3 inst) = some len.toNat →
      rv.loadAddress cfg inst = a → a ∉ loadDevices →
      TrapsWith (rv.execNext cfg inst host c) trapLdFail) ∧
    (opcode inst = opStore → storeBytes (func3 inst) = some len.toNat →
      rv.storeAddress cfg inst = a → a ∉ storeDevices →
      TrapsWith (rv.execNext cfg inst host c) trapStFail)

theorem guestFaults_of_not_wraps (h : rv.Laid) {a len : Word} (hn : 0 ≤ len.toInt)
    (hw : ¬ rv.Wraps a len) : GuestFaults rv a len := by
  intro cfg host inst c ha hin
  have hlen : BitVec.ofNat 32 len.toNat = len := by simp
  have hm : rv.memOk a (BitVec.ofNat 32 len.toNat) = false := by
    rw [← Bool.not_eq_true, hlen, memOk_eq h hn, or_iff_left hw]
    exact hin
  refine ⟨fun ho hb haddr hd => ?_, fun ho hb haddr hd => ?_⟩
  · subst haddr
    have hx : rv.exec cfg inst host c = _ := exec_load_device ho hb ha hm
    have hnone : rv.loadDevice host (rv.loadAddress cfg inst) = none := by
      rw [← Option.not_isSome_iff_eq_none, loadDevice_isSome]
      exact hd
    rw [hnone] at hx
    rw [execNext_trapRet hx]
    exact ⟨rfl, rfl⟩
  · subst haddr
    have hx : rv.exec cfg inst host c = _ := exec_store_device ho hb ha hm
    rw [storeDevice_fault _ _ hd] at hx
    rw [execNext_trapRet (hx.trans (by rfl))]
    exact ⟨rfl, rfl⟩

/-- Guest memory is accessed inside its bounds, and every other guest access faults, exactly when
no sum `addr + len` wraps to a value the check lets pass. -/
theorem mem_bounds_iff (rv : Rv) (a len : Word) (h : rv.Laid) (hn : 0 ≤ len.toInt) :
    (MemSafe rv a len ∧ GuestFaults rv a len) ↔ ¬ rv.Wraps a len := by
  rw [memSafe_iff h hn]
  exact ⟨And.left, fun hw => ⟨hw, guestFaults_of_not_wraps h hn hw⟩⟩

/-- One byte at the last address: the sum wraps, and the check passes. -/
theorem mem_bounds_wrap :
    let rv := Rv.boot .rv32im 1 (image [])
    rv.Laid ∧ (rv.readMem 0x7fffffff#32 1#32).isSome = true ∧ ¬ rv.Inside 0x7fffffff#32 1 ∧
      ¬ MemSafe rv 0x7fffffff#32 1#32 := by
  intro rv
  have hl : rv.Laid := ⟨by decide, by decide⟩
  refine ⟨hl, by decide, by decide, ?_⟩
  rw [memSafe_iff hl (by decide)]
  exact fun hw => hw (by decide)

theorem mem_bounds_zero :
    let rv := Rv.boot .rv32im 1 (image [])
    MemSafe rv 0#32 4#32 ∧ GuestFaults rv 0#32 4#32 :=
  (mem_bounds_iff (Rv.boot .rv32im 1 (image [])) 0#32 4#32 ⟨by decide, by decide⟩
    (by decide)).mpr (by decide)

end Rv

end Srv32.Iss

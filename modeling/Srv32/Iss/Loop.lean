import Srv32.Iss.Fetch

/-! The execution loop of `main`: it steps until a step returns `RV_EXIT`, and leaves through
`prog_exit`. -/

namespace Srv32.Iss

def Ret.goes : Ret → Bool
  | .code v => v != rvExit
  | .exit _ => false
  | .segv => false

/-- The loop comes to step `n`. -/
def Reaches (cfg : Config) (host : ℕ → Host) (rv : Rv) (n : ℕ) : Prop :=
  ∀ m < n, (result cfg host rv m).1.goes = true

variable {cfg : Config} {host : ℕ → Host} {rv : Rv} {n : ℕ}

theorem Reaches.mono {m : ℕ} (h : Reaches cfg host rv n) (hm : m ≤ n) : Reaches cfg host rv m :=
  fun k hk => h k (hk.trans_le hm)

instance (cfg : Config) (host : ℕ → Host) (rv : Rv) (n : ℕ) : Decidable (Reaches cfg host rv n) :=
  inferInstanceAs (Decidable (∀ m < n, _))

/-- The loop stops at step `n` and the simulator terminates with `status`: inside the step, or
after `RV_EXIT` through `prog_exit`. -/
def Terminates (cfg : Config) (host : ℕ → Host) (rv : Rv) (n : ℕ) (status : Word) : Prop :=
  Reaches cfg host rv n ∧ ((result cfg host rv n).1 = .exit status ∨
    (result cfg host rv n).1 = .code rvExit ∧ (result cfg host rv n).2.progExit = .exit status)

namespace Rv

variable {d : Rv} {inst v : Word} {c : Bool}

/-- An aligned word store of `v` to `MMIO_EXIT`, outside guest memory. -/
structure StoresExit (cfg : Config) (d : Rv) (inst v : Word) : Prop where
  opcode : opcode inst = opStore
  word : func3 inst = opSw
  address : d.storeAddress cfg inst = mmioExit
  device : d.memOk mmioExit 4#32 = false
  data : d.readRegs cfg (rs2 inst) = v

/-- A store to `MMIO_TOHOST`, outside guest memory, of a pointer to a SYS_EXIT request with first
argument `v`. -/
structure RequestsExit (cfg : Config) (d : Rv) (inst v : Word) : Prop where
  opcode : opcode inst = opStore
  address : d.storeAddress cfg inst = mmioTohost
  device : ∃ n, storeBytes (func3 inst) = some n ∧
    d.memOk mmioTohost (BitVec.ofNat 32 n) = false
  request : ∃ m, d.getMemptr (d.readRegs cfg (rs2 inst)) = some m ∧ d.intAt m = sysExit ∧
    d.intAt (m + 4) = v

/-- `RV_EXIT` from `memrw` is read as the trap of the same number, and the program goes on. -/
theorem storesExit_traps {h : Host} (hq : StoresExit cfg d inst v) :
    (d.execNext cfg inst h c).1 = .code rvTrap := by
  have hb : storeBytes (func3 inst) = some 4 := by
    rw [hq.word]
    rfl
  have ha : (d.storeAddress cfg inst).toNat % 4 = 0 := by
    rw [hq.address]
    rfl
  have hm : d.memOk (d.storeAddress cfg inst) (BitVec.ofNat 32 4) = false := by
    rw [hq.address]
    exact hq.device
  have hx : d.exec cfg inst h c = _ := exec_store_device hq.opcode hb ha hm
  rw [hq.address, storeDevice_exit] at hx
  rw [execNext, hx]
  rfl

/-- `prog_exit` is called with the argument, and does not look at it. -/
theorem requestsExit_exits {h : Host} (hq : RequestsExit cfg d inst v) :
    (d.execNext cfg inst h c).1 = d.progExit := by
  obtain ⟨n, hb, hoff⟩ := hq.device
  obtain ⟨m, hm, hs, -⟩ := hq.request
  have ha : (d.storeAddress cfg inst).toNat % n = 0 := by
    rw [hq.address]
    rcases storeBytes_mem hb with rfl | rfl | rfl <;> rfl
  have hx : d.exec cfg inst h c = _ :=
    exec_store_device hq.opcode hb ha (by rw [hq.address]; exact hoff)
  have hto : d.tohost h (d.readRegs cfg (rs2 inst)) = (some d.progExit, d) := by
    rw [tohost, hm]
    simp only [hs]
    rfl
  rw [hq.address, storeDevice_tohost, hto] at hx
  rw [execNext, hx]
  rfl

/-! No step changes `debug_en`. -/

theorem settle_debugEn (cfg : Config) (rv : Rv) : (rv.settle cfg).debugEn = rv.debugEn := by
  have hint : ∀ (s : Rv) k n b, (s.int k n b).debugEn = s.debugEn := by
    intro s k n b
    rw [int]
    split_ifs <;> rfl
  have hints : ∀ s : Rv, s.enterInts.debugEn = s.debugEn := by
    intro s
    rw [enterInts]
    split_ifs <;> simp only [hint]
  have hcheck : ∀ s : Rv, (s.checkPc cfg).debugEn = s.debugEn := by
    intro s
    rw [checkPc]
    split_ifs <;> rfl
  rw [settle, hcheck, hints, writeRegs]
  split_ifs <;> rfl

theorem Works.debugEn {a b : Rv} (h : Works a b) : b.debugEn = a.debugEn := by
  obtain ⟨_, _, _, _, _, _, _, _, _, _, rfl⟩ := h
  rfl

theorem Ready.debugEn {h : Host} {s : Rv} (hr : Ready h s d inst) : d.debugEn = s.debugEn := by
  obtain ⟨_, _, _, _, _, rfl⟩ := hr.state
  rfl

theorem execNext_debugEn (cfg : Config) (d : Rv) (inst : Word) (h : Host) (c : Bool) :
    (d.execNext cfg inst h c).2.debugEn = d.debugEn := by
  have ho := exec_outcome cfg d inst h c
  rw [execNext]
  generalize d.exec cfg inst h c = f at ho
  cases ho with
  | next hw hp => exact hw.debugEn
  | leave hw hr => exact hw.debugEn
  | trap hc hcause => exact hc.works.debugEn
  | ecall hw hi => exact hw.debugEn
  | mret hw hi => exact hw.debugEn
  | csr hc hi => exact (works_writeRegs _ _).debugEn

theorem dispatch_debugEn {h : Host} (hd : rv.dispatch cfg h = .ok (d, inst, c)) :
    d.debugEn = rv.debugEn := by
  rcases dispatch_cases cfg h rv with ⟨d', i', c', hd', hr⟩ | ⟨d', val, hd', -⟩
  · rw [hd] at hd'
    cases hd'
    exact hr.debugEn.trans (settle_debugEn cfg rv)
  · rw [hd] at hd'
    cases hd'

theorem step_debugEn (cfg : Config) (h : Host) (rv : Rv) :
    (srv32Step cfg h rv).2.debugEn = rv.debugEn := by
  rw [srv32Step_eq]
  rcases dispatch_cases cfg h rv with ⟨d, inst, c, hd, -⟩ | ⟨d, val, hd, hr⟩
  · rw [hd]
    exact (execNext_debugEn cfg d inst h c).trans (dispatch_debugEn hd)
  · rw [hd]
    exact hr.debugEn.trans (settle_debugEn cfg rv)

/-- In every run of the loop from reset, without interactive debugging: when the program asks to
end with `v`, by either way, the simulator terminates in that step with status `v` exactly when the
way was HTIF and `v` is the exit code already set. -/
theorem exit_status_iff (cfg : Config) (o : Options) (mem : Int → Byte) (host : ℕ → Host) (n : ℕ)
    (hdbg : o.debugEn = false) (hlive : Reaches cfg host (reset cfg o mem) n)
    (hd : (run cfg host (reset cfg o mem) n).dispatch cfg (host n) = .ok (d, inst, c))
    (hq : StoresExit cfg d inst v ∨ RequestsExit cfg d inst v) :
    Terminates cfg host (reset cfg o mem) n v ↔
      RequestsExit cfg d inst v ∧ d.exitcode = v := by
  have hstep : result cfg host (reset cfg o mem) n = d.execNext cfg inst (host n) c := by
    rw [result, srv32Step_eq, hd]
  have hoff : d.debugEn = false := by
    rw [dispatch_debugEn hd, ← hdbg]
    exact run_invariant (P := fun s => s.debugEn = o.debugEn)
      (fun h s hs => (step_debugEn cfg h s).trans hs) rfl host n
  rw [Terminates, hstep]
  rcases hq with hq | hq
  · -- the store traps, and the loop goes on
    refine iff_of_false ?_ ?_
    · intro h
      rw [storesExit_traps hq] at h
      rcases h.2 with h | h
      · cases h
      · exact absurd h.1 (by decide)
    · intro h
      exact absurd (hq.address.symm.trans h.1.address) (by decide)
  · have hx : (d.execNext cfg inst (host n) c).1 = .exit d.exitcode := by
      rw [requestsExit_exits hq, progExit, hoff]
      rfl
    rw [hx]
    constructor
    · intro h
      rcases h.2 with h | h
      · exact ⟨hq, Ret.exit.inj h⟩
      · cases h.1
    · intro h
      exact ⟨hlive, Or.inl (congrArg Ret.exit h.2)⟩

instance (cfg : Config) (host : ℕ → Host) (rv : Rv) (n : ℕ) (v : Word) :
    Decidable (Terminates cfg host rv n v) := inferInstanceAs (Decidable (_ ∧ (_ ∨ _ ∧ _)))

/-- `lui x1, 0xa0000; addi x2, x0, 3; sw x2, 0x2c(x1)`, a store of 3 to `MMIO_EXIT`. -/
def exitStore : Rv := reset .rv32im options4k (image [0xa00000b7#32, 0x00300113#32, 0x0220a623#32])

/-- `lui x1, 0xa0000; addi x2, x0, 16; sw x2, 0x30(x1)`, with the request to end with `v` at 16. -/
def exitRequest (v : Word) : Rv := reset .rv32im options4k
  (image [0xa00000b7#32, 0x01000113#32, 0x0220a823#32, 0x00000013#32, sysExit, v])

theorem dispatch_third {r : Rv} {w : Word}
    (hw : ((run .rv32im (fun _ => .none) r 2).prologue .rv32im .none).2 = w) :
    (run .rv32im (fun _ => .none) r 2).dispatch .rv32im .none =
      .ok (((run .rv32im (fun _ => .none) r 2).prologue .rv32im .none).1, w, false) := by
  rw [dispatch_rv32im, hw]

theorem requestsExit_third {v : Word} {d : Rv}
    (ha : d.storeAddress .rv32im 0x0220a823#32 = mmioTohost) (hb : d.memBase = 0#32)
    (hs : d.memSize = 0x1000#32) (hp : d.readRegs .rv32im 2#5 = 16#32)
    (hm : d.intAt 16 = sysExit) (hv : d.intAt 20 = v) :
    RequestsExit .rv32im d 0x0220a823#32 v := by
  refine ⟨by decide, ha, ⟨4, by decide, ?_⟩, ⟨16, ?_, hm, hv⟩⟩
  · rw [memOk, hb, hs]
    decide
  · change d.getMemptr (d.readRegs .rv32im 2#5) = some 16
    rw [hp, getMemptr, offset, hb, hs]
    decide

/-- Neither way gets a nonzero status through: the store of 3 does not end the program, and the
request for 7 ends it with 0. -/
theorem exit_status_lost :
    let d := ((run .rv32im (fun _ => .none) exitStore 2).prologue .rv32im .none).1
    let e := ((run .rv32im (fun _ => .none) (exitRequest 7#32) 2).prologue .rv32im .none).1
    (StoresExit .rv32im d 0x0220a623#32 3#32 ∧
      (result .rv32im (fun _ => .none) exitStore 2).1 = .code rvTrap ∧
      ¬ Terminates .rv32im (fun _ => .none) exitStore 2 3#32) ∧
    RequestsExit .rv32im e 0x0220a823#32 7#32 ∧
      (result .rv32im (fun _ => .none) (exitRequest 7#32) 2).1 = .exit 0#32 ∧
      ¬ Terminates .rv32im (fun _ => .none) (exitRequest 7#32) 2 7#32 := by
  intro d e
  refine ⟨⟨⟨?_, ?_, ?_, ?_, ?_⟩, ?_, ?_⟩, ?_, ?_, ?_⟩
  · decide
  · decide
  · decide +kernel
  · decide +kernel
  · decide +kernel
  · decide +kernel
  · decide +kernel
  · exact requestsExit_third (by decide +kernel) (by decide +kernel) (by decide +kernel)
      (by decide +kernel) (by decide +kernel) (by decide +kernel)
  · decide +kernel
  · decide +kernel

/-- The request for 0 gets through. -/
theorem exit_status_zero : Terminates .rv32im (fun _ => .none) (exitRequest 0#32) 2 0#32 := by
  have hq : RequestsExit .rv32im
      ((run .rv32im (fun _ => .none) (exitRequest 0#32) 2).prologue .rv32im .none).1
      0x0220a823#32 0#32 :=
    requestsExit_third (by decide +kernel) (by decide +kernel) (by decide +kernel)
      (by decide +kernel) (by decide +kernel) (by decide +kernel)
  exact (exit_status_iff .rv32im options4k _ (fun _ => .none) 2 rfl (by decide +kernel)
    (dispatch_third (by decide +kernel)) (Or.inr hq)).mpr ⟨hq, by decide +kernel⟩

end Rv

end Srv32.Iss

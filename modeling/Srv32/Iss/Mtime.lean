import Srv32.Iss.Width
import Mathlib.Data.BitVec
import Mathlib.Tactic.Ring

/-! The time software sets: what `mtime` reads after a store to it, counted in the cycles of the
run. -/

namespace Srv32.Iss

open Device (Reg Regs)

section

variable (cfg : Config) (host : ℕ → Host) (rv : Rv)

/-- The cycles charged in the `k` steps from step `n` on. -/
def charged (n : ℕ) : ℕ → ℤ
  | 0 => 0
  | k + 1 => charged n k +
      ((run cfg host rv (n + k + 1)).csr.cycle - (run cfg host rv (n + k)).csr.cycle).toInt

/-- The cycles charged from the end of step `n` to the opcode switch of step `n + 1 + k`, where the
state is `d`. -/
def elapsed (n k : ℕ) (d : Rv) : ℤ :=
  charged cfg host rv (n + 1) k + (d.csr.cycle - (run cfg host rv (n + 1 + k)).csr.cycle).toInt

end

namespace Rv

/-- A load of MTIME or MTIME+4 finds the halves of `w`. -/
structure Reads (host : Host) (d : Rv) (w : Counter) : Prop where
  lo : d.loadDevice host mmioMtime = some w.lo
  hi : d.loadDevice host (mmioMtime + 4#32) = some w.hi

def StoresMtime (cfg : Config) (host : Host) (rv : Rv) : Prop :=
  ∃ d inst c r, rv.dispatch cfg host = .ok (d, inst, c) ∧ opcode inst = opStore ∧
    Regs.stands r = true ∧ d.StoresTo cfg inst r

/-- `mtime` with `v` in the half `r`, and a half of it. -/
def setTime (m : Counter) (v : Word) : Reg → Counter
  | .mtimeh => m.setHi v
  | _ => m.setLo v

def half (w : Counter) : Reg → Word
  | .mtimeh => w.hi
  | _ => w.lo

/-- The instruction is a word load of a half of `mtime`. -/
structure LoadsHalf (cfg : Config) (d : Rv) (inst : Word) (r : Reg) : Prop where
  stands : Regs.stands r = true
  opcode : opcode inst = opLoad
  func3 : func3 inst = opLw
  address : d.loadAddress cfg inst = r.addr
  unmapped : d.memOk r.addr 4#32 = false
  rd : (rd inst).toNat < cfg.regnum

/-- `k` steps after step `n` stored the time `w`: `mtime` kept pace with the cycle counter, and it
reads `w` and a number of cycles that have elapsed since. -/
structure Counts (cfg : Config) (host : ℕ → Host) (rv : Rv) (n k : ℕ) (d : Rv) (w : Counter) :
    Prop where
  pace : ∀ j < k,
    (run cfg host rv (n + 1 + j + 1)).csr.mtime - (run cfg host rv (n + 1 + j)).csr.mtime =
      (run cfg host rv (n + 1 + j + 1)).csr.cycle - (run cfg host rv (n + 1 + j)).csr.cycle
  reads : ∃ e : ℕ, (e : ℤ) ≤ elapsed cfg host rv n k d ∧
    d.Reads (host (n + 1 + k)) (w + BitVec.ofNat 64 e) ∧
    ∀ inst c r, (run cfg host rv (n + 1 + k)).dispatch cfg (host (n + 1 + k)) = .ok (d, inst, c) →
      d.LoadsHalf cfg inst r →
      (run cfg host rv (n + 1 + k + 1)).regs (rd inst) = half (w + BitVec.ofNat 64 e) r

variable {ok : Reg → Prop} {k : ℕ} {cfg : Config} {a b d rv : Rv} {inst : Word} {host : Host}
  {c : Bool}

theorem hi_append_lo (x : Counter) : x.hi ++ x.lo = x := by
  apply BitVec.eq_of_getLsbD_eq
  intro i hi
  rw [Counter.hi, Counter.lo, BitVec.getLsbD_append]
  simp only [BitVec.getLsbD_extractLsb']
  split
  · simp [*]
  · have hj : i - 32 < 32 := by omega
    have hi' : 32 + (i - 32) = i := by omega
    simp [hj, hi']

theorem reads_iff (host : Host) (d : Rv) (w : Counter) :
    d.Reads host w ↔ w = d.csr.mtime - 1#64 := by
  have hlo : d.loadDevice host mmioMtime = some (Counter.lo (d.csr.mtime - 1#64)) := rfl
  have hhi : d.loadDevice host (mmioMtime + 4#32) = some (Counter.hi (d.csr.mtime - 1#64)) := rfl
  constructor
  · intro h
    have hl : w.lo = Counter.lo (d.csr.mtime - 1#64) := Option.some.inj (h.lo.symm.trans hlo)
    have hh : w.hi = Counter.hi (d.csr.mtime - 1#64) := Option.some.inj (h.hi.symm.trans hhi)
    rw [← hi_append_lo w, ← hi_append_lo (d.csr.mtime - 1#64), hl, hh]
  · rintro rfl
    exact ⟨hlo, hhi⟩

theorem Reads.load {w : Counter} {r : Reg} (h : d.Reads host w)
    (hd : rv.dispatch cfg host = .ok (d, inst, c)) (hl : d.LoadsHalf cfg inst r) :
    (srv32Step cfg host rv).2.regs (rd inst) = half w r := by
  have hb : loadBytes (func3 inst) = some 4 := by
    rw [hl.func3]
    rfl
  have hexec : d.exec cfg inst host c = _ := exec_load_device hl.opcode hb
    (by rw [hl.address]; exact addr_aligned r) (by rw [hl.address]; exact hl.unmapped)
  have hdev : d.loadDevice host r.addr = some (half w r) := by
    have hst := hl.stands
    cases r with
    | mtime => exact h.lo
    | mtimeh => exact h.hi
    | _ => cases hst
  rw [hl.address, hdev, hl.func3] at hexec
  rw [srv32Step_eq, hd]
  change (d.execNext cfg inst host c).2.regs (rd inst) = _
  rw [execNext_brk hexec]
  exact writeRegs_self _ hl.rd

theorem Moves.phase (h : Moves (fun r => Regs.stands r = false) k a b)
    (hu : a.mtimeUpdate = false) : b.mtimeUpdate = false ∧
      b.csr.mtime - b.csr.cycle = a.csr.mtime - a.csr.cycle := by
  induction h with
  | idle h => exact ⟨(congrArg Clock.mtimeUpdate h.clock).trans hu, congrArg Clock.phase h.clock⟩
  | @charge k a n h =>
    have hclock := paced_cycleAdd n hu
    exact ⟨(congrArg Clock.mtimeUpdate hclock).trans hu, congrArg Clock.phase hclock⟩
  -- `ok` leaves the comparators and `msip`
  | @store k a r v h =>
    cases r with
    | mtime => cases h
    | mtimeh => cases h
    | _ => exact ⟨hu, rfl⟩
  | trans _ _ ih ih' =>
    obtain ⟨hb, hp⟩ := ih hu
    obtain ⟨hd, hp'⟩ := ih' hb
    exact ⟨hd, hp'.trans hp⟩

/-- With a penalty that is not negative each charge is less than 2^31 cycles. -/
theorem Moves.cycles (h : Moves ok k a b) (hp : 0 ≤ a.branchPenalty.toInt) :
    ∃ j : ℕ, j ≤ k * 2 ^ 31 ∧ b.csr.cycle = a.csr.cycle + BitVec.ofNat 64 j := by
  induction h with
  | idle h => exact ⟨0, by omega, by rw [h.cycle]; simp⟩
  | @charge k a n h =>
    have hn : n.toNat < 2 ^ 31 := by
      rcases h with rfl | rfl
      · decide
      · rw [BitVec.toInt_eq_toNat_cond] at hp
        have := a.branchPenalty.isLt
        split at hp <;> omega
    refine ⟨n.toNat, by omega, ?_⟩
    -- below 2^31 the `int` is the number of cycles
    have hmsb : n.msb = false := by
      rw [BitVec.msb_eq_decide, decide_eq_false_iff_not]
      omega
    have hext : n.signExtend 64 = BitVec.ofNat 64 n.toNat := by
      rw [BitVec.signExtend_eq_setWidth_of_msb_false hmsb]
      apply BitVec.eq_of_toNat_eq
      simp only [BitVec.toNat_setWidth, BitVec.toNat_ofNat]
    rw [← hext]
    rfl
  | @store k a r v h => exact ⟨0, by omega, by cases r <;> simp [storeReg]⟩
  | @trans k l a b d h h' ih ih' =>
    obtain ⟨j, hj, hc⟩ := ih hp
    obtain ⟨j', hj', hc'⟩ := ih' (by rw [h.branchPenalty]; exact hp)
    refine ⟨j + j', by omega, ?_⟩
    rw [hc', hc, BitVec.add_assoc, BitVec.ofNat_add]

theorem step_phase (h : ¬ StoresMtime cfg host rv) :
    (srv32Step cfg host rv).2.csr.mtime - (srv32Step cfg host rv).2.csr.cycle =
      rv.csr.mtime - rv.csr.cycle := by
  obtain ⟨s, hs, ht⟩ := @moves_step (fun r => Regs.stands r = false) cfg host rv <| by
    intro d inst c hd ho r hr
    cases hst : Regs.stands r with
    | false => rfl
    | true => exact absurd ⟨d, inst, c, r, hd, ho, hst, hr⟩ h
  exact ((hs.one.trans ht).phase rfl).2

/-- The head of a step and what follows its count charge at least that one cycle. -/
theorem cycle_pos {s t : Rv} (hs : Moves ok 5 { rv with mtimeUpdate := false } s)
    (ht : Moves ok 3 (s.cycleAdd 1#32) t) (hp : 0 ≤ rv.branchPenalty.toInt) :
    1 ≤ (t.csr.cycle - rv.csr.cycle).toInt := by
  obtain ⟨j, hj, hc⟩ := hs.cycles hp
  have hp' : 0 ≤ (s.cycleAdd 1#32).branchPenalty.toInt := by
    have hsame : s.branchPenalty = rv.branchPenalty := hs.branchPenalty
    change 0 ≤ s.branchPenalty.toInt
    rw [hsame]
    exact hp
  obtain ⟨j', hj', hc'⟩ := ht.cycles hp'
  have hcount : (s.cycleAdd 1#32).csr.cycle = s.csr.cycle + 1#64 := rfl
  have hdiff : t.csr.cycle - rv.csr.cycle = BitVec.ofNat 64 (j + 1 + j') := by
    rw [hc', hcount, hc, BitVec.ofNat_add, BitVec.ofNat_add]
    change rv.csr.cycle + _ + 1#64 + _ - rv.csr.cycle = _
    bv_omega
  rw [hdiff, BitVec.toInt_eq_toNat_of_lt]
  · rw [BitVec.toNat_ofNat]
    omega
  · rw [BitVec.toNat_ofNat]
    omega

theorem step_cycle (cfg : Config) (host : Host) (hp : 0 ≤ rv.branchPenalty.toInt) :
    1 ≤ ((srv32Step cfg host rv).2.csr.cycle - rv.csr.cycle).toInt := by
  obtain ⟨s, hs, ht⟩ := @moves_step (fun _ => True) cfg host rv fun _ _ _ _ _ _ _ => trivial
  exact cycle_pos hs ht hp

theorem dispatch_cycle (hd : rv.dispatch cfg host = .ok (d, inst, c))
    (hp : 0 ≤ rv.branchPenalty.toInt) : 1 ≤ (d.csr.cycle - rv.csr.cycle).toInt := by
  obtain ⟨s, hs, ht⟩ := @moves_dispatch (fun _ => True) cfg host rv
  rw [hd] at ht
  exact cycle_pos hs (ht.mono (by omega)) hp

theorem run_branchPenalty (cfg : Config) (host : ℕ → Host) (rv : Rv) (n : ℕ) :
    (run cfg host rv n).branchPenalty = rv.branchPenalty := by
  apply run_invariant (P := fun s => s.branchPenalty = rv.branchPenalty)
  · intro host s h
    obtain ⟨t, ht, hm⟩ := @moves_step (fun _ => True) cfg host s
      fun _ _ _ _ _ _ _ => trivial
    exact (ht.one.trans hm).branchPenalty.trans h
  · rfl

section

variable {hosts : ℕ → Host} {n : ℕ}

theorem ofInt_charged (cfg : Config) (hosts : ℕ → Host) (rv : Rv) (n k : ℕ) :
    BitVec.ofInt 64 (charged cfg hosts rv n k) =
      (run cfg hosts rv (n + k)).csr.cycle - (run cfg hosts rv n).csr.cycle := by
  induction k with
  | zero =>
    rw [charged, Nat.add_zero, BitVec.sub_self]
    rfl
  | succ k ih =>
    rw [charged, BitVec.ofInt_add, ih, BitVec.ofInt_toInt, ← Nat.add_assoc]
    bv_omega

theorem ofInt_elapsed (cfg : Config) (hosts : ℕ → Host) (rv : Rv) (n k : ℕ) (d : Rv) :
    BitVec.ofInt 64 (elapsed cfg hosts rv n k d) =
      d.csr.cycle - (run cfg hosts rv (n + 1)).csr.cycle := by
  rw [elapsed, BitVec.ofInt_add, ofInt_charged, BitVec.ofInt_toInt]
  bv_omega

theorem le_charged (hp : 0 ≤ rv.branchPenalty.toInt) (n k : ℕ) :
    (k : ℤ) ≤ charged cfg hosts rv n k := by
  induction k with
  | zero => exact le_refl 0
  | succ k ih =>
    have hstep : 1 ≤ ((run cfg hosts rv (n + k + 1)).csr.cycle -
        (run cfg hosts rv (n + k)).csr.cycle).toInt :=
      step_cycle cfg _ (by rw [run_branchPenalty]; exact hp)
    rw [charged]
    push_cast
    omega

/-- Two cycles have been charged, unless the next step reads `mtime` and has charged just its
own. -/
theorem two_le_elapsed_iff (hp : 0 ≤ rv.branchPenalty.toInt)
    (hd : (run cfg hosts rv (n + 1 + k)).dispatch cfg (hosts (n + 1 + k)) = .ok (d, inst, c)) :
    2 ≤ elapsed cfg hosts rv n k d ↔
      0 < k ∨ d.csr.cycle - (run cfg hosts rv (n + 1 + k)).csr.cycle ≠ 1#64 := by
  have hlast : 1 ≤ (d.csr.cycle - (run cfg hosts rv (n + 1 + k)).csr.cycle).toInt :=
    dispatch_cycle hd (by rw [run_branchPenalty]; exact hp)
  have hle : (k : ℤ) ≤ charged cfg hosts rv (n + 1) k := le_charged hp (n + 1) k
  have hone : (d.csr.cycle - (run cfg hosts rv (n + 1 + k)).csr.cycle).toInt = 1 ↔
      d.csr.cycle - (run cfg hosts rv (n + 1 + k)).csr.cycle = 1#64 :=
    ⟨fun h => BitVec.eq_of_toInt_eq (by rw [h]; rfl), fun h => by rw [h]; rfl⟩
  rw [elapsed, ne_eq, ← hone]
  constructor
  · intro h
    -- with no step between, all the cycles are those of the reading step before its switch
    by_cases hk : 0 < k
    · exact Or.inl hk
    · have hk0 : k = 0 := by omega
      subst hk0
      rw [charged] at h
      exact Or.inr (by omega)
  · rintro (hk | hne)
    · omega
    · omega

theorem run_phase {k : ℕ}
    (h : ∀ j < k, ¬ StoresMtime cfg (hosts (n + j)) (run cfg hosts rv (n + j))) :
    (run cfg hosts rv (n + k)).csr.mtime - (run cfg hosts rv (n + k)).csr.cycle =
      (run cfg hosts rv n).csr.mtime - (run cfg hosts rv n).csr.cycle := by
  induction k with
  | zero => rfl
  | succ k ih =>
    rw [← ih fun j hj => h j (by omega)]
    exact step_phase (h k (by omega))

end

theorem step_setTime {r : Reg} {v : Word} (hd : rv.dispatch cfg host = .ok (d, inst, c))
    (ho : opcode inst = opStore) (hf : func3 inst = opSw) (hr : Regs.stands r = true)
    (hs : d.StoresTo cfg inst r) (hv : d.readRegs cfg (rs2 inst) = v) :
    (srv32Step cfg host rv).2.csr.mtime = setTime d.csr.mtime v r - 1#64 := by
  have hu : d.mtimeUpdate = false := congrArg Clock.mtimeUpdate (dispatch_clock hd)
  have hexec : d.exec cfg inst host c = _ := exec_storesTo ho hs
  rw [hf, hv, word_mask] at hexec
  rw [srv32Step_eq, hd]
  change (d.execNext cfg inst host c).2.csr.mtime = _
  rw [execNext_brk hexec]
  have hdev := congrArg Regs.mtime (ramCycle_device hu r v)
  rw [hr, if_pos rfl] at hdev
  refine hdev.trans ?_
  cases r with
  | mtime => exact (BitVec.sub_eq_add_neg _ _).symm
  | mtimeh => exact (BitVec.sub_eq_add_neg _ _).symm
  | _ => cases hr

/-- Two cycles bring a counter that was set one too low, and is read one too low, to its value. -/
theorem counts_iff (w : Counter) (t : ℤ) :
    (∃ e : ℕ, (e : ℤ) ≤ t ∧ w + BitVec.ofNat 64 e = w + BitVec.ofInt 64 (t - 2)) ↔ 2 ≤ t := by
  constructor
  · rintro ⟨e, he, heq⟩
    have hsame : BitVec.ofNat 64 e = BitVec.ofInt 64 (t - 2) := by
      generalize BitVec.ofNat 64 e = x at heq ⊢
      generalize BitVec.ofInt 64 (t - 2) = y at heq ⊢
      bv_omega
    -- `e` is at most `t`, so the difference of 2 cannot have wrapped
    have hmod := congrArg BitVec.toNat hsame
    rw [BitVec.toNat_ofNat, BitVec.toNat_ofInt] at hmod
    omega
  · intro ht
    refine ⟨(t - 2).toNat, by omega, ?_⟩
    have hnat : ((t - 2).toNat : ℤ) = t - 2 := by omega
    rw [← hnat, BitVec.ofInt_natCast]
    rfl

/-- One below at the store, and one below at the reading. -/
theorem time_of_phase {m s s' w : Counter} (h : m - s' = w - 1#64 - s) :
    m - 1#64 = w + (s' - s + BitVec.ofInt 64 (-2)) := by
  have htwo : BitVec.ofInt 64 (-2) = -1#64 - 1#64 := by decide
  rw [htwo, eq_add_of_sub_eq h]
  ring

/-- After a word store of `v` to a half of `mtime`, a reading before the next such store is what was
stored and the cycles elapsed since, just when two cycles have been charged: always but in the very
next step, and there if it charges more than its own cycle first. -/
theorem mtime_counts_iff (cfg : Config) (hosts : ℕ → Host) (rv : Rv) (n k : ℕ) (d d' : Rv)
    (inst inst' : Word) (c c' : Bool) (r : Reg) (v : Word)
    (hd : (run cfg hosts rv n).dispatch cfg (hosts n) = .ok (d, inst, c))
    (ho : opcode inst = opStore) (hf : func3 inst = opSw) (hr : Regs.stands r = true)
    (hs : d.StoresTo cfg inst r) (hv : d.readRegs cfg (rs2 inst) = v)
    (hq : ∀ j < k, ¬ StoresMtime cfg (hosts (n + 1 + j)) (run cfg hosts rv (n + 1 + j)))
    (hd' : (run cfg hosts rv (n + 1 + k)).dispatch cfg (hosts (n + 1 + k)) =
      .ok (d', inst', c')) :
    (Counts cfg hosts rv n k d' (setTime d.csr.mtime v r) ↔ 2 ≤ elapsed cfg hosts rv n k d') ∧
      (0 ≤ rv.branchPenalty.toInt → (2 ≤ elapsed cfg hosts rv n k d' ↔
        0 < k ∨ d'.csr.cycle - (run cfg hosts rv (n + 1 + k)).csr.cycle ≠ 1#64)) := by
  refine ⟨?_, fun hp => two_le_elapsed_iff hp hd'⟩
  have hset : (run cfg hosts rv (n + 1)).csr.mtime = setTime d.csr.mtime v r - 1#64 :=
    step_setTime hd ho hf hr hs hv
  have hpace : ∀ j < k,
      (run cfg hosts rv (n + 1 + j + 1)).csr.mtime - (run cfg hosts rv (n + 1 + j)).csr.mtime =
        (run cfg hosts rv (n + 1 + j + 1)).csr.cycle -
          (run cfg hosts rv (n + 1 + j)).csr.cycle := by
    intro j hj
    have hstep : (run cfg hosts rv (n + 1 + j + 1)).csr.mtime -
        (run cfg hosts rv (n + 1 + j + 1)).csr.cycle = _ := step_phase (hq j hj)
    bv_omega
  -- `mtime - cycle` is what the store made it up to the switch of the reading step
  have hphase := run_phase hq
  have hswitch : d'.csr.mtime - d'.csr.cycle = (run cfg hosts rv (n + 1 + k)).csr.mtime -
      (run cfg hosts rv (n + 1 + k)).csr.cycle := congrArg Clock.phase (dispatch_clock hd')
  have htime : d'.csr.mtime - 1#64 =
      setTime d.csr.mtime v r + BitVec.ofInt 64 (elapsed cfg hosts rv n k d' - 2) := by
    rw [show elapsed cfg hosts rv n k d' - 2 = elapsed cfg hosts rv n k d' + -2 by omega,
      BitVec.ofInt_add, ofInt_elapsed]
    rw [hset] at hphase
    exact time_of_phase (hswitch.trans hphase)
  rw [← counts_iff (setTime d.csr.mtime v r)]
  constructor
  · rintro ⟨-, e, he, hreads, -⟩
    rw [reads_iff, htime] at hreads
    exact ⟨e, he, hreads⟩
  · rintro ⟨e, he, heq⟩
    have hreads : d'.Reads (hosts (n + 1 + k))
        (setTime d.csr.mtime v r + BitVec.ofNat 64 e) := by
      rw [reads_iff, htime]
      exact heq
    exact ⟨hpace, e, he, hreads, fun inst c r hdis hl => hreads.load hdis hl⟩

/-- `lui x1, 0x90000`, `sw x0, 0(x1)`, the instructions `gap` and `lw x3, 0(x1)`. -/
def clearsTime (gap : List Word) : Rv :=
  boot .rv32im 1 (image ([0x900000b7#32, 0x0000a023#32] ++ gap ++ [0x0000a183#32]))

/-- The state at the opcode switch of step `n`. -/
def clearsTimeAt (gap : List Word) (n : ℕ) : Rv :=
  (atSwitch .rv32im (fun _ => .none) (clearsTime gap) n).1

theorem clearsTime_dispatch {gap : List Word} {n : ℕ} {w : Word}
    (h : (atSwitch .rv32im (fun _ => .none) (clearsTime gap) n).2 = w) :
    (run .rv32im (fun _ => .none) (clearsTime gap) n).dispatch .rv32im .none =
      .ok (clearsTimeAt gap n, w, false) := by
  rw [dispatch_rv32im, ← h]
  rfl

/-- Read by the next instruction, a time just set to 0 is 2^64 - 1. -/
theorem mtime_counts_next :
    let host : ℕ → Host := fun _ => .none
    (run .rv32im host (clearsTime []) 1).dispatch .rv32im .none =
        .ok (clearsTimeAt [] 1, 0x0000a023#32, false) ∧
      (clearsTimeAt [] 1).storeAddress .rv32im 0x0000a023#32 = mmioMtime ∧
      (clearsTimeAt [] 1).memOk mmioMtime 4#32 = false ∧
      setTime (clearsTimeAt [] 1).csr.mtime 0#32 .mtime = 0#64 ∧
      (run .rv32im host (clearsTime []) 2).dispatch .rv32im .none =
        .ok (clearsTimeAt [] 2, 0x0000a183#32, false) ∧
      (run .rv32im host (clearsTime []) 3).regs 3#5 = 0xffffffff#32 ∧
      ¬ Counts .rv32im host (clearsTime []) 1 0 (clearsTimeAt [] 2) 0#64 := by
  intro host
  refine ⟨clearsTime_dispatch (by decide +kernel), by decide +kernel, by decide +kernel,
    by decide +kernel, clearsTime_dispatch (by decide +kernel), by decide +kernel, ?_⟩
  rintro ⟨-, e, he, ⟨hlo, -⟩, -⟩
  have hone : elapsed .rv32im host (clearsTime []) 1 0 (clearsTimeAt [] 2) = 1 := by
    decide +kernel
  have hload : (clearsTimeAt [] 2).loadDevice .none mmioMtime = some 0xffffffff#32 := by
    decide +kernel
  have hread : some 0xffffffff#32 = some (Counter.lo (0#64 + BitVec.ofNat 64 e)) :=
    hload.symm.trans hlo
  rw [hone] at he
  -- one cycle has elapsed, and neither 0 nor 1 has a low half of all ones
  rcases (by omega : e = 0 ∨ e = 1) with rfl | rfl
  · exact absurd hread (by decide)
  · exact absurd hread (by decide)

/-- One instruction later it reads 0. -/
theorem mtime_counts_nop :
    Counts .rv32im (fun _ => .none) (clearsTime [0x00000013#32]) 1 1
      (clearsTimeAt [0x00000013#32] 3)
      (setTime (clearsTimeAt [0x00000013#32] 1).csr.mtime 0#32 .mtime) := by
  have hcounts := mtime_counts_iff .rv32im (fun _ => .none) (clearsTime [0x00000013#32]) 1 1
    (clearsTimeAt [0x00000013#32] 1) (clearsTimeAt [0x00000013#32] 3) 0x0000a023#32 0x0000a183#32
    false false .mtime 0#32 (clearsTime_dispatch (by decide +kernel)) (by decide) (by decide) rfl
    ⟨by decide +kernel, 4, by decide, by decide +kernel⟩ (by decide +kernel) ?_
    (clearsTime_dispatch (by decide +kernel))
  · exact hcounts.1.mpr ((hcounts.2 (by decide)).mpr (Or.inl (by decide)))
  · intro j hj
    obtain rfl : j = 0 := by omega
    rintro ⟨d, inst, c, r, hd, ho, -⟩
    rw [clearsTime_dispatch (w := 0x00000013#32) (by decide +kernel)] at hd
    have hi : 0x00000013#32 = inst :=
      congrArg (fun t : Rv × Word × Bool => t.2.1) (Except.ok.inj hd)
    rw [← hi] at ho
    exact absurd ho (by decide)

end Rv

end Srv32.Iss

import Srv32.Iss.Moves

/-! The CLINT registers of the simulator along a run: `mtime` keeps its distance from the cycle
counter, but for a store to it. -/

namespace Srv32.Iss

open Device (Reg Access Regs)

namespace Rv

/-- The CLINT moved with the cycle counter. -/
def Paced (a b : Rv) : Prop := a.mtimeUpdate = false → b.clock = a.clock

def Accesses (cfg : Config) (d : Rv) (inst : Word) : Access → Prop
  | .other =>
    (opcode inst = opLoad → ∀ r : Reg, d.loadAddress cfg inst ≠ r.addr) ∧
    (opcode inst = opStore → ∀ r : Reg, d.storeAddress cfg inst ≠ r.addr)
  | .load r => opcode inst = opLoad ∧ func3 inst = opLw ∧ d.loadAddress cfg inst = r.addr
  | .store r v =>
    opcode inst = opStore ∧ func3 inst = opSw ∧ d.storeAddress cfg inst = r.addr ∧
      d.readRegs cfg (rs2 inst) = v

instance (cfg : Config) (d : Rv) (inst : Word) (e : Access) :
    Decidable (d.Accesses cfg inst e) :=
  match e with
  | .other => inferInstanceAs (Decidable (_ ∧ _))
  | .load _ => inferInstanceAs (Decidable (_ ∧ _ ∧ _))
  | .store _ _ => inferInstanceAs (Decidable (_ ∧ _ ∧ _ ∧ _))

variable {cfg : Config} {a b d rv : Rv} {inst : Word} {host : Host} {c : Bool}

theorem Paced.trans (h : Paced a b) (h' : Paced b d) : Paced a d := by
  intro ha
  have hb := h ha
  have hu : b.mtimeUpdate = false := (congrArg Clock.mtimeUpdate hb).trans ha
  exact (h' hu).trans hb

theorem paced_cycleAdd (n : Word) : Paced rv (rv.cycleAdd n) := by
  intro hu
  have hphase : rv.csr.mtime + n.signExtend 64 - (rv.csr.cycle + n.signExtend 64) =
      rv.csr.mtime - rv.csr.cycle := by bv_omega
  simp only [clock, cycleAdd, hu]
  simp [hphase]

/-- Charges keep the pace. -/
theorem Moves.paced {k : ℕ} (h : Moves (fun _ => False) k a b) : Paced a b := by
  induction h with
  | idle h => exact fun _ => h.clock
  | charge h => exact paced_cycleAdd _
  | store h => exact h.elim
  | trans _ _ ih ih' => exact ih.trans ih'

theorem paced_ramCycle : Paced rv rv.ramCycle := moves_ramCycle.paced

/-- Every instruction but a store to the CLINT keeps the pace. -/
theorem paced_execNext
    (h : opcode inst = opStore → ∀ r : Reg, rv.storeAddress cfg inst ≠ r.addr) :
    Paced rv (rv.execNext cfg inst host c).2 :=
  (moves_execNext fun ho r hr => h ho r hr.1).paced

theorem prologue_clock (cfg : Config) (host : Host) (rv : Rv) :
    (rv.prologue cfg host).1.clock = { rv.clock with mtimeUpdate := false } := by
  obtain ⟨s, hs, hidle⟩ := moves_prologue cfg host rv
  exact (hs.one.andIdle hidle).paced rfl

theorem dispatch_clock (h : rv.dispatch cfg host = .ok (d, inst, c)) :
    d.clock = { rv.clock with mtimeUpdate := false } := by
  obtain ⟨s, hs, hd⟩ := moves_dispatch cfg host rv
  rw [h] at hd
  exact (hs.one.trans hd).paced rfl

/-! Accesses. -/

/-- Instructions and data are in different RAMs, and the CLINT lies outside guest memory. -/
structure Beside (d : Rv) : Prop where
  singleram : d.singleram = false
  unmapped : ∀ r : Reg, d.memOk r.addr 4#32 = false

theorem Beside.of_clock {d d' : Rv} (h : Beside d) (hs : d'.clock.singleram = d.clock.singleram)
    (hb : d'.clock.memBase = d.clock.memBase) (hz : d'.clock.memSize = d.clock.memSize) :
    Beside d' := by
  have hs' : d'.singleram = d.singleram := hs
  have hb' : d'.memBase = d.memBase := hb
  have hz' : d'.memSize = d.memSize := hz
  refine ⟨hs'.trans h.singleram, fun r => ?_⟩
  rw [memOk, hb', hz']
  exact h.unmapped r

theorem addr_aligned (r : Reg) : r.addr.toNat % 4 = 0 := by
  cases r <;> rfl

theorem load_device (hd : Beside d) {r : Reg} (h : d.Accesses .rv32im inst (.load r)) :
    (d.execNext .rv32im inst host c).2.regs (rd inst) = d.device.read r := by
  obtain ⟨ho, hf, ha⟩ := h
  have hb : loadBytes (func3 inst) = some 4 := by rw [hf]; rfl
  have hm : d.memOk (d.loadAddress .rv32im inst) (BitVec.ofNat 32 4) = false := by
    rw [ha]
    exact hd.unmapped r
  have hexec : d.exec .rv32im inst host c = _ :=
    exec_load_device ho hb (by rw [ha]; exact addr_aligned r) hm
  have hdev : d.loadDevice host (d.loadAddress .rv32im inst) = some (d.device.read r) := by
    rw [ha]
    cases r <;> rfl
  have hram : d.ramCycle = d := by rw [ramCycle, hd.singleram]; rfl
  rw [hdev, hram, hf] at hexec
  rw [execNext_brk hexec, writeRegs_rv32im]
  exact Function.update_self _ _ _

theorem exec_storesTo (ho : opcode inst = opStore) {r : Reg} (hs : d.StoresTo cfg inst r) :
    d.exec cfg inst host c = .brk (d.storeReg r
      (d.device.word r &&& ~~~storeMask (func3 inst) ||| d.readRegs cfg (rs2 inst))).ramCycle := by
  obtain ⟨ha, n, hb, hm⟩ := hs
  have halign : (d.storeAddress cfg inst).toNat % n = 0 := by
    have h4 : r.addr.toNat % 4 = 0 := addr_aligned r
    rw [ha]
    rcases storeBytes_mem hb with rfl | rfl | rfl <;> omega
  have hx : d.exec cfg inst host c = _ := exec_store_device ho hb halign (by rw [ha]; exact hm)
  rw [ha, storeDevice_reg] at hx
  exact hx

/-- The mask of a word store keeps nothing of the old value. -/
theorem word_mask (w v : Word) : w &&& ~~~storeMask opSw ||| v = v := by
  have h0 : w &&& ~~~storeMask opSw = 0#32 := by
    change w &&& 0#32 = 0#32
    exact BitVec.and_zero
  rw [h0]
  exact BitVec.zero_or

theorem store_device (hd : Beside d) {r : Reg} {v : Word}
    (h : d.Accesses .rv32im inst (.store r v)) :
    d.exec .rv32im inst host c = .brk (d.storeReg r v) := by
  obtain ⟨ho, hf, ha, hv⟩ := h
  have hb : storeBytes (func3 inst) = some 4 := by rw [hf]; rfl
  have hram : (d.storeReg r v).ramCycle = d.storeReg r v := by
    have hs : (d.storeReg r v).singleram = false := by
      cases r <;> exact hd.singleram
    rw [ramCycle, hs]
    rfl
  rw [exec_storesTo ho ⟨ha, 4, hb, hd.unmapped r⟩, hf, hv, word_mask, hram]

/-- The simulator takes one off `mtime` for the `+1` of the next step. -/
theorem storeReg_device (d : Rv) (r : Reg) (v : Word) : (d.storeReg r v).device =
    (d.device.write (BitVec.allOnes 32) r v).tick (if Regs.stands r then -1#64 else 0#64) := by
  cases r with
  | msip =>
    have hv : v = v &&& BitVec.allOnes 32 := BitVec.and_allOnes.symm
    simp only [storeReg, device, Regs.write, Regs.tick, Regs.stands, ← hv]
    simp
  | _ => simp [storeReg, device, Regs.write, Regs.tick, Regs.stands, Counter.setLo, Counter.setHi,
      Counter.lo, Counter.hi, Device.setLo, Device.setHi, Device.lo, Device.hi,
      BitVec.sub_eq_add_neg]

/-- The CLINT registers from one switch to the next, in terms of the cycles between them. -/
theorem device_next (hu : d.mtimeUpdate = false) (hd : Beside d) {e : Access}
    (h : d.Accesses .rv32im inst e) (host' : Host) :
    let d' := ((d.execNext .rv32im inst host c).2.prologue .rv32im host').1
    d'.device = d.device.after (BitVec.allOnes 32) e (d'.csr.cycle - d.csr.cycle) ∧ Beside d' := by
  intro d'
  have hclock : d'.clock = { (d.execNext .rv32im inst host c).2.clock with mtimeUpdate := false } :=
    prologue_clock _ _ _
  -- no store to the CLINT
  have hquiet : (∀ r v, e ≠ .store r v) → d'.device = d.device.tick (d'.csr.cycle - d.csr.cycle) ∧
      Beside d' := by
    intro hne
    have hno : opcode inst = opStore → ∀ r : Reg, d.storeAddress .rv32im inst ≠ r.addr := by
      intro ho r
      cases e with
      | other => exact h.2 ho r
      | load r' =>
        rw [h.1] at ho
        exact absurd ho (by decide)
      | store r' v => exact absurd rfl (hne r' v)
    have hsame : d'.clock = d.clock := by
      rw [hclock, paced_execNext hno hu]
      change { d.clock with mtimeUpdate := false } = d.clock
      rw [← hu]
      rfl
    refine ⟨?_, hd.of_clock (by rw [hsame]) (by rw [hsame]) (by rw [hsame])⟩
    have hphase : d'.csr.mtime - d'.csr.cycle = d.csr.mtime - d.csr.cycle :=
      congrArg Clock.phase hsame
    ext1
    · change d'.csr.mtime = d.csr.mtime + (d'.csr.cycle - d.csr.cycle)
      bv_omega
    · exact congrArg Clock.mtimecmp hsame
    · exact congrArg Clock.msip hsame
  cases e with
  | other => exact hquiet (by simp)
  | load r => exact hquiet (by simp)
  | store r v =>
    have hexec : d.exec .rv32im inst host c = _ := store_device hd h
    rw [execNext_brk hexec] at hclock
    have hphase : d'.csr.mtime - d'.csr.cycle = (d.storeReg r v).csr.mtime - d.csr.cycle := by
      have hp := congrArg Clock.phase hclock
      cases r <;> exact hp
    have hstep : d'.device = (d.storeReg r v).device.tick (d'.csr.cycle - d.csr.cycle) := by
      ext1
      · change d'.csr.mtime = (d.storeReg r v).csr.mtime + (d'.csr.cycle - d.csr.cycle)
        bv_omega
      · exact congrArg Clock.mtimecmp hclock
      · exact congrArg Clock.msip hclock
    refine ⟨?_, hd.of_clock ?_ ?_ ?_⟩
    · rw [hstep, storeReg_device, Regs.tick_tick, Regs.after]
      congr 1
      split
      · bv_omega
      · exact BitVec.zero_add _
    all_goals
      rw [hclock]
      cases r <;> rfl

theorem device_run {hosts : ℕ → Host} (hd : Beside rv) {es : ℕ → Access} {n : ℕ}
    (he : ∀ j < n, (atSwitch .rv32im hosts rv j).1.Accesses .rv32im
      (atSwitch .rv32im hosts rv j).2 (es j)) :
    (atSwitch .rv32im hosts rv n).1.device =
      (atSwitch .rv32im hosts rv 0).1.device.run (BitVec.allOnes 32) es
        (fun j => (atSwitch .rv32im hosts rv (j + 1)).1.csr.cycle -
          (atSwitch .rv32im hosts rv j).1.csr.cycle) n ∧
      Beside (atSwitch .rv32im hosts rv n).1 := by
  induction n with
  | zero =>
    have hclock : (atSwitch .rv32im hosts rv 0).1.clock = { rv.clock with mtimeUpdate := false } :=
      prologue_clock .rv32im (hosts 0) rv
    refine ⟨rfl, hd.of_clock ?_ ?_ ?_⟩
    · rw [hclock]
    · rw [hclock]
    · rw [hclock]
  | succ n ih =>
    obtain ⟨hreg, hb⟩ := ih fun j hj => he j (by omega)
    have hu : (atSwitch .rv32im hosts rv n).1.mtimeUpdate = false :=
      congrArg Clock.mtimeUpdate (prologue_clock .rv32im (hosts n) (run .rv32im hosts rv n))
    rw [Regs.run, ← hreg]
    exact device_next hu hb (he n (by omega)) (hosts (n + 1))

end Rv

end Srv32.Iss

import Srv32.Refine.Compressed

/-! One step on a compressed instruction: what the manual says of the halfword, or a trap. -/

namespace Srv32.Iss

open Riscv (Instr Meaning)
open Riscv.Compressed (meaning isHint)

theorem meaning_three {k : BitVec 16} (hq : cOp k = 3#2) : meaning k = .undefined := by
  simp only [meaning, show Riscv.Compressed.quadrant k = 3#2 from hq]
  rfl

theorem decoder_instr {k : BitVec 16} {i : Instr} (h : meaning k = .instr i) :
    ∃ i' : Instr, (∀ inst, compressedDecoder k inst = ⟨true, i'.encode, false⟩) ∧
      (∀ len s, i'.step len s = i.step len s) ∧ (∀ s, i'.access s = i.access s) ∧
      i'.isJump = i.isJump ∧ i'.isM = false := by
  have hm := meaning_notM k i h
  by_cases hs : special k
  · obtain ⟨hq, hx | hl⟩ := hs
    · rcases meaning_x0 k hq hx with ⟨-, -, hu⟩ | ⟨j, hj, -, hstep, hacc, hjump, -⟩
      · rw [hu] at h
        cases h
      · obtain rfl : j = i := Meaning.instr.inj (hj.symm.trans h)
        exact ⟨_, compressedDecoder_x0 k hq hx, fun len s => (hstep len s).symm,
          fun s => (hacc s).symm, hjump.symm, rfl⟩
    · rw [meaning_longShift k hq hl] at h
      cases h
  · have hq : cOp k ≠ 3#2 := by
      intro h3
      rw [meaning_three h3] at h
      cases h
    refine ⟨i, fun inst => ?_, fun _ _ => rfl, fun _ => rfl, rfl, hm⟩
    rw [compressedDecoder_eq k hq hs, h]
    rfl

namespace Rv

variable {cfg : Config} {rv s d : Rv} {host : Host} {k : BitVec 16}

/-- The state at the switch when the decoder has made the word there: `n` is its extra cycle. -/
def unpacked (s : Rv) (inst n : Word) : Rv :=
  { (s.sampleIrq inst).count.cycleAdd n with latch.compressedPrev := true }

@[simp] theorem regs_unpacked (inst n : Word) : (s.unpacked inst n).regs = s.regs := by
  simp only [unpacked, count, cycleAdd, sampleIrq]

@[simp] theorem mem_unpacked (inst n : Word) : (s.unpacked inst n).mem = s.mem := by
  simp only [unpacked, count, cycleAdd, sampleIrq]

@[simp] theorem memBase_unpacked (inst n : Word) :
    (s.unpacked inst n).memBase = s.memBase := by
  simp only [unpacked, count, cycleAdd, sampleIrq]

@[simp] theorem memSize_unpacked (inst n : Word) :
    (s.unpacked inst n).memSize = s.memSize := by
  simp only [unpacked, count, cycleAdd, sampleIrq]

@[simp] theorem prevPc_unpacked (inst n : Word) : (s.unpacked inst n).prevPc = s.pc := by
  simp only [unpacked, count, cycleAdd, sampleIrq]

@[simp] theorem readRegs_unpacked (inst n : Word) (r : BitVec 5) :
    (s.unpacked inst n).readRegs cfg r = s.readRegs cfg r := by
  rw [readRegs, readRegs, regs_unpacked]

@[simp] theorem memOk_unpacked (inst n a len : Word) :
    (s.unpacked inst n).memOk a len = s.memOk a len := by
  rw [memOk, memOk, memBase_unpacked, memSize_unpacked]

theorem expand_ok {inst w : Word} (h : compressedDecoder k inst = ⟨true, w, false⟩) :
    ∃ n, (s.sampleIrq inst).count.expand k inst = .ok (s.unpacked inst n, w, true) := by
  unfold expand
  rw [h]
  by_cases hp : (s.sampleIrq inst).count.latch.compressedPrev ≠ true
  · refine ⟨1#32, ?_⟩
    simp only [if_pos hp]
    rfl
  · refine ⟨0#32, ?_⟩
    rw [unpacked, cycleAdd_zero]
    simp only [if_neg hp]
    rfl

theorem fetchC_machine (h : rv.Laid) (hi : rv.Inside rv.pc 2) :
    rv.fetchC host = rv.machine.half rv.pc := by
  have hok : rv.memOk rv.pc 2#32 = true := (memOk_eq h (by decide)).mpr (Or.inl hi)
  rw [fetchC, readMem, if_pos hok, machine_half h hi]

theorem srv32Step_unpacked (hc : cfg.rv32c = true) {w : Word}
    (h : ∀ inst, compressedDecoder ((rv.settle cfg).fetchC host) inst = ⟨true, w, false⟩) :
    ∃ n, srv32Step cfg host rv =
      ((rv.settle cfg).unpacked ((rv.settle cfg).fetch host) n).execNext cfg w host true := by
  obtain ⟨n, hn⟩ := expand_ok (s := rv.settle cfg) (h ((rv.settle cfg).fetch host))
  refine ⟨n, ?_⟩
  have hd : rv.dispatch cfg host =
      .ok ((rv.settle cfg).unpacked ((rv.settle cfg).fetch host) n, w, true) := by
    unfold dispatch prologue
    simp only
    rw [if_pos hc]
    exact hn
  rw [srv32Step_eq, hd]

theorem srv32Step_rejected (hc : cfg.rv32c = true) {w : Word}
    (h : ∀ inst, compressedDecoder ((rv.settle cfg).fetchC host) inst = ⟨true, w, true⟩) :
    ∃ n, srv32Step cfg host rv = (.code rvTrap,
      ((rv.settle cfg).unpacked ((rv.settle cfg).fetch host) n).trap trapInstIll
        (((rv.settle cfg).fetchC host).signExtend 32)) := by
  generalize hk : (rv.settle cfg).fetchC host = k at h ⊢
  generalize hi : (rv.settle cfg).fetch host = inst
  obtain ⟨n, hn⟩ : ∃ n, ((rv.settle cfg).sampleIrq inst).count.expand k inst =
      .error (.code rvTrap, ((rv.settle cfg).unpacked inst n).trap trapInstIll
        (k.signExtend 32)) := by
    unfold expand
    rw [h]
    by_cases hp : ((rv.settle cfg).sampleIrq inst).count.latch.compressedPrev ≠ true
    · refine ⟨1#32, ?_⟩
      simp only [if_pos hp]
      rfl
    · refine ⟨0#32, ?_⟩
      rw [unpacked, cycleAdd_zero]
      simp only [if_neg hp]
      rfl
  refine ⟨n, ?_⟩
  have hd : rv.dispatch cfg host = .error (.code rvTrap,
      ((rv.settle cfg).unpacked inst n).trap trapInstIll (k.signExtend 32)) := by
    unfold dispatch prologue
    simp only
    rw [if_pos hc, hk, hi]
    exact hn
  rw [srv32Step_eq, hd]

/-- What the manual says of a step at the halfword `k`. -/
structure Performs (rv : Rv) (r : Ret × Rv) (k : BitVec 16) : Prop where
  instr : ∀ i, meaning k = .instr i → Executes rv r (i.step 2#32 rv.machine)
  ebreak : meaning k = .ebreak → TrapsWith r trapBreak ∧ r.2.csr.mepc = rv.pc
  hint : isHint k = true →
    (∀ n, n ≠ 0#5 → r.2.regs n = rv.regs n) ∧ r.2.machine.mem = rv.machine.mem

theorem machine_unpacked (inst n : Word) : (rv.fresh.unpacked inst n).machine = rv.machine :=
  (machine_fresh : rv.fresh.machine = rv.machine)

theorem execNext_ebreak (c : Bool) : d.execNext cfg 0x00100073#32 host c =
    (.code rvTrap, d.trap trapBreak d.pc) := by
  have hx : d.exec cfg 0x00100073#32 host c = d.trapRet trapBreak d.pc := rfl
  rw [execNext, hx]
  rfl

theorem decoder_ebreak (h : meaning k = .ebreak) (inst : Word) :
    compressedDecoder k inst = ⟨true, 0x00100073#32, false⟩ := by
  have hq : cOp k ≠ 3#2 := by
    intro h3
    rw [meaning_three h3] at h
    cases h
  have hs : ¬ special k := by
    rintro ⟨h1, hx | hl⟩
    · rcases meaning_x0 k h1 hx with ⟨-, -, hu⟩ | ⟨j, hj, -⟩
      · rw [hu] at h
        cases h
      · rw [hj] at h
        cases h
    · rw [meaning_longShift k h1 hl] at h
      cases h
  rw [compressedDecoder_eq k hq hs, h]
  rfl

/-- The simulator implements RV32C: one step from a state without a latched interrupt, at a pc in
memory, is what the manual says of the halfword there. -/
theorem compressed_manual (cfg : Config) (host : Host) (rv : Rv) (hc : cfg.rv32c = true)
    (he : cfg.rv32e = false) (hl : rv.Laid) (hp : rv.pc.toNat % 2 = 0) (hin : rv.Inside rv.pc 4)
    (hu : rv.Undisturbed)
    (ha : ∀ i a n, meaning (rv.machine.half rv.pc) = .instr i →
      i.access rv.machine = some (a, n) → a.toNat % n = 0 ∧ rv.Inside a n)
    (hself : ∀ i, meaning (rv.machine.half rv.pc) = .instr i → i.isJump = true →
      (i.step 2#32 rv.machine).pc ≠ rv.pc) :
    Performs rv (srv32Step cfg host rv) (rv.machine.half rv.pc) := by
  have hset : rv.settle cfg = rv.fresh := by
    refine hu.settle_cfg (hin.inRange hl (by omega)) ?_
    rw [if_pos hc]
    exact hp
  have hk : (rv.settle cfg).fetchC host = rv.machine.half rv.pc := by
    have hl' : rv.fresh.Laid := ⟨hl.pos, hl.top⟩
    have hin' : rv.fresh.Inside rv.fresh.pc 2 := by
      have h2 : rv.Inside rv.pc 2 := ⟨hin.1, by have := hin.2; omega⟩
      exact h2
    rw [hset, fetchC_machine hl' hin', machine_fresh]
    rfl
  generalize rv.machine.half rv.pc = k at *
  have hinstr : ∀ i, meaning k = .instr i →
      Executes rv (srv32Step cfg host rv) (i.step 2#32 rv.machine) := by
    intro i hi
    obtain ⟨j, hdec, hstep, hacc, hjump, hm⟩ := decoder_instr hi
    obtain ⟨n, hn⟩ : ∃ n, srv32Step cfg host rv = _ :=
      srv32Step_unpacked hc fun inst => by rw [hk]; exact hdec inst
    rw [hset] at hn
    have hmach : (rv.fresh.unpacked (rv.fresh.fetch host) n).machine = rv.machine :=
      machine_unpacked (rv.fresh.fetch host) n
    have hkept : CsrKept rv.csr (rv.fresh.unpacked (rv.fresh.fetch host) n).csr := rfl
    have hx : Executes (rv.fresh.unpacked (rv.fresh.fetch host) n)
        ((rv.fresh.unpacked (rv.fresh.fetch host) n).execNext cfg j.encode host true)
        (j.step (instLen true) (rv.fresh.unpacked (rv.fresh.fetch host) n).machine) := by
      have hl' : (rv.fresh.unpacked (rv.fresh.fetch host) n).Laid := ⟨hl.pos, hl.top⟩
      refine executes he ?_ hl' hp j ⟨fun h => ?_, ?_, Or.inl hc, ?_⟩
      · change Function.update rv.regs 0#5 0#32 0#5 = 0#32
        rw [Function.update_self]
      · rw [hm] at h
        cases h
      · intro a m hacc'
        rw [hmach, hacc] at hacc'
        exact ha i a m hi hacc'
      · rw [hjump, hstep, hmach]
        exact hself i hi
    rw [hmach, hstep] at hx
    rw [hn]
    exact ⟨hx.okay, hx.machine, hkept.trans hx.csr⟩
  refine ⟨hinstr, fun hb => ?_, fun hh => ?_⟩
  · obtain ⟨n, hstep⟩ : ∃ n, srv32Step cfg host rv = _ :=
      srv32Step_unpacked hc fun inst => by rw [hk]; exact decoder_ebreak hb inst
    rw [hstep, execNext_ebreak, hset]
    exact ⟨⟨rfl, rfl⟩, rfl⟩
  · obtain ⟨i, hi, hidle⟩ := Riscv.Compressed.hint_idle hh
    have hx := (hinstr i hi).machine
    obtain ⟨hreg, hmem⟩ := hidle 2#32 rv.machine
    refine ⟨fun n hn => ?_, by rw [hx, hmem]⟩
    have hn' : (srv32Step cfg host rv).2.machine.x n = rv.machine.x n := by rw [hx, hreg]
    simp only [machine, if_neg hn] at hn'
    exact hn'

/-- `c.li x5, 7` from reset. -/
theorem compressed_manual_li :
    let rv := Rv.boot ⟨true, false, false, true⟩ 1 (image [0x0000429d#32])
    Performs rv (srv32Step ⟨true, false, false, true⟩ .none rv) (rv.machine.half rv.pc) := by
  intro rv
  have hk : rv.machine.half rv.pc = 0x429d#16 := by decide
  have hm : meaning 0x429d#16 = .instr (.opImm .addi 5#5 0#5 7#12) := by decide
  refine compressed_manual ⟨true, false, false, true⟩ .none rv rfl rfl ⟨by decide, by decide⟩
    (by decide) (by decide) (Or.inl (by decide)) ?_ ?_
  · intro i a n h hacc
    rw [hk, hm] at h
    cases h
    cases hacc
  · intro i h hj
    rw [hk, hm] at h
    cases h
    cases hj

/-! Undefined halfwords. -/

section

variable {inst : Word} {c : Bool} {cause : Word}

theorem not_traps_brk {s : Rv} (hx : d.exec cfg inst host c = .brk s) :
    ¬ TrapsWith (d.execNext cfg inst host c) cause := by
  rw [execNext_brk hx]
  exact fun h => by cases h.1

theorem not_traps_ret {r : Ret} {s : Rv} (hx : d.exec cfg inst host c = .ret r s)
    (hr : r ≠ .code rvTrap) : ¬ TrapsWith (d.execNext cfg inst host c) cause := by
  rw [execNext, hx]
  exact fun h => hr h.1

theorem traps_trapRet {s : Rv} {k v : Word} (hx : d.exec cfg inst host c = s.trapRet k v) :
    TrapsWith (d.execNext cfg inst host c) cause ↔ k = cause := by
  rw [execNext_trapRet hx]
  exact ⟨fun h => h.2, fun h => ⟨rfl, h⟩⟩

theorem jump_ret (t : Word) :
    ∃ r s, d.jump cfg inst c t = .ret r s ∧ r ≠ .code rvTrap := by
  unfold jump
  simp only
  split_ifs
  · exact ⟨_, _, rfl, by decide⟩
  · exact ⟨_, _, rfl, by decide⟩

theorem not_traps_jump {t : Word} (hx : d.exec cfg inst host c = d.jump cfg inst c t) :
    ¬ TrapsWith (d.execNext cfg inst host c) cause := by
  obtain ⟨r, s, hj, hr⟩ : ∃ r s, d.jump cfg inst c t = .ret r s ∧ r ≠ .code rvTrap := jump_ret t
  exact not_traps_ret (hx.trans hj) hr

theorem not_traps_writeRd {v : Option Word} (hv : v.isSome = true)
    (hx : d.exec cfg inst host c = d.writeRd cfg inst v) :
    ¬ TrapsWith (d.execNext cfg inst host c) cause := by
  obtain ⟨w, rfl⟩ := Option.isSome_iff_exists.mp hv
  exact not_traps_brk hx

theorem execBranch_arm {k : Riscv.Cond} (h3 : func3 inst = k.funct3) :
    ∃ taken, d.execBranch cfg inst = d.branchArm taken (immB inst) := by
  unfold execBranch
  simp only
  split_ifs with h h h h h h
  · exact ⟨_, rfl⟩
  · exact ⟨_, rfl⟩
  · exact ⟨_, rfl⟩
  · exact ⟨_, rfl⟩
  · exact ⟨_, rfl⟩
  · exact ⟨_, rfl⟩
  · rw [h3] at *
    cases k <;> simp [Riscv.Cond.funct3] at *

theorem branchArm_ends (taken : Bool) (off : Word) :
    (∃ s, d.branchArm taken off = .brk s) ∨
      ∃ r s, d.branchArm taken off = .ret r s ∧ r ≠ .code rvTrap := by
  unfold branchArm
  simp only
  split_ifs
  · exact Or.inr ⟨_, _, rfl, by decide⟩
  · exact Or.inr ⟨_, _, rfl, by decide⟩
  · exact Or.inl ⟨_, rfl⟩

end

/-- A load faults for its address alone. -/
theorem load_legal (op : Riscv.LoadOp) (r s1 : BitVec 5) (off : BitVec 12) (c : Bool) :
    ¬ TrapsWith (d.execNext cfg (Instr.load op r s1 off).encode host c) trapInstIll := by
  obtain ⟨ho, -, h3, -, -⟩ := fields_iType s1 r op.funct3 opLoad off
  have hb : loadBytes (func3 (Instr.load op r s1 off).encode) = some op.size := by
    rw [show func3 (Instr.load op r s1 off).encode = op.funct3 from h3]
    cases op <;> rfl
  have ho' : opcode (Instr.load op r s1 off).encode = opLoad := ho
  by_cases ha : (d.loadAddress cfg (Instr.load op r s1 off).encode).toNat % op.size = 0
  · cases hm : d.memOk (d.loadAddress cfg (Instr.load op r s1 off).encode)
      (BitVec.ofNat 32 op.size) with
    | true => exact not_traps_brk (exec_load_ram ho' hb ha hm)
    | false =>
      have hx : d.exec cfg _ host c = _ := exec_load_device ho' hb ha hm
      cases hv : d.loadDevice host (d.loadAddress cfg (Instr.load op r s1 off).encode) with
      | none =>
        rw [hv] at hx
        rw [traps_trapRet hx]
        decide
      | some data =>
        rw [hv] at hx
        exact not_traps_brk hx
  · rw [traps_trapRet (exec_load_misaligned ho' hb ha)]
    decide

/-- A store of the exit register comes back from `memrw` with the code of an illegal
instruction. -/
theorem store_illegal_iff (op : Riscv.StoreOp) (s1 s2 : BitVec 5) (off : BitVec 12) (c : Bool) :
    TrapsWith (d.execNext cfg (Instr.store op s1 s2 off).encode host c) trapInstIll ↔
      d.readRegs cfg s1 + off.signExtend 32 = mmioExit ∧
        d.memOk mmioExit (BitVec.ofNat 32 op.size) = false := by
  obtain ⟨ho, h3, h1, -, himm⟩ := fields_sType s2 s1 op.funct3 opStore off
  have hb : storeBytes (func3 (Instr.store op s1 s2 off).encode) = some op.size := by
    rw [show func3 (Instr.store op s1 s2 off).encode = op.funct3 from h3]
    cases op <;> rfl
  have ho' : opcode (Instr.store op s1 s2 off).encode = opStore := ho
  have haddr : d.storeAddress cfg (Instr.store op s1 s2 off).encode =
      d.readRegs cfg s1 + off.signExtend 32 := by
    rw [storeAddress, Instr.encode, h1, himm]
  rw [← haddr]
  generalize Instr.encode (Instr.store op s1 s2 off) = w at *
  have hexit : mmioExit.toNat % op.size = 0 := by cases op <;> rfl
  by_cases ha : (d.storeAddress cfg w).toNat % op.size = 0
  · cases hm : d.memOk (d.storeAddress cfg w) (BitVec.ofNat 32 op.size) with
    | true =>
      refine iff_of_false (not_traps_brk (exec_store_ram ho' hb ha hm)) ?_
      rintro ⟨he, hf⟩
      rw [← he, hm] at hf
      cases hf
    | false =>
      have hx : d.exec cfg w host c = _ := exec_store_device ho' hb ha hm
      by_cases he : d.storeAddress cfg w = mmioExit
      · rw [he] at hm
        rw [he, storeDevice_exit] at hx
        rw [traps_trapRet (hx.trans (by rfl))]
        exact iff_of_true rfl ⟨he, hm⟩
      · refine iff_of_false ?_ fun h => he h.1
        by_cases hd : d.storeAddress cfg w ∈ storeDevices
        · by_cases ht : d.storeAddress cfg w = mmioTohost
          · rw [ht, storeDevice_tohost] at hx
            rcases hto : d.tohost host (d.readRegs cfg (rs2 w)) with ⟨_ | r, s⟩
            · rw [hto] at hx
              exact not_traps_brk (hx.trans (by rfl))
            · have hr := tohost_some (r := r) (by rw [hto])
              rw [hto] at hx
              cases r with
              | code k => exact absurd rfl (hr k)
              | exit status => exact not_traps_ret hx (by simp)
              | segv => exact not_traps_ret hx (by simp)
          · have hcode : (d.storeDevice host _ _ _).1 = _ :=
              storeDevice_code (func3 w) (d.readRegs cfg (rs2 w)) hd he ht
            rcases hs : d.storeDevice host (func3 w) (d.storeAddress cfg w)
              (d.readRegs cfg (rs2 w)) with ⟨r, s⟩
            rw [hs] at hx hcode
            obtain rfl : r = .code 0#32 := hcode
            exact not_traps_brk (hx.trans (by rfl))
        · rw [storeDevice_fault _ _ hd] at hx
          rw [traps_trapRet (hx.trans (by rfl))]
          decide
  · rw [traps_trapRet (exec_store_misaligned ho' hb ha)]
    refine iff_of_false (by decide) ?_
    rintro ⟨he, -⟩
    rw [he] at ha
    exact ha hexit

/-- Of the instructions RV32C has, none but a store traps as illegal. -/
theorem not_illegal (i : Instr) (hm : i.isM = false) (hs : ∀ op s1 s2 off, i ≠ .store op s1 s2 off)
    (c : Bool) : ¬ TrapsWith (d.execNext cfg i.encode host c) trapInstIll := by
  cases i with
  | store op s1 s2 off => exact absurd rfl (hs op s1 s2 off)
  | load op r s1 off => exact load_legal op r s1 off c
  | lui r imm =>
    obtain ⟨ho, -, -⟩ := fields_uType r opLui imm
    refine not_traps_writeRd (v := some (immU (Instr.lui r imm).encode)) rfl ?_
    simp only [exec, Instr.encode, ho]
    rfl
  | auipc r imm =>
    obtain ⟨ho, -, -⟩ := fields_uType r opAuipc imm
    refine not_traps_writeRd (v := some (d.pc + immU (Instr.auipc r imm).encode)) rfl ?_
    simp only [exec, Instr.encode, ho]
    rfl
  | jal r off =>
    obtain ⟨ho, -, -⟩ := fields_jType r opJal off
    have hx : d.exec cfg (Instr.jal r off).encode host c =
        d.execJal cfg (Instr.jal r off).encode c := by
      simp only [exec, Instr.encode, ho]
      rfl
    unfold execJal at hx
    simp only at hx
    split_ifs at hx
    · exact not_traps_ret hx (by decide)
    · exact not_traps_jump hx
  | jalr r s1 off =>
    obtain ⟨ho, -, -, -, -⟩ := fields_iType s1 r 0#3 opJalr off
    have hx : d.exec cfg (Instr.jalr r s1 off).encode host c =
        d.execJalr cfg (Instr.jalr r s1 off).encode c := by
      simp only [exec, Instr.encode, ho]
      rfl
    unfold execJalr at hx
    simp only at hx
    split_ifs at hx
    · exact not_traps_ret hx (by decide)
    · exact not_traps_jump hx
  | branch k s1 s2 off =>
    obtain ⟨ho, h3, -, -, -⟩ := fields_bType s2 s1 k.funct3 opBranch off
    have hx : d.exec cfg (Instr.branch k s1 s2 off).encode host c =
        d.execBranch cfg (Instr.branch k s1 s2 off).encode := by
      simp only [exec, Instr.encode, ho]
      rfl
    obtain ⟨taken, ht⟩ : ∃ taken, d.execBranch cfg _ = _ := execBranch_arm h3
    rcases branchArm_ends (d := d) taken (immB (Instr.branch k s1 s2 off).encode) with
      ⟨s, hs⟩ | ⟨r, s, hs, hr⟩
    · exact not_traps_brk (hx.trans (ht.trans hs))
    · exact not_traps_ret (hx.trans (ht.trans hs)) hr
  | opImm op r s1 imm =>
    obtain ⟨ho, -, h3, -, -⟩ := fields_iType s1 r op.funct3 opArithI imm
    have hv : (d.arithI cfg (Instr.opImm op r s1 imm).encode).isSome = true := by
      cases op <;> simp only [arithI, Instr.encode, h3] <;> rfl
    refine not_traps_writeRd hv ?_
    simp only [exec, Instr.encode, ho]
    rfl
  | shiftImm op r s1 s =>
    obtain ⟨ho, -, h3, -, -, h7⟩ := fields_rType op.funct7 s s1 r op.funct3 opArithI
    have hv : (d.arithI cfg (Instr.shiftImm op r s1 s).encode).isSome = true := by
      cases op <;> simp only [arithI, Instr.encode, h3, h7] <;> rfl
    refine not_traps_writeRd hv ?_
    simp only [exec, Instr.encode, ho]
    rfl
  | reg op r s1 s2 =>
    obtain ⟨ho, -, h3, -, -, h7⟩ := fields_rType op.funct7 s2 s1 r op.funct3 opArithR
    have hv : (d.arithR cfg (Instr.reg op r s1 s2).encode).isSome = true := by
      have h1 : op.funct7 ≠ 1#7 := by simpa [Instr.isM] using hm
      have hb : ¬ (cfg.rv32m = true ∧ op.funct7 = fnRv32m) := fun h => h1 h.2
      cases op <;> simp only [arithR, Instr.encode, h3, h7, if_neg hb] <;>
        first | rfl | exact absurd rfl h1
    refine not_traps_writeRd hv ?_
    simp only [exec, Instr.encode, ho]
    rfl
  | regShift op r s1 s2 =>
    obtain ⟨ho, -, h3, -, -, h7⟩ := fields_rType op.funct7 s2 s1 r op.funct3 opArithR
    have hv : (d.arithR cfg (Instr.regShift op r s1 s2).encode).isSome = true := by
      have h1 : op.funct7 ≠ 1#7 := by cases op <;> decide
      have hb : ¬ (cfg.rv32m = true ∧ op.funct7 = fnRv32m) := fun h => h1 h.2
      cases op <;> simp only [arithR, Instr.encode, h3, h7, if_neg hb] <;> rfl
    refine not_traps_writeRd hv ?_
    simp only [exec, Instr.encode, ho]
    rfl

/-- And a store does where it stores the exit register. -/
theorem illegal_iff (i : Instr) (hm : i.isM = false) (c : Bool) :
    TrapsWith (d.execNext cfg i.encode host c) trapInstIll ↔
      ∃ op s1 s2 off, i = .store op s1 s2 off ∧
        d.readRegs cfg s1 + off.signExtend 32 = mmioExit ∧
        d.memOk mmioExit (BitVec.ofNat 32 op.size) = false := by
  by_cases hs : ∃ op s1 s2 off, i = .store op s1 s2 off
  · obtain ⟨op, s1, s2, off, rfl⟩ := hs
    rw [store_illegal_iff]
    constructor
    · exact fun h => ⟨op, s1, s2, off, rfl, h⟩
    · rintro ⟨op', s1', s2', off', he, h⟩
      cases he
      exact h
  · refine iff_of_false (not_illegal i hm (fun op s1 s2 off he => hs ⟨op, s1, s2, off, he⟩) c) ?_
    rintro ⟨op, s1, s2, off, he, -⟩
    exact hs ⟨op, s1, s2, off, he⟩

/-- What the step from the fetch state `s` should do at the halfword `k`: trap as illegal just when
`k` is undefined, and then leave the trap and nothing else. -/
structure RejectsUndefined (s : Rv) (k : BitVec 16) (r : Ret × Rv) : Prop where
  traps_iff : TrapsWith r trapInstIll ↔ meaning k = .undefined
  frame : meaning k = .undefined → r.2.regs = s.regs ∧ r.2.mem = s.mem ∧ r.2.csr.mepc = s.pc ∧
    r.2.csr.mtval = k.setWidth 32

/-- The undefined halfwords the decoder lets pass: C.SRLI and C.SRAI by 32 and more, and C.LUI of
zero to `x0`. -/
def Overlooked (k : BitVec 16) : Prop :=
  cOp k = 1#2 ∧ (longShift k ∨
    (cFunc3 k = 3#3 ∧ cRd k = 0#5 ∧ Riscv.Compressed.imm6 k = 0#6))

/-- The halfword stores to the exit register, outside memory. -/
def StoresToExit (cfg : Config) (s : Rv) (k : BitVec 16) : Prop :=
  ∃ op s1 s2 off, meaning k = .instr (.store op s1 s2 off) ∧
    s.readRegs cfg s1 + off.signExtend 32 = mmioExit ∧
    s.memOk mmioExit (BitVec.ofNat 32 op.size) = false

/-- `mtval` takes the halfword through a signed type. -/
theorem signExtend_eq_iff (k : BitVec 16) :
    k.signExtend 32 = k.setWidth 32 ↔ k.msb = false := by
  constructor
  · intro h
    have hb := congrArg BitVec.msb h
    simpa [BitVec.msb_signExtend, BitVec.msb_setWidth] using hb
  · exact BitVec.signExtend_eq_setWidth_of_msb_false

theorem special_of_overlooked (h : Overlooked k) : special k :=
  ⟨h.1, h.2.symm.imp (fun hz => ⟨Or.inr (Or.inr hz.1), hz.2.1⟩) id⟩

/-- A step whose halfword the decoder accepts as `i`. -/
theorem accepted_iff (hc : cfg.rv32c = true) (i : Instr) (hm : i.isM = false)
    (h : ∀ inst, compressedDecoder ((rv.settle cfg).fetchC host) inst = ⟨true, i.encode, false⟩) :
    TrapsWith (srv32Step cfg host rv) trapInstIll ↔
      ∃ op s1 s2 off, i = .store op s1 s2 off ∧
        (rv.settle cfg).readRegs cfg s1 + off.signExtend 32 = mmioExit ∧
        (rv.settle cfg).memOk mmioExit (BitVec.ofNat 32 op.size) = false := by
  obtain ⟨n, hn⟩ : ∃ n, srv32Step cfg host rv = _ := srv32Step_unpacked hc h
  rw [hn, illegal_iff i hm true]
  simp only [readRegs_unpacked, memOk_unpacked]

/-- A step at a halfword traps as illegal just when the halfword is undefined, and leaves the right
trap, if and only if the decoder does not overlook it, its top bit is clear where `mtval` receives
it, and it does not store to the exit register. -/
theorem rejects_undefined_iff (cfg : Config) (host : Host) (rv : Rv) (hc : cfg.rv32c = true)
    (hq : cOp ((rv.settle cfg).fetchC host) ≠ 3#2) :
    RejectsUndefined (rv.settle cfg) ((rv.settle cfg).fetchC host) (srv32Step cfg host rv) ↔
      (meaning ((rv.settle cfg).fetchC host) = .undefined →
        ¬ Overlooked ((rv.settle cfg).fetchC host) ∧
          ((rv.settle cfg).fetchC host).msb = false) ∧
      ¬ StoresToExit cfg (rv.settle cfg) ((rv.settle cfg).fetchC host) := by
  have hacc : ∀ i : Instr, _ → _ → (TrapsWith (srv32Step cfg host rv) trapInstIll ↔ _) :=
    accepted_iff hc
  have hrej : (∀ inst, compressedDecoder _ inst = ⟨true, 0#32, true⟩) →
      ∃ n, srv32Step cfg host rv = _ := srv32Step_rejected hc
  have hebr : (∀ inst, compressedDecoder _ inst = ⟨true, 0x00100073#32, false⟩) →
      ∃ n, srv32Step cfg host rv = _ := srv32Step_unpacked hc
  generalize (rv.settle cfg).fetchC host = k at *
  by_cases hs : special k
  · obtain ⟨h1, hx | hl⟩ := hs
    · have hnt : ¬ TrapsWith (srv32Step cfg host rv) trapInstIll := by
        rw [hacc _ rfl (compressedDecoder_x0 k h1 hx)]
        rintro ⟨op, s1, s2, off, he, -⟩
        cases he
      rcases meaning_x0 k h1 hx with ⟨h3, h6, hu⟩ | ⟨i, hi, -, -, ha, -⟩
      · refine iff_of_false (fun h => hnt (h.traps_iff.mpr hu)) fun h => ?_
        exact (h.1 hu).1 ⟨h1, Or.inr ⟨h3, hx.2, h6⟩⟩
      · have hne : meaning k ≠ .undefined := by
          rw [hi]
          exact fun h => by cases h
        refine iff_of_true ⟨iff_of_false hnt hne, fun h => absurd h hne⟩
          ⟨fun h => absurd h hne, ?_⟩
        rintro ⟨op, s1, s2, off, hst, -⟩
        rw [hi] at hst
        cases hst
        cases ha rv.machine
    · have hu := meaning_longShift k h1 hl
      refine iff_of_false (fun h => ?_) fun h => (h.1 hu).1 ⟨h1, Or.inl hl⟩
      obtain ⟨op, hdec⟩ := compressedDecoder_longShift k h1 hl
      have ht := h.traps_iff.mpr hu
      rw [hacc _ rfl hdec] at ht
      obtain ⟨_, _, _, _, he, -⟩ := ht
      cases he
  · have hno : ¬ Overlooked k := fun h => hs (special_of_overlooked h)
    have hdec := compressedDecoder_eq k hq hs
    cases hm : meaning k with
    | undefined =>
      rw [hm] at hdec
      obtain ⟨n, hn⟩ := hrej hdec
      rw [hn]
      have hnst : ¬ StoresToExit cfg (rv.settle cfg) k := by
        rintro ⟨op, s1, s2, off, hst, -⟩
        rw [hm] at hst
        cases hst
      constructor
      · intro h
        exact ⟨fun _ => ⟨hno, (signExtend_eq_iff k).mp (h.frame hm).2.2.2⟩, hnst⟩
      · rintro ⟨h, -⟩
        refine ⟨iff_of_true ⟨rfl, trap_mcause _ _⟩ hm, fun _ => ⟨?_, ?_, ?_, ?_⟩⟩
        · rw [trap_regs, regs_unpacked]
        · rw [trap_mem, mem_unpacked]
        · rw [trap_mepc, prevPc_unpacked]
        · rw [trap_mtval]
          exact (signExtend_eq_iff k).mpr (h rfl).2
    | ebreak =>
      rw [hm] at hdec
      obtain ⟨n, hn⟩ := hebr hdec
      rw [hn, execNext_ebreak]
      refine iff_of_true ⟨iff_of_false ?_ (by rw [hm]; simp), fun h => ?_⟩
        ⟨fun h => (by cases h), ?_⟩
      · exact fun h => absurd h.2 (by rw [trap_mcause]; decide)
      · rw [hm] at h
        cases h
      · rintro ⟨op, s1, s2, off, hst, -⟩
        rw [hm] at hst
        cases hst
    | instr i =>
      rw [hm] at hdec
      have ht := hacc i (meaning_notM k i hm) hdec
      have hne : meaning k ≠ .undefined := by
        rw [hm]
        exact fun h => by cases h
      have hst : StoresToExit cfg (rv.settle cfg) k ↔
          TrapsWith (srv32Step cfg host rv) trapInstIll := by
        rw [ht, StoresToExit, hm]
        simp only [Meaning.instr.injEq]
      constructor
      · intro h
        refine ⟨fun he => (by cases he), fun hx => ?_⟩
        exact hne (h.traps_iff.mp (hst.mp hx))
      · rintro ⟨-, h⟩
        exact ⟨iff_of_false (fun hx => h (hst.mpr hx)) hne, fun hu => absurd hu hne⟩

/-- From reset, three undefined halfwords: C.LUI of zero to `x0` and C.SRLI by 32 do not trap, and
`0x8000` traps with `mtval` sign-extended. A store to the exit register traps. -/
theorem rejects_undefined_fails :
    let cfg : Config := ⟨true, false, false, true⟩
    let rv (w : Word) := Rv.boot cfg 1 (image [w])
    (meaning 0x6001#16 = .undefined ∧
      (srv32Step cfg .none (rv 0x00006001#32)).1 = .code rvOkay) ∧
    (meaning 0x9001#16 = .undefined ∧
      (srv32Step cfg .none (rv 0x00009001#32)).1 = .code rvOkay) ∧
    (meaning 0x8000#16 = .undefined ∧
      (srv32Step cfg .none (rv 0x00008000#32)).2.csr.mtval = 0xffff8000#32) ∧
    ¬ ∀ cfg host rv, cfg.rv32c = true →
      (rv.settle cfg).memOk (rv.settle cfg).pc 2#32 = true →
      cOp ((rv.settle cfg).fetchC host) ≠ 3#2 →
      RejectsUndefined (rv.settle cfg) ((rv.settle cfg).fetchC host) (srv32Step cfg host rv) := by
  intro cfg rv
  refine ⟨⟨by decide, by decide⟩, ⟨by decide, by decide⟩, ⟨by decide, by decide⟩, fun h => ?_⟩
  have hk : ((rv 0x00006001#32).settle cfg).fetchC .none = 0x6001#16 := by decide
  have hx := h cfg .none (rv 0x00006001#32) rfl (by decide) (by rw [hk]; decide)
  rw [hk] at hx
  have ht := hx.traps_iff.mpr (by decide)
  exact absurd ht (by decide)

/-- The all-zero halfword, at reset: the trap is right. -/
theorem rejects_undefined_zero :
    let cfg : Config := ⟨true, false, false, true⟩
    let rv := Rv.boot cfg 1 (image [])
    RejectsUndefined (rv.settle cfg) 0#16 (srv32Step cfg .none rv) := by
  intro cfg rv
  have hk : (rv.settle cfg).fetchC .none = 0#16 := by decide
  have h := rejects_undefined_iff cfg .none rv rfl (by rw [hk]; decide)
  rw [hk] at h
  refine h.mpr ⟨fun _ => ⟨?_, by decide⟩, ?_⟩
  · exact fun ho => absurd ho.1 (by decide)
  · rintro ⟨op, s1, s2, off, hst, -⟩
    exact absurd hst (by rw [show meaning 0#16 = .undefined from by decide]; simp)

end Rv

end Srv32.Iss

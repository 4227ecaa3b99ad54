import Srv32.Rtl.ControlFlow

/-! Data-memory writes: which slots raise `dmem_wready`, and when that is never done for an
instruction that was flushed or raised an exception. -/

namespace Srv32.Rtl

namespace Slot

/-- A STORE that raises an exception the write enable does not look at: a reserved width, or an
instruction that is itself misaligned with data that is aligned. -/
def Hazard (x : Slot) : Prop :=
  x.flush = false ∧ opcode x.insn = opStore ∧
    (isStoreOp (func3 x.insn) = false ∨ (x.pc.toNat % 4 ≠ 0 ∧ x.stAlignExcp = false))

variable {p : Param} {x : Slot}

/-- A STORE raises the write enable unless its data is misaligned. -/
theorem memwr_eq (hl : Loaded p x) :
    x.memwr = (opcode x.insn == opStore && !x.stAlignExcp) := by
  simp [memwr, hl.unflushed, hl.decoded, decode]

theorem instAlignExcp_store (hl : Loaded p x) (ho : opcode x.insn = opStore) :
    x.instAlignExcp = decide (x.pc.toNat % 4 ≠ 0) := by
  have hn : x.nextPc = x.fetchPc + 4#32 := by
    simp [nextPc, hl.decoded, decode, ho]
  have h12 : (x.pc + 8#32 + 4#32).toNat % 4 = x.pc.toNat % 4 := by
    simp only [BitVec.toNat_add, BitVec.toNat_ofNat]
    omega
  rw [instAlignExcp, hl.unflushed, hn, hl.fetchPc, Bits.lowBits_or, h12]
  rfl

theorem instIllExcp_store (hl : Loaded p x) (ho : opcode x.insn = opStore) :
    x.instIllExcp = !isStoreOp (func3 x.insn) := by
  simp [instIllExcp, illBranch, illCsr, hl.unflushed, hl.decoded, decode, isLegal, ho]

theorem ldAlignExcp_store (hl : Loaded p x) (ho : opcode x.insn = opStore) :
    x.ldAlignExcp = false := by
  simp [ldAlignExcp, hl.mem2reg, ho]

/-- Misaligned data needs one of the two wide stores. -/
theorem stAlignExcp_of_illegal (hl : Loaded p x) (h : isStoreOp (func3 x.insn) = false) :
    x.stAlignExcp = false := by
  simp only [isStoreOp, Bool.or_eq_false_iff, beq_eq_false_iff_ne] at h
  simp [stAlignExcp, hl.decoded, decode, h.1.2, h.2]

/-- The hazards are exactly the slots that write to memory although they raise an exception. -/
theorem hazard_iff (hl : Loaded p x) : x.Hazard ↔ x.memwr = true ∧ x.excp = true := by
  rw [memwr_eq hl]
  by_cases ho : opcode x.insn = opStore
  · have hx : x.excp =
        (!isStoreOp (func3 x.insn) || decide (x.pc.toNat % 4 ≠ 0) || false || x.stAlignExcp) := by
      rw [excp, instIllExcp_store hl ho, instAlignExcp_store hl ho, ldAlignExcp_store hl ho]
    rw [hx]
    cases hs : isStoreOp (func3 x.insn) with
    | false => simp [Hazard, hl.unflushed, ho, hs, stAlignExcp_of_illegal hl hs]
    | true =>
      cases ha : x.stAlignExcp <;> simp [Hazard, hl.unflushed, ho, hs, ha]
  · simp [Hazard, ho]

end Slot

namespace State

variable {p : Param} {i : ℕ → Input} {m : Word} {k : ℕ}

/-- Before start-up there are only NOPs, and nothing is written. -/
theorem run_before (h : ReadyFrom k i) {t : ℕ} (ht : t < startup k) :
    (run p i m t).exInsn = nop ∧ (run p i m (t + 1)).dmemWready = false := by
  unfold startup at ht
  rcases (by omega : t + 1 ≤ k ∨ t = k ∨ t = k + 1 ∨ t = k + 2) with htk | rfl | rfl | rfl
  · rw [run_reset h (t := t) (by omega), run_reset h htk]
    exact ⟨rfl, rfl⟩
  · rw [run_reset h le_rfl, run_released h]
    exact ⟨rfl, rfl⟩
  · obtain ⟨-, -, hw, -⟩ :=
      idle_slot (i (k + 1)) { reset p m with stallR := false } rfl rfl rfl rfl rfl
    rw [run_released h]
    refine ⟨rfl, ?_⟩
    change ((run p i m (k + 1)).step p (i (k + 1))).wbMemwr = false
    rw [run_released h, step_ready (h.ready (by omega)) rfl]
    exact hw
  · refine ⟨?_, (run_startup h).wbMemwr⟩
    change ((run p i m (k + 1)).step p (i (k + 1))).exInsn = nop
    rw [run_released h, step_ready (h.ready (by omega)) rfl]
    rfl

/-- From then on the slot of each cycle decides whether the next one writes. -/
theorem run_wready (h : ReadyFrom k i) {t : ℕ} (ht : startup k ≤ t) :
    (run p i m (t + 1)).dmemWready = (slotAt p i m t).memwr := by
  rw [run, step_ready (h.ready (by unfold startup at ht; omega)) (run_flowing h ht).stallR]
  rfl

/-- The address, strobes and data on the write port. -/
def wport (s : State) : Word × BitVec 4 × Word := (s.wbWaddr, s.wbWstrb, s.wbWdata)

/-- A write carries the address and data of the slot before it. -/
theorem run_wport (h : ReadyFrom k i) {t : ℕ} (ht : startup k ≤ t)
    (hw : (slotAt p i m t).memwr = true) :
    (run p i m (t + 1)).wport =
      ((slotAt p i m t).memaddr, (slotAt p i m t).wstrb, (slotAt p i m t).wdata) := by
  have hm : (run p i m t).ex.memwr = true := by
    simp only [Slot.memwr, Bool.and_eq_true] at hw
    exact hw.1.1
  rw [run, step_ready (h.ready (by unfold startup at ht; omega)) (run_flowing h ht).stallR]
  simp only [wport, hm, if_true]
  rfl

variable (p i m) in
/-- Every write carries the address and data of an instruction that was not flushed and raised no
exception. -/
def Precise : Prop :=
  ∀ t, (run p i m t).dmemWready = true →
    ∃ u, t = u + 1 ∧ (slotAt p i m u).flush = false ∧ (slotAt p i m u).excp = false ∧
      (run p i m t).wport =
        ((slotAt p i m u).memaddr, (slotAt p i m u).wstrb, (slotAt p i m u).wdata)

/-- Every program and pattern of the interrupt inputs. -/
theorem precise_iff (p : Param) (m : Word) (k : ℕ) (i : ℕ → Input) (h : ReadyFrom k i) :
    Precise p i m ↔ ∀ t, ¬ (slotAt p i m t).Hazard := by
  have hslot : ∀ t, (slotAt p i m t).Hazard →
      startup k ≤ t ∧ (slotAt p i m t).memwr = true ∧ (slotAt p i m t).excp = true := by
    intro t hz
    by_cases ht : startup k ≤ t
    · have hl : (slotAt p i m t).Loaded p := (run_flowing h ht).loaded hz.1 (i t)
      exact ⟨ht, (Slot.hazard_iff hl).mp hz⟩
    · have hn : (slotAt p i m t).insn = nop := (run_before h (by omega)).1
      have hop : opcode nop ≠ opStore := by decide
      exact absurd hz.2.1 (by rw [hn]; exact hop)
  constructor
  · intro hp t hz
    obtain ⟨ht, hw, hx⟩ := hslot t hz
    obtain ⟨u, hu, -, hux, -⟩ := hp (t + 1) (by rw [run_wready h ht, hw])
    obtain rfl : t = u := by omega
    rw [hx] at hux
    exact absurd hux (by simp)
  · intro hz t hw
    cases t with
    | zero => exact absurd hw (by simp [run, reset, dmemWready])
    | succ u =>
      have hu : startup k ≤ u := by
        by_contra hc
        rw [(run_before h (by omega)).2] at hw
        exact absurd hw (by simp)
      rw [run_wready h hu] at hw
      have hf : (slotAt p i m u).flush = false := by
        cases hf : (slotAt p i m u).flush
        · rfl
        · simp [Slot.memwr_flush hf] at hw
      refine ⟨u, rfl, hf, ?_, run_wport h hu hw⟩
      have hl : (slotAt p i m u).Loaded p := (run_flowing h hu).loaded hf (i u)
      cases hx : (slotAt p i m u).excp
      · rfl
      · exact absurd ((Slot.hazard_iff hl).mpr ⟨hw, hx⟩) (hz u)

/-- The reserved store `.byte 0x23, 0x30, 0x5a, 0x5a` of the interrupt test writes a word. -/
theorem not_precise_reserved_store : ¬ Precise .rv32im (constantly 0x5a5a3023#32) 0#32 := by
  intro hp
  obtain ⟨u, hu, -, hx, -⟩ := hp 4 (by decide)
  obtain rfl : u = 3 := by omega
  exact absurd hx (by decide)

/-- `sw x0, 0(x0)` everywhere. -/
theorem precise_sw : Precise .rv32im (constantly 0x00002023#32) 0#32 := by
  have hr := readyFrom_constantly 0x00002023#32
  refine (precise_iff .rv32im 0#32 0 _ hr).mpr fun t hz => ?_
  have hop : opcode nop ≠ opStore := by decide
  have ht : startup 0 ≤ t := by
    by_contra ht
    have hn : (slotAt .rv32im (constantly 0x00002023#32) 0#32 t).insn = nop :=
      (run_before hr (Nat.lt_of_not_le ht)).1
    exact hop (hn ▸ hz.2.1)
  have hm : ∀ t, startup 0 ≤ t → (slotAt .rv32im (constantly 0x00002023#32) 0#32 t).isMret = true →
      (run .rv32im (constantly 0x00002023#32) 0#32 t).csr.mepc.toNat % 4 = 0 := by
    intro t ht hmret
    have hs : (run .rv32im (constantly 0x00002023#32) 0#32 t).ex.system = false := by
      rw [(run_constantly ht).2]
      decide
    simp [Slot.isMret, Slot.systemcall, slotAt, hs] at hmret
  have hi : (slotAt .rv32im (constantly 0x00002023#32) 0#32 t).insn = 0x00002023#32 :=
    (run_constantly ht).1
  rcases hz.2.2 with hw | ⟨hpc, -⟩
  · rw [hi] at hw
    exact absurd hw (by decide)
  · exact hpc (run_aligned hr hm ht).2.2

end State

end Srv32.Rtl

import Srv32.Rtl.Retire
import Srv32.Rtl.Trap

/-! Return from an interrupt. The handler runs with MIE clear, so the trap CSRs keep what the entry
has put into them until MRET, which goes on where the interrupt came in. -/

namespace Srv32.Rtl

namespace Slot

/-- The instruction stays in the handler: it takes no trap and writes none of the CSRs that MRET
and the handler rely on. -/
structure Handles (x : Slot) : Prop where
  excp : x.excp = false
  systemcall : x.systemcall = false
  csrs : x.ex.csrWr = true →
    x.ex.imm.extractLsb' 0 12 ∉ [csrMstatus, csrMepc, csrMcause, csrMtval]

/-- MIE is clear. -/
def Masked (x : Slot) : Prop := x.csr.mstatus.getLsbD bitMie = false

/-- What the entry leaves in `mstatus`. -/
def entered (mstatus : Word) : Word := setBit (setBit mstatus bitMpie true) bitMie false

variable {p : Param} {x : Slot}

theorem nextPc_of_not_taken (hi : x.illBranch = false) (hf : x.flush = false)
    (ht : x.branchTaken = false) : x.nextPc = x.fetchPc + 4#32 := by
  simp only [illBranch] at hi
  simp only [branchTaken, hf] at ht
  simp only [nextPc]
  cases hj : x.ex.jal <;> cases hr : x.ex.jalr <;> cases hb : x.ex.branch <;> simp_all
  cases hc : x.branchCond with
  | none => simp [hc] at hi
  | some c => cases c <;> simp_all

/-- An instruction without an exception that does not jump is aligned itself. -/
theorem pc_aligned_of_not_taken (hl : Loaded p x) (hx : x.excp = false)
    (ht : x.branchTaken = false) : x.pc.toNat % 4 = 0 := by
  have h := aligned_of_not_excp hl.unflushed hx
  rw [nextPc_of_not_taken (illBranch_of_not_excp hl.unflushed hx) hl.unflushed ht, hl.fetchPc] at h
  simp only [BitVec.toNat_add, BitVec.toNat_ofNat] at h
  omega

/-- The return address, whatever the alignment of the pc. -/
theorem retPc_of_interrupted (hl : Loaded p x) (hi : x.interrupted = true) :
    x.retPc = x.quiet.successor := by
  have hx := (of_interrupted hi).1
  cases ht : x.branchTaken with
  | false => exact retPc_eq hl (pc_aligned_of_not_taken hl hx ht) hi
  | true =>
    have ha := aligned_of_not_excp hl.unflushed hx
    have hk : (x.ex.jal || x.ex.jalr || (x.ex.branch && true)) = true := by
      simp only [branchTaken] at ht
      cases hj : x.ex.jal <;> cases hr : x.ex.jalr <;> cases hb : x.ex.branch <;> simp_all
    rw [quiet_successor hl hi, retPc, ht, hk, if_pos rfl, if_pos rfl, even, Bits.clearBit0_eq_and,
      Bits.clearBit0_of_even (by omega), nextPc_of_taken hx ht]

theorem not_interrupted_of_masked (h : x.Masked) : x.interrupted = false := by
  have hm : x.csr.mstatus.getLsbD bitMie = false := h
  simp only [interrupted, timerInt, swInt, extInt, irqGate, hm, Bool.and_false, Bool.false_and,
    Bool.or_false]

theorem mie_of_interrupted (hi : x.interrupted = true) :
    x.csr.mstatus.getLsbD bitMie = true := by
  by_contra hm
  have hmask : x.Masked := Bool.eq_false_iff.mpr hm
  rw [not_interrupted_of_masked hmask] at hi
  cases hi

/-- The trap CSRs have the same values. -/
structure Held (a b : Csr) : Prop where
  mstatus : b.mstatus = a.mstatus
  mepc : b.mepc = a.mepc
  mcause : b.mcause = a.mcause
  mtval : b.mtval = a.mtval

theorem held_csrFile (c : Csr) : Held c (x.csrFile c) := by
  unfold csrFile
  extract_lets n
  split
  · split_ifs <;> exact ⟨rfl, rfl, rfl, rfl⟩
  · exact ⟨rfl, rfl, rfl, rfl⟩

theorem Held.trans {a b c : Csr} (h : Held a b) (h' : Held b c) : Held a c :=
  ⟨h'.mstatus.trans h.mstatus, h'.mepc.trans h.mepc, h'.mcause.trans h.mcause,
    h'.mtval.trans h.mtval⟩

/-- An instruction of the handler leaves them. -/
theorem held_of_handles (h : x.Handles) (hf : x.flush = false) (hm : x.Masked) :
    Held x.csr x.csrNext := by
  have hi := not_interrupted_of_masked hm
  simp only [interrupted, h.excp, Bool.not_false, Bool.true_and, Bool.or_eq_false_iff] at hi
  obtain ⟨⟨h1, h2⟩, h3⟩ := hi
  have hx := h.excp
  simp only [excp, Bool.or_eq_false_iff] at hx
  obtain ⟨⟨⟨hill, hia⟩, hld⟩, hst⟩ := hx
  rw [csrNext, hf, if_neg (by simp)]
  refine Held.trans ?_ (held_csrFile _)
  rw [trapCsr, hill, if_neg (by simp)]
  cases hw : x.ex.csrWr with
  | false =>
    simp only [hia, hld, hst, h1, h2, h3, h.systemcall, Bool.false_eq_true, if_false]
    exact ⟨rfl, rfl, rfl, rfl⟩
  | true =>
    have hn := h.csrs hw
    simp only [List.mem_cons, List.not_mem_nil, or_false, not_or] at hn
    simp only [if_true, trapCsrWrite, hn, if_false]
    split_ifs <;> exact ⟨rfl, rfl, rfl, rfl⟩

theorem csrWr_of_not_system (hl : Loaded p x) (hs : x.ex.systemOp = false) :
    x.ex.csrWr = false := by
  have hop : (opcode x.insn == opSystem) = false := by simpa [hl.decoded, decode] using hs
  simp [hl.decoded, decode, hop]

theorem successor_of_interrupted (hl : Loaded p x) (hi : x.interrupted = true) :
    x.successor = x.vector := by
  have hs := (of_interrupted hi).2.1
  have hop : (opcode x.insn == opSystem) = false := by simpa [hl.decoded, decode] using hs
  have hsys : x.systemcall = false := by simp [systemcall, hl.decoded, decode, hop]
  simp [successor, isMret, hsys, hi]

theorem csrNext_of_interrupted (hl : Loaded p x) (hi : x.interrupted = true) :
    x.csrNext.mstatus = entered x.csr.mstatus ∧ x.csrNext.mepc = x.quiet.successor ∧
      x.csrNext.mcause = x.mcause ∧ x.csrNext.mtval = 0#32 := by
  obtain ⟨hx, hs, hint⟩ := of_interrupted hi
  have hw := csrWr_of_not_system hl hs
  have hmie := mie_of_interrupted hi
  have hret := (csrNext_mepc hl hi).trans (retPc_of_interrupted hl hi)
  simp only [excp, Bool.or_eq_false_iff] at hx
  obtain ⟨⟨⟨hill, halign⟩, hld⟩, hst⟩ := hx
  refine ⟨?_, hret, ?_, ?_⟩ <;>
    rw [csrNext, if_neg (by simp [hl.unflushed])] <;>
    simp only [csrFile, trapCsr, mcause, hill, hw, halign, hld, hst, Bool.false_eq_true, if_false]
  all_goals
    cases ht : x.timerInt with
    | true => simp only [enter, hmie, entered, if_true]
    | false =>
      cases hsw : x.swInt with
      | true => simp only [enter, hmie, entered, if_true, Bool.false_eq_true, if_false]
      | false =>
        have he : x.extInt = true := by simpa [ht, hsw] using hint
        simp only [he, enter, hmie, entered, if_true, Bool.false_eq_true, if_false]

theorem excp_of_mret (hl : Loaded p x) (hpc : x.pc.toNat % 4 = 0) (hr : x.isMret = true) :
    x.excp = false := by
  have hs : x.ex.system = true := by
    simp only [isMret, systemcall, Bool.and_eq_true] at hr
    exact hr.1.1
  rw [hl.decoded] at hs
  simp only [decode, Bool.and_eq_true, beq_iff_eq] at hs
  have ha := instAlignExcp_of_no_jump hl hpc (by simp [hl.decoded, decode, hs.1])
    (by simp [hl.decoded, decode, hs.1]) (by simp [hl.decoded, decode, hs.1])
  have hill : x.instIllExcp = false := by
    simp [instIllExcp, illBranch, illCsr, hl.decoded, decode, hs, isLegal]
  have hld : x.ldAlignExcp = false := by simp [ldAlignExcp, hl.mem2reg, hs.1]
  have hst : x.stAlignExcp = false := by simp [stAlignExcp, hl.decoded, decode, hs.1]
  simp only [excp, hill, ha, hld, hst, Bool.or_self]

/-- An instruction of the handler goes on at an aligned address. -/
theorem successor_aligned (h : x.Handles) (hf : x.flush = false) (hm : x.Masked)
    (hpc : x.pc.toNat % 4 = 0) : x.successor.toNat % 4 = 0 := by
  have hi := not_interrupted_of_masked hm
  have hx := h.excp
  have hs := h.systemcall
  rw [successor, isMret, isEnvCall, hs, hx, hi]
  simp only [Bool.false_and, Bool.or_self, Bool.false_eq_true, if_false]
  cases ht : x.branchTaken with
  | true =>
    rw [if_pos rfl, ← nextPc_of_taken hx ht]
    exact aligned_of_not_excp hf hx
  | false =>
    simp only [Bool.false_eq_true, if_false, BitVec.toNat_add, BitVec.toNat_ofNat]
    omega

theorem mstatus_of_mret (hl : Loaded p x) (hx : x.excp = false) (hm : x.Masked)
    (hr : x.isMret = true) :
    x.csrNext.mstatus = setBit x.csr.mstatus bitMie (x.csr.mstatus.getLsbD bitMpie) := by
  have hi := not_interrupted_of_masked hm
  simp only [interrupted, hx, Bool.not_false, Bool.true_and, Bool.or_eq_false_iff] at hi
  obtain ⟨⟨h1, h2⟩, h3⟩ := hi
  simp only [excp, Bool.or_eq_false_iff] at hx
  obtain ⟨⟨⟨hill, hia⟩, hld⟩, hst⟩ := hx
  simp only [isMret, Bool.and_eq_true, beq_iff_eq] at hr
  obtain ⟨hsys, hk⟩ := hr
  have hw : x.ex.csrWr = false := by
    have hs : x.ex.system = true := by
      simp only [systemcall, Bool.and_eq_true] at hsys
      exact hsys.1
    rw [hl.decoded] at hs ⊢
    simp only [decode, Bool.and_eq_true, beq_iff_eq] at hs
    simp [decode, hs.2]
  rw [csrNext, if_neg (by simp [hl.unflushed])]
  simp only [csrFile, trapCsr, hill, hw, hia, hld, hst, h1, h2, h3, hsys, envCsr, hk,
    Bool.false_eq_true, if_false, if_true]
  rfl

/-- MRET undoes the entry, MPIE apart. -/
theorem mstatus_return {m : Word} (h : m.getLsbD bitMie = true) :
    setBit (entered m) bitMie ((entered m).getLsbD bitMpie) = m ||| 1#32 <<< bitMpie := by
  have hp : (entered m).getLsbD bitMpie = true := by
    simp [entered, setBit]
  have hone : ∀ n < 32, (1#32 <<< bitMie).getLsbD n = decide (n = bitMie) := by decide
  rw [hp]
  apply BitVec.eq_of_getLsbD_eq
  intro n hn
  simp only [setBit, entered, if_true, Bool.false_eq_true, if_false, BitVec.getLsbD_or,
    BitVec.getLsbD_and, BitVec.getLsbD_not, hone n hn, hn, decide_true, Bool.true_and]
  by_cases h3 : n = bitMie
  · rw [h3, h]
    rfl
  · simp [h3]

end Slot

namespace State

variable {p : Param} {i : ℕ → Input} {m : Word} {k : ℕ}

variable (p i m k) in
def instr (n : ℕ) : Slot := slotAt p i m (exCycle p i m k n)

theorem instr_loaded (h : ReadyFrom k i) (n : ℕ) : (instr p i m k n).Loaded p :=
  have hs := exCycle_spec (p := p) (m := m) h n
  (run_flowing h hs.1).loaded hs.2 _

theorem instr_csr (h : ReadyFrom k i) (n : ℕ) :
    (instr p i m k (n + 1)).csr = (instr p i m k n).csrNext :=
  have hs := exCycle_spec (p := p) (m := m) h n
  (run_next h hs.1 hs.2).2.1

theorem instr_pc (h : ReadyFrom k i) (n : ℕ) :
    (instr p i m k (n + 1)).pc = (instr p i m k n).successor := by
  obtain ⟨hs, hf⟩ := exCycle_spec (p := p) (m := m) h n
  have hn : (instr p i m k (n + 1)).pc = _ := run_next_pc h hs hf
  rw [hn]
  change (if (instr p i m k n).redirects then (instr p i m k n).fetchNext
    else (instr p i m k n).pc + 4#32) = _
  cases hr : (instr p i m k n).redirects with
  | true => exact Slot.fetchNext_of_redirects hf hr
  | false => exact (Slot.successor_of_not_redirects hf hr).symm

/-- From the entry on, as long as the instructions stay in the handler. -/
theorem held_in_handler (h : ReadyFrom k i) {n : ℕ}
    (hi : (instr p i m k n).interrupted = true) {j : ℕ} (hj : n < j)
    (hh : ∀ l, n < l → l < j → (instr p i m k l).Handles) :
    (instr p i m k j).Masked ∧ (instr p i m k j).pc.toNat % 4 = 0 ∧
      Slot.Held (instr p i m k n).csrNext (instr p i m k j).csr := by
  induction j, hj using Nat.le_induction with
  | base =>
    rw [Slot.Masked, instr_csr h]
    refine ⟨?_, ?_, rfl, rfl, rfl, rfl⟩
    · rw [(Slot.csrNext_of_interrupted (instr_loaded h n) hi).1]
      simp [Slot.entered, setBit]
    · rw [instr_pc h, (instr p i m k n).successor_of_interrupted (instr_loaded h n) hi]
      exact Slot.vector_aligned _
  | succ j hj ih =>
    obtain ⟨hm, hpc, hheld⟩ := ih fun l hl hlj => hh l hl (by omega)
    have hf := (instr_loaded (p := p) (m := m) h j).unflushed
    have hstep := Slot.held_of_handles (hh j hj (by omega)) hf hm
    rw [Slot.Masked, instr_csr h, instr_pc h]
    refine ⟨?_, Slot.successor_aligned (hh j hj (by omega)) hf hm hpc, hheld.trans hstep⟩
    rw [hstep.mstatus]
    exact hm

/-- Whatever the interrupt inputs do, a handler that stays one is not interrupted itself, finds the
cause and the return address that the entry saved, and returns with its MRET to where the program
would have gone on, with interrupts enabled again. -/
theorem interrupt_return (p : Param) (i : ℕ → Input) (m : Word) (k : ℕ) (h : ReadyFrom k i)
    {n q : ℕ} (hnq : n < q) (hi : (instr p i m k n).interrupted = true)
    (hh : ∀ l, n < l → l < q → (instr p i m k l).Handles)
    (hr : (instr p i m k q).isMret = true) :
    (∀ l, n < l → l ≤ q → (instr p i m k l).interrupted = false ∧
      (instr p i m k l).csr.mepc = (instr p i m k n).quiet.successor ∧
      (instr p i m k l).csr.mcause = (instr p i m k n).mcause ∧
      (instr p i m k l).csr.mtval = 0#32) ∧
    (instr p i m k (n + 1)).pc = (instr p i m k n).vector ∧
    (instr p i m k (q + 1)).pc = (instr p i m k n).quiet.successor ∧
    (instr p i m k (q + 1)).csr.mstatus = (instr p i m k n).csr.mstatus ||| 1#32 <<< bitMpie := by
  have hin : ∀ l, n < l → l ≤ q → _ := fun l hl hlq =>
    held_in_handler h hi hl fun j hj hjl => hh j hj (by omega)
  obtain ⟨hms, hmepc, hcause, htval⟩ := Slot.csrNext_of_interrupted (instr_loaded h n) hi
  refine ⟨fun l hl hlq => ?_, ?_, ?_⟩
  · obtain ⟨hm, -, hheld⟩ := hin l hl hlq
    exact ⟨Slot.not_interrupted_of_masked hm, hheld.mepc.trans hmepc, hheld.mcause.trans hcause,
      hheld.mtval.trans htval⟩
  · rw [instr_pc h, Slot.successor_of_interrupted (instr_loaded h n) hi]
  · obtain ⟨hm, hpc, hheld⟩ := hin q hnq le_rfl
    have hl := instr_loaded (p := p) (m := m) h q
    refine ⟨?_, ?_⟩
    · rw [instr_pc h, Slot.successor, if_pos hr, hheld.mepc, hmepc]
    · rw [instr_csr h, Slot.mstatus_of_mret hl (Slot.excp_of_mret hl hpc hr) hm hr, hheld.mstatus,
        hms, Slot.mstatus_return (Slot.mie_of_interrupted hi)]

/-- `csrrwi x0,mie,8`, `csrrwi x0,mstatus,8` and NOPs, with `sw_irq` high; MRET comes in for the
second instruction of the handler. -/
def swIrqInput (t : ℕ) : Input :=
  let word : Word := if t = 2 then 0x30445073#32 else if t = 3 then 0x30045073#32
    else if t = 8 then 0x30200073#32 else nop
  ⟨false, false, true, false, true, word, true, true, true, 0#32⟩

theorem interrupt_return_nop :
    (instr .rv32im swIrqInput 0#32 0 5).pc = 12#32 ∧
      (instr .rv32im swIrqInput 0#32 0 5).csr.mstatus = 0x88#32 := by
  have h : ReadyFrom 0 swIrqInput := ⟨fun _ => rfl, fun _ => rfl, fun _ => rfl, fun _ => rfl,
    fun _ => rfl⟩
  obtain ⟨-, -, hpc, hms⟩ := interrupt_return (n := 2) (q := 4) .rv32im swIrqInput 0#32 0 h
    (by decide) (by decide +kernel)
    (fun l hl hlq => by
      obtain rfl : l = 3 := by omega
      exact ⟨by decide +kernel, by decide +kernel, by decide +kernel⟩)
    (by decide +kernel)
  rw [hpc, hms]
  exact ⟨by decide +kernel, by decide +kernel⟩

end State

end Srv32.Rtl

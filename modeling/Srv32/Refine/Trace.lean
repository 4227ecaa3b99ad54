import Srv32.Refine.Cycles
import Srv32.Iss.Trace
import Srv32.Rtl.Trace

/-! The two trace logs: the testbench's file against the simulator's. -/

namespace Srv32.Refine

open Iss (Rv Host atSwitch)
open Iss.Rv (width)
open Rtl (Slot Board Pins State Calm ReadyFrom Monitor startup ramSize calm_low)
open Rtl.State (slotAt exCycle)
open Trace (Effect LogEntry)

variable {k : Known} {x : Slot} {d : Rv} {inst : Word} {host : Host} {memsize : ℕ}

/-- The line of a CSR instruction shows the old value, so that it has to be known. -/
def Shown (k : Known) (inst : Word) : Prop :=
  opcode inst = opSystem → func3 inst ≠ opEcall → k.counters = true ∧ k.Knows (imm12 inst)

/-! The line of one instruction. -/

theorem effect_reg (h : Matched k x d inst) (hx : x.excp = false) (ho : opcode inst ≠ opLoad)
    (hw : Slot.writesRd inst = true) (v : Word) :
    x.effect .rv32im v = .reg (rd inst) (x.result .rv32im) := by
  have hm : x.mem2reg = false := by simp [h.mem2reg, ho]
  have ha : x.alu2reg = true := by rw [Slot.alu2reg_eq h.loaded hx, h.insn, hw]
  have ht : x.trapNop = false := by simp [Slot.trapNop, hx]
  have hd : x.ex.dstSel = rd inst := by simp [h.ex, Rtl.decode]
  simp [Slot.effect, hm, ha, ht, hd]

/-- An exception leaves a bare line. -/
theorem effect_excp (h : Matched k x d inst) (hx : x.excp = true)
    (ho : opcode inst = opLoad → x.ldAlignExcp = true)
    (hst : opcode inst = opStore → x.stAlignExcp = true) (v : Word) :
    x.effect .rv32im v = .quiet := by
  have hm : (x.mem2reg && !x.ldAlignExcp) = false := by
    rw [h.mem2reg]
    by_cases hl : opcode inst = opLoad
    · simp [ho hl]
    · simp [hl]
  have ht : x.trapNop = true := by simp [Slot.trapNop, hx, h.loaded.unflushed]
  have hw : x.memwr = false := by
    rw [Rtl.Slot.memwr_eq h.loaded, h.insn]
    by_cases hs : opcode inst = opStore
    · simp [hst hs]
    · simp [hs]
  simp [Slot.effect, hm, ht, hw]

theorem effect_plain (h : Matched k x d inst) (hx : x.excp = false) (ho : opcode inst ≠ opLoad)
    (hst : opcode inst ≠ opStore) (hw : Slot.writesRd inst = false) (v : Word) :
    x.effect .rv32im v = .quiet := by
  have hm : x.mem2reg = false := by simp [h.mem2reg, ho]
  have ha : x.alu2reg = false := by rw [Slot.alu2reg_eq h.loaded hx, h.insn, hw]
  have hmw : x.memwr = false := by rw [Rtl.Slot.memwr_eq h.loaded, h.insn]; simp [hst]
  simp [Slot.effect, hm, ha, hmw]

theorem storeMask_eq (op : BitVec 3) (v : Word) :
    v &&& Rv.storeMask op =
      if op = opSb then (v.extractLsb' 0 8).setWidth 32
      else if op = opSh then (v.extractLsb' 0 16).setWidth 32
      else v := by
  have hlow : ∀ n ≤ 32, v &&& BitVec.ofNat 32 (2 ^ n - 1) = (v.extractLsb' 0 n).setWidth 32 := by
    intro n hn
    apply BitVec.eq_of_toNat_eq
    have hlt := Nat.mod_lt v.toNat (Nat.two_pow_pos n)
    have hle := Nat.pow_le_pow_right (n := 2) (by omega) hn
    rw [Bits.toNat_and_lowMask v n hn, BitVec.toNat_setWidth, BitVec.extractLsb'_toNat,
      Nat.shiftRight_zero, Nat.mod_eq_of_lt (a := v.toNat % 2 ^ n) (by omega)]
  unfold Rv.storeMask
  by_cases h0 : op = opSb
  · rw [if_pos h0, if_pos h0]
    exact hlow 8 (by omega)
  by_cases h1 : op = opSh
  · rw [if_neg h0, if_pos h1, if_neg h0, if_pos h1]
    exact hlow 16 (by omega)
  · rw [if_neg h0, if_neg h1, if_neg h0, if_neg h1]
    exact BitVec.and_allOnes

theorem Supported.effect_load (hs : Supported memsize host d inst) (h : Matched k x d inst)
    (hm : Mapped memsize d) (ho : opcode inst = opLoad) (v : Word)
    (hv : x.ldAlignExcp = false → v = d.loadValue inst) :
    d.loadEffect inst host = x.effect .rv32im v := by
  have hst : opcode inst ≠ opStore := by rw [ho]; decide
  cases hld : x.ldAlignExcp with
  | true =>
    have hlen := (loadLen_of_ldAlign h hld).2
    rw [h.memaddr_load ho] at hlen
    have hmem : d.memrwLoad host (func3 inst) (d.loadAddr inst) = (trapLdAlign, 0#32) := by
      rw [Rv.memrwLoad, hlen]
    rw [effect_excp h (by simp [Slot.excp, hld]) (fun _ => hld) (fun hc => absurd hc hst),
      Rv.loadEffect, show d.regs (rs1 inst) + Iss.immI inst = d.loadAddr inst from rfl, hmem]
    simp
  | false =>
    have hl := hs.isLoadOp ho
    have ha := load_aligned h ho hl hld
    have hd : d.DataOk inst :=
      ⟨fun _ hop => ⟨ha, memOk_of_inDram hm (hs.load ho ha) (width_le _ (Or.inl hop))⟩,
        fun hc => absurd hc hst⟩
    have hmem : d.memrwLoad host (func3 inst) (d.loadAddr inst) = (0#32, d.loadValue inst) :=
      Rv.memrwLoad_of_dataOk hd ho hl
    have hds : x.ex.dstSel = rd inst := by simp [h.ex, Rtl.decode]
    rw [Rv.loadEffect, show d.regs (rs1 inst) + Iss.immI inst = d.loadAddr inst from rfl, hmem,
      Slot.effect, h.mem2reg, hld, hv hld, h.memaddr_load ho, hds]
    simp [ho]

theorem Supported.effect_store (hs : Supported memsize host d inst) (h : Matched k x d inst)
    (hm : Mapped memsize d) (ho : opcode inst = opStore) (v : Word) :
    d.storeEffect inst host = some (x.effect .rv32im v) := by
  have hld : opcode inst ≠ opLoad := by rw [ho]; decide
  cases hst : x.stAlignExcp with
  | true =>
    have hlen := (storeLen_of_stAlign h hst).2
    rw [h.memaddr_store ho] at hlen
    have hmem : (d.memrwStore host (func3 inst) (d.storeAddr inst) (d.regs (rs2 inst))).1 =
        .code trapStAlign := by
      rw [Rv.memrwStore, hlen]
    rw [effect_excp h (by simp [Slot.excp, hst]) (fun hc => absurd hc hld) (fun _ => hst),
      Rv.storeEffect, show d.regs (rs1 inst) + Iss.immS inst = d.storeAddr inst from rfl, hmem]
    simp
  | false =>
    have hl := hs.isStoreOp ho
    have ha := store_aligned h ho hl hst
    have hd : d.DataOk inst :=
      ⟨fun hc => absurd hc hld,
        fun _ hop => ⟨ha, memOk_of_inDram hm (hs.store ho ha) (width_le _ (Or.inr hop))⟩⟩
    have hmem : (d.memrwStore host (func3 inst) (d.storeAddr inst) (d.regs (rs2 inst))).1 =
        .code 0#32 := by
      rw [Rv.memrwStore_of_dataOk hd ho hl]
    have hm2 : x.mem2reg = false := by simp [h.mem2reg, hld]
    have hal : x.alu2reg = false := by
      simp [Slot.alu2reg, hm2, h.ex, Rtl.decode, ho]
    have hmw : x.memwr = true := by
      rw [Rtl.Slot.memwr_eq h.loaded, h.insn, hst]
      simp [ho]
    have hop : x.ex.aluOp = func3 inst := by simp [h.ex, Rtl.decode]
    have hv2 : x.aluOp2 = d.regs (rs2 inst) := by
      simp [Slot.aluOp2, h.ex, Rtl.decode, ho, h.src2]
    rw [Rv.storeEffect, show d.regs (rs1 inst) + Iss.immS inst = d.storeAddr inst from rfl, hmem,
      storeMask_eq, Slot.effect, hm2, hal, hmw, hop, hv2, h.memaddr_store ho]
    simp only [Rtl.isStoreOp, Bool.or_eq_true, beq_iff_eq] at hl
    rcases hl with (hf | hf) | hf <;> rw [hf] <;> rfl

theorem Supported.effect_jump (hs : Supported memsize host d inst) (h : Matched k x d inst)
    (ho : opcode inst = opJal ∨ opcode inst = opJalr) {t : Word} (ht : x.target = t &&& ~~~1#32)
    (v : Word) : d.jumpEffect inst t = x.effect .rv32im v := by
  have hne : opcode inst ≠ opLoad ∧ opcode inst ≠ opStore := by
    rcases ho with ho | ho <;> rw [ho] <;> decide
  have hb : x.branchTaken = true := by
    rcases ho with ho | ho <;> simp [Slot.branchTaken, h.ex, Rtl.decode, ho, h.loaded.unflushed]
  rw [Rv.jumpEffect, ← ht]
  cases ha : x.instAlignExcp with
  | true =>
    obtain ⟨-, -, hmis, -⟩ : d.execNext .rv32im inst host false = _ ∧ _ :=
      execNext_instAlign h (hs.instIllExcp h) ha
    rw [if_pos (by rwa [ne_eq, Bits.and_three_eq_zero]), effect_excp h (by simp [Slot.excp, ha])
      (fun hc => absurd hc hne.1) fun hc => absurd hc hne.2]
  | false =>
    have hx := excp_of (hs.instIllExcp h) ha (ldAlignExcp_of_ne h hne.1)
      (stAlignExcp_of_ne h hne.2)
    have hw : Slot.writesRd inst = true := by
      rcases ho with ho | ho <;> simp [Slot.writesRd, ho]
    rw [if_neg (by rw [not_not, Bits.and_three_eq_zero]; exact target_aligned h hx hb),
      effect_reg h hx hne.1 hw, h.result_jump ho]

theorem Supported.effect_csr (hs : Supported memsize host d inst) (h : Matched k x d inst)
    (ho : opcode inst = opSystem) (h0 : func3 inst ≠ opEcall) (hk : Shown k inst) (v : Word) :
    d.csrEffect inst = x.effect .rv32im v := by
  obtain ⟨hkc, hkn⟩ := hk ho h0
  obtain ⟨hl1, -, hl3⟩ := legal_iff.mp hs.legal
  have hn : imm12 inst ∈ Slot.csrNumbers := by simpa [Slot.illegalWord, ho, h0] using hl1
  have h4 : func3 inst ≠ 4#3 := by
    intro h4
    simp [onlyRtl, ho, h4, hn] at hl3
  obtain ⟨hx, -, -, -, hres, hread, -⟩ :=
    csrStep h.loaded h.aligned_pc (by rw [h.insn]; exact ho) (by rw [h.insn]; exact h0)
      (by rw [h.insn]; exact hn)
  rw [h.insn, h.cycle hkc, h.instret hkc, Matched.read_eq h.csr hn hkn] at hread
  have hw : Slot.writesRd inst = true := by simp [Slot.writesRd, ho, h0]
  rw [effect_reg h hx (by rw [ho]; decide) hw, hres, hread, Rv.csrEffect]
  have hsome : d.csrOperand .rv32im inst ≠ none := by
    rw [ne_eq, Iss.Rv.csrOperand_eq_none]
    exact not_or.mpr ⟨h0, h4⟩
  obtain ⟨⟨mode, val, update⟩, hop⟩ := Option.ne_none_iff_exists'.mp hsome
  rw [hop]
  simp only [Iss.Csr.rw_eq _ mode val update hn]
  rfl

theorem Supported.effect (hs : Supported memsize host d inst) (h : Matched k x d inst)
    (hm : Mapped memsize d) (hk : Shown k inst) (v : Word)
    (hv : opcode inst = opLoad → x.ldAlignExcp = false → v = d.loadValue inst) :
    d.effect inst host = some (x.effect .rv32im v) := by
  have hpc : d.pc &&& ~~~1#32 = d.pc := Bits.clearBit0_of_even (by have := h.aligned; omega)
  have hres := hs.reserved
  have hx : ∀ {o : BitVec 7}, opcode inst = o → o ≠ opJal → o ≠ opJalr → o ≠ opBranch →
      o ≠ opLoad → o ≠ opStore → x.excp = false := by
    rintro o rfl h3 h4 h5 h6 h7
    exact excp_of (hs.instIllExcp h) (instAlignExcp_of_ne h h3 h4 h5) (ldAlignExcp_of_ne h h6)
      (stAlignExcp_of_ne h h7)
  unfold Rv.effect
  by_cases h1 : opcode inst = opAuipc
  · have hr : x.result .rv32im = d.pc + Iss.immU inst := by
      simp [Slot.result, h.ex, Rtl.decode, Rtl.immOf, h1, h.pc, Iss.immU_eq]
    rw [if_pos h1, effect_reg h (hx h1 (by decide) (by decide) (by decide) (by decide) (by decide))
      (by rw [h1]; decide) (by simp [Slot.writesRd, h1]), hr]
  by_cases h2 : opcode inst = opLui
  · have hr : x.result .rv32im = Iss.immU inst := by
      simp [Slot.result, h.ex, Rtl.decode, Rtl.immOf, h2, Iss.immU_eq]
    rw [if_neg h1, if_pos h2, effect_reg h
      (hx h2 (by decide) (by decide) (by decide) (by decide) (by decide))
      (by rw [h2]; decide) (by simp [Slot.writesRd, h2]), hr]
  by_cases h3 : opcode inst = opJal
  · rw [if_neg h1, if_neg h2, if_pos h3, hs.effect_jump h (Or.inl h3) (h.target_jal h3) v]
  by_cases h4 : opcode inst = opJalr
  · have hself : d.regs (rs1 inst) + Iss.immI inst ≠ d.pc := by
      intro he
      exact hs.notSelf (Or.inr ⟨h4, by rw [he, hpc]⟩)
    rw [if_neg h1, if_neg h2, if_neg h3, if_pos h4, if_neg hself,
      hs.effect_jump h (Or.inr h4) (h.target_jalr h4) v]
  by_cases h6 : opcode inst = opLoad
  · rw [if_neg h1, if_neg h2, if_neg h3, if_neg h4, if_pos h6,
      hs.effect_load h hm h6 v (hv h6)]
  by_cases h7 : opcode inst = opStore
  · rw [if_neg h1, if_neg h2, if_neg h3, if_neg h4, if_neg h6, if_pos h7, hs.effect_store h hm h7 v]
  rw [if_neg h1, if_neg h2, if_neg h3, if_neg h4, if_neg h6, if_neg h7]
  by_cases h8 : opcode inst = opArithI
  · rw [if_pos h8, h.result_arithI h8 hres, effect_reg h
      (hx h8 (by decide) (by decide) (by decide) (by decide) (by decide)) h6
      (by simp [Slot.writesRd, h8])]
    rfl
  by_cases h9 : opcode inst = opArithR
  · have hleg : Rtl.isLegal .rv32im inst = true := by
      have := (legal_iff.mp hs.legal).1
      simp only [Slot.illegalWord, h9] at this
      simp only [Rtl.isLegal, h9, Rtl.isAluFn]
      by_cases hf0 : func7 inst = 0#7 <;> by_cases hf2 : func7 inst = 0x20#7 <;> simp_all
    rw [if_neg h8, if_pos h9, h.result_arithR h9 hleg hres, effect_reg h
      (hx h9 (by decide) (by decide) (by decide) (by decide) (by decide)) h6
      (by simp [Slot.writesRd, h9])]
    rfl
  rw [if_neg h8, if_neg h9]
  by_cases hsys : opcode inst = opSystem ∧ func3 inst ≠ opEcall
  · rw [if_pos hsys, hs.effect_csr h hsys.1 hsys.2 hk v]
  -- a branch, FENCE or an environment instruction: a bare line
  rw [if_neg hsys]
  have hw : Slot.writesRd inst = false := by
    rw [not_and, not_not] at hsys
    by_cases ho : opcode inst = opSystem
    · simp [Slot.writesRd, ho, hsys ho]
    · simp [Slot.writesRd, ho, h1, h2, h3, h4, h6, h8, h9]
  cases he : x.excp with
  | true => rw [effect_excp h he (fun hc => absurd hc h6) fun hc => absurd hc h7]
  | false => rw [effect_plain h he h6 h7 hw]

/-- A supported instruction writes its line and no more. -/
theorem Supported.logsLine (hs : Supported memsize host d inst) (h : Matched k x d inst)
    (hm : Mapped memsize d) : d.LogsLine inst host := by
  have hpc : d.pc &&& ~~~1#32 = d.pc := Bits.clearBit0_of_even (by have := h.aligned; omega)
  refine ⟨fun ho hz => hs.notSelf (Or.inl ⟨ho, by rw [hz, BitVec.add_zero, hpc]⟩), fun ho => ?_⟩
  have hld : opcode inst ≠ opLoad := by rw [ho]; decide
  cases hst : x.stAlignExcp with
  | true =>
    have hlen := (storeLen_of_stAlign h hst).2
    rw [h.memaddr_store ho] at hlen
    constructor
    · rw [Rv.logMemrw, show d.regs (rs1 inst) + Iss.immS inst = d.storeAddr inst from rfl, hlen]
    · exact ⟨trapStAlign, by
        rw [show d.regs (rs1 inst) + Iss.immS inst = d.storeAddr inst from rfl, Rv.memrwStore, hlen]⟩
  | false =>
    have hl := hs.isStoreOp ho
    have ha := store_aligned h ho hl hst
    have hok : d.memOk (d.storeAddr inst) (width (func3 inst)) = true :=
      memOk_of_inDram hm (hs.store ho ha) (width_le _ (Or.inr hl))
    have hd : d.DataOk inst := ⟨fun hc => absurd hc hld, fun _ _ => ⟨ha, hok⟩⟩
    constructor
    · rw [Rv.logMemrw, show d.regs (rs1 inst) + Iss.immS inst = d.storeAddr inst from rfl,
        Rv.storeLen_of_aligned hl ha]
      simp only [hok, if_true]
    · exact ⟨0#32, by
        rw [show d.regs (rs1 inst) + Iss.immS inst = d.storeAddr inst from rfl,
          Rv.memrwStore_of_dataOk hd ho hl]⟩

/-! What is known on the way. -/

variable {pins : ℕ → Pins} {rv : Rv} {hosts : ℕ → Host}

theorem readsCsr_onCsr {n : BitVec 12} (h : onCsr inst n = false) : readsCsr inst n = false := by
  simp [readsCsr, h]

theorem Shown.of_onCsr (hc : k.counters = true)
    (hs : onCsr inst csrMscratch = true → k.mscratch = true)
    (he : onCsr inst csrMepc = true → k.mepc = true)
    (hv : onCsr inst csrMtval = true → k.mtval = true) : Shown k inst := by
  intro ho h0
  have hon : ∀ n, imm12 inst = n → onCsr inst n = true := fun n hn => by simp [onCsr, ho, h0, hn]
  exact ⟨hc, fun hn => hs (hon _ hn), fun hn => he (hon _ hn), fun hn => hv (hon _ hn)⟩

theorem Shown.readable (h : Shown k inst) (hc : k.counters = true)
    (hm : isMretWord inst = true → k.mepc = true) : Readable k inst := by
  have hk : ∀ n, readsCsr inst n = true → k.Knows n := by
    intro n hn
    have hon : onCsr inst n = true := by
      by_contra hf
      rw [readsCsr_onCsr (by simpa using hf)] at hn
      cases hn
    simp only [onCsr, Bool.and_eq_true, beq_iff_eq, bne_iff_ne] at hon
    rw [← hon.2]
    exact (h hon.1.1 hon.1.2).2
  exact ⟨fun _ => hc, fun hr => (hk _ hr).1 rfl, fun hr => hr.elim (fun hr => (hk _ hr).2.1 rfl) hm,
    fun hr => (hk _ hr).2.2 rfl⟩

/-- `mepc` and `mtval` do not depend on what is known of the others. -/
theorem known_trapRegs {k' : Known} (he : k.mepc = k'.mepc) (hv : k.mtval = k'.mtval) (n : ℕ) :
    (known hosts rv k n).mepc = (known hosts rv k' n).mepc ∧
      (known hosts rv k n).mtval = (known hosts rv k' n).mtval := by
  induction n with
  | zero => exact ⟨he, hv⟩
  | succ n ih => simp only [known, Known.after, ih, and_self]

theorem known_mscratch_start (h : k.mscratch = true) (n : ℕ) :
    (known hosts rv k n).mscratch = true := by
  induction n with
  | zero => exact h
  | succ n ih => simp only [known, Known.after, ih, Bool.true_or]

/-- All is known at reset, `csr_mscratch` if it powers up as 0. -/
def Known.powered (m : Word) : Known := ⟨true, decide (m = 0#32), true, true⟩

theorem shown_of_run {m : Word} {n : ℕ}
    (hscr : m = 0#32 ∨ onCsr (atSwitch .rv32im hosts rv n).2 csrMscratch = false)
    (hret : ∀ i < n, isMretWord (atSwitch .rv32im hosts rv i).2 = true →
      (∀ l, i < l → l < n → traps (Iss.result .rv32im hosts rv l) = false) →
      onCsr (atSwitch .rv32im hosts rv n).2 csrMepc = false ∧
      isMretWord (atSwitch .rv32im hosts rv n).2 = false ∧
      onCsr (atSwitch .rv32im hosts rv n).2 csrMtval = false) :
    Shown (known hosts rv (.powered m) n) (atSwitch .rv32im hosts rv n).2 ∧
      Readable (known hosts rv (.powered m) n) (atSwitch .rv32im hosts rv n).2 := by
  obtain ⟨he, hv⟩ : (known hosts rv (.powered m) n).mepc =
        (known hosts rv (.atReset true) n).mepc ∧
      (known hosts rv (.powered m) n).mtval = (known hosts rv (.atReset true) n).mtval :=
    known_trapRegs (by rfl) (by rfl) n
  have hc : (known hosts rv (.powered m) n).counters = true := known_counters n
  have hmepc : (known hosts rv (.powered m) n).mepc = false →
      onCsr (atSwitch .rv32im hosts rv n).2 csrMepc = false ∧
      isMretWord (atSwitch .rv32im hosts rv n).2 = false ∧
      onCsr (atSwitch .rv32im hosts rv n).2 csrMtval = false := by
    intro hk
    rw [he] at hk
    obtain ⟨i, hi, hm, hq⟩ := known_mepc hk
    exact hret i hi hm hq
  have hshown : Shown (known hosts rv (.powered m) n) (atSwitch .rv32im hosts rv n).2 := by
    refine .of_onCsr hc (fun hon => ?_) (fun hon => ?_) fun hon => ?_
    · rcases hscr with hm | hf
      · exact known_mscratch_start (by simpa [Known.powered] using hm) n
      · rw [hf] at hon
        cases hon
    · by_contra hk
      rw [(hmepc (by simpa using hk)).1] at hon
      cases hon
    · by_contra hk
      rw [Bool.not_eq_true, hv, known_mtval, ← he] at hk
      rw [(hmepc hk).2.2] at hon
      cases hon
  refine ⟨hshown, hshown.readable hc fun hm => ?_⟩
  by_contra hk
  rw [(hmepc (by simpa using hk)).2.1] at hm
  cases hm

/-! Whole runs. -/

section

variable {b : Board} {m : Word} {s t : ℕ}

/-- The testbench's line of a slot, with the counter as the core has it. -/
theorem Sim.entryAt (h : Sim memsize pins b m k t d inst) (hb : b.core = .reset .rv32im m)
    (hc : Calm s pins) (ht : startup s ≤ t) (hs : Supported memsize host d inst)
    (hk : Shown k inst) (hkc : k.counters = true) : ∃ e, d.effect inst host = some e ∧
      State.entryAt .rv32im (b.inputs .rv32im memsize pins) m t =
        ⟨(d.csr.cycle.extractLsb' 0 32).toNat, d.pc, inst, e⟩ := by
  have hrf : ReadyFrom s (b.inputs .rv32im memsize pins) := Board.readyFrom hc
  have hin : (State.run .rv32im (b.inputs .rv32im memsize pins) m t).exInsn = inst := h.matched.insn
  have hpc : (State.run .rv32im (b.inputs .rv32im memsize pins) m t).exPc = d.pc := h.matched.pc
  have hcy : (State.run .rv32im (b.inputs .rv32im memsize pins) m (t + 1)).cycle = d.csr.cycle := by
    have h0 : (State.run .rv32im (b.inputs .rv32im memsize pins) m t).cycle = _ :=
      h.matched.cycle hkc
    rw [State.run_cycle hrf ht, h0]
    exact BitVec.sub_add_cancel _ _
  refine ⟨_, hs.effect h.matched h.mapped hk _ fun ho hal => ?_, by rw [State.entryAt, hin, hpc, hcy]⟩
  -- the memory answers the load with what the simulator reads
  have hl : (b.run .rv32im memsize pins t).core.exMem2reg = true := by
    have hmr : (State.run .rv32im (b.inputs .rv32im memsize pins) m t).exMem2reg =
        (opcode inst == opLoad) := h.matched.mem2reg
    rw [Board.core_run hb, hmr]
    simp [ho]
  have hop : (State.run .rv32im (b.inputs .rv32im memsize pins) m t).ex.aluOp = func3 inst := by
    have := h.matched.ex
    change (State.run .rv32im (b.inputs .rv32im memsize pins) m t).ex = _ at this
    rw [this]
    rfl
  rw [hop, Board.dmem_rdata hb t hl, h.matched.memaddr_load ho]
  exact (h.load hs ho hal).symm

/-- `%10d` shows the low half of the counter as the core's unsigned value until bit 31 is set. -/
theorem toNat_eq_toInt_iff (c : BitVec 64) :
    ((c.extractLsb' 0 32).toNat : ℤ) = (Iss.Counter.lo c).toInt ↔ c.getLsbD 31 = false := by
  have hmsb : (c.extractLsb' 0 32).msb = c.getLsbD 31 := by
    rw [BitVec.msb_eq_getLsbD_last]
    simp
  rw [Iss.Counter.lo, BitVec.toInt_eq_msb_cond, hmsb]
  cases c.getLsbD 31 with
  | false => simp
  | true =>
    simp
    omega

end

/-- The simulator's `n`-th line, if the instruction shows `e`. -/
def issEntry (hosts : ℕ → Host) (rv : Rv) (e : Effect) (n : ℕ) : LogEntry where
  time := (atSwitch .rv32im hosts rv n).1.csr.cycle.lo.toInt
  pc := (atSwitch .rv32im hosts rv n).1.pc
  insn := (atSwitch .rv32im hosts rv n).2
  effect := e

theorem entries_of_effect {e : ℕ → Effect} {n : ℕ} (he : ∀ j < n,
    (atSwitch .rv32im hosts rv j).1.effect (atSwitch .rv32im hosts rv j).2 (hosts j) = some (e j)) :
    Iss.entries hosts rv n = (List.range n).map fun j => issEntry hosts rv (e j) j := by
  rw [Iss.entries, List.map_eq_flatMap]
  refine List.flatMap_congr fun j hj => ?_
  rw [Rv.entry, he j (List.mem_range.mp hj)]
  rfl

end Srv32.Refine

import Srv32.Refine.CsrInst

/-! Traps: the state each model is in after an exception, an environment instruction or an
accepted interrupt. -/

namespace Srv32.Refine

open Iss (Rv Host srv32Step rvOkay rvExit rvTrap)
open Rtl (Slot)

/-- The registers an instruction that does not trap leaves alone, other than CSR instructions. -/
structure Kept (d e : Rv) : Prop where
  prevPc : e.prevPc = d.prevPc
  latch : e.latch = d.latch
  csr : csrView e.csr = csrView d.csr
  memBase : e.memBase = d.memBase
  memSize : e.memSize = d.memSize

variable {k : Known} {x : Slot} {d : Rv} {inst : Word} {host : Host}

theorem Kept.of_stored {e : Rv} (h : d.Stored e) : Kept d e := by
  obtain ⟨_, _, _, _, _, _, _, rfl⟩ := h
  exact ⟨rfl, rfl, rfl, rfl, rfl⟩

/-- The pc after an instruction that raises no exception. -/
def nextOf (x : Slot) : Word := if x.branchTaken then x.target else x.pc + 4#32

theorem Matched.illegalWord (h : Matched k x d inst) (hx : x.excp = false) :
    Slot.illegalWord inst = false := by
  simp only [Slot.excp, Bool.or_eq_false_iff] at hx
  rw [← h.insn, ← Slot.instIllExcp_eq h.loaded]
  exact hx.1.1.1

theorem Matched.branchCond_ne_none (h : Matched k x d inst) (hx : x.excp = false)
    (ho : opcode inst = opBranch) : x.branchCond ≠ none := by
  intro hn
  have hb := Slot.branchCond_isNone h.loaded
  have hi := h.illegalWord hx
  rw [hn, h.insn] at hb
  rw [Slot.illegalWord, if_pos ho, ← hb] at hi
  simp at hi

/-- An arm that goes on to the next word with the CSRs as they were, or does not return
`RV_OKAY`. -/
def Falls (d : Rv) : Iss.Flow → Prop
  | .brk e => e.pc = d.pc ∧ Kept d e
  | .ret r _ => r ≠ .code rvOkay

theorem falls_trapRet (e : Rv) (cause val : Word) : Falls d (e.trapRet cause val) := by
  simp [Falls, Rv.trapRet]

theorem falls_ramCycle {e : Rv} (hp : e.pc = d.pc) (h : Kept d e) :
    Falls d (.brk e.ramCycle) := by
  unfold Rv.ramCycle
  split
  · exact ⟨hp, h.prevPc, h.latch, h.csr, h.memBase, h.memSize⟩
  · exact ⟨hp, h⟩

theorem falls_writeRd (v : Option Word) : Falls d (d.writeRd .rv32im inst v) := by
  cases v with
  | none => exact falls_trapRet _ _ _
  | some v =>
    simp only [Rv.writeRd, Rv.writeRegs_rv32im]
    exact ⟨rfl, rfl, rfl, rfl, rfl, rfl⟩

theorem falls_load : Falls d (d.execLoad .rv32im inst host) := by
  have hram : Falls d (.brk d.ramCycle) := falls_ramCycle rfl ⟨rfl, rfl, rfl, rfl, rfl⟩
  simp only [Rv.execLoad, Rv.writeRegs_rv32im]
  split_ifs
  · exact falls_trapRet _ _ _
  · exact falls_trapRet _ _ _
  · exact falls_trapRet _ _ _
  · exact ⟨hram.1, hram.2.prevPc, hram.2.latch, hram.2.csr, hram.2.memBase, hram.2.memSize⟩

theorem falls_store : Falls d (d.execStore .rv32im inst host) := by
  simp only [Rv.execStore]
  have hs : d.Stored (d.memrwStore host (func3 inst) (d.readRegs .rv32im (rs1 inst) +
      Iss.immS inst) (d.readRegs .rv32im (rs2 inst))).2 := Rv.stored_memrwStore (func3 inst)
    (d.readRegs .rv32im (rs1 inst) + Iss.immS inst) (d.readRegs .rv32im (rs2 inst))
  generalize d.memrwStore host (func3 inst) (d.readRegs .rv32im (rs1 inst) + Iss.immS inst)
    (d.readRegs .rv32im (rs2 inst)) = p at hs ⊢
  obtain ⟨r, e⟩ := p
  have hs' : Kept d e := .of_stored hs
  have hpc : e.pc = d.pc := by
    obtain ⟨_, _, _, _, _, _, _, rfl⟩ := hs
    rfl
  cases r with
  | code c =>
    simp only
    split_ifs
    · exact falls_trapRet _ _ _
    · exact falls_trapRet _ _ _
    · exact falls_trapRet _ _ _
    · exact falls_ramCycle hpc hs'
  | exit c => simp [Falls]
  | segv => simp [Falls]

/-- The arms that neither jump nor enter SYSTEM. -/
theorem falls_exec (h3 : opcode inst ≠ opJal) (h4 : opcode inst ≠ opJalr)
    (h5 : opcode inst ≠ opBranch) (hs : opcode inst ≠ opSystem) :
    Falls d (d.exec .rv32im inst host false) := by
  simp only [Rv.exec, h3, h4, h5, hs, if_false]
  split_ifs
  · exact falls_writeRd (some _)
  · exact falls_writeRd (some _)
  · exact falls_load
  · exact falls_store
  · exact falls_writeRd _
  · exact falls_writeRd _
  · exact ⟨rfl, rfl, rfl, rfl, rfl, rfl⟩
  · exact falls_trapRet _ _ _

/-- An instruction the simulator completes goes where the core goes and changes no CSR. -/
theorem Matched.completes (h : Matched k x d inst) (hx : x.excp = false)
    (hs : opcode inst ≠ opSystem)
    (hret : (d.execNext .rv32im inst host false).1 = .code rvOkay) :
    (d.execNext .rv32im inst host false).2.pc = nextOf x ∧
      Kept d (d.execNext .rv32im inst host false).2 := by
  have hal := Slot.aligned_of_not_excp h.loaded.unflushed hx
  have htaken : x.branchTaken = true → x.target.toNat % 4 = 0 := fun ht => by
    rw [← Slot.nextPc_of_taken hx ht]
    exact hal
  by_cases h3 : opcode inst = opJal ∨ opcode inst = opJalr
  · have hb : x.branchTaken = true := by
      rcases h3 with ho | ho <;>
        simp [Slot.branchTaken, h.ex, Rtl.decode, ho, h.loaded.unflushed]
    obtain ⟨t, ht, he | ⟨-, e, he⟩⟩ := h.exec_jump host h3
    · rw [Rv.execNext, he, h.jump_aligned h3 ht (htaken hb)]
      exact ⟨rfl, rfl, rfl, rfl, rfl, rfl⟩
    · rw [Rv.execNext, he] at hret
      simp at hret
  by_cases h5 : opcode inst = opBranch
  · rw [h.execNext_branch host h5 (h.branchCond_ne_none hx h5) htaken]
    exact ⟨rfl, rfl, rfl, rfl, rfl, rfl⟩
  have h31 : opcode inst ≠ opJal := fun ho => h3 (Or.inl ho)
  have h32 : opcode inst ≠ opJalr := fun ho => h3 (Or.inr ho)
  have hnext : nextOf x = d.pc + 4#32 := by
    simp [nextOf, Slot.branchTaken, h.ex, Rtl.decode, h31, h32, h5, h.pc]
  have hf : Falls d (d.exec .rv32im inst host false) := falls_exec h31 h32 h5 hs
  unfold Rv.execNext at hret ⊢
  cases he : d.exec .rv32im inst host false with
  | brk e =>
    rw [he] at hf
    obtain ⟨hp, hk⟩ := hf
    rw [hnext]
    exact ⟨congrArg (· + 4#32) hp, hk.prevPc, hk.latch, hk.csr, hk.memBase, hk.memSize⟩
  | ret r e =>
    rw [he] at hf hret
    exact absurd hret hf

end Srv32.Refine

namespace Srv32.Rtl.Slot
open Iss.Rv

variable {x : Slot}

theorem vector_eq (x : Slot) (h : x.csr.mtvec.getLsbD 1 = false) :
    x.vector = vectorOf x.csr.mtvec (x.mcause &&& 0xf#32) := by
  have h1 : x.csr.mtvec.getLsbD 1 = decide (x.csr.mtvec.toNat / 2 % 2 = 1) := Bits.testBit_one _
  rw [h1, decide_eq_false_iff_not] at h
  have hb : x.mtvecBase.toNat = x.csr.mtvec.toNat / 4 * 4 := by
    rw [mtvecBase, BitVec.toNat_append]
    simp only [BitVec.extractLsb'_toNat, BitVec.toNat_ofNat, Nat.shiftLeft_eq,
      Nat.shiftRight_eq_div_pow, Nat.zero_mod, Nat.or_zero]
    have := x.csr.mtvec.isLt
    omega
  have h0 : x.csr.mtvec.getLsbD 0 = true ↔ x.csr.mtvec &&& 1#32 ≠ 0#32 := by
    rw [Bits.testBit_zero, decide_eq_true_eq, ne_eq, Bits.and_one_eq_zero]
    omega
  rw [vector, vectorOf]
  by_cases hv : x.csr.mtvec &&& 1#32 ≠ 0#32
  · rw [if_pos (h0.mpr hv), if_pos hv, BitVec.mul_comm]
    congr 1
    apply BitVec.eq_of_toNat_eq
    rw [hb]
    have he : (x.csr.mtvec &&& 0xfffffffe#32).toNat = x.csr.mtvec.toNat / 2 * 2 :=
      Bits.toNat_clearBit0 _
    rw [he]
    omega
  · rw [if_neg fun hc => hv (h0.mp hc), if_neg hv]
    apply BitVec.eq_of_toNat_eq
    rw [hb]
    have h2 : x.csr.mtvec.toNat % 2 = 0 := (Bits.and_one_eq_zero _).mp (not_not.mp hv)
    omega

theorem setBit_eq_pushMie (m : Word) :
    setBit (setBit m bitMpie (m.getLsbD bitMie)) bitMie false = pushMie m := by
  have h := Bits.and_bit_ne_zero m (n := bitMie) (by decide)
  rw [setBit, if_neg (by simp), setBit, pushMie]
  by_cases hm : m &&& 1#32 <<< bitMie ≠ 0#32
  · rw [if_pos hm, if_pos (h.mp hm)]
  · rw [if_neg hm, if_neg fun hb => hm (h.mpr hb)]

theorem even_pc (h : x.pc.toNat % 4 = 0) : even x.pc = x.pc := by
  rw [even, Bits.clearBit0_eq_and, Bits.clearBit0_of_even (by omega)]

end Srv32.Rtl.Slot

namespace Srv32.Refine

open Iss (Rv Host srv32Step rvOkay rvExit rvTrap)
open Iss.Rv (vectorOf)
open Rtl (Slot)

/-- The next pc and the trap CSRs of the core after the slot `x` are those of the simulator in
`e`. -/
structure TrapAgree (x : Slot) (e : Rv) : Prop where
  pc : x.fetchNext = e.pc
  mepc : x.csrNext.mepc = e.csr.mepc
  mcause : x.csrNext.mcause = e.csr.mcause
  mtval : x.csrNext.mtval = e.csr.mtval
  mstatus : x.csrNext.mstatus = e.csr.mstatus
  mip : x.csrNext.mip = e.csr.mip

variable {k : Known} {x : Slot} {d : Rv} {inst : Word} {host : Host}

theorem Matched.aligned_pc (h : Matched k x d inst) : x.pc.toNat % 4 = 0 := by
  rw [h.pc]
  exact h.aligned

theorem fetchNext_of_trap (hf : x.flush = false) (ht : x.trap = true) :
    x.fetchNext = if x.isMret then x.csr.mepc else x.vector := by
  rw [Slot.fetchNext, if_neg (by simp [hf]), if_pos ht, Slot.trapPc_eq]

/-- A trap that does not return goes to the simulator's vector, where `mtvec` has one the core
can reach. -/
theorem Matched.fetchNext_vector (h : Matched k x d inst) (ht : x.trap = true)
    (hm : x.isMret = false) (hv : d.csr.mtvec.getLsbD 1 = false) :
    x.fetchNext = vectorOf d.csr.mtvec (x.mcause &&& 0xf#32) := by
  rw [fetchNext_of_trap h.loaded.unflushed ht, hm, if_neg (by simp),
    Slot.vector_eq _ (by rw [h.csr.mtvec]; exact hv), h.csr.mtvec]

/-- A simulator that goes there has an `mtvec` the core can reach. -/
theorem Matched.vectored (h : Matched k x d inst) (ht : x.trap = true) (hm : x.isMret = false)
    {off : Word} (hf : x.fetchNext = vectorOf d.csr.mtvec off) :
    d.csr.mtvec.getLsbD 1 = false := by
  have hal := Slot.vector_aligned x
  rw [fetchNext_of_trap h.loaded.unflushed ht, hm, if_neg (by simp)] at hf
  rw [hf] at hal
  exact (Iss.Rv.vectorOf_aligned _ _).mp hal

theorem Matched.enter_mstatus (h : Matched k x d inst) (c epc tval : Word) :
    (Slot.enter x.csr c epc tval).mstatus = Iss.Rv.pushMie d.csr.mstatus := by
  change Rtl.setBit (Rtl.setBit x.csr.mstatus bitMpie (x.csr.mstatus.getLsbD bitMie))
    bitMie false = _
  rw [Slot.setBit_eq_pushMie, h.csr.mstatus]

theorem Matched.even_pc (h : Matched k x d inst) : Rtl.even x.pc = d.prevPc := by
  rw [Slot.even_pc h.aligned_pc, h.prevPc, h.pc]

theorem trapAgree_iff (h : Matched k x d inst) {d' : Rv} {c val tval : Word}
    (hexec : d.exec .rv32im inst host false = d'.trapRet c val) (hk : Kept d d')
    (hc : c ≠ trapInstAlign ∧ c ≠ trapInstFail) (ht : x.trap = true) (hm : x.isMret = false)
    (hcause : x.mcause = c) (hcode : c &&& 0xf#32 = c)
    (hcsr : x.csrNext = Slot.enter x.csr c (Rtl.even x.pc) tval) :
    TrapAgree x ((d.execNext .rv32im inst host false).2.settle .rv32im) ↔
      d.csr.mtvec.getLsbD 1 = false ∧ d.InRange (vectorOf d.csr.mtvec (x.mcause &&& 0xf#32)) ∧
        tval = val := by
  have hres : (d.execNext .rv32im inst host false).2 = d'.trap c val := by
    rw [Rv.execNext, hexec]
    rfl
  have hview := hk.csr
  have hv : ∀ f : Rtl.Csr → Word, f (csrView d'.csr) = f (csrView d.csr) := fun f => by rw [hview]
  have hmtvec : d'.csr.mtvec = d.csr.mtvec := hv Rtl.Csr.mtvec
  have hmst : d'.csr.mstatus = d.csr.mstatus := hv Rtl.Csr.mstatus
  have hmip : d'.csr.mip = d.csr.mip := hv Rtl.Csr.mip
  have hund : (d'.trap c val).Undisturbed := Or.inl (by simp)
  have hrange : ∀ pc, (d'.trap c val).InRange pc ↔ d.InRange pc := by
    intro pc
    change ¬ ((d'.memBase + d'.memSize).sle pc = true ∨ pc.slt d'.memBase = true) ↔ _
    rw [hk.memBase, hk.memSize]
    rfl
  have hpc : (d'.trap c val).pc = vectorOf d.csr.mtvec (x.mcause &&& 0xf#32) := by
    rw [Rv.trap_pc, hmtvec, hcause, hcode]
  rw [hres]
  -- a vector the next step cannot fetch from raises a trap of its own, with its own cause
  by_cases hok : (d'.trap c val).InRange (d'.trap c val).pc ∧ (d'.trap c val).pc.toNat % 4 = 0
  · rw [hund.settle hok.1 hok.2]
    have h1 : d.csr.mtvec.getLsbD 1 = false := by
      have := hok.2
      rwa [hpc, Iss.Rv.vectorOf_aligned] at this
    have h2 : d.InRange (vectorOf d.csr.mtvec (x.mcause &&& 0xf#32)) := by
      rw [← hpc, ← hrange]
      exact hok.1
    constructor
    · intro ha
      have := ha.mtval
      rw [hcsr] at this
      exact ⟨h1, h2, this⟩
    · rintro ⟨-, -, rfl⟩
      refine ⟨?_, ?_, ?_, ?_, ?_, ?_⟩
      · rw [h.fetchNext_vector ht hm h1, ← hpc]
        rfl
      · rw [hcsr]
        change Rtl.even x.pc = d'.prevPc
        rw [h.even_pc, hk.prevPc]
      · rw [hcsr]
        rfl
      · rw [hcsr]
        rfl
      · rw [hcsr, h.enter_mstatus, ← hmst]
        rfl
      · rw [hcsr]
        change x.csr.mip = d'.csr.mip
        rw [h.csr.mip, hmip]
  · constructor
    · intro ha
      have hmc := ha.mcause
      rw [hcsr] at hmc
      rcases hund.settle_mcause hok with hb | hb
      · exact absurd (hmc.trans hb) hc.2
      · exact absurd (hmc.trans hb) hc.1
    · rintro ⟨h1, h2, -⟩
      exact absurd ⟨by rw [hrange, hpc]; exact h2,
        by rw [hpc]; exact (Iss.Rv.vectorOf_aligned _ _).mpr h1⟩ hok

/-- The latches of an accepted interrupt make the simulator enter one. -/
theorem enterInts_of_not_undisturbed {e : Rv} (h : ¬ e.Undisturbed) :
    e.mieSet = true ∧ ∃ c src, e.enterInts = e.int c src false ∧ c ≠ trapInstAlign ∧
      c ≠ trapInstFail := by
  have hm : e.mieSet = true := by
    cases hm : e.mieSet
    · exact absurd (Or.inl hm) h
    · rfl
  refine ⟨hm, ?_⟩
  cases h1 : e.latch.timerIrq with
  | true => exact ⟨_, _, Iss.Rv.enterInts_timer hm h1, by decide, by decide⟩
  | false =>
    cases h2 : e.latch.swIrqNext with
    | true => exact ⟨_, _, Iss.Rv.enterInts_sw hm h1 h2, by decide, by decide⟩
    | false =>
      cases h3 : e.latch.extIrqNext with
      | true => exact ⟨_, _, Iss.Rv.enterInts_ext hm h1 h2 h3, by decide, by decide⟩
      | false => exact absurd (Or.inr ⟨h1, h2, h3⟩) h

theorem trapAgree_misaligned_iff (h : Matched k x d inst)
    (hexec : (d.execNext .rv32im inst host false).2 = { d with pc := x.target })
    (hill : x.instIllExcp = false) (ha : x.instAlignExcp = true) :
    TrapAgree x ((d.execNext .rv32im inst host false).2.settle .rv32im) ↔
      d.csr.mtvec.getLsbD 1 = false ∧ d.InRange x.target ∧ d.Undisturbed := by
  have hib : x.illBranch = false := by
    simp only [Slot.instIllExcp, h.loaded.unflushed, Bool.not_false, Bool.true_and,
      Bool.or_eq_false_iff] at hill
    exact hill.1.1
  obtain ⟨-, hnext, hmis⟩ := Slot.taken_of_instAlignExcp h.loaded h.aligned_pc hib ha
  have ht : x.trap = true := by simp [Slot.trap, Slot.excp, ha, h.loaded.unflushed]
  have hm : x.isMret = false := by
    by_contra hc
    simp only [Slot.isMret, Bool.not_eq_false, Bool.and_eq_true] at hc
    have hs := hc.1
    rw [Slot.systemcall_eq_env h.loaded, Bool.and_eq_true, beq_iff_eq] at hs
    have := Slot.instAlignExcp_of_no_jump h.loaded h.aligned_pc
      (by simp [h.loaded.decoded, Rtl.decode, hs.1]) (by simp [h.loaded.decoded, Rtl.decode, hs.1])
      (by simp [h.loaded.decoded, Rtl.decode, hs.1])
    rw [ha] at this
    cases this
  have hcsr : x.csrNext = Slot.enter x.csr trapInstAlign (Rtl.even x.pc) x.target := by
    rw [Slot.csrNext_of_trap h.loaded h.aligned_pc ht, Slot.trapEntry, hill, ha, ← hnext]
    rfl
  have hcause : x.mcause = trapInstAlign := by simp [Slot.mcause, hill, ha]
  rw [hexec]
  by_cases hu : d.Undisturbed
  · have hu' : ({ d with pc := x.target } : Rv).Undisturbed := hu
    by_cases hr : d.InRange x.target
    · rw [hu'.settle_misaligned hr hmis]
      constructor
      · intro hag
        refine ⟨?_, hr, hu⟩
        exact h.vectored ht hm hag.pc
      · rintro ⟨h1, -, -⟩
        refine ⟨?_, ?_, ?_, ?_, ?_, ?_⟩
        · rw [h.fetchNext_vector ht hm h1, hcause]
          rfl
        · rw [hcsr]
          exact h.even_pc
        · rw [hcsr]
          rfl
        · rw [hcsr]
          rfl
        · rw [hcsr, h.enter_mstatus]
          rfl
        · rw [hcsr]
          exact h.csr.mip
    · -- the range check traps first; a second trap leaves a misaligned pc
      refine iff_of_false (fun hag => ?_) (fun hc => hr hc.2.1)
      have hpc := hag.pc
      have hmc := hag.mcause
      rw [Iss.Rv.settle_eq, hu'.enterInts, Iss.Rv.checkPc_unmapped hr] at hpc hmc
      split at hmc
      · rw [hcsr] at hmc
        change trapInstAlign = trapInstFail at hmc
        exact absurd hmc (by decide)
      · rename_i hv
        rw [if_neg hv] at hpc
        exact hv ((Iss.Rv.vectorOf_aligned _ _).mpr (h.vectored ht hm hpc))
  -- an interrupt is entered before the target is checked: its cause stays, or `mstatus` is
  -- pushed twice
  · refine iff_of_false (fun hag => ?_) (fun hc => hu hc.2.2)
    obtain ⟨hmie, c, src, hent, hc0, hc1⟩ :=
      enterInts_of_not_undisturbed (e := ({ d with pc := x.target } : Rv).fresh) hu
    have hmpie : x.csrNext.mstatus.getLsbD bitMpie = true := by
      rw [hcsr, h.enter_mstatus, Iss.Rv.pushMie_mpie, ← Iss.Rv.mieSet_eq]
      exact hmie
    rw [Iss.Rv.settle_eq, hent] at hag
    have hoff : (({ d with pc := x.target } : Rv).fresh.int c src false).mieSet = false :=
      Iss.Rv.mieSet_int c src
    have hci : (({ d with pc := x.target } : Rv).fresh.int c src false).csr.mcause = c := by
      rw [Iss.Rv.int_eq]
    generalize ({ d with pc := x.target } : Rv).fresh.int c src false = s at hag hoff hci
    by_cases hok : s.InRange s.pc ∧ s.pc.toNat % 4 = 0
    · have hmc := hag.mcause
      rw [Iss.Rv.checkPc_ok hok.1 hok.2, hci, hcsr] at hmc
      exact hc0 hmc.symm
    · have hms := hag.mstatus
      have hf := Iss.Rv.checkPc_mpie hoff hok
      rw [← hms, hmpie] at hf
      cases hf

theorem trapAgree_int_iff (h : Matched k x d inst) {e : Rv} {c : Word} {src : ℕ}
    (hk : Kept d e) (hpc : e.pc = nextOf x) (hi : x.interrupted = true)
    (hent : e.fresh.enterInts = e.fresh.int c src false)
    (hc : c ≠ trapInstAlign ∧ c ≠ trapInstFail) (hcause : x.mcause = c)
    (hcode : c &&& ~~~(1#32 <<< 31) = c &&& 0xf#32)
    (hcsr : x.csrNext =
      { Slot.enter x.csr c x.retPc 0#32 with mip := Rtl.setBit x.csr.mip src true }) :
    TrapAgree x (e.settle .rv32im) ↔ d.csr.mtvec.getLsbD 1 = false ∧
      d.InRange (vectorOf d.csr.mtvec (x.mcause &&& 0xf#32)) ∧ d.csr.mtval = 0#32 := by
  have hv : ∀ f : Rtl.Csr → Word, f (csrView e.csr) = f (csrView d.csr) := fun f => by rw [hk.csr]
  have hmtvec : e.csr.mtvec = d.csr.mtvec := hv Rtl.Csr.mtvec
  have hmtval : e.csr.mtval = d.csr.mtval := hv Rtl.Csr.mtval
  have hmst : e.csr.mstatus = d.csr.mstatus := hv Rtl.Csr.mstatus
  have hmip : e.csr.mip = d.csr.mip := hv Rtl.Csr.mip
  have ht : x.trap = true := by
    rw [Slot.trap_eq h.loaded.unflushed, hi]
    simp
  have hm : x.isMret = false := by
    obtain ⟨-, hop, -⟩ := Slot.of_interrupted hi
    have hop' : (opcode x.insn == opSystem) = false := by
      simpa [h.loaded.decoded, Rtl.decode] using hop
    simp [Slot.isMret, Slot.systemcall_eq_env h.loaded, hop']
  have hret : x.retPc = nextOf x := by
    rw [Slot.retPc_eq h.loaded h.aligned_pc hi, Slot.quiet_successor h.loaded hi]
    rfl
  have hs : e.fresh.int c src false = _ := Iss.Rv.int_eq c src
  have hspc : (e.fresh.int c src false).pc = vectorOf d.csr.mtvec (x.mcause &&& 0xf#32) := by
    rw [hs, ← hmtvec, hcause, ← hcode]
    rfl
  have hrange : ∀ pc, (e.fresh.int c src false).InRange pc ↔ d.InRange pc := by
    intro pc
    rw [hs]
    change ¬ ((e.memBase + e.memSize).sle pc = true ∨ pc.slt e.memBase = true) ↔ _
    rw [hk.memBase, hk.memSize]
    rfl
  rw [Iss.Rv.settle_eq, hent]
  by_cases hok : (e.fresh.int c src false).InRange (e.fresh.int c src false).pc ∧
      (e.fresh.int c src false).pc.toNat % 4 = 0
  · rw [Iss.Rv.checkPc_ok hok.1 hok.2]
    have h1 : d.csr.mtvec.getLsbD 1 = false := by
      have := hok.2
      rwa [hspc, Iss.Rv.vectorOf_aligned] at this
    have h2 : d.InRange (vectorOf d.csr.mtvec (x.mcause &&& 0xf#32)) := by
      rw [← hspc, ← hrange]
      exact hok.1
    constructor
    · intro ha
      have hva := ha.mtval
      rw [hcsr, hs] at hva
      exact ⟨h1, h2, by rw [← hmtval]; exact hva.symm⟩
    · rintro ⟨-, -, h0⟩
      refine ⟨?_, ?_, ?_, ?_, ?_, ?_⟩
      · rw [hspc, h.fetchNext_vector ht hm h1]
      · rw [hcsr, hs]
        change x.retPc = e.pc
        rw [hret, hpc]
      · rw [hcsr, hs]
        rfl
      · rw [hcsr, hs]
        change 0#32 = e.csr.mtval
        rw [hmtval, h0]
      · rw [hcsr, hs]
        change (Slot.enter x.csr c x.retPc 0#32).mstatus = Iss.Rv.pushMie e.csr.mstatus
        rw [h.enter_mstatus, hmst]
      · rw [hcsr, hs]
        change Rtl.setBit x.csr.mip src true = e.csr.mip ||| 1#32 <<< src
        rw [h.csr.mip, hmip]
        rfl
  · constructor
    · intro ha
      have hmc := ha.mcause
      rw [hcsr] at hmc
      rcases Iss.Rv.checkPc_mcause hok with hb | hb
      · exact absurd (hmc.trans hb) hc.2
      · exact absurd (hmc.trans hb) hc.1
    · rintro ⟨h1, h2, -⟩
      exact absurd ⟨by rw [hrange, hspc]; exact h2,
        by rw [hspc]; exact (Iss.Rv.vectorOf_aligned _ _).mpr h1⟩ hok

end Srv32.Refine

import Srv32.Rtl.Hart
import Srv32.Refine.Advance
import Srv32.Refine.Manual

/-! The core implements RV32IM under interrupts: one instruction of it is one instruction of the
manual, and an interrupt comes between two of them. -/

namespace Srv32.Rtl

open Riscv (Instr Machine)
open Iss (Rv byteOfWord)
open Refine (Matched Known)

namespace Hart

section

variable (memsize : ℕ) (prog : ℕ → Word) (a : Hart)

/-- The manual's machine: the program, and the data memory above it. -/
def machine : Machine where
  pc := a.pc
  x := fun n => if n = 0#5 then 0#32 else a.regs n
  mem := fun w =>
    if w.toNat < ramSize memsize then byteOfWord (prog (w.toNat / 4)) (w.toNat % 4)
    else byteOfWord (a.ram ((w.toNat - ramSize memsize) / 4)) (w.toNat % 4)
  zero := if_pos rfl

/-- The interrupt that is taken with the next instruction. -/
def pending : Option Word :=
  if !a.csr.mstatus.getLsbD bitMie then none
  else if a.clint.timerIrq && a.csr.mie.getLsbD bitMtie then some intMtime
  else if a.clint.swIrq && a.csr.mie.getLsbD bitMsie then some intMsi
  else if a.clint.exIrq && a.csr.mie.getLsbD bitMeie then some intMei
  else none

/-- The simulator's state that reads the same. -/
def rv : Rv :=
  { Rv.boot .rv32im memsize fun z => (a.machine memsize prog).mem (BitVec.ofInt 32 z) with
    pc := a.pc
    prevPc := a.pc
    regs := (a.machine memsize prog).x
    csr :=
      { (Rv.boot .rv32im memsize fun _ => 0#8).csr with
        mscratch := a.csr.mscratch, mstatus := a.csr.mstatus, mstatush := a.csr.mstatush
        misa := a.csr.misa, mie := a.csr.mie, mtvec := a.csr.mtvec, mepc := a.csr.mepc
        mcause := a.csr.mcause, mip := a.csr.mip, mtval := a.csr.mtval } }

end

/-- Where the interrupt `cause` goes. -/
def handler (mtvec cause : Word) : Word :=
  let base := mtvec &&& ~~~3#32
  if mtvec.getLsbD 0 then base + 4#32 * (cause &&& 0xf#32) else base

/-- The CSRs an interrupt leaves, `epc` being where its handler returns to. -/
def interruptCsr (c : Csr) (cause epc : Word) : Csr :=
  { c with
    mcause := cause
    mepc := epc
    mtval := 0#32
    mip := c.mip ||| 1#32 <<< (cause &&& 0xf#32).toNat
    mstatus := (c.mstatus ||| 1#32 <<< bitMpie) &&& ~~~(1#32 <<< bitMie) }

variable {memsize : ℕ} {prog : ℕ → Word} {a : Hart} {ans : Answer} {addr : Word}

theorem loaded {p : Param} : (a.slot p memsize prog).Loaded p := ⟨rfl, rfl, rfl, rfl⟩

variable (memsize prog) in
theorem matched (hpc : a.pc.toNat % 4 = 0) :
    Matched ⟨false, true, true, true⟩ (a.slot .rv32im memsize prog) (a.rv memsize prog)
      (a.word memsize prog) :=
  ⟨loaded, rfl, rfl, rfl, hpc, rfl, rfl,
    ⟨rfl, rfl, rfl, rfl, rfl, rfl, rfl, rfl, rfl, rfl, rfl, fun _ => rfl, fun _ => rfl,
      fun _ => rfl⟩, fun h => absurd h (by decide), fun h => absurd h (by decide)⟩

/-! Interrupts. -/

/-- Outside SYSTEM, the requests that are enabled are looked at. -/
theorem irqGate_eq (ho : opcode (a.word memsize prog) ≠ opSystem) (irq : Bool) (bit : ℕ) :
    (a.slot .rv32im memsize prog).irqGate irq bit =
      (irq && a.csr.mstatus.getLsbD bitMie && a.csr.mie.getLsbD bit) := by
  have hs : (a.slot .rv32im memsize prog).ex.systemOp = false := by simp [slot, decode, ho]
  have hf : (a.slot .rv32im memsize prog).flush = false := rfl
  simp only [Slot.irqGate, hs, hf, Bool.not_false, Bool.and_true]
  rfl

/-- Away from SYSTEM and exceptions, the trap logic takes the pending interrupt and no other. -/
theorem takes_pending (ho : opcode (a.word memsize prog) ≠ opSystem)
    (hx : (a.slot .rv32im memsize prog).excp = false) :
    (a.slot .rv32im memsize prog).interrupted = a.pending.isSome ∧
      ∀ cause, a.pending = some cause →
        (a.slot .rv32im memsize prog).mcause = cause ∧
        (a.slot .rv32im memsize prog).csrNext =
          interruptCsr a.csr cause (a.slot .rv32im memsize prog).retPc := by
  have ht : (a.slot .rv32im memsize prog).timerInt = _ := irqGate_eq ho a.clint.timerIrq bitMtie
  have hs : (a.slot .rv32im memsize prog).swInt = _ := irqGate_eq ho a.clint.swIrq bitMsie
  have he : (a.slot .rv32im memsize prog).extInt = _ := irqGate_eq ho a.clint.exIrq bitMeie
  have hw : (a.slot .rv32im memsize prog).ex.csrWr = false := by simp [slot, decode, ho]
  have hcsr : (a.slot .rv32im memsize prog).csr = a.csr := rfl
  have hx' := hx
  simp only [Slot.excp, Bool.or_eq_false_iff] at hx'
  obtain ⟨⟨⟨hill, hia⟩, hld⟩, hst⟩ := hx'
  have hf : (a.slot .rv32im memsize prog).flush = false := rfl
  cases hmie : a.csr.mstatus.getLsbD bitMie with
  | false =>
    rw [hmie, Bool.and_false, Bool.false_and] at ht hs he
    have hp : a.pending = none := by
      rw [pending, hmie]
      rfl
    constructor
    · simp [Slot.interrupted, ht, hs, he, hp]
    · intro cause hc
      rw [hp] at hc
      cases hc
  | true =>
    rw [hmie, Bool.and_true] at ht hs he
    -- `enter` copies MIE, which is set
    have henter : ∀ cause epc bit, (cause &&& 0xf#32).toNat = bit →
        { Slot.enter a.csr cause epc 0#32 with mip := setBit a.csr.mip bit true } =
          interruptCsr a.csr cause epc := by
      intro cause epc bit hb
      rw [interruptCsr, hb, Slot.enter, hmie]
      rfl
    refine ⟨?_, fun cause hc => ?_⟩
    · simp only [Slot.interrupted, hx, ht, hs, he, pending, hmie]
      cases a.clint.timerIrq && a.csr.mie.getLsbD bitMtie <;>
        cases a.clint.swIrq && a.csr.mie.getLsbD bitMsie <;>
        cases a.clint.exIrq && a.csr.mie.getLsbD bitMeie <;> rfl
    · simp only [pending, hmie, Bool.not_true, Bool.false_eq_true, if_false] at hc
      simp only [Slot.mcause, Slot.csrNext, Slot.csrFile, Slot.trapCsr, hill, hw, hia, hld, hst, hf,
        ht, hs, he, hcsr, Bool.false_eq_true, if_false]
      cases h1 : a.clint.timerIrq && a.csr.mie.getLsbD bitMtie with
      | true =>
        rw [h1, if_pos rfl, Option.some.injEq] at hc
        subst hc
        exact ⟨rfl, henter _ _ _ (by decide)⟩
      | false =>
        rw [h1, if_neg (by simp)] at hc
        cases h2 : a.clint.swIrq && a.csr.mie.getLsbD bitMsie with
        | true =>
          rw [h2, if_pos rfl, Option.some.injEq] at hc
          subst hc
          exact ⟨rfl, henter _ _ _ (by decide)⟩
        | false =>
          rw [h2, if_neg (by simp)] at hc
          cases h3 : a.clint.exIrq && a.csr.mie.getLsbD bitMeie with
          | true =>
            rw [h3, if_pos rfl, Option.some.injEq] at hc
            subst hc
            exact ⟨rfl, henter _ _ _ (by decide)⟩
          | false =>
            rw [h3, if_neg (by simp)] at hc
            cases hc

theorem vector_eq (x : Slot) : x.vector = handler x.csr.mtvec x.mcause := by
  have hb : x.mtvecBase = x.csr.mtvec &&& ~~~3#32 := by
    rw [Slot.mtvecBase]
    apply BitVec.eq_of_getLsbD_eq
    intro n hn
    have hmask : (3#32).getLsbD n = decide (n < 2) := by
      revert n
      decide
    simp only [BitVec.getLsbD_append, BitVec.getLsbD_extractLsb', BitVec.getLsbD_and,
      BitVec.getLsbD_not, hmask, hn]
    by_cases h2 : n < 2
    · simp [h2]
    · simp [h2, show n - 2 < 30 by omega, show 2 + (n - 2) = n by omega]
  rw [Slot.vector, handler, hb]

variable (ans) in
/-- Where an instruction without an exception goes, and the CSRs it leaves. -/
theorem step_flow (hpc : a.pc.toNat % 4 = 0) (ho : opcode (a.word memsize prog) ≠ opSystem)
    (hx : (a.slot .rv32im memsize prog).excp = false) {next : Word}
    (hn : next = if (a.slot .rv32im memsize prog).branchTaken then
      (a.slot .rv32im memsize prog).target else a.pc + 4#32) :
    (a.step .rv32im memsize prog ans).pc =
        (match a.pending with
        | none => next
        | some cause => handler a.csr.mtvec cause) ∧
      (a.step .rv32im memsize prog ans).csr =
        (match a.pending with
        | none => a.csr
        | some cause => interruptCsr a.csr cause next) := by
  obtain ⟨hint, htake⟩ := takes_pending ho hx
  have hf : (a.slot .rv32im memsize prog).flush = false := rfl
  have hsys : (a.slot .rv32im memsize prog).systemcall = false := by
    simp [Slot.systemcall, slot, decode, ho]
  have hs : (a.slot .rv32im memsize prog).successor =
      if a.pending.isSome then (a.slot .rv32im memsize prog).vector else next := by
    rw [Slot.successor, hint, hx, Slot.isMret, Slot.isEnvCall, hsys, hn]
    simp only [Bool.false_and, Bool.false_eq_true, if_false, Bool.false_or]
    rfl
  rw [step_pc, hs]
  cases hp : a.pending with
  | none =>
    refine ⟨rfl, ?_⟩
    rw [hp] at hint
    have hw : (a.slot .rv32im memsize prog).ex.csrWr = false := by simp [slot, decode, ho]
    simp only [Slot.interrupted, hx, Bool.not_false, Bool.true_and, Option.isSome_none,
      Bool.or_eq_false_iff] at hint
    obtain ⟨⟨h1, h2⟩, h3⟩ := hint
    simp only [Slot.excp, Bool.or_eq_false_iff] at hx
    obtain ⟨⟨⟨hill, hia⟩, hld⟩, hst⟩ := hx
    simp only [step, Slot.csrNext, Slot.csrFile, Slot.trapCsr, hill, hw, hia, hld, hst, hf, h1, h2,
      h3, hsys, Bool.false_eq_true, if_false]
    rfl
  | some cause =>
    obtain ⟨hcause, hcsr⟩ := htake cause hp
    have hi : (a.slot .rv32im memsize prog).interrupted = true := by rw [hint, hp]; rfl
    have hret : (a.slot .rv32im memsize prog).retPc = next := by
      rw [Slot.retPc_eq loaded hpc hi, Slot.quiet_successor loaded hi, hn]
      rfl
    refine ⟨?_, ?_⟩
    · simp only [Option.isSome_some, if_true]
      rw [vector_eq, hcause]
      rfl
    · change (a.slot .rv32im memsize prog).csrNext = _
      rw [hcsr, hret]

/-! Effects. -/

variable (ans) in
theorem machine_write (hx : (a.slot .rv32im memsize prog).excp = false)
    (hw : Slot.writesRd (a.word memsize prog) = true)
    (hm : (a.slot .rv32im memsize prog).memwr = false) {v : Word}
    (hv : v = if (a.slot .rv32im memsize prog).mem2reg then
        loadData (a.slot .rv32im memsize prog).ex.aluOp
          ((a.slot .rv32im memsize prog).memaddr.extractLsb' 0 2)
          (a.readData memsize ans (a.slot .rv32im memsize prog).memaddr)
      else (a.slot .rv32im memsize prog).result .rv32im) :
    (a.step .rv32im memsize prog ans).machine memsize prog =
      ((a.machine memsize prog).set (rd (a.word memsize prog)) v).goto
        (a.step .rv32im memsize prog ans).pc := by
  have hin : (a.slot .rv32im memsize prog).insn = a.word memsize prog := rfl
  have hram : (a.step .rv32im memsize prog ans).ram = a.ram := by
    simp [step, hm]
  have hregs : (a.step .rv32im memsize prog ans).regs =
      if rd (a.word memsize prog) ≠ 0#5 then
        Function.update a.regs (rd (a.word memsize prog)) v else a.regs := by
    simp only [step, hin, hx, hw, Bool.not_true, Bool.or_false, true_and, hv]
  apply Machine.ext
  · rfl
  · funext n
    change (if n = 0#5 then 0#32 else (a.step .rv32im memsize prog ans).regs n) =
      (if rd (a.word memsize prog) = 0#5 then (a.machine memsize prog).x
        else Function.update (a.machine memsize prog).x (rd (a.word memsize prog)) v) n
    rw [hregs]
    by_cases hd : rd (a.word memsize prog) = 0#5
    · rw [if_neg (not_not.mpr hd), if_pos hd]
      rfl
    · rw [if_pos hd, if_neg hd]
      by_cases hn : n = rd (a.word memsize prog)
      · subst hn
        rw [if_neg hd, Function.update_self, Function.update_self]
      · rw [Function.update_of_ne hn, Function.update_of_ne hn]
        rfl
  · funext w
    change (if _ then _ else byteOfWord ((a.step .rv32im memsize prog ans).ram _) _) = _
    rw [hram]
    rfl

theorem machine_goto (hw : Slot.writesRd (a.word memsize prog) = false)
    (hm : (a.slot .rv32im memsize prog).memwr = false) :
    (a.step .rv32im memsize prog ans).machine memsize prog =
      (a.machine memsize prog).goto (a.step .rv32im memsize prog ans).pc := by
  have hin : (a.slot .rv32im memsize prog).insn = a.word memsize prog := rfl
  have hram : (a.step .rv32im memsize prog ans).ram = a.ram := by
    simp [step, hm]
  have hregs : (a.step .rv32im memsize prog ans).regs = a.regs := by
    simp [step, hin, hw]
  apply Machine.ext
  · rfl
  · funext n
    change (if n = 0#5 then 0#32 else (a.step .rv32im memsize prog ans).regs n) = _
    rw [hregs]
    rfl
  · funext w
    change (if _ then _ else byteOfWord ((a.step .rv32im memsize prog ans).ram _) _) = _
    rw [hram]
    rfl

/-- The bytes of an aligned access lie in one word of the data memory. -/
theorem mem_dram (hlo : ramSize memsize ≤ addr.toNat) {j : ℕ}
    (hj : addr.toNat % 4 + j < 4) (hhi : addr.toNat + j < 2 ^ 32) :
    (a.machine memsize prog).mem (addr + BitVec.ofNat 32 j) =
      byteOfWord (a.ram ((addr.toNat - ramSize memsize) / 4)) (addr.toNat % 4 + j) := by
  have h4 := ramSize_mod memsize
  have hadd : (addr + BitVec.ofNat 32 j).toNat = addr.toNat + j := by
    rw [BitVec.toNat_add, BitVec.toNat_ofNat]
    omega
  change (if (addr + BitVec.ofNat 32 j).toNat < ramSize memsize then _ else _) = _
  rw [hadd, if_neg (by omega)]
  congr 2 <;> omega

structure Dram (memsize : ℕ) (addr : Word) (n : ℕ) : Prop where
  aligned : addr.toNat % n = 0
  low : ramSize memsize ≤ addr.toNat
  high : addr.toNat + n ≤ 2 * ramSize memsize

theorem Dram.not_device {n : ℕ} (hm : memsize < 2 ^ 20) (hn : 0 < n) (h : Dram memsize addr n) :
    isClint addr = false ∧ isMmio addr = false := by
  have hlt : addr.toNat < 2 ^ 31 := by
    have := h.high
    unfold ramSize at this
    omega
  have htop : (addr.extractLsb' 28 4).toNat < 8 := by
    rw [BitVec.extractLsb'_toNat, Nat.shiftRight_eq_div_pow]
    omega
  constructor
  · rw [isClint, beq_eq_false_iff_ne]
    intro he
    rw [he] at htop
    exact absurd htop (by decide)
  · rw [isMmio, beq_eq_false_iff_ne]
    intro he
    rw [he] at htop
    exact absurd htop (by decide)

theorem Dram.readData {n : ℕ} (hm : memsize < 2 ^ 20) (hn : 0 < n) (h : Dram memsize addr n) :
    a.readData memsize ans addr =
      a.ram (Mem2ports.index (ramSize memsize) (dramIndex memsize addr)) := by
  obtain ⟨hc, hmm⟩ := h.not_device hm hn
  have hfh : addr ≠ mmioFromhost := by
    rintro rfl
    exact absurd hmm (by decide)
  rw [Hart.readData, hc, if_neg (by simp), if_neg hfh]

theorem load_value (hm : memsize < 2 ^ 20) (op : Riscv.LoadOp) (h : Dram memsize addr op.size) :
    loadData op.funct3 (addr.extractLsb' 0 2) (a.readData memsize ans addr) =
      op.value (a.machine memsize prog) addr := by
  have hsize : 0 < op.size ∧ op.size ≤ 4 := by cases op <;> decide
  have hhi := h.high
  have hlow := h.low
  have hsmall : ramSize memsize < 2 ^ 30 := by
    unfold ramSize
    omega
  have hrd : a.readData memsize ans addr = a.ram ((addr.toNat - ramSize memsize) / 4) := by
    rw [h.readData hm hsize.1, index_dram hm h.low (by omega)]
  have hop : isLoadOp op.funct3 = true := by cases op <;> rfl
  have hw : (Rv.width op.funct3).toNat = op.size := by cases op <;> rfl
  have heq := Refine.loadData_eq hop (a := addr) (by rw [hw]; exact h.aligned)
    (a.ram ((addr.toNat - ramSize memsize) / 4))
    (fun j => (a.machine memsize prog).mem (addr + BitVec.ofNat 32 j))
    fun j hj => mem_dram hlow hj (by omega)
  rw [hrd, ← heq]
  have h0 : (a.machine memsize prog).mem (addr + BitVec.ofNat 32 0) =
      (a.machine memsize prog).mem addr := by simp
  obtain ⟨hlb, hlh, hlw, hlbu, hlhu⟩ := Iss.loadExtend_lowBytes op.funct3
    fun j => (a.machine memsize prog).mem (addr + BitVec.ofNat 32 j)
  rw [h0] at hlb hlh hlbu hlhu
  cases op with
  | lb => exact hlb rfl
  | lh => exact hlh rfl
  | lw =>
    refine (hlw rfl).trans ?_
    rw [Iss.wordOfBytes, h0]
    rfl
  | lbu => exact hlbu rfl
  | lhu => exact hlhu rfl

theorem machine_put (hm : memsize < 2 ^ 20) (op : Riscv.StoreOp) {v : Word}
    (hw : Slot.writesRd (a.word memsize prog) = false)
    (hmw : (a.slot .rv32im memsize prog).memwr = true)
    (hop : (a.slot .rv32im memsize prog).ex.aluOp = op.funct3)
    (ha : (a.slot .rv32im memsize prog).memaddr = addr)
    (hv : (a.slot .rv32im memsize prog).aluOp2 = v) (h : Dram memsize addr op.size) :
    (a.step .rv32im memsize prog ans).machine memsize prog =
      ((a.machine memsize prog).put addr op.size v).goto
        (a.step .rv32im memsize prog ans).pc := by
  have hsize : 0 < op.size ∧ op.size ≤ 4 ∧ 4 % op.size = 0 := by cases op <;> decide
  have hwidth : (Rv.width (a.slot .rv32im memsize prog).ex.aluOp).toNat = op.size := by
    rw [hop]
    cases op <;> rfl
  have hst : isStoreOp (a.slot .rv32im memsize prog).ex.aluOp = true := by
    rw [hop]
    cases op <;> rfl
  obtain ⟨hc, hmm⟩ := h.not_device hm hsize.1
  have hhi := h.high
  have hlow := h.low
  have hal := h.aligned
  have h4 := ramSize_mod memsize
  have hsmall : ramSize memsize < 2 ^ 30 := by
    unfold ramSize
    omega
  have hin : (a.slot .rv32im memsize prog).insn = a.word memsize prog := rfl
  have hregs : (a.step .rv32im memsize prog ans).regs = a.regs := by
    simp [step, hin, hw]
  have hram : (a.step .rv32im memsize prog ans).ram =
      Function.update a.ram ((addr.toNat - ramSize memsize) / 4)
        (mergeBytes (a.slot .rv32im memsize prog).wstrb
          (a.ram ((addr.toNat - ramSize memsize) / 4))
          (a.slot .rv32im memsize prog).wdata) := by
    simp only [step, hmw, ha, hc, hmm, index_dram hm hlow (show addr.toNat < _ by omega)]
    rfl
  have hlane : ∀ j < 4, _ := fun j hj =>
    Refine.store_lane hst (by rw [hwidth, ha]; exact hal) (j := j) hj
  rw [hwidth, ha, hv] at hlane
  apply Machine.ext
  · rfl
  · funext n
    change (if n = 0#5 then 0#32 else (a.step .rv32im memsize prog ans).regs n) = _
    rw [hregs]
    rfl
  · funext w
    have hdist : (w - addr).toNat = (2 ^ 32 - addr.toNat + w.toNat) % 2 ^ 32 := BitVec.toNat_sub _ _
    have hlt := w.isLt
    change (if w.toNat < ramSize memsize then byteOfWord (prog (w.toNat / 4)) (w.toNat % 4)
      else byteOfWord ((a.step .rv32im memsize prog ans).ram _) (w.toNat % 4)) =
      if (w - addr).toNat < op.size then v.extractLsb' (8 * (w - addr).toNat) 8
      else (if w.toNat < ramSize memsize then byteOfWord (prog (w.toNat / 4)) (w.toNat % 4)
        else byteOfWord (a.ram ((w.toNat - ramSize memsize) / 4)) (w.toNat % 4))
    by_cases hp : w.toNat < ramSize memsize
    · rw [if_pos hp, if_pos hp, if_neg (by omega)]
    rw [if_neg hp, if_neg hp, hram]
    by_cases hsame : (w.toNat - ramSize memsize) / 4 = (addr.toNat - ramSize memsize) / 4
    · -- the same word: the strobes tell which of its bytes
      obtain ⟨hstrb, hbyte⟩ := hlane (w.toNat % 4) (Nat.mod_lt _ (by omega))
      rw [hsame, Function.update_self, byteOfWord_mergeBytes _ _ _ (Nat.mod_lt _ (by omega))]
      have hiff : (w - addr).toNat < op.size ↔
          addr.toNat % 4 ≤ w.toNat % 4 ∧ w.toNat % 4 < addr.toNat % 4 + op.size := by omega
      by_cases hb : (a.slot .rv32im memsize prog).wstrb.getLsbD (w.toNat % 4) = true
      · have hin := hstrb.mp hb
        rw [if_pos hb, if_pos (hiff.mpr hin), hbyte hb, byteOfWord]
        congr 2
        omega
      · rw [if_neg hb, if_neg fun hc => hb (hstrb.mpr (hiff.mp hc))]
    · rw [Function.update_of_ne hsame, if_neg]
      -- an aligned access does not leave its word
      have hle : addr.toNat % 4 + op.size ≤ 4 := by
        cases op <;> simp only [Riscv.StoreOp.size] at hal ⊢ <;> omega
      omega

/-! One instruction. -/

/-- The conditions under which an instruction of the manual completes: it lies in the program, its
data in the data memory, and what comes after it is aligned. -/
structure Completes (memsize : ℕ) (prog : ℕ → Word) (a : Hart) (i : Instr) : Prop where
  aligned : a.pc.toNat % 4 = 0
  pc : a.pc.toNat < ramSize memsize
  word : (a.machine memsize prog).word a.pc = i.encode
  access : ∀ addr n, i.access (a.machine memsize prog) = some (addr, n) → Dram memsize addr n
  target : (i.step 4#32 (a.machine memsize prog)).pc.toNat % 4 = 0

theorem word_eq (hal : a.pc.toNat % 4 = 0) (hpc : a.pc.toNat < ramSize memsize) :
    a.word memsize prog = (a.machine memsize prog).word a.pc := by
  have h4 := ramSize_mod memsize
  have hlt := a.pc.isLt
  have hb : ∀ j < 4, (a.machine memsize prog).mem (a.pc + BitVec.ofNat 32 j) =
      byteOfWord (prog (a.pc.toNat / 4)) j := by
    intro j hj
    have hadd : (a.pc + BitVec.ofNat 32 j).toNat = a.pc.toNat + j := by
      rw [BitVec.toNat_add, BitVec.toNat_ofNat]
      omega
    change (if (a.pc + BitVec.ofNat 32 j).toNat < ramSize memsize then _ else _) = _
    rw [hadd, if_pos (by omega)]
    congr 2 <;> omega
  have h0 := hb 0 (by omega)
  have h1 := hb 1 (by omega)
  have h2 := hb 2 (by omega)
  have h3 := hb 3 (by omega)
  rw [show a.pc + BitVec.ofNat 32 0 = a.pc by simp] at h0
  rw [word, index_iram hpc, Machine.word, h0, h1, h2, h3]
  exact (Iss.wordOfBytes_byteOfWord (prog (a.pc.toNat / 4))).symm

/-- What an instruction leaves, the interrupt that is pending taken into account. -/
def After (memsize : ℕ) (prog : ℕ → Word) (a b : Hart) (s : Machine) : Prop :=
  b.machine memsize prog =
      (match a.pending with
      | none => s
      | some cause => s.goto (handler a.csr.mtvec cause)) ∧
    b.csr =
      (match a.pending with
      | none => a.csr
      | some cause => interruptCsr a.csr cause s.pc)

theorem after_of (hpc : a.pc.toNat % 4 = 0) (ho : opcode (a.word memsize prog) ≠ opSystem)
    (hx : (a.slot .rv32im memsize prog).excp = false) {e : Machine} {next : Word}
    (hn : next = if (a.slot .rv32im memsize prog).branchTaken then
      (a.slot .rv32im memsize prog).target else a.pc + 4#32)
    (he : (a.step .rv32im memsize prog ans).machine memsize prog =
      e.goto (a.step .rv32im memsize prog ans).pc) :
    After memsize prog a (a.step .rv32im memsize prog ans) (e.goto next) := by
  obtain ⟨h1, h2⟩ := step_flow ans hpc ho hx hn
  rw [After, he, h1, h2]
  cases a.pending with
  | none => exact ⟨rfl, rfl⟩
  | some cause => exact ⟨rfl, rfl⟩

theorem illegalWord_encode (i : Instr) : Slot.illegalWord i.encode = false := by
  cases i with
  | lui r imm =>
    obtain ⟨ho, -, -⟩ := Iss.fields_uType r opLui imm
    simp [Slot.illegalWord, Instr.encode, ho, Rv.knownOp]
  | auipc r imm =>
    obtain ⟨ho, -, -⟩ := Iss.fields_uType r opAuipc imm
    simp [Slot.illegalWord, Instr.encode, ho, Rv.knownOp]
  | jal r off =>
    obtain ⟨ho, -, -⟩ := Iss.fields_jType r opJal off
    simp [Slot.illegalWord, Instr.encode, ho, Rv.knownOp]
  | jalr r s1 off =>
    obtain ⟨ho, -, -, -, -⟩ := Iss.fields_iType s1 r 0#3 opJalr off
    simp [Slot.illegalWord, Instr.encode, ho, Rv.knownOp]
  | branch c s1 s2 off =>
    obtain ⟨ho, h3, -, -, -⟩ := Iss.fields_bType s2 s1 c.funct3 opBranch off
    simp only [Slot.illegalWord, Instr.encode, ho, h3]
    cases c <;> rfl
  | load op r s1 off =>
    obtain ⟨ho, -, h3, -, -⟩ := Iss.fields_iType s1 r op.funct3 opLoad off
    simp only [Slot.illegalWord, Instr.encode, ho, h3]
    cases op <;> rfl
  | store op s1 s2 off =>
    obtain ⟨ho, h3, -, -, -⟩ := Iss.fields_sType s2 s1 op.funct3 opStore off
    simp only [Slot.illegalWord, Instr.encode, ho, h3]
    cases op <;> rfl
  | opImm op r s1 imm =>
    obtain ⟨ho, -, -, -, -⟩ := Iss.fields_iType s1 r op.funct3 opArithI imm
    simp [Slot.illegalWord, Instr.encode, ho]
  | shiftImm op r s1 n =>
    obtain ⟨ho, -, -, -, -, -⟩ := Iss.fields_rType op.funct7 n s1 r op.funct3 opArithI
    simp [Slot.illegalWord, Instr.encode, ho]
  | reg op r s1 s2 =>
    obtain ⟨ho, -, -, -, -, h7⟩ := Iss.fields_rType op.funct7 s2 s1 r op.funct3 opArithR
    simp only [Slot.illegalWord, Instr.encode, ho, h7]
    cases op <;> rfl
  | regShift op r s1 s2 =>
    obtain ⟨ho, -, -, -, -, h7⟩ := Iss.fields_rType op.funct7 s2 s1 r op.funct3 opArithR
    simp only [Slot.illegalWord, Instr.encode, ho, h7]
    cases op <;> rfl

theorem not_reserved_reg (op : Riscv.RegOp) (r s1 s2 : BitVec 5) :
    Refine.reserved (Instr.reg op r s1 s2).encode = false := by
  obtain ⟨ho, -, h3, -, -, h7⟩ := Iss.fields_rType op.funct7 s2 s1 r op.funct3 opArithR
  simp only [Refine.reserved, Instr.encode, ho, h3, h7]
  cases op <;> rfl

theorem not_reserved_regShift (op : Riscv.ShiftOp) (r s1 s2 : BitVec 5) :
    Refine.reserved (Instr.regShift op r s1 s2).encode = false := by
  obtain ⟨ho, -, h3, -, -, h7⟩ := Iss.fields_rType op.funct7 s2 s1 r op.funct3 opArithR
  simp only [Refine.reserved, Instr.encode, ho, h3, h7]
  cases op <;> rfl

theorem not_reserved_shiftImm (op : Riscv.ShiftOp) (r s1 n : BitVec 5) :
    Refine.reserved (Instr.shiftImm op r s1 n).encode = false := by
  obtain ⟨ho, -, h3, -, -, h7⟩ := Iss.fields_rType op.funct7 n s1 r op.funct3 opArithI
  simp only [Refine.reserved, Instr.encode, ho, h3, h7]
  cases op <;> rfl

theorem not_reserved_opImm (op : Riscv.ImmOp) (r s1 : BitVec 5) (imm : BitVec 12) :
    Refine.reserved (Instr.opImm op r s1 imm).encode = false := by
  obtain ⟨ho, -, h3, -, -⟩ := Iss.fields_iType s1 r op.funct3 opArithI imm
  simp only [Refine.reserved, Instr.encode, ho, h3]
  cases op <;> rfl

section

variable {i : Instr}

variable (memsize prog) in
theorem instIllExcp_eq (hw : a.word memsize prog = i.encode) :
    (a.slot .rv32im memsize prog).instIllExcp = false := by
  rw [Slot.instIllExcp_eq loaded]
  change Slot.illegalWord (a.word memsize prog) = false
  rw [hw, illegalWord_encode]

variable (ans) in
theorem after_write (hal : a.pc.toNat % 4 = 0) (hw : a.word memsize prog = i.encode)
    (ho : opcode (a.word memsize prog) = opLui ∨ opcode (a.word memsize prog) = opAuipc ∨
      opcode (a.word memsize prog) = opArithI ∨ opcode (a.word memsize prog) = opArithR)
    {v : Word} (hv : v = (a.slot .rv32im memsize prog).result .rv32im) :
    After memsize prog a (a.step .rv32im memsize prog ans)
      (((a.machine memsize prog).set (rd (a.word memsize prog)) v).next 4#32) := by
  have h := matched memsize prog hal
  have hne : opcode (a.word memsize prog) ≠ opJal ∧ opcode (a.word memsize prog) ≠ opJalr ∧
      opcode (a.word memsize prog) ≠ opBranch ∧ opcode (a.word memsize prog) ≠ opLoad ∧
      opcode (a.word memsize prog) ≠ opStore ∧ opcode (a.word memsize prog) ≠ opSystem := by
    rcases ho with ho | ho | ho | ho <;> rw [ho] <;> decide
  obtain ⟨h3, h4, h5, h6, h7, hs⟩ := hne
  have hx := Refine.excp_of (instIllExcp_eq memsize prog hw) (Refine.instAlignExcp_of_ne h h3 h4 h5)
    (Refine.ldAlignExcp_of_ne h h6) (Refine.stAlignExcp_of_ne h h7)
  have hb : (a.slot .rv32im memsize prog).branchTaken = false := by
    simp [Slot.branchTaken, h.ex, decode, h3, h4, h5]
  have hwr : Slot.writesRd (a.word memsize prog) = true := by
    rcases ho with ho | ho | ho | ho <;> simp [Slot.writesRd, ho]
  have hmw : (a.slot .rv32im memsize prog).memwr = false := by
    simp [Slot.memwr, h.ex, decode, h7]
  have hm2 : (a.slot .rv32im memsize prog).mem2reg = false := by simp [h.mem2reg, h6]
  exact after_of (e := (a.machine memsize prog).set (rd (a.word memsize prog)) v) hal hs hx
    (by rw [hb]; rfl) (machine_write ans hx hwr hmw (by rw [hm2, hv]; rfl))

variable (ans) in
theorem after_jump (hal : a.pc.toNat % 4 = 0) (hw : a.word memsize prog = i.encode)
    (ho : opcode (a.word memsize prog) = opJal ∨ opcode (a.word memsize prog) = opJalr)
    {t : Word} (ht : (a.slot .rv32im memsize prog).target = t) (hta : t.toNat % 4 = 0) :
    After memsize prog a (a.step .rv32im memsize prog ans)
      (((a.machine memsize prog).set (rd (a.word memsize prog)) (a.pc + 4#32)).goto t) := by
  have h := matched memsize prog hal
  have hne : opcode (a.word memsize prog) ≠ opLoad ∧ opcode (a.word memsize prog) ≠ opStore ∧
      opcode (a.word memsize prog) ≠ opSystem := by
    rcases ho with ho | ho <;> rw [ho] <;> decide
  obtain ⟨h6, h7, hs⟩ := hne
  have hill := instIllExcp_eq memsize prog hw
  have hia : (a.slot .rv32im memsize prog).instAlignExcp = false := by
    by_contra hc
    have hib : (a.slot .rv32im memsize prog).illBranch = false := by
      simp only [Slot.instIllExcp, loaded.unflushed (p := .rv32im), Bool.not_false, Bool.true_and,
        Bool.or_eq_false_iff] at hill
      exact hill.1.1
    have := (Slot.taken_of_instAlignExcp loaded hal hib (by simpa using hc)).2.2
    rw [ht] at this
    exact this hta
  have hx := Refine.excp_of hill hia (Refine.ldAlignExcp_of_ne h h6)
    (Refine.stAlignExcp_of_ne h h7)
  have hb : (a.slot .rv32im memsize prog).branchTaken = true := by
    rcases ho with ho | ho <;> simp [Slot.branchTaken, h.ex, decode, ho, h.loaded.unflushed]
  have hwr : Slot.writesRd (a.word memsize prog) = true := by
    rcases ho with ho | ho <;> simp [Slot.writesRd, ho]
  have hmw : (a.slot .rv32im memsize prog).memwr = false := by
    simp [Slot.memwr, h.ex, decode, h7]
  have hm2 : (a.slot .rv32im memsize prog).mem2reg = false := by simp [h.mem2reg, h6]
  refine after_of (e := (a.machine memsize prog).set (rd (a.word memsize prog)) (a.pc + 4#32)) hal
    hs hx (by rw [hb, if_pos rfl, ht]) (machine_write ans hx hwr hmw ?_)
  rw [hm2, h.result_jump ho]
  rfl

theorem after_branch (hal : a.pc.toNat % 4 = 0) {c : Riscv.Cond} {s1 s2 : BitVec 5}
    {off : BitVec 12} (hw : a.word memsize prog = (Instr.branch c s1 s2 off).encode)
    (hta : ((Instr.branch c s1 s2 off).step 4#32 (a.machine memsize prog)).pc.toNat % 4 = 0) :
    After memsize prog a (a.step .rv32im memsize prog ans)
      ((Instr.branch c s1 s2 off).step 4#32 (a.machine memsize prog)) := by
  have h := matched memsize prog hal
  obtain ⟨ho, h3, h1, h2, himm⟩ := Iss.fields_bType s2 s1 c.funct3 opBranch off
  have ho' : opcode (a.word memsize prog) = opBranch := by rw [hw]; exact ho
  have hne : opcode (a.word memsize prog) ≠ opLoad ∧ opcode (a.word memsize prog) ≠ opStore ∧
      opcode (a.word memsize prog) ≠ opSystem := by
    rw [ho']
    decide
  obtain ⟨h6, h7, hs⟩ := hne
  have hill := instIllExcp_eq memsize prog hw
  have hop : (a.slot .rv32im memsize prog).ex.aluOp = c.funct3 := by
    rw [h.ex, hw]
    exact h3
  have hs1 : (a.slot .rv32im memsize prog).aluOp1 = (a.machine memsize prog).x s1 := by
    have : (a.slot .rv32im memsize prog).aluOp1 = _ := h.src1
    rw [this, hw]
    exact congrArg (a.machine memsize prog).x h1
  have hs2 : (a.slot .rv32im memsize prog).aluOp2 = (a.machine memsize prog).x s2 := by
    have : (a.slot .rv32im memsize prog).aluOp2 = (a.rv memsize prog).regs
        (rs2 (a.word memsize prog)) := by
      simp [Slot.aluOp2, h.ex, decode, ho', h.src2]
    rw [this, hw]
    exact congrArg (a.machine memsize prog).x h2
  have hcond : (a.slot .rv32im memsize prog).branchCond =
      some (c.holds ((a.machine memsize prog).x s1) ((a.machine memsize prog).x s2)) := by
    rw [Slot.branchCond_eq, hop, hs1, hs2]
    cases c <;> rfl
  have hb : (a.slot .rv32im memsize prog).branchTaken =
      c.holds ((a.machine memsize prog).x s1) ((a.machine memsize prog).x s2) := by
    rw [h.branchTaken_branch ho', hcond]
    rfl
  have ht : (a.slot .rv32im memsize prog).target = a.pc + Instr.offset off := by
    rw [h.target_branch ho', hw]
    exact congrArg (a.pc + ·) himm
  have hia : (a.slot .rv32im memsize prog).instAlignExcp = false := by
    by_contra hc
    have hib : (a.slot .rv32im memsize prog).illBranch = false := by simp [Slot.illBranch, hcond]
    obtain ⟨htk, -, hmis⟩ := Slot.taken_of_instAlignExcp loaded hal hib (by simpa using hc)
    rw [hb] at htk
    rw [Instr.step, if_pos htk] at hta
    rw [ht] at hmis
    exact hmis hta
  have hx := Refine.excp_of hill hia (Refine.ldAlignExcp_of_ne h h6)
    (Refine.stAlignExcp_of_ne h h7)
  have hwr : Slot.writesRd (a.word memsize prog) = false := by simp [Slot.writesRd, ho']
  have hmw : (a.slot .rv32im memsize prog).memwr = false := by
    simp [Slot.memwr, h.ex, decode, h7]
  have hstep : (Instr.branch c s1 s2 off).step 4#32 (a.machine memsize prog) =
      (a.machine memsize prog).goto (if (a.slot .rv32im memsize prog).branchTaken then
        (a.slot .rv32im memsize prog).target else a.pc + 4#32) := by
    rw [Instr.step, hb, ht]
    split <;> rfl
  rw [hstep]
  exact after_of (e := a.machine memsize prog) hal hs hx rfl (machine_goto hwr hmw)

theorem after_load (hm : memsize < 2 ^ 20) (hal : a.pc.toNat % 4 = 0) {op : Riscv.LoadOp}
    {r s1 : BitVec 5} {off : BitVec 12}
    (hw : a.word memsize prog = (Instr.load op r s1 off).encode)
    (hd : Dram memsize ((a.machine memsize prog).x s1 + off.signExtend 32) op.size) :
    After memsize prog a (a.step .rv32im memsize prog ans)
      ((Instr.load op r s1 off).step 4#32 (a.machine memsize prog)) := by
  have h := matched memsize prog hal
  obtain ⟨ho, hrd, h3, h1, himm⟩ := Iss.fields_iType s1 r op.funct3 opLoad off
  have ho' : opcode (a.word memsize prog) = opLoad := by rw [hw]; exact ho
  have hne : opcode (a.word memsize prog) ≠ opJal ∧ opcode (a.word memsize prog) ≠ opJalr ∧
      opcode (a.word memsize prog) ≠ opBranch ∧ opcode (a.word memsize prog) ≠ opStore ∧
      opcode (a.word memsize prog) ≠ opSystem := by
    rw [ho']
    decide
  obtain ⟨hj, hjr, hbr, h7, hs⟩ := hne
  have hop : (a.slot .rv32im memsize prog).ex.aluOp = op.funct3 := by
    rw [h.ex, hw]
    exact h3
  have haddr : (a.slot .rv32im memsize prog).memaddr =
      (a.machine memsize prog).x s1 + off.signExtend 32 := by
    rw [h.memaddr_load ho', hw]
    exact congrArg₂ (· + ·) (congrArg (a.machine memsize prog).x h1) himm
  have hld : (a.slot .rv32im memsize prog).ldAlignExcp = false := by
    by_contra hc
    have hlen := (Refine.loadLen_of_ldAlign h (by simpa using hc)).2
    have hsz : (Rv.width op.funct3).toNat = op.size := by cases op <;> rfl
    rw [haddr, hw, show func3 (Instr.load op r s1 off).encode = op.funct3 from h3,
      Rv.loadLen_of_aligned (by cases op <;> rfl) (by rw [hsz]; exact hd.aligned)] at hlen
    cases hlen
  have hx := Refine.excp_of (instIllExcp_eq memsize prog hw) (Refine.instAlignExcp_of_ne h hj hjr hbr) hld
    (Refine.stAlignExcp_of_ne h h7)
  have hb : (a.slot .rv32im memsize prog).branchTaken = false := by
    simp [Slot.branchTaken, h.ex, decode, hj, hjr, hbr]
  have hwr : Slot.writesRd (a.word memsize prog) = true := by simp [Slot.writesRd, ho']
  have hmw : (a.slot .rv32im memsize prog).memwr = false := by
    simp [Slot.memwr, h.ex, decode, h7]
  have hm2 : (a.slot .rv32im memsize prog).mem2reg = true := by simp [h.mem2reg, ho']
  have hr : rd (a.word memsize prog) = r := by rw [hw]; exact hrd
  have hmach := machine_write ans hx hwr hmw (v := op.value (a.machine memsize prog)
    ((a.machine memsize prog).x s1 + off.signExtend 32))
    (by rw [hm2, if_pos rfl, hop, haddr, load_value hm op hd])
  rw [hr] at hmach
  exact after_of hal hs hx (by rw [hb]; rfl) hmach

theorem after_store (hm : memsize < 2 ^ 20) (hal : a.pc.toNat % 4 = 0) {op : Riscv.StoreOp}
    {s1 s2 : BitVec 5} {off : BitVec 12}
    (hw : a.word memsize prog = (Instr.store op s1 s2 off).encode)
    (hd : Dram memsize ((a.machine memsize prog).x s1 + off.signExtend 32) op.size) :
    After memsize prog a (a.step .rv32im memsize prog ans)
      ((Instr.store op s1 s2 off).step 4#32 (a.machine memsize prog)) := by
  have h := matched memsize prog hal
  obtain ⟨ho, h3, h1, h2, himm⟩ := Iss.fields_sType s2 s1 op.funct3 opStore off
  have ho' : opcode (a.word memsize prog) = opStore := by rw [hw]; exact ho
  have hne : opcode (a.word memsize prog) ≠ opJal ∧ opcode (a.word memsize prog) ≠ opJalr ∧
      opcode (a.word memsize prog) ≠ opBranch ∧ opcode (a.word memsize prog) ≠ opLoad ∧
      opcode (a.word memsize prog) ≠ opSystem := by
    rw [ho']
    decide
  obtain ⟨hj, hjr, hbr, h6, hs⟩ := hne
  have hop : (a.slot .rv32im memsize prog).ex.aluOp = op.funct3 := by
    rw [h.ex, hw]
    exact h3
  have haddr : (a.slot .rv32im memsize prog).memaddr =
      (a.machine memsize prog).x s1 + off.signExtend 32 := by
    rw [h.memaddr_store ho', hw]
    exact congrArg₂ (· + ·) (congrArg (a.machine memsize prog).x h1) himm
  have hval : (a.slot .rv32im memsize prog).aluOp2 = (a.machine memsize prog).x s2 := by
    have : (a.slot .rv32im memsize prog).aluOp2 = (a.rv memsize prog).regs
        (rs2 (a.word memsize prog)) := by
      simp [Slot.aluOp2, h.ex, decode, ho', h.src2]
    rw [this, hw]
    exact congrArg (a.machine memsize prog).x h2
  have hst : (a.slot .rv32im memsize prog).stAlignExcp = false := by
    by_contra hc
    have hlen := (Refine.storeLen_of_stAlign h (by simpa using hc)).2
    have hsz : (Rv.width op.funct3).toNat = op.size := by cases op <;> rfl
    rw [haddr, hw, show func3 (Instr.store op s1 s2 off).encode = op.funct3 from h3,
      Rv.storeLen_of_aligned (by cases op <;> rfl) (by rw [hsz]; exact hd.aligned)] at hlen
    cases hlen
  have hx := Refine.excp_of (instIllExcp_eq memsize prog hw) (Refine.instAlignExcp_of_ne h hj hjr hbr)
    (Refine.ldAlignExcp_of_ne h h6) hst
  have hb : (a.slot .rv32im memsize prog).branchTaken = false := by
    simp [Slot.branchTaken, h.ex, decode, hj, hjr, hbr]
  have hwr : Slot.writesRd (a.word memsize prog) = false := by simp [Slot.writesRd, ho']
  have hmw : (a.slot .rv32im memsize prog).memwr = true := by
    rw [Slot.memwr_eq loaded, hst]
    change (opcode (a.word memsize prog) == opStore && !false) = true
    rw [ho']
    rfl
  exact after_of hal hs hx (by rw [hb]; rfl) (machine_put hm op hwr hmw hop haddr hval hd)

/-- The core executes every instruction of RV32IM as the manual says, and takes an interrupt, if one
is pending, between it and what comes after it. -/
theorem step_instr (hm : memsize < 2 ^ 20) (h : Completes memsize prog a i) :
    After memsize prog a (a.step .rv32im memsize prog ans)
      (i.step 4#32 (a.machine memsize prog)) := by
  have hal := h.aligned
  have hw : a.word memsize prog = i.encode := (word_eq hal h.pc).trans h.word
  have hmt := matched memsize prog hal
  have hreg : ∀ n, (a.rv memsize prog).regs n = (a.machine memsize prog).x n := fun n => rfl
  cases i with
  | lui r imm =>
    obtain ⟨ho, hrd, himm⟩ := Iss.fields_uType r opLui imm
    have ho' : opcode (a.word memsize prog) = opLui := by rw [hw]; exact ho
    have hv : imm ++ 0#12 = (a.slot .rv32im memsize prog).result .rv32im := by
      have : (a.slot .rv32im memsize prog).result .rv32im = Iss.immU (a.word memsize prog) := by
        simp [Slot.result, hmt.ex, decode, immOf, ho', Iss.immU_eq]
      rw [this, hw]
      exact himm.symm
    have := after_write ans hal hw (Or.inl ho') hv
    rwa [hw, show rd (Instr.lui r imm).encode = r from hrd] at this
  | auipc r imm =>
    obtain ⟨ho, hrd, himm⟩ := Iss.fields_uType r opAuipc imm
    have ho' : opcode (a.word memsize prog) = opAuipc := by rw [hw]; exact ho
    have hv : a.pc + (imm ++ 0#12) = (a.slot .rv32im memsize prog).result .rv32im := by
      have : (a.slot .rv32im memsize prog).result .rv32im =
          a.pc + Iss.immU (a.word memsize prog) := by
        simp [Slot.result, decode, immOf, ho', Iss.immU_eq, slot]
      rw [this, hw]
      exact congrArg (a.pc + ·) himm.symm
    have := after_write ans hal hw (Or.inr (Or.inl ho')) hv
    rwa [hw, show rd (Instr.auipc r imm).encode = r from hrd] at this
  | jal r off =>
    obtain ⟨ho, hrd, himm⟩ := Iss.fields_jType r opJal off
    have ho' : opcode (a.word memsize prog) = opJal := by rw [hw]; exact ho
    have ht : (a.slot .rv32im memsize prog).target = a.pc + Instr.offset off := by
      rw [hmt.target_jal ho', hw]
      have himm' : Iss.immJ (Instr.jal r off).encode = Instr.offset off := himm
      rw [himm']
      exact Rv.pc_offset_even (d := a.rv memsize prog) (by change a.pc.toNat % 2 = 0; omega) off
    have := after_jump ans hal hw (Or.inl ho') ht h.target
    rwa [hw, show rd (Instr.jal r off).encode = r from hrd] at this
  | jalr r s1 off =>
    obtain ⟨ho, hrd, -, h1, himm⟩ := Iss.fields_iType s1 r 0#3 opJalr off
    have ho' : opcode (a.word memsize prog) = opJalr := by rw [hw]; exact ho
    have ht : (a.slot .rv32im memsize prog).target =
        ((a.machine memsize prog).x s1 + off.signExtend 32) &&& ~~~1#32 := by
      rw [hmt.target_jalr ho', hw, hreg, show rs1 (Instr.jalr r s1 off).encode = s1 from h1,
        show Iss.immI (Instr.jalr r s1 off).encode = off.signExtend 32 from himm]
    have := after_jump ans hal hw (Or.inr ho') ht h.target
    rwa [hw, show rd (Instr.jalr r s1 off).encode = r from hrd] at this
  | branch c s1 s2 off => exact after_branch hal hw h.target
  | load op r s1 off => exact after_load hm hal hw (h.access _ _ rfl)
  | store op s1 s2 off => exact after_store hm hal hw (h.access _ _ rfl)
  | opImm op r s1 imm =>
    obtain ⟨ho, hrd, -, -, -⟩ := Iss.fields_iType s1 r op.funct3 opArithI imm
    have ho' : opcode (a.word memsize prog) = opArithI := by rw [hw]; exact ho
    have hv := hmt.result_arithI ho' (by rw [hw]; exact not_reserved_opImm op r s1 imm)
    rw [hw, show (Instr.opImm op r s1 imm).encode = Riscv.iType imm s1 op.funct3 r opArithI from rfl,
      Rv.arithI_opImm rfl, Option.some.injEq] at hv
    have := after_write ans hal hw (Or.inr (Or.inr (Or.inl ho'))) hv
    rwa [hw, show rd (Instr.opImm op r s1 imm).encode = r from hrd] at this
  | shiftImm op r s1 n =>
    obtain ⟨ho, hrd, -, -, -, -⟩ := Iss.fields_rType op.funct7 n s1 r op.funct3 opArithI
    have ho' : opcode (a.word memsize prog) = opArithI := by rw [hw]; exact ho
    have hv := hmt.result_arithI ho' (by rw [hw]; exact not_reserved_shiftImm op r s1 n)
    rw [hw, show (Instr.shiftImm op r s1 n).encode =
      Riscv.rType op.funct7 n s1 op.funct3 r opArithI from rfl, Rv.arithI_shiftImm rfl,
      Option.some.injEq] at hv
    have := after_write ans hal hw (Or.inr (Or.inr (Or.inl ho'))) hv
    rwa [hw, show rd (Instr.shiftImm op r s1 n).encode = r from hrd] at this
  | reg op r s1 s2 =>
    obtain ⟨ho, hrd, -, -, -, h7⟩ := Iss.fields_rType op.funct7 s2 s1 r op.funct3 opArithR
    have ho' : opcode (a.word memsize prog) = opArithR := by rw [hw]; exact ho
    have hleg : isLegal .rv32im (a.word memsize prog) = true := by
      simp only [isLegal, hw, Instr.encode, ho, h7]
      cases op <;> rfl
    have hv := hmt.result_arithR ho' hleg (by rw [hw]; exact not_reserved_reg op r s1 s2)
    rw [hw, show (Instr.reg op r s1 s2).encode =
      Riscv.rType op.funct7 s2 s1 op.funct3 r opArithR from rfl, Rv.arithR_reg rfl op fun _ => rfl,
      Option.some.injEq] at hv
    have := after_write ans hal hw (Or.inr (Or.inr (Or.inr ho'))) hv
    rwa [hw, show rd (Instr.reg op r s1 s2).encode = r from hrd] at this
  | regShift op r s1 s2 =>
    obtain ⟨ho, hrd, -, -, -, h7⟩ := Iss.fields_rType op.funct7 s2 s1 r op.funct3 opArithR
    have ho' : opcode (a.word memsize prog) = opArithR := by rw [hw]; exact ho
    have hleg : isLegal .rv32im (a.word memsize prog) = true := by
      simp only [isLegal, hw, Instr.encode, ho, h7]
      cases op <;> rfl
    have hv := hmt.result_arithR ho' hleg (by rw [hw]; exact not_reserved_regShift op r s1 s2)
    rw [hw, show (Instr.regShift op r s1 s2).encode =
      Riscv.rType op.funct7 s2 s1 op.funct3 r opArithR from rfl, Rv.arithR_regShift rfl,
      Option.some.injEq] at hv
    have := after_write ans hal hw (Or.inr (Or.inr (Or.inr ho'))) hv
    rwa [hw, show rd (Instr.regShift op r s1 s2).encode = r from hrd] at this

end

end Hart

namespace Soc

/-- Over a whole run, every instruction of RV32IM that reaches stage 2 does what the manual says,
whatever the pipeline holds; a pending interrupt comes right after it. -/
theorem core_executes (memsize : ℕ) (hm : memsize < 2 ^ 20) (m : Word) (prog data : ℕ → Word)
    (d : Word) (k : ℕ) (host : ℕ → HostPins) (hs : ∀ t, (host t).stall = decide (t < k)) :
    let s := boot .rv32im m prog data d
    ∃ c : ℕ → ℕ, c 0 = startup k ∧ StrictMono c ∧
      (∀ t, startup k ≤ t →
        ((s.run .rv32im memsize host t).top.core.exFlush = false ↔ ∃ n, t = c n)) ∧
      ∀ n (i : Instr), Hart.Completes memsize prog (s.view .rv32im memsize host (c n)) i →
        Hart.After memsize prog (s.view .rv32im memsize host (c n))
          (s.view .rv32im memsize host (c (n + 1)))
          (i.step 4#32 ((s.view .rv32im memsize host (c n)).machine memsize prog)) := by
  intro s
  obtain ⟨c, stale, h0, hmono, hiff, hrun⟩ := sequential .rv32im memsize m prog data d k host hs
  refine ⟨c, h0, hmono, hiff, fun n i hi => ?_⟩
  have hnext := hrun (n + 1)
  rw [Hart.run, ← hrun n] at hnext
  rw [hnext]
  exact Hart.step_instr hm hi

theorem core_executes_addi :
    let s := boot .rv32im 0#32 (fun _ => 0x00500093#32) (fun _ => 0#32) 0#32
    ∃ c : ℕ → ℕ, c 0 = 3 ∧
      ((s.view .rv32im 1 (fun _ => ⟨false, 0#32⟩) (c 1)).machine 1
        (fun _ => 0x00500093#32)).x 1#5 = 5#32 := by
  obtain ⟨c, h0, -, -, hex⟩ := core_executes 1 (by decide) 0#32 (fun _ => 0x00500093#32)
    (fun _ => 0#32) 0#32 0 (fun _ => ⟨false, 0#32⟩) fun _ => rfl
  have h := hex 0 (.opImm .addi 1#5 0#5 5#12)
  rw [h0] at h
  have hx := (h ⟨by decide +kernel, by decide +kernel, by decide +kernel,
    fun _ _ ha => (by cases ha), by decide +kernel⟩).1
  have hp : ((boot .rv32im 0#32 (fun _ => 0x00500093#32) (fun _ => 0#32) 0#32).view .rv32im 1
      (fun _ => ⟨false, 0#32⟩) (startup 0)).pending = none := by decide +kernel
  rw [hp] at hx
  refine ⟨c, h0, ?_⟩
  change Machine.x (Hart.machine 1 _ (view _ _ _ _ (c (0 + 1)))) _ = _
  rw [hx]
  decide +kernel

end Soc

end Srv32.Rtl

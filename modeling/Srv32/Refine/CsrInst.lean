import Srv32.Refine.Legality

/-! The CSR instructions. Each model reads one register of its CSR file and writes that register
or none. -/

namespace Srv32

/-- The CSRs an instruction can write; the other supported ones are the identification registers
and the counters. -/
def csrWritable : List (BitVec 12) :=
  [csrMscratch, csrMstatus, csrMstatush, csrMisa, csrMie, csrMip, csrMtvec, csrMepc, csrMcause,
    csrMtval]

namespace Rtl.Csr

/-- `f` applied to the register `n`; read-only and unknown numbers are left alone. -/
def modify (c : Csr) (n : BitVec 12) (f : Word → Word) : Csr :=
  if n = csrMscratch then { c with mscratch := f c.mscratch }
  else if n = csrMstatus then { c with mstatus := f c.mstatus }
  else if n = csrMstatush then { c with mstatush := f c.mstatush }
  else if n = csrMisa then { c with misa := f c.misa }
  else if n = csrMie then { c with mie := f c.mie }
  else if n = csrMip then { c with mip := f c.mip }
  else if n = csrMtvec then { c with mtvec := f c.mtvec }
  else if n = csrMepc then { c with mepc := f c.mepc }
  else if n = csrMcause then { c with mcause := f c.mcause }
  else if n = csrMtval then { c with mtval := f c.mtval }
  else c

theorem modify_of_not_mem (c : Csr) {n : BitVec 12} (f : Word → Word) (h : n ∉ csrWritable) :
    c.modify n f = c := by
  simp only [csrWritable, List.mem_cons, List.not_mem_nil, or_false, not_or] at h
  simp only [modify, h, if_false]

theorem read_modify (c : Csr) (cycle instret : BitVec 64) (n m : BitVec 12) (f : Word → Word) :
    (c.modify n f).read cycle instret m =
      if m = n ∧ n ∈ csrWritable then (c.read cycle instret n).map f
      else c.read cycle instret m := by
  by_cases h : n ∈ csrWritable
  · by_cases hm : m = n
    · subst hm
      rw [if_pos ⟨rfl, h⟩]
      simp only [csrWritable, List.mem_cons, List.not_mem_nil, or_false] at h
      rcases h with rfl | rfl | rfl | rfl | rfl | rfl | rfl | rfl | rfl | rfl <;> rfl
    · rw [if_neg (by simp [hm])]
      simp only [csrWritable, List.mem_cons, List.not_mem_nil, or_false] at h
      rcases h with rfl | rfl | rfl | rfl | rfl | rfl | rfl | rfl | rfl | rfl <;>
        simp [modify, read, hm]
  · rw [modify_of_not_mem c f h, if_neg (by simp [h])]

end Rtl.Csr

namespace Iss.Csr

/-- `csr_rw` without an update. -/
def read (c : Csr) (n : BitVec 12) : Word := (c.rw n opCsrrs 0#32 false).1

def modify (c : Csr) (n : BitVec 12) (f : Word → Word) : Csr :=
  if n = csrMscratch then { c with mscratch := f c.mscratch }
  else if n = csrMstatus then { c with mstatus := f c.mstatus }
  else if n = csrMstatush then { c with mstatush := f c.mstatush }
  else if n = csrMisa then { c with misa := f c.misa }
  else if n = csrMie then { c with mie := f c.mie }
  else if n = csrMip then { c with mip := f c.mip }
  else if n = csrMtvec then { c with mtvec := f c.mtvec }
  else if n = csrMepc then { c with mepc := f c.mepc }
  else if n = csrMcause then { c with mcause := f c.mcause }
  else if n = csrMtval then { c with mtval := f c.mtval }
  else c

theorem rw_eq (c : Csr) {n : BitVec 12} (mode : BitVec 3) (val : Word) (update : Bool)
    (h : n ∈ Rtl.Slot.csrNumbers) : c.rw n mode val update =
      (c.read n, true, c.modify n fun old => updateCsr update mode old val) := by
  simp only [Rtl.Slot.csrNumbers, List.mem_cons, List.not_mem_nil, or_false] at h
  rcases h with rfl | rfl | rfl | rfl | rfl | rfl | rfl | rfl | rfl | rfl | rfl | rfl | rfl |
    rfl | rfl | rfl | rfl | rfl <;> rfl

theorem modify_of_not_mem (c : Csr) {n : BitVec 12} (f : Word → Word) (h : n ∉ csrWritable) :
    c.modify n f = c := by
  simp only [csrWritable, List.mem_cons, List.not_mem_nil, or_false, not_or] at h
  simp only [modify, h, if_false]

theorem read_chain (c : Csr) (n : BitVec 12) : c.read n =
    if n = csrRdcycle then Counter.lo (c.cycle - 1#64)
    else if n = csrRdcycleh then Counter.hi (c.cycle - 1#64)
    else if n = csrRdinstret then Counter.lo (c.instret - 1#64)
    else if n = csrRdinstreth then Counter.hi (c.instret - 1#64)
    else if n = csrMvendorid then c.mvendorid
    else if n = csrMarchid then c.marchid
    else if n = csrMimpid then c.mimpid
    else if n = csrMhartid then c.mhartid
    else if n = csrMscratch then c.mscratch
    else if n = csrMstatus then c.mstatus
    else if n = csrMstatush then c.mstatush
    else if n = csrMisa then c.misa
    else if n = csrMie then c.mie
    else if n = csrMip then c.mip
    else if n = csrMtvec then c.mtvec
    else if n = csrMepc then c.mepc
    else if n = csrMcause then c.mcause
    else if n = csrMtval then c.mtval
    else 0#32 := by
  simp only [read, rw, apply_ite Prod.fst]

theorem read_modify (c : Csr) (n m : BitVec 12) (f : Word → Word) :
    (c.modify n f).read m = if m = n ∧ n ∈ csrWritable then f (c.read n) else c.read m := by
  by_cases h : n ∈ csrWritable
  · by_cases hm : m = n
    · subst hm
      rw [if_pos ⟨rfl, h⟩]
      simp only [csrWritable, List.mem_cons, List.not_mem_nil, or_false] at h
      rcases h with rfl | rfl | rfl | rfl | rfl | rfl | rfl | rfl | rfl | rfl <;> rfl
    · rw [if_neg (by simp [hm])]
      simp only [csrWritable, List.mem_cons, List.not_mem_nil, or_false] at h
      rcases h with rfl | rfl | rfl | rfl | rfl | rfl | rfl | rfl | rfl | rfl <;>
        simp [modify, read_chain, hm]
  · rw [modify_of_not_mem c f h, if_neg (by simp [h])]

theorem modify_counters (c : Csr) (n : BitVec 12) (f : Word → Word) :
    (c.modify n f).cycle = c.cycle ∧ (c.modify n f).instret = c.instret := by
  unfold modify
  iterate 10
    apply iteInduction (motive := fun d : Csr => d.cycle = c.cycle ∧ d.instret = c.instret)
    · intro
      exact ⟨rfl, rfl⟩
    intro
  exact ⟨rfl, rfl⟩

@[simp] theorem modify_cycle (c : Csr) (n : BitVec 12) (f : Word → Word) :
    (c.modify n f).cycle = c.cycle := (modify_counters c n f).1

@[simp] theorem modify_instret (c : Csr) (n : BitVec 12) (f : Word → Word) :
    (c.modify n f).instret = c.instret := (modify_counters c n f).2

/-- A function that keeps every value changes nothing. -/
theorem modify_id (c : Csr) (n : BitVec 12) : c.modify n (fun old => old) = c := by
  simp [modify]

end Iss.Csr

end Srv32

namespace Srv32.Refine

open Iss (Rv Host srv32Step rvOkay)
open Rtl (Slot)

/-- The register `n` is known to be the same in the two models. -/
def Known.Knows (k : Known) (n : BitVec 12) : Prop :=
  (n = csrMscratch → k.mscratch = true) ∧ (n = csrMepc → k.mepc = true) ∧
    (n = csrMtval → k.mtval = true)

/-- A set or clear with `rs1` field 0 does not write. -/
def csrWrites (inst : Word) : Bool :=
  !(func3 inst != opCsrrw && func3 inst != opCsrrwi && rs1 inst == 0#5)

/-- Write, set and clear. -/
def csrNew (op : BitVec 3) (old v : Word) : Word :=
  if op.extractLsb' 0 2 = 1#2 then v
  else if op.extractLsb' 0 2 = 2#2 then old ||| v
  else old &&& ~~~v

/-- The operand: a register, or the `rs1` field. -/
def csrArg (rv : Rv) (inst : Word) : Word :=
  if (func3 inst).getLsbD 2 then (rs1 inst).setWidth 32 else rv.regs (rs1 inst)

instance decidableWritable (n : BitVec 12) : Decidable (n ∈ csrWritable) :=
  decidable_of_iff (csrWritable.contains n = true) List.contains_iff_mem

/-- What the addressed register holds afterwards. -/
def csrAfter (rv : Rv) (inst : Word) : Word :=
  if csrWrites inst = true ∧ imm12 inst ∈ csrWritable then
    csrNew (func3 inst) (rv.csr.read (imm12 inst)) (csrArg rv inst)
  else rv.csr.read (imm12 inst)

variable {k : Known} {x : Slot} {rv : Rv} {inst : Word} {host : Host}

theorem execNext_csr (ho : opcode inst = opSystem) (h0 : func3 inst ≠ opEcall)
    (h4 : func3 inst ≠ 4#3) (hn : imm12 inst ∈ Slot.csrNumbers) :
    rv.execNext .rv32im inst host false = (.code 0#32, { rv with
      pc := rv.pc + 4#32
      regs := Function.update rv.regs (rd inst) (rv.csr.read (imm12 inst))
      csr := if csrWrites inst then
          rv.csr.modify (imm12 inst) fun old => csrNew (func3 inst) old (csrArg rv inst)
        else rv.csr }) := by
  have he : rv.exec .rv32im inst host false = _ := Rv.exec_csr ho h0
  have hop : ∃ mode val update, rv.csrOperand .rv32im inst = some (mode, val, update) ∧
      (fun old => Iss.updateCsr update mode old val) = fun old =>
        if csrWrites inst then csrNew (func3 inst) old (csrArg rv inst) else old := by
    rcases Bits.cases3 (func3 inst) with h | h | h | h | h | h | h | h
    · exact absurd h h0
    · exact ⟨opCsrrw, rv.regs (rs1 inst), true, by simp [Rv.csrOperand, h], by
        funext old
        simp [Iss.updateCsr, csrWrites, csrNew, csrArg, h]⟩
    · exact ⟨opCsrrs, rv.regs (rs1 inst), rs1 inst != 0#5, by simp [Rv.csrOperand, h], by
        funext old
        simp [Iss.updateCsr, csrWrites, csrNew, csrArg, h]⟩
    · exact ⟨opCsrrc, rv.regs (rs1 inst), rs1 inst != 0#5, by simp [Rv.csrOperand, h], by
        funext old
        simp [Iss.updateCsr, csrWrites, csrNew, csrArg, h]⟩
    · exact absurd h h4
    · exact ⟨opCsrrw, (rs1 inst).setWidth 32, true, by simp [Rv.csrOperand, h], by
        funext old
        simp [Iss.updateCsr, csrWrites, csrNew, csrArg, h]⟩
    · exact ⟨opCsrrs, (rs1 inst).setWidth 32, rs1 inst != 0#5, by simp [Rv.csrOperand, h], by
        funext old
        simp [Iss.updateCsr, csrWrites, csrNew, csrArg, h]⟩
    · exact ⟨opCsrrc, (rs1 inst).setWidth 32, rs1 inst != 0#5, by simp [Rv.csrOperand, h], by
        funext old
        simp [Iss.updateCsr, csrWrites, csrNew, csrArg, h]⟩
  obtain ⟨mode, val, update, hop, hf⟩ := hop
  rw [Rv.execNext, he, Rv.execCsr, hop]
  simp only [Iss.Csr.rw_eq _ mode val update hn, hf]
  cases csrWrites inst with
  | true => simp [Rv.linkPc]
  | false => simp [Rv.linkPc, Iss.Csr.modify_id]

/-- A CSR instruction the core accepts neither traps nor redirects, and applies its operation to
the register it addresses. -/
structure CsrStep (x : Slot) : Prop where
  excp : x.excp = false
  trap : x.trap = false
  branchTaken : x.branchTaken = false
  alu2reg : x.alu2reg = true
  result : x.result .rv32im = x.csrRead
  read : x.csrRead = (x.csr.read x.cycle x.instret (imm12 x.insn)).getD 0#32
  csrNext : x.csrNext =
    if csrWrites x.insn then x.csr.modify (imm12 x.insn) x.csrOp else x.csr

theorem csrStep (hl : x.Loaded .rv32im) (hpc : x.pc.toNat % 4 = 0)
    (ho : opcode x.insn = opSystem) (h0 : func3 x.insn ≠ opEcall)
    (hn : imm12 x.insn ∈ Slot.csrNumbers) : CsrStep x := by
  have himm : x.ex.imm.extractLsb' 0 12 = imm12 x.insn := by
    rw [hl.decoded]
    exact Slot.immOf_system ho
  have hcsr : x.ex.csr = true := by simp [hl.decoded, Rtl.decode, ho, h0]
  have hwr : x.ex.csrWr = csrWrites x.insn := by
    simp [hl.decoded, Rtl.decode, ho, h0, csrWrites]
  have hill : x.instIllExcp = false := by
    rw [Slot.instIllExcp_eq hl]
    simp [Slot.illegalWord, ho, hn]
  have ha : x.instAlignExcp = false :=
    Slot.instAlignExcp_of_no_jump hl hpc (by simp [hl.decoded, Rtl.decode, ho])
      (by simp [hl.decoded, Rtl.decode, ho]) (by simp [hl.decoded, Rtl.decode, ho])
  have hld : x.ldAlignExcp = false := by simp [Slot.ldAlignExcp, hl.mem2reg, ho]
  have hst : x.stAlignExcp = false := by simp [Slot.stAlignExcp, hl.decoded, Rtl.decode, ho]
  have hop : x.ex.systemOp = true := by simp [hl.decoded, Rtl.decode, ho]
  have hsys : x.systemcall = false := by simp [Slot.systemcall_eq_env hl, h0]
  have ht : x.timerInt = false ∧ x.swInt = false ∧ x.extInt = false := by
    simp [Slot.timerInt, Slot.swInt, Slot.extInt, Slot.irqGate, hop]
  have hx : x.excp = false := by simp [Slot.excp, hill, ha, hld, hst]
  refine ⟨hx, ?_, ?_, ?_, ?_, ?_, ?_⟩
  · simp [Slot.trap, hx, ht, hsys]
  · simp [Slot.branchTaken, hl.decoded, Rtl.decode, ho]
  · simp [Slot.alu2reg, hcsr]
  · simp [Slot.result, hl.decoded, Rtl.decode, ho, h0]
  · rw [Slot.csrRead, hcsr, hl.unflushed, Slot.csrValue, himm]
    rfl
  · rw [Slot.csrNext, if_neg (by simp [hl.unflushed]), ← hwr]
    simp only [Slot.csrFile, Slot.trapCsr, hill, ha, hld, hst, ht, hsys, Bool.false_eq_true,
      if_false, himm]
    cases x.ex.csrWr with
    | false => rfl
    | true =>
      simp only [if_true, Slot.trapCsrWrite, himm]
      generalize imm12 x.insn = n at hn
      simp only [Slot.csrNumbers, List.mem_cons, List.not_mem_nil, or_false] at hn
      rcases hn with rfl | rfl | rfl | rfl | rfl | rfl | rfl | rfl | rfl | rfl | rfl | rfl | rfl |
        rfl | rfl | rfl | rfl | rfl <;> rfl

theorem SameCsr.modify {c : Rtl.Csr} {d : Iss.Csr} (h : SameCsr k c d) (n : BitVec 12)
    (f : Word → Word) : SameCsr k (c.modify n f) (d.modify n f) := by
  by_cases hn : n ∈ csrWritable
  · simp only [csrWritable, List.mem_cons, List.not_mem_nil, or_false] at hn
    obtain ⟨h1, h2, h3, h4, h5, h6, h7, h8, h9, h10, h11, h12, h13, h14⟩ := h
    have h12' := fun hk => congrArg f (h12 hk)
    have h13' := fun hk => congrArg f (h13 hk)
    have h14' := fun hk => congrArg f (h14 hk)
    rcases hn with rfl | rfl | rfl | rfl | rfl | rfl | rfl | rfl | rfl | rfl
    · exact ⟨h1, h2, h3, h4, h5, h6, h7, h8, h9, h10, h11, h12', h13, h14⟩
    · exact ⟨h1, h2, h3, h4, congrArg f h5, h6, h7, h8, h9, h10, h11, h12, h13, h14⟩
    · exact ⟨h1, h2, h3, h4, h5, congrArg f h6, h7, h8, h9, h10, h11, h12, h13, h14⟩
    · exact ⟨h1, h2, h3, h4, h5, h6, congrArg f h7, h8, h9, h10, h11, h12, h13, h14⟩
    · exact ⟨h1, h2, h3, h4, h5, h6, h7, congrArg f h8, h9, h10, h11, h12, h13, h14⟩
    · exact ⟨h1, h2, h3, h4, h5, h6, h7, h8, congrArg f h9, h10, h11, h12, h13, h14⟩
    · exact ⟨h1, h2, h3, h4, h5, h6, h7, h8, h9, congrArg f h10, h11, h12, h13, h14⟩
    · exact ⟨h1, h2, h3, h4, h5, h6, h7, h8, h9, h10, h11, h12, h13', h14⟩
    · exact ⟨h1, h2, h3, h4, h5, h6, h7, h8, h9, h10, congrArg f h11, h12, h13, h14⟩
    · exact ⟨h1, h2, h3, h4, h5, h6, h7, h8, h9, h10, h11, h12, h13, h14'⟩
  · rwa [Rtl.Csr.modify_of_not_mem c f hn, Iss.Csr.modify_of_not_mem d f hn]

namespace Matched

theorem read_eq {c : Rtl.Csr} {d : Iss.Csr} (h : SameCsr k c d) {n : BitVec 12}
    (hn : n ∈ Slot.csrNumbers) (hk : k.Knows n) :
    c.read (d.cycle - 1#64) (d.instret - 1#64) n = some (d.read n) := by
  obtain ⟨hks, hke, hkv⟩ := hk
  simp only [Slot.csrNumbers, List.mem_cons, List.not_mem_nil, or_false] at hn
  rcases hn with rfl | rfl | rfl | rfl | rfl | rfl | rfl | rfl | rfl | rfl | rfl | rfl | rfl |
    rfl | rfl | rfl | rfl | rfl
  · exact congrArg some h.mvendorid.symm
  · exact congrArg some h.marchid.symm
  · exact congrArg some h.mimpid.symm
  · exact congrArg some h.mhartid.symm
  · exact congrArg some (h.mscratch (hks rfl))
  · exact congrArg some h.mstatus
  · exact congrArg some h.mstatush
  · exact congrArg some h.misa
  · exact congrArg some h.mie
  · exact congrArg some h.mip
  · exact congrArg some h.mtvec
  · exact congrArg some (h.mepc (hke rfl))
  · exact congrArg some h.mcause
  · exact congrArg some (h.mtval (hkv rfl))
  all_goals rfl

theorem csrOp_eq (h : Matched k x rv inst) (h0 : func3 inst ≠ opEcall) (h4 : func3 inst ≠ 4#3) :
    x.csrOp = fun old => csrNew (func3 inst) old (csrArg rv inst) := by
  have hd : x.csrData = csrArg rv inst := by
    simp only [Slot.csrData, h.ex, Rtl.decode, h.src1]
    rfl
  have hop : x.ex.aluOp = func3 inst := by simp [h.ex, Rtl.decode]
  funext old
  rw [Slot.csrOp, hd, hop]
  rcases Bits.cases3 (func3 inst) with h | h | h | h | h | h | h | h <;> simp_all [csrNew]

end Matched

/-- Both models' effect of a CSR instruction `inst` on a supported number: in the simulator from
`d` to `r`, in the core on the slot `x`. -/
structure CsrAgree (d : Rv) (inst : Word) (r : Iss.Ret × Rv) (x : Slot) : Prop where
  returns : r.1 = .code rvOkay
  regs : r.2.regs = Function.update d.regs (rd inst) (d.csr.read (imm12 inst))
  alu2reg : x.alu2reg = true
  excp : x.excp = false
  dstSel : x.ex.dstSel = rd inst
  result : x.result .rv32im = d.csr.read (imm12 inst)
  new : r.2.csr.read (imm12 inst) = csrAfter d inst
  newRtl : x.csrNext.read x.cycle x.instret (imm12 inst) = some (csrAfter d inst)
  others : ∀ m, m ≠ imm12 inst → r.2.csr.read m = d.csr.read m
  othersRtl : ∀ m, m ≠ imm12 inst →
    x.csrNext.read x.cycle x.instret m = x.csr.read x.cycle x.instret m
  same : SameCsr .all x.csrNext r.2.csr

theorem Matched.csrAgree {d : Rv} (h : Matched .all x d inst) (ho : opcode inst = opSystem)
    (h0 : func3 inst ≠ opEcall) (h4 : func3 inst ≠ 4#3) (hn : imm12 inst ∈ Slot.csrNumbers) :
    CsrAgree d inst (d.execNext .rv32im inst host false) x := by
  have hx : x.pc.toNat % 4 = 0 := by
    rw [h.pc]
    exact h.aligned
  obtain ⟨hexcp, -, -, halu, hres, hread, hnext⟩ :=
    csrStep h.loaded hx (by rw [h.insn]; exact ho) (by rw [h.insn]; exact h0)
      (by rw [h.insn]; exact hn)
  rw [h.insn] at hread hnext
  have hold : x.csr.read x.cycle x.instret (imm12 inst) = some (d.csr.read (imm12 inst)) := by
    rw [h.cycle rfl, h.instret rfl]
    exact Matched.read_eq h.csr hn ⟨fun _ => rfl, fun _ => rfl, fun _ => rfl⟩
  rw [h.csrOp_eq h0 h4] at hnext
  rw [execNext_csr ho h0 h4 hn]
  refine ⟨rfl, rfl, halu, hexcp, by rw [h.ex]; rfl, by rw [hres, hread, hold]; rfl,
    ?_, ?_, fun m hm => ?_, fun m hm => ?_, ?_⟩
  · rw [csrAfter]
    cases csrWrites inst with
    | false => simp
    | true =>
      simp only [if_true, true_and]
      rw [Iss.Csr.read_modify]
      by_cases hw : imm12 inst ∈ csrWritable <;> simp [hw]
  · rw [hnext, csrAfter]
    cases csrWrites inst with
    | false => simpa using hold
    | true =>
      simp only [if_true, true_and]
      rw [Rtl.Csr.read_modify, hold]
      by_cases hw : imm12 inst ∈ csrWritable <;> simp [hw]
  · cases csrWrites inst with
    | false => rfl
    | true =>
      simp only [if_true]
      rw [Iss.Csr.read_modify, if_neg (by simp [hm])]
  · rw [hnext]
    cases csrWrites inst with
    | false => rfl
    | true =>
      simp only [if_true]
      rw [Rtl.Csr.read_modify, if_neg (by simp [hm])]
  · rw [hnext]
    cases csrWrites inst with
    | false => exact h.csr
    | true =>
      simp only [if_true]
      exact h.csr.modify _ _

/-- The two models agree on every CSR instruction: they reject the same numbers; otherwise both
return the old value, leave the same new value in the register, and change no other. -/
theorem csr_agree (host : Host) (rv : Rv) (x : Slot)
    (h : Matched .all x (rv.prologue .rv32im host).1 (rv.prologue .rv32im host).2)
    (ho : opcode (rv.prologue .rv32im host).2 = opSystem)
    (h0 : func3 (rv.prologue .rv32im host).2 ≠ opEcall)
    (h4 : func3 (rv.prologue .rv32im host).2 ≠ 4#3) :
    (Iss.TrapsIllegal (srv32Step .rv32im host rv) ↔
      imm12 (rv.prologue .rv32im host).2 ∉ Slot.csrNumbers) ∧
    (x.TrapsIllegal ↔ imm12 (rv.prologue .rv32im host).2 ∉ Slot.csrNumbers) ∧
    (imm12 (rv.prologue .rv32im host).2 ∈ Slot.csrNumbers →
      CsrAgree (rv.prologue .rv32im host).1 (rv.prologue .rv32im host).2
        (srv32Step .rv32im host rv) x) := by
  have hx : x.pc.toNat % 4 = 0 := by
    rw [h.pc]
    exact h.aligned
  have hr : srv32Step .rv32im host rv =
      (rv.prologue .rv32im host).1.execNext .rv32im (rv.prologue .rv32im host).2 host false := rfl
  refine ⟨?_, ?_, fun hn => h.csrAgree ho h0 h4 hn⟩
  · rw [hr, Rv.trapsIllegal_csr ho h0]
    simp [h4]
  · rw [Slot.trapsIllegal_iff h.loaded hx, h.insn]
    simp [Slot.illegalWord, Slot.isEnv3, ho, h0]

/-- `csrrw x5, mscratch, x6`. -/
theorem csr_agree_mscratch :
    let rv := Rv.boot .rv32im 1 (Iss.image [0x340312f3#32])
    let d := rv.prologue .rv32im .none
    imm12 d.2 = csrMscratch ∧
      CsrAgree d.1 d.2 (srv32Step .rv32im .none rv) (slotOf d.1 d.2) := by
  intro rv d
  have hm : Matched .all (slotOf d.1 d.2) d.1 d.2 :=
    matched_slotOf _ _ _ (by decide) (by decide) (by decide) (by decide) (by decide) (by decide)
  exact ⟨by decide, (csr_agree .none rv _ hm (by decide) (by decide) (by decide)).2.2 (by decide)⟩

end Srv32.Refine

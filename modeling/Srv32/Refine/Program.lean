import Srv32.Data.Leads
import Srv32.Iss.Run
import Srv32.Refine.Manual
import Srv32.Riscv.Block

/-! Programs in the simulator, piece by piece: with interrupts off, its steps are the instructions
of the text, one after the other. -/

namespace Srv32.Iss.Rv

open Riscv (Instr Machine Apart)

/-- No interrupt is entered, and the checks of the pc pass. -/
def Unhindered (rv : Rv) : Prop :=
  rv.Undisturbed ∧ rv.InRange rv.pc ∧ rv.pc.toNat % 4 = 0

instance (rv : Rv) : Decidable rv.Unhindered := inferInstanceAs (Decidable (_ ∧ _))

/-- A step that enters no interrupt, raises no exception and does not end the program. -/
def advance (host : Host) (rv : Rv) : Option Rv :=
  match srv32Step .rv32im host rv with
  | (.code r, rv') => if r = rvOkay ∧ rv.Unhindered then some rv' else none
  | _ => none

variable {rv rv' rv0 : Rv} {host : Host} {hosts : ℕ → Host} {n : ℕ}

theorem Unhindered.settle (h : rv.Unhindered) : rv.settle .rv32im = rv.fresh :=
  h.1.settle h.2.1 h.2.2

theorem advance_eq_some : rv.advance host = some rv' ↔
    srv32Step .rv32im host rv = (.code rvOkay, rv') ∧ rv.Unhindered := by
  unfold advance
  rcases srv32Step .rv32im host rv with ⟨_ | _ | _, r⟩
  · simp only [Option.ite_none_right_eq_some, Option.some.injEq, Prod.mk.injEq, Ret.code.injEq]
    tauto
  · simp
  · simp

theorem after_advance : after (fun host rv => advance host rv) hosts n rv = some rv' ↔
    (∀ j < n, (result .rv32im hosts rv j).1 = .code rvOkay ∧
      (run .rv32im hosts rv j).Unhindered) ∧ run .rv32im hosts rv n = rv' := by
  induction n generalizing rv' with
  | zero =>
    simp [after, run]
  | succ n ih =>
    rw [after_succ, Option.bind_eq_some_iff]
    constructor
    · rintro ⟨t, ht, hs⟩
      obtain ⟨hj, rfl⟩ := ih.mp ht
      rw [advance_eq_some] at hs
      refine ⟨fun j hlt => ?_, congrArg Prod.snd hs.1⟩
      rcases Nat.lt_succ_iff_lt_or_eq.mp hlt with hlt | rfl
      · exact hj j hlt
      · exact ⟨congrArg Prod.fst hs.1, hs.2⟩
    · rintro ⟨hj, rfl⟩
      refine ⟨run .rv32im hosts rv n,
        ih.mpr ⟨fun j hlt => hj j (hlt.trans (Nat.lt_succ_self n)), rfl⟩, ?_⟩
      obtain ⟨hok, hu⟩ := hj n (Nat.lt_succ_self n)
      rw [advance_eq_some]
      exact ⟨Prod.ext hok rfl, hu⟩

theorem run_head (hosts : ℕ → Host) (rv : Rv) (n : ℕ) : run .rv32im hosts rv (n + 1) =
    run .rv32im (fun j => hosts (j + 1)) (srv32Step .rv32im (hosts 0) rv).2 n := by
  induction n with
  | zero => rfl
  | succ n ih => exact congrArg (fun t => (srv32Step .rv32im (hosts (n + 1)) t).2) ih

/-! Where the memory is does not change. -/

theorem execNext_range (cfg : Config) (d : Rv) (inst : Word) (host : Host) (c : Bool) :
    (d.execNext cfg inst host c).2.memBase = d.memBase ∧
      (d.execNext cfg inst host c).2.memSize = d.memSize := by
  have ho := exec_outcome cfg d inst host c
  have hw : ∀ {a b : Rv}, Works a b → b.memBase = a.memBase ∧ b.memSize = a.memSize := by
    rintro a b ⟨_, _, _, _, _, _, _, _, _, _, rfl⟩
    exact ⟨rfl, rfl⟩
  rw [execNext]
  generalize d.exec cfg inst host c = f at ho
  cases ho with
  | next h hp => exact ⟨(hw h).1, (hw h).2⟩
  | leave h hr => exact ⟨(hw h).1, (hw h).2⟩
  | trap h hcause => exact ⟨(hw h.works).1, (hw h.works).2⟩
  | ecall h hi => exact ⟨(hw h).1, (hw h).2⟩
  | mret h hi => exact ⟨(hw h).1, (hw h).2⟩
  | csr hc hi =>
    simp only [writeRegs]
    split_ifs <;> exact ⟨rfl, rfl⟩

theorem Inside.part (hl : rv.Laid) {a : Word} {j k : ℕ} (hi : rv.Inside a n) (h : j + k ≤ n) :
    rv.Inside (a + BitVec.ofNat 32 j) k := by
  have htop := hl.top
  have hb := BitVec.toInt_lt (x := rv.memSize)
  obtain ⟨h1, h2⟩ := hi
  have hj : (BitVec.ofNat 32 j).toInt = j := by
    rw [BitVec.toInt_ofNat', Int.bmod_eq_of_le (by omega) (by omega)]
  have hsum : (a + BitVec.ofNat 32 j).toInt = a.toInt + j := by
    rw [Bits.toInt_add_of_nonneg _ _ (by omega), hj, if_pos (by omega)]
  rw [Inside, hsum]
  omega

/-! A program that runs. -/

/-- The state holds the machine `m` and the CSRs `c`, but for the counters; its memory lies where
that of `rv0` does. -/
structure Is (rv0 : Rv) (m : Machine) (c : Csr) (rv : Rv) : Prop where
  memBase : rv.memBase = rv0.memBase
  memSize : rv.memSize = rv0.memSize
  machine : rv.machine = m
  csr : CsrKept c rv.csr

structure Code (rv0 : Rv) where
  base : Word
  text : List Word
  laid : rv0.Laid
  aligned : base.toNat % 4 = 0
  inside : rv0.Inside base (4 * text.length)

theorem aligned_zero : (0#32).toNat % 4 = 0 := rfl

theorem holds_image {ws : List Word} (hm : rv.mem = image ws) (hb : rv.memBase = 0#32)
    (hl : 4 * ws.length ≤ 2 ^ 31) : rv.machine.Holds 0#32 ws := by
  intro i w hw
  obtain ⟨hi, hget⟩ := List.getElem?_eq_some_iff.mp hw
  have hbyte : ∀ j < 4, rv.mem (rv.offset (BitVec.ofNat 32 (4 * i) + BitVec.ofNat 32 j)) =
      byteOfWord w j := by
    intro j hj
    have ho : rv.offset (BitVec.ofNat 32 (4 * i) + BitVec.ofNat 32 j) = (4 * i + j : ℕ) := by
      rw [offset, hb, BitVec.sub_zero, ← BitVec.ofNat_add, BitVec.toInt_ofNat',
        Int.bmod_eq_of_le (by omega) (by omega)]
    rw [ho, hm, image, if_neg (by omega), Int.toNat_natCast, show (4 * i + j) / 4 = i by omega,
      show (4 * i + j) % 4 = j by omega, List.getD_eq_getElem?_getD, hw, Option.getD_some]
  have h0 := hbyte 0 (by omega)
  rw [BitVec.add_zero] at h0
  rw [BitVec.zero_add, Machine.word]
  change rv.mem (rv.offset _) ++ rv.mem (rv.offset _) ++ rv.mem (rv.offset _) ++
    rv.mem (rv.offset _) = w
  rw [hbyte 3 (by omega), hbyte 2 (by omega), hbyte 1 (by omega), h0]
  exact wordOfBytes_byteOfWord w

/-- The MIE that MRET brings back. -/
def popMie (mstatus : Word) : Word :=
  if mstatus &&& 1#32 <<< bitMpie ≠ 0#32 then mstatus ||| 1#32 <<< bitMie
  else mstatus &&& ~~~(1#32 <<< bitMie)

theorem popMie_mie (mstatus : Word) :
    (popMie mstatus).getLsbD bitMie = mstatus.getLsbD bitMpie := by
  have h := Bits.and_bit_ne_zero mstatus (n := bitMpie) (by decide)
  have hm : (1#32 <<< bitMie).getLsbD bitMie = true := by decide
  rw [popMie]
  by_cases hp : mstatus &&& 1#32 <<< bitMpie ≠ 0#32
  · rw [if_pos hp, BitVec.getLsbD_or, hm, Bool.or_true, h.mp hp]
  · have hf : mstatus.getLsbD bitMpie = false := Bool.eq_false_iff.mpr fun ht => hp (h.mpr ht)
    rw [if_neg hp, BitVec.getLsbD_and, BitVec.getLsbD_not, hm, hf]
    simp

theorem popMie_bit (mstatus : Word) {i : ℕ} (hi : i ≠ bitMie) :
    (popMie mstatus).getLsbD i = mstatus.getLsbD i := by
  have hb : (1#32 <<< bitMie).getLsbD i = false := Bits.getLsbD_one_shiftLeft hi
  by_cases h : i < 32
  · rw [popMie]
    split_ifs
    · rw [BitVec.getLsbD_or, hb, Bool.or_false]
    · rw [BitVec.getLsbD_and, BitVec.getLsbD_not, hb]
      simp [h]
  · rw [BitVec.getLsbD_of_ge _ _ (by omega), BitVec.getLsbD_of_ge _ _ (by omega)]

namespace Code

variable {k : Code rv0} {i j : ℕ} {m : Machine} {c : Csr} {w : Word}

/-- The program is before its word `i`, with interrupts off. -/
structure At (k : Code rv0) (i : ℕ) (m : Machine) (c : Csr) (rv : Rv) : Prop extends
    Is rv0 m c rv where
  text : m.Holds k.base k.text
  pc : m.pc = k.base + BitVec.ofNat 32 (4 * i)
  off : c.mstatus.getLsbD bitMie = false

/-- The instruction accesses memory only, and not the program. -/
def Fits (k : Code rv0) (m : Machine) (ins : Instr) : Prop :=
  ∀ a n, ins.access m = some (a, n) →
    a.toNat % n = 0 ∧ rv0.Inside a n ∧ Apart a n k.base (4 * k.text.length)

theorem pc_aligned (k : Code rv0) (i : ℕ) : (k.base + BitVec.ofNat 32 (4 * i)).toNat % 4 = 0 := by
  have := k.aligned
  rw [BitVec.toNat_add, BitVec.toNat_ofNat]
  omega

theorem inside_of (h : rv.memBase = rv0.memBase) (h' : rv.memSize = rv0.memSize) {a : Word} :
    rv.Inside a n ↔ rv0.Inside a n := by
  rw [Inside, Inside, h, h']

theorem At.pc_eq (h : k.At i m c rv) : rv.pc = k.base + BitVec.ofNat 32 (4 * i) := by
  rw [← h.pc, ← h.machine]
  rfl

theorem At.rv_laid (h : k.At i m c rv) : rv.Laid := by
  obtain ⟨h1, h2⟩ := k.laid
  rw [← h.memBase, ← h.memSize] at *
  exact ⟨h1, h2⟩

theorem At.inside_pc (h : k.At i m c rv) (hw : k.text[i]? = some w) : rv.Inside rv.pc 4 := by
  obtain ⟨hlt, -⟩ := List.getElem?_eq_some_iff.mp hw
  rw [inside_of h.memBase h.memSize, h.pc_eq]
  exact k.inside.part k.laid (by omega)

/-- Interrupts are off and the pc is a word of the program. -/
theorem At.unhindered (h : k.At i m c rv) (hw : k.text[i]? = some w) : rv.Unhindered := by
  refine ⟨?_, (h.inside_pc hw).inRange h.rv_laid (by omega), ?_⟩
  · left
    rw [mieSet_eq, h.csr]
    exact h.off
  · rw [h.pc_eq]
    exact k.pc_aligned i

theorem At.settle (h : k.At i m c rv) (hw : k.text[i]? = some w) :
    k.At i m c (rv.settle .rv32im) := by
  rw [(h.unhindered hw).settle]
  exact ⟨⟨h.memBase, h.memSize, machine_fresh.trans h.machine, h.csr⟩, h.text, h.pc, h.off⟩

theorem At.step (h : k.At i m c (rv.settle .rv32im)) (hw : k.text[i]? = some w) (host : Host) :
    ∃ d : Rv, srv32Step .rv32im host rv = d.execNext .rv32im w host false ∧ d.regs 0#5 = 0#32 ∧
      k.At i m c d := by
  have hz : (rv.settle .rv32im).regs 0#5 = 0#32 := by
    rw [settle_regs]
    exact Function.update_self 0#5 0#32 rv.regs
  have hf : (rv.settle .rv32im).fetch host = w := by
    rw [fetch_machine h.rv_laid (h.inside_pc hw), h.machine]
    exact (congrArg m.word h.pc_eq).trans (h.text i w hw)
  have hstep : srv32Step .rv32im host rv =
      ((rv.settle .rv32im).sampleIrq w).count.execNext .rv32im w host false := by
    rw [srv32Step, prologue, hf]
    rfl
  generalize rv.settle .rv32im = s at h hz hstep
  have hk : CsrKept s.csr (s.sampleIrq w).count.csr := rfl
  exact ⟨(s.sampleIrq w).count, hstep, hz, ⟨h.memBase, h.memSize, h.machine, h.csr.trans hk⟩,
    h.text, h.pc, h.off⟩

theorem holds_step {ins : Instr} (h : m.Holds k.base k.text) (hf : k.Fits m ins) :
    (ins.step 4#32 m).Holds k.base k.text := by
  cases ins with
  | store op s1 s2 off => exact h.put (hf _ _ rfl).2.2
  | branch cond s1 s2 off =>
    rw [Instr.step]
    split
    · exact h
    · exact h
  | _ => exact h

theorem At.executes (h : k.At i m c (rv.settle .rv32im)) {ins : Instr}
    (hw : k.text[i]? = some ins.encode) (hf : k.Fits m ins)
    (ht : (ins.step 4#32 m).pc.toNat % 4 = 0)
    (hself : ins.isJump = true → (ins.step 4#32 m).pc ≠ m.pc) (host : Host) :
    ∃ t, srv32Step .rv32im host rv = (.code rvOkay, t) ∧ Is rv0 (ins.step 4#32 m) c t := by
  obtain ⟨d, hs, hz, hd⟩ := h.step hw host
  have hl : d.Laid := hd.rv_laid
  have hx : Executes d (d.execNext .rv32im ins.encode host false)
      (ins.step (instLen false) d.machine) := by
    refine Rv.executes rfl hz hl ?_ ins ⟨fun _ => rfl, ?_, Or.inr ?_, ?_⟩
    · have := k.pc_aligned i
      rw [← hd.pc, ← hd.machine] at this
      change d.pc.toNat % 4 = 0 at this
      omega
    · rw [hd.machine]
      intro a n ha
      obtain ⟨h1, h2, -⟩ := hf a n ha
      exact ⟨h1, (inside_of hd.memBase hd.memSize).mpr h2⟩
    · rw [hd.machine]
      exact ht
    · intro hj
      have := hself hj
      rw [← hd.machine] at this
      exact this
  rw [hd.machine] at hx
  obtain ⟨hb, hz⟩ := execNext_range .rv32im d ins.encode host false
  refine ⟨(d.execNext .rv32im ins.encode host false).2, ?_, hb.trans hd.memBase,
    hz.trans hd.memSize, hx.machine, hd.csr.trans hx.csr⟩
  rw [hs]
  exact Prod.ext hx.okay rfl

theorem At.instr (h : k.At i m c rv) {ins : Instr} (hw : k.text[i]? = some ins.encode)
    (hf : k.Fits m ins) (ht : (ins.step 4#32 m).pc.toNat % 4 = 0)
    (hself : ins.isJump = true → (ins.step 4#32 m).pc ≠ m.pc) :
    Leads (fun host rv => advance host rv) rv (Is rv0 (ins.step 4#32 m) c) := by
  apply Leads.next
  intro host
  obtain ⟨t, hs, ht⟩ := (h.settle hw).executes hw hf ht hself host
  exact ⟨t, advance_eq_some.mpr ⟨hs, h.unhindered hw⟩, ht⟩

theorem At.goes (h : k.At i m c rv) {ins : Instr} (hw : k.text[i]? = some ins.encode)
    (hf : k.Fits m ins) (hpc : (ins.step 4#32 m).pc = k.base + BitVec.ofNat 32 (4 * j))
    (hself : ins.isJump = true → (ins.step 4#32 m).pc ≠ m.pc) :
    Leads (fun host rv => advance host rv) rv (k.At j (ins.step 4#32 m) c) := by
  refine (h.instr hw hf ?_ hself).mono fun t ht => ⟨ht, holds_step h.text hf, hpc, h.off⟩
  rw [hpc]
  exact k.pc_aligned j

/-- The words are there from word `i` on. -/
def Has (k : Code rv0) (i : ℕ) (ws : List Word) : Prop := ws <+: k.text.drop i

theorem Has.get {ws : List Word} (h : k.Has i ws) (hw : ws[j]? = some w) :
    k.text[i + j]? = some w := by
  obtain ⟨t, ht⟩ := h
  obtain ⟨hj, -⟩ := List.getElem?_eq_some_iff.mp hw
  rw [← List.getElem?_drop, ← ht, List.getElem?_append_left hj, hw]

theorem Has.head {ws : List Word} (h : k.Has i (w :: ws)) : k.text[i]? = some w :=
  h.get (j := 0) rfl

theorem Has.right {us ws : List Word} (h : k.Has i (us ++ ws)) (hn : us.length = n) :
    k.Has (i + n) ws := by
  obtain ⟨t, ht⟩ := h
  refine ⟨t, ?_⟩
  rw [← hn, ← List.drop_drop, ← ht, List.append_assoc, List.drop_left]

theorem Has.tail {ws : List Word} (h : k.Has i (w :: ws)) : k.Has (i + 1) ws :=
  (show k.Has i ([w] ++ ws) from h).right rfl

theorem Has.left {us ws : List Word} (h : k.Has i (us ++ ws)) : k.Has i us :=
  (List.prefix_append us ws).trans h

def FitsAll (k : Code rv0) : Machine → List Instr → Prop
  | _, [] => True
  | m, ins :: is => ins.isStraight = true ∧ k.Fits m ins ∧ k.FitsAll (ins.step 4#32 m) is

theorem fits_of_access {ins : Instr} (h : ins.access m = none) : k.Fits m ins := by
  intro a n ha
  rw [h] at ha
  cases ha

theorem FitsAll.append {is js : List Instr} (h : k.FitsAll m is) (h' : k.FitsAll (m.steps is) js) :
    k.FitsAll m (is ++ js) := by
  induction is generalizing m with
  | nil => exact h'
  | cons ins is ih => exact ⟨h.1, h.2.1, ih h.2.2 h'⟩

theorem next_pc (h : m.pc = k.base + BitVec.ofNat 32 (4 * i)) :
    m.pc + 4#32 = k.base + BitVec.ofNat 32 (4 * (i + 1)) := by
  rw [h, BitVec.add_assoc, ← BitVec.ofNat_add]
  rfl

theorem At.block {is : List Instr} (h : k.At i m c rv) (hw : k.Has i (is.map Instr.encode))
    (hf : k.FitsAll m is) :
    Leads (fun host rv => advance host rv) rv (k.At (i + is.length) (m.steps is) c) := by
  induction is generalizing i m rv with
  | nil => exact Leads.here h
  | cons ins is ih =>
    obtain ⟨hs, hfit, hrest⟩ := hf
    have hpc : (ins.step 4#32 m).pc = k.base + BitVec.ofNat 32 (4 * (i + 1)) := by
      rw [Instr.step_pc hs, next_pc h.pc]
    have hself : ins.isJump = true → (ins.step 4#32 m).pc ≠ m.pc := by
      intro hj
      cases ins with
      | jal r off => cases hs
      | jalr r s1 off => cases hs
      | _ => cases hj
    refine (h.goes hw.head hfit hpc hself).trans fun t ht => ?_
    have hn : i + (ins :: is).length = i + 1 + is.length := by
      rw [List.length_cons]
      omega
    rw [hn]
    exact ih ht hw.tail hrest

/-- A word of memory the program may use. -/
def Free (k : Code rv0) (a : Word) : Prop :=
  a.toNat % 4 = 0 ∧ rv0.Inside a 4 ∧ Apart a 4 k.base (4 * k.text.length)

theorem fits_store {s1 s2 : BitVec 5} {off : BitVec 12} (h : k.Free (m.x s1 + off.signExtend 32)) :
    k.Fits m (.store .sw s1 s2 off) := by
  intro a n ha
  cases ha
  exact h

theorem fits_load {r s1 : BitVec 5} {off : BitVec 12} (h : k.Free (m.x s1 + off.signExtend 32)) :
    k.Fits m (.load .lw r s1 off) := by
  intro a n ha
  cases ha
  exact h

theorem fitsAll_save {b : BitVec 5} {f : List (BitVec 5 × BitVec 12)}
    (h : ∀ p ∈ f, k.Free (m.place b p)) : k.FitsAll m (Machine.save b f) := by
  induction f generalizing m with
  | nil => trivial
  | cons p f ih =>
    refine ⟨rfl, fits_store (h p List.mem_cons_self), ?_⟩
    exact ih fun q hq => h q (List.mem_cons_of_mem p hq)

theorem fitsAll_restore {b : BitVec 5} {f : List (BitVec 5 × BitVec 12)}
    (hb : ∀ p ∈ f, p.1 ≠ b) (h : ∀ p ∈ f, k.Free (m.place b p)) :
    k.FitsAll m (Machine.restore b f) := by
  induction f generalizing m with
  | nil => trivial
  | cons p f ih =>
    refine ⟨rfl, fits_load (h p List.mem_cons_self), ?_⟩
    refine ih (fun q hq => hb q (List.mem_cons_of_mem p hq)) fun q hq => ?_
    have hplace : (Instr.step 4#32 m (.load .lw p.1 b p.2)).place b q = m.place b q := by
      rw [Machine.place, Machine.place]
      exact congrArg (· + _) (Machine.set_x_of_ne (hb p List.mem_cons_self).symm _)
    rw [hplace]
    exact h q (List.mem_cons_of_mem p hq)

/-! CSRs. -/

theorem At.csrs (h : k.At i m c rv) (hw : k.text[i]? = some w) (ho : opcode w = opSystem)
    (h3 : func3 w ≠ opEcall) {mode : BitVec 3} {val v : Word} {update : Bool} {c' : Csr}
    (hop : ∀ d : Rv, d.machine = m → d.regs 0#5 = 0#32 →
      d.csrOperand .rv32im w = some (mode, val, update))
    (hrw : ∀ c0, CsrKept c c0 → ∃ c1, c0.rw (imm12 w) mode val update = (v, true, c1) ∧
      CsrKept c' c1) (hoff : c'.mstatus.getLsbD bitMie = false) :
    Leads (fun host rv => advance host rv) rv (k.At (i + 1) ((m.set (rd w) v).next 4#32) c') := by
  apply Leads.next
  intro host
  obtain ⟨d, hs, hz, hd⟩ := (h.settle hw).step hw host
  obtain ⟨c1, h1, hk⟩ := hrw d.csr hd.csr
  have hx : d.exec .rv32im w host false =
      .brk ({ d with csr := c1 }.writeRegs .rv32im (rd w) v) := by
    have hsys : d.exec .rv32im w host false = d.execSystem .rv32im w host := by
      simp only [exec, ho]
      rfl
    rw [hsys, execSystem, if_neg h3, execCsr, hop d hd.machine hz]
    simp only [h1]
  refine ⟨_, advance_eq_some.mpr ⟨hs.trans (execNext_brk hx), h.unhindered hw⟩, ?_⟩
  rw [writeRegs_rv32im]
  refine ⟨⟨hd.memBase, hd.memSize, ?_, hk⟩, h.text, next_pc h.pc, hoff⟩
  rw [← hd.machine]
  exact machine_write (rd w) v (d.pc + 4#32)

theorem At.mret (h : k.At i m c rv) (hw : k.text[i]? = some 0x30200073#32) :
    Leads (fun host rv => advance host rv) rv
      (Is rv0 (m.goto c.mepc) { c with mstatus := popMie c.mstatus }) := by
  apply Leads.next
  intro host
  obtain ⟨d, hs, hz, hd⟩ := (h.settle hw).step hw host
  have hx : d.exec .rv32im 0x30200073#32 host false = d.execMret .rv32im := rfl
  have hmepc : d.csr.mepc = c.mepc := by rw [hd.csr]
  have hst : d.csr.mstatus = c.mstatus := by rw [hd.csr]
  have hm : m.goto c.mepc = d.machine.goto d.csr.mepc := by rw [hd.machine, hmepc]
  have hk : CsrKept { c with mstatus := popMie c.mstatus }
      { d.csr with mstatus := popMie d.csr.mstatus } := by
    rw [hst, hd.csr]
    rfl
  rw [hm]
  -- the penalty is counted unless the target is misaligned
  have hr : ∃ n, d.execMret .rv32im = .ret (.code rvOkay) (cycleAdd { d with
      pc := d.csr.mepc
      csr.mstatus := popMie d.csr.mstatus } n) := by
    simp only [execMret, popMie]
    split_ifs <;>
      first | exact ⟨d.branchPenalty, rfl⟩ | exact ⟨0#32, (congrArg _ (cycleAdd_zero _)).symm⟩
  obtain ⟨n, hn⟩ := hr
  have hnext : d.execNext .rv32im 0x30200073#32 host false = (.code rvOkay, cycleAdd { d with
      pc := d.csr.mepc
      csr.mstatus := popMie d.csr.mstatus } n) := by
    rw [execNext, hx, hn]
  have hcount : CsrKept { d.csr with mstatus := popMie d.csr.mstatus } (cycleAdd { d with
      pc := d.csr.mepc
      csr.mstatus := popMie d.csr.mstatus } n).csr := rfl
  exact ⟨_, advance_eq_some.mpr ⟨hs.trans hnext, h.unhindered hw⟩,
    ⟨hd.memBase, hd.memSize, rfl, hk.trans hcount⟩⟩

end Code

end Srv32.Iss.Rv

import Srv32.Iss.Run

/-! Interrupt entry over whole runs. The latches are sampled one step before they are used, and
two after the request for the software and external interrupts; an instruction that could change
`mie` in between clears them. -/

namespace Srv32.Iss

/-- One of the tests at the head of `srv32_step`: the arguments of its `srv32_int`, its enable bit
of `mie`, and its latch. -/
structure Source where
  cause : Word
  src : ℕ
  enable : ℕ
  latched : Latch → Bool

/-- In the order of the tests. -/
def sources : List Source :=
  [⟨intMtime, bitMtip, bitMtie, Latch.timerIrq⟩, ⟨intMsi, bitMsip, bitMsie, Latch.swIrqNext⟩,
    ⟨intMei, bitMeip, bitMeie, Latch.extIrqNext⟩]

/-- One call of `srv32_int`: its source and the state before. -/
structure Entry where
  source : Source
  before : Rv

def Entry.after (e : Entry) : Rv := e.before.int e.source.cause e.source.src false

namespace Rv

/-- The calls of `srv32_int` the tests make, from the state `rv`. -/
def entriesOf : List Source → Rv → List Entry
  | [], _ => []
  | i :: is, rv =>
    if i.latched rv.latch ∧ rv.mieSet then ⟨i, rv⟩ :: entriesOf is (Entry.after ⟨i, rv⟩)
    else entriesOf is rv

/-- The calls of `srv32_int` of the step from `rv`. -/
def entries (cfg : Config) (rv : Rv) : List Entry :=
  entriesOf sources ({ rv with mtimeUpdate := false }.writeRegs cfg 0#5 0#32)

/-- The tests in turn. -/
def enterAll : List Source → Rv → Rv
  | [], rv => rv
  | i :: is, rv => enterAll is (if i.latched rv.latch ∧ rv.mieSet then Entry.after ⟨i, rv⟩ else rv)

theorem enterInts_eq (rv : Rv) : rv.enterInts = enterAll sources rv := rfl

/-- The state the step continues from is that after the last call. -/
theorem enterAll_eq (is : List Source) (rv : Rv) :
    enterAll is rv = ((entriesOf is rv).getLast?.map Entry.after).getD rv := by
  induction is generalizing rv with
  | nil => rfl
  | cons i is ih =>
    rw [enterAll, entriesOf, ih]
    split_ifs with h
    · rw [List.getLast?_cons, Option.map_some, Option.getD_some]
      cases (entriesOf is (Entry.after ⟨i, rv⟩)).getLast? <;> rfl
    · rfl

/-- The head of the step: the entries, then the checks of the pc. -/
theorem settle_eq_entries (cfg : Config) (rv : Rv) : rv.settle cfg =
    (((rv.entries cfg).getLast?.map Entry.after).getD
      ({ rv with mtimeUpdate := false }.writeRegs cfg 0#5 0#32)).checkPc cfg := by
  rw [settle, enterInts_eq, enterAll_eq]
  rfl

variable {cfg : Config} {rv rv' : Rv} {inst : Word} {host : Host} {c : Bool} {is : List Source}
  {e : Entry}

/-! One step enters at most one interrupt, from a state with MIE set. -/

@[simp] theorem mieSet_after (i : Source) : (Entry.after ⟨i, rv⟩).mieSet = false := mieSet_int _ _

theorem entriesOf_off (h : rv.mieSet = false) : entriesOf is rv = [] := by
  induction is with
  | nil => rfl
  | cons i is ih =>
    rw [entriesOf, if_neg (by simp [h])]
    exact ih

theorem length_entriesOf (is : List Source) (rv : Rv) : (entriesOf is rv).length ≤ 1 := by
  induction is with
  | nil => exact Nat.zero_le 1
  | cons i is ih =>
    rw [entriesOf]
    split_ifs
    · rw [entriesOf_off (mieSet_after i)]
      exact Nat.le_refl 1
    · exact ih

theorem mem_entriesOf (h : e ∈ entriesOf is rv) :
    e.before = rv ∧ e.source ∈ is ∧ e.source.latched rv.latch = true ∧ rv.mieSet = true := by
  induction is with
  | nil => cases h
  | cons i is ih =>
    rw [entriesOf] at h
    split_ifs at h with hi
    · rw [entriesOf_off (mieSet_after i), List.mem_singleton] at h
      subst h
      exact ⟨rfl, List.mem_cons_self, hi.1, hi.2⟩
    · obtain ⟨h1, h2, h3⟩ := ih h
      exact ⟨h1, List.mem_cons_of_mem i h2, h3⟩

theorem entries_eq_of_mem (he : e ∈ rv.entries cfg) : rv.entries cfg = [e] := by
  have hlen : (rv.entries cfg).length ≤ 1 := length_entriesOf sources _
  cases hl : rv.entries cfg with
  | nil =>
    rw [hl] at he
    cases he
  | cons x xs =>
    rw [hl] at he hlen
    obtain rfl : xs = [] := List.eq_nil_of_length_eq_zero (by simpa using hlen)
    rw [List.mem_singleton.mp he]

theorem settle_of_entry (he : e ∈ rv.entries cfg) : rv.settle cfg = e.after.checkPc cfg := by
  rw [settle_eq_entries, entries_eq_of_mem he]
  rfl

/-! The latches and `mie`. -/

@[simp] theorem writeRegs_csr (n : BitVec 5) (v : Word) :
    (rv.writeRegs cfg n v).csr = rv.csr := by
  unfold writeRegs
  split <;> rfl

@[simp] theorem writeRegs_latch (n : BitVec 5) (v : Word) :
    (rv.writeRegs cfg n v).latch = rv.latch := by
  unfold writeRegs
  split <;> rfl

@[simp] theorem writeRegs_mem (n : BitVec 5) (v : Word) :
    (rv.writeRegs cfg n v).mem = rv.mem := by
  unfold writeRegs
  split <;> rfl

theorem Works.latch (h : Works rv rv') : rv'.latch = rv.latch ∧ rv'.csr.mie = rv.csr.mie := by
  obtain ⟨_, _, _, _, _, _, _, _, _, _, rfl⟩ := h
  exact ⟨rfl, rfl⟩

/-- The switch leaves the latches, and `mie` unless it executes a CSR instruction. -/
theorem execNext_latch (cfg : Config) (rv : Rv) (inst : Word) (host : Host) (c : Bool) :
    (rv.execNext cfg inst host c).2.latch = rv.latch ∧
      (¬ isCsrWord inst → (rv.execNext cfg inst host c).2.csr.mie = rv.csr.mie) := by
  have ho := exec_outcome cfg rv inst host c
  rw [execNext]
  generalize rv.exec cfg inst host c = f at ho
  cases ho with
  | next hw hp => exact ⟨hw.latch.1, fun _ => hw.latch.2⟩
  | leave hw hr => exact ⟨hw.latch.1, fun _ => hw.latch.2⟩
  | trap hc hcause => exact ⟨hc.works.latch.1, fun _ => hc.works.latch.2⟩
  | ecall hw hi => exact ⟨hw.latch.1, fun _ => hw.latch.2⟩
  | mret hw hi => exact ⟨hw.latch.1, fun _ => hw.latch.2⟩
  | csr hc hi => exact ⟨writeRegs_latch _ _, fun h => absurd hi h⟩

/-- A latched interrupt is enabled in `mie`. -/
def LatchedEnabled (rv : Rv) : Prop :=
  ∀ i ∈ sources, i.latched rv.latch = true → rv.csr.mie.getLsbD i.enable = true

/-- The latches are sampled with their enable bits, and not for a SYSTEM instruction. -/
theorem sampleIrq_latched {i : Source} (hi : i ∈ sources)
    (h : i.latched (rv.sampleIrq inst).latch = true) :
    rv.mieSet = true ∧ rv.csr.mie.getLsbD i.enable = true ∧ opcode inst ≠ opSystem := by
  simp only [sources, List.mem_cons, List.not_mem_nil, or_false] at hi
  rcases hi with rfl | rfl | rfl <;>
  · simp only [sampleIrq, decide_eq_true_eq] at h
    obtain ⟨-, hm, he, ho⟩ := h
    exact ⟨hm, (Bits.and_bit_ne_zero _ (by decide)).mp he, ho⟩

/-- The step leaves the latches it sampled; `mie` is what it was, or the latches are clear. -/
theorem step_latch (cfg : Config) (host : Host) (rv : Rv) :
    let s := rv.settle cfg
    (∃ p, (srv32Step cfg host rv).2.latch =
      { (s.sampleIrq (s.fetch host)).latch with compressedPrev := p }) ∧
    (opcode (s.fetch host) ≠ opSystem → (srv32Step cfg host rv).2.csr.mie = s.csr.mie) := by
  intro s
  have hstep := srv32Step_eq cfg host rv
  rcases dispatch_cases cfg host rv with ⟨d, inst, c, hd, hr⟩ | ⟨d, val, hd, hr⟩
  · rw [hd] at hstep
    simp only at hstep
    obtain ⟨hlatch, hmie⟩ := execNext_latch cfg d inst host c
    rw [hstep, hlatch]
    have hcsr : opcode (s.fetch host) ≠ opSystem → ¬ isCsrWord inst := by
      rintro ho ⟨hsys, hf⟩
      rcases hr.word with rfl | hne | rfl
      · exact ho hsys
      · exact hne hsys
      · exact hf (by decide)
    refine ⟨?_, fun ho => (hmie (hcsr ho)).trans ?_⟩ <;>
    · obtain ⟨_, _, _, _, p, rfl⟩ := hr.state
      first | exact ⟨p, rfl⟩ | rfl
  · rw [hd] at hstep
    rw [hstep]
    obtain ⟨_, _, _, _, p, rfl⟩ := hr.state
    exact ⟨⟨p, rfl⟩, fun _ => rfl⟩

/-- Whatever state a step starts from, it leaves its latches enabled in `mie`: where the word
executed writes `mie`, the latches were sampled clear. -/
theorem latchedEnabled_step (cfg : Config) (host : Host) (rv : Rv) :
    LatchedEnabled (srv32Step cfg host rv).2 := by
  intro i hi hl
  obtain ⟨⟨p, hlatch⟩, hmie⟩ := step_latch cfg host rv
  have h : i.latched ((rv.settle cfg).sampleIrq ((rv.settle cfg).fetch host)).latch = true := by
    rw [hlatch] at hl
    simp only [sources, List.mem_cons, List.not_mem_nil, or_false] at hi
    rcases hi with rfl | rfl | rfl <;> exact hl
  obtain ⟨-, he, ho⟩ := sampleIrq_latched hi h
  rw [hmie ho]
  exact he

theorem latchedEnabled_reset (cfg : Config) (o : Options) (mem : Int → Byte) :
    LatchedEnabled (reset cfg o mem) := by
  intro i hi hl
  simp only [sources, List.mem_cons, List.not_mem_nil, or_false] at hi
  rcases hi with rfl | rfl | rfl <;> cases hl

theorem latchedEnabled_run (cfg : Config) (o : Options) (mem : Int → Byte) (host : ℕ → Host)
    (n : ℕ) : LatchedEnabled (run cfg host (reset cfg o mem) n) :=
  run_invariant (fun host rv _ => latchedEnabled_step cfg host rv) (latchedEnabled_reset cfg o mem)
    host n

/-! The state an entry leaves. -/

/-- An interrupt entered in the step from `rv` was enabled, and leaves the handler's state. -/
structure Enabled (rv : Rv) (e : Entry) : Prop where
  mie : e.before.csr.mstatus.getLsbD bitMie = true
  enable : e.before.csr.mie.getLsbD e.source.enable = true
  mieAfter : e.after.csr.mstatus.getLsbD bitMie = false
  mpie : e.after.csr.mstatus.getLsbD bitMpie = true
  mepc : e.after.csr.mepc = rv.pc
  regs : ∀ n, n ≠ 0#5 → e.after.regs n = rv.regs n
  mem : e.after.mem = rv.mem

theorem entry_enabled (h : LatchedEnabled rv) (he : e ∈ rv.entries cfg) : Enabled rv e := by
  obtain ⟨hb, hs, hl, hm⟩ := mem_entriesOf he
  obtain ⟨i, s⟩ := e
  obtain rfl : s = _ := hb
  rw [writeRegs_latch] at hl
  rw [mieSet_eq, writeRegs_csr] at hm
  constructor
  · rw [writeRegs_csr]
    exact hm
  · rw [writeRegs_csr]
    exact h i hs hl
  · rw [Entry.after, int_mstatus, pushMie_getLsbD_mie]
  · rw [Entry.after, int_mstatus, pushMie_mpie, writeRegs_csr]
    exact hm
  · rw [Entry.after, int_eq]
    exact writeRegs_pc _ _
  · intro n hn
    rw [Entry.after, int_regs, writeRegs]
    split_ifs
    · rfl
    · exact Function.update_of_ne hn _ _
  · rw [Entry.after, int_mem]
    exact writeRegs_mem _ _

/-- In every run from reset, each step enters at most one interrupt, and only an enabled one; the
checks of the pc come behind it. -/
theorem interrupts_enabled (cfg : Config) (o : Options) (mem : Int → Byte) (host : ℕ → Host)
    (n : ℕ) :
    let rv := run cfg host (reset cfg o mem) n
    (rv.entries cfg).length ≤ 1 ∧
      rv.settle cfg = (((rv.entries cfg).getLast?.map Entry.after).getD
        ({ rv with mtimeUpdate := false }.writeRegs cfg 0#5 0#32)).checkPc cfg ∧
      ∀ e ∈ rv.entries cfg, Enabled rv e :=
  ⟨length_entriesOf _ _, settle_eq_entries _ _,
    fun _ he => entry_enabled (latchedEnabled_run cfg o mem host n) he⟩

/-- A program that sets MTIE and then MIE: the step after its first NOP enters the timer
interrupt. -/
theorem interrupts_enabled_timer :
    let o : Options := ⟨2#32, false, false, false, 0#32, 0x1000#32⟩
    let rv := run .rv32im (fun _ => .none) (reset .rv32im o (image
      [0x08000093#32, 0x30409073#32, 0x30046073#32, 0x00000013#32, 0x00000013#32])) 4
    (rv.entries .rv32im).map (·.source.cause) = [intMtime] ∧
      ∀ e ∈ rv.entries .rv32im, Enabled rv e :=
  ⟨by decide +kernel, (interrupts_enabled .rv32im ⟨2#32, false, false, false, 0#32, 0x1000#32⟩
    (image [0x08000093#32, 0x30409073#32, 0x30046073#32, 0x00000013#32, 0x00000013#32])
    (fun _ => .none) 4).2.2⟩

end Rv

end Srv32.Iss

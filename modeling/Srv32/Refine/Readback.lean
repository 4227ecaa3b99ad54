import Srv32.Refine.Clint

/-! Loads from the CLINT of `rtl/top.v` against the stores before them in program order. -/

namespace Srv32.Refine

open Device (Reg Access Regs)
open Rtl (Top TopInput TopReady State Slot Param Clint ReadyFrom startup)
open Rtl.State (slotAt nextCycle exCycle)

/-- The slot is a store that completes. -/
def stores (y : Slot) : Bool := y.memwr && !y.excp

section

variable (p : Param) (m : Word) (k : ℕ) (i : ℕ → TopInput) (x : Top)

def instSlot (n : ℕ) : Slot := slotAt p (x.inputs p i) m (exCycle p (x.inputs p i) m k n)

/-- What the `n`-th instruction, a load, writes back. -/
def loaded (n : ℕ) : Word :=
  let t := exCycle p (x.inputs p i) m k n + 1
  (x.run p i t).core.wbValue (x.inputs p i t)

/-- What the slots that satisfy `q` last wrote to `r` before instruction `n`. The CLINT takes the
whole of `wb_wdata` and ignores the strobes; at reset its registers are 0. -/
def lastWritten (q : Slot → Bool) (r : Reg) : ℕ → Word
  | 0 => 0#32
  | n + 1 =>
    if q (instSlot p m k i x n) = true ∧ (instSlot p m k i x n).memaddr = r.addr then
      (instSlot p m k i x n).wdata
    else lastWritten q r n

/-- What reached `r` when instruction `n` samples it: a store that runs straight on into `n` is
still on the write port. -/
def sampled (r : Reg) : ℕ → Word
  | 0 => 0#32
  | n + 1 =>
    if (instSlot p m k i x n).redirects = true then lastWritten p m k i x Slot.memwr r (n + 1)
    else lastWritten p m k i x Slot.memwr r n

/-- No store to `r` is still on its way at instruction `n`, and none that was refused reached it: a
store that runs straight on into `n` changes nothing, and behind any other instruction the last
word written, with or without an exception, is the last one stored. -/
def Settled (r : Reg) : ℕ → Prop
  | 0 => True
  | n + 1 =>
    if stores (instSlot p m k i x n) = true ∧ (instSlot p m k i x n).memaddr = r.addr ∧
        (instSlot p m k i x n).redirects = false then
      (instSlot p m k i x n).wdata &&& Clint.bits r =
        lastWritten p m k i x Slot.memwr r n &&& Clint.bits r
    else lastWritten p m k i x Slot.memwr r (n + 1) &&& Clint.bits r =
      lastWritten p m k i x stores r (n + 1) &&& Clint.bits r

instance (r : Reg) (n : ℕ) : Decidable (Settled p m k i x r n) :=
  match n with
  | 0 => inferInstanceAs (Decidable True)
  | _ + 1 => inferInstanceAs (Decidable (ite _ _ _))

end

variable {p : Param} {m : Word} {k : ℕ} {i : ℕ → TopInput} {x : Top} {d : Word}

theorem stores_of_memwr {y : Slot} (hw : y.memwr = true) (hr : y.redirects = false) :
    stores y = true := by
  have hf : y.flush = false := by
    cases hf : y.flush
    · rfl
    · rw [Slot.memwr_flush hf] at hw
      cases hw
  simp only [Slot.redirects, Slot.trap, hf, Bool.not_false, Bool.and_true,
    Bool.or_eq_false_iff] at hr
  rw [stores, hw, hr.2.1.1.1.1]
  rfl

theorem reset_word {r : Reg} (hr : Regs.stands r = false) :
    (Clint.reset d).regs.word r = 0#32 := by
  cases r with
  | mtime => cases hr
  | mtimeh => cases hr
  | mtimecmp =>
    change Device.lo 0#64 = 0#32
    decide
  | mtimecmph =>
    change Device.hi 0#64 = 0#32
    decide
  | msip =>
    change 0#15 ++ BitVec.ofBool false ++ 0#15 ++ BitVec.ofBool false = 0#32
    decide

section

variable (hx : x.core = .reset p m) (hc : x.clint = .reset d) (h : TopReady k i)
include hx hc h

omit hc in
theorem word_flushed {r : Reg} (hr : Regs.stands r = false) {t : ℕ} (ht : startup k ≤ t)
    (hf : (State.run p (x.inputs p i) m t).exFlush = true) :
    (x.run p i (t + 2)).clint.regs.word r = (x.run p i (t + 1)).clint.regs.word r := by
  rw [Top.word_after hx h ht hr, if_neg]
  rw [Slot.memwr_flush hf]
  simp

/-- One cycle after an instruction starts the register holds what was written before it. -/
theorem word_exCycle {r : Reg} (hr : Regs.stands r = false) (n : ℕ) :
    (x.run p i (exCycle p (x.inputs p i) m k n + 1)).clint.regs.word r =
      lastWritten p m k i x Slot.memwr r n &&& Clint.bits r := by
  have hrf : ReadyFrom k (x.inputs p i) := Top.readyFrom h
  induction n with
  | zero =>
    rw [exCycle, Top.regs_start hx h, Regs.word_tick _ _ hr, hc, reset_word hr]
    exact BitVec.zero_and.symm
  | succ n ih =>
    obtain ⟨hs, hf⟩ := State.exCycle_spec (p := p) (m := m) hrf n
    have hafter := Top.word_after hx h hs hr
    have hbt := (State.run_between (p := p) (m := m) hrf hs hf).1
    have hland : (x.run p i (nextCycle p (x.inputs p i) m
        (exCycle p (x.inputs p i) m k n) + 1)).clint.regs.word r =
        (x.run p i (exCycle p (x.inputs p i) m k n + 2)).clint.regs.word r := by
      generalize exCycle p (x.inputs p i) m k n = t at *
      rw [nextCycle] at hbt ⊢
      split
      · rename_i hrd
        rw [if_pos hrd] at hbt
        rw [word_flushed hx h hr (t := t + 2) (by omega) (hbt _ (by omega) (by omega)),
          word_flushed hx h hr (t := t + 1) (by omega) (hbt _ (by omega) (by omega))]
      · rfl
    rw [exCycle, hland, hafter, lastWritten, ih]
    change (if (instSlot p m k i x n).memwr = true ∧ (instSlot p m k i x n).memaddr = r.addr then
      _ else _) = (ite _ _ _) &&& _
    split <;> rfl

theorem loaded_eq {r : Reg} (hr : Regs.stands r = false) {n : ℕ}
    (he : (instSlot p m k i x n).Accesses (.load r)) :
    loaded p m k i x n = sampled p m k i x r n &&& Clint.bits r := by
  have hrf : ReadyFrom k (x.inputs p i) := Top.readyFrom h
  have hld := Top.load_rdata hx h (State.exCycle_spec (p := p) (m := m) hrf n).1 he
  rw [← Top.core_run hx, Regs.read_eq_word _ hr, Regs.word_tick _ _ hr] at hld
  rw [loaded, hld]
  cases n with
  | zero =>
    rw [exCycle, (Top.regs_startup hx h (le_refl (startup k))).2, hc, reset_word hr]
    exact BitVec.zero_and.symm
  | succ n =>
    obtain ⟨hs, hf⟩ := State.exCycle_spec (p := p) (m := m) hrf n
    have hbt := (State.run_between (p := p) (m := m) hrf hs hf).1
    have hnow := word_exCycle hx hc h hr n
    have hnext := word_exCycle hx hc h hr (n + 1)
    rw [sampled]
    rw [exCycle] at hnext ⊢
    change _ = (if (slotAt p (x.inputs p i) m (exCycle p (x.inputs p i) m k n)).redirects = true
      then _ else _) &&& _
    generalize exCycle p (x.inputs p i) m k n = t at *
    rw [nextCycle] at hbt hnext ⊢
    split
    · rename_i hrd
      rw [if_pos hrd] at hbt hnext
      rw [← hnext, word_flushed hx h hr (t := t + 2) (by omega) (hbt _ (by omega) (by omega))]
    · exact hnow

end

/-- A load of MTIMECMP or MSIP returns the word last stored there just when no store runs straight
on into it and changes that register, and none that raised an exception has overwritten it. -/
theorem readback_iff (p : Param) (m : Word) (k : ℕ) (i : ℕ → TopInput) (x : Top) (d : Word)
    (hx : x.core = .reset p m) (hc : x.clint = .reset d) (h : TopReady k i) (n : ℕ) (r : Reg)
    (hr : r = .mtimecmp ∨ r = .mtimecmph ∨ r = .msip)
    (he : (instSlot p m k i x n).Accesses (.load r)) :
    loaded p m k i x n = lastWritten p m k i x stores r n &&& Clint.bits r ↔
      Settled p m k i x r n := by
  have hst : Regs.stands r = false := by
    rcases hr with rfl | rfl | rfl <;> rfl
  rw [loaded_eq hx hc h hst he]
  cases n with
  | zero => exact iff_of_true rfl trivial
  | succ n =>
    rw [sampled, Settled]
    by_cases hd : (instSlot p m k i x n).redirects = true
    · have hn : ¬ (stores (instSlot p m k i x n) = true ∧ (instSlot p m k i x n).memaddr = r.addr ∧
          (instSlot p m k i x n).redirects = false) := by
        rw [hd]
        simp
      rw [if_pos hd, if_neg hn]
    · by_cases hw : (instSlot p m k i x n).memwr = true ∧ (instSlot p m k i x n).memaddr = r.addr
      · have hs : stores (instSlot p m k i x n) = true :=
          stores_of_memwr hw.1 (by simpa using hd)
        rw [if_neg hd, if_pos ⟨hs, hw.2, by simpa using hd⟩, lastWritten, if_pos ⟨hs, hw.2⟩]
        exact eq_comm
      · have hn : ¬ (stores (instSlot p m k i x n) = true ∧
            (instSlot p m k i x n).memaddr = r.addr ∧
            (instSlot p m k i x n).redirects = false) := by
          rintro ⟨hs, ha, -⟩
          simp only [stores, Bool.and_eq_true] at hs
          exact hw ⟨hs.1, ha⟩
        have hsame : lastWritten p m k i x Slot.memwr r (n + 1) =
            lastWritten p m k i x Slot.memwr r n := by
          rw [lastWritten, if_neg hw]
        rw [if_neg hd, if_neg hn, hsame]

/-- `lui x1, 0x90000`, `addi x2, x0, 5`, `sw x2, 8(x1)`, the instructions `gap` and
`lw x3, 8(x1)`. -/
def cmpProgram (gap : List Word) : List Word :=
  [0x900000b7#32, 0x00500113#32, 0x0020a423#32] ++ gap ++ [0x0080a183#32]

/-- Right behind the store the load returns what the store replaces. -/
theorem readback_next :
    let i := feed (cmpProgram [])
    TopReady 0 i ∧ (instSlot .rv32im 0#32 0 i bootTop 3).Accesses (.load .mtimecmp) ∧
      loaded .rv32im 0#32 0 i bootTop 3 = 0#32 ∧
      lastWritten .rv32im 0#32 0 i bootTop stores .mtimecmp 3 = 5#32 ∧
      ¬ loaded .rv32im 0#32 0 i bootTop 3 =
        lastWritten .rv32im 0#32 0 i bootTop stores .mtimecmp 3 &&& Clint.bits .mtimecmp := by
  intro i
  exact ⟨⟨fun _ => rfl, fun _ => rfl, fun _ => rfl, fun _ => rfl⟩, by decide +kernel,
    by decide +kernel, by decide +kernel, by decide +kernel⟩

/-- One instruction later it returns the word stored. -/
theorem readback_nop :
    let i := feed (cmpProgram [Rtl.nop])
    loaded .rv32im 0#32 0 i bootTop 4 =
      lastWritten .rv32im 0#32 0 i bootTop stores .mtimecmp 4 &&& Clint.bits .mtimecmp := by
  intro i
  have hr : TopReady 0 i := ⟨fun _ => rfl, fun _ => rfl, fun _ => rfl, fun _ => rfl⟩
  exact (readback_iff .rv32im 0#32 0 i bootTop 0#32 rfl rfl hr 4 .mtimecmp (Or.inl rfl)
    (by decide +kernel)).mpr (by decide +kernel)

end Srv32.Refine

import Srv32.Refine.Runs

/-! Cycle accuracy: `csr_cycle` and `csr_instret` of the core against the counters of the
simulator, which charges `branch_penalty` where the core flushes. -/

namespace Srv32.Refine

open Iss (Rv Host atSwitch)
open Rtl (Slot Board Pins State Calm ReadyFrom startup ramSize calm_low)
open Rtl.State (slotAt exCycle)

variable {memsize : ℕ} {pins : ℕ → Pins} {rv : Rv} {hosts : ℕ → Host} {k : Known} {exact : Bool}

/-! What is known on the way. -/

theorem known_counters (n : ℕ) : (known hosts rv k n).counters = k.counters := by
  induction n with
  | zero => rfl
  | succ n ih => exact ih

theorem known_mscratch {n i : ℕ} (hi : i < n)
    (hw : writesCsr (atSwitch .rv32im hosts rv i).2 csrMscratch = true) :
    (known hosts rv k n).mscratch = true := by
  induction n with
  | zero => omega
  | succ n ih =>
    rw [known, Known.after]
    rcases Nat.lt_succ_iff_lt_or_eq.mp hi with hlt | rfl
    · simp [ih hlt]
    · simp [hw]

theorem known_mtval (n : ℕ) :
    (known hosts rv (.atReset exact) n).mtval = (known hosts rv (.atReset exact) n).mepc := by
  induction n with
  | zero => rfl
  | succ n ih => simp only [known, Known.after, ih]

/-- `mepc` is unknown only between an MRET and the next trap. -/
theorem known_mepc {n : ℕ} (h : (known hosts rv (.atReset exact) n).mepc = false) :
    ∃ i < n, isMretWord (atSwitch .rv32im hosts rv i).2 = true ∧
      ∀ l, i < l → l < n → traps (Iss.result .rv32im hosts rv l) = false := by
  induction n with
  | zero => cases h
  | succ n ih =>
    rw [known, Known.after] at h
    simp only [Bool.and_eq_false_iff, Bool.not_eq_false', Bool.or_eq_false_iff] at h
    rcases h with hm | ⟨hk, ht⟩
    · exact ⟨n, by omega, hm, fun l hl hl' => by omega⟩
    · obtain ⟨i, hi, hm, hquiet⟩ := ih hk
      refine ⟨i, by omega, hm, fun l hl hl' => ?_⟩
      rcases Nat.lt_succ_iff_lt_or_eq.mp hl' with hlt | rfl
      · exact hquiet l hl hlt
      · exact ht

/-- A run that reads `mscratch` after writing it, and `mepc` and `mtval` not between an MRET and
the next trap, reads only what the two models agree on. -/
theorem readable_of_run {n : ℕ}
    (hscr : readsCsr (atSwitch .rv32im hosts rv n).2 csrMscratch = true →
      ∃ i < n, writesCsr (atSwitch .rv32im hosts rv i).2 csrMscratch = true)
    (hret : ∀ i < n, isMretWord (atSwitch .rv32im hosts rv i).2 = true →
      (∀ l, i < l → l < n → traps (Iss.result .rv32im hosts rv l) = false) →
      readsCsr (atSwitch .rv32im hosts rv n).2 csrMepc = false ∧
      isMretWord (atSwitch .rv32im hosts rv n).2 = false ∧
      readsCsr (atSwitch .rv32im hosts rv n).2 csrMtval = false) :
    Readable (known hosts rv (.atReset true) n) (atSwitch .rv32im hosts rv n).2 := by
  refine ⟨fun _ => known_counters n, fun hr => ?_, fun hr => ?_, fun hr => ?_⟩
  · obtain ⟨i, hi, hw⟩ := hscr hr
    exact known_mscratch hi hw
  · by_contra hk
    rw [Bool.not_eq_true] at hk
    obtain ⟨i, hi, hm, hq⟩ := known_mepc hk
    obtain ⟨h1, h2, -⟩ := hret i hi hm hq
    simp [h1, h2] at hr
  · by_contra hk
    rw [Bool.not_eq_true, known_mtval] at hk
    obtain ⟨i, hi, hm, hq⟩ := known_mepc hk
    rw [(hret i hi hm hq).2.2] at hr
    cases hr

/-- Cycle accuracy. From reset, with the simulator's options those of the core: stage 2 is
unflushed in the cycles `c 0 < c 1 < …` and in no others; in cycle `c n` it holds the simulator's
`n`-th instruction, and the core's counters are what `csr_rw` returns there. -/
theorem cycle_accurate (memsize : ℕ) (prog data : ℕ → Word) (m rdata : Word) (s : ℕ)
    (pins : ℕ → Pins) (hosts : ℕ → Host) (rv : Rv) (K : ℕ) (hc : Calm s pins)
    (h : AtReset memsize rv) (hx : Exact rv) (hmem : SameMem memsize prog data rv.mem)
    (hpc : ∀ n ≤ K, (atSwitch .rv32im hosts rv n).1.pc.toNat < ramSize memsize)
    (hs : ∀ n < K, Supported memsize (hosts n) (atSwitch .rv32im hosts rv n).1
      (atSwitch .rv32im hosts rv n).2)
    (hscr : ∀ n < K, readsCsr (atSwitch .rv32im hosts rv n).2 csrMscratch = true →
      ∃ i < n, writesCsr (atSwitch .rv32im hosts rv i).2 csrMscratch = true)
    (hret : ∀ n < K, ∀ i < n, isMretWord (atSwitch .rv32im hosts rv i).2 = true →
      (∀ l, i < l → l < n → traps (Iss.result .rv32im hosts rv l) = false) →
      readsCsr (atSwitch .rv32im hosts rv n).2 csrMepc = false ∧
      isMretWord (atSwitch .rv32im hosts rv n).2 = false ∧
      readsCsr (atSwitch .rv32im hosts rv n).2 csrMtval = false) :
    ∃ c : ℕ → ℕ, StrictMono c ∧
      (∀ t, startup s ≤ t →
        (((Board.boot .rv32im m prog data rdata).run .rv32im memsize pins t).core.exFlush =
            false ↔ ∃ n, t = c n)) ∧
      ∀ n ≤ K,
        let core := ((Board.boot .rv32im m prog data rdata).run .rv32im memsize pins (c n)).core
        core.exPc = (atSwitch .rv32im hosts rv n).1.pc ∧
        core.exInsn = (atSwitch .rv32im hosts rv n).2 ∧
        core.cycle = (atSwitch .rv32im hosts rv n).1.csr.cycle - 1#64 ∧
        core.instret = (atSwitch .rv32im hosts rv n).1.csr.instret - 1#64 := by
  have hb : (Board.boot .rv32im m prog data rdata).core = .reset .rv32im m := rfl
  have hrf : ReadyFrom s ((Board.boot .rv32im m prog data rdata).inputs .rv32im memsize pins) :=
    Board.readyFrom hc
  refine ⟨exCycle .rv32im
    ((Board.boot .rv32im m prog data rdata).inputs .rv32im memsize pins) m s,
    State.exCycle_strictMono, fun t ht => ?_, fun n hn => ?_⟩
  · rw [Board.core_run hb]
    exact State.exFlush_iff hrf ht
  · have hsim := Sim.run (n := n) hb hc h hmem (fun _ => hx)
      (fun j hj => hpc j (by omega)) (fun j hj => hs j (by omega))
      fun j hj => readable_of_run (hscr j (by omega)) (hret j (by omega))
    dsimp only
    rw [Board.core_run hb]
    have hk : (known hosts rv (.atReset true) n).counters = _ := known_counters n
    exact ⟨hsim.matched.pc, hsim.matched.insn, hsim.matched.cycle hk, hsim.matched.instret hk⟩

/-- A jump to the `rdcycle` at 8 takes three cycles. -/
theorem cycle_accurate_jal :
    let ws := [0x0080006f#32, 0#32, 0xc00020f3#32]
    let b := Board.boot .rv32im 0#32 (fun i => ws.getD i 0#32) (fun i => ws.getD (256 + i) 0#32) 0#32
    ∃ t, (b.run .rv32im 1 (fun _ => ⟨false, false, false, false⟩) t).core.exInsn = 0xc00020f3#32 ∧
      (b.run .rv32im 1 (fun _ => ⟨false, false, false, false⟩) t).core.cycle = 3#64 ∧
      (b.run .rv32im 1 (fun _ => ⟨false, false, false, false⟩) t).core.instret = 1#64 := by
  intro ws b
  have hs : ∀ n < 1, Supported 1 .none
      (atSwitch .rv32im (fun _ => .none) (Rv.boot .rv32im 1 (Iss.image ws)) n).1
      (atSwitch .rv32im (fun _ => .none) (Rv.boot .rv32im 1 (Iss.image ws)) n).2 := by
    intro n hn
    obtain rfl : n = 0 := by omega
    exact ⟨by decide, by decide, by unfold JumpsToSelf; decide, fun h => absurd h (by decide),
      fun h => absurd h (by decide), fun h => absurd h (by decide), by decide,
      fun h => absurd h (by decide), by decide, by unfold Rv.Undisturbed; decide⟩
  obtain ⟨c, -, -, hc⟩ := cycle_accurate 1 (fun i => ws.getD i 0#32)
    (fun i => ws.getD (256 + i) 0#32) 0#32 0#32 0 (fun _ => ⟨false, false, false, false⟩)
    (fun _ => .none) (Rv.boot .rv32im 1 (Iss.image ws)) 1 calm_low (atReset_boot (by decide) _)
    ⟨rfl, rfl, rfl⟩ (sameMem_image ws) (by decide) hs (by decide)
    (fun n hn i hi => absurd hi (by omega))
  obtain ⟨-, hin, hcy, hir⟩ := hc 1 le_rfl
  exact ⟨c 1, hin.trans (by decide), hcy.trans (by decide), hir.trans (by decide)⟩

end Srv32.Refine

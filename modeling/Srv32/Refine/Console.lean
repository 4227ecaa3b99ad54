import Srv32.Refine.HostCall

/-! Whole runs: the testbench and the simulator write the same to the console and to `dump.txt`, and
end together. -/

namespace Srv32.Rtl.Bench

open State (slotAt exCycle)

variable {p : Param} {memsize : ℕ} {b : Bench} {st : ℕ → Bool} {m : Word} {k : ℕ}

section

variable (memsize) (hb : b.soc.top.core = .reset p m) (hs : ∀ t, st t = decide (t < k))
include hb hs

theorem asks_view {t : ℕ} (ht : startup k ≤ t)
    (hf : (State.run p (b.inputs p memsize st) m t).exFlush = false) :
    let a := b.soc.view p memsize (b.host p memsize st) t
    (b.run p memsize st (t + 1)).stores memsize =
        (a.slot p memsize b.soc.imem.ram).stores memsize a.ram ∧
      (b.run p memsize st (t + 1)).calls memsize (st (t + 1)) =
        (a.slot p memsize b.soc.imem.ram).calls memsize a.ram a.regs := by
  obtain ⟨h1, h2⟩ := asks_succ memsize hb hs ht
  have hv : slotAt p (b.inputs p memsize st) m t = _ :=
    Soc.slotAt_view memsize (b.host p memsize st) hb hs ht hf
  rw [h1, h2, hv, soc_run]
  exact ⟨rfl, rfl⟩

end

end Srv32.Rtl.Bench

namespace Srv32.Refine

open Iss (Rv Host atSwitch written)
open Rtl (Bench Hart Soc ramSize startup)
open Rtl.State (exCycle)

/-- Whether FROMHOST has an answer before step `n`. -/
def answered (hosts : ℕ → Host) (rv : Rv) : ℕ → Bool
  | 0 => false
  | n + 1 => answers (answered hosts rv n) (atSwitch .rv32im hosts rv n).1
      (atSwitch .rv32im hosts rv n).2

variable {memsize s : ℕ} {b : Bench} {m d : Word} {prog data : ℕ → Word} {k : Known} {rv : Rv}
  {hosts : ℕ → Host} {st : ℕ → Bool}

theorem Lockstep.start (h : AtReset memsize rv) (hmem : SameMem memsize prog data rv.mem)
    (hpos : 0 < memsize) (hx : k.counters = true → Exact rv) (hm : k.mscratch = true → m = 0#32) :
    Lockstep k memsize prog (Hart.boot .rv32im m data) (rv.settle .rv32im) := by
  have hset := h.settle hpos
  have hpc : rv.fresh.pc = 0#32 := h.pc
  have hreg : rv.fresh.regs = fun _ => 0#32 := by
    change Function.update rv.regs 0#5 0#32 = _
    rw [h.regs]
    exact Function.update_eq_self (f := fun _ : BitVec 5 => 0#32) 0#5
  rw [hset]
  refine ⟨hpc.symm, ?_, ?_, fun n _ => (congrFun hreg n).symm, congrFun hreg _, hmem,
    ⟨h.mapped.memBase, h.mapped.memSize, h.mapped.small⟩, ?_, fun _ => ?_, fun _ => ?_,
    fun hk => ?_⟩
  · rw [hpc]
    unfold ramSize
    simp only [BitVec.toNat_ofNat]
    omega
  · rw [hpc]
    rfl
  · have hsame : SameCsr k (Rtl.State.reset .rv32im m).csr rv.csr := by
      rw [h.csr]
      exact ⟨rfl, rfl, rfl, rfl, rfl, rfl, rfl, rfl, rfl, rfl, rfl, hm, fun _ => rfl, fun _ => rfl⟩
    exact hsame.congr ⟨rfl, rfl, rfl, rfl⟩ rfl
  · change 0#64 = rv.csr.cycle
    rw [h.csr]
    rfl
  · change 0#64 = rv.csr.instret
    rw [h.csr]
    rfl
  · have he := hx hk
    exact ⟨he.branchPenalty, he.branchPredict, he.singleram⟩

/-- What each of the first `n` steps has to meet. -/
structure Session (memsize : ℕ) (k : Known) (hosts : ℕ → Host) (rv : Rv) (n : ℕ) : Prop where
  pc : ∀ j ≤ n, (atSwitch .rv32im hosts rv j).1.pc.toNat + 8 < ramSize memsize
  masked : ∀ j < n, (atSwitch .rv32im hosts rv j).1.csr.mstatus.getLsbD bitMie = false
  step : ∀ j < n, Cooperates memsize (known hosts rv k j) (hosts j) (answered hosts rv j)
    (written .rv32im hosts rv j).2 (atSwitch .rv32im hosts rv j).1 (atSwitch .rv32im hosts rv j).2

theorem Session.mono {n j : ℕ} (h : Session memsize k hosts rv n) (hj : j ≤ n) :
    Session memsize k hosts rv j :=
  ⟨fun i hi => h.pc i (hi.trans hj), fun i hi => h.masked i (hi.trans_le hj),
    fun i hi => h.step i (hi.trans_le hj)⟩

section

variable (hb : b.soc.top.core = .reset .rv32im m) (hs : ∀ t, st t = decide (t < s))
include hb hs

theorem Session.lockstep {n : ℕ} (h : Session memsize k hosts rv n)
    (hc : b.soc.top.clint = .reset d) (hr : AtReset memsize rv)
    (hmem : SameMem memsize b.soc.imem.ram b.soc.dmem.ram rv.mem)
    (hx : k.counters = true → Exact rv) (hm : k.mscratch = true → m = 0#32) :
    let c := exCycle .rv32im (b.inputs .rv32im memsize st) m s
    Lockstep (known hosts rv k n) memsize b.soc.imem.ram
        (b.soc.view .rv32im memsize (b.host .rv32im memsize st) (c n))
        ((Iss.run .rv32im hosts rv n).settle .rv32im) ∧
      (answered hosts rv n = true → (b.run .rv32im memsize st (c n + 1)).result =
        ((Iss.run .rv32im hosts rv n).settle .rv32im).htifResult) := by
  intro c
  induction n with
  | zero =>
    refine ⟨?_, fun hf => by cases hf⟩
    have hpos : 0 < memsize := by
      have := h.pc 0 le_rfl
      unfold ramSize at this
      omega
    have h0 : b.soc.view .rv32im memsize (b.host .rv32im memsize st) (c 0) = _ :=
      Soc.view_start memsize (b.host .rv32im memsize st) hb hs hc rfl
    rw [h0]
    exact Lockstep.start hr hmem hpos hx hm
  | succ n ih =>
    obtain ⟨hlock, hans⟩ := ih (h.mono (Nat.le_succ n))
    have hrf : Rtl.ReadyFrom s (b.inputs .rv32im memsize st) := Bench.readyFrom hs
    obtain ⟨hsn, hfn⟩ := Rtl.State.exCycle_spec (p := .rv32im) (m := m) hrf n
    have hview : b.soc.view .rv32im memsize (b.host .rv32im memsize st) (c (n + 1)) = _ :=
      Soc.view_next memsize (b.host .rv32im memsize st) hb hs hsn hfn
    have hstep := h.step n (Nat.lt_succ_self n)
    have hpc := h.pc n (Nat.le_succ n)
    have hpc' := h.pc (n + 1) le_rfl
    rw [Iss.atSwitch_pc, Iss.run_succ, Iss.result_eq] at hpc'
    rw [known, Iss.run_succ, Iss.result_eq, hview]
    rw [Iss.atSwitch_pc] at hpc
    refine ⟨hlock.cooperate hstep (h.masked n (Nat.lt_succ_self n)) hans (by omega)
      (Nat.lt_of_add_right_lt hpc'), fun ha => ?_⟩
    have hres : (b.run .rv32im memsize st (c (n + 1) + 1)).result = _ :=
      (Bench.written_next memsize hb hs hsn hfn).1
    rw [hres, (Bench.asks_view memsize hb hs hsn hfn).1]
    exact (hlock.reply hstep hans).2.2.2 ha

theorem Session.asks {n : ℕ} (h : Session memsize k hosts rv n)
    (hc : b.soc.top.clint = .reset d) (hr : AtReset memsize rv)
    (hmem : SameMem memsize b.soc.imem.ram b.soc.dmem.ram rv.mem)
    (hx : k.counters = true → Exact rv) (hm : k.mscratch = true → m = 0#32) {j : ℕ} (hj : j < n) :
    let c := exCycle .rv32im (b.inputs .rv32im memsize st) m s
    let r := (b.run .rv32im memsize st (c j + 1)).stores memsize
    let q := (b.run .rv32im memsize st (c j + 1)).calls memsize (st (c j + 1))
    let out := (atSwitch .rv32im hosts rv j).1.output (hosts j) .rv32im
      (atSwitch .rv32im hosts rv j).2
    (r.finish = false ∧ q.finish = false) ∧ r.console ++ q.console = out.console ∧
      (written .rv32im hosts rv j).2 ++ r.dump ++ q.dump =
        out.dump.getD (written .rv32im hosts rv j).2 := by
  intro c r q out
  obtain ⟨hlock, hans⟩ := (h.mono hj.le).lockstep hb hs hc hr hmem hx hm
  obtain ⟨hsj, hfj⟩ := Rtl.State.exCycle_spec (p := .rv32im) (m := m)
    (show Rtl.ReadyFrom s (b.inputs .rv32im memsize st) from Bench.readyFrom hs) j
  obtain ⟨h1, h2⟩ := Bench.asks_view memsize hb hs hsj hfj
  obtain ⟨hf, hcon, hdump, -⟩ := hlock.reply (h.step j hj) hans
  rw [← h1, ← h2] at hf hcon hdump
  exact ⟨hf, hcon, hdump⟩

theorem Session.unfinished {n : ℕ} (h : Session memsize k hosts rv n)
    (hc : b.soc.top.clint = .reset d) (hr : AtReset memsize rv)
    (hmem : SameMem memsize b.soc.imem.ram b.soc.dmem.ram rv.mem)
    (hx : k.counters = true → Exact rv) (hm : k.mscratch = true → m = 0#32)
    (h0 : b.finished = false) (hw : b.wbSystem = false) (hct : b.count = 0#8) (hk : s ≤ 90) :
    (b.run .rv32im memsize st
      (exCycle .rv32im (b.inputs .rv32im memsize st) m s n)).finished = false := by
  have hrf : Rtl.ReadyFrom s (b.inputs .rv32im memsize st) := Bench.readyFrom hs
  have hsmall := hr.mapped.based.small
  refine Bench.unfinished memsize hb hs h0 hw hct hk (by omega) (n := n) (fun j hj => ?_)
    (fun j hj ht => ?_) (fun j hj => ?_) le_rfl
  · exact (h.asks hb hs hc hr hmem hx hm hj).1
  · obtain ⟨hsj, hfj⟩ := Rtl.State.exCycle_spec (p := .rv32im) (m := m) hrf j
    have hl := ((h.mono hj.le).lockstep hb hs hc hr hmem hx hm).1
    have hv : Rtl.State.slotAt .rv32im (b.inputs .rv32im memsize st) m _ = _ :=
      Soc.slotAt_view memsize (b.host .rv32im memsize st) hb hs hsj hfj
    rw [hv] at ht
    have hset := hl.handler_set (h.step j hj) (h.masked j hj) ht
    rw [Soc.view_eq memsize hb] at hset
    exact hset
  · have hl := ((h.mono hj).lockstep hb hs hc hr hmem hx hm).1.pc
    have hpc := h.pc j hj
    rw [Iss.atSwitch_pc, ← hl, Soc.view_eq memsize hb] at hpc
    exact hpc

theorem Session.written {n : ℕ} (h : Session memsize k hosts rv n)
    (hc : b.soc.top.clint = .reset d) (hr : AtReset memsize rv)
    (hmem : SameMem memsize b.soc.imem.ram b.soc.dmem.ram rv.mem)
    (hx : k.counters = true → Exact rv) (hm : k.mscratch = true → m = 0#32)
    (h0 : b.finished = false) (hw : b.wbSystem = false) (hct : b.count = 0#8) (hk : s ≤ 90)
    (hcon : b.console = []) (hdump : b.dump = []) :
    let c := exCycle .rv32im (b.inputs .rv32im memsize st) m s
    (b.run .rv32im memsize st (c n + 1)).console = (Iss.written .rv32im hosts rv n).1 ∧
      (b.run .rv32im memsize st (c n + 1)).dump = (Iss.written .rv32im hosts rv n).2 := by
  intro c
  induction n with
  | zero =>
    obtain ⟨hc0, hd0⟩ := Bench.written_startup memsize hb hs hw (t := c 0 + 1) le_rfl
    exact ⟨hc0.trans hcon, hd0.trans hdump⟩
  | succ n ih =>
    obtain ⟨hcn, hdn⟩ := ih (h.mono (Nat.le_succ n))
    obtain ⟨hsn, hfn⟩ := Rtl.State.exCycle_spec (p := .rv32im) (m := m)
      (show Rtl.ReadyFrom s (b.inputs .rv32im memsize st) from Bench.readyFrom hs) n
    obtain ⟨-, hcq, hdq⟩ := h.asks hb hs hc hr hmem hx hm (Nat.lt_succ_self n)
    have hlt : c n < c (n + 1) := Rtl.State.exCycle_strictMono (Nat.lt_succ_self n)
    have hfin := Bench.finished_mono (show c n + 1 ≤ c (n + 1) from hlt)
      (h.unfinished hb hs hc hr hmem hx hm h0 hw hct hk)
    obtain ⟨hcon', hdump'⟩ := (Bench.written_next memsize hb hs hsn hfn).2 hfin
    refine ⟨hcon'.trans ?_, hdump'.trans ?_⟩
    · rw [List.append_assoc, hcq, hcn]
      rfl
    · rw [hdn, hdq]
      rfl

end

/-- The testbench and the simulator write the same for the program: by each instruction the same
bytes to the console and the same text to `dump.txt`, and nothing more after the instruction that
ends it in both. -/
theorem console_agrees (memsize : ℕ) (m : Word) (prog data : ℕ → Word) (rdata result : Word)
    (s : ℕ) (hk : s ≤ 90) (k : Known) (rv : Rv) (hosts : ℕ → Host) (hr : AtReset memsize rv)
    (hmem : SameMem memsize prog data rv.mem) (hx : k.counters = true → Exact rv)
    (hm : k.mscratch = true → m = 0#32) :
    let b := Bench.boot .rv32im m prog data rdata result
    let bench := b.run .rv32im memsize fun t => decide (t < s)
    ∃ c : ℕ → ℕ, StrictMono c ∧
      (∀ t, startup s ≤ t → ((bench t).soc.top.core.exFlush = false ↔ ∃ n, t = c n)) ∧
      ∀ n, Session memsize k hosts rv n →
        (bench (c n)).finished = false ∧
        ((bench (c n + 1)).console, (bench (c n + 1)).dump) = written .rv32im hosts rv n ∧
        (Exits memsize (atSwitch .rv32im hosts rv n).1 (atSwitch .rv32im hosts rv n).2 →
          (∃ status, (Iss.result .rv32im hosts rv n).1 = .exit status) ∧
            ∀ t, c n + 2 ≤ t → (bench t).finished = true ∧
              ((bench t).console, (bench t).dump) = written .rv32im hosts rv n) := by
  intro b bench
  have hb : b.soc.top.core = .reset .rv32im m := rfl
  have hs : ∀ t, (fun t => decide (t < s)) t = decide (t < s) := fun _ => rfl
  have hrf : Rtl.ReadyFrom s (b.inputs .rv32im memsize fun t => decide (t < s)) :=
    Bench.readyFrom hs
  refine ⟨exCycle .rv32im (b.inputs .rv32im memsize fun t => decide (t < s)) m s,
    Rtl.State.exCycle_strictMono, fun t ht => ?_, fun n h => ?_⟩
  · rw [Bench.core_run hb]
    exact Rtl.State.exFlush_iff hrf ht
  obtain ⟨hcon, hdump⟩ := h.written hb hs rfl hr hmem hx hm rfl rfl rfl hk rfl rfl
  refine ⟨h.unfinished hb hs rfl hr hmem hx hm rfl rfl rfl hk, Prod.ext hcon hdump, fun hex => ?_⟩
  obtain ⟨hlock, -⟩ := h.lockstep hb hs rfl hr hmem hx hm
  obtain ⟨hsn, hfn⟩ := Rtl.State.exCycle_spec (p := .rv32im) (m := m) hrf n
  obtain ⟨hend, ⟨hc0, hd0⟩, hret⟩ := hlock.exit_reply hex
  obtain ⟨h1, h2⟩ := Bench.asks_view memsize hb hs hsn hfn
  rw [← h1, ← h2] at hend hc0 hd0
  refine ⟨?_, fun t ht => ?_⟩
  · rw [Iss.result_eq]
    exact hret
  · obtain ⟨hf, hc, hd⟩ := Bench.ended_next hend hc0 hd0
    obtain ⟨hft, hct, hdt⟩ := Bench.written_after ht hf
    exact ⟨hft, Prod.ext (hct.trans (hc.trans hcon)) (hdt.trans (hd.trans hdump))⟩

/-- A program that writes one byte to PUTC and ends with an ECALL. -/
theorem console_agrees_putc :
    let ws := [0xa00002b7#32, 0x05d00893#32, 0x01128e23#32, 0x00000073#32]
    let b := Bench.boot .rv32im 0#32 (fun i => ws.getD i 0#32) (fun i => ws.getD (256 + i) 0#32)
      0#32 0#32
    ∃ t, (b.run .rv32im 1 (fun t => decide (t < 0)) t).finished = true ∧
      ((b.run .rv32im 1 (fun t => decide (t < 0)) t).console,
        (b.run .rv32im 1 (fun t => decide (t < 0)) t).dump) = ([0x5d#8], []) := by
  intro ws b
  have hplain : ∀ n < 2, Cooperates 1
      (known (fun _ => .none) (Rv.boot .rv32im 1 (Iss.image ws)) (.atReset false) n) .none
      (answered (fun _ => .none) (Rv.boot .rv32im 1 (Iss.image ws)) n)
      (written .rv32im (fun _ => .none) (Rv.boot .rv32im 1 (Iss.image ws)) n).2
      (atSwitch .rv32im (fun _ => .none) (Rv.boot .rv32im 1 (Iss.image ws)) n).1
      (atSwitch .rv32im (fun _ => .none) (Rv.boot .rv32im 1 (Iss.image ws)) n).2 := by
    intro n hn
    rcases (by omega : n = 0 ∨ n = 1) with rfl | rfl
    · refine .plain ⟨by decide, by decide, by unfold JumpsToSelf; decide,
        fun h => absurd h (by decide), fun h => absurd h (by decide), fun h => absurd h (by decide),
        by decide, fun h => absurd h (by decide), by decide, by unfold Rv.Undisturbed; decide⟩
        ⟨fun h => absurd h (by decide), fun h => absurd h (by decide),
        fun h => absurd h (by decide), fun h => absurd h (by decide)⟩
        (fun h => absurd h (by decide)) (fun h => absurd h (by decide))
    · refine .plain ⟨by decide, by decide, by unfold JumpsToSelf; decide,
        fun h => absurd h (by decide), fun h => absurd h (by decide), fun h => absurd h (by decide),
        by decide, fun h => absurd h (by decide), by decide, by unfold Rv.Undisturbed; decide⟩
        ⟨fun h => absurd h (by decide), fun h => absurd h (by decide),
        fun h => absurd h (by decide), fun h => absurd h (by decide)⟩
        (fun h => absurd h (by decide)) (fun h => absurd h (by decide))
  have hses : Session 1 (.atReset false) (fun _ => .none) (Rv.boot .rv32im 1 (Iss.image ws)) 3 := by
    refine ⟨by decide, by decide, fun j hj => ?_⟩
    by_cases h2 : j < 2
    · exact hplain j h2
    · obtain rfl : j = 2 := by omega
      exact .putc (by decide +kernel) (by decide +kernel) (by decide +kernel)
  obtain ⟨c, -, -, hc⟩ := console_agrees 1 0#32 (fun i => ws.getD i 0#32)
    (fun i => ws.getD (256 + i) 0#32) 0#32 0#32 0 (by decide) (.atReset false)
    (Rv.boot .rv32im 1 (Iss.image ws)) (fun _ => .none) (atReset_boot (by decide) _)
    (sameMem_image ws) (fun h => by cases h) (fun h => by cases h)
  obtain ⟨-, -, hend⟩ := hc 3 hses
  obtain ⟨hfin, hout⟩ := (hend (.call (by decide +kernel) (by decide +kernel))).2 (c 3 + 2) le_rfl
  refine ⟨c 3 + 2, hfin, hout.trans ?_⟩
  decide

end Srv32.Refine

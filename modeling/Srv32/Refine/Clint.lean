import Srv32.Iss.Clint
import Srv32.Rtl.Top
import Srv32.Refine.Simulation

/-! The CLINT of the simulator and that of `rtl/top.v`: the same loads and request levels, as long
as software does not read back a bit of MSIP that the module does not have. -/

namespace Srv32.Refine

open Device (Reg Access Regs msipAt)
open Iss (Rv Host atSwitch)
open Rtl (Top TopInput TopReady State)
open Rtl.Clint (msipBits)
open Rtl.State (slotAt exCycle)

section

variable (m : Word) (k : ℕ) (i : ℕ → TopInput) (x : Top) (hosts : ℕ → Host) (rv : Rv)
  (es : ℕ → Access) (N : ℕ)

def cycleOf (n : ℕ) : ℕ := exCycle .rv32im (x.inputs .rv32im i) m k n

/-- Both models execute the accesses `es`, from the same CLINT registers and with the same cycle
counts. -/
structure SameAccesses : Prop where
  core : x.core = .reset .rv32im m
  ready : TopReady k i
  beside : rv.Beside
  rtl : ∀ n < N, (slotAt .rv32im (x.inputs .rv32im i) m (cycleOf m k i x n)).Accesses (es n)
  iss : ∀ n < N, (atSwitch .rv32im hosts rv n).1.Accesses .rv32im (atSwitch .rv32im hosts rv n).2
    (es n)
  start : (atSwitch .rv32im hosts rv 0).1.device = x.clint.regs.tick 1#64
  cycle : ∀ n < N, (x.run .rv32im i (cycleOf m k i x n)).core.cycle =
    (atSwitch .rv32im hosts rv n).1.csr.cycle - 1#64

/-- Each access comes at least two other instructions after the last. -/
def Spaced (es : ℕ → Access) : Prop :=
  ∀ n, es n ≠ .other → es (n + 1) = .other ∧ es (n + 2) = .other

/-- Instruction `n` loads the same value in both, and finds the same request levels: those of the
simulator are its static variables, the core sees its own one cycle later. -/
def SameClint (n : ℕ) : Prop :=
  let d := atSwitch .rv32im hosts rv n
  let t := cycleOf m k i x n + 1
  (∀ r, es n = .load r → (d.1.execNext .rv32im d.2 (hosts n) false).2.regs (rd d.2) =
    (x.run .rv32im i t).core.wbValue (x.inputs .rv32im i t)) ∧
  d.1.latch.swIrq = (x.run .rv32im i t).clint.swIrq ∧
  d.1.latch.extIrq = (x.run .rv32im i t).clint.exIrq

end

variable {m : Word} {k : ℕ} {i : ℕ → TopInput} {x : Top} {hosts : ℕ → Host} {rv : Rv}
  {es : ℕ → Access} {N : ℕ}

namespace SameAccesses

variable (h : SameAccesses m k i x hosts rv es N)
include h

theorem cycles_eq {n : ℕ} (hn : n + 1 < N) :
    State.cycles (slotAt .rv32im (x.inputs .rv32im i) m (cycleOf m k i x n)) =
      (atSwitch .rv32im hosts rv (n + 1)).1.csr.cycle -
        (atSwitch .rv32im hosts rv n).1.csr.cycle := by
  have h0 := h.cycle n (by omega)
  have h1 := h.cycle (n + 1) hn
  obtain ⟨hs, hf⟩ := State.exCycle_spec (p := .rv32im) (m := m) (Top.readyFrom h.ready) n
  have hc := (State.run_next (p := .rv32im) (m := m) (Top.readyFrom h.ready) hs hf).2.2.1
  rw [Top.core_run h.core] at h0 h1
  rw [cycleOf] at *
  rw [exCycle, hc, h0] at h1
  bv_omega

theorem device_run {n : ℕ} (hn : n < N) :
    (atSwitch .rv32im hosts rv n).1.device =
      (atSwitch .rv32im hosts rv 0).1.device.run (BitVec.allOnes 32) es
        (fun j => (atSwitch .rv32im hosts rv (j + 1)).1.csr.cycle -
          (atSwitch .rv32im hosts rv j).1.csr.cycle) n ∧
      (atSwitch .rv32im hosts rv n).1.Beside :=
  Rv.device_run h.beside fun j hj => h.iss j (by omega)

/-- The registers of `clint.v` are those of the simulator, less the bits of MSIP it lacks. -/
theorem regs_eq {n : ℕ} (hn : n < N) :
    (x.run .rv32im i (cycleOf m k i x n + 1)).clint.regs =
      (atSwitch .rv32im hosts rv n).1.device.masked msipBits := by
  have hrtl : (x.run .rv32im i (exCycle .rv32im (x.inputs .rv32im i) m k n + 1)).clint.regs = _ :=
    Top.regs_exCycle h.core h.ready fun j hj => h.rtl j (by omega)
  obtain ⟨hiss, -⟩ := h.device_run hn
  have hm : (x.clint.regs.tick 1#64).masked msipBits = x.clint.regs.tick 1#64 :=
    congrArg (Regs.tick · 1#64) (Rtl.Clint.regs_masked x.clint)
  rw [cycleOf, hrtl, hiss, h.start, ← Regs.run_masked, hm]
  exact Regs.run_congr fun j hj => h.cycles_eq (by omega)

theorem levels {n : ℕ} (hn : n < N) :
    (atSwitch .rv32im hosts rv n).1.latch.swIrq =
        (x.run .rv32im i (cycleOf m k i x n + 1)).clint.swIrq ∧
      (atSwitch .rv32im hosts rv n).1.latch.extIrq =
        (x.run .rv32im i (cycleOf m k i x n + 1)).clint.exIrq := by
  have hm : (x.run .rv32im i (cycleOf m k i x n + 1)).clint.msip =
      (atSwitch .rv32im hosts rv n).1.csr.msip &&& msipBits := congrArg Regs.msip (h.regs_eq hn)
  generalize hc : (x.run .rv32im i (cycleOf m k i x n + 1)).clint = c at hm
  have hsw : (atSwitch .rv32im hosts rv n).1.latch.swIrq =
      decide ((atSwitch .rv32im hosts rv n).1.csr.msip &&& 1#32 <<< 0 ≠ 0#32) := rfl
  have hex : (atSwitch .rv32im hosts rv n).1.latch.extIrq =
      decide ((atSwitch .rv32im hosts rv n).1.csr.msip &&& 1#32 <<< 16 ≠ 0#32) := rfl
  have hbit : ∀ (w : Word) (j : ℕ), j < 32 → decide (w &&& 1#32 <<< j ≠ 0#32) = w.getLsbD j := by
    intro w j hj
    rw [Bool.eq_iff_iff, decide_eq_true_eq]
    exact Bits.and_bit_ne_zero w hj
  rw [hsw, hex, hbit _ 0 (by omega), hbit _ 16 (by omega)]
  have h0 : c.msip.getLsbD 0 = c.swIrq := by
    rw [Rtl.Clint.msip]
    cases c.exIrq <;> cases c.swIrq <;> rfl
  have h16 : c.msip.getLsbD 16 = c.exIrq := by
    rw [Rtl.Clint.msip]
    cases c.exIrq <;> cases c.swIrq <;> rfl
  rw [← h0, ← h16, hm, BitVec.getLsbD_and, BitVec.getLsbD_and]
  have hb0 : msipBits.getLsbD 0 = true := by decide
  have hb16 : msipBits.getLsbD 16 = true := by decide
  rw [hb0, hb16, Bool.and_true, Bool.and_true]
  exact ⟨rfl, rfl⟩

theorem loads (hsep : Spaced es) {n : ℕ} (hn : n < N) {r : Reg} (he : es n = .load r) :
    ((atSwitch .rv32im hosts rv n).1.execNext .rv32im (atSwitch .rv32im hosts rv n).2
        (hosts n) false).2.regs (rd (atSwitch .rv32im hosts rv n).2) =
      (atSwitch .rv32im hosts rv n).1.device.read r ∧
    (x.run .rv32im i (cycleOf m k i x n + 1)).core.wbValue
        (x.inputs .rv32im i (cycleOf m k i x n + 1)) =
      ((atSwitch .rv32im hosts rv n).1.device.masked msipBits).read r := by
  have hb := (h.device_run hn).2
  have hiss := h.iss n hn
  have hrtl := h.rtl n hn
  rw [he] at hiss hrtl
  refine ⟨Rv.load_device hb hiss, ?_⟩
  have hidle := Top.idle_exCycle (p := .rv32im) (m := m) h.core h.ready (n := n) <| by
    intro j hj r' hm ha
    -- the instruction before a load is no access
    have hother : es j = .other := by
      by_contra hne
      have h1 := (hsep j hne).1
      rw [← hj, he] at h1
      cases h1
    have hno := h.rtl j (by omega)
    rw [hother, cycleOf] at hno
    rw [Rtl.Slot.memwr, (hno r' ha).1] at hm
    simp at hm
  have hr : Rtl.ReadyFrom k (x.inputs .rv32im i) := Top.readyFrom h.ready
  have hs := (State.exCycle_spec (p := .rv32im) (m := m) hr n).1
  rw [← h.regs_eq hn, Top.core_run h.core]
  exact Top.load_value h.core h.ready hs hrtl hidle

end SameAccesses

/-- The two CLINTs agree, over any sequence of word accesses, just when no load of MSIP follows a
store that sets a bit other than 0 and 16. -/
theorem clint_agree_iff (m : Word) (k : ℕ) (i : ℕ → TopInput) (x : Top) (hosts : ℕ → Host)
    (rv : Rv) (es : ℕ → Access) (N : ℕ) (h : SameAccesses m k i x hosts rv es N)
    (hsep : Spaced es) :
    (∀ n < N, SameClint m k i x hosts rv es n) ↔
      ∀ n < N, es n = .load .msip → msipAt x.clint.msip es n &&& ~~~msipBits = 0#32 := by
  have hmsip : ∀ n < N, (atSwitch .rv32im hosts rv n).1.device.msip =
      msipAt x.clint.msip es n := by
    intro n hn
    rw [(h.device_run hn).1, Regs.run_msip, h.start]
    rfl
  constructor
  · intro hs n hn he
    have hl := (hs n hn).1 .msip he
    obtain ⟨hiss, hrtl⟩ := h.loads hsep hn he
    rw [hiss, hrtl, Regs.read_masked_eq_iff] at hl
    rw [← hmsip n hn]
    exact hl rfl
  · intro hc n hn
    refine ⟨fun r he => ?_, h.levels hn⟩
    obtain ⟨hiss, hrtl⟩ := h.loads hsep hn he
    rw [hiss, hrtl, Regs.read_masked_eq_iff]
    rintro rfl
    rw [hmsip n hn]
    exact hc n hn he

/-- The words `ws` fed to stage 1 from start-up on. -/
def feed (ws : List Word) (t : ℕ) : TopInput :=
  ⟨false, false, true, ws.getD (t - 2) Rtl.nop, true, true, 0#32⟩

def bootTop : Top := ⟨.reset .rv32im 0#32, .reset 0#32, false⟩

/-- `lui x1, 0x90000`, two instructions that load `x2`, `sw x2, 16(x1)`, two NOPs and
`lw x3, 16(x1)`. -/
def msipProgram (lui addi : Word) : List Word :=
  [0x900000b7#32, lui, addi, 0x0020a823#32, 0x00000013#32, 0x00000013#32, 0x0100a183#32]

def msipAccesses (v : Word) (n : ℕ) : Access :=
  if n = 3 then .store .msip v else if n = 6 then .load .msip else .other

theorem spaced_msip (v : Word) : Spaced (msipAccesses v) := by
  intro n hn
  have h36 : n = 3 ∨ n = 6 := by
    by_contra hne
    rw [not_or] at hne
    exact hn (by rw [msipAccesses, if_neg hne.1, if_neg hne.2])
  rcases h36 with rfl | rfl <;> exact ⟨rfl, rfl⟩

/-- MSIP with just the bits of the two requests reads back the same. -/
theorem clint_agree_requests :
    let ws := msipProgram 0x00010137#32 0x00110113#32
    ∀ n < 7, SameClint 0#32 0 (feed ws) bootTop (fun _ => .none)
      (Rv.boot .rv32im 1 (Iss.image ws)) (msipAccesses 0x00010001#32) n := by
  intro ws
  refine (clint_agree_iff 0#32 0 (feed ws) bootTop (fun _ => .none)
    (Rv.boot .rv32im 1 (Iss.image ws)) (msipAccesses 0x00010001#32) 7 ?_ (spaced_msip _)).mpr ?_
  · exact ⟨rfl, ⟨fun _ => rfl, fun _ => rfl, fun _ => rfl, fun _ => rfl⟩, ⟨rfl, by decide⟩,
      by decide +kernel, by decide +kernel, by decide +kernel, by decide +kernel⟩
  · decide

/-- All ones stored to MSIP read back as all ones in the simulator alone. -/
theorem clint_differ_ones :
    let ws := msipProgram 0x00000137#32 0xfff10113#32
    let rv := Rv.boot .rv32im 1 (Iss.image ws)
    SameAccesses 0#32 0 (feed ws) bootTop (fun _ => .none) rv (msipAccesses 0xffffffff#32) 7 ∧
      Spaced (msipAccesses 0xffffffff#32) ∧
      ¬ ∀ n < 7, SameClint 0#32 0 (feed ws) bootTop (fun _ => .none) rv
        (msipAccesses 0xffffffff#32) n := by
  intro ws rv
  refine ⟨?_, spaced_msip _, fun h => ?_⟩
  · exact ⟨rfl, ⟨fun _ => rfl, fun _ => rfl, fun _ => rfl, fun _ => rfl⟩, ⟨rfl, by decide⟩,
      by decide +kernel, by decide +kernel, by decide +kernel, by decide +kernel⟩
  · have hl := (h 6 (by omega)).1 .msip rfl
    revert hl
    decide +kernel

end Srv32.Refine

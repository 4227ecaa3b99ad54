import Srv32.Opcode
import Srv32.Bits

/-! The CLINT as software sees it: five words, two of them the halves of a counter that moves on
with the cycles, and what one executed instruction does to them. -/

namespace Srv32.Device

inductive Reg where
  | mtime
  | mtimeh
  | mtimecmp
  | mtimecmph
  | msip
  deriving DecidableEq, Repr

def Reg.addr : Reg → Word
  | .mtime => mmioMtime
  | .mtimeh => mmioMtime + 4#32
  | .mtimecmp => mmioMtimecmp
  | .mtimecmph => mmioMtimecmp + 4#32
  | .msip => mmioMsip

instance {P : Reg → Prop} [DecidablePred P] : Decidable (∀ r, P r) :=
  decidable_of_iff (P .mtime ∧ P .mtimeh ∧ P .mtimecmp ∧ P .mtimecmph ∧ P .msip)
    ⟨fun ⟨h0, h1, h2, h3, h4⟩ r => by cases r <;> assumption,
      fun h => ⟨h _, h _, h _, h _, h _⟩⟩

inductive Access where
  | other
  | load (r : Reg)
  | store (r : Reg) (v : Word)
  deriving DecidableEq, Repr

/-- The registers, `mtime` being one ahead of what an instruction executed now would load. -/
@[ext] structure Regs where
  mtime : BitVec 64
  mtimecmp : BitVec 64
  msip : Word
  deriving DecidableEq, Repr

def lo (c : BitVec 64) : Word := c.extractLsb' 0 32
def hi (c : BitVec 64) : Word := c.extractLsb' 32 32
def setLo (c : BitVec 64) (v : Word) : BitVec 64 := hi c ++ v
def setHi (c : BitVec 64) (v : Word) : BitVec 64 := v ++ lo c

theorem lo_append (v w : Word) : lo (v ++ w) = w := by
  apply BitVec.eq_of_getLsbD_eq
  intro i hi
  rw [lo, BitVec.getLsbD_extractLsb', Nat.zero_add, BitVec.getLsbD_append]
  simp only [hi, decide_true, Bool.true_and, if_true]

theorem hi_append (v w : Word) : hi (v ++ w) = v := by
  apply BitVec.eq_of_getLsbD_eq
  intro i hi
  rw [Device.hi, BitVec.getLsbD_extractLsb', BitVec.getLsbD_append, if_neg (by omega),
    Nat.add_sub_cancel_left]
  simp only [hi, decide_true, Bool.true_and]

@[simp] theorem lo_setLo (c : BitVec 64) (v : Word) : lo (setLo c v) = v := lo_append _ _
@[simp] theorem lo_setHi (c : BitVec 64) (v : Word) : lo (setHi c v) = lo c := lo_append _ _
@[simp] theorem hi_setLo (c : BitVec 64) (v : Word) : hi (setLo c v) = hi c := hi_append _ _
@[simp] theorem hi_setHi (c : BitVec 64) (v : Word) : hi (setHi c v) = v := hi_append _ _

namespace Regs

def read (s : Regs) : Reg → Word
  | .mtime => lo (s.mtime - 1#64)
  | .mtimeh => hi (s.mtime - 1#64)
  | .mtimecmp => lo s.mtimecmp
  | .mtimecmph => hi s.mtimecmp
  | .msip => s.msip

/-- A store, `bits` being the bits of MSIP that exist. -/
def write (bits : Word) (s : Regs) (r : Reg) (v : Word) : Regs :=
  match r with
  | .mtime => { s with mtime := setLo s.mtime v }
  | .mtimeh => { s with mtime := setHi s.mtime v }
  | .mtimecmp => { s with mtimecmp := setLo s.mtimecmp v }
  | .mtimecmph => { s with mtimecmp := setHi s.mtimecmp v }
  | .msip => { s with msip := v &&& bits }

def tick (s : Regs) (cycles : BitVec 64) : Regs := { s with mtime := s.mtime + cycles }

theorem tick_tick (s : Regs) (c d : BitVec 64) : (s.tick c).tick d = s.tick (c + d) := by
  have hassoc : s.mtime + c + d = s.mtime + (c + d) := BitVec.add_assoc _ _ _
  simp only [tick, hassoc]

theorem tick_injective {s t : Regs} {c : BitVec 64} (h : s.tick c = t.tick c) : s = t := by
  have hm : s.mtime + c = t.mtime + c := congrArg Regs.mtime h
  ext1
  · bv_omega
  · have hc : (s.tick c).mtimecmp = (t.tick c).mtimecmp := congrArg Regs.mtimecmp h
    exact hc
  · have hp : (s.tick c).msip = (t.tick c).msip := congrArg Regs.msip h
    exact hp

/-- What a store replaces. -/
def word (s : Regs) : Reg → Word
  | .mtime => lo s.mtime
  | .mtimeh => hi s.mtime
  | .mtimecmp => lo s.mtimecmp
  | .mtimecmph => hi s.mtimecmp
  | .msip => s.msip

theorem word_write (s : Regs) (r : Reg) (v : Word) :
    (s.write (BitVec.allOnes 32) r v).word r = v := by
  cases r with
  | mtime => exact lo_setLo _ _
  | mtimeh => exact hi_setHi _ _
  | mtimecmp => exact lo_setLo _ _
  | mtimecmph => exact hi_setHi _ _
  | msip => exact BitVec.and_allOnes

theorem write_injective (s : Regs) (r : Reg) :
    Function.Injective (s.write (BitVec.allOnes 32) r) := by
  intro v w h
  rw [← word_write s r v, h, word_write]

/-- The counter stands in the cycle that writes it. -/
def stands : Reg → Bool
  | .mtime => true
  | .mtimeh => true
  | _ => false

theorem read_eq_word (s : Regs) {r : Reg} (h : stands r = false) : s.read r = s.word r := by
  cases r <;> first | rfl | cases h

theorem word_tick (s : Regs) (c : BitVec 64) {r : Reg} (h : stands r = false) :
    (s.tick c).word r = s.word r := by
  cases r <;> first | rfl | cases h

/-- The registers at the next instruction, `cycles` later. -/
def after (bits : Word) (s : Regs) (e : Access) (cycles : BitVec 64) : Regs :=
  match e with
  | .store r v => (s.write bits r v).tick (if stands r then cycles - 1#64 else cycles)
  | _ => s.tick cycles

theorem after_tick (bits : Word) (s : Regs) (e : Access) (c d : BitVec 64) :
    (s.after bits e c).tick d = s.after bits e (c + d) := by
  cases e with
  | store r v =>
    rw [after, after, tick_tick]
    congr 1
    split
    · bv_omega
    · rfl
  | _ => exact tick_tick s c d

/-- The registers with the bits of MSIP that do not exist cut off. -/
def masked (bits : Word) (s : Regs) : Regs := { s with msip := s.msip &&& bits }

@[simp] theorem masked_mtime (bits : Word) (s : Regs) : (s.masked bits).mtime = s.mtime := rfl
@[simp] theorem masked_mtimecmp (bits : Word) (s : Regs) :
    (s.masked bits).mtimecmp = s.mtimecmp := rfl
@[simp] theorem masked_msip (bits : Word) (s : Regs) :
    (s.masked bits).msip = s.msip &&& bits := rfl

theorem after_masked (bits : Word) (s : Regs) (e : Access) (c : BitVec 64) :
    (s.masked bits).after bits e c = (s.after (BitVec.allOnes 32) e c).masked bits := by
  cases e with
  | other => rfl
  | load r => rfl
  | store r v =>
    cases r with
    | msip =>
      have hv : v &&& bits = v &&& BitVec.allOnes 32 &&& bits := by rw [BitVec.and_allOnes]
      simp only [after, write, tick, masked, hv]
    | _ => rfl

theorem read_masked (bits : Word) (s : Regs) (r : Reg) :
    (s.masked bits).read r = if r = .msip then s.msip &&& bits else s.read r := by
  cases r <;> rfl

/-- A load sees the cut just when MSIP holds a bit that does not exist. -/
theorem read_masked_eq_iff (bits : Word) (s : Regs) (r : Reg) :
    s.read r = (s.masked bits).read r ↔ (r = .msip → s.msip &&& ~~~bits = 0#32) := by
  rw [read_masked]
  have hcut : s.msip = s.msip &&& bits ↔ s.msip &&& ~~~bits = 0#32 := by
    constructor
    · intro h
      rw [h, BitVec.and_assoc, BitVec.and_not_self]
      exact BitVec.and_zero
    · intro h
      have hsplit : s.msip = (s.msip &&& bits) ||| (s.msip &&& ~~~bits) := by
        rw [← BitVec.and_or_distrib_left, BitVec.or_not_self, BitVec.and_allOnes]
      rw [h, BitVec.or_zero] at hsplit
      exact hsplit
  by_cases hr : r = .msip
  · subst hr
    simpa [read] using hcut
  · simp [hr]

/-- The registers at instruction `n` of a run. -/
def run (bits : Word) (s : Regs) (es : ℕ → Access) (cycles : ℕ → BitVec 64) : ℕ → Regs
  | 0 => s
  | n + 1 => (run bits s es cycles n).after bits (es n) (cycles n)

theorem run_congr {bits : Word} {s : Regs} {es : ℕ → Access} {c c' : ℕ → BitVec 64} {n : ℕ}
    (hc : ∀ j < n, c j = c' j) : s.run bits es c n = s.run bits es c' n := by
  induction n with
  | zero => rfl
  | succ n ih => rw [run, run, ih fun j hj => hc j (by omega), hc n (by omega)]

theorem run_masked (bits : Word) (s : Regs) (es : ℕ → Access) (cycles : ℕ → BitVec 64) (n : ℕ) :
    (s.masked bits).run bits es cycles n =
      (s.run (BitVec.allOnes 32) es cycles n).masked bits := by
  induction n with
  | zero => rfl
  | succ n ih => rw [run, run, ih, after_masked]

end Regs

/-- The word last stored to MSIP before instruction `n`, if there is one. -/
def msipAt (m : Word) (es : ℕ → Access) : ℕ → Word
  | 0 => m
  | n + 1 => if let .store .msip v := es n then v else msipAt m es n

theorem Regs.run_msip (s : Regs) (es : ℕ → Access) (cycles : ℕ → BitVec 64) (n : ℕ) :
    (s.run (BitVec.allOnes 32) es cycles n).msip = msipAt s.msip es n := by
  induction n with
  | zero => rfl
  | succ n ih =>
    rw [run, msipAt]
    cases he : es n with
    | other => exact ih
    | load r => exact ih
    | store r v =>
      cases r with
      | msip => exact BitVec.and_allOnes
      | _ => exact ih

end Srv32.Device

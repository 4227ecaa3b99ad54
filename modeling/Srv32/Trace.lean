import Srv32.Opcode
import Srv32.Data.Printf

/-! The lines of `trace.log`, which both models write: a cycle, a pc, an instruction word and what
the instruction did. -/

namespace Srv32.Trace

open Printf

attribute [local irreducible] String.toList

/-- `regname`, the same table in `tools/rvsim.c` and in `testbench/testbench.v`. -/
def regname (r : BitVec 5) : List Char :=
  (["zero", "ra", "sp", "gp", "tp", "t0", "t1", "t2",
    "s0(fp)", "s1", "a0", "a1", "a2", "a3", "a4", "a5",
    "a6", "a7", "s2", "s3", "s4", "s5", "s6", "s7",
    "s8", "s9", "s10", "s11", "t3", "t4", "t5", "t6"].getD r.toNat "xx").toList

/-- `%08x` -/
def hex (v : Word) : List Char := zeroPad 16 8 v.toNat

/-- A line of `dump.txt`, which both models write too: `%08x\n` -/
def dumpLine (w : Word) : List Char := hex w ++ ['\n']

/-- `x%02u (%s) <= 0x%08x\n` -/
def regField (r : BitVec 5) (v : Word) : List Char :=
  "x".toList ++ zeroPad 10 2 r.toNat ++ " (".toList ++ regname r ++ ") <= 0x".toList ++ hex v ++
    "\n".toList

/-- `write 0x%08x <= 0x%08x\n` with a blank in front. -/
def writeField (a v : Word) : List Char :=
  " write 0x".toList ++ hex a ++ " <= 0x".toList ++ hex v ++ "\n".toList

/-- `%10d %08x %08x` -/
def head (time : ℤ) (pc insn : Word) : List Char :=
  blankPad 10 time ++ [' '] ++ hex pc ++ [' '] ++ hex insn

/-- What an instruction did, as far as the log tells. -/
inductive Effect where
  | quiet
  | reg (r : BitVec 5) (v : Word)
  | read (a : Word) (r : BitVec 5) (v : Word)
  | write (a v : Word)
  deriving DecidableEq, Repr, Inhabited

def Effect.text : Effect → List Char
  | .quiet => "\n".toList
  | .reg r v => " ".toList ++ regField r v
  | .read a r v => " read 0x".toList ++ hex a ++ ", ".toList ++ regField r v
  | .write a v => writeField a v

structure LogEntry where
  time : ℤ
  pc : Word
  insn : Word
  effect : Effect
  deriving DecidableEq, Repr

def LogEntry.line (e : LogEntry) : List Char := head e.time e.pc e.insn ++ e.effect.text

/-- The word is a load of a width that exists; the line of any other shows 0. -/
def loads (insn : Word) : Bool :=
  func3 insn == opLb || func3 insn == opLh || func3 insn == opLw || func3 insn == opLbu ||
    func3 insn == opLhu

/-- The register an instruction with this line wrote, and its value. -/
def LogEntry.dest (e : LogEntry) : Option (BitVec 5 × Word) :=
  match e.effect with
  | .reg r v => some (r, v)
  | .read _ r v => if loads e.insn then some (r, v) else none
  | _ => none

/-- The registers after it. -/
def LogEntry.regs (e : LogEntry) (regs : BitVec 5 → Word) : BitVec 5 → Word :=
  match e.dest with
  | some (r, v) => if r = 0#5 then regs else Function.update regs r v
  | none => regs

theorem LogEntry.regs_none {e : LogEntry} (h : e.dest = none) (regs : BitVec 5 → Word) :
    e.regs regs = regs := by
  rw [LogEntry.regs, h]

theorem LogEntry.regs_some {e : LogEntry} {r s : BitVec 5} {v : Word} (h : e.dest = some (r, v))
    (hs : s ≠ 0#5) (regs : BitVec 5 → Word) :
    e.regs regs s = if r = s then v else regs s := by
  rw [LogEntry.regs, h]
  simp only
  by_cases hr : r = s
  · subst hr
    rw [if_neg hs, if_pos rfl, Function.update_self]
  · rw [if_neg hr]
    split_ifs
    · rfl
    · exact Function.update_of_ne (Ne.symm hr) _ _

theorem LogEntry.regs_congr (e : LogEntry) {R R' : BitVec 5 → Word} (h : ∀ r, r ≠ 0#5 → R r = R' r)
    (r : BitVec 5) (hr : r ≠ 0#5) : e.regs R r = e.regs R' r := by
  cases hd : e.dest with
  | none => rw [LogEntry.regs_none hd, LogEntry.regs_none hd, h r hr]
  | some d => rw [LogEntry.regs_some hd hr, LogEntry.regs_some hd hr, h r hr]

/-- The registers a log leaves. -/
def registers (l : List LogEntry) (regs : BitVec 5 → Word) : BitVec 5 → Word :=
  l.foldl (fun R e => e.regs R) regs

theorem registers_congr (l : List LogEntry) {R R' : BitVec 5 → Word} (h : ∀ r, r ≠ 0#5 → R r = R' r)
    (r : BitVec 5) (hr : r ≠ 0#5) : registers l R r = registers l R' r := by
  induction l generalizing R R' with
  | nil => exact h r hr
  | cons e l ih => exact ih (e.regs_congr h)

theorem registers_append (l l' : List LogEntry) (R : BitVec 5 → Word) :
    registers (l ++ l') R = registers l' (registers l R) := List.foldl_append

/-! A log tells what it is the log of. -/

theorem delimited_hex : Delimited hex :=
  delimited_zeroPad (by omega) (by omega) (by omega) (by norm_num)

theorem delimited_regField : Delimited fun p : BitVec 5 × Word => regField p.1 p.2 := by
  have hr : Delimited fun r : BitVec 5 => zeroPad 10 2 r.toNat :=
    delimited_zeroPad (by omega) (by omega) (by omega) (by norm_num)
  have hv : ∀ r, Delimited fun v : Word =>
      " (".toList ++ (regname r ++ (") <= 0x".toList ++ (hex v ++ "\n".toList))) :=
    fun r => (((delimited_hex.trail "\n".toList).lead ") <= 0x".toList).lead (regname r)).lead
      " (".toList
  have h : Delimited fun p : BitVec 5 × Word => "x".toList ++ (zeroPad 10 2 p.1.toNat ++
      (" (".toList ++ (regname p.1 ++ (") <= 0x".toList ++ (hex p.2 ++ "\n".toList))))) :=
    (hr.append hv).lead "x".toList
  simp only [regField, List.append_assoc]
  exact h

theorem delimited_writeField : Delimited fun p : Word × Word => writeField p.1 p.2 := by
  have h : Delimited fun p : Word × Word =>
      " write 0x".toList ++ (hex p.1 ++ (" <= 0x".toList ++ (hex p.2 ++ "\n".toList))) :=
    (delimited_hex.append fun _ : Word => (delimited_hex.trail "\n".toList).lead
      " <= 0x".toList).lead " write 0x".toList
  simp only [writeField, List.append_assoc]
  exact h

theorem delimited_readField : Delimited fun p : Word × BitVec 5 × Word =>
    " read 0x".toList ++ (hex p.1 ++ (", ".toList ++ regField p.2.1 p.2.2)) :=
  (delimited_hex.append fun _ : Word => delimited_regField.lead ", ".toList).lead " read 0x".toList

theorem delimited_text : Delimited Effect.text := by
  -- the forms differ in their first two characters
  intro x y s t h
  cases x with
  | quiet =>
    cases y with
    | quiet =>
      simp only [Effect.text] at h
      exact ⟨rfl, List.append_cancel_left h⟩
    | reg r v => simp [Effect.text] at h
    | read a r v => simp [Effect.text] at h
    | write a v => simp [Effect.text, writeField] at h
  | reg r v =>
    cases y with
    | quiet => simp [Effect.text] at h
    | reg r' v' =>
      simp only [Effect.text] at h
      obtain ⟨he, hs⟩ := (delimited_regField.lead " ".toList) (r, v) (r', v') s t h
      rw [Prod.mk.injEq] at he
      exact ⟨by rw [he.1, he.2], hs⟩
    | read a r v => simp [Effect.text, regField] at h
    | write a v => simp [Effect.text, regField, writeField] at h
  | read a r v =>
    cases y with
    | quiet => simp [Effect.text] at h
    | reg r' v' => simp [Effect.text, regField] at h
    | read a' r' v' =>
      obtain ⟨he, hs⟩ := delimited_readField (a, r, v) (a', r', v') s t (by
        simp only [Effect.text, List.append_assoc] at h ⊢
        exact h)
      rw [Prod.mk.injEq, Prod.mk.injEq] at he
      exact ⟨by rw [he.1, he.2.1, he.2.2], hs⟩
    | write a' v' => simp [Effect.text, writeField] at h
  | write a v =>
    cases y with
    | quiet => simp [Effect.text, writeField] at h
    | reg r' v' => simp [Effect.text, regField, writeField] at h
    | read a' r' v' => simp [Effect.text, writeField] at h
    | write a' v' =>
      simp only [Effect.text] at h
      obtain ⟨he, hs⟩ := delimited_writeField (a, v) (a', v') s t h
      rw [Prod.mk.injEq] at he
      exact ⟨by rw [he.1, he.2], hs⟩

theorem delimited_line : Delimited LogEntry.line := by
  have h := (delimited_blankPad 10).append fun _ : ℤ => delimited_hex.append fun _ : Word =>
    (delimited_hex.append fun _ : Word => delimited_text).lead [' ']
  intro x y s t hl
  obtain ⟨he, hs⟩ := h (x.time, x.pc, x.insn, x.effect) (y.time, y.pc, y.insn, y.effect) s t
    (by simpa only [LogEntry.line, head, List.append_assoc] using hl)
  simp only [Prod.mk.injEq] at he
  obtain ⟨h1, h2, h3, h4⟩ := he
  cases x
  cases y
  simp only at h1 h2 h3 h4
  exact ⟨by rw [h1, h2, h3, h4], hs⟩

theorem line_ne_nil (e : LogEntry) : e.line ≠ [] := by
  simp [LogEntry.line, head]

theorem lines_injective : Function.Injective fun l : List LogEntry => l.flatMap LogEntry.line :=
  delimited_line.flatMap_injective line_ne_nil

end Srv32.Trace

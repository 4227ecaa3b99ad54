import Srv32.Data.Scan
import Srv32.Debug.Trim
import Srv32.Iss.Memory

/-! The interactive debugger (`debug`, `tools/debug.c`), but for what it prints. -/

namespace Srv32.Debug
open Iss Scan

def text (s : List Char) : List Byte := s.map fun c => BitVec.ofNat 8 c.toNat

/-- `sscanf(s, "%i", &x)` -/
def scanWord (s : List Byte) : Option (Word × List Byte) :=
  (scanInt isspaceAscii s).map fun r => (toInt32 r.1, r.2)

/-- The argument of a command, or its default. -/
def argument (name cmd : List Byte) (default : Word) : Word :=
  ((scanWord (cmd.drop name.length)).map Prod.fst).getD default

inductive Command
  | help
  | quit
  | untilPc (pc : Word)
  | regs
  | mem (addr len : Word)
  | csrs
  | pc
  | step (count : Word)
  | list (n : Word)
  | unknown
deriving DecidableEq, Repr

/-- The arguments of `mem`: without an address there is no length either. -/
def memArguments (cmd : List Byte) : Command :=
  match scanWord (cmd.drop 3) with
  | none => .mem 0#32 0#32
  | some (addr, rest) => .mem addr (((scanWord rest).map Prod.fst).getD 0#32)

/-- The comparisons of `cmd` in their order; `until`, `mem`, `step` and `list` compare a prefix. -/
def parse (cmd : List Byte) : Command :=
  if cmd = text ['h', 'e', 'l', 'p'] ∨ cmd = text ['h'] then .help
  else if cmd = text ['q', 'u', 'i', 't'] ∨ cmd = text ['q'] then .quit
  else if (text ['u', 'n', 't', 'i', 'l']).isPrefixOf cmd then
    .untilPc (argument (text ['u', 'n', 't', 'i', 'l']) cmd 0#32)
  else if cmd = text ['r', 'e', 'g', 's'] then .regs
  else if (text ['m', 'e', 'm']).isPrefixOf cmd then memArguments cmd
  else if cmd = text ['c', 's', 'r', 's'] then .csrs
  else if cmd = text ['p', 'c'] then .pc
  else if (text ['s', 't', 'e', 'p']).isPrefixOf cmd then
    .step (argument (text ['s', 't', 'e', 'p']) cmd 1#32)
  else if (text ['l', 'i', 's', 't']).isPrefixOf cmd then
    .list (argument (text ['l', 'i', 's', 't']) cmd 16#32)
  else .unknown

/-- `dump_mem` reads through a null pointer. -/
def dumpFaults (rv : Rv) (addr len : Word) : Bool :=
  let start := addr.toInt.tdiv 16 * 16
  let total := len.toInt + addr.toInt.tmod 16
  (rv.getMemptr (BitVec.ofInt 32 start)).isNone && decide (0 < total ∧ addr.toInt < start + total)

/-- The static variables of `debug` that a later call reads. -/
structure Console where
  running : Bool
  cmdLast : List Byte
  untilPc : Word
  count : Word
  countEn : Bool
deriving DecidableEq, Repr

def Console.initial : Console := ⟨false, [], 0#32, 0#32, false⟩

/-- The tests before the prompt. -/
def Console.arrive (c : Console) (pc : Word) : Console :=
  if c.running then
    let c := if c.untilPc = pc then { c with running := false, untilPc := 0#32 } else c
    if c.countEn then
      if c.count.toInt ≤ 1 then { c with running := false, countEn := false }
      else { c with count := c.count - 1#32 }
    else c
  else c

/-- How a call ends: it returns, it waits for input that does not come, or it reads through a null
pointer. -/
inductive Ended
  | ret (v : Word)
  | spins
  | segv
deriving DecidableEq, Repr

/-- The prompt, with what each call of `fgets` delivers. -/
def prompt (rv : Rv) (c : Console) : List (List Byte) → Ended × Console × List (List Byte)
  | [] => (.spins, c, [])
  | line :: input =>
    let cmd := strip (line.takeWhile (· ≠ 0#8))
    let cmd := if cmd = [] then c.cmdLast else cmd
    let c := { c with cmdLast := cmd }
    match parse cmd with
    | .quit => (.ret rvExit, c, input)
    | .untilPc pc =>
      (.ret rvOkay, { c with untilPc := pc, countEn := false, running := true }, input)
    | .mem addr len =>
      if len = 0#32 then prompt rv c input
      else if dumpFaults rv addr len then (.segv, c, input)
      else prompt rv c input
    | .step count =>
      let c := { c with countEn := true, count := count }
      (.ret rvOkay, if 1 < count.toInt then { c with running := true } else c, input)
    | _ => prompt rv c input

def debug (rv : Rv) (c : Console) (input : List (List Byte)) :
    Ended × Console × List (List Byte) :=
  let c := c.arrive rv.pc
  if c.running then (.ret rvOkay, c, input) else prompt rv c input

/-! Typed commands. -/

theorem isspaceAscii_digit (c : Byte) (h : isDigit 10 c = true) : isspaceAscii c = false := by
  revert c
  decide

theorem argument_decimal (name : List Byte) (default : Word) {n : ℕ} (h0 : 0 < n)
    (hn : n < 2 ^ 31) :
    argument name (name ++ ([32#8] ++ decimal n)) default = BitVec.ofNat 32 n := by
  have hscan : scanInt isspaceAscii ([32#8] ++ (decimal n ++ [])) = some ((n : ℤ), []) :=
    scanInt_decimal isspaceAscii_digit (by decide) h0 rfl
  rw [List.append_nil] at hscan
  rw [argument, List.drop_left, scanWord, hscan]
  exact toInt32_of_lt hn

/-- Every positive `int` can be typed as the argument of `step`, and of `until`. -/
theorem parse_step {n : ℕ} (h0 : 0 < n) (hn : n < 2 ^ 31) :
    parse (text ['s', 't', 'e', 'p'] ++ ([32#8] ++ decimal n)) = .step (BitVec.ofNat 32 n) := by
  rw [← argument_decimal (text ['s', 't', 'e', 'p']) 1#32 h0 hn]
  simp [parse, text]

theorem parse_until {n : ℕ} (h0 : 0 < n) (hn : n < 2 ^ 31) :
    parse (text ['u', 'n', 't', 'i', 'l'] ++ ([32#8] ++ decimal n)) =
      .untilPc (BitVec.ofNat 32 n) := by
  rw [← argument_decimal (text ['u', 'n', 't', 'i', 'l']) 0#32 h0 hn]
  simp [parse, text]

end Srv32.Debug

import Srv32.Rtl.Retire
import Srv32.Rtl.Trap
import Srv32.Trace

/-! What `testbench/testbench.v` writes to `trace.log`. -/

namespace Srv32.Rtl

open Trace (Effect LogEntry)

attribute [local irreducible] String.toList

/-- `fillcount` of the testbench, and the registers of the core that only the log reads. -/
structure Monitor where
  fillcount : BitVec 2
  wbRaddress : Word
  wbLdAlignExcp : Bool

namespace Monitor

/-- Under reset; `wb_raddress` has no reset value. -/
def reset (raddress : Word) : Monitor := ⟨0#2, raddress, false⟩

variable (i : Input) (s : State) (t : Monitor)

def retires : Bool := !s.wbStall i && !s.stallR && !s.wbFlush

def step : Monitor where
  fillcount := if retires i s ∧ t.fillcount ≠ 3#2 then t.fillcount + 1#2 else t.fillcount
  wbRaddress := if !s.exStall i then s.dmemRaddr i else t.wbRaddress
  wbLdAlignExcp := if !s.exStall i then (s.slot i).ldAlignExcp else t.wbLdAlignExcp

/-- The `dmem_wready` branch. -/
def storeText : List Char :=
  let lane (k : ℕ) : Word := (s.wbWdata.extractLsb' (8 * k) 8).setWidth 32
  let write (v : Word) : List Char := (Effect.write s.wbWaddr v).text
  if s.wbAluOp = 0#3 then
    if s.wbWstrb = 0b0001#4 then write (lane 0)
    else if s.wbWstrb = 0b0010#4 then write (lane 1)
    else if s.wbWstrb = 0b0100#4 then write (lane 2)
    else if s.wbWstrb = 0b1000#4 then write (lane 3)
    else []
  else if s.wbAluOp = 1#3 then
    if s.wbWstrb = 0b0011#4 then write ((s.wbWdata.extractLsb' 0 16).setWidth 32)
    else if s.wbWstrb = 0b1100#4 then write ((s.wbWdata.extractLsb' 16 16).setWidth 32)
    else []
  else if s.wbAluOp = 2#3 then write s.wbWdata
  else Effect.quiet.text

/-- What the edge writes to the file. -/
def text : List Char :=
  if retires i s ∧ t.fillcount = 3#2 then
    Trace.head (s.cycle.extractLsb' 0 32).toNat s.wbPc s.wbInsn ++
      if s.wbMem2reg && !t.wbLdAlignExcp then
        if s.wbAlu2reg then (Effect.read t.wbRaddress s.wbDstSel (s.wbRdata i)).text
        else " read 0x".toList ++ Trace.hex t.wbRaddress ++ "\n".toList
      else if s.wbAlu2reg then
        if !s.wbTrapNop then (Effect.reg s.wbDstSel s.wbResult).text else Effect.quiet.text
      else if s.dmemWready then storeText s
      else Effect.quiet.text
  else []

variable (p : Param) (i : ℕ → Input) (m raddress : Word)

def run : ℕ → Monitor
  | 0 => reset raddress
  | n + 1 => (run n).step (i n) (State.run p i m n)

/-- The file after `n` cycles, if no `$finish` comes first. -/
def log (n : ℕ) : List Char :=
  (List.range n).flatMap fun t => (run p i m raddress t).text (i t) (State.run p i m t)

end Monitor

namespace Slot

variable (p : Param) (x : Slot)

/-- What a slot's line shows; `v` is what a load returns. -/
def effect (v : Word) : Effect :=
  if x.mem2reg && !x.ldAlignExcp then .read x.memaddr x.ex.dstSel v
  else if x.alu2reg then if x.trapNop then .quiet else .reg x.ex.dstSel (x.result p)
  else if x.memwr then
    if x.ex.aluOp = opSb then .write x.memaddr ((x.aluOp2.extractLsb' 0 8).setWidth 32)
    else if x.ex.aluOp = opSh then .write x.memaddr ((x.aluOp2.extractLsb' 0 16).setWidth 32)
    else if x.ex.aluOp = opSw then .write x.memaddr x.aluOp2
    else .quiet
  else .quiet

end Slot

namespace State

variable (p : Param) (i : ℕ → Input) (m : Word)

/-- The line of the slot of cycle `t`, written one cycle later. -/
def entryAt (t : ℕ) : LogEntry where
  time := ((run p i m (t + 1)).cycle.extractLsb' 0 32).toNat
  pc := (run p i m t).exPc
  insn := (run p i m t).exInsn
  effect := (slotAt p i m t).effect p
    (loadData (run p i m t).ex.aluOp ((slotAt p i m t).memaddr.extractLsb' 0 2)
      (i (t + 1)).dmemRdata)

end State

namespace Monitor

variable {p : Param} {i : ℕ → Input} {m a : Word} {k : ℕ}

theorem retires_ready {j : Input} {s : State} (hj : Ready j) (hs : s.stallR = false) :
    retires j s = !s.wbFlush := by
  simp [retires, State.wbStall, hs, hj.dmemWvalid, hj.dmemRresp]

/-! `fillcount` -/

theorem run_succ_fillcount (t : ℕ) : (run p i m a (t + 1)).fillcount =
    if retires (i t) (State.run p i m t) ∧ (run p i m a t).fillcount ≠ 3#2 then
      (run p i m a t).fillcount + 1#2
    else (run p i m a t).fillcount := rfl

theorem run_fillcount_reset (h : ReadyFrom k i) {t : ℕ} (ht : t ≤ k + 1) :
    (run p i m a t).fillcount = 0#2 := by
  induction t with
  | zero => rfl
  | succ t ih =>
    have hst : (State.run p i m t).stallR = true := by
      rw [State.run_reset h (by omega)]
      rfl
    have hr : retires (i t) (State.run p i m t) = false := by simp [retires, hst]
    rw [run_succ_fillcount, hr, if_neg (by simp)]
    exact ih (by omega)

/-- While the pipeline fills, write-back is not flushed. -/
theorem wbFlush_filling (h : ReadyFrom k i) {j : ℕ} (hj : j < 3) :
    (State.run p i m (k + 1 + j)).wbFlush = false := by
  have hfill := State.run_filling (p := p) (m := m) h
  rcases (by omega : j = 0 ∨ j = 1 ∨ j = 2) with rfl | rfl | rfl
  · rw [Nat.add_zero, State.run_released h]
    rfl
  · have hmore : (State.run p i m (k + 2)).wbNopMore = false := by
      rw [State.run, State.step_ready (h.ready (by omega)) (State.run_stallR h le_rfl),
        State.run_released h]
      rfl
    rw [State.wbFlush, hfill.wbNop, hmore]
    rfl
  · change (State.run p i m (k + 2 + 1)).wbFlush = false
    rw [State.run, State.step_ready (h.ready (by omega)) hfill.stallR]
    simp [State.wbFlush, hfill.wbNop, hfill.wbBranch]

/-- It counts the cycles from the first one without `stall_r`. -/
theorem run_fillcount_filling (h : ReadyFrom k i) {j : ℕ} (hj : j ≤ 3) :
    (run p i m a (k + 1 + j)).fillcount = BitVec.ofNat 2 j := by
  induction j with
  | zero => exact run_fillcount_reset h le_rfl
  | succ j ih =>
    have hne : BitVec.ofNat 2 j ≠ 3#2 := by
      rcases (by omega : j = 0 ∨ j = 1 ∨ j = 2) with rfl | rfl | rfl <;> decide
    rw [← Nat.add_assoc, run_succ_fillcount, retires_ready (h.ready (by omega))
      (State.run_stallR h (by omega)), wbFlush_filling h (by omega), ih (by omega),
      if_pos ⟨rfl, hne⟩, BitVec.ofNat_add]

/-- Lines are written from the write-back of the first instruction on. -/
theorem run_fillcount (h : ReadyFrom k i) {t : ℕ} (ht : startup k + 1 ≤ t) :
    (run p i m a t).fillcount = 3#2 := by
  induction t, ht using Nat.le_induction with
  | base => exact run_fillcount_filling h le_rfl
  | succ t ht ih =>
    rw [run_succ_fillcount, if_neg fun hc => hc.2 ih, ih]

theorem text_before (h : ReadyFrom k i) {t : ℕ} (ht : t ≤ startup k) :
    (run p i m a t).text (i t) (State.run p i m t) = [] := by
  have hne : (run p i m a t).fillcount ≠ 3#2 := by
    by_cases hk : t ≤ k + 1
    · rw [run_fillcount_reset h hk]
      decide
    · unfold startup at ht
      obtain ⟨j, rfl⟩ : ∃ j, t = k + 1 + j := ⟨t - (k + 1), by omega⟩
      rw [run_fillcount_filling h (by omega)]
      rcases (by omega : j = 1 ∨ j = 2) with rfl | rfl <;> decide
  rw [text, if_neg fun hc => hne hc.2]

/-! The lines. -/

/-- A repeated byte has that byte in every lane. -/
theorem lane_repeat (b : Byte) {j : ℕ} (hj : j < 4) :
    (b ++ b ++ b ++ b).extractLsb' (8 * j) 8 = b := by
  apply BitVec.eq_of_getLsbD_eq
  intro n hn
  simp only [BitVec.getLsbD_extractLsb', BitVec.getLsbD_append, hn, decide_true, Bool.true_and]
  rcases (by omega : j = 0 ∨ j = 1 ∨ j = 2 ∨ j = 3) with rfl | rfl | rfl | rfl
  · rw [if_pos (by omega), Nat.mul_zero, Nat.zero_add]
  · rw [if_neg (by omega), if_pos (by omega), show 8 * 1 + n - 8 = n by omega]
  · rw [if_neg (by omega), if_neg (by omega), if_pos (by omega),
      show 8 * 2 + n - 8 - 8 = n by omega]
  · rw [if_neg (by omega), if_neg (by omega), if_neg (by omega),
      show 8 * 3 + n - 8 - 8 - 8 = n by omega]

theorem half_repeat (v : BitVec 16) :
    (v ++ v).extractLsb' 0 16 = v ∧ (v ++ v).extractLsb' 16 16 = v := by
  constructor
  · apply BitVec.eq_of_getLsbD_eq
    intro n hn
    simp only [BitVec.getLsbD_extractLsb', BitVec.getLsbD_append, hn, decide_true, Bool.true_and]
    rw [if_pos (by omega), Nat.zero_add]
  · apply BitVec.eq_of_getLsbD_eq
    intro n hn
    simp only [BitVec.getLsbD_extractLsb', BitVec.getLsbD_append, hn, decide_true, Bool.true_and]
    rw [if_neg (by omega), Nat.add_sub_cancel_left]

/-- The lane the strobes name holds what was stored. -/
theorem storeText_eq {s : State} {x : Slot} (ha : s.wbWaddr = x.memaddr)
    (hs : s.wbWstrb = x.wstrb) (hd : s.wbWdata = x.wdata) (hop : s.wbAluOp = x.ex.aluOp) :
    storeText s =
      (if x.ex.aluOp = opSb then
        Effect.write x.memaddr ((x.aluOp2.extractLsb' 0 8).setWidth 32)
      else if x.ex.aluOp = opSh then
        Effect.write x.memaddr ((x.aluOp2.extractLsb' 0 16).setWidth 32)
      else if x.ex.aluOp = opSw then Effect.write x.memaddr x.aluOp2
      else Effect.quiet).text := by
  simp only [storeText, ha, hs, hd, hop]
  by_cases h0 : x.ex.aluOp = opSb
  · have hst : x.wstrb = 1#4 <<< (x.memaddr.extractLsb' 0 2).toNat := by
      rw [Slot.wstrb, if_pos h0]
    have hwd : ∀ j < 4, x.wdata.extractLsb' (8 * j) 8 = x.aluOp2.extractLsb' 0 8 := by
      intro j hj
      rw [Slot.wdata, if_pos h0]
      exact lane_repeat _ hj
    rw [if_pos h0, if_pos h0, hst, hwd 0 (by omega), hwd 1 (by omega), hwd 2 (by omega),
      hwd 3 (by omega)]
    have hq : ∀ q : BitVec 2, q = 0#2 ∨ q = 1#2 ∨ q = 2#2 ∨ q = 3#2 := by decide
    rcases hq (x.memaddr.extractLsb' 0 2) with hq | hq | hq | hq <;> rw [hq] <;> rfl
  by_cases h1 : x.ex.aluOp = opSh
  · have hst : x.wstrb = if x.memaddr.getLsbD 1 then 0b1100#4 else 0b0011#4 := by
      rw [Slot.wstrb, if_neg h0, if_pos h1]
    have hwd : x.wdata = x.aluOp2.extractLsb' 0 16 ++ x.aluOp2.extractLsb' 0 16 := by
      rw [Slot.wdata, if_neg h0, if_pos h1]
    obtain ⟨hlo, hhi⟩ := half_repeat (x.aluOp2.extractLsb' 0 16)
    rw [if_neg h0, if_pos h1, if_neg h0, if_pos h1, hst, hwd, hlo, hhi]
    cases x.memaddr.getLsbD 1 <;> rfl
  by_cases h2 : x.ex.aluOp = opSw
  · rw [if_neg h0, if_neg h1, if_pos h2, if_neg h0, if_neg h1, if_pos h2, Slot.wdata, if_neg h0,
      if_neg h1, if_pos h2]
  · rw [if_neg h0, if_neg h1, if_neg h2, if_neg h0, if_neg h1, if_neg h2]

/-- Each unflushed slot has its line written in the next cycle, and nothing else is. -/
theorem text_eq (h : ReadyFrom k i) {t : ℕ} (ht : startup k ≤ t) :
    (run p i m a (t + 1)).text (i (t + 1)) (State.run p i m (t + 1)) =
      if (State.run p i m t).exFlush then [] else (State.entryAt p i m t).line := by
  have h0 := State.run_flowing (p := p) (m := m) h ht
  have h1 := State.run_flowing (p := p) (m := m) h (t := t + 1) (by omega)
  have hk : k ≤ t := by unfold startup at ht; omega
  have hex : (State.run p i m t).exStall (i t) = false := by
    simp [State.exStall, State.ifStall, h0.stallR, (h.ready hk).imemValid, (h.ready hk).dmemRvalid]
  have hra : (run p i m a (t + 1)).wbRaddress = (State.slotAt p i m t).memaddr := by
    change (if _ then _ else _) = _
    rw [hex, if_pos (by simp)]
    rfl
  have hla : (run p i m a (t + 1)).wbLdAlignExcp = (State.slotAt p i m t).ldAlignExcp := by
    change (if _ then _ else _) = _
    rw [hex, if_pos (by simp)]
    rfl
  obtain ⟨hfl, hpc, hin⟩ := State.run_wb (p := p) (m := m) h ht
  rw [text, retires_ready (h.ready (by omega)) h1.stallR, run_fillcount h (by omega), hfl]
  cases hf : (State.run p i m t).exFlush with
  | true => simp
  | false =>
    simp only [Bool.not_false, and_self, if_true, Bool.false_eq_true, if_false]
    rw [LogEntry.line, hpc, hin, hra, hla]
    congr 1
    -- the fields of stage 3 are those of the slot
    have hstep := State.step_ready (p := p) (h.ready hk) h0.stallR
    have hw : (State.run p i m (t + 1)).wbRdata (i (t + 1)) =
        loadData (State.run p i m t).ex.aluOp
          ((State.slotAt p i m t).memaddr.extractLsb' 0 2) (i (t + 1)).dmemRdata := by
      rw [State.run, hstep]
      rfl
    have hwr := State.run_wready (p := p) (m := m) h ht
    have hport := State.run_wport (p := p) (m := m) h ht
    have hrun : (State.run p i m (t + 1)).wbMem2reg = (State.slotAt p i m t).mem2reg ∧
        (State.run p i m (t + 1)).wbAlu2reg = (State.slotAt p i m t).alu2reg ∧
        (State.run p i m (t + 1)).wbDstSel = (State.slotAt p i m t).ex.dstSel ∧
        (State.run p i m (t + 1)).wbTrapNop = (State.slotAt p i m t).trapNop ∧
        (State.run p i m (t + 1)).wbResult = (State.slotAt p i m t).result p ∧
        (State.run p i m (t + 1)).wbAluOp = (State.slotAt p i m t).ex.aluOp := by
      rw [State.run, hstep]
      exact ⟨rfl, rfl, rfl, rfl, rfl, rfl⟩
    obtain ⟨hm2, hal, hds, htn, hre, hop⟩ := hrun
    simp only [State.entryAt, Slot.effect]
    rw [hm2, hal, hds, htn, hre, hw, hwr]
    cases hl : (State.slotAt p i m t).mem2reg && !(State.slotAt p i m t).ldAlignExcp with
    | true =>
      have hal2 : (State.slotAt p i m t).alu2reg = true := by simp [Slot.alu2reg, hl]
      simp only [hal2, if_true]
    | false =>
      simp only [Bool.false_eq_true, if_false]
      cases (State.slotAt p i m t).alu2reg with
      | true =>
        simp only [if_true]
        cases (State.slotAt p i m t).trapNop <;> rfl
      | false =>
        simp only [Bool.false_eq_true, if_false]
        cases hmw : (State.slotAt p i m t).memwr with
        | false => rfl
        | true =>
          have hp := hport hmw
          simp only [State.wport, Prod.mk.injEq] at hp
          simp only [if_true]
          exact storeText_eq hp.1 hp.2.1 hp.2.2 hop

theorem log_succ (n : ℕ) : log p i m a (n + 1) =
    log p i m a n ++ (run p i m a n).text (i n) (State.run p i m n) := by
  simp only [log, List.range_succ, List.flatMap_append, List.flatMap_singleton]

/-- The file holds nothing before the first instruction is written back. -/
theorem log_startup (h : ReadyFrom k i) {t : ℕ} (ht : t ≤ startup k + 1) :
    log p i m a t = [] := by
  induction t with
  | zero => rfl
  | succ t ih => rw [log_succ, ih (by omega), text_before h (by omega), List.append_nil]

variable (p i m) in
/-- The lines of the unflushed slots of the cycles before `t`. -/
def entries (k t : ℕ) : List LogEntry :=
  ((List.range' (startup k) (t - startup k)).filter fun u => !(State.run p i m u).exFlush).map
    (State.entryAt p i m)

theorem entries_succ {t : ℕ} (ht : startup k ≤ t) : entries p i m k (t + 1) =
    entries p i m k t ++ if (State.run p i m t).exFlush then [] else [State.entryAt p i m t] := by
  rw [entries, entries, show t + 1 - startup k = t - startup k + 1 by omega,
    List.range'_1_concat, List.filter_append, List.map_append,
    show startup k + (t - startup k) = t by omega]
  congr 1
  cases hf : (State.run p i m t).exFlush with
  | true => simp [hf]
  | false => simp [hf]

theorem entries_flushed {t u : ℕ} (ht : startup k ≤ t) (hu : t ≤ u)
    (hf : ∀ v, t ≤ v → v < u → (State.run p i m v).exFlush = true) :
    entries p i m k u = entries p i m k t := by
  induction u, hu using Nat.le_induction with
  | base => rfl
  | succ u hu ih =>
    rw [entries_succ (by omega), hf u hu (by omega), if_pos rfl, List.append_nil,
      ih fun v hv hlt => hf v hv (by omega)]

/-- Up to the `n`-th unflushed slot there are the lines of the `n` slots before it. -/
theorem entries_exCycle (h : ReadyFrom k i) (n : ℕ) :
    entries p i m k (State.exCycle p i m k n) =
      (List.range n).map fun j => State.entryAt p i m (State.exCycle p i m k j) := by
  induction n with
  | zero =>
    rw [State.exCycle, entries, Nat.sub_self]
    rfl
  | succ n ih =>
    obtain ⟨ht, hf⟩ := State.exCycle_spec (p := p) (m := m) h n
    have hb := (State.run_between (p := p) (m := m) h ht hf).1
    have hlt := State.lt_nextCycle (p := p) (i := i) (m := m) (State.exCycle p i m k n)
    rw [State.exCycle, entries_flushed (t := State.exCycle p i m k n + 1) (by omega) (by omega)
      fun v hv hlt => hb v (by omega) hlt, entries_succ ht, hf, ih, List.range_succ, List.map_append]
    rfl

/-- The file, one cycle after a slot, has the lines of the slots up to it. -/
theorem log_eq (h : ReadyFrom k i) {t : ℕ} (ht : startup k ≤ t) :
    log p i m a (t + 1) = (entries p i m k t).flatMap LogEntry.line := by
  induction t, ht using Nat.le_induction with
  | base =>
    rw [log_startup h le_rfl, entries, Nat.sub_self]
    rfl
  | succ t ht ih =>
    rw [log_succ, ih, text_eq h ht, entries_succ ht, List.flatMap_append]
    cases (State.run p i m t).exFlush with
    | true => rfl
    | false => simp

end Monitor

/-! The registers a log leaves. -/

namespace Slot

variable {p : Param} {x : Slot}

theorem illegal_load (hl : Loaded p x) (hld : x.mem2reg = true) :
    x.instIllExcp = !Trace.loads x.insn := by
  have ho : opcode x.insn = opLoad := by simpa [hl.mem2reg] using hld
  simp [instIllExcp, illBranch, illCsr, hl.unflushed, hl.decoded, decode, isLegal, ho, Trace.loads,
    isLoadOp]

theorem dest_effect (hl : Loaded p x) (hpc : x.pc.toNat % 4 = 0) (t : ℤ) (v : Word) :
    LogEntry.dest ⟨t, x.pc, x.insn, x.effect p v⟩ =
      if (x.excp || !writesRd x.insn) = false then
        some (rd x.insn, if x.mem2reg then v else x.result p)
      else none := by
  have hd : x.ex.dstSel = rd x.insn := by simp [hl.decoded, decode]
  have ht : x.trapNop = x.excp := by simp [trapNop, hl.unflushed]
  cases hm : x.mem2reg with
  | true =>
    have ho : opcode x.insn = opLoad := by simpa [hl.mem2reg] using hm
    have hw : writesRd x.insn = true := by simp [writesRd, ho]
    have ha : x.instAlignExcp = false :=
      instAlignExcp_of_no_jump hl hpc (by simp [hl.decoded, decode, ho])
        (by simp [hl.decoded, decode, ho]) (by simp [hl.decoded, decode, ho])
    have hs : x.stAlignExcp = false := by simp [stAlignExcp, hl.decoded, decode, ho]
    have hx : x.excp = (!Trace.loads x.insn || x.ldAlignExcp) := by
      rw [excp, illegal_load hl hm, ha, hs, Bool.or_false, Bool.or_false]
    cases hal : x.ldAlignExcp with
    | true =>
      have he : x.effect p v = .quiet := by
        rw [hal, Bool.or_true] at hx
        have hwr : x.memwr = false := by simp [memwr_eq hl, ho]
        simp [effect, hm, hal, ht, hx, hwr]
      rw [he, hx, hal]
      simp [LogEntry.dest]
    | false =>
      have he : x.effect p v = .read x.memaddr (rd x.insn) v := by simp [effect, hm, hal, hd]
      rw [he, hx, hal, hw]
      cases hlo : Trace.loads x.insn with
      | true => simp [LogEntry.dest, hlo]
      | false => simp [LogEntry.dest, hlo]
  | false =>
    cases hx : x.excp with
    | true =>
      have he : x.effect p v = .quiet ∨ ∃ a w, x.effect p v = .write a w := by
        simp only [effect, hm, ht, hx, Bool.false_and, Bool.false_eq_true, if_false, if_true]
        split_ifs <;> simp
      rcases he with he | ⟨a, w, he⟩ <;> rw [he] <;> simp [LogEntry.dest]
    | false =>
      have ha : x.alu2reg = writesRd x.insn := alu2reg_eq hl hx
      cases hw : writesRd x.insn with
      | true => simp [effect, hm, ha, hw, ht, hx, hd, LogEntry.dest]
      | false =>
        have he : x.effect p v = .quiet ∨ ∃ a w, x.effect p v = .write a w := by
          simp only [effect, hm, ha, hw, Bool.false_and, Bool.false_eq_true, if_false]
          split_ifs <;> simp
        rcases he with he | ⟨a, w, he⟩ <;> rw [he] <;> simp [LogEntry.dest]

end Slot

namespace State

variable {p : Param} {i : ℕ → Input} {m : Word} {k : ℕ}

theorem regs_entryAt (h : ReadyFrom k i) {t : ℕ} (ht : startup k ≤ t)
    (hf : (run p i m t).exFlush = false) (hpc : (run p i m t).exPc.toNat % 4 = 0) {r : BitVec 5}
    (hr : r ≠ 0#5) :
    (run p i m (t + 2)).regs r = (entryAt p i m t).regs (run p i m (t + 1)).regs r := by
  have hl : (slotAt p i m t).Loaded p := (run_flowing h ht).loaded hf (i t)
  have hd := Slot.dest_effect hl hpc (entryAt p i m t).time
    (loadData (run p i m t).ex.aluOp ((slotAt p i m t).memaddr.extractLsb' 0 2)
      (i (t + 1)).dmemRdata)
  have hv := run_wbValue (p := p) (m := m) h ht
  change (entryAt p i m t).dest = if ((slotAt p i m t).excp ||
    !Slot.writesRd (run p i m t).exInsn) = false then some (rd (run p i m t).exInsn,
      if (run p i m t).exMem2reg then _ else (slotAt p i m t).result p) else none at hd
  rw [← hv] at hd
  rw [run_regs h ht, hf, Bool.false_or]
  by_cases hw : ((slotAt p i m t).excp || !Slot.writesRd (run p i m t).exInsn) = false
  · rw [if_pos hw] at hd
    rw [LogEntry.regs_some hd hr]
    by_cases h0 : rd (run p i m t).exInsn = 0#5
    · rw [if_neg fun hc => hc.2 h0, if_neg (by rw [h0]; exact hr.symm)]
    · rw [if_pos ⟨hw, h0⟩]
      by_cases he : rd (run p i m t).exInsn = r
      · subst he
        rw [Function.update_self, if_pos rfl]
      · rw [Function.update_of_ne (Ne.symm he), if_neg he]
  · rw [if_neg hw] at hd
    rw [LogEntry.regs_none hd, if_neg fun hc => hw hc.1]

theorem regs_entries (h : ReadyFrom k i) {t : ℕ} (ht : startup k ≤ t)
    (hpc : ∀ u, startup k ≤ u → u < t → (run p i m u).exFlush = false →
      (run p i m u).exPc.toNat % 4 = 0) {r : BitVec 5} (hr : r ≠ 0#5) :
    (run p i m (t + 1)).regs r =
      Trace.registers (Monitor.entries p i m k t) (fun _ => 0#32) r := by
  induction t, ht using Nat.le_induction generalizing r with
  | base =>
    rw [run_startup_regs h, Monitor.entries, Nat.sub_self]
    rfl
  | succ t ht ih =>
    have ih' : ∀ r, r ≠ 0#5 → (run p i m (t + 1)).regs r = _ := fun r hr =>
      ih (fun u hu hlt => hpc u hu (by omega)) hr
    rw [Monitor.entries_succ ht, Trace.registers_append]
    cases hf : (run p i m t).exFlush with
    | true =>
      rw [(run_flushed h ht hf).1, ih' r hr]
      rfl
    | false =>
      rw [regs_entryAt h ht hf (hpc t ht (by omega) hf) hr]
      exact LogEntry.regs_congr _ ih' r hr

end State

end Srv32.Rtl

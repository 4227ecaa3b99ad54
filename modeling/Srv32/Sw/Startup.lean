import Srv32.Sw.Assembly

/-! `_start` of `startup.S`, up to the library's functions: the registers, `mtvec` and `.bss` of a
program before `main`. -/

namespace Srv32.Sw

open Riscv (Instr Machine Apart)
open Iss (Csr Host)
open Iss.Rv (Code CsrKept Is advance)
open Abi

structure Symbols where
  globalPointer : Word
  trapHandler : Word
  bssStart : Word
  bssEnd : Word
  stack : Word

/-- `_bss_clear`: two instructions and the jump back. -/
def clearWord : List Instr := [.store .sw t0 zero 0#12, .opImm .addi t0 t0 4#12]

def again : Instr := .branch .ltu t0 t1 (BitVec.ofInt 12 (-4))

/-- `_start` at `pc`. -/
def start (pc : Word) (s : Symbols) : List Word :=
  (la pc gp s.globalPointer ++ la (pc + 8#32) t0 s.trapHandler).map Instr.encode ++
    ([csrw csrMtvec t0, csrrsi zero csrMtvec 1#5] ++
      ((la (pc + 24#32) t0 s.bssStart ++ la (pc + 32#32) t1 s.bssEnd).map Instr.encode ++
        (clearWord.map Instr.encode ++ ([again.encode] ++
          (la (pc + 52#32) sp s.stack).map Instr.encode))))

/-- The words `_bss_clear` clears: at least one, as it looks at the end of a round. -/
def Symbols.words (s : Symbols) : ℕ := max 1 ((s.bssEnd.toNat - s.bssStart.toNat + 3) / 4)

variable {rv0 rv : Iss.Rv} {k : Code rv0} {m m1 : Machine} {c : Csr} {b : ℕ} {s : Symbols}

/-- The words cleared are memory, and not the program's text. -/
structure Clearable (k : Code rv0) (s : Symbols) : Prop where
  aligned : s.bssStart.toNat % 4 = 0
  below : s.bssStart.toNat + 4 * s.words < 2 ^ 32
  inside : rv0.Inside s.bssStart (4 * s.words)
  apart : Apart s.bssStart (4 * s.words) k.base (4 * k.text.length)

/-- Where the pieces lie. -/
structure StartPieces (k : Code rv0) (b : ℕ) (s : Symbols) : Prop where
  pointer : k.Has b ((la (k.base + BitVec.ofNat 32 (4 * b)) gp s.globalPointer).map Instr.encode)
  table : k.Has (b + 2)
    ((la (k.base + BitVec.ofNat 32 (4 * (b + 2))) t0 s.trapHandler).map Instr.encode)
  vector : k.text[b + 4]? = some (csrw csrMtvec t0)
  vectored : k.text[b + 5]? = some (csrrsi zero csrMtvec 1#5)
  bssStart : k.Has (b + 6)
    ((la (k.base + BitVec.ofNat 32 (4 * (b + 6))) t0 s.bssStart).map Instr.encode)
  bssEnd : k.Has (b + 8)
    ((la (k.base + BitVec.ofNat 32 (4 * (b + 8))) t1 s.bssEnd).map Instr.encode)
  clear : k.Has (b + 10) (clearWord.map Instr.encode)
  again : k.text[b + 12]? = some again.encode
  stack : k.Has (b + 13)
    ((la (k.base + BitVec.ofNat 32 (4 * (b + 13))) sp s.stack).map Instr.encode)

theorem startPieces (h : k.Has b (start (k.base + BitVec.ofNat 32 (4 * b)) s)) :
    StartPieces k b s := by
  have hpc : ∀ n, k.base + BitVec.ofNat 32 (4 * b) + BitVec.ofNat 32 (4 * n) =
      k.base + BitVec.ofNat 32 (4 * (b + n)) := by
    intro n
    rw [BitVec.add_assoc, ← BitVec.ofNat_add, ← Nat.mul_add]
  rw [start, show (8#32 : Word) = BitVec.ofNat 32 (4 * 2) from rfl, hpc,
    show (24#32 : Word) = BitVec.ofNat 32 (4 * 6) from rfl, hpc,
    show (32#32 : Word) = BitVec.ofNat 32 (4 * 8) from rfl, hpc,
    show (52#32 : Word) = BitVec.ofNat 32 (4 * 13) from rfl, hpc] at h
  have hcsr := h.right (n := 4) (List.length_map _)
  have hbss := hcsr.right (n := 2) rfl
  have hclear := hbss.right (n := 4) (List.length_map _)
  have hagain := hclear.right (n := 2) (List.length_map _)
  have hpointers := h.left
  have hends := hbss.left
  rw [List.map_append] at hpointers hends
  exact ⟨hpointers.left, hpointers.right (List.length_map _), hcsr.head, hcsr.left.tail.head,
    hends.left, hends.right (List.length_map _), hclear.left, hagain.head, hagain.tail⟩

/-! The loop. -/

/-- After `j` rounds. -/
structure Cleared (s : Symbols) (m : Machine) (j : ℕ) (m1 : Machine) : Prop where
  next : m1.x t0 = s.bssStart + BitVec.ofNat 32 (4 * j)
  stop : m1.x t1 = s.bssEnd
  regs : ∀ r, r ≠ t0 → m1.x r = m.x r
  mem : ∀ w : Word, m1.mem w = if (w - s.bssStart).toNat < 4 * j then 0#8 else m.mem w

theorem Cleared.succ {j : ℕ} (h : Cleared s m j m1) (hj : 4 * (j + 1) < 2 ^ 32) :
    Cleared s m (j + 1) (m1.steps clearWord) := by
  have hx : (m1.steps clearWord).x t0 = m1.x t0 + 4#32 := Machine.opImm_x (by decide)
  have hmem : (m1.steps clearWord).mem = (m1.put (m1.x t0 + 0#32) 4 (m1.x zero)).mem := rfl
  have hregs : ∀ r, r ≠ t0 → (m1.steps clearWord).x r = m1.x r := fun r hr =>
    Machine.opImm_x_of_ne hr
  refine ⟨?_, ?_, fun r hr => (hregs r hr).trans (h.regs r hr), fun w => ?_⟩
  · rw [hx, h.next, BitVec.add_assoc, ← BitVec.ofNat_add]
    rfl
  · rw [hregs t1 (by decide), h.stop]
  · rw [hmem, BitVec.add_zero, h.next, m1.zero]
    have hd : w - (s.bssStart + BitVec.ofNat 32 (4 * j)) =
        w - s.bssStart - BitVec.ofNat 32 (4 * j) := by
      bv_omega
    change (if (w - (s.bssStart + BitVec.ofNat 32 (4 * j))).toNat < 4 then
      (0#32).extractLsb' _ 8 else m1.mem w) = _
    rw [h.mem, hd]
    generalize w - s.bssStart = d
    have hlow : (d - BitVec.ofNat 32 (4 * j)).toNat < 4 ↔
        4 * j ≤ d.toNat ∧ d.toNat < 4 * (j + 1) := by
      have := d.isLt
      rw [BitVec.toNat_sub, BitVec.toNat_ofNat]
      omega
    by_cases hw : (d - BitVec.ofNat 32 (4 * j)).toNat < 4
    · rw [if_pos hw, if_pos (hlow.mp hw).2]
      simp
    · rw [if_neg hw]
      by_cases hin : d.toNat < 4 * j
      · rw [if_pos hin, if_pos (by omega)]
      · rw [if_neg hin, if_neg fun hlt => hw (hlow.mpr ⟨by omega, hlt⟩)]

/-- The jump back is taken while words remain. -/
theorem again_iff {j : ℕ} (h : s.bssStart.toNat + 4 * (j + 1) < 2 ^ 32) :
    Riscv.Cond.holds (s.bssStart + BitVec.ofNat 32 (4 * (j + 1))) s.bssEnd .ltu = true ↔
      j + 1 < s.words := by
  have he : (s.bssStart + BitVec.ofNat 32 (4 * (j + 1))).toNat =
      s.bssStart.toNat + 4 * (j + 1) := by
    rw [BitVec.toNat_add, BitVec.toNat_ofNat]
    omega
  rw [Riscv.Cond.holds, decide_eq_true_eq, he, Symbols.words]
  omega

theorem Clearable.free (h : Clearable k s) {j : ℕ} (hj : j < s.words) :
    k.Free (s.bssStart + BitVec.ofNat 32 (4 * j)) := by
  refine ⟨?_, h.inside.part k.laid (by omega), (h.apart.symm.part (by omega) (by omega)).symm⟩
  have := h.aligned
  rw [BitVec.toNat_add, BitVec.toNat_ofNat]
  omega

theorem round (hc : Clearable k s) (hw : StartPieces k b s) {n : ℕ} (hn : n + 1 ≤ s.words)
    (h : ∃ m1, k.At (b + 10) m1 c rv ∧ Cleared s m (s.words - (n + 1)) m1) :
    Leads (fun host rv => advance host rv) rv fun t => ∃ m1,
      k.At (if n = 0 then b + 13 else b + 10) m1 c t ∧ Cleared s m (s.words - n) m1 := by
  obtain ⟨m1, h, hcl⟩ := h
  have hbelow := hc.below
  have hfree : k.Free (m1.x t0 + (0#12).signExtend 32) := by
    rw [show (0#12).signExtend 32 = 0#32 from rfl, BitVec.add_zero, hcl.next]
    exact hc.free (by omega)
  refine (h.block hw.clear ⟨rfl, Code.fits_store hfree, rfl, Code.fits_of_access rfl,
    trivial⟩).trans fun t ht => ?_
  have hcl' : Cleared s m (s.words - (n + 1) + 1) (m1.steps clearWord) := hcl.succ (by omega)
  rw [show s.words - (n + 1) + 1 = s.words - n by omega] at hcl'
  generalize m1.steps clearWord = m2 at ht hcl'
  have hback : Instr.offset (BitVec.ofInt 12 (-4)) = BitVec.ofInt 32 (-8) := by decide
  have hiff : Riscv.Cond.holds (m2.x t0) (m2.x t1) .ltu = true ↔ n ≠ 0 := by
    have := again_iff (s := s) (j := s.words - (n + 1)) (by omega)
    rw [hcl'.next, hcl'.stop]
    rw [show s.words - (n + 1) + 1 = s.words - n by omega] at this
    rw [this]
    omega
  have hstep : again.step 4#32 m2 =
      m2.goto (k.base + BitVec.ofNat 32 (4 * if n = 0 then b + 13 else b + 10)) := by
    by_cases hn0 : n = 0
    · rw [if_pos hn0, again, Instr.step, if_neg fun he => hiff.mp he hn0]
      exact congrArg m2.goto (Code.next_pc ht.pc)
    · rw [if_neg hn0, again, Instr.step, if_pos (hiff.mpr hn0), ht.pc, hback]
      refine congrArg m2.goto ?_
      change k.base + BitVec.ofNat 32 (4 * (b + 12)) + BitVec.ofInt 32 (-8) = _
      rw [show 4 * (b + 12) = 4 * (b + 10) + 8 by omega, BitVec.ofNat_add, BitVec.add_assoc,
        BitVec.add_assoc]
      exact congrArg (k.base + ·) (BitVec.add_zero _)
  refine (ht.goes hw.again (Code.fits_of_access rfl) (congrArg Machine.pc hstep)
    fun he => absurd he Bool.false_ne_true).mono fun u hu => ⟨_, hu, ?_⟩
  rw [hstep]
  exact ⟨hcl'.next, hcl'.stop, hcl'.regs, hcl'.mem⟩

theorem cleared (hc : Clearable k s) (hw : StartPieces k b s) (h : k.At (b + 10) m c rv)
    (hnext : m.x t0 = s.bssStart) (hstop : m.x t1 = s.bssEnd) :
    Leads (fun host rv => advance host rv) rv fun t => ∃ m1, k.At (b + 13) m1 c t ∧
      Cleared s m s.words m1 := by
  have hpos : 0 < s.words := Nat.lt_of_lt_of_le Nat.zero_lt_one (Nat.le_max_left _ _)
  have hzero : Cleared s m (s.words - s.words) m := by
    rw [Nat.sub_self]
    exact ⟨by rw [hnext]; exact (BitVec.add_zero _).symm, hstop, fun _ _ => rfl, fun _ => rfl⟩
  -- the invariant with the rounds that remain
  let I : ℕ → Iss.Rv → Prop := fun n t => n ≤ s.words ∧ ∃ m1,
    k.At (if n = 0 then b + 13 else b + 10) m1 c t ∧ Cleared s m (s.words - n) m1
  have hround : ∀ n t, I (n + 1) t → Leads (fun host rv => advance host rv) t (I n) := by
    intro n t ht
    exact (round hc hw ht.1 ht.2).mono fun u hu => ⟨by have := ht.1; omega, hu⟩
  have hfirst : I s.words rv := by
    refine ⟨le_refl _, m, ?_, hzero⟩
    rw [if_neg (by omega)]
    exact h
  exact (Leads.loop hround hfirst).mono fun t ht => ht.2

/-! The registers and `mtvec`. -/

/-- The symbols are in their registers, and `mtvec` leads to the table. -/
theorem pointed (h : k.At b m c rv) (hw : StartPieces k b s) :
    Leads (fun host rv => advance host rv) rv fun t => ∃ m1,
      k.At (b + 10) m1 { c with mtvec := s.trapHandler ||| 1#32 } t ∧ m1.x gp = s.globalPointer ∧
      m1.x t0 = s.bssStart ∧ m1.x t1 = s.bssEnd ∧
      (∀ r, r ∉ [gp, t0, t1] → m1.x r = m.x r) ∧ m1.mem = m.mem := by
  refine (loads h hw.pointer (by decide)).trans fun v1 h1 => ?_
  obtain ⟨m1, h1, hgp, hs1⟩ := h1
  refine (loads h1 hw.table (by decide)).trans fun v2 h2 => ?_
  obtain ⟨m2, h2, htable, hs2⟩ := h2
  -- `csrw mtvec, t0`
  have hwrite : ∀ c0, CsrKept c c0 → ∃ c1, c0.rw csrMtvec opCsrrw (m2.x t0) true =
      (c.mtvec, true, c1) ∧ CsrKept { c with mtvec := s.trapHandler } c1 := by
    intro c0 hk
    refine ⟨{ c0 with mtvec := s.trapHandler }, ?_, ?_⟩
    · rw [htable, hk]
      rfl
    · rw [hk]
      rfl
  refine (writes h2 hw.vector hwrite h.off).trans fun v3 h3 => ?_
  -- `csrrsi zero, mtvec, 1`
  have hset : ∀ c0, CsrKept { c with mtvec := s.trapHandler } c0 → ∃ c1,
      c0.rw csrMtvec opCsrrs ((1#5).setWidth 32) (1#5 != 0#5) = (s.trapHandler, true, c1) ∧
        CsrKept { c with mtvec := s.trapHandler ||| 1#32 } c1 := by
    intro c0 hk
    refine ⟨{ c0 with mtvec := s.trapHandler ||| 1#32 }, ?_, ?_⟩
    · rw [hk]
      rfl
    · rw [hk]
      rfl
  refine (sets h3 hw.vectored hset h.off).trans fun v4 h4 => ?_
  refine (loads h4 hw.bssStart (by decide)).trans fun v5 h5 => ?_
  obtain ⟨m5, h5, hstart, hs5⟩ := h5
  refine (loads h5 hw.bssEnd (by decide)).mono fun v6 h6 => ?_
  obtain ⟨m6, h6, hend, hs6⟩ := h6
  have hx : ∀ r, r ≠ t0 → r ≠ t1 → m6.x r = m1.x r := fun r hr hr1 =>
    (hs6.1 r hr1).trans ((hs5.1 r hr).trans (hs2.1 r hr))
  refine ⟨m6, h6, (hx gp (by decide) (by decide)).trans hgp,
    (hs6.1 t0 (by decide)).trans hstart, hend, fun r hr => ?_,
    hs6.2.trans (hs5.2.trans (hs2.2.trans hs1.2))⟩
  simp only [List.mem_cons, List.not_mem_nil, or_false, not_or] at hr
  exact (hx r hr.2.1 hr.2.2).trans (hs1.1 r hr.1)

/-- A program as `main` finds it: `u` behind `_start`, which began in `rv`. -/
structure Started (s : Symbols) (rv u : Iss.Rv) : Prop where
  pc : u.pc = rv.pc + 60#32
  gp : u.regs gp = s.globalPointer
  sp : u.regs sp = s.stack
  regs : ∀ r, r ∉ [zero, Abi.gp, Abi.sp, t0, t1] → u.regs r = rv.regs r
  csr : CsrKept { rv.csr with mtvec := s.trapHandler ||| 1#32 } u.csr
  mem : ∀ w : Word, u.machine.mem w =
    if (w - s.bssStart).toNat < 4 * s.words then 0#8 else rv.machine.mem w

/-- `_start` runs to its end, and has cleared `.bss` and nothing else. -/
theorem starts (hosts : ℕ → Host) (k : Code rv0) (h : k.At b rv0.machine rv0.csr rv0)
    (hw : k.Has b (start (k.base + BitVec.ofNat 32 (4 * b)) s)) (hc : Clearable k s) :
    ∃ n, (∀ j < n, (Iss.result .rv32im hosts rv0 j).1 = .code Iss.rvOkay) ∧
      Started s rv0 (Iss.run .rv32im hosts rv0 n) := by
  have hp := startPieces hw
  have hlead : Leads (fun host rv => advance host rv) rv0 (Started s rv0) := by
    refine (pointed h hp).trans fun v1 h1 => ?_
    obtain ⟨m1, h1, hgp, hstart, hend, hx1, hm1⟩ := h1
    refine (cleared hc hp h1 hstart hend).trans fun v2 h2 => ?_
    obtain ⟨m2, h2, hcl⟩ := h2
    refine (loads h2 hp.stack (by decide)).mono fun v3 h3 => ?_
    obtain ⟨m3, h3, hsp, hs3⟩ := h3
    have hregs : ∀ r, r ≠ zero → v3.regs r = m3.x r := by
      intro r hr
      rw [← h3.machine]
      exact (if_neg hr).symm
    refine ⟨?_, ?_, ?_, fun r hr => ?_, h3.csr, fun w => ?_⟩
    · have hpc : v3.pc = k.base + BitVec.ofNat 32 (4 * (b + 13 + 2)) := by
        rw [← h3.pc, ← h3.machine]
        rfl
      have hpc0 : rv0.pc = k.base + BitVec.ofNat 32 (4 * b) := h.pc
      rw [hpc, hpc0, BitVec.add_assoc, show (60#32 : Word) = BitVec.ofNat 32 60 from rfl,
        ← BitVec.ofNat_add]
      rfl
    · rw [hregs gp (by decide), hs3.1 gp (by decide), hcl.regs gp (by decide), hgp]
    · rw [hregs sp (by decide), hsp]
    · simp only [List.mem_cons, List.not_mem_nil, or_false, not_or] at hr
      obtain ⟨hz, hg, hsp', ht0, ht1⟩ := hr
      rw [hregs r hz, hs3.1 r hsp', hcl.regs r ht0, hx1 r (by simp [hg, ht0, ht1])]
      exact if_neg hz
    · rw [h3.machine, hs3.2, hcl.mem, hm1]
  obtain ⟨n, u, hn, hu⟩ := hlead hosts
  obtain ⟨hok, rfl⟩ := Iss.Rv.after_advance.mp hn
  exact ⟨n, fun j hj => (hok j hj).1, hu⟩

/-- A `.bss` of three words and a byte. -/
def symbols : Symbols where
  globalPointer := 0x800#32
  trapHandler := 0x100#32
  bssStart := 0x400#32
  bssEnd := 0x40d#32
  stack := 0x7f0#32

def starting : Iss.Rv := Iss.Rv.boot .rv32im 1 (Iss.image (start 0#32 symbols))

def startingCode : Code starting where
  base := 0#32
  text := start 0#32 symbols
  laid := ⟨by decide, by decide⟩
  aligned := Iss.Rv.aligned_zero
  inside := by decide

theorem starts_clear : ∃ n,
    (∀ j < n, (Iss.result .rv32im (fun _ => .none) starting j).1 = .code Iss.rvOkay) ∧
      Started symbols starting (Iss.run .rv32im (fun _ => .none) starting n) := by
  have htext : starting.machine.Holds 0#32 (start 0#32 symbols) :=
    Iss.Rv.holds_image rfl rfl (by decide)
  have hat : startingCode.At 0 starting.machine starting.csr starting :=
    ⟨⟨rfl, rfl, rfl, CsrKept.refl _⟩, htext, rfl, by decide⟩
  exact starts (fun _ => .none) startingCode hat (List.prefix_refl _)
    ⟨by decide, by decide, by decide, by decide⟩

end Srv32.Sw

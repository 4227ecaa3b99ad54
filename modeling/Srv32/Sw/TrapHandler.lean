import Srv32.Iss.Cause
import Srv32.Sw.Assembly
import Mathlib.Data.Bool.AllAny

/-! `trap_handler` of `startup.S`: a program goes on behind the instruction that trapped, with its
registers as they were. -/

namespace Srv32.Sw

open Riscv (Instr Machine hi20 lo12 Apart)
open Riscv.Machine (save restore)
open Iss (Csr Host)
open Iss.Rv (Code CsrKept Is advance popMie)
open Abi

/-- The registers a handler stores, from the top of its 80 bytes down. -/
def frame : List (BitVec 5 × BitVec 12) :=
  [(ra, 76#12), (t0, 72#12), (t1, 68#12), (t2, 64#12), (s0, 60#12), (10#5, 56#12), (11#5, 52#12),
    (12#5, 48#12), (13#5, 44#12), (14#5, 40#12), (a5, 36#12), (16#5, 32#12), (17#5, 28#12),
    (28#5, 24#12), (29#5, 20#12), (30#5, 16#12), (31#5, 12#12)]

def storeRegisters : List Instr :=
  .opImm .addi sp sp (BitVec.ofInt 12 (-80)) :: (save sp frame ++ [.opImm .addi s0 sp 80#12])

def restoreRegisters : List Instr := restore sp frame ++ [.opImm .addi sp sp 80#12]

/-- The test for a user defined handler: `beq a5, zero, 1f`. -/
def checkUser (user : Word) : List Instr := absolute a5 user ++ [.branch .eq a5 zero 8#12]

/-- `call user_trap_handler` at `pc`, and `j 2f`. -/
def callUser (pc user : Word) : List Instr :=
  [.auipc ra (hi20 (user - pc)), .jalr ra ra (lo12 (user - pc)), .jal zero 8#20]

def skip : List Word := [csrr a5 csrMepc, (Instr.opImm .addi a5 a5 4#12).encode, csrw csrMepc a5]

/-- The text of `_trap_handler`, of `_trap_ecall` and of `_trap_ebreak`. -/
def handler (pc user : Word) : List Word :=
  storeRegisters.map Instr.encode ++ ((checkUser user).map Instr.encode ++
    ((callUser (pc + 88#32) user).map Instr.encode ++ (skip ++
      (restoreRegisters.map Instr.encode ++ [mret]))))

def jumpTo (source target : ℕ) : Instr := .jal zero (BitVec.ofInt 20 (2 * (target - source : ℤ)))

/-- The word the entry of `trap_handler` for a cause jumps to. -/
def entryOf (cause : ℕ) : ℕ :=
  if cause = 3 then 110 else if cause = 11 then 63 else if cause < 8 then 16 else cause

/-- `trap_handler`, and the handlers behind it. -/
def trapHandler (pc user : Word) : List Word :=
  (List.range 16).map (fun i => (jumpTo i (entryOf i)).encode) ++
    (handler (pc + 64#32) user ++ (handler (pc + 252#32) user ++ handler (pc + 440#32) user))

/-! The frame. -/

theorem frameOk : Riscv.Machine.FrameOk sp frame where
  apart := by decide
  distinct := by decide
  base := List.all_iff_forall_prop.mp (by decide)
  zero := List.all_iff_forall_prop.mp (by decide)

theorem frame_offset : ∀ p ∈ frame, p.2.signExtend 32 = BitVec.ofNat 32 p.2.toNat ∧
    p.2.toNat % 4 = 0 ∧ p.2.toNat + 4 ≤ 80 :=
  List.all_iff_forall_prop.mp (by decide)

variable {rv0 rv : Iss.Rv} {k : Code rv0} {m m1 : Machine} {c : Csr} {b : ℕ} {user : Word}

/-- The room for a frame that ends at `top`. -/
structure Room (k : Code rv0) (top : Word) : Prop where
  aligned : top.toNat % 4 = 0
  inside : rv0.Inside (top - 80#32) 80
  apart : Apart (top - 80#32) 80 k.base (4 * k.text.length)

theorem Room.free {top : Word} (h : Room k top) {p : BitVec 5 × BitVec 12} (hp : p ∈ frame) :
    k.Free (top - 80#32 + p.2.signExtend 32) := by
  obtain ⟨hs, h4, hle⟩ := frame_offset p hp
  rw [hs]
  refine ⟨?_, h.inside.part k.laid hle, ?_⟩
  · have := h.aligned
    rw [BitVec.toNat_add, BitVec.toNat_sub, BitVec.toNat_ofNat]
    simp only [BitVec.toNat_ofNat]
    omega
  · exact (h.apart.symm.part hle (by omega)).symm

/-- What the handler has done before it looks for a user defined one. -/
structure Stored (m m1 : Machine) : Prop where
  sp : m1.x sp = m.x sp - 80#32
  saved : ∀ p ∈ frame, m1.word (m.x Abi.sp - 80#32 + p.2.signExtend 32) = m.x p.1
  regs : ∀ r, r ≠ Abi.sp → r ≠ s0 → m1.x r = m.x r
  mem : ∀ w : Word, 80 ≤ (w - (m.x Abi.sp - 80#32)).toNat → m1.mem w = m.mem w

theorem down_sp (m : Machine) :
    ((Instr.opImm .addi sp sp (BitVec.ofInt 12 (-80))).step 4#32 m).x sp = m.x sp - 80#32 := by
  rw [Machine.opImm_x (by decide), BitVec.sub_eq_add_neg]
  rfl

theorem stored_steps (m : Machine) : Stored m (m.steps storeRegisters) := by
  have hd := down_sp m
  rw [storeRegisters, Machine.steps_cons, Machine.steps_append, Machine.steps_cons,
    Machine.steps_nil]
  have hx : ∀ r, r ≠ sp →
      ((Instr.opImm .addi sp sp (BitVec.ofInt 12 (-80))).step 4#32 m).x r = m.x r :=
    fun r hr => Machine.opImm_x_of_ne hr
  have hmem : ((Instr.opImm .addi sp sp (BitVec.ofInt 12 (-80))).step 4#32 m).mem = m.mem := rfl
  generalize (Instr.opImm .addi sp sp (BitVec.ofInt 12 (-80))).step 4#32 m = m0 at *
  have hplace : ∀ p : BitVec 5 × BitVec 12,
      m0.place sp p = m.x sp - 80#32 + p.2.signExtend 32 := fun p => congrArg (· + _) hd
  have hsave : (m0.steps (save sp frame)).x = m0.x := Machine.save_x
  have hword : ∀ p ∈ frame, (m0.steps (save sp frame)).word (m0.place sp p) = m0.x p.1 :=
    fun p hp => Machine.save_word frameOk.apart hp
  have hkept : ∀ w, (∀ p ∈ frame, 4 ≤ (w - m0.place sp p).toNat) →
      (m0.steps (save sp frame)).mem w = m0.mem w := fun w hw => Machine.save_mem hw
  generalize m0.steps (save sp frame) = m2 at hsave hword hkept
  refine ⟨?_, fun p hp => ?_, fun r hr hs => ?_, fun w hw => ?_⟩
  · exact (Machine.opImm_x_of_ne (by decide)).trans ((congrFun hsave sp).trans hd)
  · rw [← hplace, ← hx p.1 (frameOk.base p hp)]
    exact hword p hp
  · exact (Machine.opImm_x_of_ne hs).trans ((congrFun hsave r).trans (hx r hr))
  · rw [← hmem]
    refine hkept w fun p hp => ?_
    obtain ⟨hs, -, hle⟩ := frame_offset p hp
    rw [hplace, hs]
    have hp2 := p.2.isLt
    generalize m.x sp - 80#32 = a at hw ⊢
    simp only [BitVec.toNat_sub, BitVec.toNat_add, BitVec.toNat_ofNat] at hw ⊢
    omega

/-! The pieces of the handler. -/

/-- Where they lie. -/
structure Pieces (k : Code rv0) (b : ℕ) (user : Word) : Prop where
  store : k.Has b (storeRegisters.map Instr.encode)
  check : k.Has (b + 19) ((absolute a5 user).map Instr.encode)
  test : k.text[b + 21]? = some (Instr.branch .eq a5 zero 8#12).encode
  call : k.Has (b + 22) ((callUser (k.base + BitVec.ofNat 32 (4 * (b + 22))) user).map Instr.encode)
  skip : k.Has (b + 25) skip
  restore : k.Has (b + 28) (restoreRegisters.map Instr.encode)
  ret : k.text[b + 46]? = some mret

theorem pieces (h : k.Has b (handler (k.base + BitVec.ofNat 32 (4 * b)) user)) :
    Pieces k b user := by
  have hcheck := h.right (n := 19) (List.length_map _)
  have hcall := hcheck.right (n := 3) (List.length_map _)
  have hskip := hcall.right (n := 3) (List.length_map _)
  have hrestore := hskip.right (n := 3) rfl
  have hret := hrestore.right (n := 18) (List.length_map _)
  have hpc : k.base + BitVec.ofNat 32 (4 * b) + 88#32 =
      k.base + BitVec.ofNat 32 (4 * (b + 22)) := by
    rw [BitVec.add_assoc, ← BitVec.ofNat_add]
    rfl
  rw [hpc] at hcall
  have htest := hcheck.left
  rw [checkUser, List.map_append] at htest
  exact ⟨h.left, htest.left, (htest.right (n := 2) (List.length_map _)).head, hcall.left,
    hskip.left, hrestore.left, hret.head⟩

theorem fits_storeRegisters (hr : Room k (m.x sp)) : k.FitsAll m storeRegisters := by
  have hd := down_sp m
  rw [storeRegisters]
  refine ⟨rfl, Code.fits_of_access rfl,
    Code.FitsAll.append ?_ ⟨rfl, Code.fits_of_access rfl, trivial⟩⟩
  refine Code.fitsAll_save fun p hp => ?_
  rw [Machine.place, hd]
  exact hr.free hp

theorem stored (h : k.At b m c rv) (hw : Pieces k b user)
    (hr : Room k (m.x sp)) :
    Leads (fun host rv => advance host rv) rv fun t => ∃ m1, k.At (b + 19) m1 c t ∧ Stored m m1 :=
  (h.block hw.store (fits_storeRegisters hr)).mono fun _ ht => ⟨_, ht, stored_steps m⟩

theorem checked (h : k.At (b + 19) m c rv)
    (hw : Pieces k b user) :
    Leads (fun host rv => advance host rv) rv fun t => ∃ m1,
      k.At (if user = 0#32 then b + 25 else b + 22) m1 c t ∧ SameBut a5 m m1 := by
  refine (h.block hw.check fitsAll_absolute).trans fun t ht => ?_
  have hx : (m.steps (absolute a5 user)).x a5 = user := absolute_x (by decide)
  have hs : SameBut a5 m (m.steps (absolute a5 user)) := ⟨fun q hq => absolute_x_of_ne hq, rfl⟩
  generalize m.steps (absolute a5 user) = m1 at ht hx hs
  have hstep : (Instr.branch .eq a5 zero 8#12).step 4#32 m1 =
      m1.goto (k.base + BitVec.ofNat 32 (4 * if user = 0#32 then b + 25 else b + 22)) := by
    have hoff : Instr.offset 8#12 = BitVec.ofNat 32 16 := by decide
    have hholds : Riscv.Cond.holds (m1.x a5) (m1.x zero) .eq = true ↔ user = 0#32 := by
      rw [Riscv.Cond.holds, hx, m1.zero, beq_iff_eq]
    by_cases hu : user = 0#32
    · rw [if_pos hu, Instr.step, if_pos (hholds.mpr hu), ht.pc, hoff, BitVec.add_assoc,
        ← BitVec.ofNat_add]
      rfl
    · rw [if_neg hu, Instr.step, if_neg fun he => hu (hholds.mp he)]
      exact congrArg m1.goto (Code.next_pc ht.pc)
  refine (ht.goes hw.test (Code.fits_of_access rfl) (congrArg Machine.pc hstep)
    fun he => absurd he Bool.false_ne_true).mono
    fun u hu => ⟨_, hu, ?_⟩
  rw [hstep]
  exact hs

/-- The default handler moves `mepc` behind the instruction. -/
theorem skipped {i : ℕ} (h : k.At i m c rv) (hs : k.Has i skip) :
    Leads (fun host rv => advance host rv) rv fun t => ∃ m1,
      k.At (i + 3) m1 { c with mepc := c.mepc + 4#32 } t ∧ SameBut a5 m m1 := by
  have h0 : k.text[i]? = some (csrr a5 csrMepc) := hs.head
  have h1 : k.text[i + 1]? = some (Instr.opImm .addi a5 a5 4#12).encode := hs.tail.head
  have h2 : k.text[i + 2]? = some (csrw csrMepc a5) := hs.tail.tail.head
  -- `csrr a5, mepc`
  have hread := reads h h0 (v := c.mepc) fun c0 hk => by rw [hk]; rfl
  refine hread.trans fun t ht => ?_
  have hx : ((m.set a5 c.mepc).next 4#32).x a5 = c.mepc :=
    Machine.set_x_self (s := m) (show a5 ≠ 0#5 by decide) c.mepc
  have hkept : SameBut a5 m ((m.set a5 c.mepc).next 4#32) :=
    ⟨fun q hq => Machine.set_x_of_ne (s := m) hq c.mepc, rfl⟩
  generalize (m.set a5 c.mepc).next 4#32 = m1 at ht hx hkept
  -- `addi a5, a5, 4`
  refine (ht.goes h1 (Code.fits_of_access rfl) (Code.next_pc ht.pc)
    fun he => absurd he Bool.false_ne_true).trans fun u hu => ?_
  have hx' : ((Instr.opImm .addi a5 a5 4#12).step 4#32 m1).x a5 = c.mepc + 4#32 := by
    rw [Machine.opImm_x (by decide), hx]
    rfl
  have hkept' : SameBut a5 m ((Instr.opImm .addi a5 a5 4#12).step 4#32 m1) :=
    ⟨fun q hq => (Machine.opImm_x_of_ne hq).trans (hkept.1 q hq), hkept.2⟩
  generalize (Instr.opImm .addi a5 a5 4#12).step 4#32 m1 = m2 at hu hx' hkept'
  -- `csrw mepc, a5`
  have hwrite : ∀ c0, CsrKept c c0 → ∃ c1, c0.rw csrMepc opCsrrw (m2.x a5) true =
      (c.mepc, true, c1) ∧ CsrKept { c with mepc := c.mepc + 4#32 } c1 := by
    intro c0 hk
    refine ⟨{ c0 with mepc := c.mepc + 4#32 }, ?_, ?_⟩
    · rw [hx', hk]
      rfl
    · rw [hk]
      rfl
  exact (writes hu h2 hwrite h.off).mono fun w hw => ⟨_, hw, hkept'⟩

/-- The registers are back from the frame. -/
structure Restored (m m1 : Machine) : Prop where
  sp : m1.x sp = m.x sp + 80#32
  restored : ∀ p ∈ frame, m1.x p.1 = m.word (m.x Abi.sp + p.2.signExtend 32)
  regs : ∀ r, r ≠ Abi.sp → (∀ p ∈ frame, p.1 ≠ r) → m1.x r = m.x r
  mem : m1.mem = m.mem

theorem restored_up {m m1 : Machine} (hmem : m1.mem = m.mem) (hsp : m1.x sp = m.x sp)
    (hback : ∀ p ∈ frame, m1.x p.1 = m.word (m.x sp + p.2.signExtend 32))
    (hkept : ∀ r, (∀ p ∈ frame, p.1 ≠ r) → m1.x r = m.x r) :
    Restored m ((Instr.opImm .addi sp sp 80#12).step 4#32 m1) := by
  refine ⟨?_, fun p hp => ?_, fun r hr hf => ?_, hmem⟩
  · rw [← hsp]
    exact Machine.opImm_x (by decide)
  · exact (Machine.opImm_x_of_ne (frameOk.base p hp)).trans (hback p hp)
  · exact (Machine.opImm_x_of_ne hr).trans (hkept r hf)

theorem restored_steps (m : Machine) : Restored m (m.steps restoreRegisters) := by
  rw [restoreRegisters, Machine.steps_append, Machine.steps_cons, Machine.steps_nil]
  apply restored_up
  · exact Machine.restore_mem
  · exact Machine.restore_x_of_ne frameOk.base
  · exact fun p hp => Machine.restore_x frameOk.distinct frameOk.base frameOk.zero hp
  · exact fun r hf => Machine.restore_x_of_ne hf

theorem left (h : k.At (b + 28) m c rv)
    (hw : Pieces k b user) {top : Word} (hr : Room k top) (htop : m.x sp = top - 80#32) :
    Leads (fun host rv => advance host rv) rv fun t => ∃ m1,
      Is rv0 (m1.goto c.mepc) { c with mstatus := popMie c.mstatus } t ∧ Restored m m1 := by
  have hfits : k.FitsAll m restoreRegisters := by
    refine Code.FitsAll.append (Code.fitsAll_restore frameOk.base fun p hp => ?_)
      ⟨rfl, Code.fits_of_access rfl, trivial⟩
    rw [Machine.place, htop]
    exact hr.free hp
  refine (h.block hw.restore hfits).trans fun t ht => ?_
  exact (ht.mret hw.ret).mono fun u hu => ⟨_, hu, restored_steps m⟩

/-! The table. -/

/-- The causes whose entry leads to a handler. -/
def Handled (cause : ℕ) : Prop := cause < 8 ∨ cause = 11

instance (cause : ℕ) : Decidable (Handled cause) := inferInstanceAs (Decidable (_ ∨ _))

theorem entry_offset : ∀ cause < 16, Handled cause →
    cause < entryOf cause ∧ entryOf cause ≤ 110 ∧
    Instr.offset (BitVec.ofInt 20 (2 * (entryOf cause - cause : ℤ))) =
      BitVec.ofNat 32 (4 * (entryOf cause - cause)) := by decide

theorem Handled.lt {cause : ℕ} (h : Handled cause) : cause < 16 := by
  rcases h with h | h <;> omega

theorem entry_word {cause : ℕ} (hw : k.Has 0 (trapHandler k.base user)) (hc : Handled cause) :
    k.text[cause]? = some (jumpTo cause (entryOf cause)).encode := by
  have := hw.left.get (j := cause) (w := (jumpTo cause (entryOf cause)).encode) (by
    rw [List.getElem?_map, List.getElem?_range hc.lt]
    rfl)
  rwa [Nat.zero_add] at this

/-- The jump of the table, from the state the checks of its step leave. -/
theorem entered {cause : ℕ} (h : k.At cause m c (rv.settle .rv32im))
    (hw : k.Has 0 (trapHandler k.base user)) (hc : Handled cause) (host : Host) :
    ∃ t, Iss.srv32Step .rv32im host rv = (.code Iss.rvOkay, t) ∧ k.At (entryOf cause)
      (m.goto (k.base + BitVec.ofNat 32 (4 * entryOf cause))) c t := by
  obtain ⟨hbelow, htop, hoff⟩ := entry_offset cause hc.lt hc
  have hstep : (jumpTo cause (entryOf cause)).step 4#32 m =
      m.goto (k.base + BitVec.ofNat 32 (4 * entryOf cause)) := by
    rw [jumpTo, jal_zero, hoff, h.pc, BitVec.add_assoc, ← BitVec.ofNat_add]
    congr 4
    omega
  have hself : (m.goto (k.base + BitVec.ofNat 32 (4 * entryOf cause))).pc ≠ m.pc := by
    rw [h.pc]
    intro he
    have hto := congrArg BitVec.toNat ((BitVec.add_right_inj k.base).mp he)
    simp only [BitVec.toNat_ofNat] at hto
    omega
  obtain ⟨t, ht, his⟩ := h.executes (entry_word hw hc) (Code.fits_of_access rfl)
    (by rw [hstep]; exact k.pc_aligned _) (fun _ => by rw [hstep]; exact hself) host
  rw [hstep] at his
  exact ⟨t, ht, his, h.text, rfl, h.off⟩

theorem pieces_entry {cause : ℕ} (hw : k.Has 0 (trapHandler k.base user)) (hc : Handled cause) :
    Pieces k (entryOf cause) user := by
  have h1 := hw.right (n := 16) (List.length_map _)
  have h2 := h1.right (n := 47) rfl
  have h3 := h2.right (n := 47) rfl
  rw [Nat.zero_add] at h1 h2 h3
  have hentry : entryOf cause = 16 ∨ entryOf cause = 63 ∨ entryOf cause = 110 := by
    rcases hc with hc | rfl
    · by_cases h : cause = 3
      · subst h
        exact Or.inr (Or.inr rfl)
      · left
        rw [entryOf, if_neg h, if_neg (by omega), if_pos hc]
    · exact Or.inr (Or.inl rfl)
  rcases hentry with he | he | he <;> rw [he]
  · exact pieces h1.left
  · exact pieces h2.left
  · exact pieces h3

/-- Registers that were in the frame, or that nothing has changed, are what they were. -/
theorem resumed {m m1 m2 m3 : Machine} (hs : Stored m m1) (hr : Restored m2 m3)
    (hsp : m2.x sp = m1.x sp) (hmem : ∀ p ∈ frame, m2.word (m.x sp - 80#32 + p.2.signExtend 32) =
      m1.word (m.x sp - 80#32 + p.2.signExtend 32))
    (hregs : ∀ r, r ≠ sp → (∀ p ∈ frame, p.1 ≠ r) → m2.x r = m1.x r) : m3.x = m.x := by
  funext r
  by_cases hrsp : r = sp
  · rw [hrsp, hr.sp, hsp, hs.sp, BitVec.sub_add_cancel]
  by_cases hf : ∃ p ∈ frame, p.1 = r
  · obtain ⟨p, hp, rfl⟩ := hf
    rw [hr.restored p hp, hsp, hs.sp, hmem p hp, hs.saved p hp]
  · have hne : ∀ p ∈ frame, p.1 ≠ r := fun p hp he => hf ⟨p, hp, he⟩
    have hs0 : r ≠ s0 := fun he => hne (s0, 60#12) (by decide) he.symm
    rw [hr.regs r hrsp hne, hregs r hrsp hne, hs.regs r hrsp hs0]

/-- What an exception leaves of a program with the default handler. -/
structure Skipped (m : Machine) (c : Csr) (t : Iss.Rv) : Prop where
  pc : t.pc = c.mepc + 4#32
  regs : ∀ r, t.machine.x r = m.x r
  mem : ∀ w : Word, 80 ≤ (w - (m.x sp - 80#32)).toNat → t.machine.mem w = m.mem w
  csr : CsrKept { c with mepc := c.mepc + 4#32, mstatus := popMie c.mstatus } t.csr

theorem skips (h : k.At b m c rv) (hp : Pieces k b 0#32) (hr : Room k (m.x sp)) :
    Leads (fun host rv => advance host rv) rv (Skipped m c) := by
  refine (stored h hp hr).trans fun t1 h1 => ?_
  obtain ⟨m1, h1, hs⟩ := h1
  refine (checked h1 hp).trans fun t2 h2 => ?_
  obtain ⟨m2, h2, hs2⟩ := h2
  rw [if_pos rfl] at h2
  refine (skipped h2 hp.skip).trans fun t3 h3 => ?_
  obtain ⟨m3, h3, hs3⟩ := h3
  have hregs : ∀ r, r ≠ a5 → m3.x r = m1.x r := fun r hr => (hs3.1 r hr).trans (hs2.1 r hr)
  have hmem : m3.mem = m1.mem := hs3.2.trans hs2.2
  have hsp : m3.x sp = m1.x sp := hregs sp (by decide)
  refine (left h3 hp hr (hsp.trans hs.sp)).mono fun t4 h4 => ?_
  obtain ⟨m4, h4, hs4⟩ := h4
  have hx : m4.x = m.x := by
    refine resumed (m := m) ⟨hs.sp, hs.saved, hs.regs, hs.mem⟩ hs4 hsp (fun p _ => ?_)
      fun r _ hf => ?_
    · simp only [Machine.word, hmem]
    · exact hregs r (hf (a5, 36#12) (by decide)).symm
  refine ⟨?_, fun r => ?_, fun w hw => ?_, h4.csr⟩
  · exact congrArg Machine.pc h4.machine
  · rw [h4.machine]
    exact congrFun hx r
  · rw [h4.machine]
    change m4.mem w = m.mem w
    rw [hs4.mem, hmem]
    exact hs.mem w hw

/-! From the trap to the instruction behind it. -/

theorem handled_of_mem {mcause : Word} (h : mcause ∈ Iss.causes ∨ mcause ∈ Iss.interrupts) :
    Handled (Iss.exceptionCode mcause).toNat := by
  have hall : ∀ cause ∈ Iss.causes ++ Iss.interrupts, Handled (Iss.exceptionCode cause).toNat :=
    List.all_iff_forall_prop.mp (by decide)
  exact hall mcause (List.mem_append.mpr h)

theorem vectorOf_table {base cause : Word} (h : base.toNat % 4 = 0) :
    Iss.Rv.vectorOf (base ||| 1#32) cause = base + BitVec.ofNat 32 (4 * cause.toNat) := by
  have hone : ∀ i < 32, (1#32).getLsbD i = decide (i = 0) := by decide
  have hmask : ∀ i < 32, (0xfffffffe#32).getLsbD i = !decide (i = 0) := by decide
  have heven : base.getLsbD 0 = false := by
    rw [Bits.testBit_zero]
    simp
    omega
  have hset : (base ||| 1#32) &&& 1#32 ≠ 0#32 := by
    intro he
    have := congrArg (fun w : Word => w.getLsbD 0) he
    simp at this
  have hbase : (base ||| 1#32) &&& 0xfffffffe#32 = base := by
    apply BitVec.eq_of_getLsbD_eq
    intro i hi
    rw [BitVec.getLsbD_and, BitVec.getLsbD_or, hone i hi, hmask i hi]
    by_cases h0 : i = 0
    · rw [h0, heven]
      rfl
    · simp [h0]
  rw [Iss.Rv.vectorOf, if_pos hset, hbase, BitVec.ofNat_mul, BitVec.ofNat_toNat, BitVec.setWidth_eq,
    BitVec.mul_comm]

/-- The traps: the instruction at `pc` raises an exception in `s`, or it has led to `s` where the
checks of the pc fail, or an interrupt is entered before it. The run goes on from `t`, and its next
instruction is executed in `e`. -/
inductive Traps : Iss.Rv → Word → Iss.Rv → Iss.Rv → Prop where
  | instr (host : Host) (rv : Iss.Rv) (h : (Iss.srv32Step .rv32im host rv).1 = .code Iss.rvTrap) :
    Traps (rv.settle .rv32im) (rv.settle .rv32im).pc (Iss.srv32Step .rv32im host rv).2
      (Iss.srv32Step .rv32im host rv).2
  | fetch (rv : Iss.Rv) (hu : rv.Undisturbed)
    (h : ¬ (rv.InRange rv.pc ∧ rv.pc.toNat % 4 = 0)) :
    Traps rv rv.prevPc rv (rv.settle .rv32im)
  | interrupt (rv : Iss.Rv) (i : Iss.Entry) (h : i ∈ rv.entries .rv32im) :
    Traps rv rv.pc rv (rv.settle .rv32im)

variable {s t e : Iss.Rv} {pc : Word}

theorem Traps.trapsAt (h : Traps s pc t e) {k : Code e} (hw : k.Has 0 (trapHandler k.base user))
    (hv : e.csr.mtvec = k.base ||| 1#32) : Iss.Rv.TrapsAt s pc e := by
  cases h with
  | instr host rv h => exact Iss.Rv.step_trapsAt h
  | fetch _ hu h =>
    refine Iss.Rv.fetch_trapsAt hu h ((Iss.Rv.vectorOf_aligned _ 0#32).mp ?_)
    rw [← (Iss.Rv.mapped_settle .rv32im s).mtvec, hv, vectorOf_table k.aligned]
    exact k.pc_aligned 0
  | interrupt _ i h =>
    have hkept := Iss.Rv.mapped_settle .rv32im s
    obtain ⟨hb, hs, -, -⟩ := Iss.Rv.mem_entriesOf h
    have hc : Handled (Iss.exceptionCode i.source.cause).toNat :=
      handled_of_mem (Or.inr (List.mem_map_of_mem (f := Iss.Source.cause) hs))
    -- the entry of the table can be fetched
    have hpc : i.after.pc =
        k.base + BitVec.ofNat 32 (4 * (Iss.exceptionCode i.source.cause).toNat) := by
      rw [← vectorOf_table k.aligned, ← hv, hkept.mtvec, Iss.Entry.after, Iss.Rv.int_eq, hb]
      exact congrArg (fun c : Csr => Iss.Rv.vectorOf c.mtvec _) (Iss.Rv.writeRegs_csr _ _)
    obtain ⟨hlt, -⟩ := List.getElem?_eq_some_iff.mp (entry_word hw hc)
    refine Iss.Rv.entry_trapsAt h ?_ ?_
    · rw [← hkept.inRange, hpc]
      exact (k.inside.part k.laid (k := 4) (by omega)).inRange k.laid (by omega)
    · rw [hpc]
      exact k.pc_aligned _

theorem at_table {k : Code e} (h : Iss.Rv.TrapsAt s pc e) (hk : e.machine.Holds k.base k.text)
    (hv : e.csr.mtvec = k.base ||| 1#32) :
    k.At (Iss.exceptionCode e.csr.mcause).toNat e.machine e.csr e := by
  refine ⟨⟨rfl, rfl, rfl, CsrKept.refl _⟩, hk, ?_, ?_⟩
  · change e.pc = _
    rw [h.pc, ← h.mtvec, hv, vectorOf_table k.aligned]
  · rw [h.mstatus]
    exact Iss.Rv.pushMie_getLsbD_mie _

theorem Traps.settle {i : ℕ} {w : Word} (h : Traps s pc t e) (hat : k.At i m c e)
    (hw : k.text[i]? = some w) : k.At i m c (t.settle .rv32im) := by
  cases h with
  | instr => exact hat.settle hw
  | fetch => exact hat
  | interrupt => exact hat

/-- The run behind a trap: the jump of the table, and what the handler leads to. -/
theorem Traps.leads (h : Traps s pc t e) {k : Code e} (hw : k.Has 0 (trapHandler k.base user))
    (hk : e.machine.Holds k.base k.text) (hv : e.csr.mtvec = k.base ||| 1#32) {Q : Iss.Rv → Prop}
    (hq : ∀ p u, Pieces k (entryOf (Iss.exceptionCode e.csr.mcause).toNat) user →
      k.At (entryOf (Iss.exceptionCode e.csr.mcause).toNat) (e.machine.goto p) e.csr u →
      Leads (fun host rv => advance host rv) u Q) (hosts : ℕ → Host) :
    ∃ n, (∀ j < n, (Iss.result .rv32im hosts t j).1 = .code Iss.rvOkay ∧
        (if j = 0 then e else Iss.run .rv32im hosts t j).Unhindered) ∧
      Q (Iss.run .rv32im hosts t n) := by
  have htr := h.trapsAt hw hv
  have hat := at_table htr hk hv
  have hc := handled_of_mem htr.mcause
  have hi := entry_word hw hc
  obtain ⟨u, hu, hentry⟩ := entered (h.settle hat hi) hw hc (hosts 0)
  obtain ⟨n, v, hn, hv⟩ := hq _ u (pieces_entry hw hc) hentry fun j => hosts (j + 1)
  obtain ⟨hok, rfl⟩ := Iss.Rv.after_advance.mp hn
  have hrun : ∀ j, Iss.run .rv32im hosts t (j + 1) =
      Iss.run .rv32im (fun j => hosts (j + 1)) u j := by
    intro j
    rw [Iss.Rv.run_head, hu]
  refine ⟨n + 1, fun j hj => ?_, by rw [hrun]; exact hv⟩
  cases j with
  | zero => exact ⟨congrArg Prod.fst hu, hat.unhindered hi⟩
  | succ j =>
    rw [if_neg (Nat.succ_ne_zero j), Iss.result, hrun]
    exact hok j (Nat.lt_of_succ_lt_succ hj)

/-- The program goes on behind the instruction at `pc` that trapped in `s`: `u` has the registers
of `e`, the interrupt enable of `s`, and the memory of `e` but for the 80 bytes below the stack. -/
structure Resumes (s : Iss.Rv) (pc : Word) (e u : Iss.Rv) : Prop where
  pc : u.pc = pc + 4#32
  regs : ∀ r, r ≠ zero → u.regs r = e.regs r
  mem : ∀ w : Word, 80 ≤ (w - (e.regs sp - 80#32)).toNat → u.machine.mem w = e.machine.mem w
  mie : u.csr.mstatus.getLsbD bitMie = s.csr.mstatus.getLsbD bitMie
  mstatus : ∀ i, i ≠ bitMie → i ≠ bitMpie → u.csr.mstatus.getLsbD i = s.csr.mstatus.getLsbD i
  csr : CsrKept { e.csr with mepc := u.csr.mepc, mstatus := u.csr.mstatus } u.csr

/-- With the default handler a trap is a detour of the program. -/
theorem trap_skipped (hosts : ℕ → Host) (s : Iss.Rv) (pc : Word) (t e : Iss.Rv)
    (h : Traps s pc t e) (k : Code e) (hw : k.Has 0 (trapHandler k.base 0#32))
    (hk : e.machine.Holds k.base k.text) (hv : e.csr.mtvec = k.base ||| 1#32)
    (hr : Room k (e.regs sp)) :
    ∃ n, (∀ j < n, (Iss.result .rv32im hosts t j).1 = .code Iss.rvOkay ∧
        (if j = 0 then e else Iss.run .rv32im hosts t j).Unhindered) ∧
      Resumes s pc e (Iss.run .rv32im hosts t n) := by
  have ht := h.trapsAt hw hv
  obtain ⟨n, hok, hu⟩ := h.leads (Q := Skipped e.machine e.csr) hw hk hv (fun p u hp hat =>
    (skips hat hp hr).mono fun v hv => ⟨hv.pc, hv.regs, hv.mem, hv.csr⟩) hosts
  refine ⟨n, hok, ?_⟩
  have hm : (Iss.run .rv32im hosts t n).csr.mstatus = popMie e.csr.mstatus := by rw [hu.csr]
  refine ⟨?_, fun r hr => ?_, hu.mem, ?_, fun i hi hp => ?_, ?_⟩
  · rw [hu.pc, ht.mepc]
  · have := hu.regs r
    change (if r = zero then _ else _) = (if r = zero then _ else _) at this
    rwa [if_neg hr, if_neg hr] at this
  · rw [hm, Iss.Rv.popMie_mie, ht.mstatus, Iss.Rv.pushMie_mpie]
  · rw [hm, Iss.Rv.popMie_bit _ hi, ht.mstatus, Iss.Rv.pushMie_bit _ hi hp]
  · rw [hu.csr]
    rfl

/-- `trap_handler` at 0 and an EBREAK behind it, with a stack. -/
def breaking : Iss.Rv :=
  { Iss.Rv.boot .rv32im 1 (Iss.image (trapHandler 0#32 0#32 ++ [0x00100073#32])) with
    pc := 628#32
    regs := fun r => if r = sp then 1792#32 else 0#32
    csr.mtvec := 1#32 }

theorem breaking_traps : (Iss.srv32Step .rv32im .none breaking).1 = .code Iss.rvTrap := by
  decide +kernel

theorem breaking_range : (Iss.srv32Step .rv32im .none breaking).2.memBase = 0#32 ∧
    (Iss.srv32Step .rv32im .none breaking).2.memSize = 2048#32 := ⟨rfl, rfl⟩

theorem trapHandler_length (pc user : Word) : (trapHandler pc user).length = 157 := by
  simp only [trapHandler, handler, List.length_append, List.length_map, List.length_range]
  rfl

theorem breaking_length : (trapHandler 0#32 0#32 ++ [0x00100073#32]).length = 158 := by
  rw [List.length_append, trapHandler_length]
  rfl

theorem breaking_laid : (Iss.srv32Step .rv32im .none breaking).2.Laid := by
  obtain ⟨hb, hs⟩ := breaking_range
  exact ⟨by rw [hs]; decide, by rw [hb, hs]; decide⟩

theorem breaking_inside : (Iss.srv32Step .rv32im .none breaking).2.Inside 0#32
    (4 * (trapHandler 0#32 0#32 ++ [0x00100073#32]).length) := by
  obtain ⟨hb, hs⟩ := breaking_range
  rw [breaking_length, Iss.Rv.Inside, hb, hs]
  decide

def breakingCode : Code (Iss.srv32Step .rv32im .none breaking).2 where
  base := 0#32
  text := trapHandler 0#32 0#32 ++ [0x00100073#32]
  laid := breaking_laid
  aligned := Iss.Rv.aligned_zero
  inside := breaking_inside

/-- The EBREAK is skipped. -/
theorem trap_skipped_ebreak : ∃ n,
    (∀ j < n, (Iss.result .rv32im (fun _ => .none) (Iss.srv32Step .rv32im .none breaking).2 j).1 =
      .code Iss.rvOkay ∧ (if j = 0 then (Iss.srv32Step .rv32im .none breaking).2 else
        Iss.run .rv32im (fun _ => .none) (Iss.srv32Step .rv32im .none breaking).2 j).Unhindered) ∧
    Resumes (breaking.settle .rv32im) (breaking.settle .rv32im).pc
      (Iss.srv32Step .rv32im .none breaking).2
      (Iss.run .rv32im (fun _ => .none) (Iss.srv32Step .rv32im .none breaking).2 n) := by
  obtain ⟨hb, hs⟩ := breaking_range
  have hlen : breakingCode.text.length = 158 := breaking_length
  have hm : (Iss.srv32Step .rv32im .none breaking).2.mem =
      Iss.image (trapHandler 0#32 0#32 ++ [0x00100073#32]) := rfl
  have hsp : (Iss.srv32Step .rv32im .none breaking).2.regs sp = 1792#32 := rfl
  refine trap_skipped (fun _ => .none) _ _ _ _ (.instr .none breaking breaking_traps) breakingCode
    (List.prefix_append _ _) (Iss.Rv.holds_image hm hb ?_)
    (Iss.Rv.step_trapsAt breaking_traps).mtvec ?_
  · rw [hlen]
    decide
  · rw [hsp]
    refine ⟨by decide, by rw [Iss.Rv.Inside, hb, hs]; decide, ?_⟩
    rw [hlen]
    decide

end Srv32.Sw

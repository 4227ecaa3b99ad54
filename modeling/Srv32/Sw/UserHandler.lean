import Srv32.Sw.TrapHandler

/-! A program with a `user_trap_handler` of its own: it may change the memory and `mepc`, and the
interrupted program does not notice more. -/

namespace Srv32.Sw

open Riscv (Instr Machine hi20 lo12)
open Riscv.Machine (save restore)
open Iss (Csr Host)
open Iss.Rv (Code CsrKept Is advance popMie)
open Abi

/-- The registers a function of the calling convention keeps, the stack pointer apart. -/
def calleeSaved : List (BitVec 5) :=
  [3#5, 4#5, 8#5, 9#5, 18#5, 19#5, 20#5, 21#5, 22#5, 23#5, 24#5, 25#5, 26#5, 27#5]

/-- What a function keeps: those registers, and its caller's frame. -/
structure Kept (m m1 : Machine) : Prop where
  sp : m1.x sp = m.x sp
  saved : ∀ r ∈ calleeSaved, m1.x r = m.x r
  frame : ∀ w : Word, (w - m.x Abi.sp).toNat < 80 → m1.mem w = m.mem w

variable {rv0 rv : Iss.Rv} {k : Code rv0} {m : Machine} {c : Csr} {b : ℕ} {user : Word}
  {does : Machine → Csr → Machine → Csr → Prop}

/-- The call of the function `user`, after a trap in `m`: its return address is word `i`, and the
registers are stored in the 80 bytes from `sp` on. -/
structure Called (k : Code rv0) (user : Word) (i : ℕ) (m : Machine) (c : Csr) (m1 : Machine)
    (rv : Iss.Rv) : Prop extends Is rv0 m1 c rv where
  pc : m1.pc = user
  text : m1.Holds k.base k.text
  ra : m1.x ra = k.base + BitVec.ofNat 32 (4 * i)
  sp : m1.x sp = m.x sp - 80#32
  args : ∀ r, r ∉ [Abi.ra, Abi.sp, s0, a5] → m1.x r = m.x r
  mem : ∀ w : Word, 80 ≤ (w - (m.x Abi.sp - 80#32)).toNat → m1.mem w = m.mem w
  off : c.mstatus.getLsbD bitMie = false

/-- So called, the function returns, and has done what `does` says. -/
def Returns (k : Code rv0) (user : Word) (i : ℕ) (m : Machine) (c : Csr)
    (does : Machine → Csr → Machine → Csr → Prop) : Prop :=
  ∀ m1 rv, Called k user i m c m1 rv → Leads (fun host rv => advance host rv) rv fun t =>
    ∃ m2 c2, k.At i m2 c2 t ∧ Kept m1 m2 ∧ does m1 c m2 c2

/-- The handlers store each register that a function may change, `sp` apart. -/
theorem saved_or_stored {r : BitVec 5} (hr : r ≠ sp) (hz : r ≠ zero) (hf : ∀ p ∈ frame, p.1 ≠ r) :
    r ∈ calleeSaved := by
  have hall : ∀ r, r ≠ sp → r ≠ zero → r ∉ frame.map Prod.fst → r ∈ calleeSaved := by decide
  refine hall r hr hz fun hmem => ?_
  obtain ⟨p, hp, he⟩ := List.mem_map.mp hmem
  exact hf p hp he

/-- `call user_trap_handler`: the function is entered with its return address. -/
theorem called (h : k.At (b + 22) m c rv) (hw : Pieces k b user) (hu : user.toNat % 4 = 0)
    (hout : user ≠ k.base + BitVec.ofNat 32 (4 * (b + 23))) :
    Leads (fun host rv => advance host rv) rv fun t => ∃ m1, Is rv0 m1 c t ∧ m1.pc = user ∧
      m1.Holds k.base k.text ∧ m1.x ra = k.base + BitVec.ofNat 32 (4 * (b + 24)) ∧
      SameBut ra m m1 := by
  have h0 := hw.call.head
  have h1 := hw.call.tail.head
  set pc := k.base + BitVec.ofNat 32 (4 * (b + 22))
  have hpc : m.pc = pc := h.pc
  -- `auipc`
  refine (h.goes h0 (Code.fits_of_access rfl) (Code.next_pc h.pc)
    fun he => absurd he Bool.false_ne_true).trans fun t ht => ?_
  have hra : ((Instr.auipc ra (hi20 (user - pc))).step 4#32 m).x ra =
      pc + (hi20 (user - pc) ++ 0#12) := by
    rw [← hpc]
    exact Machine.set_x_self (s := m) (show ra ≠ 0#5 by decide) _
  have hkept : SameBut ra m ((Instr.auipc ra (hi20 (user - pc))).step 4#32 m) :=
    ⟨fun q hq => Machine.set_x_of_ne (s := m) hq _, rfl⟩
  generalize (Instr.auipc ra (hi20 (user - pc))).step 4#32 m = m1 at ht hra hkept
  -- `jalr`
  have hto : ((Instr.jalr ra ra (lo12 (user - pc))).step 4#32 m1).pc = user := by
    change (m1.x ra + (lo12 (user - pc)).signExtend 32) &&& ~~~1#32 = user
    rw [hra, BitVec.add_assoc, Riscv.hi20_lo12, BitVec.add_comm, BitVec.sub_add_cancel]
    exact Bits.clearBit0_of_even (by omega)
  refine (ht.instr h1 (Code.fits_of_access rfl) (by rw [hto]; exact hu) fun _ => ?_).mono
    fun u hu1 => ⟨_, hu1, hto, Code.holds_step ht.text (Code.fits_of_access rfl), ?_, ?_⟩
  · rw [hto, ht.pc]
    exact hout
  · refine (Machine.set_x_self (s := m1) (show ra ≠ 0#5 by decide) _).trans ?_
    exact Code.next_pc ht.pc
  · exact ⟨fun q hq => (Machine.set_x_of_ne (s := m1) hq _).trans (hkept.1 q hq), hkept.2⟩

/-- `j 2f` -/
theorem jumped (h : k.At (b + 24) m c rv) (hw : Pieces k b user) :
    Leads (fun host rv => advance host rv) rv fun t => ∃ m1, k.At (b + 28) m1 c t ∧
      m1.x = m.x ∧ m1.mem = m.mem := by
  have h2 := hw.call.tail.tail.head
  have hoff : Instr.offset 8#20 = BitVec.ofNat 32 16 := by decide
  have hpc : ((Instr.jal zero 8#20).step 4#32 m).pc = k.base + BitVec.ofNat 32 (4 * (b + 28)) := by
    rw [jal_zero, hoff, Machine.goto, h.pc, BitVec.add_assoc, ← BitVec.ofNat_add]
    rfl
  refine (h.goes h2 (Code.fits_of_access rfl) hpc fun _ => ?_).mono fun t ht => ⟨_, ht, rfl, rfl⟩
  rw [jal_zero, hoff]
  intro he
  change m.pc + 16#32 = m.pc at he
  exact absurd he (by bv_omega)

/-- What the program sees of the trap, from what the function was called with. -/
structure Seen (m : Machine) (c : Csr) (does : Machine → Csr → Machine → Csr → Prop) (t : Iss.Rv)
    (m1 m2 : Machine) (c2 : Csr) : Prop where
  does : does m1 c m2 c2
  args : ∀ r, r ∉ [ra, sp, s0, a5] → m1.x r = m.x r
  before : ∀ w : Word, 80 ≤ (w - (m.x sp - 80#32)).toNat → m1.mem w = m.mem w
  pc : t.pc = c2.mepc
  regs : ∀ r, t.machine.x r = m.x r
  mem : t.machine.mem = m2.mem
  csr : CsrKept { c2 with mstatus := popMie c2.mstatus } t.csr

/-- A function keeps the words of its caller's frame. -/
theorem Kept.word {m1 : Machine} (h : Kept m m1) {top : Word} (hsp : m.x Abi.sp = top - 80#32)
    {p : BitVec 5 × BitVec 12} (hp : p ∈ Sw.frame) :
    m1.word (top - 80#32 + p.2.signExtend 32) = m.word (top - 80#32 + p.2.signExtend 32) := by
  obtain ⟨ho, -, hle⟩ := frame_offset p hp
  have hbyte : ∀ j < 4, m1.mem (top - 80#32 + p.2.signExtend 32 + BitVec.ofNat 32 j) =
      m.mem (top - 80#32 + p.2.signExtend 32 + BitVec.ofNat 32 j) := by
    intro j hj
    apply h.frame
    rw [hsp, ho, BitVec.add_assoc, ← BitVec.ofNat_add]
    generalize top - 80#32 = a
    have : a + BitVec.ofNat 32 (p.2.toNat + j) - a = BitVec.ofNat 32 (p.2.toNat + j) := by
      bv_omega
    rw [this, BitVec.toNat_ofNat]
    omega
  have h0 := hbyte 0 (by omega)
  rw [BitVec.add_zero] at h0
  rw [Machine.word, hbyte 3 (by omega), hbyte 2 (by omega), hbyte 1 (by omega), h0, Machine.word]

theorem handles (h : k.At b m c rv) (hp : Pieces k b user) (hr : Room k (m.x sp))
    (hu : user.toNat % 4 = 0) (hu0 : user ≠ 0#32)
    (hout : user ≠ k.base + BitVec.ofNat 32 (4 * (b + 23)))
    (hf : Returns k user (b + 24) m c does) :
    Leads (fun host rv => advance host rv) rv fun t => ∃ m1 m2 c2, Seen m c does t m1 m2 c2 := by
  refine (stored h hp hr).trans fun t1 h1 => ?_
  obtain ⟨m1, h1, hs⟩ := h1
  refine (checked h1 hp).trans fun t2 h2 => ?_
  obtain ⟨m2, h2, hs2⟩ := h2
  rw [if_neg hu0] at h2
  refine (called h2 hp hu hout).trans fun t3 h3 => ?_
  obtain ⟨m3, h3, hpc, htext, hra, hs3⟩ := h3
  have hregs : ∀ r, r ≠ ra → r ≠ a5 → m3.x r = m1.x r := fun r hr ha =>
    (hs3.1 r hr).trans (hs2.1 r ha)
  have hmem : m3.mem = m1.mem := hs3.2.trans hs2.2
  have hsp3 : m3.x sp = m.x sp - 80#32 := (hregs sp (by decide) (by decide)).trans hs.sp
  have hcall : Called k user (b + 24) m c m3 t3 := by
    refine ⟨h3, hpc, htext, hra, hsp3, fun r hr => ?_, fun w hw => ?_, h2.off⟩
    · simp only [List.mem_cons, List.not_mem_nil, or_false, not_or] at hr
      rw [hregs r hr.1 hr.2.2.2, hs.regs r hr.2.1 hr.2.2.1]
    · rw [hmem]
      exact hs.mem w hw
  refine (hf m3 t3 hcall).trans fun t4 h4 => ?_
  obtain ⟨m4, c4, h4, hk, hd⟩ := h4
  refine (jumped h4 hp).trans fun t5 h5 => ?_
  obtain ⟨m5, h5, hx5, hm5⟩ := h5
  have hsp5 : m5.x sp = m1.x sp := by
    rw [hx5, hk.sp]
    exact hregs sp (by decide) (by decide)
  refine (left h5 hp hr (hsp5.trans hs.sp)).mono fun t6 h6 => ?_
  obtain ⟨m6, h6, hs6⟩ := h6
  -- the frame is still there
  have hword : ∀ p ∈ frame, m5.word (m.x sp - 80#32 + p.2.signExtend 32) =
      m1.word (m.x sp - 80#32 + p.2.signExtend 32) := by
    intro p hp
    have hkept := hk.word hsp3 hp
    simp only [Machine.word, hm5, ← hmem] at hkept ⊢
    exact hkept
  have hx : m6.x = m.x := by
    refine resumed (m := m) ⟨hs.sp, hs.saved, hs.regs, hs.mem⟩ hs6 hsp5 hword fun r hr hf => ?_
    rw [hx5]
    by_cases hz : r = zero
    · rw [hz]
      exact m4.zero.trans m1.zero.symm
    · rw [hk.saved r (saved_or_stored hr hz hf)]
      exact hregs r (hf (ra, 76#12) (by decide)).symm (hf (a5, 36#12) (by decide)).symm
  refine ⟨m3, m4, c4, hd, hcall.args, hcall.mem, ?_, fun r => ?_, ?_, h6.csr⟩
  · exact congrArg Machine.pc h6.machine
  · rw [h6.machine]
    exact congrFun hx r
  · rw [h6.machine]
    exact hs6.mem.trans hm5

/-- With a function for them, a program goes on behind its traps as the function says. -/
theorem trap_handled (hosts : ℕ → Host) (user : Word)
    (does : Machine → Csr → Machine → Csr → Prop) (s : Iss.Rv) (pc : Word) (t e : Iss.Rv)
    (h : Traps s pc t e) (k : Code e) (hw : k.Has 0 (trapHandler k.base user))
    (hk : e.machine.Holds k.base k.text) (hv : e.csr.mtvec = k.base ||| 1#32)
    (hr : Room k (e.regs sp)) (hu : user.toNat % 4 = 0) (hu0 : user ≠ 0#32)
    (hout : ∀ i < 157, user ≠ k.base + BitVec.ofNat 32 (4 * i))
    (hf : Returns k user (entryOf (Iss.exceptionCode e.csr.mcause).toNat + 24) e.machine e.csr
      does) :
    e.csr.mepc = pc ∧
    ∃ n, (∀ j < n, (Iss.result .rv32im hosts t j).1 = .code Iss.rvOkay ∧
        (if j = 0 then e else Iss.run .rv32im hosts t j).Unhindered) ∧
      ∃ m1 m2 c2, Seen e.machine e.csr does (Iss.run .rv32im hosts t n) m1 m2 c2 := by
  have ht := h.trapsAt hw hv
  have hc := handled_of_mem ht.mcause
  have hentry := (entry_offset _ hc.lt hc).2.1
  refine ⟨ht.mepc, h.leads (Q := fun v => ∃ m1 m2 c2, Seen e.machine e.csr does v m1 m2 c2)
    hw hk hv (fun p u hp hat => ?_) hosts⟩
  have hret : Returns k user (entryOf (Iss.exceptionCode e.csr.mcause).toNat + 24)
      (e.machine.goto p) e.csr does := fun m1 rv hcall =>
    hf m1 rv ⟨hcall.toIs, hcall.pc, hcall.text, hcall.ra, hcall.sp, hcall.args, hcall.mem,
      hcall.off⟩
  refine (handles hat hp hr hu hu0 (hout _ (by omega)) hret).mono fun v hv => ?_
  obtain ⟨m1, m2, c2, hs⟩ := hv
  exact ⟨m1, m2, c2, hs.does, hs.args, hs.before, hs.pc, hs.regs, hs.mem, hs.csr⟩

/-! A function with a frame of its own that does what the default handler does. -/

def ret : Instr := .jalr zero ra 0#12

def slot : List (BitVec 5 × BitVec 12) := [(ra, 12#12)]

def push : List Instr := .opImm .addi sp sp (BitVec.ofInt 12 (-16)) :: save sp slot

def pop : List Instr := restore sp slot ++ [.opImm .addi sp sp 16#12]

def skipper : List Word :=
  push.map Instr.encode ++ (skip ++ (pop.map Instr.encode ++ [ret.encode]))

theorem slotOk : Riscv.Machine.FrameOk sp slot where
  apart := by decide
  distinct := by decide
  base := List.all_iff_forall_prop.mp (by decide)
  zero := List.all_iff_forall_prop.mp (by decide)

theorem slot_place {top : Word} (hsp : m.x sp = top - 16#32) :
    m.place sp (ra, 12#12) = top - 4#32 := by
  rw [Machine.place, hsp]
  change top - 16#32 + 12#32 = _
  bv_omega

/-- The return address lies below the caller's frame. -/
structure Pushed (m m1 : Machine) : Prop where
  sp : m1.x sp = m.x sp - 16#32
  saved : m1.word (m.x Abi.sp - 4#32) = m.x ra
  regs : ∀ r, r ≠ Abi.sp → m1.x r = m.x r
  mem : ∀ w : Word, 4 ≤ (w - (m.x Abi.sp - 4#32)).toNat → m1.mem w = m.mem w

theorem push_sp (m : Machine) :
    ((Instr.opImm .addi sp sp (BitVec.ofInt 12 (-16))).step 4#32 m).x sp = m.x sp - 16#32 := by
  rw [Machine.opImm_x (by decide), BitVec.sub_eq_add_neg]
  rfl

theorem pushed_steps (m : Machine) : Pushed m (m.steps push) := by
  have hd := push_sp m
  have hx : ∀ r, r ≠ sp →
      ((Instr.opImm .addi sp sp (BitVec.ofInt 12 (-16))).step 4#32 m).x r = m.x r :=
    fun r hr => Machine.opImm_x_of_ne hr
  have hmem : ((Instr.opImm .addi sp sp (BitVec.ofInt 12 (-16))).step 4#32 m).mem = m.mem := rfl
  rw [push, Machine.steps_cons]
  generalize (Instr.opImm .addi sp sp (BitVec.ofInt 12 (-16))).step 4#32 m = m0 at *
  have hp := slot_place hd
  refine ⟨?_, ?_, fun r hr => ?_, fun w hw => ?_⟩
  · rw [Machine.save_x, hd]
  · rw [← hp, Machine.save_word slotOk.apart List.mem_cons_self, hx ra (by decide)]
  · rw [Machine.save_x, hx r hr]
  · rw [← hmem]
    refine Machine.save_mem fun p hq => ?_
    rw [List.mem_singleton.mp hq, hp]
    exact hw

theorem popped_steps {top : Word} (hsp : m.x sp = top - 16#32) :
    (m.steps pop).x ra = m.word (top - 4#32) ∧ (m.steps pop).x sp = top ∧
      (∀ r, r ≠ ra → r ≠ sp → (m.steps pop).x r = m.x r) ∧ (m.steps pop).mem = m.mem := by
  rw [pop, Machine.steps_append, Machine.steps_cons, Machine.steps_nil]
  have hra : (m.steps (restore sp slot)).x ra = m.word (top - 4#32) := by
    rw [← slot_place hsp]
    exact Machine.restore_x slotOk.distinct slotOk.base slotOk.zero List.mem_cons_self
  have hx : ∀ r, r ≠ ra → (m.steps (restore sp slot)).x r = m.x r := fun r hr =>
    Machine.restore_x_of_ne fun p hp he => hr (by rw [← he, List.mem_singleton.mp hp])
  have hmem : (m.steps (restore sp slot)).mem = m.mem := Machine.restore_mem
  generalize m.steps (restore sp slot) = m1 at *
  refine ⟨?_, ?_, fun r hr hs => ?_, hmem⟩
  · exact (Machine.opImm_x_of_ne (by decide)).trans hra
  · refine (Machine.opImm_x (by decide)).trans ?_
    rw [hx sp (by decide), hsp]
    exact BitVec.sub_add_cancel top 16#32
  · exact (Machine.opImm_x_of_ne hs).trans (hx r hr)

theorem returns_skip {i p : ℕ} (hs : k.Has p skipper) (hi : i < p) (hp : p < 2 ^ 20)
    (hfree : k.Free (m.x sp - 80#32 - 4#32)) :
    Returns k (k.base + BitVec.ofNat 32 (4 * p)) i m c fun m1 c1 m2 c2 =>
      (∀ w : Word, 4 ≤ (w - (m1.x sp - 4#32)).toNat → m2.mem w = m1.mem w) ∧
        c2 = { c1 with mepc := c1.mepc + 4#32 } := by
  intro m1 rv h
  rw [← h.sp] at hfree
  have hat : k.At p m1 c rv := ⟨h.toIs, h.text, h.pc, h.off⟩
  have hfits : k.FitsAll m1 push := by
    refine ⟨rfl, Code.fits_of_access rfl, Code.fitsAll_save fun q hq => ?_⟩
    rw [List.mem_singleton.mp hq, slot_place (push_sp m1)]
    exact hfree
  refine (hat.block hs.left hfits).trans fun t2 h2 => ?_
  obtain ⟨hsp2, hsaved, hx2, hm2⟩ := pushed_steps m1
  generalize m1.steps push = m2 at *
  have hrest := hs.right (n := 2) rfl
  refine (skipped h2 hrest.left).trans fun t3 h3 => ?_
  obtain ⟨m3, h3, hx3, hm3⟩ := h3
  have hsp3 : m3.x sp = m1.x sp - 16#32 := (hx3 sp (by decide)).trans hsp2
  have hend := hrest.right (n := 3) rfl
  have hfits' : k.FitsAll m3 pop := by
    refine Code.FitsAll.append (Code.fitsAll_restore slotOk.base fun q hq => ?_)
      ⟨rfl, Code.fits_of_access rfl, trivial⟩
    rw [List.mem_singleton.mp hq, slot_place hsp3]
    exact hfree
  refine (h3.block hend.left hfits').trans fun t4 h4 => ?_
  obtain ⟨hra4, hsp4, hx4, hm4⟩ := popped_steps hsp3
  generalize m3.steps pop = m4 at *
  have hra : m4.x ra = k.base + BitVec.ofNat 32 (4 * i) := by
    rw [hra4, ← h.ra, ← hsaved]
    simp only [Machine.word, hm3]
  have hw : k.text[p + 2 + 3 + 2]? = some ret.encode := (hend.right (n := 2) rfl).head
  have hto : (ret.step 4#32 m4).pc = k.base + BitVec.ofNat 32 (4 * i) := by
    change (m4.x ra + 0#32) &&& ~~~1#32 = _
    rw [BitVec.add_zero, hra]
    have := k.pc_aligned i
    exact Bits.clearBit0_of_even (by omega)
  have hmem : ∀ w : Word, 4 ≤ (w - (m1.x sp - 4#32)).toNat → m4.mem w = m1.mem w := by
    intro w hw
    rw [hm4, hm3]
    exact hm2 w hw
  refine (h4.goes hw (Code.fits_of_access rfl) hto fun _ => ?_).mono fun u hu =>
    ⟨_, _, hu, ⟨hsp4, fun r hr => ?_, fun w hw => hmem w (by bv_omega)⟩, hmem, rfl⟩
  · rw [hto, h4.pc]
    intro he
    have := congrArg BitVec.toNat ((BitVec.add_right_inj k.base).mp he)
    have hlen : push.length = 2 ∧ pop.length = 2 := ⟨rfl, rfl⟩
    simp only [BitVec.toNat_ofNat] at this
    omega
  · have hne : ∀ r ∈ calleeSaved, r ≠ ra ∧ r ≠ sp ∧ r ≠ a5 :=
      List.all_iff_forall_prop.mp (by decide)
    obtain ⟨h1, h2, h5⟩ := hne r hr
    exact (hx4 r h1 h2).trans ((hx3 r h5).trans (hx2 r h2))

/-- `trap_handler` at 0, that function behind it, and an EBREAK. -/
def withFunction : List Word := trapHandler 0#32 628#32 ++ (skipper ++ [0x00100073#32])

theorem withFunction_length : withFunction.length = 166 := by
  rw [withFunction, List.length_append, trapHandler_length]
  rfl

def calling : Iss.Rv :=
  { Iss.Rv.boot .rv32im 1 (Iss.image withFunction) with
    pc := 660#32
    regs := fun r => if r = sp then 1792#32 else 0#32
    csr.mtvec := 1#32 }

theorem calling_traps : (Iss.srv32Step .rv32im .none calling).1 = .code Iss.rvTrap := by
  decide +kernel

theorem calling_range : (Iss.srv32Step .rv32im .none calling).2.memBase = 0#32 ∧
    (Iss.srv32Step .rv32im .none calling).2.memSize = 2048#32 := ⟨rfl, rfl⟩

theorem calling_laid : (Iss.srv32Step .rv32im .none calling).2.Laid := by
  obtain ⟨hb, hs⟩ := calling_range
  exact ⟨by rw [hs]; decide, by rw [hb, hs]; decide⟩

theorem calling_inside :
    (Iss.srv32Step .rv32im .none calling).2.Inside 0#32 (4 * withFunction.length) := by
  obtain ⟨hb, hs⟩ := calling_range
  rw [withFunction_length, Iss.Rv.Inside, hb, hs]
  decide

def callingCode : Code (Iss.srv32Step .rv32im .none calling).2 where
  base := 0#32
  text := withFunction
  laid := calling_laid
  aligned := Iss.Rv.aligned_zero
  inside := calling_inside

theorem trap_handled_skip :
    (Iss.srv32Step .rv32im .none calling).2.csr.mepc = (calling.settle .rv32im).pc ∧
    ∃ n, (∀ j < n, (Iss.result .rv32im (fun _ => .none)
        (Iss.srv32Step .rv32im .none calling).2 j).1 = .code Iss.rvOkay ∧
        (if j = 0 then (Iss.srv32Step .rv32im .none calling).2 else
          Iss.run .rv32im (fun _ => .none) (Iss.srv32Step .rv32im .none calling).2 j).Unhindered) ∧
      ∃ m1 m2 c2, Seen (Iss.srv32Step .rv32im .none calling).2.machine
        (Iss.srv32Step .rv32im .none calling).2.csr
        (fun m c m1 c1 => (∀ w : Word, 4 ≤ (w - (m.x sp - 4#32)).toNat → m1.mem w = m.mem w) ∧
          c1 = { c with mepc := c.mepc + 4#32 })
        (Iss.run .rv32im (fun _ => .none) (Iss.srv32Step .rv32im .none calling).2 n) m1 m2 c2 := by
  obtain ⟨hb, hs⟩ := calling_range
  have hlen : callingCode.text.length = 166 := withFunction_length
  have hm : (Iss.srv32Step .rv32im .none calling).2.mem = Iss.image withFunction := rfl
  have hsp : (Iss.srv32Step .rv32im .none calling).2.regs sp = 1792#32 := rfl
  have hw : callingCode.Has 0 (trapHandler 0#32 628#32 ++ skipper) :=
    ⟨[0x00100073#32], List.append_assoc _ _ _⟩
  have hout : ∀ i < 157, 628#32 ≠ 0#32 + BitVec.ofNat 32 (4 * i) := by
    intro i hi he
    have := congrArg BitVec.toNat he
    rw [BitVec.zero_add, BitVec.toNat_ofNat, BitVec.toNat_ofNat] at this
    omega
  refine trap_handled (fun _ => .none) 628#32 _ _ _ _ _ (.instr .none calling calling_traps)
    callingCode hw.left (Iss.Rv.holds_image hm hb ?_) (Iss.Rv.step_trapsAt calling_traps).mtvec ?_
    (by decide) (by decide) hout ?_
  · rw [hlen]
    decide
  · rw [hsp]
    refine ⟨by decide, by rw [Iss.Rv.Inside, hb, hs]; decide, ?_⟩
    rw [hlen]
    decide
  · have hfun := hw.right (trapHandler_length 0#32 628#32)
    rw [Nat.zero_add] at hfun
    refine returns_skip hfun (by decide) (by decide) ?_
    refine ⟨by decide, ?_, ?_⟩
    · rw [Iss.Rv.Inside, hb, hs]
      decide
    · rw [hlen]
      decide

end Srv32.Sw

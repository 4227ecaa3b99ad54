import Srv32.Refine.Program

/-! What the programs under `sw/` are written in: the assembler's instructions for CSRs and
addresses, before any relaxation by the linker, and the registers by their names. -/

namespace Srv32.Sw

open Riscv (Instr Machine hi20 lo12)
open Iss (Csr Host)
open Iss.Rv (Code Is advance)

/-! The registers by their names in the calling convention. -/

namespace Abi

abbrev zero : BitVec 5 := 0#5
abbrev ra : BitVec 5 := 1#5
abbrev sp : BitVec 5 := 2#5
abbrev gp : BitVec 5 := 3#5
abbrev t0 : BitVec 5 := 5#5
abbrev t1 : BitVec 5 := 6#5
abbrev t2 : BitVec 5 := 7#5
abbrev s0 : BitVec 5 := 8#5
abbrev a5 : BitVec 5 := 15#5

end Abi

open Abi

/-! CSR instructions. -/

def csrr (rd : BitVec 5) (csr : BitVec 12) : Word := Riscv.iType csr 0#5 0b010#3 rd 0b1110011#7

def csrw (csr : BitVec 12) (rs : BitVec 5) : Word := Riscv.iType csr rs 0b001#3 0#5 0b1110011#7

def csrrsi (rd : BitVec 5) (csr : BitVec 12) (imm : BitVec 5) : Word :=
  Riscv.iType csr imm 0b110#3 rd 0b1110011#7

def mret : Word := 0x30200073#32

/-- `la rd, symbol` at `pc` -/
def la (pc : Word) (rd : BitVec 5) (symbol : Word) : List Instr :=
  [.auipc rd (hi20 (symbol - pc)), .opImm .addi rd rd (lo12 (symbol - pc))]

/-- `lui` and `addi` with the two parts of the symbol. -/
def absolute (rd : BitVec 5) (symbol : Word) : List Instr :=
  [.lui rd (hi20 symbol), .opImm .addi rd rd (lo12 symbol)]

variable {m : Machine} {pc symbol : Word} {rd : BitVec 5}

theorem la_x (h : rd ≠ zero) (hpc : m.pc = pc) : (m.steps (la pc rd symbol)).x rd = symbol := by
  have hx : (Instr.step 4#32 m (.auipc rd (hi20 (symbol - pc)))).x rd =
      pc + (hi20 (symbol - pc) ++ 0#12) := by
    rw [← hpc]
    exact Machine.set_x_self h _
  have hlast : (m.steps (la pc rd symbol)).x rd =
      (Instr.step 4#32 m (.auipc rd (hi20 (symbol - pc)))).x rd +
        (lo12 (symbol - pc)).signExtend 32 := Machine.set_x_self h _
  rw [hlast, hx, BitVec.add_assoc, Riscv.hi20_lo12, BitVec.add_comm, BitVec.sub_add_cancel]

theorem la_x_of_ne {r : BitVec 5} (h : r ≠ rd) : (m.steps (la pc rd symbol)).x r = m.x r :=
  (Machine.set_x_of_ne h _).trans (Machine.set_x_of_ne h _)

theorem absolute_x (h : rd ≠ zero) : (m.steps (absolute rd symbol)).x rd = symbol := by
  have hx : (Instr.step 4#32 m (.lui rd (hi20 symbol))).x rd = hi20 symbol ++ 0#12 :=
    Machine.set_x_self h _
  have hlast : (m.steps (absolute rd symbol)).x rd =
      (Instr.step 4#32 m (.lui rd (hi20 symbol))).x rd + (lo12 symbol).signExtend 32 :=
    Machine.set_x_self h _
  rw [hlast, hx, Riscv.hi20_lo12]

theorem absolute_x_of_ne {r : BitVec 5} (h : r ≠ rd) :
    (m.steps (absolute rd symbol)).x r = m.x r :=
  (Machine.set_x_of_ne h _).trans (Machine.set_x_of_ne h _)

/-! Such instructions access no memory. -/

variable {rv0 rv : Iss.Rv} {k : Code rv0} {c : Csr} {i : ℕ} {csr : BitVec 12} {r : BitVec 5}

theorem fitsAll_la : k.FitsAll m (la pc rd symbol) :=
  ⟨rfl, Code.fits_of_access rfl, rfl, Code.fits_of_access rfl, trivial⟩

theorem fitsAll_absolute : k.FitsAll m (absolute rd symbol) :=
  ⟨rfl, Code.fits_of_access rfl, rfl, Code.fits_of_access rfl, trivial⟩

/-- One register may differ. -/
def SameBut (r : BitVec 5) (m m1 : Machine) : Prop :=
  (∀ q, q ≠ r → m1.x q = m.x q) ∧ m1.mem = m.mem

theorem loads (h : k.At i m c rv)
    (hw : k.Has i ((la (k.base + BitVec.ofNat 32 (4 * i)) rd symbol).map Instr.encode))
    (hrd : rd ≠ zero) : Leads (fun host rv => advance host rv) rv fun t => ∃ m1,
      k.At (i + 2) m1 c t ∧ m1.x rd = symbol ∧ SameBut rd m m1 :=
  (h.block hw fitsAll_la).mono fun _ ht =>
    ⟨_, ht, la_x hrd h.pc, fun _ hq => la_x_of_ne hq, rfl⟩

/-! CSR instructions in a program. -/

theorem imm12_iType (imm : BitVec 12) (s1 d : BitVec 5) (f3 : BitVec 3) (op : BitVec 7) :
    imm12 (Riscv.iType imm s1 f3 d op) = imm := by
  apply BitVec.eq_of_getLsbD_eq
  intro i hi
  simp only [imm12, Riscv.iType, BitVec.getLsbD_extractLsb', BitVec.getLsbD_append]
  grind

theorem set_zero (m : Machine) (v : Word) : m.set zero v = m := rfl

theorem reg_eq {d : Iss.Rv} (hm : d.machine = m) (hz : d.regs 0#5 = 0#32) (q : BitVec 5) :
    d.regs q = m.x q := by
  rw [← hm]
  change d.regs q = if q = 0#5 then 0#32 else d.regs q
  split
  · rename_i h
    rw [h, hz]
  · rfl

theorem reads (h : k.At i m c rv) (hw : k.text[i]? = some (csrr r csr)) {v : Word}
    (hv : ∀ c0, Iss.Rv.CsrKept c c0 → c0.rw csr opCsrrs 0#32 false = (v, true, c0)) :
    Leads (fun host rv => advance host rv) rv (k.At (i + 1) ((m.set r v).next 4#32) c) := by
  obtain ⟨ho, hrd, hf, hs, -⟩ := Iss.fields_iType 0#5 r 0b010#3 0b1110011#7 csr
  have himm : imm12 (csrr r csr) = csr := imm12_iType _ _ _ _ _
  have hop : ∀ d : Iss.Rv, d.machine = m → d.regs 0#5 = 0#32 →
      d.csrOperand .rv32im (csrr r csr) = some (opCsrrs, 0#32, false) := by
    intro d _ hz
    have hf' : func3 (csrr r csr) = opCsrrs := hf
    have hs' : rs1 (csrr r csr) = 0#5 := hs
    rw [Iss.Rv.csrOperand, hf', hs', Iss.Rv.readRegs_rv32im, hz]
    rfl
  have hn : func3 (csrr r csr) ≠ opEcall := fun he => absurd (hf.symm.trans he) (by decide)
  rw [← show Srv32.rd (csrr r csr) = r from hrd]
  refine Code.At.csrs h hw ho hn hop (fun c0 hk => ?_) h.off
  rw [himm]
  exact ⟨c0, hv c0 hk, hk⟩

theorem writes (h : k.At i m c rv) (hw : k.text[i]? = some (csrw csr r)) {v : Word} {c' : Csr}
    (hv : ∀ c0, Iss.Rv.CsrKept c c0 →
      ∃ c1, c0.rw csr opCsrrw (m.x r) true = (v, true, c1) ∧ Iss.Rv.CsrKept c' c1)
    (hoff : c'.mstatus.getLsbD bitMie = false) :
    Leads (fun host rv => advance host rv) rv (k.At (i + 1) (m.next 4#32) c') := by
  obtain ⟨ho, hrd, hf, hs, -⟩ := Iss.fields_iType r 0#5 0b001#3 0b1110011#7 csr
  have himm : imm12 (csrw csr r) = csr := imm12_iType _ _ _ _ _
  have hop : ∀ d : Iss.Rv, d.machine = m → d.regs 0#5 = 0#32 →
      d.csrOperand .rv32im (csrw csr r) = some (opCsrrw, m.x r, true) := by
    intro d hd hz
    have hf' : func3 (csrw csr r) = opCsrrw := hf
    have hs' : rs1 (csrw csr r) = r := hs
    rw [Iss.Rv.csrOperand, hf', hs', Iss.Rv.readRegs_rv32im, reg_eq hd hz]
    rfl
  have hn : func3 (csrw csr r) ≠ opEcall := fun he => absurd (hf.symm.trans he) (by decide)
  rw [← set_zero m v, ← show Srv32.rd (csrw csr r) = zero from hrd]
  refine Code.At.csrs h hw ho hn hop (fun c0 hk => ?_) hoff
  rw [himm]
  exact hv c0 hk

theorem sets {imm : BitVec 5} (h : k.At i m c rv) (hw : k.text[i]? = some (csrrsi zero csr imm))
    {v : Word} {c' : Csr} (hv : ∀ c0, Iss.Rv.CsrKept c c0 →
      ∃ c1, c0.rw csr opCsrrs (imm.setWidth 32) (imm != 0#5) = (v, true, c1) ∧ Iss.Rv.CsrKept c' c1)
    (hoff : c'.mstatus.getLsbD bitMie = false) :
    Leads (fun host rv => advance host rv) rv (k.At (i + 1) (m.next 4#32) c') := by
  obtain ⟨ho, hrd, hf, hs, -⟩ := Iss.fields_iType imm 0#5 0b110#3 0b1110011#7 csr
  have himm : imm12 (csrrsi zero csr imm) = csr := imm12_iType _ _ _ _ _
  have hop : ∀ d : Iss.Rv, d.machine = m → d.regs 0#5 = 0#32 →
      d.csrOperand .rv32im (csrrsi zero csr imm) =
        some (opCsrrs, imm.setWidth 32, imm != 0#5) := by
    intro d _ _
    have hf' : func3 (csrrsi zero csr imm) = opCsrrsi := hf
    have hs' : rs1 (csrrsi zero csr imm) = imm := hs
    rw [Iss.Rv.csrOperand, hf', hs']
    rfl
  have hn : func3 (csrrsi zero csr imm) ≠ opEcall :=
    fun he => absurd (hf.symm.trans he) (by decide)
  rw [← set_zero m v, ← show Srv32.rd (csrrsi zero csr imm) = zero from hrd]
  refine Code.At.csrs h hw ho hn hop (fun c0 hk => ?_) hoff
  rw [himm]
  exact hv c0 hk

theorem jal_zero (m : Machine) (off : BitVec 20) :
    (Instr.jal zero off).step 4#32 m = m.goto (m.pc + Instr.offset off) := rfl

end Srv32.Sw

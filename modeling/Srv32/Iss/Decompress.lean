import Srv32.Opcode

/-! Expansion of compressed instructions (`tools/decompress.c`). -/

namespace Srv32.Iss

/-- What `compressed_decoder` delivers: its result, `*inst` and `*illegal`. -/
structure Decompressed where
  compressed : Bool
  inst : Word
  illegal : Bool

def getImm (v : Word) (src dst : Nat) (mask : Word) : Word :=
  (if dst < src then v >>> (src - dst) else v <<< (dst - src)) &&& mask <<< dst

/-! The bit-fields of `INST`, assembled; a value that is too wide loses its high bits. -/

def mkR (op : BitVec 7) (rd : BitVec 5) (func3 : BitVec 3) (rs1 rs2 : BitVec 5)
    (func7 : BitVec 7) : Word := func7 ++ rs2 ++ rs1 ++ func3 ++ rd ++ op

def mkI (op : BitVec 7) (rd : BitVec 5) (func3 : BitVec 3) (rs1 : BitVec 5) (imm : Word) : Word :=
  (imm.setWidth 12) ++ rs1 ++ func3 ++ rd ++ op

def mkS (op : BitVec 7) (imm1 : Word) (func3 : BitVec 3) (rs1 rs2 : BitVec 5) (imm2 : Word) :
    Word := imm2.setWidth 7 ++ rs2 ++ rs1 ++ func3 ++ imm1.setWidth 5 ++ op

def mkU (op : BitVec 7) (rd : BitVec 5) (imm : Word) : Word := imm.setWidth 20 ++ rd ++ op

/-! The bit-fields of `INSTC`. -/

section fields

variable (c : BitVec 16)

def cOp : BitVec 2 := c.extractLsb' 0 2
def cFunc3 : BitVec 3 := c.extractLsb' 13 3
/-- `ci.imm_l`, `cr.rs2`, `css.rs2` -/
def cImmL : BitVec 5 := c.extractLsb' 2 5
/-- `ci.rd`, `cr.rd` -/
def cRd : BitVec 5 := c.extractLsb' 7 5
def ciImmH : BitVec 1 := c.extractLsb' 12 1
def cssImm : Word := (c.extractLsb' 7 6).setWidth 32
def ciwImm : Word := (c.extractLsb' 5 8).setWidth 32
/-- `ciw.rd_`, `cl.rd_`, `cs.rs2_`, `ca.rs2_` -/
def cRd' : BitVec 5 := 8#5 + (c.extractLsb' 2 3).setWidth 5
/-- `cl.rs1_`, `cs.rs1_`, `ca.rd_`, `cb.rs1_` -/
def cRs1' : BitVec 5 := 8#5 + (c.extractLsb' 7 3).setWidth 5
/-- `cl.imm_l`, `cs.imm_l` -/
def clImmL : Word := (c.extractLsb' 5 2).setWidth 32
/-- `cl.imm_h`, `cs.imm_h`, `cb.imm_h` -/
def clImmH : Word := (c.extractLsb' 10 3).setWidth 32
def caFunc2 : BitVec 2 := c.extractLsb' 5 2
def caFunc6 : BitVec 6 := c.extractLsb' 10 6
def cjOffset : Word := (c.extractLsb' 2 11).setWidth 32

/-- The 6-bit immediate of the CI forms, sign bits included. -/
def ciImm : Word := (if ciImmH c ≠ 0#1 then 0xfe0#32 else 0#32) + (cImmL c).setWidth 32

/-- The branch immediates `b.imm1` and `b.imm2` of C.BEQZ and C.BNEZ. -/
def cbImm1 : Word :=
  getImm (clImmH c) 0 3 0x3#32 + getImm ((cImmL c).setWidth 32) 1 1 0x3#32 +
    (if clImmH c &&& 4#32 ≠ 0#32 then 1#32 else 0#32)
def cbImm2 : Word :=
  (if clImmH c &&& 4#32 ≠ 0#32 then 0x78#32 else 0#32) +
    getImm ((cImmL c).setWidth 32) 3 1 0x3#32 + getImm ((cImmL c).setWidth 32) 0 0 0x1#32

/-- `j.imm` of C.J and C.JAL. -/
def cjImm : Word :=
  (if cjOffset c &&& 0x400#32 ≠ 0#32 then 0x801ff#32 else 0#32) +
    getImm (cjOffset c) 0 13 0x1#32 + getImm (cjOffset c) 1 9 0x7#32 +
    getImm (cjOffset c) 4 15 0x1#32 + getImm (cjOffset c) 5 14 0x1#32 +
    getImm (cjOffset c) 6 18 0x1#32 + getImm (cjOffset c) 7 16 0x3#32 +
    getImm (cjOffset c) 9 12 0x1#32

/-- `c.addi4spn`, `c.lw`, `c.sw`; `none` is illegal. -/
def decodeC0 : Option Word :=
  if cFunc3 c = 0#3 then
    if c = 0#16 then none
    else if ciwImm c ≠ 0#32 then
      some (mkI opArithI (cRd' c) opAdd 2#5
        (getImm (ciwImm c) 0 3 0x1#32 + getImm (ciwImm c) 1 2 0x1#32 +
          getImm (ciwImm c) 2 6 0xf#32 + getImm (ciwImm c) 6 4 0x3#32))
    else none
  else if cFunc3 c = 2#3 then
    some (mkI opLoad (cRd' c) opLw (cRs1' c)
      (getImm (clImmH c) 0 3 0x7#32 + getImm (clImmL c) 0 6 0x1#32 +
        getImm (clImmL c) 1 2 0x1#32))
  else if cFunc3 c = 6#3 then
    some (mkS opStore (getImm (clImmH c) 0 3 0x3#32 + getImm (clImmL c) 1 2 0x1#32) opSw
      (cRs1' c) (cRd' c) (getImm (clImmL c) 0 1 0x1#32 + getImm (clImmH c) 2 0 0x1#32))
  else none

/-- The `ca.func6 & 3` switch of quadrant 1. -/
def decodeCa : Option Word :=
  let k := caFunc6 c &&& 3#6
  if k = 0#6 then some (mkR opArithI (cRs1' c) opSr (cRs1' c) (cImmL c) 0#7)
  else if k = 1#6 then some (mkR opArithI (cRs1' c) opSr (cRs1' c) (cImmL c) 0x20#7)
  else if k = 2#6 then
    some (mkI opArithI (cRs1' c) opAnd (cRs1' c)
      ((if clImmH c &&& 4#32 ≠ 0#32 then 0xfe0#32 else 0#32) + (cImmL c).setWidth 32))
  else if caFunc6 c = 0x27#6 then none
  else if caFunc2 c = 0#2 then some (mkR opArithR (cRs1' c) opAdd (cRs1' c) (cRd' c) 0x20#7)
  else if caFunc2 c = 1#2 then some (mkR opArithR (cRs1' c) opXor (cRs1' c) (cRd' c) 0#7)
  else if caFunc2 c = 2#2 then some (mkR opArithR (cRs1' c) opOr (cRs1' c) (cRd' c) 0#7)
  else some (mkR opArithR (cRs1' c) opAnd (cRs1' c) (cRd' c) 0#7)

/-- The HINT and NOP expansion `addi x0, x0, 0`. -/
def cNop : Word := mkI opArithI 0#5 opAdd 0#5 0#32

def decodeC1 : Option Word :=
  if cFunc3 c = 0#3 then
    if cRd c = 0#5 then some cNop else some (mkI opArithI (cRd c) opAdd (cRd c) (ciImm c))
  else if cFunc3 c = 6#3 then some (mkS opBranch (cbImm1 c) opBeq (cRs1' c) 0#5 (cbImm2 c))
  else if cFunc3 c = 7#3 then some (mkS opBranch (cbImm1 c) opBne (cRs1' c) 0#5 (cbImm2 c))
  else if cFunc3 c = 5#3 then some (mkU opJal 0#5 (cjImm c))
  else if cFunc3 c = 1#3 then some (mkU opJal 1#5 (cjImm c))
  else if cFunc3 c = 2#3 then
    if cRd c = 0#5 then some cNop else some (mkI opArithI (cRd c) opAdd 0#5 (ciImm c))
  else if cFunc3 c = 3#3 then
    if cRd c = 2#5 then
      if ciImmH c ≠ 0#1 ∨ cImmL c ≠ 0#5 then
        let l : Word := (cImmL c).setWidth 32
        some (mkI opArithI 2#5 opAdd 2#5
          ((if ciImmH c ≠ 0#1 then 0xe00#32 else 0#32) + getImm l 0 5 0x1#32 +
            getImm l 1 7 0x3#32 + getImm l 3 6 0x1#32 + getImm l 4 4 0x1#32))
      else none
    else if cRd c ≠ 0#5 then
      if ciImmH c ≠ 0#1 ∨ cImmL c ≠ 0#5 then
        some (mkU opLui (cRd c)
          ((if ciImmH c ≠ 0#1 then 0xfffe0#32 else 0#32) + (cImmL c).setWidth 32))
      else none
    else some cNop
  else decodeCa c

def decodeC2 : Option Word :=
  if cFunc3 c = 4#3 then
    if ciImmH c = 0#1 ∧ cRd c ≠ 0#5 ∧ cImmL c = 0#5 then some (mkI opJalr 0#5 0#3 (cRd c) 0#32)
    else if ciImmH c = 0#1 ∧ cImmL c ≠ 0#5 then
      some (mkR opArithR (cRd c) opAdd 0#5 (cImmL c) 0#7)
    else if ciImmH c = 1#1 ∧ cRd c = 0#5 ∧ cImmL c = 0#5 then some 0x00100073#32
    else if ciImmH c = 1#1 ∧ cRd c ≠ 0#5 ∧ cImmL c = 0#5 then
      some (mkI opJalr 1#5 0#3 (cRd c) 0#32)
    else if ciImmH c = 1#1 ∧ cImmL c ≠ 0#5 then
      some (mkR opArithR (cRd c) opAdd (cRd c) (cImmL c) 0#7)
    else none
  else if cFunc3 c = 2#3 then
    if cRd c ≠ 0#5 then
      some (mkI opLoad (cRd c) opLw 2#5
        (getImm ((ciImmH c).setWidth 32) 0 5 0x1#32 + getImm ((cImmL c).setWidth 32) 0 6 0x3#32 +
          getImm ((cImmL c).setWidth 32) 2 2 0x7#32))
    else none
  else if cFunc3 c = 0#3 then
    if ciImmH c = 0#1 then some (mkR opArithI (cRd c) opSll (cRd c) (cImmL c) 0#7) else none
  else if cFunc3 c = 6#3 then
    some (mkS opStore (getImm (cssImm c) 2 2 0x7#32) opSw 2#5 (cImmL c)
      (getImm (cssImm c) 1 2 0x1#32 + getImm (cssImm c) 0 1 0x1#32 +
        getImm (cssImm c) 5 0 0x1#32))
  else none

end fields

/-- `compressed_decoder`, given `*inst` as the fetch left it. An illegal halfword leaves
`r.inst` zero. -/
def compressedDecoder (c : BitVec 16) (inst : Word) : Decompressed :=
  let done (r : Option Word) : Decompressed := ⟨true, r.getD 0#32, r.isNone⟩
  if cOp c = 3#2 then ⟨false, inst, false⟩
  else if cOp c = 0#2 then done (decodeC0 c)
  else if cOp c = 1#2 then done (decodeC1 c)
  else done (decodeC2 c)

end Srv32.Iss

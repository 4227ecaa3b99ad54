import Srv32.Iss.State

/-! CSR access (`csr_rw`). -/

namespace Srv32.Iss

/-- The macro `UPDATE_CSR`: the register's new value. -/
def updateCsr (update : Bool) (mode : BitVec 3) (reg val : Word) : Word :=
  if update then
    if mode = opCsrrw then val
    else if mode = opCsrrs then reg ||| val
    else if mode = opCsrrc then reg &&& ~~~val
    else reg
  else reg

namespace Csr

/-- `csr_rw`: the result, `*legal`, and the CSRs afterwards. -/
def rw (c : Csr) (regs : BitVec 12) (mode : BitVec 3) (val : Word) (update : Bool) :
    Word × Bool × Csr :=
  if regs = csrRdcycle then (Counter.lo (c.cycle - 1#64), true, c)
  else if regs = csrRdcycleh then (Counter.hi (c.cycle - 1#64), true, c)
  else if regs = csrRdinstret then (Counter.lo (c.instret - 1#64), true, c)
  else if regs = csrRdinstreth then (Counter.hi (c.instret - 1#64), true, c)
  else if regs = csrMvendorid then (c.mvendorid, true, c)
  else if regs = csrMarchid then (c.marchid, true, c)
  else if regs = csrMimpid then (c.mimpid, true, c)
  else if regs = csrMhartid then (c.mhartid, true, c)
  else if regs = csrMscratch then
    (c.mscratch, true, { c with mscratch := updateCsr update mode c.mscratch val })
  else if regs = csrMstatus then
    (c.mstatus, true, { c with mstatus := updateCsr update mode c.mstatus val })
  else if regs = csrMstatush then
    (c.mstatush, true, { c with mstatush := updateCsr update mode c.mstatush val })
  else if regs = csrMisa then
    (c.misa, true, { c with misa := updateCsr update mode c.misa val })
  else if regs = csrMie then
    (c.mie, true, { c with mie := updateCsr update mode c.mie val })
  else if regs = csrMip then
    (c.mip, true, { c with mip := updateCsr update mode c.mip val })
  else if regs = csrMtvec then
    (c.mtvec, true, { c with mtvec := updateCsr update mode c.mtvec val })
  else if regs = csrMepc then
    (c.mepc, true, { c with mepc := updateCsr update mode c.mepc val })
  else if regs = csrMcause then
    (c.mcause, true, { c with mcause := updateCsr update mode c.mcause val })
  else if regs = csrMtval then
    (c.mtval, true, { c with mtval := updateCsr update mode c.mtval val })
  else (0#32, false, c)

end Csr

end Srv32.Iss

import Srv32.Iss.State
import Mathlib.Tactic.SplitIfs

/-! Guest memory, the host calls of `htif.c` and `syscall.c`, and `memrw`. -/

namespace Srv32.Iss

/-- The `int` stored in the bytes `b 0 .. b 3`, low byte first. -/
def wordOfBytes (b : Nat → Byte) : Word := b 3 ++ b 2 ++ b 1 ++ b 0

/-- Byte `i` of an `int`, zero past the last. -/
def byteOfWord (w : Word) (i : Nat) : Byte := w.extractLsb' (8 * i) 8

/-- A memory that holds the words `ws` from index 0 on. -/
def image (ws : List Word) (j : Int) : Byte :=
  if j < 0 then 0#8 else byteOfWord (ws.getD (j.toNat / 4) 0#32) (j.toNat % 4)

namespace Rv

variable (rv : Rv)

/-- The index of `addr` in the memory array. -/
def offset (addr : Word) : Int := (addr - rv.memBase).toInt

/-- The bound check of `srv32_read_mem` and `srv32_write_mem`, in `int32_t` arithmetic. -/
def memOk (addr len : Word) : Bool :=
  !(addr.slt rv.memBase || (rv.memBase + rv.memSize).slt (addr + len))

/-- `srv32_get_memptr`, as an index of the memory array. -/
def getMemptr (addr : Word) : Option Int :=
  if addr.slt rv.memBase || (rv.memBase + rv.memSize).slt addr then none
  else some (rv.offset addr)

/-- `srv32_read_mem`: the bytes the copy loop delivers. -/
def readMem (addr len : Word) : Option (Nat → Byte) :=
  if rv.memOk addr len then some fun i => rv.mem (rv.offset addr + i) else none

/-- Memory after `len` bytes of `src` are copied to index `off` on. -/
def copyIn (off : Int) (len : Int) (src : Nat → Byte) : Int → Byte := fun j =>
  if off ≤ j ∧ j < off + len then src (j - off).toNat else rv.mem j

def writeMem (addr len : Word) (src : Nat → Byte) : Option Rv :=
  if rv.memOk addr len then some { rv with mem := rv.copyIn (rv.offset addr) len.toInt src }
  else none

/-- The `int` at index `off`. -/
def intAt (off : Int) : Word := wordOfBytes fun i => rv.mem (off + i)

/-- The status `prog_exit` leaves with; its only parameter is `rv`. -/
def progExit : Ret := .exit (if rv.debugEn then 0#32 else rv.exitcode)

/-- The bytes that a `read` or `write` of `count` bytes moves when its result is `res`; none when
it fails, or refuses the size that a negative `count` becomes. -/
def moved (res count : Word) : Nat := min res.toInt.toNat count.toInt.toNat

theorem moved_le (res count : Word) : moved res count ≤ count.toInt.toNat := Nat.min_le_right _ _

/-- `read(fd, ptr, count)` puts the host's bytes at `ptr`. -/
def hostRead (host : Host) (fd : Word) (ptr : Option Int) (count : Word) : Rv :=
  let call := .read fd ptr count
  match ptr with
  | some off => { rv with mem := rv.copyIn off (moved (host.sys call) count) (host.input call) }
  | none => rv

/-- `while (start != end) emit(*start++)` over host pointers: it ends when `end` lies
ahead of `start`, and leaves the process's memory otherwise. -/
def dumpEnds (start stop : Option Int) : Bool :=
  match start, stop with
  | some s, some e => decide (s ≤ e)
  | none, none => true
  | _, _ => false

/-- The SYS_DUMP and SYS_DUMP_BIN arms; `aligned` is the alignment test of the first. -/
def dump (host : Host) (aligned : Bool) (a0 a1 : Word) : Option Ret :=
  if !host.fopen then some (.exit 1#32)
  else if !aligned then some (.exit 1#32)
  else if dumpEnds (rv.getMemptr a0) (rv.getMemptr a1) then none
  else some .segv

def dumpAligned (a0 a1 : Word) : Bool := a0 &&& 3#32 == 0#32 && a1 &&& 3#32 == 0#32

/-- `srv32_tohost`; `none` when it returns. -/
def tohost (host : Host) (htifMem : Word) : Option Ret × Rv :=
  match rv.getMemptr htifMem with
  | none => (some .segv, rv)
  | some m =>
    let func := rv.intAt m
    let a0 := rv.intAt (m + 4)
    let a1 := rv.intAt (m + 8)
    let a2 := rv.intAt (m + 12)
    let a0Ptr := rv.getMemptr a0
    let a1Ptr := rv.getMemptr a1
    if func = sysOpen then (none, { rv with htifResult := host.sys (.open_ a0Ptr) })
    else if func = sysClose then (none, { rv with htifResult := host.sys (.close a0) })
    else if func = sysLseek then (none, { rv with htifResult := host.sys (.lseek a0 a1 a2) })
    else if func = sysExit then (some { rv with htifResult := 0#32 }.progExit, rv)
    else if func = sysRead then
      (none, { rv.hostRead host a0 a1Ptr a2 with htifResult := host.sys (.read a0 a1Ptr a2) })
    else if func = sysWrite then
      (none, { rv with htifResult := host.sys (.write a0 a1Ptr a2) })
    else if func = sysDump then
      (rv.dump host (dumpAligned a0 a1) a0 a1, { rv with htifResult := 0#32 })
    else if func = sysDumpBin then (rv.dump host true a0 a1, { rv with htifResult := 0#32 })
    else (none, rv)

/-- `srv32_syscall`: its result, or how the process ends. -/
def syscall (host : Host) (func a0 a1 a2 : Word) : Except Ret Word × Rv :=
  let a0Ptr := rv.getMemptr a0
  let a1Ptr := rv.getMemptr a1
  if func = sysOpen then (.ok (host.sys (.open_ a0Ptr)), rv)
  else if func = sysClose then (.ok (host.sys (.close a0)), rv)
  else if func = sysLseek then (.ok (host.sys (.lseek a0 a1 a2)), rv)
  else if func = sysExit then (.error rv.progExit, rv)
  else if func = sysRead then
    (.ok (host.sys (.read a0 a1Ptr a2)), rv.hostRead host a0 a1Ptr a2)
  else if func = sysWrite then (.ok (host.sys (.write a0 a1Ptr a2)), rv)
  else if func = sysDump then
    match rv.dump host (dumpAligned a0 a1) a0 a1 with
    | some r => (.error r, rv)
    | none => (.ok a1, rv)
  else if func = sysDumpBin then
    match rv.dump host true a0 a1 with
    | some r => (.error r, rv)
    | none => (.ok a1, rv)
  else (.ok (-1#32), rv)

/-- The width and alignment switch at the head of `memrw`'s load part: the length, or the
code returned at once. -/
def loadLen (op : BitVec 3) (address : Word) : Except Word Word :=
  if op = opLb then .ok 1#32
  else if op = opLbu then .ok 1#32
  else if op = opLh then if address &&& 1#32 ≠ 0#32 then .error trapLdAlign else .ok 2#32
  else if op = opLhu then if address &&& 1#32 ≠ 0#32 then .error trapLdAlign else .ok 2#32
  else if op = opLw then if address &&& 3#32 ≠ 0#32 then .error trapLdAlign else .ok 4#32
  else .error trapInstIll

/-- The device registers a load reaches outside guest memory. -/
def loadDevice (host : Host) (address : Word) : Option Word :=
  if address = mmioPutc then some 0#32
  else if address = mmioGetc then some host.getch
  else if address = mmioExit then some 0#32
  else if address = mmioFromhost then some rv.htifResult
  else if address = mmioMtime then some (Counter.lo (rv.csr.mtime - 1#64))
  else if address = mmioMtime + 4#32 then some (Counter.hi (rv.csr.mtime - 1#64))
  else if address = mmioMtimecmp then some rv.csr.mtimecmp.lo
  else if address = mmioMtimecmp + 4#32 then some rv.csr.mtimecmp.hi
  else if address = mmioMsip then some rv.csr.msip
  else none

/-- The fill of the high bits at the end of `memrw`'s load part. -/
def loadExtend (op : BitVec 3) (data : Word) : Word :=
  if op = opLb then if data &&& 0x80#32 ≠ 0#32 then data ||| 0xffffff00#32 else data
  else if op = opLh then if data &&& 0x8000#32 ≠ 0#32 then data ||| 0xffff0000#32 else data
  else data

/-- The first `len` bytes of `b` in an `int` that was zero. -/
def lowBytes (len : Word) (b : Nat → Byte) : Word :=
  wordOfBytes fun i => if i < len.toNat then b i else 0#8

/-- `memrw` with `type == OP_LOAD`: the code returned and `*val`. -/
def memrwLoad (host : Host) (op : BitVec 3) (address : Word) : Word × Word :=
  match loadLen op address with
  | .error c => (c, 0#32)
  | .ok len =>
    match rv.readMem address len with
    | some b => (0#32, loadExtend op (lowBytes len b))
    | none =>
      match rv.loadDevice host address with
      | some data => (0#32, loadExtend op data)
      | none => (trapLdFail, 0#32)

/-- The width and alignment switch of `memrw`'s store part. -/
def storeLen (op : BitVec 3) (address : Word) : Except Word Word :=
  if op = opSb then .ok 1#32
  else if op = opSh then if address &&& 1#32 ≠ 0#32 then .error trapStAlign else .ok 2#32
  else if op = opSw then if address &&& 3#32 ≠ 0#32 then .error trapStAlign else .ok 4#32
  else .error trapInstIll

def storeMask (op : BitVec 3) : Word :=
  if op = opSb then 0xff#32 else if op = opSh then 0xffff#32 else 0xffffffff#32

/-- The device registers a store reaches outside guest memory. -/
def storeDevice (host : Host) (op : BitVec 3) (address data : Word) : Ret × Rv :=
  let mask := storeMask op
  if address = mmioPutc then (.code 0#32, rv)
  else if address = mmioGetc then (.code 0#32, rv)
  else if address = mmioExit then (.code rvExit, { rv with exitcode := data })
  else if address = mmioTohost then
    match rv.tohost host data with
    | (some r, rv) => (r, rv)
    | (none, rv) => (.code 0#32, rv)
  else if address = mmioMtime then
    (.code 0#32, { rv with
      csr.mtime := rv.csr.mtime.setLo (rv.csr.mtime.lo &&& ~~~mask ||| data) - 1#64
      mtimeUpdate := true })
  else if address = mmioMtime + 4#32 then
    (.code 0#32, { rv with
      csr.mtime := rv.csr.mtime.setHi (rv.csr.mtime.hi &&& ~~~mask ||| data) - 1#64
      mtimeUpdate := true })
  else if address = mmioMtimecmp then
    (.code 0#32, { rv with
      csr.mtimecmp := rv.csr.mtimecmp.setLo (rv.csr.mtimecmp.lo &&& ~~~mask ||| data) })
  else if address = mmioMtimecmp + 4#32 then
    (.code 0#32, { rv with
      csr.mtimecmp := rv.csr.mtimecmp.setHi (rv.csr.mtimecmp.hi &&& ~~~mask ||| data) })
  else if address = mmioMsip then
    (.code 0#32, { rv with csr.msip := rv.csr.msip &&& ~~~mask ||| data })
  else (.code trapStFail, rv)

/-- `memrw` with `type == OP_STORE`. -/
def memrwStore (host : Host) (op : BitVec 3) (address data : Word) : Ret × Rv :=
  match storeLen op address with
  | .error c => (.code c, rv)
  | .ok len =>
    match rv.writeMem address len (byteOfWord data) with
    | some rv => (.code 0#32, rv)
    | none => rv.storeDevice host op address data

variable {rv} {host : Host}

/-- What a store can change: memory, the CLINT registers, and what `htif.c` and `main` keep. -/
def Stored (rv rv' : Rv) : Prop :=
  ∃ mem mtime mtimecmp msip upd code res, rv' = { rv with
    mem := mem
    csr := { rv.csr with mtime := mtime, mtimecmp := mtimecmp, msip := msip }
    mtimeUpdate := upd
    exitcode := code
    htifResult := res }

theorem Stored.refl (rv : Rv) : Stored rv rv := ⟨_, _, _, _, _, _, _, rfl⟩

theorem stored_hostRead (fd : Word) (p : Option Int) (count r : Word) :
    Stored rv { rv.hostRead host fd p count with htifResult := r } := by
  cases p with
  | none => exact ⟨_, _, _, _, _, _, _, rfl⟩
  | some off => exact ⟨_, _, _, _, _, _, _, rfl⟩

theorem stored_tohost (a : Word) : Stored rv (rv.tohost host a).2 := by
  unfold tohost
  cases rv.getMemptr a with
  | none => exact .refl rv
  | some m =>
    simp only
    split_ifs
    · exact ⟨_, _, _, _, _, _, _, rfl⟩
    · exact ⟨_, _, _, _, _, _, _, rfl⟩
    · exact ⟨_, _, _, _, _, _, _, rfl⟩
    · exact .refl rv
    · exact stored_hostRead _ _ _ _
    · exact ⟨_, _, _, _, _, _, _, rfl⟩
    · exact ⟨_, _, _, _, _, _, _, rfl⟩
    · exact ⟨_, _, _, _, _, _, _, rfl⟩
    · exact .refl rv

theorem stored_ite {c : Prop} [Decidable c] {x y : Ret × Rv} (hx : Stored rv x.2)
    (hy : Stored rv y.2) : Stored rv (if c then x else y).2 := by
  split
  · exact hx
  · exact hy

theorem stored_storeDevice (op : BitVec 3) (a v : Word) :
    Stored rv (rv.storeDevice host op a v).2 := by
  unfold storeDevice
  simp only
  refine stored_ite (.refl rv) <| stored_ite (.refl rv) <|
    stored_ite ⟨_, _, _, _, _, _, _, rfl⟩ <| stored_ite ?_ <|
    stored_ite ⟨_, _, _, _, _, _, _, rfl⟩ <| stored_ite ⟨_, _, _, _, _, _, _, rfl⟩ <|
    stored_ite ⟨_, _, _, _, _, _, _, rfl⟩ <| stored_ite ⟨_, _, _, _, _, _, _, rfl⟩ <|
    stored_ite ⟨_, _, _, _, _, _, _, rfl⟩ (.refl rv)
  have h : Stored rv (rv.tohost host v).2 := stored_tohost v
  rcases hto : rv.tohost host v with ⟨_ | r, rv'⟩ <;> rw [hto] at h <;> exact h

theorem stored_memrwStore (op : BitVec 3) (a v : Word) :
    Stored rv (rv.memrwStore host op a v).2 := by
  unfold memrwStore
  cases storeLen op a with
  | error c => exact .refl rv
  | ok len =>
    simp only
    cases hw : rv.writeMem a len (byteOfWord v) with
    | none => exact stored_storeDevice op a v
    | some rv' =>
      simp only [writeMem] at hw
      split_ifs at hw
      cases hw
      exact ⟨_, _, _, _, _, _, _, rfl⟩

end Rv

end Srv32.Iss

import Srv32.Iss.Output
import Srv32.Refine.Lockstep
import Srv32.Rtl.Bench

/-! A step with its host calls, in the testbench and in the simulator: both write the same to the
console and to `dump.txt`. -/

namespace Srv32.Refine

open Iss (Rv Host atSwitch written rvOkay wordOfBytes byteOfWord)
open Iss.Rv (width)
open Rtl (Slot Hart Answer Reply Bench ramSize iramSize getw getb Mem2ports isClint isMmio)
open Rtl.State (exCycle slotAt)

variable {memsize : ℕ} {prog ram : ℕ → Word} {k : Known} {x : Slot} {d e : Rv} {inst : Word}
  {host : Host} {a : Hart} {ans : Answer}

/-! Data memory through the functions of `mem2ports`. -/

theorem iramSize_toNat (hm : memsize < 2 ^ 20) : (iramSize memsize).toNat = ramSize memsize := by
  rw [iramSize, BitVec.toNat_ofNat, Nat.mod_eq_of_lt]
  unfold ramSize
  omega

theorem index_above (hm : memsize < 2 ^ 20) {w : Word} (hlo : ramSize memsize ≤ w.toNat)
    (hhi : w.toNat < 2 * ramSize memsize) :
    Mem2ports.index (ramSize memsize) ((w - iramSize memsize).extractLsb' 2 30) =
      (w.toNat - ramSize memsize) / 4 := by
  have hsub : (w - iramSize memsize).toNat = w.toNat - ramSize memsize := by
    have := iramSize_toNat hm
    have := w.isLt
    rw [BitVec.toNat_sub]
    omega
  rw [Rtl.index_iram (by omega), hsub]

theorem SameMem.getb (h : SameMem memsize prog ram d.mem) (hm : memsize < 2 ^ 20) {w : Word}
    (hlo : ramSize memsize ≤ w.toNat) (hhi : w.toNat < 2 * ramSize memsize) :
    getb memsize ram (w - iramSize memsize) = d.mem w.toNat := by
  have h4 := Rtl.ramSize_mod memsize
  have hd := h.data (w.toNat - ramSize memsize) (by omega)
  rw [show ramSize memsize + (w.toNat - ramSize memsize) = w.toNat by omega] at hd
  have hlane : (w - iramSize memsize).toNat % 4 = (w.toNat - ramSize memsize) % 4 := by
    have := iramSize_toNat hm
    have := w.isLt
    rw [BitVec.toNat_sub]
    omega
  rw [hd, Rtl.getb, Rtl.getw, index_above hm hlo hhi, hlane, byteOfWord]

theorem SameMem.getw (h : SameMem memsize prog ram d.mem) (hm : memsize < 2 ^ 20) {w : Word}
    (hal : w.toNat % 4 = 0) (hlo : ramSize memsize ≤ w.toNat)
    (hhi : w.toNat < 2 * ramSize memsize) :
    getw memsize ram (w - iramSize memsize) = d.intAt w.toNat := by
  have h4 := Rtl.ramSize_mod memsize
  rw [Rtl.getw, index_above hm hlo hhi, Rv.intAt,
    ← Iss.wordOfBytes_byteOfWord (ram ((w.toNat - ramSize memsize) / 4))]
  have hb : ∀ i < 4, d.mem ((w.toNat : ℤ) + (i : ℕ)) =
      byteOfWord (ram ((w.toNat - ramSize memsize) / 4)) i := by
    intro i hi
    have hd := h.data (w.toNat - ramSize memsize + i) (by omega)
    rw [show ramSize memsize + (w.toNat - ramSize memsize + i) = w.toNat + i by omega,
      show (w.toNat - ramSize memsize + i) / 4 = (w.toNat - ramSize memsize) / 4 by omega,
      show (w.toNat - ramSize memsize + i) % 4 = i by omega] at hd
    push_cast at hd
    exact hd
  rw [wordOfBytes, wordOfBytes, hb 0 (by omega), hb 1 (by omega), hb 2 (by omega), hb 3 (by omega)]

theorem Mapped.getMemptr (h : Mapped memsize d) {w : Word} (hw : w.toNat ≤ 2 * ramSize memsize) :
    d.getMemptr w = some (w.toNat : ℤ) := by
  have hb := h.based
  have hs := hb.small
  have hsz : (0#32 + BitVec.ofNat 32 (2 * ramSize memsize)).toNat = 2 * ramSize memsize := by
    simp only [BitVec.toNat_add, BitVec.toNat_ofNat]
    omega
  have hlt : w.toInt = w.toNat := BitVec.toInt_eq_toNat_of_lt (by omega)
  rw [Rv.getMemptr, Iss.Rv.offset_eq hb (by omega), hb.memBase, hb.memSize, if_neg]
  simp only [BitVec.slt, Bool.or_eq_true, decide_eq_true_eq, hlt, BitVec.toInt_zero]
  rw [BitVec.toInt_eq_toNat_of_lt (x := 0#32 + BitVec.ofNat 32 (2 * ramSize memsize)) (by omega),
    hsz]
  omega

/-! Requests. -/

/-- Word `i` of the request block at `blk`. -/
def request (d : Rv) (blk : Word) (i : ℕ) : Word := d.intAt (blk.toNat + 4 * i)

/-- The block lies in the data memory. -/
structure Block (memsize : ℕ) (blk : Word) : Prop where
  aligned : blk.toNat % 4 = 0
  low : ramSize memsize ≤ blk.toNat
  high : blk.toNat + 16 ≤ 2 * ramSize memsize

/-- A request that the host serves as the testbench does: a write of bytes in the data memory to
the console that is not cut short, a seek that fails, or the first dump of words in the data
memory. -/
structure Served (memsize : ℕ) (host : Host) (dumped : List Char) (d : Rv) (blk : Word) : Prop where
  block : Block memsize blk
  known : request d blk 0 = sysWrite ∨ request d blk 0 = sysLseek ∨ request d blk 0 = sysDump
  write : request d blk 0 = sysWrite →
    request d blk 1 = 1#32 ∧
      host.sys (.write 1#32 (d.getMemptr (request d blk 2)) (request d blk 3)) =
        request d blk 3 ∧
      ramSize memsize ≤ (request d blk 2).toNat ∧
      (request d blk 2).toNat + (request d blk 3).toNat ≤ 2 * ramSize memsize
  seek : request d blk 0 = sysLseek →
    host.sys (.lseek (request d blk 1) (request d blk 2) (request d blk 3)) = -1#32
  dump : request d blk 0 = sysDump →
    host.fopen = true ∧ dumped = [] ∧ (request d blk 1).toNat % 4 = 0 ∧
      (request d blk 2).toNat % 4 = 0 ∧ ramSize memsize ≤ (request d blk 1).toNat ∧
      (request d blk 1).toNat ≤ (request d blk 2).toNat ∧
      (request d blk 2).toNat ≤ 2 * ramSize memsize

theorem Block.arg {blk : Word} (hb : Block memsize blk) (h : SameMem memsize prog ram d.mem)
    (hm : memsize < 2 ^ 20) {i : ℕ} (hi : i < 4) :
    getw memsize ram (blk - iramSize memsize + BitVec.ofNat 32 (4 * i)) = request d blk i := by
  have hlo := hb.low
  have hhi := hb.high
  have hal := hb.aligned
  have hs : ramSize memsize < 2 ^ 30 := by
    unfold ramSize
    omega
  have hadd : (blk + BitVec.ofNat 32 (4 * i)).toNat = blk.toNat + 4 * i := by
    rw [BitVec.toNat_add, BitVec.toNat_ofNat]
    omega
  have hsub : blk - iramSize memsize + BitVec.ofNat 32 (4 * i) =
      blk + BitVec.ofNat 32 (4 * i) - iramSize memsize := by
    bv_omega
  rw [hsub, h.getw hm (by omega) (by omega) (by omega), hadd, request]
  push_cast
  rfl

theorem Block.storeOutput {blk : Word} (hb : Block memsize blk) (hmap : Mapped memsize d)
    (host : Host) : d.storeOutput host mmioTohost blk =
      d.requestOutput host (request d blk 0) (request d blk 1) (request d blk 2)
        (request d blk 3) := by
  have hhi := hb.high
  have hp : d.getMemptr blk = some (blk.toNat : ℤ) := hmap.getMemptr (by omega)
  rw [Rv.storeOutput, if_neg (by decide), if_pos rfl, hp]
  simp [request]

/-- The testbench serves the request as the simulator's host does. -/
theorem Served.reply {dumped : List Char} {blk : Word} (hv : Served memsize host dumped d blk)
    (h : SameMem memsize prog ram d.mem) (hmap : Mapped memsize d) :
    let r := Rtl.tohostReply memsize ram blk
    let out := d.requestOutput host (request d blk 0) (request d blk 1) (request d blk 2)
      (request d blk 3)
    r.finish = false ∧ r.console = out.console ∧ dumped ++ r.dump = out.dump.getD dumped ∧
      ∃ v, r.result = some v ∧ d.tohost host blk = (none, { d with htifResult := v }) := by
  have hm := hmap.small
  have hs := hmap.based.small
  have hb := hv.block
  have hlo := hb.low
  have hhi := hb.high
  have h0 : getw memsize ram (blk - iramSize memsize + 0#32) = request d blk 0 :=
    hb.arg h hm (i := 0) (by omega)
  have h1 : getw memsize ram (blk - iramSize memsize + 4#32) = request d blk 1 :=
    hb.arg h hm (i := 1) (by omega)
  have h2 : getw memsize ram (blk - iramSize memsize + 8#32) = request d blk 2 :=
    hb.arg h hm (i := 2) (by omega)
  have h3 : getw memsize ram (blk - iramSize memsize + 12#32) = request d blk 3 :=
    hb.arg h hm (i := 3) (by omega)
  have hp : d.getMemptr blk = some (blk.toNat : ℤ) := hmap.getMemptr (by omega)
  have hi0 : d.intAt (blk.toNat : ℤ) = request d blk 0 := by simp [request]
  have hi1 : d.intAt ((blk.toNat : ℤ) + 4) = request d blk 1 := by simp [request]
  have hi2 : d.intAt ((blk.toNat : ℤ) + 8) = request d blk 2 := by simp [request]
  have hi3 : d.intAt ((blk.toNat : ℤ) + 12) = request d blk 3 := by simp [request]
  simp only [Rtl.tohostReply, h0, h1, h2, h3, Rv.requestOutput, Rv.tohost, hp, hi0, hi1, hi2, hi3]
  rcases hv.known with hf | hf | hf
  · obtain ⟨hfd, hsys, hblo, hbhi⟩ := hv.write hf
    rw [hf, hfd]
    refine ⟨rfl, ?_, List.append_nil _, _, rfl, ?_⟩
    · have hq : d.getMemptr (request d blk 2) = some ((request d blk 2).toNat : ℤ) :=
        hmap.getMemptr (by omega)
      have hlen : (request d blk 3).toInt.toNat = (request d blk 3).toNat := by
        rw [BitVec.toInt_eq_toNat_of_lt (by omega), Int.toNat_natCast]
      change (List.range _).map _ = d.hostWrite host 1#32 _ _
      rw [hq] at hsys ⊢
      rw [Rv.hostWrite, if_pos rfl, hsys, Rv.moved, min_self, hlen]
      refine List.map_congr_left fun i hi => ?_
      rw [List.mem_range] at hi
      have hadd : (request d blk 2 + BitVec.ofNat 32 i).toNat = (request d blk 2).toNat + i := by
        rw [BitVec.toNat_add, BitVec.toNat_ofNat]
        omega
      have hsub : request d blk 2 - iramSize memsize + BitVec.ofNat 32 i =
          request d blk 2 + BitVec.ofNat 32 i - iramSize memsize := by
        bv_omega
      rw [hsub, h.getb hm (by omega) (by omega), hadd]
      push_cast
      rfl
    · rw [hsys]
      rfl
  · rw [hf]
    refine ⟨rfl, rfl, List.append_nil _, _, rfl, ?_⟩
    rw [hv.seek hf]
    rfl
  · obtain ⟨hopen, hfirst, hal1, hal2, hslo, hle, hshi⟩ := hv.dump hf
    have hq1 : d.getMemptr (request d blk 1) = some ((request d blk 1).toNat : ℤ) :=
      hmap.getMemptr (by omega)
    have hq2 : d.getMemptr (request d blk 2) = some ((request d blk 2).toNat : ℤ) :=
      hmap.getMemptr (by omega)
    have hda : Iss.Rv.dumpAligned (request d blk 1) (request d blk 2) = true := by
      have hand := fun w : Word => Bits.and_three_eq_zero w
      simp [Iss.Rv.dumpAligned, (hand _).mpr hal1, (hand _).mpr hal2]
    rw [hf, hfirst]
    refine ⟨rfl, rfl, ?_, _, rfl, ?_⟩
    · change (Rtl.steps 4 _ _).flatMap _ = (d.dumpText host _ _).getD []
      rw [Rv.dumpText, hopen, hda, hq1, hq2, Rtl.steps, List.flatMap_map]
      simp only [Bool.not_true, Bool.false_eq_true, if_false, Option.getD_some, Rv.dumpWords]
      rw [show ((((request d blk 2).toNat : ℤ) - (request d blk 1).toNat) / 4).toNat =
        ((request d blk 2).toNat - (request d blk 1).toNat + (4 - 1)) / 4 by omega]
      refine List.flatMap_congr fun j hj => ?_
      rw [List.mem_range] at hj
      have hadd : (request d blk 1 + BitVec.ofNat 32 (4 * j)).toNat =
          (request d blk 1).toNat + 4 * j := by
        rw [BitVec.toNat_add, BitVec.toNat_ofNat]
        omega
      rw [h.getw hm (by omega) (by omega) (by omega), hadd]
      push_cast
      rfl
    · have hends : Iss.Rv.dumpEnds (some ((request d blk 1).toNat : ℤ))
          (some ((request d blk 2).toNat : ℤ)) = true := by
        simpa [Iss.Rv.dumpEnds] using hle
      simp [Rv.dump, hopen, hda, hq1, hq2, hends]

/-! Registers of the host. -/

/-- The simulator's state after an access of a register of the host. -/
def afterHost (d : Rv) (regs : BitVec 5 → Word) (result : Word) : Rv :=
  { d.ramCycle with regs := regs, htifResult := result, pc := d.pc + 4#32 }

theorem Mapped.not_memOk (h : Mapped memsize d) {w : Word} (hw : w.msb = true) (len : Word) :
    d.memOk w len = false := by
  have hneg : w.slt 0#32 = true := by
    rw [BitVec.slt_zero_iff_msb_cond, hw]
  rw [Rv.memOk, h.memBase, hneg]
  rfl

theorem aligned_width {op : BitVec 3} (hop : Rtl.isLoadOp op = true ∨ Rtl.isStoreOp op = true)
    {w : Word} (hw : w.toNat % 4 = 0) : w.toNat % (width op).toNat = 0 := by
  have hdvd : (width op).toNat ∣ 4 := by
    revert hop
    rcases Bits.cases3 op with rfl | rfl | rfl | rfl | rfl | rfl | rfl | rfl <;> decide
  exact Nat.mod_eq_zero_of_dvd (hdvd.trans (Nat.dvd_of_mod_eq_zero hw))

section

variable (hmap : Mapped memsize d) (ho : opcode inst = opStore)
  (hl : Rtl.isStoreOp (func3 inst) = true) (hal : (d.storeAddr inst).toNat % 4 = 0)
  (hneg : (d.storeAddr inst).msb = true)
include hmap ho hl hal hneg

omit ho in
theorem memrwStore_host (v : Word) : d.memrwStore host (func3 inst) (d.storeAddr inst) v =
    d.storeDevice host (func3 inst) (d.storeAddr inst) v := by
  simp only [Rv.memrwStore, Iss.Rv.storeLen_of_aligned hl (aligned_width (Or.inr hl) hal),
    Rv.writeMem, hmap.not_memOk hneg, Bool.false_eq_true, if_false]

theorem execNext_hostStore {v : Word}
    (hd : d.storeDevice host (func3 inst) (d.storeAddr inst) (d.regs (rs2 inst)) =
      (.code 0#32, { d with htifResult := v })) :
    d.execNext .rv32im inst host false = (.code rvOkay, afterHost d d.regs v) := by
  have hr : d.memrwStore host (func3 inst) (d.storeAddr inst) (d.regs (rs2 inst)) =
      (.code 0#32, { d with htifResult := v }) := by
    rw [memrwStore_host hmap hl hal hneg, hd]
  simp only [Rv.execNext, Rv.exec, ho, Rv.execStore, Iss.Rv.readRegs_rv32im]
  rw [show d.regs (rs1 inst) + Iss.immS inst = d.storeAddr inst from rfl, hr]
  simp only [ramCycle_eq, afterHost]
  rfl

/-- A store to one of them writes nothing to `dump.txt` or the console by itself. -/
theorem output_hostStore (host : Host) : d.output host .rv32im inst =
    d.storeOutput host (d.storeAddr inst) (d.regs (rs2 inst)) := by
  simp only [Rv.output, if_pos ho, Iss.Rv.readRegs_rv32im]
  rw [show d.regs (rs1 inst) + Iss.immS inst = d.storeAddr inst from rfl,
    Iss.Rv.storeLen_of_aligned hl (aligned_width (Or.inr hl) hal)]
  simp only [hmap.not_memOk hneg, Bool.false_eq_true, if_false]

omit hmap hneg in
theorem Matched.hostStore (h : Matched k x d inst) :
    x.excp = false ∧ x.memwr = true ∧ x.memaddr = d.storeAddr inst := by
  have hill : x.instIllExcp = false := by
    rw [Slot.instIllExcp_eq h.loaded, h.insn]
    simp [Slot.illegalWord, ho, hl]
  have hst : x.stAlignExcp = false := by
    simp only [Slot.stAlignExcp, h.memaddr_store ho, Bits.testBit_zero, Bits.testBit_one]
    have h1 : (d.storeAddr inst).toNat % 2 = 0 := by omega
    have h2 : (d.storeAddr inst).toNat / 2 % 2 = 0 := by omega
    simp [h1, h2]
  have hx := excp_of hill (instAlignExcp_of_ne h (by rw [ho]; decide) (by rw [ho]; decide)
    (by rw [ho]; decide)) (ldAlignExcp_of_ne h (by rw [ho]; decide)) hst
  refine ⟨hx, ?_, h.memaddr_store ho⟩
  rw [Rtl.Slot.memwr_eq h.loaded, h.insn, hst]
  simp [ho]

end

theorem execNext_fromhost (hmap : Mapped memsize d) (ho : opcode inst = opLoad)
    (hl : func3 inst = opLw) (ha : d.loadAddr inst = mmioFromhost) :
    d.execNext .rv32im inst host false =
      (.code rvOkay, afterHost d (Function.update d.regs (rd inst) d.htifResult) d.htifResult) := by
  have hr : d.memrwLoad host (func3 inst) (d.loadAddr inst) = (0#32, d.htifResult) := by
    rw [ha, hl]
    simp only [Rv.memrwLoad, Rv.readMem, hmap.not_memOk (w := mmioFromhost) rfl]
    rfl
  simp only [Rv.execNext, Rv.exec, ho, Rv.execLoad, Iss.Rv.readRegs_rv32im]
  rw [show d.regs (rs1 inst) + Iss.immI inst = d.loadAddr inst from rfl, hr]
  simp only [ramCycle_eq, afterHost, Iss.Rv.writeRegs_rv32im]
  rfl

theorem Matched.fromhost (h : Matched k x d inst) (ho : opcode inst = opLoad)
    (hl : func3 inst = opLw) (ha : d.loadAddr inst = mmioFromhost) :
    x.excp = false ∧ x.memwr = false ∧ x.memaddr = mmioFromhost := by
  have hill : x.instIllExcp = false := by
    rw [Slot.instIllExcp_eq h.loaded, h.insn]
    simp [Slot.illegalWord, ho, hl, Rtl.isLoadOp]
  have haddr : x.memaddr = mmioFromhost := (h.memaddr_load ho).trans ha
  have hld : x.ldAlignExcp = false := by
    simp [Slot.ldAlignExcp, haddr]
  have hx := excp_of hill (instAlignExcp_of_ne h (by rw [ho]; decide) (by rw [ho]; decide)
    (by rw [ho]; decide)) hld (stAlignExcp_of_ne h (by rw [ho]; decide))
  refine ⟨hx, ?_, haddr⟩
  rw [Rtl.Slot.memwr_eq h.loaded, h.insn]
  simp [ho]

namespace Lockstep

theorem step_host (h : Lockstep k memsize prog a e) {regs : BitVec 5 → Word} {v : Word}
    (hm : e.csr.mstatus.getLsbD bitMie = false)
    (ho : opcode (e.fetch host) = opLoad ∨ opcode (e.fetch host) = opStore)
    (hx : (a.slot .rv32im memsize prog).excp = false)
    (hregs : ∀ n, n ≠ 0#5 → (a.step .rv32im memsize prog ans).regs n = regs n)
    (hram : (a.step .rv32im memsize prog ans).ram = a.ram)
    (hpc : e.pc.toNat + 4 < ramSize memsize)
    (hex : (atOpcode host e).execNext .rv32im (e.fetch host) host false =
      (.code rvOkay, afterHost (atOpcode host e) regs v)) :
    Lockstep
      (k.after (e.fetch host)
        (traps ((atOpcode host e).execNext .rv32im (e.fetch host) host false)))
      memsize prog (a.step .rv32im memsize prog ans)
      (((atOpcode host e).execNext .rv32im (e.fetch host) host false).2.settle .rv32im) := by
  have hmt := h.matched host
  have hmask : (a.slot .rv32im memsize prog).csr.mstatus.getLsbD bitMie = false := by
    change a.csr.mstatus.getLsbD bitMie = false
    rw [h.csr.mstatus, hm]
  have hos : opcode (e.fetch host) ≠ opSystem := by
    rcases ho with ho | ho <;> rw [ho] <;> decide
  have hsys : (a.slot .rv32im memsize prog).systemcall = false := by
    simp [Slot.systemcall_eq_env hmt.loaded, hmt.insn, hos]
  have hb : (a.slot .rv32im memsize prog).branchTaken = false := by
    rcases ho with ho | ho <;> simp [Slot.branchTaken, hmt.ex, Rtl.decode, ho]
  have hint := interrupted_of_masked hmask
  have hred : (a.slot .rv32im memsize prog).redirects = false := by
    simp [Slot.redirects, Slot.trap_eq hmt.loaded.unflushed, hx, hsys, hint, hb]
  have hcsr : (a.slot .rv32im memsize prog).csrNext = a.csr := by
    rw [← csrNext_quiet hmask]
    exact csrNext_of_quiet hmt.quiet ⟨rfl, rfl, rfl⟩ hx hos
  -- the step ends with the next word, which is in memory
  have hsmall := h.mapped.based.small
  have hal := h.aligned
  have hpc4 : (e.pc + 4#32).toNat = e.pc.toNat + 4 := by
    rw [BitVec.toNat_add]
    simp only [BitVec.toNat_ofNat]
    omega
  have hbe : (afterHost (atOpcode host e) regs v).Based (2 * ramSize memsize) := by
    have hb := h.mapped.based
    refine ⟨?_, ?_, hb.small⟩
    · rw [afterHost, ramCycle_eq]
      exact hb.memBase
    · rw [afterHost, ramCycle_eq]
      exact hb.memSize
  have hu : (afterHost (atOpcode host e) regs v).Undisturbed := by
    refine Or.inl ?_
    rw [Iss.Rv.mieSet_eq, afterHost, ramCycle_eq]
    exact hm
  have hset := hu.settle
    ((Iss.Rv.inRange_iff hbe (by change (e.pc + 4#32).toNat < _; omega)).mpr
      (by change (e.pc + 4#32).toNat < _; omega))
    (by change (e.pc + 4#32).toNat % 4 = 0; omega)
  have hk : k.after (e.fetch host)
      (traps ((atOpcode host e).execNext .rv32im (e.fetch host) host false)) = k := by
    have ht : traps ((atOpcode host e).execNext .rv32im (e.fetch host) host false) = false := by
      rw [hex, traps]
      change (false || (e.pc + 4#32).toNat % 4 != 0) = false
      rw [hpc4]
      simp
      omega
    rw [ht, after_eq (by simp [isMretWord, hos]) (by simp [writesCsr, onCsr, hos])]
    rfl
  rw [hk, hex, hset]
  have hfr : ∀ n, n ≠ 0#5 → Function.update regs 0#5 0#32 n = regs n := fun n hn =>
    Function.update_of_ne hn _ _
  refine ⟨?_, ?_, ?_, fun n hn => (hregs n hn).trans (hfr n hn).symm, ?_, ?_,
    ⟨hbe.memBase, ?_, h.mapped.small⟩, ?_, fun hk => ?_, fun hk => ?_, fun hk => ?_⟩
  · rw [Hart.step_pc]
    change _ = e.pc + 4#32
    rw [Slot.successor_of_not_redirects hmt.loaded.unflushed hred, ← h.pc]
    rfl
  · change (e.pc + 4#32).toNat < _
    omega
  · change (e.pc + 4#32).toNat % 4 = 0
    omega
  · change Function.update regs 0#5 0#32 0#5 = 0#32
    rw [Function.update_self]
  · rw [hram]
    have hmem : (afterHost (atOpcode host e) regs v).fresh.mem = e.mem := by
      rw [Iss.Rv.fresh, afterHost, ramCycle_eq]
      rfl
    rw [hmem]
    exact h.mem
  · rw [Iss.Rv.fresh, afterHost, ramCycle_eq]
    exact h.mapped.memSize
  · change SameCsr k (a.slot .rv32im memsize prog).csrNext _
    rw [hcsr]
    exact h.csr.congr (by rw [Iss.Rv.fresh, afterHost, ramCycle_eq]; exact ⟨rfl, rfl, rfl, rfl⟩)
      (by rw [Iss.Rv.fresh, afterHost, ramCycle_eq]; rfl)
  · have hsr : e.singleram = false := (h.exact hk).singleram
    have h0 : a.cycle = e.csr.cycle := h.cycle hk
    change a.cycle + Rtl.State.cycles _ = _
    rw [Rtl.State.cycles, hred, h0, Iss.Rv.fresh, afterHost, ramCycle_eq]
    change _ = e.csr.cycle + 1#64 + (if e.singleram then 1#32 else 0#32 : Word).signExtend 64
    rw [hsr]
    simp
  · have h0 : a.instret = e.csr.instret := h.instret hk
    change a.instret + 1#64 = _
    rw [h0, Iss.Rv.fresh, afterHost, ramCycle_eq]
    rfl
  · have he := h.exact hk
    rw [Iss.Rv.fresh, afterHost, ramCycle_eq]
    exact ⟨he.branchPenalty, he.branchPredict, he.singleram⟩

end Lockstep

/-! Instructions that ask the host for nothing. -/

/-- An ECALL that writes neither to the console nor to a dump. -/
def NoOutput (d : Rv) (inst : Word) : Prop :=
  isEcallWord inst = true → d.regs regA7 ≠ sysDump ∧ d.regs regA7 ≠ sysDumpBin ∧
    (d.regs regA7 = sysWrite → d.regs regA0 ≠ 1#32)

/-- What traps in the core traps in the simulator, but for MRET, which the core counts in. -/
theorem Supported.traps_of_trap (hs : Supported memsize host d inst) (h : Matched k x d inst)
    (hm : Mapped memsize d) (hi : x.interrupted = false) (ht : x.trap = true) :
    traps (d.execNext .rv32im inst host false) = true ∨ isMretWord inst = true := by
  have hret : (d.execNext .rv32im inst host false).1 = .code Iss.rvTrap →
      traps (d.execNext .rv32im inst host false) = true := fun hr => by simp [traps, hr]
  rw [Slot.trap_eq h.loaded.unflushed, hi, Bool.or_false] at ht
  cases hmr : isMretWord inst with
  | true => exact Or.inr rfl
  | false =>
    left
    cases hsys : x.systemcall with
    | true =>
      rw [Slot.systemcall_eq_env h.loaded, h.insn, Bool.and_eq_true, beq_iff_eq, beq_iff_eq] at hsys
      exact hret (advance_env h hs hsys.1 hsys.2 hmr).1
    | false =>
      have hx : x.excp = true := by simpa [hsys] using ht
      cases ha : x.instAlignExcp with
      | true => exact (advance_instAlign h hs hm ha).1
      | false =>
        have ho : opcode inst = opLoad ∨ opcode inst = opStore := by
          by_contra hc
          obtain ⟨h6, h7⟩ := not_or.mp hc
          have := excp_of (hs.instIllExcp h) ha (ldAlignExcp_of_ne h h6) (stAlignExcp_of_ne h h7)
          rw [this] at hx
          cases hx
        exact hret (advance_dataAlign h hs ho hx).1

theorem Supported.not_exit (hs : Supported memsize host d inst) (hc : isEcallWord inst = true) :
    d.regs regA7 ≠ sysExit := by
  intro hx
  obtain ⟨res, -, hcall⟩ := hs.call hc
  rw [hx] at hcall
  simp [Rv.syscall] at hcall

theorem Supported.store_ne (hs : Supported memsize host d inst) (hm : Mapped memsize d)
    (ho : opcode inst = opStore) {w : Word} (hw : w.toNat % 4 = 0) (hneg : w.msb = true) :
    d.storeAddr inst ≠ w := by
  rintro rfl
  have hl := hs.isStoreOp ho
  have hhi := (hs.store ho (aligned_width (Or.inr hl) hw)).2
  have := hm.based.small
  rw [BitVec.msb_eq_decide, decide_eq_true_eq] at hneg
  omega

theorem Supported.htifResult (hs : Supported memsize host d inst) (h : Matched k x d inst)
    (hm : Mapped memsize d) :
    ((d.execNext .rv32im inst host false).2.settle .rv32im).htifResult = d.htifResult := by
  rw [Iss.Rv.settle_htifResult]
  refine Iss.Rv.execNext_htifResult fun ho len hlen => ?_
  have hl := hs.isStoreOp ho
  rw [Iss.Rv.readRegs_rv32im] at hlen ⊢
  change d.memOk (d.storeAddr inst) len = true
  change Iss.Rv.storeLen _ (d.storeAddr inst) = _ at hlen
  cases hal : x.stAlignExcp with
  | true =>
    obtain ⟨-, herr⟩ := storeLen_of_stAlign h hal
    rw [h.memaddr_store ho, hlen] at herr
    cases herr
  | false =>
    have ha := store_aligned h ho hl hal
    rw [Iss.Rv.storeLen_of_aligned hl ha] at hlen
    cases hlen
    exact memOk_of_inDram hm (hs.store ho ha) (width_le _ (Or.inr hl))

theorem wdata_low (hl : Rtl.isStoreOp x.ex.aluOp = true) :
    x.wdata.extractLsb' 0 8 = x.aluOp2.extractLsb' 0 8 := by
  obtain ⟨h8, h16⟩ := byteOfWord_repeat x.aluOp2 (j := 0) (by decide)
  simp only [Rtl.isStoreOp, Bool.or_eq_true, beq_iff_eq] at hl
  rw [Slot.wdata]
  rcases hl with (hf | hf) | hf
  · rw [if_pos hf]
    exact h8
  · rw [if_neg (by rw [hf]; decide), if_pos hf]
    exact h16
  · rw [if_neg (by rw [hf]; decide), if_neg (by rw [hf]; decide), if_pos hf]

theorem storeReply_dram (hm : memsize < 2 ^ 20) {w : Word} (hw : w.toNat < 2 * ramSize memsize)
    (v : Word) : Rtl.storeReply memsize ram w v = Reply.none := by
  have hlt : w.toNat < 2 ^ 31 := by
    unfold ramSize at hw
    omega
  have hne : ∀ c : Word, c.msb = true → w ≠ c := by
    rintro c hc rfl
    rw [BitVec.msb_eq_decide, decide_eq_true_eq] at hc
    omega
  have hle := Nat.le_pow_clog (b := 2) (by omega) (2 * ramSize memsize)
  rw [Rtl.storeReply, if_neg (hne _ rfl), if_neg (hne _ rfl), if_neg (hne _ rfl),
    decide_eq_false (by omega), Bool.and_false, if_neg (by simp)]

namespace Lockstep

theorem plain_reply (h : Lockstep k memsize prog a e)
    (hs : Supported memsize host (atOpcode host e) (e.fetch host))
    (hn : NoOutput (atOpcode host e) (e.fetch host)) :
    (a.slot .rv32im memsize prog).stores memsize a.ram = Reply.none ∧
      (a.slot .rv32im memsize prog).calls memsize a.ram a.regs = Reply.none ∧
      (atOpcode host e).output host .rv32im (e.fetch host) = Iss.Output.none := by
  have hmt := h.matched host
  have hmap := h.opcode_mapped host
  refine ⟨?_, ?_, ?_⟩
  · rw [Slot.stores]
    cases hw : (a.slot .rv32im memsize prog).memwr with
    | false => rfl
    | true =>
      have hx := (Rtl.Slot.memwr_eq hmt.loaded).symm.trans hw
      rw [hmt.insn] at hx
      simp only [Bool.and_eq_true, beq_iff_eq, Bool.not_eq_true'] at hx
      obtain ⟨ho, hal⟩ := hx
      have hl := hs.isStoreOp ho
      obtain ⟨hlo, hhi⟩ := hs.store ho (store_aligned hmt ho hl hal)
      have hpos := width_pos (func3 (e.fetch host))
      rw [if_pos rfl, hmt.memaddr_store ho]
      exact storeReply_dram hmap.small (by omega) _
  · rw [Slot.calls]
    split
    · rename_i hc
      rw [Bool.and_eq_true, beq_iff_eq, Slot.systemcall_eq_env hmt.loaded, hmt.insn,
        Bool.and_eq_true, beq_iff_eq, beq_iff_eq] at hc
      obtain ⟨⟨ho, h3⟩, hkind⟩ := hc
      rw [Slot.envKind_eq hmt.loaded (by rw [hmt.insn]; exact ho), hmt.insn] at hkind
      have hec : isEcallWord (e.fetch host) = true := by simp [isEcallWord, ho, h3, hkind]
      obtain ⟨hd, hb, hw⟩ := hn hec
      have hx := hs.not_exit hec
      have h7 : a.regs regA7 = (atOpcode host e).regs regA7 := h.regs _ (by decide)
      have h10 : a.regs regA0 = (atOpcode host e).regs regA0 := h.regs _ (by decide)
      rw [← h7] at hd hb hw hx
      rw [← h10] at hw
      simp only [Rtl.callReply]
      rw [if_neg hx, if_neg fun hc => hw hc.1 hc.2, if_neg hd, if_neg hb]
    · rfl
  · rw [Rv.output]
    split
    · rename_i ho
      have hl := hs.isStoreOp ho
      simp only [Iss.Rv.readRegs_rv32im]
      rw [show (atOpcode host e).regs (rs1 (e.fetch host)) + Iss.immS (e.fetch host) =
        (atOpcode host e).storeAddr (e.fetch host) from rfl]
      cases hal : (a.slot .rv32im memsize prog).stAlignExcp with
      | true =>
        obtain ⟨-, hlen⟩ := storeLen_of_stAlign hmt hal
        rw [hmt.memaddr_store ho] at hlen
        rw [hlen]
      | false =>
        have ha := store_aligned hmt ho hl hal
        rw [Iss.Rv.storeLen_of_aligned hl ha]
        simp only [memOk_of_inDram hmap (hs.store ho ha) (width_le _ (Or.inr hl)), if_true]
    · split
      · rename_i hc
        have hec : isEcallWord (e.fetch host) = true := by simp [isEcallWord, hc]
        obtain ⟨hd, -, hw⟩ := hn hec
        simp only [Iss.Rv.readRegs_rv32im, Iss.Config.sys, Iss.Config.rv32im_rv32e,
          Bool.false_eq_true, if_false, Rv.requestOutput]
        rw [if_neg hd]
        split
        · rename_i hf
          rw [Iss.Rv.hostWrite_of_ne (hw hf) _ _]
          rfl
        · rfl
      · rfl

end Lockstep

/-! One step with its host calls. -/

/-- A step on which the testbench and the simulator's host agree; `answered` if the last access of
the host was a request, `dumped` what is in `dump.txt`. -/
inductive Cooperates (memsize : ℕ) (k : Known) (host : Host) (answered : Bool)
    (dumped : List Char) (d : Rv) (inst : Word) : Prop
  | plain (hs : Supported memsize host d inst) (hr : Readable k inst) (hn : NoOutput d inst)
      (ht : traps (d.execNext .rv32im inst host false) = true ∨ isMretWord inst = true →
        d.csr.mtvec.extractLsb' 2 30 ≠ 0#30)
  | putc (ho : opcode inst = opStore) (hl : Rtl.isStoreOp (func3 inst) = true)
      (ha : d.storeAddr inst = mmioPutc)
  | request (ho : opcode inst = opStore) (hl : func3 inst = opSw)
      (ha : d.storeAddr inst = mmioTohost) (hv : Served memsize host dumped d (d.regs (rs2 inst)))
  | answer (ho : opcode inst = opLoad) (hl : func3 inst = opLw)
      (ha : d.loadAddr inst = mmioFromhost) (hv : answered = true)

/-- Whether FROMHOST has the answer to a request after the step: the testbench answers PUTC too. -/
def answers (answered : Bool) (d : Rv) (inst : Word) : Bool :=
  if opcode inst = opStore ∧ d.storeAddr inst = mmioTohost then true
  else if opcode inst = opStore ∧ d.storeAddr inst = mmioPutc then false
  else answered

variable {answered : Bool} {dumped : List Char}

namespace Lockstep

theorem hostStore_step (ans : Rtl.Answer) (h : Lockstep k memsize prog a e)
    (ho : opcode (e.fetch host) = opStore)
    (hmm : isMmio ((atOpcode host e).storeAddr (e.fetch host)) = true) :
    (a.step .rv32im memsize prog ans).ram = a.ram ∧
      ∀ n, n ≠ 0#5 → (a.step .rv32im memsize prog ans).regs n = (atOpcode host e).regs n := by
  have hmt := h.matched host
  have hin : (a.slot .rv32im memsize prog).insn = e.fetch host := hmt.insn
  refine ⟨?_, fun n hn => ?_⟩
  · simp only [Hart.step, hmt.memaddr_store ho, hmm, Bool.not_true, Bool.and_false,
      Bool.false_eq_true, if_false]
  · have hold : a.regs n = (atOpcode host e).regs n := h.regs n hn
    simp only [Hart.step, hin, Slot.writesRd, ho]
    simpa using hold

theorem fromhost_step (ans : Rtl.Answer) (h : Lockstep k memsize prog a e)
    (ho : opcode (e.fetch host) = opLoad) (hl : func3 (e.fetch host) = opLw)
    (ha : (atOpcode host e).loadAddr (e.fetch host) = mmioFromhost) :
    (a.step .rv32im memsize prog ans).ram = a.ram ∧
      ∀ n, n ≠ 0#5 → (a.step .rv32im memsize prog ans).regs n =
        Function.update (atOpcode host e).regs (rd (e.fetch host)) ans.result n := by
  have hmt := h.matched host
  have hin : (a.slot .rv32im memsize prog).insn = e.fetch host := hmt.insn
  obtain ⟨hx, hw, haddr⟩ := hmt.fromhost ho hl ha
  have hop : (a.slot .rv32im memsize prog).ex.aluOp = func3 (e.fetch host) := by
    rw [hmt.ex]
    rfl
  refine ⟨?_, fun n hn => ?_⟩
  · simp only [Hart.step, hw, Bool.false_and, Bool.false_eq_true, if_false]
  · have hwr : Slot.writesRd (e.fetch host) = true := by simp [Slot.writesRd, ho]
    have hrd : a.readData memsize ans mmioFromhost = ans.result := by
      rw [Hart.readData, if_neg (by decide), if_pos rfl]
    have hml : (a.slot .rv32im memsize prog).mem2reg = true := by
      rw [hmt.mem2reg, ho]
      rfl
    simp only [Hart.step, hin, hx, hwr, haddr, hml, hop, hrd, hl, if_true, Bool.not_true,
      Bool.or_false, true_and]
    by_cases hr : n = rd (e.fetch host)
    · subst hr
      rw [if_pos hn, Function.update_self, Function.update_self]
      rfl
    · rw [Function.update_of_ne hr]
      split
      · rw [Function.update_of_ne hr]
        exact h.regs n hn
      · exact h.regs n hn

theorem cooperate (h : Lockstep k memsize prog a e)
    (hc : Cooperates memsize k host answered dumped (atOpcode host e) (e.fetch host))
    (hm : e.csr.mstatus.getLsbD bitMie = false)
    (hans : answered = true → ans.result = e.htifResult)
    (hpc4 : e.pc.toNat + 4 < ramSize memsize)
    (hpc : (((atOpcode host e).execNext .rv32im (e.fetch host) host false).2.settle
      .rv32im).pc.toNat < ramSize memsize) :
    Lockstep
      (k.after (e.fetch host)
        (traps ((atOpcode host e).execNext .rv32im (e.fetch host) host false)))
      memsize prog (a.step .rv32im memsize prog ans)
      (((atOpcode host e).execNext .rv32im (e.fetch host) host false).2.settle .rv32im) := by
  have hmt := h.matched host
  have hmap := h.opcode_mapped host
  cases hc with
  | plain hs hr hn ht => exact h.step hs hr hm hpc
  | putc ho hl ha =>
    have hal : ((atOpcode host e).storeAddr (e.fetch host)).toNat % 4 = 0 := by
      rw [ha]
      rfl
    obtain ⟨hram, hregs⟩ := h.hostStore_step ans ho (by rw [ha]; rfl)
    refine h.step_host hm (Or.inr ho) (hmt.hostStore ho hl hal).1 hregs hram hpc4
      (execNext_hostStore (v := (atOpcode host e).htifResult) hmap ho hl hal ?_ ?_)
    · rw [ha]
      rfl
    · rw [ha]
      rfl
  | request ho hl ha hv =>
    have hal : ((atOpcode host e).storeAddr (e.fetch host)).toNat % 4 = 0 := by
      rw [ha]
      rfl
    have hl' : Rtl.isStoreOp (func3 (e.fetch host)) = true := by
      rw [hl]
      rfl
    obtain ⟨hram, hregs⟩ := h.hostStore_step ans ho (by rw [ha]; rfl)
    obtain ⟨-, -, -, v, -, hto⟩ := hv.reply h.mem hmap
    refine h.step_host hm (Or.inr ho) (hmt.hostStore ho hl' hal).1 hregs hram hpc4
      (execNext_hostStore (v := v) hmap ho hl' hal ?_ ?_)
    · rw [ha]
      rfl
    · rw [ha, Iss.Rv.storeDevice_tohost, hto]
  | answer ho hl ha hv =>
    obtain ⟨hram, hregs⟩ := h.fromhost_step ans ho hl ha
    rw [hans hv] at hregs
    exact h.step_host hm (Or.inl ho) (hmt.fromhost ho hl ha).1 hregs hram hpc4
      (execNext_fromhost hmap ho hl ha)

theorem calls_none (h : Lockstep k memsize prog a e)
    (ho : opcode (e.fetch host) = opLoad ∨ opcode (e.fetch host) = opStore) :
    (a.slot .rv32im memsize prog).calls memsize a.ram a.regs = Reply.none := by
  have hmt := h.matched host
  have hsys : (a.slot .rv32im memsize prog).systemcall = false := by
    rw [Slot.systemcall_eq_env hmt.loaded, hmt.insn]
    rcases ho with ho | ho <;> rw [ho] <;> rfl
  rw [Slot.calls, hsys]
  rfl

/-- What both write in the step, and the answer they leave. -/
theorem reply (h : Lockstep k memsize prog a e)
    (hc : Cooperates memsize k host answered dumped (atOpcode host e) (e.fetch host))
    {result : Word} (hans : answered = true → result = e.htifResult) :
    let r := (a.slot .rv32im memsize prog).stores memsize a.ram
    let q := (a.slot .rv32im memsize prog).calls memsize a.ram a.regs
    let out := (atOpcode host e).output host .rv32im (e.fetch host)
    (r.finish = false ∧ q.finish = false) ∧ r.console ++ q.console = out.console ∧
      dumped ++ r.dump ++ q.dump = out.dump.getD dumped ∧
      (answers answered (atOpcode host e) (e.fetch host) = true → r.result.getD result =
        (((atOpcode host e).execNext .rv32im (e.fetch host) host false).2.settle
          .rv32im).htifResult) := by
  have hmt := h.matched host
  have hmap := h.opcode_mapped host
  intro r q out
  have hstore : ∀ {addr : Word}, opcode (e.fetch host) = opStore →
      Rtl.isStoreOp (func3 (e.fetch host)) = true →
      (atOpcode host e).storeAddr (e.fetch host) = addr → addr.toNat % 4 = 0 →
      addr.msb = true →
      r = Rtl.storeReply memsize a.ram addr (a.slot .rv32im memsize prog).wdata ∧
        out = (atOpcode host e).storeOutput host addr
          ((atOpcode host e).regs (rs2 (e.fetch host))) := by
    rintro addr ho hl rfl hal hneg
    obtain ⟨-, hw, haddr⟩ := hmt.hostStore ho hl hal
    refine ⟨?_, output_hostStore hmap ho hl hal hneg host⟩
    change Slot.stores _ _ _ = _
    rw [Slot.stores, hw, if_pos rfl, haddr]
  have hval : opcode (e.fetch host) = opStore →
      (a.slot .rv32im memsize prog).aluOp2 = (atOpcode host e).regs (rs2 (e.fetch host)) := by
    intro ho
    simp [Slot.aluOp2, hmt.ex, Rtl.decode, ho, hmt.src2]
  have hop : (a.slot .rv32im memsize prog).ex.aluOp = func3 (e.fetch host) := by
    rw [hmt.ex]
    rfl
  cases hc with
  | plain hs hr hn ht =>
    obtain ⟨hr, hq, hout⟩ := h.plain_reply hs hn
    have hsame : answers answered (atOpcode host e) (e.fetch host) = answered := by
      rw [answers, if_neg fun hc => hs.store_ne hmap hc.1 (by decide) rfl hc.2,
        if_neg fun hc => hs.store_ne hmap hc.1 (by decide) rfl hc.2]
    change r = Reply.none at hr
    change q = Reply.none at hq
    change out = Iss.Output.none at hout
    rw [hr, hq, hout, hsame, hs.htifResult hmt hmap]
    exact ⟨⟨rfl, rfl⟩, rfl, by simp [Reply.none, Iss.Output.none], hans⟩
  | putc ho hl ha =>
    obtain ⟨hr, hout⟩ := hstore ho hl ha (by decide) rfl
    have hq : q = Reply.none := h.calls_none (Or.inr ho)
    have hno : answers answered (atOpcode host e) (e.fetch host) = false := by
      rw [answers, if_neg fun hc => absurd (ha.symm.trans hc.2) (by decide), if_pos ⟨ho, ha⟩]
    rw [hr, hq, hout, hno, Rtl.storeReply, if_pos rfl, Rv.storeOutput, if_pos rfl,
      wdata_low (by rw [hop]; exact hl), hval ho]
    exact ⟨⟨rfl, rfl⟩, rfl, by simp [Reply.none], fun hf => by cases hf⟩
  | request ho hl ha hv =>
    have hl' : Rtl.isStoreOp (func3 (e.fetch host)) = true := by
      rw [hl]
      rfl
    obtain ⟨hr, hout⟩ := hstore ho hl' ha (by decide) rfl
    have hq : q = Reply.none := h.calls_none (Or.inr ho)
    have hwd : (a.slot .rv32im memsize prog).wdata =
        (atOpcode host e).regs (rs2 (e.fetch host)) := by
      rw [Slot.wdata, hop, hl, ← hval ho]
      rfl
    obtain ⟨hfin, hcon, hdump, v, hv', hto⟩ := hv.reply h.mem hmap
    have hex : (atOpcode host e).execNext .rv32im (e.fetch host) host false =
        (.code rvOkay, afterHost (atOpcode host e) (atOpcode host e).regs v) :=
      execNext_hostStore hmap ho hl' (by rw [ha]; rfl) (by rw [ha]; rfl)
        (by rw [ha, Iss.Rv.storeDevice_tohost, hto])
    rw [hr, hq, hout, hv.block.storeOutput hmap, Rtl.storeReply, if_neg (by decide),
      if_neg (by decide), if_pos rfl, hwd, hv', hex, Iss.Rv.settle_htifResult]
    exact ⟨⟨hfin, rfl⟩, (List.append_nil _).trans hcon, (List.append_nil _).trans hdump,
      fun _ => rfl⟩
  | answer ho hl ha hv =>
    have hr : r = Reply.none := by
      change Slot.stores _ _ _ = _
      rw [Slot.stores, (hmt.fromhost ho hl ha).2.1]
      rfl
    have hq : q = Reply.none := h.calls_none (Or.inl ho)
    have hout : out = Iss.Output.none := by
      change Rv.output _ _ _ _ = _
      rw [Rv.output, if_neg (by rw [ho]; decide), if_neg fun hc => absurd (ho.symm.trans hc.1)
        (by decide)]
    have hsame : answers answered (atOpcode host e) (e.fetch host) = answered := by
      rw [answers, if_neg fun hc => absurd (ho.symm.trans hc.1) (by decide),
        if_neg fun hc => absurd (ho.symm.trans hc.1) (by decide)]
    rw [hr, hq, hout, hsame, execNext_fromhost hmap ho hl ha, Iss.Rv.settle_htifResult]
    exact ⟨⟨rfl, rfl⟩, rfl, by simp [Reply.none, Iss.Output.none], hans⟩

theorem handler_set (h : Lockstep k memsize prog a e)
    (hc : Cooperates memsize k host answered dumped (atOpcode host e) (e.fetch host))
    (hm : e.csr.mstatus.getLsbD bitMie = false) (ht : (a.slot .rv32im memsize prog).trap = true) :
    a.csr.mtvec.extractLsb' 2 30 ≠ 0#30 := by
  have hmt := h.matched host
  have hmask : (a.slot .rv32im memsize prog).csr.mstatus.getLsbD bitMie = false := by
    change a.csr.mstatus.getLsbD bitMie = false
    rw [h.csr.mstatus, hm]
  have hint := interrupted_of_masked hmask
  have hdata : (opcode (e.fetch host) = opLoad ∨ opcode (e.fetch host) = opStore) →
      (a.slot .rv32im memsize prog).excp = false → False := by
    intro ho hx
    have hsys : (a.slot .rv32im memsize prog).systemcall = false := by
      rw [Slot.systemcall_eq_env hmt.loaded, hmt.insn]
      rcases ho with ho | ho <;> rw [ho] <;> rfl
    simp [Slot.trap_eq hmt.loaded.unflushed, hx, hsys, hint] at ht
  cases hc with
  | plain hs hr hn hv =>
    rw [h.csr.mtvec]
    exact hv (hs.traps_of_trap hmt (h.opcode_mapped host) hint ht)
  | putc ho hl ha =>
    exact (hdata (Or.inr ho) (hmt.hostStore ho hl (by rw [ha]; rfl)).1).elim
  | request ho hl ha hv =>
    exact (hdata (Or.inr ho) (hmt.hostStore ho (by rw [hl]; rfl) (by rw [ha]; rfl)).1).elim
  | answer ho hl ha hv => exact (hdata (Or.inl ho) (hmt.fromhost ho hl ha).1).elim

end Lockstep

/-! The end of the program. -/

/-- The step asks the host to end the program. -/
inductive Exits (memsize : ℕ) (d : Rv) (inst : Word) : Prop
  | call (hc : isEcallWord inst = true) (hf : d.regs regA7 = sysExit)
  | request (ho : opcode inst = opStore) (hl : func3 inst = opSw)
      (ha : d.storeAddr inst = mmioTohost) (hb : Block memsize (d.regs (rs2 inst)))
      (hf : request d (d.regs (rs2 inst)) 0 = sysExit)

theorem Lockstep.exit_reply (h : Lockstep k memsize prog a e)
    (hx : Exits memsize (atOpcode host e) (e.fetch host)) :
    let r := (a.slot .rv32im memsize prog).stores memsize a.ram
    let q := (a.slot .rv32im memsize prog).calls memsize a.ram a.regs
    (r.finish || q.finish) = true ∧ (r.console ++ q.console = [] ∧ r.dump ++ q.dump = []) ∧
      ∃ status, ((atOpcode host e).execNext .rv32im (e.fetch host) host false).1 =
        .exit status := by
  have hmt := h.matched host
  have hmap := h.opcode_mapped host
  intro r q
  cases hx with
  | call hc hf =>
    simp only [isEcallWord, Bool.and_eq_true, beq_iff_eq] at hc
    obtain ⟨⟨ho, h3⟩, hkind⟩ := hc
    have hr : r = Reply.none := by
      have hw : (a.slot .rv32im memsize prog).memwr = false := by
        simp [Slot.memwr, hmt.ex, Rtl.decode, ho]
      change Slot.stores _ _ _ = _
      rw [Slot.stores, hw]
      rfl
    have hq : q = { Reply.none with finish := true } := by
      have hsys : (a.slot .rv32im memsize prog).systemcall = true := by
        rw [Slot.systemcall_eq_env hmt.loaded, hmt.insn, ho, h3]
        rfl
      have hk : (a.slot .rv32im memsize prog).envKind = 0#2 := by
        rw [Slot.envKind_eq hmt.loaded (by rw [hmt.insn]; exact ho), hmt.insn, hkind]
      have h7 : a.regs regA7 = sysExit := (h.regs _ (by decide)).trans hf
      change Slot.calls _ _ _ _ = _
      rw [Slot.calls, hsys, hk, if_pos (by rfl), Rtl.callReply, if_pos h7]
    rw [hr, hq]
    refine ⟨rfl, ⟨rfl, rfl⟩, ?_⟩
    rw [Rv.execNext, Rv.exec_ecall ho h3 hkind, Rv.execEcall, Iss.Rv.readRegs_rv32im]
    rw [show (atOpcode host e).regs (Iss.Config.sys .rv32im) = sysExit from hf]
    exact ⟨_, rfl⟩
  | request ho hl ha hb hf =>
    have hl' : Rtl.isStoreOp (func3 (e.fetch host)) = true := by
      rw [hl]
      rfl
    have hal : ((atOpcode host e).storeAddr (e.fetch host)).toNat % 4 = 0 := by
      rw [ha]
      rfl
    obtain ⟨-, hw, haddr⟩ := hmt.hostStore ho hl' hal
    have hq : q = Reply.none := h.calls_none (Or.inr ho)
    have hwd : (a.slot .rv32im memsize prog).wdata =
        (atOpcode host e).regs (rs2 (e.fetch host)) := by
      have hop : (a.slot .rv32im memsize prog).ex.aluOp = func3 (e.fetch host) := by
        rw [hmt.ex]
        rfl
      rw [Slot.wdata, hop, hl]
      simp [Slot.aluOp2, hmt.ex, Rtl.decode, ho, hmt.src2]
    have hr : r = { Reply.none with result := some 0#32, finish := true } := by
      have h0 : getw memsize a.ram ((atOpcode host e).regs (rs2 (e.fetch host)) -
          iramSize memsize + 0#32) = _ := hb.arg (d := atOpcode host e) h.mem hmap.small (i := 0)
        (by omega)
      change Slot.stores _ _ _ = _
      rw [Slot.stores, hw, if_pos rfl, haddr, ha, Rtl.storeReply, if_neg (by decide),
        if_neg (by decide), if_pos rfl, hwd]
      simp only [Rtl.tohostReply, h0, hf]
      rfl
    rw [hr, hq]
    refine ⟨rfl, ⟨rfl, rfl⟩, ?_⟩
    have hto : (atOpcode host e).tohost host ((atOpcode host e).regs (rs2 (e.fetch host))) =
        (some { atOpcode host e with htifResult := 0#32 }.progExit, atOpcode host e) := by
      have hhi := hb.high
      have hi0 : (atOpcode host e).intAt
          (((atOpcode host e).regs (rs2 (e.fetch host))).toNat : ℤ) = sysExit := by
        simpa [request] using hf
      rw [Rv.tohost, hmap.getMemptr (by omega)]
      simp only [hi0]
      rfl
    have hr : (atOpcode host e).memrwStore host (func3 (e.fetch host))
        ((atOpcode host e).storeAddr (e.fetch host))
        ((atOpcode host e).regs (rs2 (e.fetch host))) =
          ({ atOpcode host e with htifResult := 0#32 }.progExit, atOpcode host e) := by
      rw [memrwStore_host hmap hl' hal (by rw [ha]; rfl), ha, Iss.Rv.storeDevice_tohost, hto]
    simp only [Rv.execNext, Rv.exec, ho, Rv.execStore, Iss.Rv.readRegs_rv32im]
    rw [show (atOpcode host e).regs (rs1 (e.fetch host)) + Iss.immS (e.fetch host) =
      (atOpcode host e).storeAddr (e.fetch host) from rfl, hr]
    exact ⟨_, rfl⟩

end Srv32.Refine

import Srv32.Iss.Loop
import Srv32.Refine.Event

/-! What the simulator needs to complete an instruction on which the core raises no exception. -/

namespace Srv32.Refine

open Iss (Rv Host Ret srv32Step rvOkay rvExit rvTrap)
open Iss.Rv (width loadDevices storeDevices loadBytes storeBytes)
open Rtl (Slot)

variable {k : Known} {x : Slot} {d : Rv} {inst : Word} {host : Host}

/-- JAL or JALR that ends the simulation: `RV_EXIT` for an offset of 0, or a target that is the pc
before bit 0 is cleared. -/
def Halts (d : Rv) (inst : Word) : Prop :=
  (opcode inst = opJal ∧ Iss.immJ inst = 0#32) ∨
    (opcode inst = opJalr ∧ d.regs (rs1 inst) + Iss.immI inst = d.pc)

/-- A device register at `a` takes `v`, and the program goes on. -/
structure DeviceTakes (host : Host) (d : Rv) (a v : Word) : Prop where
  device : a ∈ storeDevices
  notExit : a ≠ mmioExit
  request : a = mmioTohost →
    ∃ m, d.getMemptr v = some m ∧ d.intAt m ≠ sysExit ∧ d.DumpOk host m

/-- What the simulator asks of an instruction to complete it. -/
structure Completes (host : Host) (d : Rv) (inst : Word) : Prop where
  legal : Rv.rejects inst = false
  goesOn : ¬ Halts d inst
  load : opcode inst = opLoad → d.memOk (d.loadAddr inst) (width (func3 inst)) = true ∨
    d.loadAddr inst ∈ loadDevices
  store : opcode inst = opStore → d.memOk (d.storeAddr inst) (width (func3 inst)) = true ∨
    DeviceTakes host d (d.storeAddr inst) (d.regs (rs2 inst))

/-! The address of a load and of a store. -/

theorem Matched.memaddr_load (h : Matched k x d inst) (ho : opcode inst = opLoad) :
    x.memaddr = d.loadAddr inst := by
  simp [Slot.memaddr, Slot.aluOp1, h.src1, h.ex, Rtl.decode, Rtl.immOf, ho, Rv.loadAddr,
    Iss.immI_eq]

theorem Matched.memaddr_store (h : Matched k x d inst) (ho : opcode inst = opStore) :
    x.memaddr = d.storeAddr inst := by
  simp [Slot.memaddr, Slot.aluOp1, h.src1, h.ex, Rtl.decode, Rtl.immOf, ho, Rv.storeAddr,
    Iss.immS_eq, func7, rd]

theorem load_aligned (h : Matched k x d inst) (ho : opcode inst = opLoad)
    (hl : Rtl.isLoadOp (func3 inst) = true) (hal : x.ldAlignExcp = false) :
    (d.loadAddr inst).toNat % (width (func3 inst)).toNat = 0 := by
  have hop : x.ex.aluOp = func3 inst := by simp [h.ex, Rtl.decode]
  simp only [Slot.ldAlignExcp, h.mem2reg, ho, h.loaded.unflushed, hop, h.memaddr_load ho,
    Bits.testBit_zero, Bits.testBit_one] at hal
  simp only [Rtl.isLoadOp, Bool.or_eq_true, beq_iff_eq] at hl
  rcases hl with (((hf | hf) | hf) | hf) | hf <;> rw [hf] at hal ⊢ <;> simp [width] at hal ⊢ <;>
    omega

theorem store_aligned (h : Matched k x d inst) (ho : opcode inst = opStore)
    (hl : Rtl.isStoreOp (func3 inst) = true) (hal : x.stAlignExcp = false) :
    (d.storeAddr inst).toNat % (width (func3 inst)).toNat = 0 := by
  simp only [Slot.stAlignExcp, h.ex, Rtl.decode, ho, h.loaded.unflushed, h.memaddr_store ho,
    Bits.testBit_zero, Bits.testBit_one] at hal
  simp only [Rtl.isStoreOp, Bool.or_eq_true, beq_iff_eq] at hl
  rcases hl with (hf | hf) | hf <;> rw [hf] at hal ⊢ <;> simp [width] at hal ⊢ <;> omega

theorem loadBytes_width {op : BitVec 3} (h : Rtl.isLoadOp op = true) :
    loadBytes op = some (width op).toNat := by
  revert h
  rcases Bits.cases3 op with rfl | rfl | rfl | rfl | rfl | rfl | rfl | rfl <;> decide

theorem storeBytes_width {op : BitVec 3} (h : Rtl.isStoreOp op = true) :
    storeBytes op = some (width op).toNat := by
  revert h
  rcases Bits.cases3 op with rfl | rfl | rfl | rfl | rfl | rfl | rfl | rfl <;> decide

theorem loadAddress_rv32im : d.loadAddress .rv32im inst = d.loadAddr inst := by
  rw [Rv.loadAddress, Rv.readRegs_rv32im, Rv.loadAddr]

theorem storeAddress_rv32im : d.storeAddress .rv32im inst = d.storeAddr inst := by
  rw [Rv.storeAddress, Rv.readRegs_rv32im, Rv.storeAddr]

/-! How the step ends. -/

/-- The instruction is completed if `P`, and otherwise traps or ends the process. -/
structure Ending (P : Prop) (r : Ret) : Prop where
  completed : P → r = .code rvOkay
  stopped : ¬ P → r = .code rvTrap ∨ r.goes = false

theorem Ending.okay {P : Prop} {r : Ret} (hp : P) (hr : r = .code rvOkay) : Ending P r :=
  ⟨fun _ => hr, fun hn => absurd hp hn⟩

theorem Ending.stop {P : Prop} {r : Ret} (hp : ¬ P) (hr : r = .code rvTrap ∨ r.goes = false) :
    Ending P r :=
  ⟨fun h => absurd h hp, fun _ => hr⟩

theorem not_halts_of_ne (h3 : opcode inst ≠ opJal) (h4 : opcode inst ≠ opJalr) :
    ¬ Halts d inst := fun hh => hh.elim (fun h => h3 h.1) fun h => h4 h.1

theorem not_halts_of_access (ho : opcode inst = opLoad ∨ opcode inst = opStore) :
    ¬ Halts d inst := by
  have hne : ∀ op : BitVec 7, op = opLoad ∨ op = opStore → op ≠ opJal ∧ op ≠ opJalr := by decide
  obtain ⟨h3, h4⟩ := hne _ ho
  exact not_halts_of_ne h3 h4

/-- Neither a jump nor a data access: the word decides. -/
theorem completes_iff_legal (h3 : opcode inst ≠ opJal) (h4 : opcode inst ≠ opJalr)
    (h6 : opcode inst ≠ opLoad) (h7 : opcode inst ≠ opStore) :
    Completes host d inst ↔ Rv.rejects inst = false :=
  ⟨fun h => h.legal, fun h => ⟨h, not_halts_of_ne h3 h4, fun ho => absurd ho h6,
    fun ho => absurd ho h7⟩⟩

theorem completes_load (ho : opcode inst = opLoad) (hl : Rtl.isLoadOp (func3 inst) = true) :
    Completes host d inst ↔ d.memOk (d.loadAddr inst) (width (func3 inst)) = true ∨
      d.loadAddr inst ∈ loadDevices := by
  refine ⟨fun hc => hc.load ho, fun hm => ⟨?_, not_halts_of_access (Or.inl ho), fun _ => hm, ?_⟩⟩
  · simp [Rv.rejects, ho, hl]
  · rw [ho]
    exact fun hf => absurd hf (by decide)

theorem completes_store (ho : opcode inst = opStore) (hl : Rtl.isStoreOp (func3 inst) = true) :
    Completes host d inst ↔ d.memOk (d.storeAddr inst) (width (func3 inst)) = true ∨
      DeviceTakes host d (d.storeAddr inst) (d.regs (rs2 inst)) := by
  refine ⟨fun hc => hc.store ho, fun hm => ⟨?_, not_halts_of_access (Or.inr ho), ?_, fun _ => hm⟩⟩
  · simp [Rv.rejects, ho, hl]
  · rw [ho]
    exact fun hf => absurd hf (by decide)

theorem ending_writeRd {v : Option Word} (h3 : opcode inst ≠ opJal) (h4 : opcode inst ≠ opJalr)
    (h6 : opcode inst ≠ opLoad) (h7 : opcode inst ≠ opStore)
    (he : d.exec .rv32im inst host false = d.writeRd .rv32im inst v)
    (hv : v = none ↔ Rv.rejects inst = true) :
    Ending (Completes host d inst) (d.execNext .rv32im inst host false).1 := by
  have hc : Completes host d inst ↔ Rv.rejects inst = false := completes_iff_legal h3 h4 h6 h7
  cases v with
  | none =>
    have hr := hv.mp rfl
    refine .stop (fun h => absurd (hr.symm.trans (hc.mp h)) (by decide)) (Or.inl ?_)
    rw [Rv.execNext, he]
    rfl
  | some w =>
    have hr : Rv.rejects inst = false := by
      rw [← Bool.not_eq_true, ← hv]
      simp
    refine .okay (hc.mpr hr) ?_
    rw [Rv.execNext, he]
    rfl

theorem ending_jump (h : Matched k x d inst) (hx : x.excp = false)
    (ho : opcode inst = opJal ∨ opcode inst = opJalr) :
    Ending (Completes host d inst) (d.execNext .rv32im inst host false).1 := by
  have hne : opcode inst ≠ opLoad ∧ opcode inst ≠ opStore ∧ Rv.rejects inst = false := by
    rcases ho with ho | ho <;> simp [Rv.rejects, Iss.Rv.knownOp, ho]
  have hc : Completes host d inst ↔ ¬ Halts d inst :=
    ⟨fun hc => hc.goesOn, fun hn => ⟨hne.2.2, hn, fun h => absurd h hne.1,
      fun h => absurd h hne.2.1⟩⟩
  by_cases hh : Halts d inst
  · refine .stop (fun h => hc.mp h hh) (Or.inr ?_)
    rcases hh with ⟨hj, hz⟩ | ⟨hj, hz⟩
    · rw [Rv.execNext, show d.exec .rv32im inst host false = .ret (.code rvExit) _ by
        simp only [Rv.exec, hj, Rv.execJal, hz]
        rfl]
      rfl
    · rw [Rv.execNext, show d.exec .rv32im inst host false = .ret (.code rvExit) _ by
        simp only [Rv.exec, hj, Rv.execJalr, Rv.readRegs_rv32im, hz]
        rfl]
      rfl
  · refine .okay (hc.mpr hh) ?_
    have hb : x.branchTaken = true := by
      rcases ho with ho | ho <;>
        simp [Slot.branchTaken, h.ex, Rtl.decode, ho, h.loaded.unflushed]
    have hal : x.target.toNat % 4 = 0 := by
      rw [← Slot.nextPc_of_taken hx hb]
      exact Slot.aligned_of_not_excp h.loaded.unflushed hx
    obtain ⟨t, ht, he⟩ : ∃ t, x.target = t &&& ~~~1#32 ∧
        d.exec .rv32im inst host false = d.jump .rv32im inst false t := by
      rcases ho with hj | hj
      · have hz : Iss.immJ inst ≠ 0#32 := fun hz => hh (Or.inl ⟨hj, hz⟩)
        exact ⟨_, h.target_jal hj, by simp [Rv.exec, hj, Rv.execJal, hz]⟩
      · have hz : d.regs (rs1 inst) + Iss.immI inst ≠ d.pc := fun hz => hh (Or.inr ⟨hj, hz⟩)
        exact ⟨_, h.target_jalr hj, by simp [Rv.exec, hj, Rv.execJalr, hz]⟩
    rw [Rv.execNext, he, h.jump_aligned ho ht hal]

theorem ending_load (h : Matched k x d inst) (hx : x.excp = false) (ho : opcode inst = opLoad) :
    Ending (Completes host d inst) (d.execNext .rv32im inst host false).1 := by
  have hill := h.illegalWord hx
  have hl : Rtl.isLoadOp (func3 inst) = true := by simpa [Slot.illegalWord, ho] using hill
  have hx' := hx
  simp only [Slot.excp, Bool.or_eq_false_iff] at hx'
  have hal := load_aligned h ho hl hx'.1.2
  have hb := loadBytes_width hl
  rw [← loadAddress_rv32im] at hal
  have hnum : BitVec.ofNat 32 (width (func3 inst)).toNat = width (func3 inst) := by simp
  have hc : Completes host d inst ↔ _ := completes_load ho hl
  have hdev : (d.loadDevice host (d.loadAddr inst)).isSome = true ↔ d.loadAddr inst ∈ loadDevices :=
    Iss.Rv.loadDevice_isSome _
  cases hm : d.memOk (d.loadAddr inst) (width (func3 inst)) with
  | true =>
    refine .okay (hc.mpr (Or.inl hm)) ?_
    rw [Iss.Rv.execNext_brk (Iss.Rv.exec_load_ram ho hb hal
      (by rw [hnum, loadAddress_rv32im]; exact hm))]
  | false =>
    have he : d.exec .rv32im inst host false = _ :=
      Iss.Rv.exec_load_device ho hb hal (by rw [hnum, loadAddress_rv32im]; exact hm)
    rw [loadAddress_rv32im] at he
    cases hv : d.loadDevice host (d.loadAddr inst) with
    | none =>
      rw [hv] at he hdev
      refine .stop (fun hh => ?_) (Or.inl ?_)
      · rcases hc.mp hh with hr | hr
        · rw [hm] at hr
          cases hr
        · cases hdev.mpr hr
      · rw [Iss.Rv.execNext_trapRet he]
    | some data =>
      rw [hv] at he hdev
      refine .okay (hc.mpr (Or.inr (hdev.mp rfl))) ?_
      rw [Iss.Rv.execNext_brk he]

/-- A store to a device register, or to nothing. -/
theorem ending_deviceStore {n : ℕ} (ho : opcode inst = opStore)
    (hb : storeBytes (func3 inst) = some n) (ha : (d.storeAddress .rv32im inst).toNat % n = 0)
    (hm : d.memOk (d.storeAddress .rv32im inst) (BitVec.ofNat 32 n) = false) :
    Ending (DeviceTakes host d (d.storeAddr inst) (d.regs (rs2 inst)))
      (d.execNext .rv32im inst host false).1 := by
  have hx : d.exec .rv32im inst host false = _ := Iss.Rv.exec_store_device ho hb ha hm
  have hnext : (d.storeDevice host (func3 inst) (d.storeAddress .rv32im inst)
      (d.readRegs .rv32im (rs2 inst))).1 = .code 0#32 →
        (d.execNext .rv32im inst host false).1 = .code rvOkay := fun hd =>
    ((Iss.Rv.exec_store_next (c := false) ho hb ha hm hd 0#32 .next).mpr rfl).1
  rw [storeAddress_rv32im, Rv.readRegs_rv32im] at hx hnext
  by_cases hd : d.storeAddr inst ∈ storeDevices
  · by_cases hex : d.storeAddr inst = mmioExit
    · -- `RV_EXIT` is read as the cause of an illegal instruction
      refine .stop (fun ht => ht.notExit hex) (Or.inl ?_)
      rw [hex, Iss.Rv.storeDevice_exit] at hx
      rw [Iss.Rv.execNext_trapRet (hx.trans (by rfl))]
    · by_cases hto : d.storeAddr inst = mmioTohost
      · have hret : (d.tohost host (d.regs (rs2 inst))).1 = none ↔ _ := Iss.Rv.tohost_eq_none _
        rw [hto, Iss.Rv.storeDevice_tohost] at hx hnext
        rcases hr : d.tohost host (d.regs (rs2 inst)) with ⟨_ | r, e⟩
        · rw [hr] at hret hnext
          exact .okay ⟨hd, hex, fun _ => hret.mp rfl⟩ (hnext rfl)
        · rw [hr] at hret hx
          refine .stop (fun ht => ?_) (Or.inr ?_)
          · cases hret.mpr (ht.request hto)
          · have hne : ∀ c, r ≠ .code c :=
              Iss.Rv.tohost_some (congrArg Prod.fst hr)
            cases r with
            | code c => exact absurd rfl (hne c)
            | exit s =>
              rw [Rv.execNext, hx]
              rfl
            | segv =>
              rw [Rv.execNext, hx]
              rfl
      · exact .okay ⟨hd, hex, fun ht => absurd ht hto⟩
          (hnext (Iss.Rv.storeDevice_code _ _ hd hex hto))
  · refine .stop (fun ht => hd ht.device) (Or.inl ?_)
    rw [Iss.Rv.storeDevice_fault _ _ hd] at hx
    rw [Iss.Rv.execNext_trapRet (hx.trans (by rfl))]

theorem ending_store (h : Matched k x d inst) (hx : x.excp = false) (ho : opcode inst = opStore) :
    Ending (Completes host d inst) (d.execNext .rv32im inst host false).1 := by
  have hill := h.illegalWord hx
  have hl : Rtl.isStoreOp (func3 inst) = true := by simpa [Slot.illegalWord, ho] using hill
  have hx' := hx
  simp only [Slot.excp, Bool.or_eq_false_iff] at hx'
  have hal := store_aligned h ho hl hx'.2
  have hb := storeBytes_width hl
  rw [← storeAddress_rv32im] at hal
  have hnum : BitVec.ofNat 32 (width (func3 inst)).toNat = width (func3 inst) := by simp
  have hc : Completes host d inst ↔ _ := completes_store ho hl
  cases hm : d.memOk (d.storeAddr inst) (width (func3 inst)) with
  | true =>
    refine .okay (hc.mpr (Or.inl hm)) ?_
    rw [Iss.Rv.execNext_brk (Iss.Rv.exec_store_ram ho hb hal
      (by rw [hnum, storeAddress_rv32im]; exact hm))]
  | false =>
    obtain ⟨hyes, hno⟩ : Ending (DeviceTakes host _ _ _) _ := ending_deviceStore ho hb hal
      (by rw [hnum, storeAddress_rv32im]; exact hm)
    rw [hm] at hc
    simp only [Bool.false_eq_true, false_or] at hc
    exact ⟨fun h => hyes (hc.mp h), fun h => hno fun ht => h (hc.mpr ht)⟩

/-- An instruction that raises no exception in the core is completed by the simulator just when
`Completes` holds. -/
theorem Matched.ending (h : Matched k x d inst) (hx : x.excp = false)
    (hs : opcode inst ≠ opSystem) :
    Ending (Completes host d inst) (d.execNext .rv32im inst host false).1 := by
  have hill := h.illegalWord hx
  by_cases h3 : opcode inst = opJal ∨ opcode inst = opJalr
  · exact ending_jump h hx h3
  obtain ⟨h31, h32⟩ := not_or.mp h3
  by_cases h6 : opcode inst = opLoad
  · exact ending_load h hx h6
  by_cases h7 : opcode inst = opStore
  · exact ending_store h hx h7
  have hc : Completes host d inst ↔ Rv.rejects inst = false := completes_iff_legal h31 h32 h6 h7
  by_cases h5 : opcode inst = opBranch
  · have htaken : x.branchTaken = true → x.target.toNat % 4 = 0 := fun ht => by
      rw [← Slot.nextPc_of_taken hx ht]
      exact Slot.aligned_of_not_excp h.loaded.unflushed hx
    refine .okay (hc.mpr ?_) ?_
    · simpa [Slot.illegalWord, Rv.rejects, h5] using hill
    · rw [h.execNext_branch host h5 (h.branchCond_ne_none hx h5) htaken]
  by_cases h8 : opcode inst = opArithI
  · refine ending_writeRd h31 h32 h6 h7 (v := d.arithI .rv32im inst) (by simp [Rv.exec, h8]) ?_
    rw [Iss.Rv.arithI_eq_none]
    simp [Rv.rejects, h8]
  by_cases h9 : opcode inst = opArithR
  · refine ending_writeRd h31 h32 h6 h7 (v := d.arithR .rv32im inst) (by simp [Rv.exec, h9]) ?_
    rw [Iss.Rv.arithR_eq_none]
    simp [Rv.rejects, h9]
  have hk : Iss.Rv.knownOp inst = true := by
    simpa [Slot.illegalWord, h5, h6, h7, h8, h9, hs] using hill
  refine .okay (hc.mpr ?_) ?_
  · simp [Rv.rejects, h5, h6, h7, h8, h9, hs, hk]
  · simp only [Iss.Rv.knownOp, Bool.or_eq_true, beq_iff_eq, h31, h32, h5, h6, h7, h8, h9, hs,
      or_false] at hk
    rcases hk with (hk | hk) | hk <;> rw [Rv.execNext] <;>
      simp [Rv.exec, hk, Rv.execAuipc, Rv.execLui]

end Srv32.Refine

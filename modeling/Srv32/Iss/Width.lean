import Srv32.Iss.Clint
import Srv32.Iss.Data

/-! The widths of loads and stores. A load of a device register is cut to its width only as far as
the fill of the sign reaches; a store to one keeps bits of the old value, but cuts nothing off the
new one. -/

namespace Srv32.Iss.Rv

open Device (Reg Regs)

variable {cfg : Config} {rv d : Rv} {inst : Word} {host : Host} {c : Bool} {n : ℕ}

/-! Loads. -/

/-- The value of a load of these bytes, by its width. -/
def narrow (op : BitVec 3) (b : ℕ → Byte) : Word :=
  if op = opLb then (b 0).signExtend 32
  else if op = opLbu then (b 0).setWidth 32
  else if op = opLh then (b 1 ++ b 0).signExtend 32
  else if op = opLhu then (b 1 ++ b 0).setWidth 32
  else wordOfBytes b

/-- What a load of `n` bytes finds at `a`: memory, or the bytes of a device register. -/
def sourceBytes (d : Rv) (host : Host) (a : Word) (n : ℕ) (i : ℕ) : Byte :=
  if d.memOk a (BitVec.ofNat 32 n) then d.mem (d.offset a + i)
  else byteOfWord ((d.loadDevice host a).getD 0#32) i

/-- `v` is what the load `inst` of `n` bytes should deliver in the state `d`. -/
structure LoadLaw (cfg : Config) (host : Host) (d : Rv) (inst : Word) (n : ℕ) (v : Word) :
    Prop where
  value : v = narrow (func3 inst) (d.sourceBytes host (d.loadAddress cfg inst) n)
  lbu : func3 inst = opLbu → v.toNat < 2 ^ 8
  lhu : func3 inst = opLhu → v.toNat < 2 ^ 16

/-- A device register holds no bits above the width of the load, or the fill of the sign covers
them. -/
structure Fits (op : BitVec 3) (v : Word) : Prop where
  lb : op = opLb → v.getLsbD 7 = false → v.toNat < 2 ^ 8
  lbu : op = opLbu → v.toNat < 2 ^ 8
  lh : op = opLh → v.getLsbD 15 = false → v.toNat < 2 ^ 16
  lhu : op = opLhu → v.toNat < 2 ^ 16

theorem narrow_bounds (op : BitVec 3) (b : ℕ → Byte) :
    (op = opLbu → (narrow op b).toNat < 2 ^ 8) ∧
      (op = opLhu → (narrow op b).toNat < 2 ^ 16) := by
  constructor
  · intro h
    subst h
    change ((b 0).setWidth 32).toNat < 2 ^ 8
    have hb := (b 0).isLt
    rw [BitVec.toNat_setWidth]
    omega
  · intro h
    subst h
    change ((b 1 ++ b 0).setWidth 32).toNat < 2 ^ 16
    have hb := (b 1 ++ b 0).isLt
    rw [BitVec.toNat_setWidth]
    omega

/-- Bytes of memory arrive narrowed. -/
theorem narrow_lowBytes {op : BitVec 3} (h : loadBytes op = some n) (b : ℕ → Byte) :
    loadExtend op (lowBytes (BitVec.ofNat 32 n) b) = narrow op b := by
  obtain ⟨hlb, hlh, hlw, hlbu, hlhu⟩ := loadExtend_lowBytes op b
  rcases Bits.cases3 op with rfl | rfl | rfl | rfl | rfl | rfl | rfl | rfl <;> cases h
  · exact hlb rfl
  · exact hlh rfl
  · exact hlw rfl
  · exact hlbu rfl
  · exact hlhu rfl

/-- A register arrives narrowed just when it fits. -/
theorem narrow_register_iff {op : BitVec 3} (h : loadBytes op = some n) (v : Word) :
    loadExtend op v = narrow op (byteOfWord v) ↔ Fits op v := by
  have hhalf : byteOfWord v 1 ++ byteOfWord v 0 = v.extractLsb' 0 16 := by
    apply BitVec.eq_of_getLsbD_eq
    intro i hi
    simp only [byteOfWord, BitVec.getLsbD_append, BitVec.getLsbD_extractLsb']
    by_cases hlow : i < 8
    · simp [hlow, hi]
    · have h8 : 8 + (i - 8) = i := by omega
      have hb : i - 8 < 8 := by omega
      simp [hlow, hi, hb, h8]
  have hno : ∀ {x y : BitVec 3} {q : Prop}, x ≠ y → x = y → q := fun hne he => absurd he hne
  rcases Bits.cases3 op with rfl | rfl | rfl | rfl | rfl | rfl | rfl | rfl <;> cases h
  · refine (Bits.fill_eq_iff v (k := 8) (by decide) (by decide)).trans ?_
    exact ⟨fun hv => ⟨fun _ => hv, hno (by decide), hno (by decide), hno (by decide)⟩,
      fun hv => hv.lb rfl⟩
  · have hf := Bits.fill_eq_iff v (k := 16) (by decide) (by decide)
    rw [← hhalf] at hf
    exact hf.trans ⟨fun hv => ⟨hno (by decide), hno (by decide), fun _ => hv, hno (by decide)⟩,
      fun hv => hv.lh rfl⟩
  · refine iff_of_true (wordOfBytes_byteOfWord v).symm ?_
    exact ⟨hno (by decide), hno (by decide), hno (by decide), hno (by decide)⟩
  · refine (Bits.eq_low_iff v (k := 8) (by decide)).trans ?_
    exact ⟨fun hv => ⟨hno (by decide), fun _ => hv, hno (by decide), hno (by decide)⟩,
      fun hv => hv.lbu rfl⟩
  · have hf := Bits.eq_low_iff v (k := 16) (by decide)
    rw [← hhalf] at hf
    exact hf.trans ⟨fun hv => ⟨hno (by decide), hno (by decide), hno (by decide), fun _ => hv⟩,
      fun hv => hv.lhu rfl⟩

theorem writeRegs_self (v : Word) {r : BitVec 5} (h : r.toNat < cfg.regnum) :
    (rv.writeRegs cfg r v).regs r = v := by
  rw [writeRegs, if_neg (by omega)]
  exact Function.update_self _ _ _

/-- Whatever its source, every load that does not trap delivers the value of its width, but for
device registers that do not fit it. -/
theorem load_width_iff (cfg : Config) (host : Host) (rv d : Rv) (inst : Word) (c : Bool) (n : ℕ)
    (hd : rv.dispatch cfg host = .ok (d, inst, c)) (ho : opcode inst = opLoad)
    (hb : loadBytes (func3 inst) = some n) (hr : (rd inst).toNat < cfg.regnum)
    (hok : (srv32Step cfg host rv).1 = .code rvOkay) :
    LoadLaw cfg host d inst n ((srv32Step cfg host rv).2.regs (rd inst)) ↔
      (d.memOk (d.loadAddress cfg inst) (BitVec.ofNat 32 n) = false →
        ∀ v, d.loadDevice host (d.loadAddress cfg inst) = some v → Fits (func3 inst) v) := by
  have hstep : srv32Step cfg host rv = d.execNext cfg inst host c := by
    rw [srv32Step_eq, hd]
  have hlaw : ∀ v, LoadLaw cfg host d inst n v ↔
      v = narrow (func3 inst) (d.sourceBytes host (d.loadAddress cfg inst) n) := by
    intro v
    refine ⟨LoadLaw.value, fun hv => ⟨hv, ?_, ?_⟩⟩
    · rw [hv]
      exact (narrow_bounds _ _).1
    · rw [hv]
      exact (narrow_bounds _ _).2
  have htrap : ∀ {s : Rv} {cause val : Word},
      d.exec cfg inst host c ≠ s.trapRet cause val := by
    intro s cause val he
    rw [hstep, execNext_trapRet he] at hok
    exact absurd hok (by simp)
  rw [hlaw, hstep]
  by_cases ha : (d.loadAddress cfg inst).toNat % n = 0
  · cases hm : d.memOk (d.loadAddress cfg inst) (BitVec.ofNat 32 n) with
    -- memory is read at the width of the load, a device register whole
    | true =>
      refine iff_of_true ?_ (by simp)
      rw [execNext_brk (exec_load_ram ho hb ha hm)]
      refine (writeRegs_self _ hr).trans ?_
      rw [narrow_lowBytes hb]
      congr 1
      funext i
      rw [sourceBytes, if_pos hm]
    | false =>
      have hx : d.exec cfg inst host c = _ := exec_load_device ho hb ha hm
      cases hv : d.loadDevice host (d.loadAddress cfg inst) with
      | none =>
        rw [hv] at hx
        exact absurd hx htrap
      | some v =>
        rw [hv] at hx
        have hsource : d.sourceBytes host (d.loadAddress cfg inst) n = byteOfWord v := by
          funext i
          rw [sourceBytes, if_neg (by rw [hm]; simp), hv, Option.getD_some]
        rw [execNext_brk hx, hsource]
        refine Iff.trans ?_ (narrow_register_iff hb v)
          |>.trans ⟨fun h _ w hw => Option.some.inj hw ▸ h, fun h => h rfl v rfl⟩
        exact iff_of_eq (congrArg (· = _) (writeRegs_self _ hr))
  · exact absurd (exec_load_misaligned ho hb ha) htrap

/-- Before the `lbu` of a program that fills the low half of `mtimecmp` and loads its first
byte. -/
def atLbu : Rv := run .rv32im (fun _ => .none) (Rv.boot .rv32im 1 (image
  [0x900000b7#32, 0xfff00113#32, 0x0020a423#32, 0x0080c183#32])) 3

/-- The `lbu` delivers all 32 bits. -/
theorem load_width_mtimecmp :
    atLbu.dispatch .rv32im .none =
        .ok ((atLbu.prologue .rv32im .none).1, 0x0080c183#32, false) ∧
      (srv32Step .rv32im .none atLbu).1 = .code rvOkay ∧
      (srv32Step .rv32im .none atLbu).2.regs 3#5 = 0xffffffff#32 ∧
      ¬ LoadLaw .rv32im .none (atLbu.prologue .rv32im .none).1 0x0080c183#32 1
        ((srv32Step .rv32im .none atLbu).2.regs 3#5) := by
  have hv : (srv32Step .rv32im .none atLbu).2.regs 3#5 = 0xffffffff#32 := by decide +kernel
  have hlaw : ∀ d v, v = 0xffffffff#32 → ¬ LoadLaw .rv32im .none d 0x0080c183#32 1 v := by
    intro d v hv h
    subst hv
    exact absurd (h.lbu rfl) (by decide)
  have hw : (atLbu.prologue .rv32im .none).2 = 0x0080c183#32 := by decide +kernel
  refine ⟨?_, by decide +kernel, hv, hlaw _ _ hv⟩
  rw [dispatch_rv32im, hw]

/-- `lbu x1, 0(x0)` loads the first byte of memory. -/
theorem load_width_ram :
    let rv := Rv.boot .rv32im 1 (image [0x00004083#32])
    LoadLaw .rv32im .none (rv.prologue .rv32im .none).1 0x00004083#32 1
      ((srv32Step .rv32im .none rv).2.regs 1#5) := by
  intro rv
  have hw : (rv.prologue .rv32im .none).2 = 0x00004083#32 := by decide +kernel
  refine (load_width_iff .rv32im .none rv (rv.prologue .rv32im .none).1 0x00004083#32 false 1 ?_
    (by decide) (by decide) (by decide) (by decide +kernel)).mpr fun hm => ?_
  · rw [dispatch_rv32im, hw]
  · exact absurd hm (by decide +kernel)

/-! Stores to the CLINT. -/

/-- A register after a store of the low bits of `v`, as wide as `op` says. -/
def merge (op : BitVec 3) (old v : Word) : Word := old &&& ~~~storeMask op ||| v &&& storeMask op

/-- From `d` to `d'` a store of `v` replaced the low bits of the register `r` and nothing else of
the devices. `mtime` advances with the cycles; a store to `mtime` may take the place of theirs. -/
structure StoreLaw (d d' : Rv) (r : Reg) (op : BitVec 3) (v : Word) : Prop where
  device : ∃ a ≤ (d'.csr.cycle - d.csr.cycle).toNat,
    (Regs.stands r = false → a = (d'.csr.cycle - d.csr.cycle).toNat) ∧
      d'.device = (d.device.write (BitVec.allOnes 32) r (merge op (d.device.word r) v)).tick
        (BitVec.ofNat 64 a)
  htif : d'.htifResult = d.htifResult
  exitcode : d'.exitcode = d.exitcode

/-- The extra cycle of a shared RAM moves the counters on, but not `mtime` after a store to it. -/
theorem ramCycle_device (hu : d.mtimeUpdate = false) (r : Reg) (v : Word) :
    (d.storeReg r v).ramCycle.device =
      (d.device.write (BitVec.allOnes 32) r v).tick
        (if Regs.stands r then -1#64 else (d.storeReg r v).ramCycle.csr.cycle - d.csr.cycle) := by
  have hcycle : (d.storeReg r v).csr.cycle = d.csr.cycle := by cases r <;> rfl
  cases hr : Regs.stands r with
  | true =>
    have hup : (d.storeReg r v).mtimeUpdate = true := by
      cases r <;> first | rfl | cases hr
    have hdev : (d.storeReg r v).ramCycle.device = (d.storeReg r v).device := by
      unfold ramCycle
      split
      · simp only [device, cycleAdd, hup, if_true]
      · rfl
    rw [hdev, storeReg_device, hr]
    rfl
  | false =>
    have hup : (d.storeReg r v).mtimeUpdate = false := by
      cases r <;> first | exact hu | cases hr
    have hclock : (d.storeReg r v).ramCycle.clock = (d.storeReg r v).clock := paced_ramCycle hup
    have hphase := congrArg Clock.phase hclock
    change (d.storeReg r v).ramCycle.csr.mtime - (d.storeReg r v).ramCycle.csr.cycle =
      (d.storeReg r v).csr.mtime - (d.storeReg r v).csr.cycle at hphase
    have hdev : (d.storeReg r v).ramCycle.device = (d.storeReg r v).device.tick
        ((d.storeReg r v).ramCycle.csr.cycle - d.csr.cycle) := by
      ext1
      · change (d.storeReg r v).ramCycle.csr.mtime = (d.storeReg r v).csr.mtime + _
        rw [hcycle] at hphase
        bv_omega
      · exact congrArg Clock.mtimecmp hclock
      · exact congrArg Clock.msip hclock
    rw [hdev, storeReg_device, hr, Regs.tick_tick]
    simp

/-! A store to `mtime` leaves it one too low. -/

theorem setLo_low (x : Counter) (v : Word) : (Device.setLo x v).setWidth 8 = v.setWidth 8 := by
  apply BitVec.eq_of_getLsbD_eq
  intro i hi
  rw [BitVec.getLsbD_setWidth, Device.setLo, BitVec.getLsbD_append, if_pos (by omega),
    BitVec.getLsbD_setWidth]

theorem setHi_low (x : Counter) (v : Word) : (Device.setHi x v).setWidth 8 = x.setWidth 8 := by
  apply BitVec.eq_of_getLsbD_eq
  intro i hi
  rw [BitVec.getLsbD_setWidth, Device.setHi, BitVec.getLsbD_append, if_pos (by omega), Device.lo,
    BitVec.getLsbD_extractLsb', Nat.zero_add, BitVec.getLsbD_setWidth]
  simp only [show i < 32 by omega, decide_true, Bool.true_and]

/-- The byte at the bottom is stored at every width. -/
theorem storeMask_low (op : BitVec 3) : (storeMask op).setWidth 8 = BitVec.allOnes 8 := by
  unfold storeMask
  split_ifs <;> rfl

theorem merge_low (op : BitVec 3) (old v : Word) :
    (old &&& ~~~storeMask op ||| v).setWidth 8 = (merge op old v).setWidth 8 := by
  rw [merge, BitVec.setWidth_or, BitVec.setWidth_or, BitVec.setWidth_and,
    BitVec.setWidth_and (y := storeMask op), storeMask_low, BitVec.and_allOnes]

/-- Values that agree in the lowest byte: the one less one is not reached from the other by no
more than one cycle. -/
theorem tick_ne (s : Regs) {r : Reg} (hr : Regs.stands r = true) {v w : Word} {a : ℕ}
    (hlow : v.setWidth 8 = w.setWidth 8) (ha : a ≤ 1) :
    (s.write (BitVec.allOnes 32) r v).tick (-1#64) ≠
      (s.write (BitVec.allOnes 32) r w).tick (BitVec.ofNat 64 a) := by
  intro h
  have hm := congrArg (fun t : Regs => t.mtime.setWidth 8) h
  simp only [Regs.tick] at hm
  rw [BitVec.setWidth_add _ _ (by decide), BitVec.setWidth_add _ _ (by decide)] at hm
  have hsame : (s.write (BitVec.allOnes 32) r v).mtime.setWidth 8 =
      (s.write (BitVec.allOnes 32) r w).mtime.setWidth 8 := by
    cases r with
    | mtime => exact (setLo_low _ _).trans (hlow.trans (setLo_low _ _).symm)
    | mtimeh => exact (setHi_low _ _).trans (setHi_low _ _).symm
    | _ => cases hr
  rw [hsame, BitVec.add_right_inj] at hm
  obtain rfl | rfl : a = 0 ∨ a = 1 := by omega
  · exact absurd hm (by decide)
  · exact absurd hm (by decide)

theorem ramCycle_charge (d : Rv) : (d.ramCycle.csr.cycle - d.csr.cycle).toNat ≤ 1 := by
  unfold ramCycle
  split
  · change (d.csr.cycle + 1#64 - d.csr.cycle).toNat ≤ 1
    rw [show d.csr.cycle + 1#64 - d.csr.cycle = 1#64 by bv_omega]
    decide
  · rw [BitVec.sub_self]
    decide

/-- A store to `mtimecmp` or `msip` replaces just the bits of its width, unless it would set one
outside them. No store to `mtime` does. -/
theorem store_width_iff (cfg : Config) (host : Host) (rv d : Rv) (inst : Word) (c : Bool) (n : ℕ)
    (r : Reg) (hd : rv.dispatch cfg host = .ok (d, inst, c)) (ho : opcode inst = opStore)
    (hb : storeBytes (func3 inst) = some n) (ha : d.storeAddress cfg inst = r.addr)
    (hm : d.memOk r.addr (BitVec.ofNat 32 n) = false) :
    StoreLaw d (srv32Step cfg host rv).2 r (func3 inst) (d.readRegs cfg (rs2 inst)) ↔
      Regs.stands r = false ∧
        d.readRegs cfg (rs2 inst) &&& ~~~storeMask (func3 inst) &&& ~~~d.device.word r = 0#32 := by
  generalize hv : d.readRegs cfg (rs2 inst) = v
  generalize hw : d.device.word r &&& ~~~storeMask (func3 inst) ||| v = w
  have hexec : d.exec cfg inst host c = .brk (d.storeReg r w).ramCycle := by
    rw [exec_storesTo ho ⟨ha, n, hb, hm⟩, hv, hw]
  have hstep : (srv32Step cfg host rv).2 = { (d.storeReg r w).ramCycle with
      pc := (d.storeReg r w).ramCycle.linkPc c } := by
    rw [srv32Step_eq, hd]
    exact congrArg Prod.snd (execNext_brk hexec)
  have hdev : (srv32Step cfg host rv).2.device = (d.storeReg r w).ramCycle.device := by
    rw [hstep]
    rfl
  have hcycle : (srv32Step cfg host rv).2.csr.cycle = (d.storeReg r w).ramCycle.csr.cycle := by
    rw [hstep]
  have hkeep : (srv32Step cfg host rv).2.htifResult = d.htifResult ∧
      (srv32Step cfg host rv).2.exitcode = d.exitcode := by
    rw [hstep, ramCycle]
    split <;> cases r <;> exact ⟨rfl, rfl⟩
  have hu : d.mtimeUpdate = false := congrArg Clock.mtimeUpdate (dispatch_clock hd)
  have hsame : (d.storeReg r w).csr.cycle = d.csr.cycle := by cases r <;> rfl
  have hcharge := ramCycle_charge (d.storeReg r w)
  rw [hsame] at hcharge
  cases hr : Regs.stands r with
  | true =>
    refine iff_of_false (fun h => ?_) fun h => absurd h.1 (by decide)
    obtain ⟨a, ha, -, h'⟩ := h.device
    rw [hdev, ramCycle_device hu, hr, if_pos rfl, ← hw] at h'
    rw [hcycle] at ha
    exact tick_ne d.device hr (merge_low _ _ _) (ha.trans hcharge) h'
  | false =>
    have hlaw : StoreLaw d (srv32Step cfg host rv).2 r (func3 inst) v ↔
        w = merge (func3 inst) (d.device.word r) v := by
      have hpass := ramCycle_device hu r w
      rw [hr, if_neg Bool.false_ne_true] at hpass
      constructor
      · intro h
        obtain ⟨a, -, ha, h'⟩ := h.device
        rw [ha hr, BitVec.ofNat_toNat, BitVec.setWidth_eq, hdev, hcycle, hpass] at h'
        exact Regs.write_injective _ r (Regs.tick_injective h')
      · intro h
        refine ⟨⟨_, le_rfl, fun _ => rfl, ?_⟩, hkeep.1, hkeep.2⟩
        rw [BitVec.ofNat_toNat, BitVec.setWidth_eq, hdev, hcycle, hpass, ← h]
    rw [hlaw, ← hw, and_iff_right rfl]
    exact Bits.merge_eq_iff _ _ _

/-- Before the last instruction of a program that stores the byte in `x2` to `mtimecmp`. -/
def atSb (li : Word) : Rv := run .rv32im (fun _ => .none) (Rv.boot .rv32im 1 (image
  [0x900000b7#32, li, 0x00208423#32])) 2

theorem dispatch_atSb (li : Word) (h : ((atSb li).prologue .rv32im .none).2 = 0x00208423#32) :
    (atSb li).dispatch .rv32im .none =
      .ok (((atSb li).prologue .rv32im .none).1, 0x00208423#32, false) := by
  rw [dispatch_rv32im, h]

/-- Before the last instruction of a program that stores 0 to the low half of `mtime`. -/
def atSw : Rv := run .rv32im (fun _ => .none) (Rv.boot .rv32im 1 (image
  [0x900000b7#32, 0x0000a023#32])) 1

/-- After `addi x2, x0, 0x180` the byte store sets bit 8 as well. The word store takes the other
half of `mtime` below zero. -/
theorem store_width_bit8 :
    (let rv := atSb 0x18000113#32
     let d := (rv.prologue .rv32im .none).1
     rv.dispatch .rv32im .none = .ok (d, 0x00208423#32, false) ∧
       d.storeAddress .rv32im 0x00208423#32 = Reg.addr .mtimecmp ∧
       d.readRegs .rv32im 2#5 = 0x180#32 ∧ d.csr.mtimecmp = 0#64 ∧
       (srv32Step .rv32im .none rv).2.csr.mtimecmp = 0x180#64 ∧
       ¬ StoreLaw d (srv32Step .rv32im .none rv).2 .mtimecmp opSb 0x180#32) ∧
    (let d := (atSw.prologue .rv32im .none).1
     atSw.dispatch .rv32im .none = .ok (d, 0x0000a023#32, false) ∧
       d.storeAddress .rv32im 0x0000a023#32 = Reg.addr .mtime ∧
       d.readRegs .rv32im 0#5 = 0#32 ∧ d.csr.mtime = 2#64 ∧
       (srv32Step .rv32im .none atSw).2.csr.mtime = 0xffffffffffffffff#64 ∧
       ¬ StoreLaw d (srv32Step .rv32im .none atSw).2 .mtime opSw 0#32) := by
  constructor
  · intro rv d
    have hold : d.csr.mtimecmp = 0#64 := by decide +kernel
    have hnew : (srv32Step .rv32im .none rv).2.csr.mtimecmp = 0x180#64 := by decide +kernel
    have hlaw : ∀ s s' : Rv, s.csr.mtimecmp = 0#64 → s'.csr.mtimecmp = 0x180#64 →
        ¬ StoreLaw s s' .mtimecmp opSb 0x180#32 := by
      intro s s' hs hs' h
      obtain ⟨a, -, -, h'⟩ := h.device
      have hm := congrArg Regs.mtimecmp h'
      change s'.csr.mtimecmp =
        Device.setLo s.csr.mtimecmp (merge opSb (Device.lo s.csr.mtimecmp) 0x180#32) at hm
      rw [hs, hs'] at hm
      exact absurd hm (by decide)
    exact ⟨dispatch_atSb _ (by decide +kernel), by decide +kernel, by decide +kernel, hold, hnew,
      hlaw _ _ hold hnew⟩
  · intro d
    have hold : d.csr.mtime = 2#64 := by decide +kernel
    have hnew : (srv32Step .rv32im .none atSw).2.csr.mtime = 0xffffffffffffffff#64 := by
      decide +kernel
    have hcycle : (srv32Step .rv32im .none atSw).2.csr.cycle = d.csr.cycle := by decide +kernel
    have hlaw : ∀ s s' : Rv, s.csr.mtime = 2#64 → s'.csr.mtime = 0xffffffffffffffff#64 →
        s'.csr.cycle = s.csr.cycle → ¬ StoreLaw s s' .mtime opSw 0#32 := by
      intro s s' hs hs' hc h
      obtain ⟨a, ha, -, h'⟩ := h.device
      rw [hc, BitVec.sub_self] at ha
      obtain rfl : a = 0 := Nat.le_zero.mp ha
      have hm := congrArg Regs.mtime h'
      change s'.csr.mtime =
        Device.setLo s.csr.mtime (merge opSw (Device.lo s.csr.mtime) 0#32) + 0#64 at hm
      rw [hs, hs'] at hm
      exact absurd hm (by decide)
    refine ⟨?_, by decide +kernel, by decide +kernel, hold, hnew, hlaw _ _ hold hnew hcycle⟩
    have hw : (atSw.prologue .rv32im .none).2 = 0x0000a023#32 := by decide +kernel
    rw [dispatch_rv32im, hw]

/-- After `addi x2, x0, 0x80` it stores just the byte. -/
theorem store_width_byte :
    StoreLaw ((atSb 0x08000113#32).prologue .rv32im .none).1
      (srv32Step .rv32im .none (atSb 0x08000113#32)).2 .mtimecmp opSb
      (((atSb 0x08000113#32).prologue .rv32im .none).1.readRegs .rv32im 2#5) :=
  (store_width_iff .rv32im .none (atSb 0x08000113#32)
    ((atSb 0x08000113#32).prologue .rv32im .none).1 0x00208423#32 false 1 .mtimecmp
    (dispatch_atSb _ (by decide +kernel)) (by decide) (by decide) (by decide +kernel)
    (by decide +kernel)).mpr ⟨rfl, by decide +kernel⟩

end Srv32.Iss.Rv

import Srv32.Iss.Interrupt

/-! The word a step executes. The head of the step can send the pc to an interrupt vector and then
to that of a failed check, and what the fetch returns is not looked at. -/

namespace Srv32.Iss.Rv

variable {cfg : Config} {rv s d : Rv} {inst : Word} {host : Host} {c : Bool} {p : Word}

/-- The alignment check of the pc passes. -/
def PcAligned (cfg : Config) (p : Word) : Prop :=
  p &&& (if cfg.rv32c then 1#32 else 3#32) = 0#32

/-- `srv32_read_mem` delivers the `n` bytes at `p`, and they are guest memory. -/
structure Readable (rv : Rv) (p : Word) (n : ℕ) : Prop where
  ok : rv.memOk p (BitVec.ofNat 32 n) = true
  inside : rv.Inside p n

def halfAt (rv : Rv) (p : Word) : BitVec 16 := rv.mem (rv.offset p + 1) ++ rv.mem (rv.offset p)

/-- All of the instruction at `p` can be read: a compressed one has two bytes. -/
def Whole (cfg : Config) (rv : Rv) (p : Word) : Prop :=
  if cfg.rv32c then rv.Readable p 2 ∧ (cOp (rv.halfAt p) = 3#2 → rv.Readable p 4)
  else rv.Readable p 4

/-- The pc after the interrupt entries. -/
def startPc (rv : Rv) : Word :=
  if rv.mieSet ∧ rv.latch.timerIrq then vectorOf rv.csr.mtvec 7#32
  else if rv.mieSet ∧ rv.latch.swIrqNext then vectorOf rv.csr.mtvec 3#32
  else if rv.mieSet ∧ rv.latch.extIrqNext then vectorOf rv.csr.mtvec 11#32
  else rv.pc

instance (cfg : Config) (p : Word) : Decidable (PcAligned cfg p) :=
  inferInstanceAs (Decidable (_ = _))

instance (rv : Rv) (p : Word) (n : ℕ) : Decidable (rv.Readable p n) :=
  decidable_of_iff (rv.memOk p (BitVec.ofNat 32 n) = true ∧ rv.Inside p n)
    ⟨fun h => ⟨h.1, h.2⟩, fun h => ⟨h.1, h.2⟩⟩

instance (cfg : Config) (rv : Rv) (p : Word) : Decidable (Whole cfg rv p) :=
  inferInstanceAs (Decidable (if cfg.rv32c = true then _ else _))

/-- The step starts at a good pc, or the vector of the check that fails is one. -/
def Fetchable (cfg : Config) (rv : Rv) : Prop :=
  if rv.InRange rv.startPc ∧ PcAligned cfg rv.startPc then Whole cfg rv rv.startPc
  else
    let v := vectorOf rv.csr.mtvec (if rv.InRange rv.startPc then trapInstAlign else trapInstFail)
    PcAligned cfg v ∧ Whole cfg rv v

instance (cfg : Config) (rv : Rv) : Decidable (Fetchable cfg rv) :=
  inferInstanceAs (Decidable (if rv.InRange rv.startPc ∧ PcAligned cfg rv.startPc then _ else _))

/-- The word at the switch, and its form, are what the step read from guest memory at its pc. -/
structure Fetched (cfg : Config) (d : Rv) (inst : Word) (c : Bool) : Prop where
  aligned : PcAligned cfg d.pc
  word : c = false → d.Inside d.pc 4 ∧ ∃ b, d.readMem d.pc 4#32 = some b ∧ inst = wordOfBytes b
  half : cfg.rv32c = true → d.Inside d.pc 2 ∧ ∃ b, d.readMem d.pc 2#32 = some b ∧
    (c = true ↔ cOp (b 1 ++ b 0) ≠ 3#2) ∧
    (c = true → ∀ w, (compressedDecoder (b 1 ++ b 0) w).inst = inst)

/-! The head of the step keeps memory and `mtvec`. -/

/-- The two states have the same guest memory and the same `mtvec`. -/
structure Mapped (a b : Rv) : Prop where
  mem : b.mem = a.mem
  memBase : b.memBase = a.memBase
  memSize : b.memSize = a.memSize
  mtvec : b.csr.mtvec = a.csr.mtvec

theorem Mapped.trans {a b e : Rv} (h : Mapped a b) (h' : Mapped b e) : Mapped a e :=
  ⟨h'.mem.trans h.mem, h'.memBase.trans h.memBase, h'.memSize.trans h.memSize,
    h'.mtvec.trans h.mtvec⟩

theorem mapped_trap (rv : Rv) (cause val : Word) : Mapped rv (rv.trap cause val) :=
  ⟨rfl, rfl, rfl, rfl⟩

theorem mapped_int (rv : Rv) (cause : Word) (src : ℕ) : Mapped rv (rv.int cause src false) := by
  rw [int_eq]
  exact ⟨rfl, rfl, rfl, rfl⟩

theorem Mapped.whole {a b : Rv} (h : Mapped a b) : Whole cfg b p ↔ Whole cfg a p := by
  have hok : ∀ n, b.memOk p n = a.memOk p n := by
    intro n
    rw [memOk, memOk, h.memBase, h.memSize]
  have hin : ∀ n, b.Inside p n ↔ a.Inside p n := by
    intro n
    rw [Inside, Inside, h.memBase, h.memSize]
  have hread : ∀ n, b.Readable p n ↔ a.Readable p n := by
    intro n
    refine ⟨fun hr => ⟨?_, ?_⟩, fun hr => ⟨?_, ?_⟩⟩
    · rw [← hok]
      exact hr.ok
    · exact (hin n).mp hr.inside
    · rw [hok]
      exact hr.ok
    · exact (hin n).mpr hr.inside
  have hhalf : b.halfAt p = a.halfAt p := by
    rw [halfAt, halfAt, offset, offset, h.mem, h.memBase]
  rw [Whole, Whole, hread, hread, hhalf]

theorem Mapped.inRange {a b : Rv} (h : Mapped a b) : b.InRange p ↔ a.InRange p := by
  rw [InRange, InRange, h.memBase, h.memSize]

theorem enterInts_start (rv : Rv) : rv.enterInts.pc = rv.startPc ∧ Mapped rv rv.enterInts := by
  have hint : ∀ cause src, (rv.int cause src false).pc =
      vectorOf rv.csr.mtvec (cause &&& ~~~(1#32 <<< 31)) := by
    intro cause src
    rw [int_eq]
  cases hm : rv.mieSet with
  | false =>
    rw [enterInts_off hm, startPc, hm]
    exact ⟨by simp, rfl, rfl, rfl, rfl⟩
  | true =>
    cases ht : rv.latch.timerIrq with
    | true =>
      rw [enterInts_timer hm ht, startPc, hm, ht, if_pos ⟨rfl, rfl⟩, hint]
      exact ⟨rfl, mapped_int _ _ _⟩
    | false =>
      cases hs : rv.latch.swIrqNext with
      | true =>
        rw [enterInts_sw hm ht hs, startPc, hm, ht, hs, if_neg (by simp), if_pos ⟨rfl, rfl⟩, hint]
        exact ⟨rfl, mapped_int _ _ _⟩
      | false =>
        cases he : rv.latch.extIrqNext with
        | true =>
          rw [enterInts_ext hm ht hs he, startPc, hm, ht, hs, he, if_neg (by simp),
            if_neg (by simp), if_pos ⟨rfl, rfl⟩, hint]
          exact ⟨rfl, mapped_int _ _ _⟩
        | false =>
          rw [enterInts_none ht hs he, startPc, ht, hs, he]
          exact ⟨by simp, rfl, rfl, rfl, rfl⟩

theorem checkPc_good (hr : rv.InRange rv.pc) (ha : PcAligned cfg rv.pc) : rv.checkPc cfg = rv := by
  rw [checkPc, if_neg hr]
  exact if_neg (not_not.mpr ha)

theorem checkPc_align (hr : rv.InRange rv.pc) (ha : ¬ PcAligned cfg rv.pc) :
    rv.checkPc cfg = rv.trap trapInstAlign rv.pc := by
  rw [checkPc, if_neg hr]
  exact if_pos ha

theorem checkPc_range (hr : ¬ rv.InRange rv.pc) : rv.checkPc cfg =
    if PcAligned cfg (vectorOf rv.csr.mtvec trapInstFail) then rv.trap trapInstFail rv.pc
    else (rv.trap trapInstFail rv.pc).trap trapInstAlign (vectorOf rv.csr.mtvec trapInstFail) := by
  rw [checkPc, if_pos (not_not.mp hr)]
  by_cases ha : PcAligned cfg (vectorOf rv.csr.mtvec trapInstFail)
  · rw [if_pos ha]
    exact if_neg (not_not.mpr ha)
  · rw [if_neg ha]
    exact if_pos ha

/-- The checks of the pc send it to the vector of the last one that fails. -/
theorem checkPc_pc (cfg : Config) (rv : Rv) : (rv.checkPc cfg).pc =
    (let p := if rv.InRange rv.pc then rv.pc else vectorOf rv.csr.mtvec trapInstFail
    if PcAligned cfg p then p else vectorOf rv.csr.mtvec trapInstAlign) ∧
      Mapped rv (rv.checkPc cfg) := by
  by_cases hr : rv.InRange rv.pc
  · by_cases ha : PcAligned cfg rv.pc
    · rw [checkPc_good hr ha]
      exact ⟨by simp [hr, ha], rfl, rfl, rfl, rfl⟩
    · rw [checkPc_align hr ha]
      exact ⟨by simp [hr, ha], mapped_trap _ _ _⟩
  · rw [checkPc_range hr]
    by_cases ha : PcAligned cfg (vectorOf rv.csr.mtvec trapInstFail)
    · rw [if_pos ha]
      exact ⟨by simp [hr, ha], mapped_trap _ _ _⟩
    · rw [if_neg ha]
      refine ⟨?_, (mapped_trap _ _ _).trans (mapped_trap _ _ _)⟩
      simp only [hr, ha, if_false]
      rfl

/-- The state the interrupt entries start from. -/
def head (cfg : Config) (rv : Rv) : Rv := { rv with mtimeUpdate := false }.writeRegs cfg 0#5 0#32

@[simp] theorem head_csr (cfg : Config) (rv : Rv) : (rv.head cfg).csr = rv.csr :=
  writeRegs_csr _ _

@[simp] theorem head_latch (cfg : Config) (rv : Rv) : (rv.head cfg).latch = rv.latch :=
  writeRegs_latch _ _

@[simp] theorem head_mieSet (cfg : Config) (rv : Rv) : (rv.head cfg).mieSet = rv.mieSet := by
  rw [mieSet, head_csr, mieSet]

theorem entered (cfg : Config) (rv : Rv) : (rv.head cfg).enterInts.pc = rv.startPc ∧
    Mapped rv (rv.head cfg).enterInts ∧ (rv.head cfg).enterInts.prevPc = rv.prevPc := by
  have hhead : Mapped rv (rv.head cfg) ∧ (rv.head cfg).startPc = rv.startPc ∧
      (rv.head cfg).prevPc = rv.prevPc := by
    unfold head writeRegs
    split <;> exact ⟨⟨rfl, rfl, rfl, rfl⟩, rfl, rfl⟩
  have hint : ∀ (s : Rv) cause src, (s.int cause src false).prevPc = s.prevPc := by
    intro s cause src
    rw [int_eq]
    rfl
  have hprev : (rv.head cfg).enterInts.prevPc = (rv.head cfg).prevPc := by
    simp only [enterInts]
    split_ifs <;> simp only [hint]
  obtain ⟨hpc, hmap⟩ := enterInts_start (rv.head cfg)
  exact ⟨hpc.trans hhead.2.1, hhead.1.trans hmap, hprev.trans hhead.2.2⟩

theorem mapped_settle (cfg : Config) (rv : Rv) : Mapped rv (rv.settle cfg) :=
  (entered cfg rv).2.1.trans (checkPc_pc cfg _).2

theorem settle_pc (cfg : Config) (rv : Rv) : (rv.settle cfg).pc =
    (let p := if rv.InRange rv.startPc then rv.startPc else vectorOf rv.csr.mtvec trapInstFail
    if PcAligned cfg p then p else vectorOf rv.csr.mtvec trapInstAlign) := by
  obtain ⟨hpc, hmap, -⟩ := entered cfg rv
  have h := (checkPc_pc cfg (rv.head cfg).enterInts).1
  rw [hpc, hmap.mtvec] at h
  simp only [hmap.inRange] at h
  exact h

/-! The fetch. -/

theorem Mapped.readMem {a b : Rv} (h : Mapped a b) (n : Word) :
    b.readMem p n = a.readMem p n := by
  rw [Rv.readMem, Rv.readMem, memOk, memOk, offset, offset, h.mem, h.memBase, h.memSize]

theorem readMem_eq_some_iff {n : Word} {b : ℕ → Byte} :
    rv.readMem p n = some b ↔ rv.memOk p n = true ∧ b = fun i : ℕ => rv.mem (rv.offset p + i) := by
  rw [Rv.readMem]
  by_cases h : rv.memOk p n = true
  · rw [if_pos h, Option.some.injEq]
    exact ⟨fun hb => ⟨h, hb.symm⟩, fun hb => hb.2.symm⟩
  · rw [if_neg h]
    exact ⟨fun hb => (by cases hb), fun hb => absurd hb.1 h⟩

theorem compressedDecoder_form (k : BitVec 16) (w : Word) :
    ((compressedDecoder k w).compressed = true ↔ cOp k ≠ 3#2) ∧
      (cOp k = 3#2 → (compressedDecoder k w).inst = w) ∧
      (cOp k ≠ 3#2 → ∀ w', (compressedDecoder k w').inst = (compressedDecoder k w).inst) := by
  by_cases hk : cOp k = 3#2
  · simp [compressedDecoder, hk]
  · refine ⟨?_, fun h => absurd h hk, fun _ w' => ?_⟩
    · simp only [compressedDecoder, hk, if_false]
      split_ifs <;> simp [hk]
    · simp only [compressedDecoder, hk, if_false]

/-- What comes to the switch was fetched in the state `s` after the checks. -/
theorem dispatch_fetch (hd : rv.dispatch cfg host = .ok (d, inst, c)) :
    Mapped (rv.settle cfg) d ∧ d.pc = (rv.settle cfg).pc ∧
      if cfg.rv32c then
        inst = (compressedDecoder ((rv.settle cfg).fetchC host) ((rv.settle cfg).fetch host)).inst ∧
        c = (compressedDecoder ((rv.settle cfg).fetchC host)
          ((rv.settle cfg).fetch host)).compressed
      else inst = (rv.settle cfg).fetch host ∧ c = false := by
  rw [dispatch, prologue] at hd
  generalize rv.settle cfg = s at hd ⊢
  simp only at hd
  split_ifs at hd ⊢
  · rw [expand] at hd
    simp only at hd
    split_ifs at hd <;> cases hd <;> exact ⟨⟨rfl, rfl, rfl, rfl⟩, rfl, rfl, rfl⟩
  · cases hd
    exact ⟨⟨rfl, rfl, rfl, rfl⟩, rfl, rfl, rfl⟩

/-- The word was fetched just when the pc the checks leave is aligned and has its instruction in
memory. -/
theorem fetched_iff_whole (hd : rv.dispatch cfg host = .ok (d, inst, c)) :
    Fetched cfg d inst c ↔ PcAligned cfg (rv.settle cfg).pc ∧
      Whole cfg (rv.settle cfg) (rv.settle cfg).pc := by
  obtain ⟨hmap, hpc, hword⟩ := dispatch_fetch hd
  rw [← hmap.whole, ← hpc]
  have hfetch : ∀ b, d.readMem d.pc 4#32 = some b → (rv.settle cfg).fetch host = wordOfBytes b := by
    intro b hb
    rw [hmap.readMem, hpc] at hb
    rw [fetch, hb]
  have hfetchC : ∀ b, d.readMem d.pc 2#32 = some b → (rv.settle cfg).fetchC host = b 1 ++ b 0 := by
    intro b hb
    rw [hmap.readMem, hpc] at hb
    rw [fetchC, hb]
  have hread : ∀ n : ℕ, d.Readable d.pc n ↔ d.Inside d.pc n ∧
      ∃ b, d.readMem d.pc (BitVec.ofNat 32 n) = some b := by
    intro n
    constructor
    · intro h
      exact ⟨h.inside, _, readMem_eq_some_iff.mpr ⟨h.ok, rfl⟩⟩
    · rintro ⟨hi, b, hb⟩
      exact ⟨(readMem_eq_some_iff.mp hb).1, hi⟩
  cases hc : cfg.rv32c with
  | false =>
    rw [hc, if_neg (by simp)] at hword
    obtain ⟨rfl, rfl⟩ := hword
    rw [Whole, hc, if_neg (by simp)]
    constructor
    · intro h
      obtain ⟨hi, b, hb, -⟩ := h.word rfl
      exact ⟨h.aligned, (hread 4).mpr ⟨hi, b, hb⟩⟩
    · rintro ⟨ha, hr⟩
      obtain ⟨hi, b, hb⟩ := (hread 4).mp hr
      exact ⟨ha, fun _ => ⟨hi, b, hb, hfetch b hb⟩, fun h => by rw [hc] at h; cases h⟩
  | true =>
    rw [hc, if_pos rfl] at hword
    -- the low bits of the halfword tell whether two bytes more are read
    obtain ⟨rfl, rfl⟩ := hword
    rw [Whole, hc, if_pos rfl]
    obtain ⟨hform, hlong, hshort⟩ := compressedDecoder_form ((rv.settle cfg).fetchC host)
      ((rv.settle cfg).fetch host)
    have hhalf : ∀ b, d.readMem d.pc 2#32 = some b → d.halfAt d.pc = b 1 ++ b 0 := by
      intro b hb
      obtain ⟨-, rfl⟩ := readMem_eq_some_iff.mp hb
      simp [halfAt]
    constructor
    · intro h
      obtain ⟨hi, b, hb, hcb, -⟩ := h.half hc
      refine ⟨h.aligned, (hread 2).mpr ⟨hi, b, hb⟩, fun hk => ?_⟩
      rw [hhalf b hb] at hk
      obtain ⟨hi', b', hb', -⟩ := h.word (Bool.eq_false_iff.mpr fun ht => hcb.mp ht hk)
      exact (hread 4).mpr ⟨hi', b', hb'⟩
    · rintro ⟨ha, hr, hr4⟩
      obtain ⟨hi, b, hb⟩ := (hread 2).mp hr
      rw [hhalf b hb] at hr4
      rw [hfetchC b hb] at hform hlong hshort ⊢
      refine ⟨ha, fun hw => ?_, fun _ => ⟨hi, b, hb, hform, fun ht w => hshort (hform.mp ht) w⟩⟩
      have hk : cOp (b 1 ++ b 0) = 3#2 := by
        by_contra hne
        rw [hform.mpr hne] at hw
        cases hw
      obtain ⟨hi', b', hb'⟩ := (hread 4).mp (hr4 hk)
      exact ⟨hi', b', hb', (hlong hk).trans (hfetch b' hb')⟩

theorem vectorOf_even (m off : Word) : (vectorOf m off).toNat % 2 = 0 := by
  rw [vectorOf]
  split
  · have he : (m &&& 0xfffffffe#32).toNat = m.toNat / 2 * 2 := Bits.toNat_clearBit0 m
    rw [BitVec.toNat_add, BitVec.toNat_mul, he]
    simp only [BitVec.toNat_ofNat]
    omega
  · rename_i h
    exact (Bits.and_one_eq_zero m).mp (not_not.mp h)

/-- Bit 1 of `mtvec` misaligns all vectors at once. -/
theorem pcAligned_vectorOf (cfg : Config) (m off : Word) :
    PcAligned cfg (vectorOf m off) ↔ cfg.rv32c = true ∨ m.getLsbD 1 = false := by
  rw [PcAligned]
  cases cfg.rv32c with
  | false =>
    rw [if_neg (by simp), Bits.and_three_eq_zero, vectorOf_aligned]
    simp
  | true =>
    rw [if_pos rfl, Bits.and_one_eq_zero]
    exact iff_of_true (vectorOf_even m off) (Or.inl rfl)

/-- The vector of the first check that fails is where the pc stays, if that vector is aligned. -/
theorem fetchable_iff (cfg : Config) (rv : Rv) : Fetchable cfg rv ↔
    PcAligned cfg (rv.settle cfg).pc ∧ Whole cfg (rv.settle cfg) (rv.settle cfg).pc := by
  rw [(mapped_settle cfg rv).whole, settle_pc, Fetchable]
  by_cases hr : rv.InRange rv.startPc
  · by_cases ha : PcAligned cfg rv.startPc
    · simp [hr, ha]
    · simp [hr, ha]
  · by_cases hv : PcAligned cfg (vectorOf rv.csr.mtvec trapInstFail)
    · simp only [hr, hv, false_and, if_false, if_true]
    · have hv0 : ¬ PcAligned cfg (vectorOf rv.csr.mtvec trapInstAlign) := by
        rw [pcAligned_vectorOf] at hv ⊢
        exact hv
      simp only [hr, hv, hv0, false_and, if_false]

/-- In every run from reset, a step that reaches the switch executes a word it has fetched just
when it starts at a good pc, or at a bad one with a good vector. -/
theorem fetched_iff (cfg : Config) (o : Options) (mem : Int → Byte) (host : ℕ → Host) (n : ℕ)
    (d : Rv) (inst : Word) (c : Bool)
    (hd : (run cfg host (reset cfg o mem) n).dispatch cfg (host n) = .ok (d, inst, c)) :
    Fetched cfg d inst c ↔ Fetchable cfg (run cfg host (reset cfg o mem) n) :=
  (fetched_iff_whole hd).trans (fetchable_iff cfg _).symm

/-- 4 KB of memory from 0 on. -/
def options4k : Options := ⟨2#32, false, false, false, 0#32, 0x1000#32⟩

/-- A host where `inst` holds `addi x1, x0, 1` before the fetch. -/
def staleHost : Host := { Host.none with inst := 0x00100093#32 }

/-- After `lui x1, 0x10000; csrw mtvec, x1; jalr x0, 0(x1)`: the pc and the vector of its range
check lie outside memory. -/
def atLost : Rv := run .rv32im (fun _ => staleHost) (reset .rv32im options4k
  (image [0x100000b7#32, 0x30509073#32, 0x00008067#32])) 3

/-- There the step executes what its variable held. -/
theorem fetched_lost :
    atLost.dispatch .rv32im staleHost =
        .ok ((atLost.prologue .rv32im staleHost).1, 0x00100093#32, false) ∧
      (srv32Step .rv32im staleHost atLost).2.regs 1#5 = 1#32 ∧
      ¬ Fetched .rv32im (atLost.prologue .rv32im staleHost).1 0x00100093#32 false := by
  have hw : (atLost.prologue .rv32im staleHost).2 = 0x00100093#32 := by decide +kernel
  have hd : atLost.dispatch .rv32im staleHost =
      .ok ((atLost.prologue .rv32im staleHost).1, 0x00100093#32, false) := by
    rw [dispatch_rv32im, hw]
  have hno : ¬ Fetchable .rv32im atLost := by decide +kernel
  have hiff := (fetched_iff_whole hd).trans (fetchable_iff .rv32im atLost).symm
  refine ⟨hd, by decide +kernel, ?_⟩
  rw [hiff]
  exact hno

/-- The first instruction was fetched. -/
theorem fetched_first :
    let rv := reset .rv32im options4k (image [0x100000b7#32])
    Fetched .rv32im (rv.prologue .rv32im .none).1 0x100000b7#32 false := by
  intro rv
  have hw : (rv.prologue .rv32im .none).2 = 0x100000b7#32 := by decide +kernel
  refine (fetched_iff .rv32im options4k (image [0x100000b7#32]) (fun _ => .none) 0
    (rv.prologue .rv32im .none).1 0x100000b7#32 false ?_).mpr (by decide +kernel)
  change rv.dispatch .rv32im .none = _
  rw [dispatch_rv32im, hw]

end Srv32.Iss.Rv

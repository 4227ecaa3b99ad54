import Srv32.Data.Walk
import Srv32.Iss.Fetch

/-! What a request to the host does with guest memory. `htif.c` and `syscall.c` have the same
switch; the pointers they pass on are checked for where they begin, not for how far they reach. -/

namespace Srv32.Iss.Rv
open Walk

/-- What an arm of the switch does with guest memory. -/
inductive GuestUse
  | nothing
  /-- The string that `open` is given. -/
  | string (p : Option ℤ)
  /-- The buffer of `n` bytes that `read` or `write` is given. -/
  | buffer (p : Option ℤ) (n : ℕ)
  /-- The loop of SYS_DUMP. -/
  | words (start stop : Option ℤ)
  /-- The loop of SYS_DUMP_BIN. -/
  | bytes (start stop : Option ℤ)
  /-- `exit(1)` ahead of the loop. -/
  | exit

/-- A request, as the store or the ECALL passes it on. -/
inductive Request
  | tohost (htifMem : Word)
  | ecall (func a0 a1 a2 : Word)

variable (rv : Rv) (host : Host)

/-- The arm that `func` selects. The count is a `size_t`: the host refuses what a negative `a2`
becomes. -/
def guestUse (func a0 a1 a2 : Word) : GuestUse :=
  if func = sysOpen then .string (rv.getMemptr a0)
  else if func = sysRead ∨ func = sysWrite then .buffer (rv.getMemptr a1) a2.toInt.toNat
  else if func = sysDump then
    if host.fopen = true ∧ dumpAligned a0 a1 = true then
      .words (rv.getMemptr a0) (rv.getMemptr a1)
    else .exit
  else if func = sysDumpBin then
    if host.fopen = true then .bytes (rv.getMemptr a0) (rv.getMemptr a1) else .exit
  else .nothing

/-- The index of a byte of guest memory. -/
def InArray (i : ℤ) : Prop := 0 ≤ i ∧ i < rv.memSize.toInt

/-- The elements at the addresses from `a0` up to `a1`; none when `a1` lies below. -/
def between {α : Type} (width : ℤ) (elem : ℤ → α) (a0 a1 : Word) : List α :=
  elems width elem (a0.toInt - rv.memBase.toInt) ((a1.toInt - a0.toInt) / width).toNat

/-- No byte outside guest memory is used, and a dump ends with what lies between its bounds. The
host refuses a null pointer. -/
def UseSafe (a0 a1 : Word) : GuestUse → Prop
  | .nothing => True
  | .string p => ∀ s, p = some s →
      ∀ i : ℕ, (∀ j < i, rv.mem (s + (j : ℕ)) ≠ 0#8) → rv.InArray (s + i)
  | .buffer p n => ∀ s, p = some s → ∀ i < n, rv.InArray (s + (i : ℕ))
  | .words start stop => ∃ k, walk rv.memSize.toInt 4 rv.intAt k start stop =
      some (.done (rv.between 4 rv.intAt a0 a1))
  | .bytes start stop => ∃ k, walk rv.memSize.toInt 1 rv.mem k start stop =
      some (.done (rv.between 1 rv.mem a0 a1))
  | .exit => False

def KeepsOutside (rv' : Rv) : Prop := ∀ j, ¬ rv.InArray j → rv'.mem j = rv.mem j

/-- The arm for the request in the block at index `m`. -/
def blockUse (m : ℤ) : GuestUse :=
  rv.guestUse host (rv.intAt m) (rv.intAt (m + 4)) (rv.intAt (m + 8)) (rv.intAt (m + 12))

/-- A request is served inside guest memory, and comes back unless it is SYS_EXIT. For a store to
MMIO_TOHOST this includes the first word of the block, which `memrw` reads for the trace, and the
block, which is not null. -/
def Request.Safe : Request → Prop
  | .ecall func a0 a1 a2 =>
    rv.UseSafe a0 a1 (rv.guestUse host func a0 a1 a2) ∧
      (∀ r, (rv.syscall host func a0 a1 a2).1 = .error r → func = sysExit) ∧
      rv.KeepsOutside (rv.syscall host func a0 a1 a2).2
  | .tohost htifMem =>
    (rv.memOk htifMem 4#32 = true → ∀ i < 4, rv.InArray (rv.offset htifMem + (i : ℕ))) ∧
      ∃ m, rv.getMemptr htifMem = some m ∧ (∀ i < 16, rv.InArray (m + (i : ℕ))) ∧
        rv.UseSafe (rv.intAt (m + 4)) (rv.intAt (m + 8)) (rv.blockUse host m) ∧
        (∀ r, (rv.tohost host htifMem).1 = some r → rv.intAt m = sysExit) ∧
        rv.KeepsOutside (rv.tohost host htifMem).2

/-- `srv32_get_memptr` lets pass the addresses of memory and the one after. -/
def Reach (a : Word) : Prop :=
  rv.memBase.toInt ≤ a.toInt ∧ a.toInt ≤ rv.memBase.toInt + rv.memSize.toInt

instance (a : Word) : Decidable (rv.Reach a) := inferInstanceAs (Decidable (_ ∧ _))

/-- The bounds of a dump that ends: in order when both have a pointer, not ascending when neither
has one. -/
def BoundsOk (a0 a1 : Word) : Prop :=
  (rv.Reach a0 ∧ rv.Reach a1 ∧ a0.toInt ≤ a1.toInt) ∨
    (¬ rv.Reach a0 ∧ ¬ rv.Reach a1 ∧ a1.toInt ≤ a0.toInt)

/-- What the arguments of a request are to satisfy. -/
structure ArgsOk (func a0 a1 a2 : Word) : Prop where
  path : func = sysOpen → rv.Reach a0 →
    ∃ i : ℕ, rv.Inside a0 (i + 1) ∧ rv.mem (a0.toInt - rv.memBase.toInt + i) = 0#8
  buffer : func = sysRead ∨ func = sysWrite → rv.Reach a1 → rv.Inside a1 a2.toInt.toNat
  dump : func = sysDump → (host.fopen = true ∧ dumpAligned a0 a1 = true) ∧ rv.BoundsOk a0 a1
  dumpBin : func = sysDumpBin → host.fopen = true ∧ rv.BoundsOk a0 a1

/-- The block lies in memory, and so does what its words ask for. -/
def Request.Ok : Request → Prop
  | .ecall func a0 a1 a2 => rv.ArgsOk host func a0 a1 a2
  | .tohost htifMem =>
    let m := htifMem.toInt - rv.memBase.toInt
    rv.Inside htifMem 16 ∧ rv.ArgsOk host (rv.intAt m) (rv.intAt (m + 4)) (rv.intAt (m + 8))
      (rv.intAt (m + 12))

variable {rv host} {a a0 a1 a2 func : Word}

theorem reach_iff_inside : rv.Reach a ↔ rv.Inside a 0 := by
  rw [Reach, Inside, Nat.cast_zero, add_zero]

theorem getMemptr_reach (hl : rv.Laid) (h : rv.Reach a) :
    rv.getMemptr a = some (a.toInt - rv.memBase.toInt) := by
  have hno : (a.slt rv.memBase || (rv.memBase + rv.memSize).slt a) = false := by
    simp only [BitVec.slt, Bool.or_eq_false_iff, decide_eq_false_iff_not]
    rw [hl.top_toInt]
    obtain ⟨hlo, hhi⟩ := h
    omega
  rw [getMemptr, hno, if_neg (by decide), (reach_iff_inside.mp h).offset_eq hl]

theorem getMemptr_null (hl : rv.Laid) (h : ¬ rv.Reach a) : rv.getMemptr a = none := by
  have hout : (a.slt rv.memBase || (rv.memBase + rv.memSize).slt a) = true := by
    simp only [BitVec.slt, Bool.or_eq_true, decide_eq_true_eq]
    rw [hl.top_toInt]
    rw [Reach] at h
    omega
  rw [getMemptr, hout, if_pos rfl]

theorem getMemptr_eq_some (hl : rv.Laid) {s : ℤ} :
    rv.getMemptr a = some s ↔ rv.Reach a ∧ s = a.toInt - rv.memBase.toInt := by
  by_cases h : rv.Reach a
  · rw [getMemptr_reach hl h, Option.some.injEq, eq_comm]
    exact ⟨fun hs => ⟨h, hs⟩, fun hs => hs.2⟩
  · rw [getMemptr_null hl h]
    exact ⟨fun hs => absurd hs (by simp), fun hs => absurd hs.1 h⟩

theorem getMemptr_eq_none (hl : rv.Laid) : rv.getMemptr a = none ↔ ¬ rv.Reach a := by
  constructor
  · intro h hr
    rw [getMemptr_reach hl hr] at h
    cases h
  · exact getMemptr_null hl

theorem inside_iff_forall (h : rv.Reach a) (n : ℕ) :
    rv.Inside a n ↔ ∀ i < n, rv.InArray (a.toInt - rv.memBase.toInt + (i : ℕ)) := by
  obtain ⟨hlo, hhi⟩ := h
  constructor
  · intro hi i hlt
    obtain ⟨-, hend⟩ := hi
    constructor <;> omega
  · intro hall
    refine ⟨hlo, ?_⟩
    rcases Nat.eq_zero_or_pos n with rfl | hn
    · rw [Nat.cast_zero, add_zero]
      exact hhi
    · obtain ⟨-, hlast⟩ := hall (n - 1) (by omega)
      omega

/-! The arms. -/

/-- A string ends inside memory exactly when there is a NUL there. -/
theorem string_iff (hl : rv.Laid) : rv.UseSafe a0 a1 (.string (rv.getMemptr a0)) ↔
    (rv.Reach a0 → ∃ i : ℕ, rv.Inside a0 (i + 1) ∧
      rv.mem (a0.toInt - rv.memBase.toInt + i) = 0#8) := by
  constructor
  · intro h hr
    by_contra hno
    rw [not_exists] at hno
    -- no byte of memory ends the string, so that it reaches the index after the last
    have hlong : ∀ i : ℕ, i ≤ rv.memSize.toInt.toNat →
        rv.InArray (a0.toInt - rv.memBase.toInt + i) := by
      intro i
      induction i using Nat.strong_induction_on with
      | _ i ih =>
        intro hi
        refine h _ (getMemptr_reach hl hr) i fun j hj hz => hno j ⟨?_, hz⟩
        obtain ⟨-, hlast⟩ := ih j hj (by omega)
        refine ⟨hr.1, ?_⟩
        push_cast
        omega
    obtain ⟨-, hlast⟩ := hlong rv.memSize.toInt.toNat le_rfl
    have hpos := hl.pos
    have hlo := hr.1
    omega
  · intro h s hs i hbefore
    obtain ⟨hr, rfl⟩ := (getMemptr_eq_some hl).mp hs
    obtain ⟨n, ⟨hlo, hend⟩, hnul⟩ := h hr
    have hle : i ≤ n := by
      by_contra hlt
      exact hbefore n (by omega) hnul
    push_cast at hend
    constructor <;> omega

theorem buffer_iff (hl : rv.Laid) (n : ℕ) :
    rv.UseSafe a0 a1 (.buffer (rv.getMemptr a1) n) ↔ (rv.Reach a1 → rv.Inside a1 n) := by
  constructor
  · intro h hr
    exact (inside_iff_forall hr n).mpr (h _ (getMemptr_reach hl hr))
  · intro h s hs
    obtain ⟨hr, rfl⟩ := (getMemptr_eq_some hl).mp hs
    exact (inside_iff_forall hr n).mp (h hr)

theorem walk_between_iff {α : Type} (hl : rv.Laid) {width : ℤ} (hw : 0 < width) (elem : ℤ → α)
    (hdvd : width ∣ a1.toInt - a0.toInt) :
    (∃ k, walk rv.memSize.toInt width elem k (rv.getMemptr a0) (rv.getMemptr a1) =
      some (.done (rv.between width elem a0 a1))) ↔ rv.BoundsOk a0 a1 := by
  rw [between]
  constructor
  · intro h
    obtain ⟨k, hk⟩ := h
    rcases walk_done hk with ⟨h0, h1, hout⟩ | ⟨i, n, h0, h1, -, -⟩
    · have hlen := congrArg List.length hout
      rw [length_elems, List.length_nil, count_eq_zero_iff hw hdvd] at hlen
      exact Or.inr ⟨(getMemptr_eq_none hl).mp h0, (getMemptr_eq_none hl).mp h1, by omega⟩
    · obtain ⟨hr0, hi⟩ := (getMemptr_eq_some hl).mp h0
      obtain ⟨hr1, hn⟩ := (getMemptr_eq_some hl).mp h1
      have hpos : 0 ≤ (n : ℤ) * width := Int.mul_nonneg (Int.natCast_nonneg n) hw.le
      exact Or.inl ⟨hr0, hr1, by omega⟩
  · intro h
    rcases h with ⟨hr0, hr1, hle⟩ | ⟨hr0, hr1, hle⟩
    · have hmul := count_mul hw hdvd (Int.sub_nonneg_of_le hle)
      have hstop : a1.toInt - rv.memBase.toInt = a0.toInt - rv.memBase.toInt +
          (((a1.toInt - a0.toInt) / width).toNat : ℕ) * width := by
        rw [hmul]
        omega
      refine ⟨((a1.toInt - a0.toInt) / width).toNat + 1, ?_⟩
      rw [getMemptr_reach hl hr0, getMemptr_reach hl hr1, hstop]
      apply walk_ahead hw _ (Nat.lt_succ_self _)
      apply within_of_ends hw
      · have hlo := hr0.1
        omega
      · have hhi := hr1.2
        omega
    · have hzero := (count_eq_zero_iff hw hdvd).mpr (Int.sub_nonpos_of_le hle)
      refine ⟨1, ?_⟩
      rw [getMemptr_null hl hr0, getMemptr_null hl hr1, hzero]
      rfl

theorem aligned_dvd (h : dumpAligned a0 a1 = true) : (4 : ℤ) ∣ a1.toInt - a0.toInt := by
  rw [dumpAligned, Bool.and_eq_true, beq_iff_eq, beq_iff_eq, Bits.and_three_eq_zero,
    Bits.and_three_eq_zero] at h
  obtain ⟨h0, h1⟩ := h
  rw [BitVec.toInt_eq_toNat_cond, BitVec.toInt_eq_toNat_cond]
  split_ifs <;> omega

theorem useSafe_iff (hl : rv.Laid) :
    rv.UseSafe a0 a1 (rv.guestUse host func a0 a1 a2) ↔ rv.ArgsOk host func a0 a1 a2 := by
  rw [guestUse]
  split_ifs with h1 h2 h3 h4 h5 h6
  · rw [string_iff hl]
    have hrw : ¬ (func = sysRead ∨ func = sysWrite) := by
      rw [h1]
      decide
    exact ⟨fun h => ⟨fun _ => h, fun hf => absurd hf hrw,
      fun hf => absurd (h1.symm.trans hf) (by decide),
      fun hf => absurd (h1.symm.trans hf) (by decide)⟩, fun h => h.path h1⟩
  · rw [buffer_iff hl]
    have hd : func ≠ sysDump ∧ func ≠ sysDumpBin := by
      rcases h2 with h2 | h2 <;> rw [h2] <;> decide
    exact ⟨fun h => ⟨fun hf => absurd hf h1, fun _ => h, fun hf => absurd hf hd.1,
      fun hf => absurd hf hd.2⟩, fun h => h.buffer h2⟩
  · rw [UseSafe, walk_between_iff hl (by decide) _ (aligned_dvd h4.2)]
    exact ⟨fun h => ⟨fun hf => absurd hf h1, fun hf => absurd hf h2, fun _ => ⟨h4, h⟩,
      fun hf => absurd (h3.symm.trans hf) (by decide)⟩, fun h => (h.dump h3).2⟩
  · exact iff_of_false id fun h => h4 (h.dump h3).1
  · rw [UseSafe, walk_between_iff hl (by decide) _ (one_dvd _)]
    exact ⟨fun h => ⟨fun hf => absurd hf h1, fun hf => absurd hf h2, fun hf => absurd hf h3,
      fun _ => ⟨h6, h⟩⟩, fun h => (h.dumpBin h5).2⟩
  · exact iff_of_false id fun h => h6 (h.dumpBin h5).1
  · apply iff_of_true trivial
    exact ⟨fun hf => absurd hf h1, fun hf => absurd hf h2, fun hf => absurd hf h3,
      fun hf => absurd hf h5⟩

/-! The same, of `srv32_tohost` and `srv32_syscall` as the steps use them. -/

/-- Behind `dumpEnds` is the loop. -/
theorem dumpEnds_iff_walk {α : Type} (hl : rv.Laid) {width : ℤ} (hw : 0 < width) (elem : ℤ → α)
    (hdvd : width ∣ a1.toInt - a0.toInt) :
    dumpEnds (rv.getMemptr a0) (rv.getMemptr a1) = true ↔
      ∃ k out, walk rv.memSize.toInt width elem k (rv.getMemptr a0) (rv.getMemptr a1) =
        some (.done out) := by
  constructor
  · intro h
    by_cases hr0 : rv.Reach a0
    · by_cases hr1 : rv.Reach a1
      · rw [getMemptr_reach hl hr0, getMemptr_reach hl hr1, dumpEnds, decide_eq_true_eq] at h
        obtain ⟨k, hk⟩ := (walk_between_iff hl hw elem hdvd).mpr (Or.inl ⟨hr0, hr1, by omega⟩)
        exact ⟨k, _, hk⟩
      · rw [getMemptr_reach hl hr0, getMemptr_null hl hr1] at h
        cases h
    · by_cases hr1 : rv.Reach a1
      · rw [getMemptr_null hl hr0, getMemptr_reach hl hr1] at h
        cases h
      · refine ⟨1, [], ?_⟩
        rw [getMemptr_null hl hr0, getMemptr_null hl hr1]
        rfl
  · intro h
    obtain ⟨k, out, hk⟩ := h
    rcases walk_done hk with ⟨h0, h1, -⟩ | ⟨i, n, h0, h1, -, -⟩
    · rw [h0, h1]
      rfl
    · have hpos : 0 ≤ (n : ℤ) * width := Int.mul_nonneg (Int.natCast_nonneg n) hw.le
      rw [h0, h1, dumpEnds, decide_eq_true_eq]
      omega

/-- `read` stores no byte past its buffer. -/
theorem hostRead_mem {fd count : Word} {p : Option ℤ}
    (h : rv.UseSafe a0 a1 (.buffer p count.toInt.toNat)) :
    rv.KeepsOutside (rv.hostRead host fd p count) := by
  intro j hj
  cases p with
  | none => rfl
  | some s =>
    change rv.copyIn s (moved _ count) _ j = rv.mem j
    rw [copyIn]
    apply if_neg
    intro hin
    obtain ⟨hlo, hhi⟩ := hin
    have hle := moved_le (host.sys (.read fd (some s) count)) count
    have hsafe := h s rfl (j - s).toNat (by omega)
    rw [Int.toNat_of_nonneg (by omega), add_sub_cancel] at hsafe
    exact hj hsafe

section Served
variable (hl : rv.Laid) (h : rv.UseSafe a0 a1 (rv.guestUse host func a0 a1 a2))
include hl h

theorem UseSafe.dump (hf : func = sysDump) :
    rv.dump host (dumpAligned a0 a1) a0 a1 = none := by
  rw [useSafe_iff hl] at h
  obtain ⟨⟨ho, ha⟩, hb⟩ := h.dump hf
  obtain ⟨k, hk⟩ := (walk_between_iff hl (by decide) rv.intAt (aligned_dvd ha)).mpr hb
  exact (dump_eq_none _ a0 a1).mpr
    ⟨ho, ha, (dumpEnds_iff_walk hl (by decide) _ (aligned_dvd ha)).mpr ⟨k, _, hk⟩⟩

theorem UseSafe.dumpBin (hf : func = sysDumpBin) : rv.dump host true a0 a1 = none := by
  rw [useSafe_iff hl] at h
  obtain ⟨ho, hb⟩ := h.dumpBin hf
  obtain ⟨k, hk⟩ := (walk_between_iff hl (by decide) rv.mem (one_dvd _)).mpr hb
  exact (dump_eq_none _ a0 a1).mpr
    ⟨ho, rfl, (dumpEnds_iff_walk hl (by decide) _ (one_dvd _)).mpr ⟨k, _, hk⟩⟩

omit hl in
theorem UseSafe.read (hf : func = sysRead) :
    rv.KeepsOutside (rv.hostRead host a0 (rv.getMemptr a1) a2) := by
  rw [guestUse, if_neg (by rw [hf]; decide), if_pos (Or.inl hf)] at h
  exact hostRead_mem h

theorem safe_syscall :
    (∀ r, (rv.syscall host func a0 a1 a2).1 = .error r → func = sysExit) ∧
      rv.KeepsOutside (rv.syscall host func a0 a1 a2).2 := by
  simp only [syscall]
  split_ifs with hopen hclose hseek hexit hread hwrite hdump hbin
  iterate 3 exact ⟨fun r hr => (by cases hr), fun _ _ => rfl⟩
  · exact ⟨fun _ _ => hexit, fun _ _ => rfl⟩
  · exact ⟨fun r hr => (by cases hr), h.read hread⟩
  · exact ⟨fun r hr => (by cases hr), fun _ _ => rfl⟩
  · rw [UseSafe.dump hl h hdump]
    exact ⟨fun r hr => (by cases hr), fun _ _ => rfl⟩
  · rw [UseSafe.dumpBin hl h hbin]
    exact ⟨fun r hr => (by cases hr), fun _ _ => rfl⟩
  · exact ⟨fun r hr => (by cases hr), fun _ _ => rfl⟩

end Served

theorem safe_tohost {htifMem : Word} {m : ℤ} (hl : rv.Laid) (hm : rv.getMemptr htifMem = some m)
    (h : rv.UseSafe (rv.intAt (m + 4)) (rv.intAt (m + 8)) (rv.blockUse host m)) :
    (∀ r, (rv.tohost host htifMem).1 = some r → rv.intAt m = sysExit) ∧
      rv.KeepsOutside (rv.tohost host htifMem).2 := by
  rw [blockUse] at h
  rw [tohost, hm]
  simp only
  split_ifs with hopen hclose hseek hexit hread hwrite hdump hbin
  iterate 3 exact ⟨fun r hr => (by cases hr), fun _ _ => rfl⟩
  · exact ⟨fun _ _ => hexit, fun _ _ => rfl⟩
  · exact ⟨fun r hr => (by cases hr), h.read hread⟩
  · exact ⟨fun r hr => (by cases hr), fun _ _ => rfl⟩
  · rw [UseSafe.dump hl h hdump]
    exact ⟨fun r hr => (by cases hr), fun _ _ => rfl⟩
  · rw [UseSafe.dumpBin hl h hbin]
    exact ⟨fun r hr => (by cases hr), fun _ _ => rfl⟩
  · exact ⟨fun r hr => (by cases hr), fun _ _ => rfl⟩

end Srv32.Iss.Rv

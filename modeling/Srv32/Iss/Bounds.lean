import Srv32.Iss.Settle

/-! The bound check of `srv32_read_mem` and `srv32_write_mem`, in `int32_t` arithmetic, against
the bounds of guest memory in the integers. -/

namespace Srv32.Bits

/-- The signed sum, with its one wrap upwards. -/
theorem toInt_add_of_nonneg (a n : BitVec 32) (hn : 0 ≤ n.toInt) :
    (a + n).toInt = if a.toInt + n.toInt < 2 ^ 31 then a.toInt + n.toInt
      else a.toInt + n.toInt - 2 ^ 32 := by
  have ha := BitVec.toInt_lt (x := a)
  have ha' := BitVec.le_toInt (x := a)
  have hn' := BitVec.toInt_lt (x := n)
  rw [BitVec.toInt_add, Int.bmod_eq_emod]
  split <;> split <;> omega

end Srv32.Bits

namespace Srv32.Iss.Rv

/-- `mem_base + mem_size` is an `int32_t`, and there is some memory. -/
structure Laid (rv : Rv) : Prop where
  pos : 0 < rv.memSize.toInt
  top : rv.memBase.toInt + rv.memSize.toInt < 2 ^ 31

/-- The `n` bytes at `a` lie in memory. -/
def Inside (rv : Rv) (a : Word) (n : ℕ) : Prop :=
  rv.memBase.toInt ≤ a.toInt ∧ a.toInt + n ≤ rv.memBase.toInt + rv.memSize.toInt

instance (rv : Rv) (a : Word) (n : ℕ) : Decidable (rv.Inside a n) :=
  inferInstanceAs (Decidable (_ ∧ _))

/-- `addr + len` wraps to a value the check lets pass. -/
def Wraps (rv : Rv) (a len : Word) : Prop :=
  rv.memBase.toInt ≤ a.toInt ∧ 2 ^ 31 ≤ a.toInt + len.toInt ∧
    a.toInt + len.toInt - 2 ^ 32 ≤ rv.memBase.toInt + rv.memSize.toInt

instance (rv : Rv) (a len : Word) : Decidable (rv.Wraps a len) :=
  inferInstanceAs (Decidable (_ ∧ _ ∧ _))

variable {rv : Rv} {a len : Word}

theorem Laid.top_toInt (h : rv.Laid) :
    (rv.memBase + rv.memSize).toInt = rv.memBase.toInt + rv.memSize.toInt := by
  rw [Bits.toInt_add_of_nonneg _ _ h.pos.le, if_pos h.top]

theorem toNat_of_nonneg {n : Word} (hn : 0 ≤ n.toInt) : (n.toNat : ℤ) = n.toInt := by
  have h : n.msb = false := by
    rw [BitVec.msb_eq_toInt, decide_eq_false_iff_not]
    omega
  rw [BitVec.toInt_eq_toNat_of_msb h]

/-- The check passes inside memory, and when the sum wraps. -/
theorem memOk_eq (h : rv.Laid) (hn : 0 ≤ len.toInt) :
    rv.memOk a len = true ↔ rv.Inside a len.toNat ∨ rv.Wraps a len := by
  have hs := Bits.toInt_add_of_nonneg a len hn
  have ha := BitVec.toInt_lt (x := a)
  have htop := h.top
  rw [memOk, Inside, Wraps, toNat_of_nonneg hn]
  simp only [BitVec.slt, Bool.not_eq_true', Bool.or_eq_false_iff, decide_eq_false_iff_not]
  rw [h.top_toInt, hs]
  split <;> omega

theorem memOk_iff_inside (h : rv.Laid) (hn : 0 ≤ len.toInt)
    (hw : a.toInt + len.toInt < 2 ^ 31) : rv.memOk a len = true ↔ rv.Inside a len.toNat := by
  rw [memOk_eq h hn, or_iff_left]
  rintro ⟨-, hwrap, -⟩
  omega

/-- Inside memory the index is the distance from the base. -/
theorem Inside.offset_eq (h : rv.Laid) {n : ℕ} (hi : rv.Inside a n) :
    rv.offset a = a.toInt - rv.memBase.toInt := by
  have := h.top
  have := BitVec.le_toInt (x := rv.memBase)
  have := BitVec.toInt_lt (x := rv.memSize)
  obtain ⟨hlo, hhi⟩ := hi
  rw [offset, BitVec.toInt_sub, Int.bmod_eq_of_le (by omega) (by omega)]

/-- What `srv32_read_mem` and `srv32_write_mem` are for: they succeed exactly on the bytes of
guest memory, copy those bytes and no others, and use no index outside the array. -/
structure MemSafe (rv : Rv) (a len : Word) : Prop where
  read_iff : (rv.readMem a len).isSome = true ↔ rv.Inside a len.toNat
  write_iff : ∀ src, (rv.writeMem a len src).isSome = true ↔ rv.Inside a len.toNat
  index : rv.memOk a len = true → ∀ i < len.toNat,
    0 ≤ rv.offset a + i ∧ rv.offset a + i < rv.memSize.toInt
  read : ∀ b, rv.readMem a len = some b → ∀ i < len.toNat,
    b i = rv.mem (a.toInt - rv.memBase.toInt + i)
  write : ∀ src rv', rv.writeMem a len src = some rv' → rv' = { rv with mem := rv'.mem } ∧
    ∀ j, rv'.mem j = if a.toInt - rv.memBase.toInt ≤ j ∧
        j < a.toInt - rv.memBase.toInt + len.toNat
      then src (j - (a.toInt - rv.memBase.toInt)).toNat else rv.mem j

theorem readMem_isSome : (rv.readMem a len).isSome = rv.memOk a len := by
  rw [readMem]
  cases rv.memOk a len <;> rfl

theorem writeMem_isSome (src : ℕ → Byte) : (rv.writeMem a len src).isSome = rv.memOk a len := by
  rw [writeMem]
  cases rv.memOk a len <;> rfl

/-- The two functions are safe exactly when no wrapped sum passes their check. -/
theorem memSafe_iff (h : rv.Laid) (hn : 0 ≤ len.toInt) :
    MemSafe rv a len ↔ ¬ rv.Wraps a len := by
  have hlen := toNat_of_nonneg hn
  constructor
  · intro hs hw
    obtain ⟨hlo, hhi⟩ := hs.read_iff.mp <| by
      rw [readMem_isSome, memOk_eq h hn]
      exact Or.inr hw
    have := h.top
    have := hw.2.1
    omega
  · intro hw
    have hok : rv.memOk a len = true ↔ rv.Inside a len.toNat := by
      rw [memOk_eq h hn, or_iff_left hw]
    refine ⟨by rw [readMem_isSome, hok], fun src => by rw [writeMem_isSome, hok], ?_, ?_, ?_⟩
    · intro hi i hlt
      have hin := hok.mp hi
      rw [hin.offset_eq h]
      obtain ⟨hlo, hhi⟩ := hin
      omega
    · intro b hb i hlt
      have hi : rv.memOk a len = true := by
        rw [← readMem_isSome, hb]
        rfl
      rw [readMem, if_pos hi, (hok.mp hi).offset_eq h] at hb
      cases hb
      rfl
    · intro src rv' hb
      have hi : rv.memOk a len = true := by
        rw [← writeMem_isSome src, hb]
        rfl
      rw [writeMem, if_pos hi, (hok.mp hi).offset_eq h] at hb
      cases hb
      refine ⟨rfl, fun j => ?_⟩
      rw [hlen]
      rfl

end Srv32.Iss.Rv

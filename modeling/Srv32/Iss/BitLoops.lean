import Srv32.Iss.Step
import Srv32.Data.BitCount
import Srv32.Data.Carryless

/-! The loops and searches of the bit-manipulation arms: CLZ, CTZ and CPOP count what their names
say, and the carry-less multiplies are slices of one product. -/

namespace Srv32.Iss
open BitCount Rv

/-- One round of CLZ's search: a test for `k` leading zeros, with the count in `r`. -/
def clzRound (mask : Word) (k : ℕ) (p : Word × Word) : Word × Word :=
  if p.1 &&& mask = 0#32 then (p.1 <<< k, p.2 + BitVec.ofNat 32 k) else p

/-- The state of the search for `x`: fewer than `n` leading zeros are left to count. -/
structure Search (x : Word) (n : ℕ) (p : Word × Word) : Prop where
  ne : p.1 ≠ 0#32
  lt : leadingZeros p.1 < n
  sum : p.2 + BitVec.ofNat 32 (leadingZeros p.1) = BitVec.ofNat 32 (leadingZeros x)

variable {x : Word}

theorem Search.start (hx : x ≠ 0#32) : Search x 32 (x, 0#32) :=
  ⟨hx, leadingZeros_lt hx, BitVec.zero_add _⟩

theorem Search.round {n : ℕ} {p : Word × Word} (h : Search x n p) (k : ℕ) (mask : Word)
    (hn : n = 2 * k) (hk : k ≤ 32) (hm : mask = BitVec.allOnes 32 <<< (32 - k)) :
    Search x k (clzRound mask k p) := by
  rw [clzRound]
  by_cases hz : p.1 &&& mask = 0#32
  · have hle : k ≤ leadingZeros p.1 := (and_topMask_eq_zero hk).mp (hm ▸ hz)
    have hlen := leadingZeros_shiftLeft h.ne hle
    have hlt := h.lt
    rw [if_pos hz]
    refine ⟨shiftLeft_ne_zero h.ne hle, ?_, ?_⟩
    · change leadingZeros (p.1 <<< k) < k
      omega
    · change p.2 + BitVec.ofNat 32 k + BitVec.ofNat 32 (leadingZeros (p.1 <<< k)) = _
      rw [hlen, BitVec.add_assoc, ← BitVec.ofNat_add, Nat.add_sub_cancel' hle]
      exact h.sum
  · have hlt : ¬ k ≤ leadingZeros p.1 := fun hle => hz (hm ▸ (and_topMask_eq_zero hk).mpr hle)
    rw [if_neg hz]
    exact ⟨h.ne, by omega, h.sum⟩

/-- Five rounds leave nothing to count. -/
theorem clz_eq (x : Word) : clz x = BitVec.ofNat 32 (leadingZeros x) := by
  by_cases hx : x = 0#32
  · subst hx
    rw [leadingZeros_zero]
    rfl
  · have h16 : Search x 16 (clzRound 0xffff0000#32 16 (x, 0#32)) :=
      (Search.start hx).round 16 _ (by omega) (by omega) (by decide)
    have h8 := h16.round 8 0xff000000#32 (by omega) (by omega) (by decide)
    have h4 := h8.round 4 0xf0000000#32 (by omega) (by omega) (by decide)
    have h2 := h4.round 2 0xc0000000#32 (by omega) (by omega) (by decide)
    have h1 := h2.round 1 0x80000000#32 (by omega) (by omega) (by decide)
    have hsum := h1.sum
    rw [Nat.lt_one_iff.mp h1.lt, BitVec.add_zero] at hsum
    -- the last round of the source keeps the count only
    rw [← hsum, clz, if_neg hx, clzRound, apply_ite Prod.snd]
    rfl

/-! The table of CTZ is indexed by the top five bits of a de Bruijn product. -/

/-- Every power of two hits its own entry. -/
theorem ctzTable_twoPow : ∀ t : Fin 32,
    ctzTable.getD ((BitVec.twoPow 32 t * 0x077CB531#32) >>> 27).toNat 0 = t := by
  decide

theorem ctz_eq (x : Word) : ctz x = BitVec.ofNat 32 (trailingZeros x) := by
  by_cases hx : x = 0#32
  · subst hx
    rw [trailingZeros_zero]
    rfl
  · have ht := ctzTable_twoPow ⟨trailingZeros x, trailingZeros_lt hx⟩
    rw [ctz, if_neg hx, and_neg hx, ht]

theorem cpopLoop_eq (n c : Word) : cpopLoop n c = c + BitVec.ofNat 32 (ones n) := by
  -- by induction on the rounds left, one for each set bit
  generalize hk : ones n = k
  induction k generalizing n c with
  | zero => rw [cpopLoop, if_pos (ones_eq_zero_iff.mp hk), BitVec.add_zero]
  | succ k ih =>
    have hn : n ≠ 0#32 := by
      rintro rfl
      simp at hk
    have hrest : ones (n &&& (n - 1#32)) = k := by
      have := ones_clearLow hn
      rw [clearLow] at this
      omega
    rw [cpopLoop, if_neg hn, ih _ _ hrest, BitVec.add_assoc, ← BitVec.ofNat_add, Nat.add_comm 1 k]

theorem toNat_count {k : ℕ} (hk : k ≤ 32) : (BitVec.ofNat 32 k).toNat = k := by
  rw [BitVec.toNat_ofNat]
  omega

variable {cfg : Config} {host : Host} {rv : Rv} {inst : Word} {compressed : Bool}

theorem exec_count (hb : cfg.rv32b = true) (ho : opcode inst = opArithI)
    (h3 : func3 inst = opSll) (h7 : func7 inst = fnClz) {v : Word}
    (hv : rs2 inst = 0#5 ∧ v = clz (rv.readRegs cfg (rs1 inst)) ∨
      rs2 inst = 1#5 ∧ v = ctz (rv.readRegs cfg (rs1 inst)) ∨
      rs2 inst = 2#5 ∧ v = cpopLoop (rv.readRegs cfg (rs1 inst)) 0#32) :
    rv.exec cfg inst host compressed = .brk (rv.writeRegs cfg (rd inst) v) := by
  have harith : rv.arithI cfg inst = some v := by
    rcases hv with ⟨h2, rfl⟩ | ⟨h2, rfl⟩ | ⟨h2, rfl⟩ <;> simp [arithI, h3, h7, hb, h2]
  simp [exec, ho, harith, writeRd]

/-- CLZ, CTZ and CPOP write the leading zeros, the trailing zeros and the ones of their operand,
and CPOP's loop is at zero after as many rounds as it counts, and not before. -/
theorem bit_counts (x : Word) :
    (clz x).toNat = leadingZeros x ∧ (ctz x).toNat = trailingZeros x ∧
      (cpopLoop x 0#32).toNat = ones x ∧
      (∀ k ≤ ones x, (fun n : Word => n &&& (n - 1#32))^[k] x = 0#32 ↔ k = ones x) ∧
      ∀ (cfg : Config) (host : Host) (rv : Rv) (inst : Word) (compressed : Bool),
        cfg.rv32b = true → opcode inst = opArithI → func3 inst = opSll → func7 inst = fnClz →
        rv.readRegs cfg (rs1 inst) = x →
          (rs2 inst = 0#5 → rv.exec cfg inst host compressed =
            .brk (rv.writeRegs cfg (rd inst) (clz x))) ∧
          (rs2 inst = 1#5 → rv.exec cfg inst host compressed =
            .brk (rv.writeRegs cfg (rd inst) (ctz x))) ∧
          (rs2 inst = 2#5 → rv.exec cfg inst host compressed =
            .brk (rv.writeRegs cfg (rd inst) (cpopLoop x 0#32))) := by
  refine ⟨?_, ?_, ?_, ?_, ?_⟩
  · rw [clz_eq, toNat_count (leadingZeros_le x)]
  · rw [ctz_eq, toNat_count (trailingZeros_le x)]
  · rw [cpopLoop_eq, BitVec.zero_add, toNat_count (ones_le x)]
  · exact fun k hk => iterate_eq_zero_iff x hk
  · intro cfg host rv inst compressed hb ho h3 h7 hx
    subst hx
    refine ⟨fun h2 => ?_, fun h2 => ?_, fun h2 => ?_⟩
    · exact exec_count hb ho h3 h7 (.inl ⟨h2, rfl⟩)
    · exact exec_count hb ho h3 h7 (.inr (.inl ⟨h2, rfl⟩))
    · exact exec_count hb ho h3 h7 (.inr (.inr ⟨h2, rfl⟩))

/-- CPOP of the least integer. -/
theorem bit_counts_intMin :
    let cfg : Config := ⟨true, false, true, false⟩
    let rv := { boot cfg 1 fun _ => 0#8 with regs := fun _ => 0x80000000#32 }
    (cpopLoop 0x80000000#32 0#32).toNat = 1 ∧
      rv.exec cfg 0x60211093#32 .none false =
        .brk (rv.writeRegs cfg 1#5 (cpopLoop 0x80000000#32 0#32)) := by
  intro cfg rv
  obtain ⟨-, -, hones, -, hexec⟩ := bit_counts 0x80000000#32
  have harm := hexec cfg .none rv 0x60211093#32 false rfl rfl rfl rfl rfl
  exact ⟨hones.trans (by decide), harm.2.2 rfl⟩

/-! CLMUL, CLMULH and CLMULR are three slices of one product. -/

section Clmul
open Carryless

theorem clmulLoop_eq (is : List ℕ) (b : Word) (term : ℕ → Word) :
    clmulLoop is b term = xorLoop is b term := rfl

/-- A loop whose rounds add the bits of `a` that belong to them is the slice of the product from
`off` on. -/
theorem clmulLoop_slice {is : List ℕ} {a b : Word} (term : ℕ → Word) (off : ℕ) (hnd : is.Nodup)
    (hsub : ∀ i ∈ is, i < 32)
    (hterm : ∀ i ∈ is, ∀ j < 32, (term i).getLsbD j = shifted a i (off + j))
    (hrest : ∀ i < 32, i ∉ is → ∀ j < 32, shifted a i (off + j) = false) :
    clmulLoop is b term = (product a b).extractLsb' off 32 := by
  apply BitVec.eq_of_getLsbD_eq
  intro j hj
  apply bit_injective
  rw [clmulLoop_eq, BitVec.getLsbD_extractLsb', decide_eq_true hj, Bool.true_and, bit_product]
  apply xorLoop_slice term off j hnd hsub
  · exact fun i hi => hterm i hi j hj
  · exact fun i hi hni => hrest i hi hni j hj

theorem clmul_eq (a b : Word) :
    clmulLoop (List.range 32) b (fun i => a <<< i) = (product a b).extractLsb' 0 32 := by
  apply clmulLoop_slice _ 0 List.nodup_range
  · exact fun i hi => List.mem_range.mp hi
  · intro i _ j hj
    rw [shifted, BitVec.getLsbD_shiftLeft, Nat.zero_add]
    by_cases h : i ≤ j
    · simp [h, hj, Nat.not_lt.mpr h]
    · simp [h, Nat.lt_of_not_le h]
  · exact fun i hi hni => absurd (List.mem_range.mpr hi) hni

/-- The loop starts at 1: bit 0 of `b` adds nothing above bit 31. -/
theorem clmulh_eq (a b : Word) :
    clmulLoop (List.range' 1 31) b (fun i => a >>> (32 - i)) =
      (product a b).extractLsb' 32 32 := by
  apply clmulLoop_slice _ 32 List.nodup_range'
  · intro i hi
    have := List.mem_range'_1.mp hi
    omega
  · intro i hi j hj
    have := List.mem_range'_1.mp hi
    rw [shifted, BitVec.getLsbD_ushiftRight, decide_eq_true (by omega), Bool.true_and]
    congr 1
    omega
  · intro i hi hni j hj
    have hzero : i = 0 := by
      by_contra h
      exact hni (List.mem_range'_1.mpr ⟨by omega, by omega⟩)
    rw [hzero, shifted, BitVec.getLsbD_of_ge a _ (by omega), Bool.and_false]

theorem clmulr_eq (a b : Word) :
    clmulLoop (List.range 32) b (fun i => a >>> (32 - i - 1)) =
      (product a b).extractLsb' 31 32 := by
  apply clmulLoop_slice _ 31 List.nodup_range
  · exact fun i hi => List.mem_range.mp hi
  · intro i hi j hj
    have := List.mem_range.mp hi
    rw [shifted, BitVec.getLsbD_ushiftRight, decide_eq_true (by omega), Bool.true_and]
    congr 1
    omega
  · exact fun i hi hni => absurd (List.mem_range.mpr hi) hni

/-- The two halves put the product together again. -/
theorem product_of_halves {a b a' b' : Word}
    (hlo : (product a b).extractLsb' 0 32 = (product a' b').extractLsb' 0 32)
    (hhi : (product a b).extractLsb' 32 32 = (product a' b').extractLsb' 32 32) :
    product a b = product a' b' := by
  apply BitVec.eq_of_getLsbD_eq
  intro i hi
  by_cases h : i < 32
  · have hbit := congrArg (fun x => x.getLsbD i) hlo
    simpa [h] using hbit
  · have hbit := congrArg (fun x => x.getLsbD (i - 32)) hhi
    have hlt : i - 32 < 32 := by omega
    have hadd : 32 + (i - 32) = i := by omega
    simpa [hlt, hadd] using hbit

/-- The arms of the three instructions, with the product of their operands. -/
theorem arithMinmax_clmul (a b : Word) :
    arithMinmax opClmul a b = some ((product a b).extractLsb' 0 32) ∧
      arithMinmax opClmulh a b = some ((product a b).extractLsb' 32 32) ∧
      arithMinmax opClmulr a b = some ((product a b).extractLsb' 31 32) := by
  refine ⟨?_, ?_, ?_⟩
  · rw [← clmul_eq]
    rfl
  · rw [← clmulh_eq]
    rfl
  · rw [← clmulr_eq]
    rfl

theorem exec_minmax (hb : cfg.rv32b = true) (ho : opcode inst = opArithR)
    (h7 : func7 inst = fnMinmax) :
    rv.exec cfg inst host compressed = rv.writeRd cfg inst
      (arithMinmax (func3 inst) (rv.readRegs cfg (rs1 inst)) (rv.readRegs cfg (rs2 inst))) := by
  have harith : rv.arithR cfg inst =
      arithMinmax (func3 inst) (rv.readRegs cfg (rs1 inst)) (rv.readRegs cfg (rs2 inst)) := by
    simp [arithR, arithB, h7, hb]
  simp [exec, ho, harith]

/-- CLMUL, CLMULH and CLMULR write bits 31 to 0, 63 to 32 and 62 to 31 of the product of their
operands as polynomials over GF(2). The first two determine it, and all three commute. -/
theorem clmul_slices (a b : Word) :
    (∃! P : BitVec 63, poly P = poly a * poly b ∧
      arithMinmax opClmul a b = some (P.extractLsb' 0 32) ∧
      arithMinmax opClmulh a b = some (P.extractLsb' 32 32) ∧
      arithMinmax opClmulr a b = some (P.extractLsb' 31 32)) ∧
    (∀ a' b' : Word, arithMinmax opClmul a b = arithMinmax opClmul a' b' →
      arithMinmax opClmulh a b = arithMinmax opClmulh a' b' →
        poly a * poly b = poly a' * poly b') ∧
    (∀ op, op = opClmul ∨ op = opClmulh ∨ op = opClmulr →
      arithMinmax op a b = arithMinmax op b a) ∧
    ∀ (cfg : Config) (host : Host) (rv : Rv) (inst : Word) (compressed : Bool),
      cfg.rv32b = true → opcode inst = opArithR → func7 inst = fnMinmax →
      rv.readRegs cfg (rs1 inst) = a → rv.readRegs cfg (rs2 inst) = b →
        rv.exec cfg inst host compressed =
          rv.writeRd cfg inst (arithMinmax (func3 inst) a b) := by
  obtain ⟨hlo, hhi, hre⟩ := arithMinmax_clmul a b
  refine ⟨⟨product a b, ⟨poly_product a b, hlo, hhi, hre⟩, ?_⟩, ?_, ?_, ?_⟩
  · intro P hP
    apply poly_injective
    rw [hP.1, poly_product]
  · intro a' b' heq heqh
    obtain ⟨hlo', hhi', -⟩ := arithMinmax_clmul a' b'
    rw [hlo, hlo'] at heq
    rw [hhi, hhi'] at heqh
    rw [← poly_product, ← poly_product,
      product_of_halves (Option.some.inj heq) (Option.some.inj heqh)]
  · intro op hop
    obtain ⟨hlo', hhi', hre'⟩ := arithMinmax_clmul b a
    rcases hop with rfl | rfl | rfl
    · rw [hlo, hlo', product_comm]
    · rw [hhi, hhi', product_comm]
    · rw [hre, hre', product_comm]
  · intro cfg host rv inst compressed hb ho h7 ha hbb
    subst ha hbb
    exact exec_minmax hb ho h7

/-- The square of `x ^ 31 + 1`: `clmul x1, x2, x2`. -/
theorem clmul_slices_square :
    let cfg : Config := ⟨true, false, true, false⟩
    let rv := { boot cfg 1 fun _ => 0#8 with regs := fun _ => 0x80000001#32 }
    rv.exec cfg 0x0a2110b3#32 .none false = .brk (rv.writeRegs cfg 1#5 1#32) ∧
      ∃ P : BitVec 63, poly P = poly 0x80000001#32 * poly 0x80000001#32 ∧
        P.extractLsb' 32 32 = 0x40000000#32 := by
  intro cfg rv
  obtain ⟨⟨P, ⟨hP, -, hhi, -⟩, -⟩, -, -, hexec⟩ := clmul_slices 0x80000001#32 0x80000001#32
  have harm := hexec cfg .none rv 0x0a2110b3#32 false rfl rfl rfl rfl rfl
  have hop : func3 0x0a2110b3#32 = opClmul := by decide
  have hval : arithMinmax opClmul 0x80000001#32 0x80000001#32 = some 1#32 := by decide
  have hvalh : arithMinmax opClmulh 0x80000001#32 0x80000001#32 = some 0x40000000#32 := by decide
  rw [hop, hval] at harm
  exact ⟨harm, P, hP, Option.some.inj (hhi.symm.trans hvalh)⟩

end Clmul

end Srv32.Iss

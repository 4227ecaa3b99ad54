import Srv32.Iss.Data
import Srv32.Refine.Legality
import Srv32.Rtl.Memory

/-! Guest memory against the instruction and data RAM of the board. -/

namespace Srv32.Rtl

open Iss (byteOfWord)

theorem Mem2ports.index_of_lt {size : ℕ} (h4 : size % 4 = 0) {a : BitVec 30}
    (ha : 4 * a.toNat < size) : index size a = a.toNat := by
  have hle : size / 4 ≤ 2 ^ addrw size := Nat.le_pow_clog (by decide) _
  rw [index, Nat.mod_eq_of_lt]
  omega

theorem extractWord (a : Word) : (a.extractLsb' 2 30).toNat = a.toNat / 4 := by
  have := a.isLt
  simp only [BitVec.extractLsb'_toNat, Nat.shiftRight_eq_div_pow]
  omega

theorem ramSize_mod (memsize : ℕ) : ramSize memsize % 4 = 0 := by
  unfold ramSize
  omega

theorem index_iram {memsize : ℕ} {a : Word} (ha : a.toNat < ramSize memsize) :
    Mem2ports.index (ramSize memsize) (a.extractLsb' 2 30) = a.toNat / 4 := by
  rw [Mem2ports.index_of_lt (ramSize_mod memsize), extractWord]
  rw [extractWord]
  omega

theorem index_dram {memsize : ℕ} (hm : memsize < 2 ^ 20) {a : Word}
    (hlo : ramSize memsize ≤ a.toNat) (hhi : a.toNat < 2 * ramSize memsize) :
    Mem2ports.index (ramSize memsize) (dramIndex memsize a) = (a.toNat - ramSize memsize) / 4 := by
  have h4 := ramSize_mod memsize
  have hr : ramSize memsize < 2 ^ 30 := by
    unfold ramSize
    omega
  have hd : (dramIndex memsize a).toNat = (a.toNat - ramSize memsize) / 4 := by
    rw [dramIndex, BitVec.toNat_sub, extractWord, BitVec.toNat_ofNat,
      Nat.mod_eq_of_lt (a := ramSize memsize / 4) (by omega)]
    omega
  rw [Mem2ports.index_of_lt h4, hd]
  rw [hd]
  omega

/-- The lanes a write selects take the new byte. -/
theorem byteOfWord_mergeBytes (strb : BitVec 4) (old new : Word) {j : ℕ} (hj : j < 4) :
    byteOfWord (mergeBytes strb old new) j =
      if strb.getLsbD j then byteOfWord new j else byteOfWord old j := by
  apply BitVec.eq_of_getLsbD_eq
  intro i hi
  simp only [byteOfWord, mergeBytes, BitVec.getLsbD_extractLsb', BitVec.getLsbD_append, hi,
    decide_true, Bool.true_and]
  rcases (by omega : j = 0 ∨ j = 1 ∨ j = 2 ∨ j = 3) with rfl | rfl | rfl | rfl
  · rw [if_pos (by omega)]
    cases strb.getLsbD 0 <;> simp [hi]
  · rw [if_neg (by omega), if_pos (by omega), show 8 * 1 + i - 8 = i by omega]
  · rw [if_neg (by omega), if_neg (by omega), if_pos (by omega),
      show 8 * 2 + i - 8 - 8 = i by omega]
  · rw [if_neg (by omega), if_neg (by omega), if_neg (by omega),
      show 8 * 3 + i - 8 - 8 - 8 = i by omega]

end Srv32.Rtl

namespace Srv32.Refine

open Iss (Rv Host byteOfWord wordOfBytes)
open Iss.Rv (width lowBytes loadExtend)
open Rtl (Slot ramSize Mem2ports mergeBytes loadData)

/-- The RAMs of the board hold guest memory: the program in the lower half, the data above. -/
structure SameMem (memsize : ℕ) (prog data : ℕ → Word) (mem : ℤ → Byte) : Prop where
  prog : ∀ a < ramSize memsize, mem (a : ℕ) = byteOfWord (prog (a / 4)) (a % 4)
  data : ∀ a < ramSize memsize, mem (ramSize memsize + a : ℕ) = byteOfWord (data (a / 4)) (a % 4)

/-- The simulator's memory spans both RAMs. -/
structure Mapped (memsize : ℕ) (rv : Rv) : Prop where
  memBase : rv.memBase = 0#32
  memSize : rv.memSize = BitVec.ofNat 32 (memsize * 2 * 1024)
  small : memsize < 2 ^ 20

theorem Mapped.based {memsize : ℕ} {rv : Rv} (h : Mapped memsize rv) :
    rv.Based (2 * ramSize memsize) := by
  have := h.small
  refine ⟨h.memBase, ?_, ?_⟩
  · rw [h.memSize]
    congr 1
    unfold ramSize
    omega
  · unfold ramSize
    omega

variable {memsize : ℕ} {prog data : ℕ → Word} {rv : Rv} {host : Host}

/-- An image of words, split over the two RAMs. -/
theorem sameMem_image (ws : List Word) :
    SameMem memsize (fun i => ws.getD i 0#32) (fun i => ws.getD (ramSize memsize / 4 + i) 0#32)
      (Iss.image ws) := by
  have h4 := Rtl.ramSize_mod memsize
  refine ⟨fun a _ => ?_, fun a _ => ?_⟩
  · rw [Iss.image, if_neg (by omega)]
    rfl
  · rw [Iss.image, if_neg (by omega), Int.toNat_natCast,
      show (ramSize memsize + a) / 4 = ramSize memsize / 4 + a / 4 by omega,
      show (ramSize memsize + a) % 4 = a % 4 by omega]

theorem SameMem.fetch (h : SameMem memsize prog data rv.mem) (hm : Mapped memsize rv)
    (hp : rv.pc.toNat < ramSize memsize) (ha : rv.pc.toNat % 4 = 0) :
    rv.fetch host = prog (Mem2ports.index (ramSize memsize) (rv.pc.extractLsb' 2 30)) := by
  have h4 := Rtl.ramSize_mod memsize
  have hs := hm.based.small
  rw [Iss.Rv.fetch_eq hm.based (by omega) (by omega), Rtl.index_iram hp,
    ← Iss.wordOfBytes_byteOfWord (prog (rv.pc.toNat / 4))]
  have hb : ∀ i < 4, rv.mem (rv.pc.toNat + i : ℕ) = byteOfWord (prog (rv.pc.toNat / 4)) i := by
    intro i hi
    rw [h.prog _ (by omega), show (rv.pc.toNat + i) / 4 = rv.pc.toNat / 4 by omega,
      show (rv.pc.toNat + i) % 4 = i by omega]
  have h0 := hb 0 (by omega)
  have h1 := hb 1 (by omega)
  have h2 := hb 2 (by omega)
  have h3 := hb 3 (by omega)
  push_cast at h0 h1 h2 h3
  simp only [wordOfBytes]
  push_cast
  rw [h0, h1, h2, h3]

theorem width_le (op : BitVec 3) (h : Rtl.isLoadOp op = true ∨ Rtl.isStoreOp op = true) :
    (width op).toNat ≤ 4 := by
  revert h
  rcases Bits.cases3 op with rfl | rfl | rfl | rfl | rfl | rfl | rfl | rfl <;> decide

theorem width_toInt (op : BitVec 3) (h : Rtl.isLoadOp op = true ∨ Rtl.isStoreOp op = true) :
    (width op).toInt = ((width op).toNat : ℤ) := by
  revert h
  rcases Bits.cases3 op with rfl | rfl | rfl | rfl | rfl | rfl | rfl | rfl <;> decide

theorem extractLane (a : Word) : (a.extractLsb' 0 2).toNat = a.toNat % 4 := by
  simp [BitVec.extractLsb'_toNat]

theorem loadData_eq {op : BitVec 3} (hop : Rtl.isLoadOp op = true) {a : Word}
    (ha : a.toNat % (width op).toNat = 0) (w : Word) (b : ℕ → Byte)
    (hb : ∀ i, a.toNat % 4 + i < 4 → b i = byteOfWord w (a.toNat % 4 + i)) :
    loadExtend op (lowBytes (width op) b) = loadData op (a.extractLsb' 0 2) w := by
  have hq : ∀ q : BitVec 2, a.toNat % 4 = q.toNat → a.extractLsb' 0 2 = q := fun q hq =>
    BitVec.eq_of_toNat_eq (by rw [extractLane, hq])
  -- the core selects the lane in the word, the simulator has read from the lane on
  have hbyte : b 0 = (if a.extractLsb' 0 2 = 0#2 then w.extractLsb' 0 8
      else if a.extractLsb' 0 2 = 1#2 then w.extractLsb' 8 8
      else if a.extractLsb' 0 2 = 2#2 then w.extractLsb' 16 8 else w.extractLsb' 24 8) := by
    have h0 := hb 0 (by omega)
    rcases (by omega : a.toNat % 4 = 0 ∨ a.toNat % 4 = 1 ∨ a.toNat % 4 = 2 ∨ a.toNat % 4 = 3) with
      h | h | h | h
    · rw [hq 0#2 h, h0, h]
      rfl
    · rw [hq 1#2 h, h0, h]
      rfl
    · rw [hq 2#2 h, h0, h]
      rfl
    · rw [hq 3#2 h, h0, h]
      rfl
  have hhalf : a.toNat % 2 = 0 → b 1 ++ b 0 =
      if (a.extractLsb' 0 2).getLsbD 1 then w.extractLsb' 16 16 else w.extractLsb' 0 16 := by
    intro h2
    have hj : ∀ s, w.extractLsb' (s + 8) 8 ++ w.extractLsb' s 8 = w.extractLsb' s 16 := by
      intro s
      apply BitVec.eq_of_getLsbD_eq
      intro i hi
      simp only [BitVec.getLsbD_append, BitVec.getLsbD_extractLsb']
      by_cases h8 : i < 8
      · simp [h8, show i < 16 by omega]
      · simp [h8, show i - 8 < 8 by omega, show i < 16 by omega,
          show s + 8 + (i - 8) = s + i by omega]
    have h0 := hb 0 (by omega)
    have h1 := hb 1 (by omega)
    rcases (by omega : a.toNat % 4 = 0 ∨ a.toNat % 4 = 2) with h | h
    · rw [hq 0#2 h, h0, h1, h]
      exact hj 0
    · rw [hq 2#2 h, h0, h1, h]
      exact hj 16
  obtain ⟨hlb, hlh, hlw, hlbu, hlhu⟩ := Iss.loadExtend_lowBytes op b
  simp only [Rtl.isLoadOp, Bool.or_eq_true, beq_iff_eq] at hop
  rcases hop with (((ho | ho) | ho) | ho) | ho
  · subst ho
    exact (hlb rfl).trans (by rw [hbyte]; rfl)
  · subst ho
    exact (hlh rfl).trans (by rw [hhalf ha]; rfl)
  · subst ho
    have h4 : a.toNat % 4 = 0 := ha
    refine (hlw rfl).trans ?_
    change wordOfBytes b = w
    rw [← Iss.wordOfBytes_byteOfWord w, wordOfBytes, wordOfBytes, hb 0 (by omega), hb 1 (by omega),
      hb 2 (by omega), hb 3 (by omega), h4]
  · subst ho
    exact (hlbu rfl).trans (by rw [hbyte]; rfl)
  · subst ho
    exact (hlhu rfl).trans (by rw [hhalf ha]; rfl)

theorem byteOfWord_repeat (v : Word) {j : ℕ} (hj : j < 4) :
    byteOfWord
        (v.extractLsb' 0 8 ++ v.extractLsb' 0 8 ++ v.extractLsb' 0 8 ++ v.extractLsb' 0 8) j =
          byteOfWord v 0 ∧
      byteOfWord (v.extractLsb' 0 16 ++ v.extractLsb' 0 16) j = byteOfWord v (j % 2) := by
  constructor <;> apply BitVec.eq_of_getLsbD_eq <;> intro i hi <;>
    simp only [byteOfWord, BitVec.getLsbD_extractLsb', BitVec.getLsbD_append, hi, decide_true,
      Bool.true_and]
  · rcases (by omega : j = 0 ∨ j = 1 ∨ j = 2 ∨ j = 3) with rfl | rfl | rfl | rfl
    · rw [if_pos (by omega)]
      simp [hi]
    · rw [if_neg (by omega), if_pos (by omega), show 8 * 1 + i - 8 = i by omega]
      simp [hi]
    · rw [if_neg (by omega), if_neg (by omega), if_pos (by omega),
        show 8 * 2 + i - 8 - 8 = i by omega]
      simp [hi]
    · rw [if_neg (by omega), if_neg (by omega), if_neg (by omega),
        show 8 * 3 + i - 8 - 8 - 8 = i by omega]
      simp [hi]
  · by_cases h2 : j < 2
    · rw [if_pos (by omega), Nat.mod_eq_of_lt h2]
      simp [show 8 * j + i < 16 by omega]
    · rw [if_neg (by omega), show j % 2 = j - 2 by omega,
        show 8 * j + i - 16 = 8 * (j - 2) + i by omega]
      simp [show 8 * (j - 2) + i < 16 by omega]

/-- The strobes of an aligned store select the bytes it covers, and its data repeat the value. -/
theorem store_lane {x : Slot} (hop : Rtl.isStoreOp x.ex.aluOp = true)
    (ha : x.memaddr.toNat % (width x.ex.aluOp).toNat = 0) {j : ℕ} (hj : j < 4) :
    (x.wstrb.getLsbD j = true ↔ x.memaddr.toNat % 4 ≤ j ∧
      j < x.memaddr.toNat % 4 + (width x.ex.aluOp).toNat) ∧
    (x.wstrb.getLsbD j = true →
      byteOfWord x.wdata j = byteOfWord x.aluOp2 (j - x.memaddr.toNat % 4)) := by
  simp only [Rtl.isStoreOp, Bool.or_eq_true, beq_iff_eq] at hop
  obtain ⟨hrep8, hrep16⟩ := byteOfWord_repeat x.aluOp2 hj
  rcases hop with (ho | ho) | ho
  · have hd : byteOfWord x.wdata j = byteOfWord x.aluOp2 0 := by
      rw [← hrep8, Slot.wdata, if_pos ho]
    have hs : x.wstrb.getLsbD j = true ↔ j = x.memaddr.toNat % 4 := by
      rw [Slot.wstrb, if_pos ho, extractLane, BitVec.getLsbD_shiftLeft]
      rcases (by omega : j - x.memaddr.toNat % 4 = 0 ∨ 0 < j - x.memaddr.toNat % 4) with h0 | h0
      · simp [h0, hj]
        omega
      · have : (1#4).getLsbD (j - x.memaddr.toNat % 4) = false := by
          rw [BitVec.getLsbD_one]
          simp
          omega
        simp [this]
        omega
    have hw : (width x.ex.aluOp).toNat = 1 := by rw [ho]; rfl
    refine ⟨by rw [hs, hw]; omega, fun h => ?_⟩
    rw [hd, ← hs.mp h, Nat.sub_self]
  · have hn : ¬ x.ex.aluOp = opSb := by rw [ho]; decide
    have hw : (width x.ex.aluOp).toNat = 2 := by rw [ho]; rfl
    have hd : byteOfWord x.wdata j = byteOfWord x.aluOp2 (j % 2) := by
      rw [← hrep16, Slot.wdata, if_neg hn, if_pos ho]
    -- an aligned halfword is one half of the word
    have hs : x.wstrb.getLsbD j = true ↔ j / 2 = x.memaddr.toNat / 2 % 2 := by
      rw [Slot.wstrb, if_neg hn, if_pos ho, Bits.testBit_one]
      rcases (by omega : x.memaddr.toNat / 2 % 2 = 0 ∨ x.memaddr.toNat / 2 % 2 = 1) with h | h <;>
        rcases (by omega : j = 0 ∨ j = 1 ∨ j = 2 ∨ j = 3) with rfl | rfl | rfl | rfl <;>
        simp [h]
    rw [hw] at ha
    refine ⟨by rw [hs, hw]; omega, fun h => ?_⟩
    have := hs.mp h
    rw [hd]
    congr 1
    omega
  · have hn : ¬ x.ex.aluOp = opSb ∧ ¬ x.ex.aluOp = opSh := by rw [ho]; decide
    have hw : (width x.ex.aluOp).toNat = 4 := by rw [ho]; rfl
    rw [hw] at ha
    have hs : x.wstrb.getLsbD j = true := by
      rw [Slot.wstrb, if_neg hn.1, if_neg hn.2]
      rcases (by omega : j = 0 ∨ j = 1 ∨ j = 2 ∨ j = 3) with rfl | rfl | rfl | rfl <;> rfl
    refine ⟨by rw [hw]; simp only [hs, true_iff]; omega, fun _ => ?_⟩
    rw [Slot.wdata, if_neg hn.1, if_neg hn.2, if_pos ho, ha, Nat.sub_zero]

theorem SameMem.store {x : Slot} (h : SameMem memsize prog data rv.mem) (hm : memsize < 2 ^ 20)
    (hop : Rtl.isStoreOp x.ex.aluOp = true)
    (ha : x.memaddr.toNat % (width x.ex.aluOp).toNat = 0)
    (hlo : ramSize memsize ≤ x.memaddr.toNat) (hhi : x.memaddr.toNat < 2 * ramSize memsize) :
    SameMem memsize prog
      (Function.update data
        (Mem2ports.index (ramSize memsize) (Rtl.dramIndex memsize x.memaddr))
        (mergeBytes x.wstrb
          (data (Mem2ports.index (ramSize memsize) (Rtl.dramIndex memsize x.memaddr))) x.wdata))
      (rv.copyIn x.memaddr.toNat (width x.ex.aluOp).toNat (byteOfWord x.aluOp2)) := by
  have h4 := Rtl.ramSize_mod memsize
  rw [Rtl.index_dram hm hlo hhi]
  have hw : x.memaddr.toNat % 4 + (width x.ex.aluOp).toNat ≤ 4 := by
    have hop' := hop
    simp only [Rtl.isStoreOp, Bool.or_eq_true, beq_iff_eq] at hop'
    rcases hop' with (ho | ho) | ho
    · have : (width x.ex.aluOp).toNat = 1 := by rw [ho]; rfl
      omega
    · have h2 : (width x.ex.aluOp).toNat = 2 := by rw [ho]; rfl
      rw [h2] at ha
      omega
    · have h4 : (width x.ex.aluOp).toNat = 4 := by rw [ho]; rfl
      rw [h4] at ha
      omega
  generalize hwn : (width x.ex.aluOp).toNat = n at *
  refine ⟨fun a hlt => ?_, fun a hlt => ?_⟩
  · rw [Rv.copyIn, if_neg (by omega)]
    exact h.prog a hlt
  · by_cases hi : a / 4 = (x.memaddr.toNat - ramSize memsize) / 4
    · obtain ⟨hs, hd⟩ := store_lane hop (by rw [hwn]; exact ha) (j := a % 4) (by omega)
      rw [hwn] at hs
      rw [hi, Function.update_self, Rtl.byteOfWord_mergeBytes _ _ _ (by omega), Rv.copyIn]
      by_cases hc : x.wstrb.getLsbD (a % 4) = true
      · have := hs.mp hc
        rw [if_pos hc, hd hc, if_pos (by omega)]
        congr 1
        omega
      · have : ¬ _ := fun hh => hc (hs.mpr hh)
        rw [if_neg hc, if_neg (by omega), h.data a hlt, hi]
    · rw [Function.update_of_ne hi, Rv.copyIn, if_neg (by omega)]
      exact h.data a hlt

end Srv32.Refine

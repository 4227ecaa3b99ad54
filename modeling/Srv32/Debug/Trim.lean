import Srv32.Opcode
import Srv32.Data.CString
import Mathlib.Algebra.Ring.Int.Defs
import Mathlib.Data.List.GetD

/-! Trimming of a debugger command (`trim`, `tools/debug.c`). -/

namespace Srv32.Debug
open Cells

def isspaceAscii (c : Byte) : Bool :=
  c == 9#8 || c == 10#8 || c == 11#8 || c == 12#8 || c == 13#8 || c == 32#8

/-- `while (isspace_ascii((int)s[l - 1])) --l;`, for at most as many rounds as the first number. -/
def cutEnd : ℕ → ℤ → Cells Byte → Option (ℤ × Cells Byte)
  | 0, _, _ => none
  | k + 1, l, c =>
    let (x, c) := c.read (l - 1)
    if isspaceAscii x then cutEnd k (l - 1) c else some (l, c)

/-- `while (*s && isspace_ascii((int)s[0])) { ++s, --l; }` -/
def cutStart : ℕ → ℤ → ℤ → Cells Byte → Option (ℤ × ℤ × Cells Byte)
  | 0, _, _, _ => none
  | k + 1, s, l, c =>
    let (x, c) := c.read s
    if x ≠ 0#8 ∧ isspaceAscii x then cutStart k (s + 1) (l - 1) c else some (s, l, c)

/-- `trim` on the buffer of `size` characters at index 0. -/
def trim (k size : ℕ) (c : Cells Byte) : Option (Cells Byte) := do
  let (l, c) := strnlen 0#8 size 0 c
  let (l, c) ← cutEnd k l c
  let (s, l, c) ← cutStart k 0 l c
  let c := copy l.toNat 0 s c
  pure (c.write l.toNat 0#8)

/-- A string without its blanks at both ends. -/
def strip (s : List Byte) : List Byte := (s.dropWhile isspaceAscii).rdropWhile isspaceAscii

/-- The string in a buffer of `size` characters. -/
structure InBuffer (size : ℕ) (m : ℤ → Byte) (s : List Byte) : Prop where
  str : Str 0#8 m 0 s
  fits : s.length < size

/-- `trim` ends, keeps to the buffer and leaves the stripped string. -/
def TrimLaw (size : ℕ) (m : ℤ → Byte) (s : List Byte) : Prop :=
  ∃ k c, trim k size ⟨m, []⟩ = some c ∧ (∀ i ∈ c.touched, 0 ≤ i ∧ i < size) ∧
    InBuffer size c.mem (strip s)

variable {size k : ℕ} {m : ℤ → Byte} {s : List Byte} {c c' : Cells Byte} {l l' p p' : ℤ}

/-! The loops, when they end. -/

theorem cutEnd_succ : cutEnd (k + 1) l c =
    if isspaceAscii (c.mem (l - 1)) = true then cutEnd k (l - 1) (c.read (l - 1)).2
    else some (l, (c.read (l - 1)).2) := rfl

theorem cutStart_succ : cutStart (k + 1) p l c =
    if c.mem p ≠ 0#8 ∧ isspaceAscii (c.mem p) = true then
      cutStart k (p + 1) (l - 1) (c.read p).2
    else some (p, l, (c.read p).2) := rfl

theorem cutEnd_ended (h : cutEnd k l c = some (l', c')) :
    l' ≤ l ∧ (∀ j, l' ≤ j → j < l → isspaceAscii (c.mem j) = true) ∧
      isspaceAscii (c.mem (l' - 1)) = false ∧ c'.mem = c.mem ∧
      Touches c c' (fun i => l' - 1 ≤ i ∧ i < l) := by
  induction k generalizing l c with
  | zero => cases h
  | succ k ih =>
    rw [cutEnd_succ] at h
    by_cases hx : isspaceAscii (c.mem (l - 1)) = true
    · rw [if_pos hx] at h
      obtain ⟨hle, hblank, hstop, hm, ht⟩ := ih h
      refine ⟨by omega, fun j h1 h2 => ?_, hstop, hm, ?_⟩
      · rcases eq_or_lt_of_le (Int.le_sub_one_of_lt h2) with rfl | h3
        · exact hx
        · exact hblank j h1 h3
      · apply ((touches_read c (l - 1)).trans ht).congr
        intro i
        omega
    · rw [if_neg hx, Option.some.injEq, Prod.mk.injEq] at h
      obtain ⟨rfl, rfl⟩ := h
      refine ⟨le_rfl, fun j h1 h2 => by omega, by simpa using hx, rfl, ?_⟩
      apply (touches_read c (l - 1)).congr
      intro i
      omega

theorem cutStart_ended (h : cutStart k p l c = some (p', l', c')) :
    p ≤ p' ∧ l' = l - (p' - p) ∧
      (∀ j, p ≤ j → j < p' → c.mem j ≠ 0#8 ∧ isspaceAscii (c.mem j) = true) ∧
      ¬ (c.mem p' ≠ 0#8 ∧ isspaceAscii (c.mem p') = true) ∧ c'.mem = c.mem ∧
      Touches c c' (fun i => p ≤ i ∧ i ≤ p') := by
  induction k generalizing p l c with
  | zero => cases h
  | succ k ih =>
    rw [cutStart_succ] at h
    by_cases hx : c.mem p ≠ 0#8 ∧ isspaceAscii (c.mem p) = true
    · rw [if_pos hx] at h
      obtain ⟨hle, hl, hblank, hstop, hm, ht⟩ := ih h
      refine ⟨by omega, by omega, fun j h1 h2 => ?_, hstop, hm, ?_⟩
      · rcases eq_or_lt_of_le h1 with rfl | h3
        · exact hx
        · exact hblank j h3 h2
      · apply ((touches_read c p).trans ht).congr
        intro i
        omega
    · rw [if_neg hx, Option.some.injEq, Prod.mk.injEq, Prod.mk.injEq] at h
      obtain ⟨rfl, rfl, rfl⟩ := h
      refine ⟨le_rfl, by omega, fun j h1 h2 => by omega, hx, rfl, ?_⟩
      apply (touches_read c p).congr
      intro i
      omega

/-! They end where there is something to stop at. -/

theorem cutEnd_ends {n : ℕ} (hn : n < k) (hstop : isspaceAscii (c.mem (l - n - 1)) = false) :
    ∃ r, cutEnd k l c = some r := by
  induction k generalizing n l c with
  | zero => omega
  | succ k ih =>
    rw [cutEnd_succ]
    split_ifs with hx
    · cases n with
      | zero =>
        rw [Nat.cast_zero, sub_zero, hx] at hstop
        cases hstop
      | succ n =>
        apply ih (n := n) (by omega)
        rw [← hstop]
        simp only [Cells.read]
        congr 2
        omega
    · exact ⟨_, rfl⟩

theorem cutStart_ends {n : ℕ} (hn : n < k) (hstop : c.mem (p + n) = 0#8) :
    ∃ r, cutStart k p l c = some r := by
  induction k generalizing n p l c with
  | zero => omega
  | succ k ih =>
    rw [cutStart_succ]
    split_ifs with hx
    · cases n with
      | zero =>
        rw [Nat.cast_zero, add_zero] at hstop
        exact absurd hstop hx.1
      | succ n =>
        apply ih (n := n) (by omega)
        rw [← hstop]
        simp only [Cells.read]
        congr 1
        omega
    · exact ⟨_, rfl⟩

/-! A whole call. -/

/-- The call has ended: the string lay in front of index `l`, from index `p` on. -/
structure Trimmed (m : ℤ → Byte) (s : List Byte) (c : Cells Byte) (l p : ℤ) : Prop where
  l_le : l ≤ s.length
  tail : ∀ j, l ≤ j → j < s.length → isspaceAscii (m j) = true
  last : isspaceAscii (m (l - 1)) = false
  p_nonneg : 0 ≤ p
  front : ∀ j, 0 ≤ j → j < p → m j ≠ 0#8 ∧ isspaceAscii (m j) = true
  first : ¬ (m p ≠ 0#8 ∧ isspaceAscii (m p) = true)
  mem : ∀ j, c.mem j = if j = (l - p).toNat then 0#8
    else if 0 ≤ j ∧ j < (l - p).toNat then m (p + j) else m j
  touched : ∀ i, i ∈ c.touched ↔ 0 ≤ i ∧ i ≤ s.length ∨ l - 1 ≤ i ∧ i < s.length ∨
    0 ≤ i ∧ i ≤ p ∨ p ≤ i ∧ i < p + (l - p).toNat ∨ 0 ≤ i ∧ i ≤ (l - p).toNat

theorem trim_eq (hb : InBuffer size m s) :
    ∃ c0, c0.mem = m ∧ Touches ⟨m, []⟩ c0 (fun i => 0 ≤ i ∧ i ≤ s.length) ∧
      trim k size ⟨m, []⟩ = (cutEnd k s.length c0).bind fun r =>
        (cutStart k 0 r.1 r.2).bind fun q =>
          some ((copy q.2.1.toNat 0 q.1 q.2.2).write q.2.1.toNat 0#8) := by
  obtain ⟨c0, e, hm, ht⟩ := strnlen_str (c := ⟨m, []⟩) hb.str hb.fits
  rw [zero_add] at ht
  refine ⟨c0, hm, ht, ?_⟩
  rw [trim, e]
  rfl

theorem trim_trimmed (hb : InBuffer size m s) (h : trim k size ⟨m, []⟩ = some c) :
    ∃ l p, Trimmed m s c l p := by
  obtain ⟨c0, hm0, ht0, e⟩ := trim_eq (k := k) hb
  rw [e, Option.bind_eq_some_iff] at h
  obtain ⟨⟨l, c1⟩, h1, h⟩ := h
  rw [Option.bind_eq_some_iff] at h
  obtain ⟨⟨p, n, c2⟩, h2, h⟩ := h
  obtain ⟨hle, htail, hlast, hm1, ht1⟩ := cutEnd_ended h1
  obtain ⟨hp, rfl, hfront, hfirst, hm2, ht2⟩ := cutStart_ended h2
  simp only [hm1, hm0] at htail hlast hfront hfirst hm2
  rw [sub_zero, Option.some.injEq] at h
  subst h
  refine ⟨l, p, hle, htail, hlast, hp, hfront, hfirst, fun j => ?_, fun i => ?_⟩
  · simp only [write, Function.update_apply, copy_mem _ hp, hm2, zero_add, sub_zero]
  · have ht := ((ht0.trans ht1).trans ht2).trans
      ((touches_copy (l - p).toNat 0 p c2).trans (touches_write _ ((l - p).toNat : ℤ) 0#8))
    rw [ht i]
    simp
    omega

/-! The string that is left. -/

theorem InBuffer.char (hb : InBuffer size m s) (j : ℕ) (hj : j < s.length) : m j = s[j] := by
  have h := hb.str.chars j hj.le
  rwa [zero_add, List.getD_eq_getElem _ _ hj] at h

theorem InBuffer.stop (hb : InBuffer size m s) : m s.length = 0#8 := by
  have h := hb.str.chars s.length le_rfl
  rwa [zero_add, List.getD_eq_default _ _ le_rfl] at h

theorem InBuffer.char_ne_zero (hb : InBuffer size m s) {j : ℕ} (hj : j < s.length) :
    m j ≠ 0#8 := by
  rw [hb.char j hj]
  intro h0
  exact hb.str.nonzero (List.mem_of_getElem h0)

theorem strip_blank (h : ∀ x ∈ s, isspaceAscii x = true) : strip s = [] := by
  rw [strip, List.dropWhile_eq_nil_iff.mpr h, List.rdropWhile_nil]

/-- Blanks at both ends of a string with nonblank ends go. -/
theorem strip_middle {as bs cs : List Byte} (ha : ∀ x ∈ as, isspaceAscii x = true)
    (hc : ∀ x ∈ cs, isspaceAscii x = true) (hne : bs ≠ [])
    (hhead : isspaceAscii (bs.head hne) = false) (hlast : isspaceAscii (bs.getLast hne) = false) :
    strip (as ++ bs ++ cs) = bs := by
  have h1 : (as ++ bs ++ cs).dropWhile isspaceAscii = bs ++ cs := by
    rw [List.append_assoc, List.dropWhile_append_of_pos ha]
    cases bs with
    | nil => exact absurd rfl hne
    | cons b bs => exact List.dropWhile_cons_of_neg (by simpa using hhead)
  have h2 : bs.rdropWhile isspaceAscii = bs :=
    List.rdropWhile_eq_self_iff.mpr fun _ => by simp [hlast]
  rw [strip, h1, List.rdropWhile, List.reverse_append,
    List.dropWhile_append_of_pos fun x hx => hc x (List.mem_reverse.mp hx)]
  exact h2

theorem Trimmed.start_lt (ht : Trimmed m s c l p) (hl : 0 < l) : p < l := by
  by_contra hp
  have hblank := (ht.front (l - 1) (by omega) (by omega)).2
  rw [ht.last] at hblank
  cases hblank

theorem Trimmed.blank (ht : Trimmed m s c l p) (hb : InBuffer size m s) (hl : l ≤ 0) :
    ∀ x ∈ s, isspaceAscii x = true := by
  intro x hx
  obtain ⟨j, hj, rfl⟩ := List.mem_iff_getElem.mp hx
  rw [← hb.char j hj]
  exact ht.tail j (by omega) (by omega)

theorem Trimmed.strip_eq {l p : ℕ} (ht : Trimmed m s c l p) (hb : InBuffer size m s) (hl : 0 < l) :
    strip s = (s.take l).drop p := by
  have hp : p < l := by
    have := ht.start_lt (by omega)
    omega
  have hle : l ≤ s.length := by
    have := ht.l_le
    omega
  have hlen : ((s.take l).drop p).length = l - p := by
    rw [List.length_drop, List.length_take]
    omega
  have hne : (s.take l).drop p ≠ [] := by
    rw [← List.length_pos_iff]
    omega
  have hs : s = s.take p ++ (s.take l).drop p ++ s.drop l := by
    conv_lhs => rw [← List.take_append_drop l s, ← List.take_append_drop p (s.take l),
      List.take_take, min_eq_left (by omega)]
  conv_lhs => rw [hs]
  apply strip_middle _ _ hne
  · rw [List.head_drop, List.getElem_take, ← hb.char p (by omega)]
    simpa using fun hx => ht.first ⟨hb.char_ne_zero (by omega), hx⟩
  · rw [List.getLast_eq_getElem, List.getElem_drop, List.getElem_take, ← hb.char _ (by omega),
      ← ht.last]
    congr 2
    omega
  · intro x hx
    obtain ⟨j, hj, rfl⟩ := List.mem_take_iff_getElem.mp hx
    rw [← hb.char j (by omega)]
    exact (ht.front j (by omega) (by omega)).2
  · intro x hx
    obtain ⟨j, hj, rfl⟩ := List.mem_drop_iff_getElem.mp hx
    rw [← hb.char _ (by omega)]
    exact ht.tail _ (by omega) (by omega)

/-- Whenever the call ends, it leaves the stripped string. -/
theorem Trimmed.inBuffer (ht : Trimmed m s c l p) (hb : InBuffer size m s) :
    InBuffer size c.mem (strip s) := by
  have hfits := hb.fits
  obtain ⟨p, rfl⟩ := Int.eq_ofNat_of_zero_le ht.p_nonneg
  by_cases hl : 0 < l
  · obtain ⟨l, rfl⟩ := Int.eq_ofNat_of_zero_le hl.le
    have hle := ht.l_le
    rw [ht.strip_eq hb (by omega)]
    refine ⟨⟨fun j hj => ?_, fun h0 => ?_⟩, ?_⟩
    · rw [List.length_drop, List.length_take] at hj
      rw [ht.mem, zero_add]
      split_ifs with h1 h2
      · rw [List.getD_eq_default]
        rw [List.length_drop, List.length_take]
        omega
      · rw [List.getD_eq_getElem _ _ (by rw [List.length_drop, List.length_take]; omega),
          List.getElem_drop, List.getElem_take, ← hb.char _ (by omega)]
        congr 1
      · omega
    · exact hb.str.nonzero (List.mem_of_mem_take (List.mem_of_mem_drop h0))
    · rw [List.length_drop, List.length_take]
      omega
  · rw [strip_blank (ht.blank hb (by omega))]
    refine ⟨⟨fun j hj => ?_, List.not_mem_nil⟩, by simp; omega⟩
    have hn : (l - p).toNat = 0 := by omega
    rw [List.length_nil] at hj
    rw [ht.mem, hn, if_pos (by omega)]
    simp

theorem trim_strip (hb : InBuffer size m s) (h : trim k size ⟨m, []⟩ = some c) :
    InBuffer size c.mem (strip s) := by
  obtain ⟨l, p, ht⟩ := trim_trimmed hb h
  exact ht.inBuffer hb

/-- A call that keeps to the buffer has found a character that is not blank. -/
theorem TrimLaw.exists_nonblank (hb : InBuffer size m s) (h : TrimLaw size m s) :
    ∃ x ∈ s, isspaceAscii x = false := by
  obtain ⟨k, c, hc, hin, -⟩ := h
  obtain ⟨l, p, ht⟩ := trim_trimmed hb hc
  have hle := ht.l_le
  by_cases hl : 0 < l
  · obtain ⟨j, hj⟩ := Int.eq_ofNat_of_zero_le (show 0 ≤ l - 1 by omega)
    refine ⟨s[j], List.getElem_mem (by omega), ?_⟩
    rw [← hb.char j (by omega), ← hj]
    exact ht.last
  · -- the index just read lies in front of the buffer
    have htouch : l - 1 ∈ c.touched := by
      rw [ht.touched]
      omega
    have hneg := (hin _ htouch).1
    omega

theorem trim_ends (hb : InBuffer size m s) {j : ℕ} (hj : j < s.length)
    (hx : isspaceAscii s[j] = false) : ∃ c, trim (s.length + 1) size ⟨m, []⟩ = some c := by
  obtain ⟨c0, hm0, -, e⟩ := trim_eq (k := s.length + 1) hb
  have hstop : isspaceAscii (c0.mem ((s.length : ℤ) - (s.length - j - 1 : ℕ) - 1)) = false := by
    rw [hm0, ← hx, ← hb.char j hj]
    congr 2
    omega
  obtain ⟨⟨l, c1⟩, e1⟩ := cutEnd_ends (k := s.length + 1) (by omega) hstop
  have hm1 := (cutEnd_ended e1).2.2.2.1
  have hnul : c1.mem (0 + s.length) = 0#8 := by
    rw [hm1, hm0, zero_add]
    exact hb.stop
  obtain ⟨r, e2⟩ := cutStart_ends (l := l) (Nat.lt_succ_self s.length) hnul
  rw [e, e1, Option.bind_some, e2]
  exact ⟨_, rfl⟩

/-- For every string in a buffer of any size, and whatever lies around the buffer: `trim` keeps its
law exactly when some character of the string is not blank. Wherever it ends, it leaves the string
without its outer blanks. -/
theorem trimLaw_iff (hb : InBuffer size m s) :
    (TrimLaw size m s ↔ ∃ x ∈ s, isspaceAscii x = false) ∧
      ∀ k c, trim k size ⟨m, []⟩ = some c → InBuffer size c.mem (strip s) := by
  refine ⟨?_, fun _ _ => trim_strip hb⟩
  constructor
  · exact TrimLaw.exists_nonblank hb
  · intro h
    obtain ⟨x, hx, hnb⟩ := h
    obtain ⟨j, hj, rfl⟩ := List.mem_iff_getElem.mp hx
    obtain ⟨c, hc⟩ := trim_ends hb hj hnb
    obtain ⟨l, p, ht⟩ := trim_trimmed hb hc
    have hfits := hb.fits
    have hle := ht.l_le
    have hl : 0 < l := by
      by_contra hl
      rw [ht.blank hb (by omega) _ hx] at hnb
      cases hnb
    have hp := ht.start_lt hl
    have hp0 := ht.p_nonneg
    refine ⟨_, c, hc, fun i hi => ?_, ht.inBuffer hb⟩
    rw [ht.touched] at hi
    omega

/-- A memory that holds `s` from index 0 on, and zeros around it. -/
def memory (s : List Byte) (i : ℤ) : Byte := if 0 ≤ i then s.getD i.toNat 0#8 else 0#8

theorem inBuffer_memory (h0 : 0 ∉ s) (hs : s.length < size) : InBuffer size (memory s) s := by
  refine ⟨⟨fun j _ => ?_, h0⟩, hs⟩
  rw [memory, zero_add, if_pos (Int.natCast_nonneg j), Int.toNat_natCast]

/-- A command between blanks. -/
theorem trimLaw_pc : TrimLaw 1024 (memory [32#8, 112#8, 99#8, 10#8]) [32#8, 112#8, 99#8, 10#8] :=
  (trimLaw_iff (inBuffer_memory (by decide) (by decide))).1.mpr ⟨112#8, by decide, by decide⟩

/-- The bare newline and the empty string: the character in front of the buffer is read. -/
theorem trimLaw_newline :
    (InBuffer 1024 (memory [10#8]) [10#8] ∧ ¬ TrimLaw 1024 (memory [10#8]) [10#8]) ∧
    (InBuffer 1024 (memory []) [] ∧ ¬ TrimLaw 1024 (memory []) []) ∧
    (trim 2 1024 ⟨memory [10#8], []⟩).map (·.touched) = some [0, 1, 0, -1, 0, 1, 0] := by
  have hn : InBuffer 1024 (memory [10#8]) [10#8] := inBuffer_memory (by decide) (by decide)
  have he : InBuffer 1024 (memory []) [] := inBuffer_memory (by decide) (by decide)
  refine ⟨⟨hn, fun h => ?_⟩, ⟨he, fun h => ?_⟩, by decide⟩
  · exact absurd (TrimLaw.exists_nonblank hn h) (by decide)
  · exact absurd (TrimLaw.exists_nonblank he h) (by decide)

end Srv32.Debug

import Mathlib.Data.Nat.Digits.Lemmas

/-! Numbers as `printf` writes them, and texts that tell where they end. -/

namespace Srv32.Printf

/-! Numbers. -/

/-- `%0wd` or `%0wx`: the digits of `n`, with zeros in front up to `w` characters. -/
def zeroPad (b w n : ℕ) : List Char := (Nat.toDigits b n).leftpad w '0'

/-- `%d` -/
def signed : ℤ → List Char
  | .ofNat n => Nat.toDigits 10 n
  | .negSucc n => '-' :: Nat.toDigits 10 (n + 1)

/-- `%wd` -/
def blankPad (w : ℕ) (z : ℤ) : List Char := (signed z).leftpad w ' '

/-- The value of a digit, in any base up to sixteen. -/
def charVal (c : Char) : ℕ := if c.toNat < 97 then c.toNat - 48 else c.toNat - 87

/-- The number a list of digits stands for, after digits of value `n`. -/
def value (b n : ℕ) (s : List Char) : ℕ := s.foldl (fun a c => b * a + charVal c) n

variable {b w n : ℕ}

theorem charVal_digitChar {d : ℕ} (hd : d < 16) : charVal (Nat.digitChar d) = d := by
  revert d
  decide

theorem value_append (s t : List Char) : value b n (s ++ t) = value b (value b n s) t :=
  List.foldl_append

theorem value_zeros (k : ℕ) : value b 0 (List.replicate k '0') = 0 := by
  induction k with
  | zero => rfl
  | succ k ih =>
    rw [List.replicate_succ, ← List.singleton_append, value_append]
    change value b (b * 0 + 0) _ = 0
    rw [Nat.mul_zero]
    exact ih

theorem value_toDigits (hb : 1 < b) (hb' : b ≤ 16) (n : ℕ) : value b 0 (Nat.toDigits b n) = n := by
  induction n using Nat.strong_induction_on with
  | _ n ih =>
    have hval : ∀ a d, d < b → value b a [Nat.digitChar d] = b * a + d := fun a d hd => by
      change b * a + charVal (Nat.digitChar d) = _
      rw [charVal_digitChar (by omega)]
    by_cases hn : n < b
    · rw [Nat.toDigits_of_lt_base hn, hval _ _ hn, Nat.mul_zero, Nat.zero_add]
    · rw [Nat.toDigits_of_base_le hb (by omega), value_append,
        ih _ (Nat.div_lt_self (by omega) hb), hval _ _ (Nat.mod_lt _ (by omega))]
      exact Nat.div_add_mod n b

/-- A number with zeros in front is read back. -/
theorem value_zeroPad (hb : 1 < b) (hb' : b ≤ 16) : value b 0 (zeroPad b w n) = n := by
  rw [zeroPad, List.leftpad, value_append, value_zeros, value_toDigits hb hb']

theorem zeroPad_injective (hb : 1 < b) (hb' : b ≤ 16) : Function.Injective (zeroPad b w) := by
  intro m n h
  rw [← value_zeroPad (w := w) (n := m) hb hb', h, value_zeroPad hb hb']

/-- A number that fits has exactly the width asked for. -/
theorem length_zeroPad (hb : 1 < b) (hw : 0 < w) (hn : n < b ^ w) :
    (zeroPad b w n).length = w := by
  have := (Nat.length_toDigits_le_iff hb hw).mpr hn
  rw [zeroPad, List.length_leftpad]
  omega

theorem signed_injective : Function.Injective signed := by
  have hread := value_toDigits (b := 10) (by omega) (by omega)
  have hsign : ∀ m n : ℕ, Nat.toDigits 10 m ≠ '-' :: Nat.toDigits 10 n := by
    intro m n h
    have : Char.isDigit '-' = true :=
      Nat.isDigit_of_mem_toDigits (b := 10) (n := m) (by omega) (by omega) (by
        rw [h]
        exact List.mem_cons_self)
    cases this
  intro x y h
  cases x with
  | ofNat m =>
    cases y with
    | ofNat n =>
      have := congrArg (value 10 0) h
      rw [signed, signed, hread, hread] at this
      rw [this]
    | negSucc n => exact absurd h (hsign _ _)
  | negSucc m =>
    cases y with
    | ofNat n => exact absurd h.symm (hsign _ _)
    | negSucc n =>
      injection h with _ h
      have := congrArg (value 10 0) h
      rw [hread, hread] at this
      rw [Nat.succ.inj this]

theorem blank_notMem_signed (z : ℤ) : ' ' ∉ signed z := by
  have hd : ∀ n, ' ' ∉ Nat.toDigits 10 n := fun n h => by
    have := Nat.isDigit_of_mem_toDigits (by omega) (by omega) h
    cases this
  cases z with
  | ofNat n => exact hd n
  | negSucc n =>
    intro h
    rcases List.mem_cons.mp h with h | h
    · cases h
    · exact hd _ h

theorem signed_ne_nil (z : ℤ) : signed z ≠ [] := by
  cases z with
  | ofNat n => exact Nat.toDigits_ne_nil
  | negSucc n => exact List.cons_ne_nil _ _

/-! Texts that tell where they end. -/

section

variable {α β κ : Type*}

/-- Whatever follows, the text of a value can be told from what comes after it. -/
def Delimited (f : α → List κ) : Prop :=
  ∀ x y s t, f x ++ s = f y ++ t → x = y ∧ s = t

variable {f : α → List κ}

theorem Delimited.of_length (hf : Function.Injective f) (hl : ∀ x y, (f x).length = (f y).length) :
    Delimited f := by
  intro x y s t h
  obtain ⟨h1, h2⟩ := List.append_inj h (hl x y)
  exact ⟨hf h1, h2⟩

theorem Delimited.lead (c : List κ) (hf : Delimited f) : Delimited fun x => c ++ f x := by
  intro x y s t h
  rw [List.append_assoc, List.append_assoc] at h
  exact hf x y s t (List.append_cancel_left h)

/-- A second text, which may depend on the first value. -/
theorem Delimited.append (hf : Delimited f) {g : α → β → List κ} (hg : ∀ x, Delimited (g x)) :
    Delimited fun p : α × β => f p.1 ++ g p.1 p.2 := by
  rintro ⟨x, u⟩ ⟨y, v⟩ s t h
  simp only [List.append_assoc] at h
  obtain ⟨rfl, h'⟩ := hf x y _ _ h
  obtain ⟨rfl, hs⟩ := hg x u v s t h'
  exact ⟨rfl, hs⟩

theorem Delimited.trail (c : List κ) (hf : Delimited f) : Delimited fun x => f x ++ c := by
  intro x y s t h
  rw [List.append_assoc, List.append_assoc] at h
  obtain ⟨h1, h2⟩ := hf x y _ _ h
  exact ⟨h1, List.append_cancel_left h2⟩

/-- A text padded on the left with a character that it does not contain and that ends it. -/
theorem Delimited.of_leftpad {c : κ} (w : ℕ) (hf : Function.Injective f) (hne : ∀ x, f x ≠ [])
    (hc : ∀ x, c ∉ f x) : Delimited fun x => (f x).leftpad w c ++ [c] := by
  classical
  intro x y s t h
  have hdrop : ∀ z u, ((f z).leftpad w c ++ [c] ++ u).dropWhile (· == c) = f z ++ c :: u := by
    intro z u
    rw [List.append_assoc, List.leftpad, List.append_assoc, List.dropWhile_append_of_pos]
    · obtain ⟨a, l, hz⟩ := List.exists_cons_of_ne_nil (hne z)
      have ha : a ≠ c := fun he => hc z (by rw [hz, he]; exact List.mem_cons_self)
      rw [hz]
      exact List.dropWhile_cons_of_neg (by simpa using ha)
    · intro a ha
      simp [List.eq_of_mem_replicate ha]
  have htake : ∀ z u, (f z ++ c :: u).takeWhile (· != c) = f z := by
    intro z u
    rw [List.takeWhile_append_of_pos, List.takeWhile_cons_of_neg (by simp), List.append_nil]
    intro a ha
    simp only [bne_iff_ne]
    rintro rfl
    exact hc z ha
  have hd := congrArg (List.dropWhile (· == c)) h
  rw [hdrop, hdrop] at hd
  have ht := congrArg (List.takeWhile (· != c)) hd
  rw [htake, htake] at ht
  obtain rfl := hf ht
  exact ⟨rfl, List.append_cancel_left h⟩

/-- A file of such texts is the text of one list only. -/
theorem Delimited.flatMap_injective (hf : Delimited f) (hne : ∀ x, f x ≠ []) :
    Function.Injective fun l : List α => l.flatMap f := by
  intro l l' h
  induction l generalizing l' with
  | nil =>
    cases l' with
    | nil => rfl
    | cons y l' => exact absurd (List.append_eq_nil_iff.mp h.symm).1 (hne y)
  | cons x l ih =>
    cases l' with
    | nil => exact absurd (List.append_eq_nil_iff.mp h).1 (hne x)
    | cons y l' =>
      obtain ⟨rfl, ht⟩ := hf x y _ _ h
      rw [ih ht]

end

/-- A signed number in blanks up to `w` characters, with a blank after it. -/
theorem delimited_blankPad (w : ℕ) : Delimited fun z => blankPad w z ++ [' '] :=
  .of_leftpad w signed_injective signed_ne_nil blank_notMem_signed

theorem delimited_zeroPad {v : ℕ} (hb : 1 < b) (hb' : b ≤ 16) (hw : 0 < w) (hv : 2 ^ v ≤ b ^ w) :
    Delimited fun x : BitVec v => zeroPad b w x.toNat := by
  refine .of_length (fun x y h => ?_) fun x y => ?_
  · exact BitVec.eq_of_toNat_eq (zeroPad_injective hb hb' h)
  · have hx := x.isLt
    have hy := y.isLt
    rw [length_zeroPad hb hw (by omega), length_zeroPad hb hw (by omega)]

end Srv32.Printf

import Mathlib.Data.Nat.Digits.Lemmas

/-! The `%i` conversion of `sscanf`: blanks, a sign, a prefix for the base, digits. -/

namespace Srv32.Scan

/-- The value of a character as a digit, in any base up to sixteen. -/
def digit (c : BitVec 8) : Option ℕ :=
  if 48 ≤ c.toNat ∧ c.toNat ≤ 57 then some (c.toNat - 48)
  else if 97 ≤ c.toNat ∧ c.toNat ≤ 102 then some (c.toNat - 87)
  else if 65 ≤ c.toNat ∧ c.toNat ≤ 70 then some (c.toNat - 55)
  else none

def isDigit (base : ℕ) (c : BitVec 8) : Bool :=
  match digit c with
  | some d => d < base
  | none => false

/-- The number that the digits in front continue `n` to, and the characters after them. -/
def digits (base : ℕ) (n : ℕ) : List (BitVec 8) → ℕ × List (BitVec 8)
  | [] => (n, [])
  | c :: s => if isDigit base c then digits base (n * base + (digit c).getD 0) s else (n, c :: s)

/-- A number without sign. -/
def scanNat (s : List (BitVec 8)) : Option (ℕ × List (BitVec 8)) :=
  match s with
  | 48#8 :: x :: t =>
    -- a prefix without digits is read as its `0`
    if x = 120#8 ∨ x = 88#8 then some (digits 16 0 t) else some (digits 8 0 (x :: t))
  | c :: t => if isDigit 10 c then some (digits 10 0 (c :: t)) else none
  | [] => none

/-- The converted number and the rest of the input; `none` when there is no match. -/
def scanInt (blank : BitVec 8 → Bool) (s : List (BitVec 8)) : Option (ℤ × List (BitVec 8)) :=
  match s.dropWhile blank with
  | 45#8 :: t => (scanNat t).map fun r => (-(r.1 : ℤ), r.2)
  | 43#8 :: t => (scanNat t).map fun r => ((r.1 : ℤ), r.2)
  | t => (scanNat t).map fun r => ((r.1 : ℤ), r.2)

/-- What a 32-bit `int` holds afterwards, when `long` has 64 bits. -/
def toInt32 (v : ℤ) : BitVec 32 := BitVec.ofInt 32 (max (-2 ^ 63) (min v (2 ^ 63 - 1)))

/-! Decimal numbers. -/

def decimal (n : ℕ) : List (BitVec 8) :=
  (Nat.digits 10 n).reverse.map fun d => BitVec.ofNat 8 (48 + d)

variable {s : List (BitVec 8)} {n : ℕ}

theorem toNat_decimal_digit {d : ℕ} (hd : d < 10) : (BitVec.ofNat 8 (48 + d)).toNat = 48 + d := by
  rw [BitVec.toNat_ofNat]
  omega

theorem digit_decimal {d : ℕ} (hd : d < 10) : digit (BitVec.ofNat 8 (48 + d)) = some d := by
  rw [digit, toNat_decimal_digit hd, if_pos (by omega)]
  congr 1
  omega

theorem isDigit_decimal {d : ℕ} (hd : d < 10) : isDigit 10 (BitVec.ofNat 8 (48 + d)) = true := by
  rw [isDigit, digit_decimal hd]
  simpa using hd

/-- Reading digits, the most significant first, from an accumulator. -/
theorem digits_map {ds : List ℕ} (hds : ∀ d ∈ ds, d < 10) (hs : s.head?.any (isDigit 10) = false)
    (n : ℕ) : digits 10 n (ds.map (fun d => BitVec.ofNat 8 (48 + d)) ++ s) =
      (ds.foldl (fun a d => a * 10 + d) n, s) := by
  induction ds generalizing n with
  | nil =>
    cases s with
    | nil => rfl
    | cons c s =>
      have hc : isDigit 10 c = false := by simpa using hs
      rw [List.map_nil, List.nil_append, digits, if_neg (by simp [hc])]
      rfl
  | cons d ds ih =>
    have hd := hds d List.mem_cons_self
    rw [List.map_cons, List.cons_append, digits, if_pos (isDigit_decimal hd), digit_decimal hd,
      Option.getD_some, ih fun x hx => hds x (List.mem_cons_of_mem d hx)]
    rfl

theorem foldl_digits (n : ℕ) :
    (Nat.digits 10 n).reverse.foldl (fun a d => a * 10 + d) 0 = n := by
  rw [List.foldl_reverse]
  conv_rhs => rw [← Nat.ofDigits_digits 10 n]
  generalize Nat.digits 10 n = ds
  induction ds with
  | nil => rfl
  | cons d ds ih =>
    rw [List.foldr_cons, ih, Nat.ofDigits_cons]
    omega

theorem scanNat_digit {c : BitVec 8} {t : List (BitVec 8)} (hc : c ≠ 48#8)
    (hd : isDigit 10 c = true) : scanNat (c :: t) = some (digits 10 0 (c :: t)) := by
  unfold scanNat
  split
  · next h =>
    injection h with h _
    exact absurd h hc
  · next h =>
    injection h with h1 h2
    subst h1 h2
    exact if_pos hd
  · next h => cases h

/-- A positive number begins with one of the digits 1 to 9. -/
theorem decimal_cons (hn : 0 < n) :
    ∃ c t, decimal n = c :: t ∧ isDigit 10 c = true ∧ 48 < c.toNat := by
  have hne : Nat.digits 10 n ≠ [] := Nat.digits_ne_nil_iff_ne_zero.mpr hn.ne'
  have hlast := Nat.getLast_digit_ne_zero 10 hn.ne'
  obtain ⟨d, ds, h⟩ := List.exists_cons_of_ne_nil (List.reverse_ne_nil_iff.mpr hne)
  have hd : (Nat.digits 10 n).getLast hne = d := by
    rw [← List.head_reverse (by simpa using hne)]
    simp only [h, List.head_cons]
  have hlt : d < 10 := Nat.digits_lt_base (by omega) (hd ▸ List.getLast_mem hne)
  refine ⟨_, _, by rw [decimal, h, List.map_cons], isDigit_decimal hlt, ?_⟩
  rw [toNat_decimal_digit hlt]
  omega

/-- A positive number written in decimal is read back. -/
theorem scanNat_decimal (hn : 0 < n) (hs : s.head?.any (isDigit 10) = false) :
    scanNat (decimal n ++ s) = some (n, s) := by
  have hall : digits 10 0 (decimal n ++ s) = (n, s) := by
    rw [decimal, digits_map _ hs, foldl_digits]
    intro d hd
    exact Nat.digits_lt_base (by omega) (List.mem_reverse.mp hd)
  obtain ⟨c, t, h, hc, h48⟩ := decimal_cons hn
  rw [h, List.cons_append] at hall ⊢
  rw [scanNat_digit _ hc, hall]
  rintro rfl
  simp at h48

/-- So is one after blanks, as long as no digit is blank. -/
theorem scanInt_decimal {blank : BitVec 8 → Bool} (hb : ∀ c, isDigit 10 c = true → blank c = false)
    {bs : List (BitVec 8)} (hbs : ∀ c ∈ bs, blank c = true) (hn : 0 < n)
    (hs : s.head?.any (isDigit 10) = false) :
    scanInt blank (bs ++ (decimal n ++ s)) = some ((n : ℤ), s) := by
  have hread := scanNat_decimal hn hs
  obtain ⟨c, t, h, hc, h48⟩ := decimal_cons hn
  rw [h, List.cons_append] at hread ⊢
  have hdrop : (bs ++ c :: (t ++ s)).dropWhile blank = c :: (t ++ s) := by
    rw [List.dropWhile_append_of_pos hbs]
    exact List.dropWhile_cons_of_neg (by simp [hb c hc])
  unfold scanInt
  rw [hdrop]
  split
  · next he =>
    injection he with he _
    simp [he] at h48
  · next he =>
    injection he with he _
    simp [he] at h48
  · rw [hread]
    rfl

theorem toInt32_of_lt (hn : n < 2 ^ 31) : toInt32 n = BitVec.ofNat 32 n := by
  have hmax : max (-2 ^ 63) (min (n : ℤ) (2 ^ 63 - 1)) = n := by omega
  rw [toInt32, hmax]
  exact BitVec.ofInt_natCast 32 n

end Srv32.Scan

import Srv32.Gdb.Delete
import Srv32.Iss.Fetch

/-! The debugger's `continue` (`srv_cont`). The loop looks the pc up before each step, but not at
what the step returns; and a step may execute another address than the pc it comes with. -/

namespace Srv32.Gdb
open Iss Iss.Rv BinaryTree SearchTree

/-! The first index at which a predicate holds. -/

/-- Two predicates have the same first index, among those up to which `ok` holds, exactly when they
agree wherever neither has held before. -/
theorem first_iff {ok p q : ℕ → Prop} (hok : ∀ n m, ok n → m ≤ n → ok m) :
    (∀ n, ok n ∧ p n ∧ (∀ m < n, ¬ p m) ↔ ok n ∧ q n ∧ ∀ m < n, ¬ q m) ↔
      ∀ n, ok n → (∀ m < n, ¬ p m ∧ ¬ q m) → (p n ↔ q n) := by
  constructor
  · intro h n hn hbefore
    constructor
    · intro hp
      exact ((h n).mp ⟨hn, hp, fun m hm => (hbefore m hm).1⟩).2.1
    · intro hq
      exact ((h n).mpr ⟨hn, hq, fun m hm => (hbefore m hm).2⟩).2.1
  · -- one direction, for either order of the two
    have key : ∀ {p q : ℕ → Prop}, (∀ n, ok n → (∀ m < n, ¬ p m ∧ ¬ q m) → (p n ↔ q n)) →
        ∀ n, ok n ∧ p n ∧ (∀ m < n, ¬ p m) → ok n ∧ q n ∧ ∀ m < n, ¬ q m := by
      intro p q h n hn
      have hq : ∀ m < n, ¬ q m := by
        intro m
        induction m using Nat.strong_induction_on with
        | _ m ih =>
          intro hm hqm
          have hagree := h m (hok n m hn.1 hm.le) fun j hj =>
            ⟨hn.2.2 j (hj.trans hm), ih j hj (hj.trans hm)⟩
          exact hn.2.2 m hm (hagree.mpr hqm)
      exact ⟨hn.1, (h n hn.1 fun m hm => ⟨hn.2.2 m hm, hq m hm⟩).mp hn.2.1, hq⟩
    intro h n
    constructor
    · exact key h n
    · exact key (fun n hn hb => (h n hn fun m hm => (hb m hm).symm).symm) n

/-! `srv_cont` -/

/-- How a call of `srv_cont` ends: it returns after a number of steps, the process ends in one, or
the lookup does not return. -/
inductive ContEnd
  | returns (steps : ℕ) (rv : Rv)
  | dies (r : Ret)
  | stops (s : Stop)

/-- `srv_cont`, with `halt` and `is_interrupted` never set, for at most as many rounds as the first
number; `k` bounds the lookup. -/
def srvCont (k : ℕ) (cfg : Config) (m : Map) (host : ℕ → Host) : ℕ → ℕ → Rv → Option ContEnd
  | 0, _, _ => none
  | fuel + 1, n, rv =>
    match findNode k m.heap m.root rv.pc with
    | .error s => some (.stops s)
    | .ok p =>
      if p ≠ none then some (.returns n rv)
      else
        match srv32Step cfg (host n) rv with
        | (.code _, rv) => srvCont k cfg m host fuel (n + 1) rv
        | (r, _) => some (.dies r)

/-- The loop of `srv_cont`, where `seen` tells in which rounds `is_interrupted` is found set; `halt`
never is. -/
def contLoop (k : ℕ) (cfg : Config) (m : Map) (host : ℕ → Host) (seen : ℕ → Bool) :
    ℕ → ℕ → Rv → Option ContEnd
  | 0, _, _ => none
  | fuel + 1, n, rv =>
    if seen n then some (.returns n rv)
    else
      match findNode k m.heap m.root rv.pc with
      | .error s => some (.stops s)
      | .ok p =>
        if p ≠ none then some (.returns n rv)
        else
          match srv32Step cfg (host n) rv with
          | (.code _, rv) => contLoop k cfg m host seen fuel (n + 1) rv
          | (r, _) => some (.dies r)

/-- The call returns after exactly `n` steps, in the state they leave. -/
def Returns (k : ℕ) (cfg : Config) (m : Map) (host : ℕ → Host) (rv : Rv) (n : ℕ) : Prop :=
  ∃ fuel, srvCont k cfg m host fuel 0 rv = some (.returns n (Iss.run cfg host rv n))

/-- No step before `n` ends the process. -/
def Alive (cfg : Config) (host : ℕ → Host) (rv : Rv) (n : ℕ) : Prop :=
  ∀ m < n, ∃ v, (result cfg host rv m).1 = .code v

/-- The address of the instruction the next step executes. -/
def nextAddr (cfg : Config) (rv : Rv) : Word := (rv.settle cfg).pc

/-- What `continue` is to stop at before step `n`: a breakpoint at the address executed next, or
`RV_EXIT` from the step before. -/
def Due (bp : Word → Prop) (cfg : Config) (host : ℕ → Host) (rv : Rv) (n : ℕ) : Prop :=
  bp (nextAddr cfg (Iss.run cfg host rv n)) ∨
    ∃ m, n = m + 1 ∧ (result cfg host rv m).1 = .code rvExit

/-- The call returns at the first such point, and only there. -/
def ContLaw (k : ℕ) (m : Map) (bp : Word → Prop) (cfg : Config) (host : ℕ → Host) (rv : Rv) :
    Prop :=
  ∀ n, Returns k cfg m host rv n ↔
    Alive cfg host rv n ∧ Due bp cfg host rv n ∧ ∀ j < n, ¬ Due bp cfg host rv j

/-- Up to the stop, a breakpoint at the pc and a reason to stop come together: no step leads into
or away from a breakpoint in its head, and none returns `RV_EXIT` without a breakpoint at the pc it
leaves. -/
def StopsTogether (bp : Word → Prop) (cfg : Config) (host : ℕ → Host) (rv : Rv) : Prop :=
  ∀ n, Alive cfg host rv n →
    (∀ j < n, ¬ bp (Iss.run cfg host rv j).pc ∧ ¬ Due bp cfg host rv j) →
      (bp (Iss.run cfg host rv n).pc ↔ Due bp cfg host rv n)

variable {k : ℕ} {cfg : Config} {m : Map} {host : ℕ → Host} {rv : Rv} {bp : Word → Prop}
  {seen : ℕ → Bool}

theorem Alive.mono {n j : ℕ} (h : Alive cfg host rv n) (hj : j ≤ n) : Alive cfg host rv j :=
  fun i hi => h i (hi.trans_le hj)

/-- The lookup decides whether there is a breakpoint. -/
def Finds (k : ℕ) (m : Map) (bp : Word → Prop) : Prop :=
  ∀ a, ∃ p, findNode k m.heap m.root a = .ok p ∧ (p ≠ none ↔ bp a)

theorem finds_tree {t : BinaryTree Cell} (hm : Holds m t) (ho : Ordered (t.map Cell.key))
    (hk : t.height < k) : Finds k m fun a => a.toInt ∈ keys t := by
  intro a
  rw [hm.root, findNode_stands hm.stands hk]
  exact ⟨_, rfl, seek_ne_nil ho⟩

/-- Without an interrupt it is `srv_cont` above. -/
theorem contLoop_quiet (fuel n : ℕ) (rv : Rv) :
    contLoop k cfg m host (fun _ => false) fuel n rv = srvCont k cfg m host fuel n rv := by
  induction fuel generalizing n rv with
  | zero => rfl
  | succ fuel ih =>
    rw [contLoop, srvCont, if_neg Bool.false_ne_true]
    cases findNode k m.heap m.root rv.pc with
    | error e => rfl
    | ok p =>
      dsimp only
      split_ifs
      · rfl
      · rcases srv32Step cfg (host n) rv with ⟨v | v | _, rv'⟩
        · exact ih (n + 1) rv'
        · rfl
        · rfl

section Loop
variable (hf : Finds k m bp) {fuel n : ℕ}
include hf

theorem contLoop_stop (h : seen n = true ∨ bp rv.pc) :
    contLoop k cfg m host seen (fuel + 1) n rv = some (.returns n rv) := by
  rw [contLoop]
  by_cases hs : seen n = true
  · exact if_pos hs
  · obtain ⟨p, hp, hiff⟩ := hf rv.pc
    rw [if_neg hs, hp]
    exact if_pos (hiff.mpr (h.resolve_left hs))

/-- A round without one goes by what the step returns. -/
theorem contLoop_miss (h : ¬ (seen n = true ∨ bp rv.pc)) :
    contLoop k cfg m host seen (fuel + 1) n rv =
      match srv32Step cfg (host n) rv with
      | (.code _, rv) => contLoop k cfg m host seen fuel (n + 1) rv
      | (r, _) => some (.dies r) := by
  obtain ⟨p, hp, hiff⟩ := hf rv.pc
  obtain ⟨hs, hb⟩ := not_or.mp h
  have hnone : ¬ p ≠ none := fun hne => hb (hiff.mp hne)
  rw [contLoop, if_neg hs, hp]
  simp only [if_neg hnone]

/-- Where the loop returns: in the first round with a reason to stop. -/
theorem contLoop_returned {i : ℕ} {u : Rv}
    (h : contLoop k cfg m host seen fuel i (Iss.run cfg host rv i) = some (.returns n u)) :
    i ≤ n ∧ u = Iss.run cfg host rv n ∧
      (∀ j, i ≤ j → j < n → ∃ v, (result cfg host rv j).1 = .code v) ∧
      (seen n = true ∨ bp (Iss.run cfg host rv n).pc) ∧
      ∀ j, i ≤ j → j < n → ¬ (seen j = true ∨ bp (Iss.run cfg host rv j).pc) := by
  induction fuel generalizing i with
  | zero => cases h
  | succ fuel ih =>
    by_cases hstop : seen i = true ∨ bp (Iss.run cfg host rv i).pc
    · rw [contLoop_stop hf hstop] at h
      cases h
      exact ⟨le_rfl, rfl, fun j h1 h2 => by omega, hstop, fun j h1 h2 => by omega⟩
    · rw [contLoop_miss hf hstop] at h
      rcases hr : srv32Step cfg (host i) (Iss.run cfg host rv i) with ⟨v | v | _, u'⟩
      · have hnext : Iss.run cfg host rv (i + 1) = u' := congrArg Prod.snd hr
        rw [hr] at h
        simp only [← hnext] at h
        obtain ⟨hle, hu, halive, hreason, hno⟩ := ih h
        refine ⟨by omega, hu, fun j h1 h2 => ?_, hreason, fun j h1 h2 => ?_⟩
        · rcases Nat.eq_or_lt_of_le h1 with rfl | h1
          · exact ⟨v, congrArg Prod.fst hr⟩
          · exact halive j h1 h2
        · rcases Nat.eq_or_lt_of_le h1 with rfl | h1
          · exact hstop
          · exact hno j h1 h2
      · rw [hr] at h
        cases h
      · rw [hr] at h
        cases h

/-- Without a reason to stop and without an end of the process the loop goes on. -/
theorem contLoop_comes (ha : Alive cfg host rv n)
    (hreason : seen n = true ∨ bp (Iss.run cfg host rv n).pc)
    (hno : ∀ j < n, ¬ (seen j = true ∨ bp (Iss.run cfg host rv j).pc)) (i : ℕ) (hi : i ≤ n) :
    contLoop k cfg m host seen (i + 1) (n - i) (Iss.run cfg host rv (n - i)) =
      some (.returns n (Iss.run cfg host rv n)) := by
  induction i with
  | zero => exact contLoop_stop hf hreason
  | succ i ih =>
    have hlt : n - (i + 1) < n := by omega
    obtain ⟨v, hv⟩ := ha _ hlt
    rcases hr : srv32Step cfg (host (n - (i + 1))) (Iss.run cfg host rv (n - (i + 1)))
      with ⟨e, u⟩
    obtain rfl : e = .code v := (congrArg Prod.fst hr).symm.trans hv
    have hnext : Iss.run cfg host rv (n - (i + 1) + 1) = u := congrArg Prod.snd hr
    rw [contLoop_miss hf (hno _ hlt), hr]
    simp only [← hnext]
    rw [show n - (i + 1) + 1 = n - i by omega]
    exact ih (by omega)

end Loop

theorem returns_iff (hf : Finds k m bp) (n : ℕ) :
    Returns k cfg m host rv n ↔ Alive cfg host rv n ∧ bp (Iss.run cfg host rv n).pc ∧
      ∀ j < n, ¬ bp (Iss.run cfg host rv j).pc := by
  constructor
  · intro h
    obtain ⟨fuel, hfuel⟩ := h
    rw [← contLoop_quiet] at hfuel
    obtain ⟨-, -, halive, hreason, hno⟩ := contLoop_returned (i := 0) hf hfuel
    exact ⟨fun j hj => halive j (Nat.zero_le j) hj, hreason.resolve_left Bool.false_ne_true,
      fun j hj => (not_or.mp (hno j (Nat.zero_le j) hj)).2⟩
  · intro h
    obtain ⟨ha, hbp, hno⟩ := h
    have hcomes : contLoop k cfg m host (fun _ => false) (n + 1) (n - n)
        (Iss.run cfg host rv (n - n)) = some (.returns n (Iss.run cfg host rv n)) :=
      contLoop_comes hf ha (Or.inr hbp) (fun j hj => not_or.mpr ⟨Bool.false_ne_true, hno j hj⟩) n
        le_rfl
    rw [Nat.sub_self, contLoop_quiet] at hcomes
    exact ⟨n + 1, hcomes⟩

/-- For every program and state, and every breakpoint tree: `continue` stops where it must exactly
when breakpoints at the pc and reasons to stop come together. -/
theorem cont_iff {t : BinaryTree Cell} (cfg : Config) (host : ℕ → Host) (rv : Rv) (hm : Holds m t)
    (ho : Ordered (t.map Cell.key)) (hk : t.height < k) :
    ContLaw k m (fun a => a.toInt ∈ keys t) cfg host rv ↔
      StopsTogether (fun a => a.toInt ∈ keys t) cfg host rv := by
  have hf := finds_tree hm ho hk
  rw [ContLaw, StopsTogether]
  simp only [returns_iff hf]
  exact first_iff fun n j hn hj => hn.mono hj

/-- Two `nop` and a breakpoint at the second: the call returns before it. -/
theorem cont_nop :
    let c : Cell := ⟨1, 4#32, .black, none⟩
    let m : Map := ⟨fun p => if p = 1 then some (c.toNode .left none none) else none, some 1⟩
    let rv := reset .rv32im options4k (image [0x00000013#32, 0x00000013#32])
    ContLaw 2 m (fun a => a.toInt ∈ keys (node c nil nil)) .rv32im (fun _ => .none) rv := by
  intro c m rv
  have hm : Holds m (node c nil nil) := ⟨rfl, ⟨rfl, trivial, trivial⟩, List.nodup_singleton 1⟩
  have ho : Ordered ((node c nil nil).map Cell.key) := List.pairwise_singleton _ _
  have hkey : ∀ a : Word, a.toInt ∈ keys (node c nil nil) ↔ a = 4#32 := by
    intro a
    rw [keys_node, keys_nil, List.nil_append, List.mem_singleton]
    exact BitVec.toInt_inj
  have hp0 : nextAddr .rv32im rv = 0#32 := by decide +kernel
  have hp1 : (Iss.run .rv32im (fun _ => .none) rv 1).pc = 4#32 := by decide +kernel
  have hn1 : nextAddr .rv32im (Iss.run .rv32im (fun _ => .none) rv 1) = 4#32 := by decide +kernel
  refine (cont_iff .rv32im (fun _ => .none) rv hm ho (by decide)).mpr fun n _ hbefore => ?_
  rcases n with - | - | n
  · apply iff_of_false
    · intro hb
      exact absurd ((hkey _).mp hb) (by decide)
    · intro hdue
      rcases hdue with hb | ⟨j, hj, -⟩
      · exact absurd (hp0.symm.trans ((hkey _).mp hb)) (by decide)
      · omega
  · apply iff_of_true
    · exact (hkey _).mpr hp1
    · exact Or.inl ((hkey _).mpr hn1)
  · exact absurd ((hkey _).mpr hp1) (hbefore 1 (by omega)).1

/-- `jal x0, 0` with no breakpoint set: the step returns `RV_EXIT`, and the call does not return. -/
theorem cont_selfLoop :
    let rv := reset .rv32im options4k (image [0x0000006f#32])
    Holds Map.empty nil ∧ (result .rv32im (fun _ => .none) rv 0).1 = .code rvExit ∧
      (∀ n, ¬ Returns 1 .rv32im Map.empty (fun _ => .none) rv n) ∧
      ¬ ContLaw 1 Map.empty (fun a => a.toInt ∈ keys nil) .rv32im (fun _ => .none) rv := by
  intro rv
  have hexit : (result .rv32im (fun _ => .none) rv 0).1 = .code rvExit := by decide +kernel
  have hm : Holds Map.empty nil := ⟨rfl, trivial, List.nodup_nil⟩
  have hf : Finds 1 Map.empty fun a => a.toInt ∈ keys nil :=
    finds_tree hm ordered_nil (by decide)
  have hnever : ∀ n, ¬ Returns 1 .rv32im Map.empty (fun _ => .none) rv n := by
    intro n hn
    have hstop := ((returns_iff hf n).mp hn).2.1
    simp at hstop
  refine ⟨hm, hexit, hnever, fun h => hnever 1 ?_⟩
  have hdue : ¬ Due (fun a => a.toInt ∈ keys nil) .rv32im (fun _ => .none) rv 0 := by
    intro hdue
    rcases hdue with hb | ⟨j, hj, -⟩
    · simp at hb
    · omega
  apply (h 1).mpr
  refine ⟨?_, Or.inr ⟨0, rfl, hexit⟩, ?_⟩
  · intro j hj
    obtain rfl : j = 0 := by omega
    exact ⟨_, hexit⟩
  · intro j hj
    obtain rfl : j = 0 := by omega
    exact hdue

end Srv32.Gdb

import Mathlib.Data.List.Induction

/-! Systems that answer requests, and when one of them answers as another does. -/

namespace Srv32

variable {σ τ α β : Type*}

/-- A session, of requests with the answers to them. -/
def Answers (step : σ → α → β → σ → Prop) : σ → List (α × β) → σ → Prop
  | s, [], s' => s' = s
  | s, (a, b) :: l, s' => ∃ m, step s a b m ∧ Answers step m l s'

namespace Answers

variable {S : σ → α → β → σ → Prop} {T : τ → α → β → τ → Prop} {s s' : σ} {t : τ}
  {l l' : List (α × β)} {a : α} {b : β}

theorem append : Answers S s (l ++ l') s' ↔ ∃ m, Answers S s l m ∧ Answers S m l' s' := by
  induction l generalizing s with
  | nil =>
    constructor
    · intro h
      exact ⟨s, rfl, h⟩
    · rintro ⟨m, rfl, h⟩
      exact h
  | cons r l ih =>
    constructor
    · rintro ⟨m, hm, h⟩
      obtain ⟨u, hu, h⟩ := ih.mp h
      exact ⟨u, ⟨m, hm, hu⟩, h⟩
    · rintro ⟨u, ⟨m, hm, hu⟩, h⟩
      exact ⟨m, hm, ih.mpr ⟨u, hu, h⟩⟩

theorem snoc : Answers S s (l ++ [(a, b)]) s' ↔ ∃ m, Answers S s l m ∧ S m a b s' := by
  rw [append]
  constructor
  · rintro ⟨m, hm, u, hu, rfl⟩
    exact ⟨m, hm, hu⟩
  · rintro ⟨m, hm, hu⟩
    exact ⟨m, hm, s', hu, rfl⟩

/-- A system that can follow each request of another, from states that belong together after the
requests so far, can follow a session. -/
theorem simulates {R : List α → σ → τ → Prop} (h : Answers S s l s') (h0 : R [] s t)
    (hstep : ∀ before a u b u' v, before ++ [a] <+: l.map Prod.fst → R before u v → S u a b u' →
      ∃ v', T v a b v' ∧ R (before ++ [a]) u' v') :
    ∃ t', Answers T t l t' ∧ R (l.map Prod.fst) s' t' := by
  induction l using List.reverseRecOn generalizing s' with
  | nil =>
    obtain rfl : s' = s := h
    exact ⟨t, rfl, h0⟩
  | append_singleton l r ih =>
    obtain ⟨m, hm, hr⟩ := snoc.mp h
    obtain ⟨v, hv, hrv⟩ := ih hm fun before a u b u' v hp hu => hstep before a u b u' v
      (by rw [List.map_append]; exact hp.trans (List.prefix_append _ _)) hu
    obtain ⟨v', hv', hr'⟩ := hstep _ r.1 m r.2 s' v
      (by rw [List.map_append]; exact List.prefix_rfl) hrv hr
    rw [List.map_append]
    exact ⟨v', snoc.mpr ⟨v, hv, hv'⟩, hr'⟩

/-- What every request keeps, given those before it, holds after the session. -/
theorem invariant {P : List α → σ → Prop} (h : Answers S s l s') (h0 : P [] s)
    (hstep : ∀ before a u b u', before ++ [a] <+: l.map Prod.fst → P before u → S u a b u' →
      P (before ++ [a]) u') : P (l.map Prod.fst) s' := by
  obtain ⟨-, -, hp⟩ := h.simulates (T := fun (_ : Unit) _ _ _ => True)
    (R := fun before u _ => P before u) (t := ()) h0
    fun before a u b u' _ hpre hu hstp => ⟨(), trivial, hstep before a u b u' hpre hu hstp⟩
  exact hp

end Answers

end Srv32

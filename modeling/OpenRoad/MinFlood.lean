import Mathlib.Data.Finset.Card
import Mathlib.Logic.Relation
import Mathlib.Order.Defs.LinearOrder
import Mathlib.Tactic.Common

/-!
A value is flooded through a graph depth first: a successor with a larger value takes the value over
and is flooded from in turn. What is lowered in the end are the points that are reached through
larger values only, in whatever order the successors are visited.
-/

namespace OpenRoad.MinFlood

variable {α β : Type*} [LinearOrder β]

/-- `f` is reached from `e` through points with a value above `x`. -/
def Above (next : α → List α) (s : α → β) (x : β) : α → α → Prop :=
  Relation.TransGen fun a b => b ∈ next a ∧ x < s b

variable {next : α → List α} {s s' : α → β} {x : β} {e : α}

theorem Above.mono (hle : ∀ f, s' f ≤ s f) {a b : α} (h : Above next s' x a b) :
    Above next s x a b :=
  Relation.TransGen.mono (fun _ c hc => ⟨hc.1, lt_of_lt_of_le hc.2 (hle c)⟩) a b h

theorem Above.lt {a b : α} (h : Above next s x a b) : x < s b := by
  cases h with
  | single h => exact h.2
  | tail _ h => exact h.2

/-- The points that are lowered from `s` to `s'`, and that all their successors are low. -/
structure Lowered (next : α → List α) (s s' : α → β) (x : β) (e : α) : Prop where
  changed : ∀ f, s' f = s f ∨ (s' f = x ∧ Above next s x e f)
  closed : ∀ f, s' f ≠ s f → ∀ g ∈ next f, s' g ≤ x

namespace Lowered

theorem refl : Lowered next s s x e := ⟨fun _ => .inl rfl, fun _ h => absurd rfl h⟩

theorem le (h : Lowered next s s' x e) (f : α) : s' f ≤ s f := by
  rcases h.changed f with heq | ⟨heq, habove⟩
  · exact heq.le
  · exact heq ▸ habove.lt.le

/-- A point that has the value keeps it. -/
theorem keeps (h : Lowered next s s' x e) {g : α} (hx : s g = x) : s' g = x := by
  rcases h.changed g with heq | ⟨heq, -⟩
  · exact heq.trans hx
  · exact heq

/-- One more successor, flooded from in turn. -/
theorem step [DecidableEq α] {t u : α → β} {f : α} (h : Lowered next s t x e) (hf : f ∈ next e) (hlt : x < t f)
    (hrec : Lowered next (Function.update t f x) u x f) (hnext : ∀ g ∈ next f, u g ≤ x) :
    Lowered next s u x e ∧ u f ≤ x := by
  have hle : ∀ g, Function.update t f x g ≤ s g := by
    intro g
    by_cases hg : g = f
    · subst hg
      rw [Function.update_self]
      exact (lt_of_lt_of_le hlt (h.le g)).le
    · rw [Function.update_of_ne hg]
      exact h.le g
  have hself : u f = x := hrec.keeps (Function.update_self ..)
  have hedge : Above next s x e f := .single ⟨hf, lt_of_lt_of_le hlt (h.le f)⟩
  refine ⟨⟨fun g => ?_, fun g hg k hk => ?_⟩, hself.le⟩
  · rcases hrec.changed g with heq | ⟨heq, habove⟩
    · by_cases hgf : g = f
      · subst hgf
        exact .inr ⟨hself, hedge⟩
      · rw [Function.update_of_ne hgf] at heq
        rw [heq]
        exact h.changed g
    · exact .inr ⟨heq, hedge.trans (habove.mono hle)⟩
  · by_cases hchanged : u g = Function.update t f x g
    · by_cases hgf : g = f
      · subst hgf
        exact hnext k hk
      · rw [Function.update_of_ne hgf] at hchanged
        have hlow : t k ≤ x := h.closed g (hchanged ▸ hg) k hk
        refine (hrec.le k).trans ?_
        by_cases hkf : k = f
        · exact absurd (hkf ▸ hlow) (not_le.mpr hlt)
        · rw [Function.update_of_ne hkf]
          exact hlow
    · exact hrec.closed g hchanged k hk

end Lowered

/-! ### The flood -/

section Flood

variable [DecidableEq α]

/-- The successors that are still larger take the value of `e`. -/
def relax (recur : α → (α → β) → Option (α → β)) (e : α) : List α → (α → β) → Option (α → β)
  | [], s => some s
  | f :: fs, s =>
      if s e < s f then (recur f (Function.update s f (s e))).bind (relax recur e fs)
      else relax recur e fs s

def flood (next : α → List α) : Nat → α → (α → β) → Option (α → β)
  | 0, _, _ => none
  | fuel + 1, e, s => relax (flood next fuel) e (next e) s

theorem relax_spec {recur : α → (α → β) → Option (α → β)}
    (hrecur : ∀ f t u, recur f t = some u → Lowered next t u (t f) f ∧ ∀ g ∈ next f, u g ≤ t f) :
    ∀ (fs : List α) (t u : α → β), (∀ f ∈ fs, f ∈ next e) → t e = x → Lowered next s t x e →
      relax recur e fs t = some u → Lowered next s u x e ∧ (∀ f, u f ≤ t f) ∧ ∀ f ∈ fs, u f ≤ x := by
  intro fs
  induction fs with
  | nil =>
      intro t u _ _ ht h
      obtain rfl := Option.some.inj h
      exact ⟨ht, fun _ => le_rfl, by simp⟩
  | cons f fs ih =>
      intro t u hfs hx ht h
      obtain ⟨hf, hfs⟩ := List.forall_mem_cons.mp hfs
      rw [relax, hx] at h
      split at h
      next hlt =>
        obtain ⟨t₁, hrec, hrest⟩ := Option.bind_eq_some_iff.mp h
        obtain ⟨hlowered, hnext⟩ := hrecur f _ t₁ hrec
        rw [Function.update_self] at hlowered hnext
        obtain ⟨ht₁, hf₁⟩ := ht.step hf hlt hlowered hnext
        have hle : ∀ g, t₁ g ≤ t g := by
          intro g
          refine (hlowered.le g).trans ?_
          by_cases hg : g = f
          · subst hg
            rw [Function.update_self]
            exact hlt.le
          · rw [Function.update_of_ne hg]
        have hne : e ≠ f := fun heq => lt_irrefl x (by rw [← heq, hx] at hlt; exact hlt)
        have hx₁ : t₁ e = x := hlowered.keeps (by rw [Function.update_of_ne hne, hx])
        obtain ⟨hu, hut, hlow⟩ := ih t₁ u hfs hx₁ ht₁ hrest
        exact ⟨hu, fun g => (hut g).trans (hle g),
          List.forall_mem_cons.mpr ⟨(hut f).trans hf₁, hlow⟩⟩
      next hge =>
        obtain ⟨hu, hut, hlow⟩ := ih t u hfs hx ht h
        exact ⟨hu, hut, List.forall_mem_cons.mpr ⟨(hut f).trans (not_lt.mp hge), hlow⟩⟩

theorem flood_spec :
    ∀ (fuel : Nat) (e : α) (s s' : α → β), flood next fuel e s = some s' →
      Lowered next s s' (s e) e ∧ ∀ f ∈ next e, s' f ≤ s e := by
  intro fuel
  induction fuel with
  | zero => intro e s s' h; exact absurd h (by simp [flood])
  | succ fuel ih =>
      intro e s s' h
      obtain ⟨hlowered, -, hnext⟩ :=
        relax_spec ih (next e) s s' (fun _ hf => hf) rfl Lowered.refl h
      exact ⟨hlowered, hnext⟩

/-- The result of a flood: exactly the points reached through larger values are lowered. -/
theorem flood_eq {fuel : Nat} (h : flood next fuel e s = some s') (f : α) :
    (Above next s (s e) e f → s' f = s e) ∧ (¬Above next s (s e) e f → s' f = s f) := by
  obtain ⟨hlowered, hnext⟩ := flood_spec fuel e s s' h
  have hreached : ∀ g, s' g ≤ s e → s e < s g → s' g = s e := by
    intro g hle hlt
    rcases hlowered.changed g with heq | ⟨heq, -⟩
    · exact absurd (heq ▸ hle) (not_le.mpr hlt)
    · exact heq
  refine ⟨fun habove => ?_, fun hnot => ?_⟩
  · -- along the path every point is lowered, so the successors of the last one are low
    induction habove with
    | single hstep => exact hreached _ (hnext _ hstep.1) hstep.2
    | tail hpath hstep ih =>
        have hchanged := ih.trans_ne (Above.lt hpath).ne
        exact hreached _ (hlowered.closed _ hchanged _ hstep.1) hstep.2
  · rcases hlowered.changed f with heq | ⟨-, habove⟩
    · exact heq
    · exact absurd habove hnot

theorem relax_of_le (recur : α → (α → β) → Option (α → β)) :
    ∀ fs : List α, (∀ f ∈ fs, s f ≤ s e) → relax recur e fs s = some s := by
  intro fs
  induction fs with
  | nil => intro _; rfl
  | cons f fs ih =>
      intro hle
      obtain ⟨hf, hle⟩ := List.forall_mem_cons.mp hle
      rw [relax, if_neg (not_lt.mpr hf)]
      exact ih hle

/-- Nothing changes where the successors are low already. -/
theorem flood_of_le {fuel : Nat} (hfuel : 0 < fuel) (h : ∀ f ∈ next e, s f ≤ s e) :
    flood next fuel e s = some s := by
  obtain ⟨n, rfl⟩ := Nat.exists_eq_add_one_of_ne_zero hfuel.ne'
  exact relax_of_le _ (next e) h

end Flood

/-! ### Termination -/

section Total

variable {all : Finset α}

/-- The points that can still be lowered. -/
def above (all : Finset α) (x : β) (s : α → β) : Finset α := all.filter fun f => x < s f

theorem above_mono (hle : ∀ f, s' f ≤ s f) : above all x s' ⊆ above all x s := by
  intro f hf
  rw [above, Finset.mem_filter] at hf ⊢
  exact ⟨hf.1, lt_of_lt_of_le hf.2 (hle f)⟩

variable [DecidableEq α]

theorem above_update_lt {f : α} (hf : f ∈ all) (hlt : x < s f) :
    (above all x (Function.update s f x)).card < (above all x s).card := by
  apply Finset.card_lt_card
  refine Finset.ssubset_iff_of_subset (above_mono fun g => ?_) |>.mpr ⟨f, ?_, ?_⟩
  · by_cases hg : g = f
    · subst hg
      rw [Function.update_self]
      exact hlt.le
    · rw [Function.update_of_ne hg]
  · exact Finset.mem_filter.mpr ⟨hf, hlt⟩
  · simp [above]

theorem relax_total {fuel : Nat}
    (hflood : ∀ f (t : α → β), (above all (t f) t).card < fuel → ∃ u, flood next fuel f t = some u) :
    ∀ (fs : List α) (t : α → β), (∀ f ∈ fs, f ∈ all) → (above all (t e) t).card < fuel + 1 →
      ∃ u, relax (flood next fuel) e fs t = some u := by
  intro fs
  induction fs with
  | nil => intro t _ _; exact ⟨t, rfl⟩
  | cons f fs ih =>
      intro t hall hcard
      obtain ⟨hf, hall⟩ := List.forall_mem_cons.mp hall
      rw [relax]
      split
      next hlt =>
        have hupdate := above_update_lt hf hlt
        obtain ⟨t₁, ht₁⟩ := hflood f (Function.update t f (t e)) (by
          rw [Function.update_self]
          omega)
        have hlowered := (flood_spec fuel f _ t₁ ht₁).1
        rw [Function.update_self] at hlowered
        have hne : e ≠ f := fun heq => lt_irrefl (t e) (by rw [← heq] at hlt; exact hlt)
        have hx₁ : t₁ e = t e := hlowered.keeps (Function.update_of_ne hne ..)
        have hcard₁ : (above all (t₁ e) t₁).card < fuel + 1 := by
          rw [hx₁]
          have hmono : above all (t e) t₁ ⊆ above all (t e) (Function.update t f (t e)) :=
            above_mono hlowered.le
          have := Finset.card_le_card hmono
          omega
        rw [ht₁]
        exact ih t₁ hall hcard₁
      next => exact ih t hall hcard

/-- The flood ends as soon as there is more fuel than points that can be lowered. -/
theorem flood_total (hall : ∀ e, ∀ f ∈ next e, f ∈ all) :
    ∀ (fuel : Nat) (e : α) (s : α → β), (above all (s e) s).card < fuel →
      ∃ s', flood next fuel e s = some s' := by
  intro fuel
  induction fuel with
  | zero => intro e s h; exact absurd h (Nat.not_lt_zero _)
  | succ fuel ih =>
      intro e s h
      exact relax_total ih (next e) s (hall e) h

end Total

end OpenRoad.MinFlood

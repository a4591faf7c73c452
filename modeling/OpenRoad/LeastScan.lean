import Mathlib.Data.List.MinMax

/-!
Scans for a least candidate. A scan keeps the best candidate so far and gives it up only for one
that costs less; it ends with the first of the cheapest.
-/

namespace OpenRoad

variable {α β : Type*} [LinearOrder β]

/-- The candidate comes with its cost; it has to cost less to be kept. -/
def keepLess (best candidate : β × α) : β × α := if candidate.1 < best.1 then candidate else best

theorem keepLess_assoc (a b c : β × α) : keepLess (keepLess a b) c = keepLess a (keepLess b c) := by
  unfold keepLess
  by_cases hba : b.1 < a.1
  · rw [if_pos hba]
    by_cases hcb : c.1 < b.1
    · rw [if_pos hcb, if_pos (hcb.trans hba)]
    · rw [if_neg hcb, if_pos hba]
  · rw [if_neg hba]
    by_cases hcb : c.1 < b.1
    · rw [if_pos hcb]
    · have hca : ¬c.1 < a.1 := fun hca => hcb (hca.trans_le (not_lt.mp hba))
      rw [if_neg hcb, if_neg hca, if_neg hba]

/-- A scan may look at a part of the candidates on its own first. -/
theorem foldl_keepLess_cons (best candidate : β × α) (candidates : List (β × α)) :
    (candidate :: candidates).foldl keepLess best =
      keepLess best (candidates.foldl keepLess candidate) := by
  induction candidates generalizing candidate with
  | nil => rfl
  | cons next candidates ih =>
      calc (candidate :: next :: candidates).foldl keepLess best
          = candidates.foldl keepLess (keepLess (keepLess best candidate) next) := rfl
        _ = candidates.foldl keepLess (keepLess best (keepLess candidate next)) := by
            rw [keepLess_assoc]
        _ = keepLess best (candidates.foldl keepLess (keepLess candidate next)) := ih _

theorem foldl_keepLess (cost : α → β) (start : β × α) (list : List α) :
    (list.map fun a => (cost a, a)).foldl keepLess start =
      match list.argmin cost with
      | none => start
      | some a => keepLess start (cost a, a) := by
  induction list using List.reverseRecOn with
  | nil => rfl
  | append_singleton list a ih =>
      rw [List.map_append, List.foldl_append, ih, List.argmin_concat]
      cases list.argmin cost with
      | none => rfl
      | some least =>
          change keepLess (keepLess start (cost least, least)) (cost a, a) = _
          rw [keepLess_assoc]
          by_cases hless : cost a < cost least
          · simp only [keepLess, if_pos hless]
          · simp only [keepLess, if_neg hless]

/-- A scan of candidates that all cost less than what it starts with ends with the first of the
cheapest. -/
theorem foldl_keepLess_argmin {cost : α → β} {start : β × α} {list : List α} (hne : list ≠ [])
    (hlt : ∀ a ∈ list, cost a < start.1) :
    ∃ a ∈ list.argmin cost,
      (list.map fun a => (cost a, a)).foldl keepLess start = (cost a, a) := by
  have hfold := foldl_keepLess cost start list
  cases hleast : list.argmin cost with
  | none => exact absurd (List.argmin_eq_none.mp hleast) hne
  | some a =>
      rw [hleast] at hfold
      refine ⟨a, rfl, hfold.trans ?_⟩
      exact if_pos (hlt a (List.argmin_mem (Option.mem_def.mpr hleast)))

end OpenRoad

import Mathlib.Data.List.Perm.Basic

/-!
Priority queues as a standard library promises them: what is popped is one of the elements that none
of the others exceeds. Which of several such elements comes first is left open.
-/

namespace OpenRoad

/-- How a priority queue with the order `less` pops from its elements. -/
structure TopQueue {α : Type*} (less : α → α → Bool) where
  pop : List α → Option (α × List α)
  pop_nil : pop [] = none
  pop_perm : ∀ {queue top rest}, pop queue = some (top, rest) → queue.Perm (top :: rest)
  pop_top : ∀ {queue top rest}, pop queue = some (top, rest) → ∀ other ∈ rest, less top other = false
  pop_isSome : ∀ {queue}, queue ≠ [] → (pop queue).isSome = true

namespace TopQueue

variable {α : Type*} {less : α → α → Bool}

theorem pop_none (Q : TopQueue less) {queue : List α} (h : Q.pop queue = none) : queue = [] := by
  by_contra hne
  have hsome := Q.pop_isSome hne
  rw [h] at hsome
  cases hsome

theorem mem_of_pop (Q : TopQueue less) {queue rest : List α} {top : α}
    (h : Q.pop queue = some (top, rest)) : top ∈ queue :=
  (Q.pop_perm h).mem_iff.mpr List.mem_cons_self

theorem mem_pop_iff (Q : TopQueue less) {queue rest : List α} {top other : α}
    (h : Q.pop queue = some (top, rest)) : other ∈ queue ↔ other = top ∨ other ∈ rest := by
  rw [(Q.pop_perm h).mem_iff, List.mem_cons]

/-- The best of a list and a first candidate. -/
def best (less : α → α → Bool) (first : α) (queue : List α) : α :=
  queue.foldl (fun top other => if less top other then other else top) first

theorem best_mem (first : α) (queue : List α) : best less first queue ∈ first :: queue := by
  induction queue generalizing first with
  | nil => exact List.mem_cons_self
  | cons other queue ih =>
      unfold best
      rw [List.foldl_cons]
      split
      · exact List.mem_cons_of_mem _ (ih other)
      · rcases List.mem_cons.mp (ih first) with h | h
        · exact List.mem_cons.mpr (Or.inl h)
        · exact List.mem_cons_of_mem _ (List.mem_cons_of_mem _ h)

/-- No element exceeds the best one. -/
theorem best_not_less (hirrefl : ∀ a, less a a = false)
    (htrans : ∀ a b c, less a b = true → less b c = true → less a c = true) (first : α)
    (queue : List α) : ∀ other ∈ first :: queue, less (best less first queue) other = false := by
  have hgeneral : ∀ (queue seen : List α) (top : α), (∀ x ∈ seen, less top x = false) →
      ∀ x ∈ seen ++ queue, less (best less top queue) x = false := by
    intro queue
    induction queue with
    | nil =>
        intro seen top hseen x hx
        rw [List.append_nil] at hx
        exact hseen x hx
    | cons other queue ih =>
        intro seen top hseen x hx
        have hx' : x ∈ (seen ++ [other]) ++ queue := by simpa using hx
        unfold best
        rw [List.foldl_cons]
        split
        · rename_i hless
          refine ih (seen ++ [other]) other (fun y hy => ?_) x hx'
          rcases List.mem_append.mp hy with hy | hy
          · rw [← Bool.not_eq_true]
            intro hxy
            have := hseen y hy
            rw [htrans top other y hless hxy] at this
            cases this
          · rw [List.mem_singleton.mp hy]
            exact hirrefl other
        · rename_i hless
          refine ih (seen ++ [other]) top (fun y hy => ?_) x hx'
          rcases List.mem_append.mp hy with hy | hy
          · exact hseen y hy
          · rw [List.mem_singleton.mp hy]
            exact Bool.not_eq_true _ ▸ hless
  intro other hother
  refine hgeneral queue [first] first (fun x hx => ?_) other hother
  rw [List.mem_singleton.mp hx]
  exact hirrefl first

/-- The queue that pops the first of the best elements. -/
def firstBest [DecidableEq α] (less : α → α → Bool) (hirrefl : ∀ a, less a a = false)
    (htrans : ∀ a b c, less a b = true → less b c = true → less a c = true) : TopQueue less where
  pop
    | [] => none
    | first :: queue =>
        some (best less first queue, (first :: queue).erase (best less first queue))
  pop_nil := rfl
  pop_perm := by
    intro queue top rest h
    cases queue with
    | nil => cases h
    | cons first queue =>
        obtain ⟨rfl, rfl⟩ := Prod.mk.inj (Option.some.inj h)
        exact List.perm_cons_erase (best_mem first queue)
  pop_top := by
    intro queue top rest h other hother
    cases queue with
    | nil => cases h
    | cons first queue =>
        obtain ⟨rfl, rfl⟩ := Prod.mk.inj (Option.some.inj h)
        exact best_not_less hirrefl htrans first queue other (List.mem_of_mem_erase hother)
  pop_isSome := by
    intro queue hne
    cases queue with
    | nil => exact absurd rfl hne
    | cons first queue => rfl

/-- A queue for an order that decides more ties. -/
def coarsen {finer : α → α → Bool} (Q : TopQueue finer)
    (h : ∀ a b, less a b = true → finer a b = true) : TopQueue less where
  pop := Q.pop
  pop_nil := Q.pop_nil
  pop_perm := Q.pop_perm
  pop_top := by
    intro queue top rest hpop other hother
    rw [← Bool.not_eq_true]
    intro hless
    have hnot := Q.pop_top hpop other hother
    rw [h top other hless] at hnot
    cases hnot
  pop_isSome := Q.pop_isSome

end TopQueue

end OpenRoad

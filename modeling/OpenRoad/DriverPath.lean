import Mathlib.Logic.Basic

/-!
Drivers and loads. A relation says which loads a driver drives; a load is below as many drivers as
the path from the top has steps.
-/

namespace OpenRoad.DriverPath

variable {α : Type*}

/-- There is a path of `n` steps from the top. -/
inductive Below (drives : α → α → Prop) (top : α) : α → Nat → Prop where
  | top : Below drives top top 0
  | load {driver load : α} {n : Nat} :
      Below drives top driver n → drives driver load → Below drives top load (n + 1)

namespace Below

variable {drives drives' : α → α → Prop} {top a b : α} {m n : Nat}

/-- A path no longer than those to what changes its driver is kept. -/
theorem keep {changed : α → Prop}
    (hkeeps : ∀ driver load, drives driver load → ¬changed load → drives' driver load)
    (hdeep : ∀ load k, changed load → Below drives top load k → m < k)
    (hbelow : Below drives top a n) (hle : n ≤ m) : Below drives' top a n := by
  induction hbelow with
  | top => exact .top
  | @load driver load n hdriver hdrives ih =>
      have hnot : ¬changed load := fun hchanged =>
        absurd (hdeep load (n + 1) hchanged (.load hdriver hdrives)) (Nat.not_lt_of_le hle)
      exact .load (ih (Nat.le_of_succ_le hle)) (hkeeps driver load hdrives hnot)

/-- When what changes its driver still has a path, everything has. -/
theorem reroute {changed : α → Prop}
    (hkeeps : ∀ driver load, drives driver load → ¬changed load → drives' driver load)
    (hchanged : ∀ load, changed load → ∃ k, Below drives' top load k)
    (hbelow : Below drives top a n) : ∃ k, Below drives' top a k := by
  induction hbelow with
  | top => exact ⟨0, .top⟩
  | @load driver load n hdriver hdrives ih =>
      by_cases hload : changed load
      · exact hchanged load hload
      · obtain ⟨k, hk⟩ := ih
        exact ⟨k + 1, .load hk (hkeeps driver load hdrives hload)⟩

/-- Where every load has one driver and the top has none, there is one path to each. -/
theorem unique (hone : ∀ driver driver' load, drives driver load → drives driver' load →
      driver = driver') (htop : ∀ driver, ¬drives driver top)
    (hm : Below drives top a m) (hn : Below drives top a n) : m = n := by
  induction hm generalizing n with
  | top =>
      cases hn with
      | top => rfl
      | load _ hdrives => exact absurd hdrives (htop _)
  | load _ hdrives ih =>
      cases hn with
      | top => exact absurd hdrives (htop _)
      | load hdriver' hdrives' =>
          have heq := hone _ _ _ hdrives hdrives'
          rw [heq] at ih
          rw [ih hdriver']

end Below

end OpenRoad.DriverPath

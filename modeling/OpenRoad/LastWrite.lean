import Mathlib.Data.List.Induction
import Mathlib.Data.List.Nodup
import Mathlib.Logic.Function.Basic

/-!
Tables that are written entry by entry: a key has the value that was last written to it.
-/

namespace OpenRoad.LastWrite

variable {κ ν : Type*} [DecidableEq κ]

/-- The table after some writes. -/
def recorded (writes : List (κ × ν)) : κ → Option ν :=
  writes.foldl (fun table write => Function.update table write.1 (some write.2)) fun _ => none

theorem recorded_concat (writes : List (κ × ν)) (write : κ × ν) :
    recorded (writes ++ [write]) = Function.update (recorded writes) write.1 (some write.2) := by
  unfold recorded
  rw [List.foldl_append]
  rfl

theorem mem_of_recorded {writes : List (κ × ν)} {key : κ} {value : ν}
    (hrecorded : recorded writes key = some value) : (key, value) ∈ writes := by
  induction writes using List.reverseRecOn with
  | nil => exact absurd hrecorded (Option.some_ne_none value).symm
  | append_singleton writes write ih =>
      rw [recorded_concat] at hrecorded
      by_cases heq : key = write.1
      · rw [heq, Function.update_self] at hrecorded
        refine List.mem_append_right _ (List.mem_singleton.mpr ?_)
        exact Prod.ext heq (Option.some.inj hrecorded).symm
      · rw [Function.update_of_ne heq] at hrecorded
        exact List.mem_append_left _ (ih hrecorded)

theorem exists_recorded {writes : List (κ × ν)} {key : κ} (hkey : key ∈ writes.map Prod.fst) :
    ∃ value, recorded writes key = some value := by
  induction writes using List.reverseRecOn with
  | nil => exact absurd hkey List.not_mem_nil
  | append_singleton writes write ih =>
      rw [recorded_concat]
      by_cases heq : key = write.1
      · rw [heq, Function.update_self]
        exact ⟨write.2, rfl⟩
      · rw [Function.update_of_ne heq]
        rw [List.map_append, List.mem_append, List.map_singleton, List.mem_singleton] at hkey
        exact ih (hkey.resolve_right heq)

end OpenRoad.LastWrite

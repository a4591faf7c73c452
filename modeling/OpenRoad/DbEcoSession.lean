import OpenRoad.DbConnectRestore
import OpenRoad.DbInstRestore

/-!
Undoing sessions that mix connections with the placement of instances: an instance that is destroyed
comes back with its iterms on their nets.
-/

namespace OpenRoad.Db.Block

variable {B B' : Block}

/-- The calls of a session that are taken back. -/
def SessionUndone (B : Block) (op : BlockOp) : Prop :=
  (isConnectOp op = true ∧ B.ConnectUndone op) ∨ (isPlacementOp op = true ∧ B.PlacementUndone op)

instance (B : Block) (op : BlockOp) : Decidable (B.SessionUndone op) :=
  inferInstanceAs (Decidable ((_ ∧ _) ∨ (_ ∧ _)))

theorem stepOk_undoes (B : Block) (op : BlockOp) (B' : Block) (hB : B.Ok)
    (hok : B.SessionUndone op) (hstep : B.stepOk op = some B') : Undoes B B' ∧ B'.Ok := by
  rcases hok with hconnect | hplace
  · apply step_connect_undoes B op B' hB hconnect
    unfold stepOk at hstep
    unfold step
    split_ifs at hstep ⊢
    cases hperform : B.perform op with
    | ok B₁ => rwa [hperform] at hstep
    | error code B₁ => rw [hperform] at hstep; cases hstep
    | abort => rw [hperform] at hstep; cases hstep
  · exact stepOk_placement_undoes B op B' hB hplace hstep

/-- After a session of both kinds of calls, in any order, `undoEco` raises no error and leaves the
nets and the placement of the block as they were. -/
theorem undoEco_session (shifts : PageShifts) (master : MasterId → Master) (topModule : Nat)
    (built session : List BlockOp) (B B' : Block)
    (hkeeps : Run.Along stepOk KeepsLists (empty shifts master topModule) built)
    (hbuilt : Run.run stepOk (empty shifts master topModule) built = some B)
    (hundone : Run.Along stepOk SessionUndone B.beginEco session)
    (hsession : Run.run stepOk B.beginEco session = some B') :
    ∃ U, B'.undoEco = .ok U ∧ SameNets B U ∧ SamePlacement B U := by
  have hB : B.Ok := ok_of_run hkeeps hbuilt
  obtain ⟨hundoes, hB'⟩ := Run.run_related Undoes.refl (fun _ _ _ => Undoes.trans) stepOk_undoes
    hB.beginEco hundone hsession
  obtain ⟨U, hU, hrestored⟩ := hundoes.undoEco hB'
  exact ⟨U, hU, hrestored.sameNets hB, hrestored.samePlacement⟩

/-- A master of two terminals. -/
def inverter : Master := ⟨4, 2, ⟨0, 0⟩, ["in", "out"], by decide⟩

/-- A new block with small pages. -/
def inverterBlock : Block := empty ⟨1, 1, 1, 1, 1, 1, 1⟩ (fun _ => inverter) 1

/-- An instance on two nets. -/
def wiredInverter : List BlockOp :=
  [.netCreate "a" false, .netCreate "b" false, .instCreate ⟨1, 1⟩ "u" 0 false 0, .itermConnect 1 1,
    .itermConnect 2 2]

/-- The instance is rewired, placed and destroyed. -/
def removeInverter : List BlockOp :=
  [.itermConnect 1 2, .netCreate "c" false, .itermConnect 2 3, .instSetOrigin 1 5 7,
    .instSetPlacementStatus 1 .PLACED, .instDestroy 1]

theorem undoEco_session_remove : ∃ B B' U, Run.run stepOk inverterBlock wiredInverter = some B ∧
    Run.run stepOk B.beginEco removeInverter = some B' ∧
    B'.undoEco = .ok U ∧ SameNets B U ∧ SamePlacement B U := by
  have hruns : ((Run.run stepOk inverterBlock wiredInverter).bind fun B =>
      if Run.Along stepOk SessionUndone B.beginEco removeInverter
      then Run.run stepOk B.beginEco removeInverter else none).isSome = true := by decide +kernel
  obtain ⟨B', hB'⟩ := Option.isSome_iff_exists.mp hruns
  obtain ⟨B, hB, hif⟩ := Option.bind_eq_some_iff.mp hB'
  split_ifs at hif with hok
  obtain ⟨U, hU, hsame⟩ := undoEco_session _ _ 1 wiredInverter removeInverter B B'
    (by decide +kernel) hB hok hif
  exact ⟨B, B', U, hB, hif, hU, hsame⟩

end OpenRoad.Db.Block

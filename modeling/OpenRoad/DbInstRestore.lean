import OpenRoad.DbInstUndo

/-!
Undoing whole runs of calls that create, destroy, place and swap instances: which calls are taken
back, and that a run of such calls is.
-/

namespace OpenRoad.Db
open LinkedList

namespace Block

variable {B B' U : Block}

/-- The calls that create, destroy, place and swap instances. -/
def isPlacementOp : BlockOp → Bool
  | .instCreate _ _ _ _ _ | .instDestroy _ | .instSetOrigin _ _ _ | .instSetLocation _ _ _
  | .instSetOrient _ _ | .instSetPlacementStatus _ _ | .instSwapMaster _ _ => true
  | _ => false

instance (o : Inst) : Decidable (KeepsNewBox o) := by unfold KeepsNewBox; infer_instance

instance (B : Block) (o : Inst) : Decidable (DestroyUndone B o) :=
  decidable_of_iff
    ((B.orientedBoundary o).xMin = 0 ∧ (B.orientedBoundary o).yMin = 0 ∧
      (KeepsNewBox o ∨ o.flags.status.isFixed = false) ∧
      (KeepsNewBox o →
        o.bbox = Rect.init 0 0 (B.master o.master).width (B.master o.master).height) ∧
      (¬ KeepsNewBox o → o.bbox = B.instBox o) ∧ (o.module = 0 ∨ o.flags.physicalOnly = false))
    ⟨fun ⟨h1, h2, h3, h4, h5, h6⟩ => ⟨h1, h2, h3, h4, h5, h6⟩,
      fun ⟨h1, h2, h3, h4, h5, h6⟩ => ⟨h1, h2, h3, h4, h5, h6⟩⟩

/-- Moving is taken back where the call does nothing or the box was the one computed. -/
def MoveUndone (B : Block) (i : Nat) (x y : Int) : Prop :=
  ((B.inst i).flags.status.isPlaced = true ∧ (B.inst i).x = x ∧ (B.inst i).y = y) ∨
    (B.inst i).bbox = B.instBox (B.inst i)

instance (B : Block) (i : Nat) (x y : Int) : Decidable (MoveUndone B i x y) := by
  unfold MoveUndone; infer_instance

/-- The calls that are taken back. -/
def PlacementUndone (B : Block) : BlockOp → Prop
  | .instDestroy i => DestroyUndone B (B.inst i)
  | .instSetOrigin i x y => MoveUndone B i x y
  | .instSetLocation i x y =>
      MoveUndone B i (x - (B.orientedBoundary (B.inst i)).xMin)
        (y - (B.orientedBoundary (B.inst i)).yMin)
  | .instSetOrient i orient =>
      orient = (B.inst i).flags.orient ∨ (B.inst i).bbox = B.instBox (B.inst i)
  | .instSwapMaster i _ => (B.inst i).hierarchy = true ∨ (B.inst i).bbox = B.instBox (B.inst i)
  | _ => True

instance (B : Block) (op : BlockOp) : Decidable (B.PlacementUndone op) := by
  apply BlockOp.casesOn (motive := fun op => Decidable (B.PlacementUndone op)) op <;> intros <;>
    dsimp only [PlacementUndone] <;> infer_instance

theorem keepsLists_of_isPlacementOp {op : BlockOp} (hop : isPlacementOp op = true) :
    B.KeepsLists op := by
  cases op <;> trivial

theorem perform_placement_undoes (hB : B.Ok) {op : BlockOp} (hop : isPlacementOp op = true)
    (hok : B.PlacementUndone op) (hvalid : B.validOp op = true) (h : B.perform op = .ok B') :
    Undoes B B' := by
  cases op <;> first | exact absurd hop Bool.false_ne_true | skip
  case instCreate m name region physicalOnly parentModule =>
    cases hcreate : B.instCreate m name region physicalOnly parentModule with
    | none => rw [perform, hcreate] at h; exact absurd h (by simp [Res.ofCreate])
    | some r =>
        rw [perform, hcreate] at h
        obtain rfl := Res.ok.inj h
        exact undoes_instCreate hB hcreate
  case instDestroy i => exact undoes_instDestroy hB hok h
  case instSetOrigin i x y => exact undoes_instSetOrigin (hB.instTbl.validId_iff.mp hvalid) hok h
  case instSetLocation i x y => exact undoes_instSetOrigin (hB.instTbl.validId_iff.mp hvalid) hok h
  case instSetOrient i orient => exact undoes_instSetOrient (hB.instTbl.validId_iff.mp hvalid) hok h
  case instSetPlacementStatus i status =>
    obtain rfl := Res.ok.inj h
    exact undoes_instSetPlacementStatus (hB.instTbl.validId_iff.mp hvalid) status
  case instSwapMaster i m => exact undoes_instSwapMaster hB (hB.instTbl.validId_iff.mp hvalid) hok h

theorem stepOk_placement_undoes (B : Block) (op : BlockOp) (B' : Block) (hB : B.Ok)
    (hok : isPlacementOp op = true ∧ B.PlacementUndone op) (hstep : B.stepOk op = some B') :
    Undoes B B' ∧ B'.Ok := by
  obtain ⟨hop, hok⟩ := hok
  refine ⟨?_, stepOk_ok B op B' hB (keepsLists_of_isPlacementOp hop) hstep⟩
  unfold stepOk at hstep
  split_ifs at hstep with hvalid
  cases hperform : B.perform op with
  | ok B₁ =>
      rw [hperform] at hstep
      obtain rfl := Option.some.inj hstep
      exact perform_placement_undoes hB hop hok hvalid hperform
  | error code B₁ => rw [hperform] at hstep; exact absurd hstep (by simp [Res.ok?])
  | abort => rw [hperform] at hstep; exact absurd hstep (by simp [Res.ok?])

theorem run_placement_undoes (hB : B.Ok) {ops : List BlockOp}
    (hops : ∀ op ∈ ops, isPlacementOp op = true) (hok : Run.Along stepOk PlacementUndone B ops)
    (hrun : Run.run stepOk B ops = some B') : Undoes B B' ∧ B'.Ok :=
  Run.run_related Undoes.refl (fun _ _ _ => Undoes.trans) stepOk_placement_undoes hB
    (hok.imp fun op hop _ h => ⟨hops op hop, h⟩) hrun

/-! ### The placement afterwards -/

/-- The same instances, of the same names, masters and placement. -/
structure SamePlacement (B U : Block) : Prop where
  insts : U.instTbl.allocated = B.instTbl.allocated
  name : ∀ i ∈ B.instTbl.allocated, (U.inst i).name = (B.inst i).name
  master : ∀ i ∈ B.instTbl.allocated, (U.inst i).master = (B.inst i).master
  x : ∀ i ∈ B.instTbl.allocated, (U.inst i).x = (B.inst i).x
  y : ∀ i ∈ B.instTbl.allocated, (U.inst i).y = (B.inst i).y
  orient : ∀ i ∈ B.instTbl.allocated, (U.inst i).flags.orient = (B.inst i).flags.orient
  status : ∀ i ∈ B.instTbl.allocated, (U.inst i).flags.status = (B.inst i).flags.status
  bbox : ∀ i ∈ B.instTbl.allocated, (U.inst i).bbox = (B.inst i).bbox

theorem Restored.samePlacement (h : Restored B U) : SamePlacement B U where
  insts := h.instTbl.allocated
  name := fun i hi => by rw [(h.inst i hi).eq]
  master := fun i hi => by rw [(h.inst i hi).eq]
  x := fun i hi => by rw [(h.inst i hi).eq]
  y := fun i hi => by rw [(h.inst i hi).eq]
  orient := fun i hi => by rw [(h.inst i hi).eq]
  status := fun i hi => by rw [(h.inst i hi).eq]
  bbox := fun i hi => by rw [(h.inst i hi).eq]

/-- After a run of calls that are taken back, `undoEco` raises no error and leaves the instances as
they were before `beginEco`. -/
theorem undoEco_samePlacement (B B' : Block) (ops : List BlockOp) (hB : B.Ok)
    (hops : ∀ op ∈ ops, isPlacementOp op = true)
    (hok : Run.Along stepOk PlacementUndone B.beginEco ops)
    (hrun : Run.run stepOk B.beginEco ops = some B') :
    ∃ U, B'.undoEco = .ok U ∧ SamePlacement B U := by
  obtain ⟨hundoes, hok'⟩ := run_placement_undoes hB.beginEco hops hok hrun
  obtain ⟨U, hU, hR⟩ := hundoes.undoEco hok'
  exact ⟨U, hU, hR.samePlacement⟩

/-- A master of a filler cell. -/
def fillCell : Master := ⟨10, 20, ⟨0, 0⟩, [], List.nodup_nil⟩

/-- An instance moved, placed and destroyed, and another one created, undone. -/
theorem undoEco_samePlacement_fill : ∃ B B' U,
    Run.run stepOk (empty blockShifts (fun _ => fillCell) 1)
      [.instCreate ⟨1, 1⟩ "fill" 0 false 0] = some B ∧
    Run.run stepOk B.beginEco [.instSetOrigin 1 5 7, .instSetPlacementStatus 1 .PLACED,
      .instDestroy 1, .instCreate ⟨1, 2⟩ "other" 0 false 0] = some B' ∧
    B'.undoEco = .ok U ∧ SamePlacement B U := by
  have hruns : ((Run.run stepOk (empty blockShifts (fun _ => fillCell) 1)
      [.instCreate ⟨1, 1⟩ "fill" 0 false 0]).bind fun B =>
      if Run.Along stepOk PlacementUndone B.beginEco [.instSetOrigin 1 5 7,
        .instSetPlacementStatus 1 .PLACED, .instDestroy 1, .instCreate ⟨1, 2⟩ "other" 0 false 0]
      then Run.run stepOk B.beginEco [.instSetOrigin 1 5 7,
        .instSetPlacementStatus 1 .PLACED, .instDestroy 1, .instCreate ⟨1, 2⟩ "other" 0 false 0]
      else none).isSome = true := by decide +kernel
  obtain ⟨B', hB'⟩ := Option.isSome_iff_exists.mp hruns
  obtain ⟨B, hB, hif⟩ := Option.bind_eq_some_iff.mp hB'
  split_ifs at hif with hok
  obtain ⟨U, hU, hsame⟩ := undoEco_samePlacement B B' _ (ok_of_run (by decide +kernel) hB)
    (by decide) hok hif
  exact ⟨B, B', U, hB, hif, hU, hsame⟩

/-- An instance that was turned comes back at another origin: its origin is restored as the location
of its box. -/
theorem not_undoEco_samePlacement_destroy : ∃ B B',
    Run.run stepOk (empty blockShifts (fun _ => fillCell) 1)
      [.instCreate ⟨1, 1⟩ "fill" 0 false 0, .instSetOrient 1 .R90] = some B ∧ B.Ok ∧
    Run.run stepOk B.beginEco [.instDestroy 1] = some B' ∧
    ¬ ∃ U, B'.undoEco = .ok U ∧ SamePlacement B U := by
  have hruns : ((Run.run stepOk (empty blockShifts (fun _ => fillCell) 1)
      [.instCreate ⟨1, 1⟩ "fill" 0 false 0, .instSetOrient 1 .R90]).bind fun B =>
      (Run.run stepOk B.beginEco [.instDestroy 1]).map fun B' =>
        (decide (1 ∈ B.instTbl.allocated), (B.inst 1).x,
          B'.undoEco.ok?.map fun U => (U.inst 1).x)) = some (true, 0, some 20) := by
    decide +kernel
  obtain ⟨B, hB, hmap⟩ := Option.bind_eq_some_iff.mp hruns
  obtain ⟨B', hB', heq⟩ := Option.map_eq_some_iff.mp hmap
  obtain ⟨hlive, hx, hundo⟩ : 1 ∈ B.instTbl.allocated ∧ (B.inst 1).x = 0 ∧
      (B'.undoEco.ok?.map fun U => (U.inst 1).x) = some 20 := by simpa using heq
  refine ⟨B, B', hB, ok_of_run (by decide +kernel) hB, hB', ?_⟩
  rintro ⟨U, hU, hsame⟩
  have hxU := hsame.x 1 hlive
  rw [hU, Res.ok?, Option.map_some] at hundo
  rw [Option.some.inj hundo, hx] at hxU
  exact absurd hxU (by decide)

end Block

end OpenRoad.Db

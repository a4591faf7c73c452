import OpenRoad.DbBlockInvariant

/-!
What undoing is to achieve, and how it composes. `Restored B U` says that `U` is the block `B` up to
spare pages of its tables, the order of its lists and the journal. `Undoes B B'` says that undoing
what was journaled between `B` and `B'` leads from a block like `B'` to a block like `B`.
-/

namespace OpenRoad.Db
open LinkedList

namespace Block

/-- A block whose lists are consistent and whose iterms and instances agree. -/
structure Ok (B : Block) : Prop extends B.ListsOk where
  itermInst : ∀ t ∈ B.itermTbl.allocated,
    (B.iterm t).inst ∈ B.instTbl.allocated ∧ t ∈ (B.inst (B.iterm t).inst).iterms
  instITerms : ∀ i ∈ B.instTbl.allocated, ∀ t ∈ (B.inst i).iterms,
    t ∈ B.itermTbl.allocated ∧ (B.iterm t).inst = i
  order : ∀ i ∈ B.instTbl.allocated, (B.inst i).iterms.map (fun t => (B.iterm t).mtermIdx) =
    List.range (B.master (B.inst i).master).mterms.length
  names : ∀ i ∈ B.instTbl.allocated, ∀ j ∈ B.instTbl.allocated,
    (B.inst i).name = (B.inst j).name → i = j

/-- The instances agree in all but their module and their hierarchy, which is not restored. -/
structure SameInst (a b : Inst) : Prop where
  eq : b = { a with module := b.module, hierarchy := b.hierarchy }
  hierarchy : b.hierarchy = true → a.hierarchy = true

structure Restored (B U : Block) : Prop where
  master : U.master = B.master
  topModule : U.topModule = B.topModule
  instTbl : B.instTbl.Restores U.instTbl
  netTbl : B.netTbl.Restores U.netTbl
  modNetTbl : B.modNetTbl.Restores U.modNetTbl
  itermTbl : B.itermTbl.Restores U.itermTbl
  btermTbl : B.btermTbl.Restores U.btermTbl
  modITermTbl : B.modITermTbl.Restores U.modITermTbl
  modBTermTbl : B.modBTermTbl.Restores U.modBTermTbl
  inst : ∀ i ∈ B.instTbl.allocated, SameInst (B.inst i) (U.inst i)
  net : ∀ n ∈ B.netTbl.allocated, U.net n = B.net n
  modNet : ∀ m ∈ B.modNetTbl.allocated, U.modNet m = B.modNet m
  iterm : ∀ t ∈ B.itermTbl.allocated, U.iterm t = B.iterm t
  btermName : ∀ b ∈ B.btermTbl.allocated, U.btermName b = B.btermName b
  netITerms : U.netITerms.owner = B.netITerms.owner
  modNetITerms : U.modNetITerms.owner = B.modNetITerms.owner
  netBTerms : U.netBTerms.owner = B.netBTerms.owner
  modNetBTerms : U.modNetBTerms.owner = B.modNetBTerms.owner
  modNetModITerms : U.modNetModITerms.owner = B.modNetModITerms.owner
  modNetModBTerms : U.modNetModBTerms.owner = B.modNetModBTerms.owner
  lists : U.ListsOk
  journal : U.journal = none

/-- Undoing the actions journaled from `B` to `B'` restores `B`. -/
def Undoes (B B' : Block) : Prop :=
  ∃ rs, B'.journal = B.journal.map (rs ++ ·) ∧
    ∀ U', Restored B' U' → ∃ U, U'.undo rs = .ok U ∧ Restored B U

variable {B B' B'' U U' : Block}

theorem undo_append {rs rs' : List Record} (h : U.undo rs = .ok U') :
    U.undo (rs ++ rs') = U'.undo rs' := by
  induction rs generalizing U with
  | nil =>
      obtain rfl := Res.ok.inj h
      rfl
  | cons r rs ih =>
      change (U.undoRecord r).bind _ = _
      change (U.undoRecord r).bind _ = _ at h
      cases hr : U.undoRecord r with
      | ok V =>
          rw [hr, Res.bind_ok] at h
          rw [Res.bind_ok]
          exact ih h
      | error code V => rw [hr] at h; exact absurd h (by simp)
      | abort => rw [hr] at h; exact absurd h (by simp)

theorem Undoes.refl (B : Block) : Undoes B B :=
  ⟨[], by simp, fun U' hU' => ⟨U', rfl, hU'⟩⟩

theorem Undoes.trans (h : Undoes B B') (h' : Undoes B' B'') : Undoes B B'' := by
  obtain ⟨rs, hj, hundo⟩ := h
  obtain ⟨rs', hj', hundo'⟩ := h'
  refine ⟨rs' ++ rs, ?_, fun U'' hU'' => ?_⟩
  · rw [hj', hj, Option.map_map]
    congr 1
    funext l
    exact (List.append_assoc rs' rs l).symm
  · obtain ⟨U', hU', hR'⟩ := hundo' U'' hU''
    obtain ⟨U, hU, hR⟩ := hundo U' hR'
    exact ⟨U, by rw [undo_append hU', hU], hR⟩

/-- One action. -/
theorem Undoes.one {r : Record} (hj : B'.journal = B.journal.map (r :: ·))
    (h : ∀ U', Restored B' U' → ∃ U, U'.undoRecord r = .ok U ∧ Restored B U) : Undoes B B' := by
  refine ⟨[r], hj, fun U' hU' => ?_⟩
  obtain ⟨U, hU, hR⟩ := h U' hU'
  refine ⟨U, ?_, hR⟩
  change (U'.undoRecord r).bind _ = _
  rw [hU]
  rfl

theorem record_of_none (h : B.journal = none) (r : Record) : B.record r = B := by
  cases B
  simp only [record] at h ⊢
  rw [h]
  rfl

theorem Restored.record (h : Restored B U) (r : Record) : U.record r = U :=
  record_of_none h.journal r

theorem Restored.itermInst_flags (h : Restored B U) (hB : B.Ok) {t : Nat}
    (ht : t ∈ B.itermTbl.allocated) : (U.itermInst t).flags = (B.itermInst t).flags := by
  rw [itermInst, itermInst, h.iterm t ht, (h.inst _ (hB.itermInst t ht).1).eq]

/-- The lists and the journal replaced. -/
def setLists (B : Block) (s₁ s₂ s₃ s₄ s₅ s₆ : Lists) (j : Option (List Record)) : Block :=
  { B with
    netITerms := s₁
    modNetITerms := s₂
    netBTerms := s₃
    modNetBTerms := s₄
    modNetModITerms := s₅
    modNetModBTerms := s₆
    journal := j }

theorem Ok.of_lists (h : B.Ok) {s₁ s₂ s₃ s₄ s₅ s₆ : Lists} {j : Option (List Record)}
    (hl : (B.setLists s₁ s₂ s₃ s₄ s₅ s₆ j).ListsOk) : (B.setLists s₁ s₂ s₃ s₄ s₅ s₆ j).Ok :=
  ⟨hl, h.itermInst, h.instITerms, h.order, h.names⟩

theorem Restored.mem_iterm (h : Restored B U) {t : Nat} (ht : t ∈ B.itermTbl.allocated) :
    t ∈ U.itermTbl.allocated := by
  rwa [h.itermTbl.allocated]

theorem Restored.mem_net (h : Restored B U) {n : Nat} (hn : n ∈ B.netTbl.allocated) :
    n ∈ U.netTbl.allocated := by
  rwa [h.netTbl.allocated]

theorem Restored.mem_modNet (h : Restored B U) {m : Nat} (hm : m ∈ B.modNetTbl.allocated) :
    m ∈ U.modNetTbl.allocated := by
  rwa [h.modNetTbl.allocated]

theorem Restored.mem_bterm (h : Restored B U) {b : Nat} (hb : b ∈ B.btermTbl.allocated) :
    b ∈ U.btermTbl.allocated := by
  rwa [h.btermTbl.allocated]

theorem Restored.mem_modITerm (h : Restored B U) {t : Nat} (ht : t ∈ B.modITermTbl.allocated) :
    t ∈ U.modITermTbl.allocated := by
  rwa [h.modITermTbl.allocated]

theorem Restored.mem_modBTerm (h : Restored B U) {t : Nat} (ht : t ∈ B.modBTermTbl.allocated) :
    t ∈ U.modBTermTbl.allocated := by
  rwa [h.modBTermTbl.allocated]

theorem Restored.of_record {r : Record} (hR : Restored (B.record r) U) : Restored B U := { hR with }

/-! ### Undoing the journal -/

theorem Ok.restored (hB : B.Ok) : Restored B { B with journal := none } where
  master := rfl
  topModule := rfl
  instTbl := hB.instTbl.restores
  netTbl := hB.netTbl.restores
  modNetTbl := hB.modNetTbl.restores
  itermTbl := hB.itermTbl.restores
  btermTbl := hB.btermTbl.restores
  modITermTbl := hB.modITermTbl.restores
  modBTermTbl := hB.modBTermTbl.restores
  inst := fun _ _ => ⟨rfl, id⟩
  net := fun _ _ => rfl
  modNet := fun _ _ => rfl
  iterm := fun _ _ => rfl
  btermName := fun _ _ => rfl
  netITerms := rfl
  modNetITerms := rfl
  netBTerms := rfl
  modNetBTerms := rfl
  modNetModITerms := rfl
  modNetModBTerms := rfl
  lists := { hB.toListsOk with }
  journal := rfl

/-- What is journaled after `beginEco` is what `undoEco` takes back. -/
theorem Undoes.undoEco (h : Undoes B.beginEco B') (hB' : B'.Ok) :
    ∃ U, B'.undoEco = .ok U ∧ Restored B U := by
  obtain ⟨rs, hj, hundo⟩ := h
  obtain ⟨U, hU, hR⟩ := hundo _ hB'.restored
  have hjournal : B'.journal = some rs := by
    rw [hj]
    simp [beginEco]
  exact ⟨U, by rw [Block.undoEco, hjournal]; exact hU, { hR with }⟩

theorem Ok.beginEco (hB : B.Ok) : B.beginEco.Ok :=
  ⟨{ hB.toListsOk with }, hB.itermInst, hB.instITerms, hB.order, hB.names⟩

end Block

end OpenRoad.Db

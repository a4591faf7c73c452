import OpenRoad.DbBlockInvariant

/-!
The lists of iterms and bterms of the nets, over all runs that start at a new block.
-/

namespace OpenRoad.Db
open LinkedList

/-- `l` is the list of the net `n`: its links run through `l` in both directions, without repetition,
and `l` holds the live terminals whose field names `n`. -/
structure ListOf (s : Lists) (live : Finset Nat) (n : Nat) (l : List Nat) : Prop where
  chain : Chain s.next s.prev 0 (s.head n) l
  nodup : l.Nodup
  mem_iff : ∀ t, t ∈ l ↔ t ∈ live ∧ s.owner t = n

theorem listOf_of_over {s : Lists} {live nets : Finset Nat} (h : s.Over live nets) {n : Nat}
    (hn : n ∈ nets) : ∃ l, ListOf s live n l := by
  obtain ⟨l, hl⟩ := h.wf n (h.owner_ne_zero hn)
  refine ⟨l, hl.chain, hl.nodup, fun t => ?_⟩
  rw [hl.mem_iff]
  constructor
  · rintro ⟨-, howner⟩
    exact ⟨h.member t (by rw [howner]; exact h.owner_ne_zero hn), howner⟩
  · rintro ⟨ht, howner⟩
    exact ⟨h.member_ne_zero ht, howner⟩

/-- The calls the lists of iterms and bterms are made by. -/
def BlockOp.isTermOp : BlockOp → Bool
  | .itermConnect _ _ | .itermConnectMod _ _ | .itermConnectBoth _ _ _ | .itermDisconnect _
  | .itermDisconnectDbNet _ | .itermDisconnectModNet _ | .btermConnect _ _ | .btermConnectMod _ _
  | .btermDisconnect _ | .btermDisconnectDbNet _ | .btermDisconnectDbModNet _ | .btermDestroy _
  | .instDestroy _ => true
  -- the calls that build the netlist
  | .netCreate _ _ | .modNetCreate _ _ | .btermCreate _ _ | .instCreate _ _ _ _ _
  | .instSetDoNotTouch _ _ | .netSetDoNotTouch _ _ => true
  | _ => false

namespace Block

/-- The lists of iterms and bterms of each net are in order. -/
structure TermListsOk (B : Block) : Prop where
  netITerms : ∀ n ∈ B.netTbl.allocated, ∃ l, ListOf B.netITerms B.itermTbl.allocated n l
  netBTerms : ∀ n ∈ B.netTbl.allocated, ∃ l, ListOf B.netBTerms B.btermTbl.allocated n l
  modNetITerms : ∀ m ∈ B.modNetTbl.allocated, ∃ l, ListOf B.modNetITerms B.itermTbl.allocated m l
  modNetBTerms : ∀ m ∈ B.modNetTbl.allocated, ∃ l, ListOf B.modNetBTerms B.btermTbl.allocated m l

theorem ListsOk.termListsOk {B : Block} (h : B.ListsOk) : B.TermListsOk where
  netITerms := fun _ hn => listOf_of_over h.netITerms hn
  netBTerms := fun _ hn => listOf_of_over h.netBTerms hn
  modNetITerms := fun _ hm => listOf_of_over h.modNetITerms hm
  modNetBTerms := fun _ hm => listOf_of_over h.modNetBTerms hm

/-- The two calls that break the lists are avoided: `dbBTerm::destroy` of a bterm that is on a
hierarchical net, where it gets past its check, and `dbITerm::connect` of an iterm of a `dont_touch`
instance to another hierarchical net. -/
def KeepsTermLists (B : Block) : BlockOp → Prop
  | .itermConnectMod t m => B.modNetITerms.owner t = m ∨ (B.itermInst t).flags.dontTouch = false
  | .itermConnectBoth t n m =>
      (B.modNetITerms.owner t = m ∨ (B.itermInst t).flags.dontTouch = false) ∨
        (n = 0 ∨ B.netITerms.owner t ≠ n)
  | .btermDestroy b =>
      B.modNetBTerms.owner b = 0 ∨
        (B.netBTerms.owner b ≠ 0 ∧ (B.net (B.netBTerms.owner b)).dontTouch = true)
  | _ => True

instance (B : Block) (op : BlockOp) : Decidable (B.KeepsTermLists op) := by
  apply BlockOp.casesOn (motive := fun op => Decidable (B.KeepsTermLists op)) op <;> intros <;>
    dsimp only [KeepsTermLists] <;> infer_instance

theorem KeepsTermLists.keepsLists {B : Block} {op : BlockOp} (hop : op.isTermOp = true)
    (h : B.KeepsTermLists op) : B.KeepsLists op := by
  cases op <;> first | exact h | trivial

/-- In every state reached by calls of these kinds that avoid the two, the lists are in order. -/
theorem termListsOk_of_run (shifts : PageShifts) (master : MasterId → Master) (topModule : Nat)
    (ops : List BlockOp) (B : Block) (hops : ∀ op ∈ ops, op.isTermOp = true)
    (hok : Run.Along step KeepsTermLists (empty shifts master topModule) ops)
    (hrun : Run.run step (empty shifts master topModule) ops = some B) : B.TermListsOk :=
  (run_listsOk (empty_listsOk shifts master topModule)
    (hok.imp fun op hop _ h => h.keepsLists (hops op hop)) hrun).termListsOk

/-- A master without terminals. -/
def noTerms : Master := ⟨0, 0, ⟨0, 0⟩, [], List.nodup_nil⟩

/-- The calls that put the bterm of a new port on a hierarchical net as well. -/
def portOnBothNets : List BlockOp :=
  [.netCreate "net" false, .modNetCreate 1 "modnet", .btermCreate 1 "port", .btermConnectMod 1 1]

/-- Taken off the hierarchical net first, the port can be destroyed. -/
theorem termListsOk_of_run_destroy : ∃ B, Run.run step (empty blockShifts (fun _ => noTerms) 1)
    (portOnBothNets ++ [.btermDisconnectDbModNet 1, .btermDestroy 1]) = some B ∧
    B.TermListsOk := by
  cases hrun : Run.run step (empty blockShifts (fun _ => noTerms) 1)
      (portOnBothNets ++ [.btermDisconnectDbModNet 1, .btermDestroy 1]) with
  | none => exact absurd hrun (by decide +kernel)
  | some B =>
      exact ⟨B, rfl, termListsOk_of_run blockShifts _ 1 _ B (by decide) (by decide +kernel) hrun⟩

/-- Destroyed while it is on the hierarchical net, the port stays at the head of its list. -/
theorem not_termListsOk_bterm_destroy : ∃ B, Run.run step (empty blockShifts (fun _ => noTerms) 1)
    (portOnBothNets ++ [.btermDestroy 1]) = some B ∧ ¬ B.TermListsOk := by
  have hdead : (Run.run step (empty blockShifts (fun _ => noTerms) 1)
      (portOnBothNets ++ [.btermDestroy 1])).map (fun B => (B.modNetBTerms.head 1,
        decide (1 ∈ B.modNetTbl.allocated), decide (1 ∈ B.btermTbl.allocated))) =
      some (1, true, false) := by decide +kernel
  obtain ⟨B, hrun, heq⟩ := Option.map_eq_some_iff.mp hdead
  obtain ⟨hhead, hnet, hterm⟩ : B.modNetBTerms.head 1 = 1 ∧ 1 ∈ B.modNetTbl.allocated ∧
      1 ∉ B.btermTbl.allocated := by simpa using heq
  refine ⟨B, hrun, fun h => ?_⟩
  obtain ⟨l, hl⟩ := h.modNetBTerms 1 hnet
  have hmem := hl.chain.head_mem (by rw [hhead]; exact Nat.one_ne_zero)
  rw [hhead] at hmem
  exact hterm ((hl.mem_iff 1).mp hmem).1

end Block

end OpenRoad.Db

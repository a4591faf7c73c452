import OpenRoad.GrtEdgeShift
import Mathlib.Tactic.IntervalCases

/-!
Steiner nodes at the same place are swapped, so that other edges become straight, and the edges are
shifted again. A swap hangs one node from another in four ways; the tree stays a tree with the same
root, and its Steiner nodes keep three neighbours.
-/

namespace OpenRoad.Grt

open DriverPath

namespace Tree

variable (tree : Tree)

/-- Pairs of a Steiner node and its parent, not the root, at the same place. -/
def coincident : List (Nat × Nat) :=
  tree.steiners.filterMap fun i =>
    let n := tree.n i
    if n ≠ i ∧ n ≠ tree.n n ∧ tree.x i = tree.x n ∧ tree.y i = tree.y n then some (i, n) else none

/-- The direction in which a node is from another, if it is straight. -/
def side (v j : Nat) : Option EdgeDirection :=
  if tree.x j = tree.x v ∧ tree.y j ≠ tree.y v then some .vertical
  else if tree.y j = tree.y v ∧ tree.x j ≠ tree.x v then some .horizontal
  else none

/-- The neighbours that may be swapped: the last ones seen in each direction. -/
structure SwapNbrs where
  n1nbr : EdgeDirection → Option Nat := fun _ => none
  n2nbr : EdgeDirection → Option Nat := fun _ => none

def note (found : EdgeDirection → Option Nat) (v j : Nat) : EdgeDirection → Option Nat :=
  match tree.side v j with
  | some direction => Function.update found direction (some j)
  | none => found

/-- The nodes directed to the two, and then the one the second is directed to. -/
def swapNbrs (n1 n2 : Nat) : SwapNbrs :=
  let scanned := (List.range tree.branchCount).foldl
    (fun (found : SwapNbrs) j =>
      if tree.n j = n1 then { found with n1nbr := tree.note found.n1nbr n1 j }
      else if tree.n j = n2 then { found with n2nbr := tree.note found.n2nbr n2 j }
      else found) {}
  { scanned with n2nbr := tree.note scanned.n2nbr n2 (tree.n n2) }

/-- Hang the neighbour `a` of the first node from the second, and the neighbour `b` of the second from
the first, or the first from it. -/
def rewire (n1 n2 a b : Nat) : Tree :=
  if b = tree.n n2 then
    { tree with
      n := Function.update (Function.update (Function.update tree.n a n2) n1 b) n2 n1 }
  else { tree with n := Function.update (Function.update tree.n a n2) b n1 }

/-- Swap horizontal neighbours, or else vertical ones. -/
def swap (pair : Nat × Nat) : Option Tree :=
  let found := tree.swapNbrs pair.1 pair.2
  match found.n1nbr .horizontal, found.n2nbr .horizontal with
  | some a, some b => some (tree.rewire pair.1 pair.2 a b)
  | _, _ =>
      match found.n1nbr .vertical, found.n2nbr .vertical with
      | some a, some b => some (tree.rewire pair.1 pair.2 a b)
      | _, _ => none

/-- The pair to try: the first one, or the second where the first is the one of the last turn. -/
def choosePair (cur : Option (Nat × Nat)) : Option (Nat × Nat) :=
  match tree.coincident with
  | [] => none
  | first :: rest => if cur ≠ some first then some first else rest.head?

variable {tree} {root v : Nat}

theorem mem_coincident {pair : Nat × Nat} (h : pair ∈ tree.coincident) :
    tree.deg ≤ pair.1 ∧ pair.1 < tree.branchCount ∧ tree.n pair.1 = pair.2 ∧ pair.2 ≠ pair.1 ∧
      tree.n pair.2 ≠ pair.2 ∧ tree.pos pair.1 = tree.pos pair.2 := by
  obtain ⟨i, hi, hsome⟩ := List.mem_filterMap.mp h
  obtain ⟨hge, hlt⟩ := mem_steiners.mp hi
  dsimp only at hsome
  split_ifs at hsome with hcond
  cases hsome
  exact ⟨hge, hlt, rfl, hcond.1, Ne.symm hcond.2.1, Prod.ext hcond.2.2.1 hcond.2.2.2⟩

theorem choosePair_mem {cur : Option (Nat × Nat)} {pair : Nat × Nat}
    (h : tree.choosePair cur = some pair) : pair ∈ tree.coincident := by
  unfold choosePair at h
  cases hpairs : tree.coincident with
  | nil =>
      rw [hpairs] at h
      exact absurd h (Option.some_ne_none pair).symm
  | cons first rest =>
      rw [hpairs] at h
      dsimp only at h
      split_ifs at h
      · cases h
        exact List.mem_cons_self
      · exact List.mem_cons_of_mem _ (List.mem_of_mem_head? h)

/-! ### The neighbours -/

theorem note_spec {ok : Nat → Prop} {found : EdgeDirection → Option Nat} {v j : Nat}
    (hfound : ∀ d u, found d = some u → ok u) (hj : tree.pos j ≠ tree.pos v → ok j)
    {d : EdgeDirection} {u : Nat} (h : tree.note found v j d = some u) : ok u := by
  unfold note at h
  cases hside : tree.side v j with
  | none =>
      rw [hside] at h
      exact hfound d u h
  | some direction =>
      rw [hside] at h
      dsimp only at h
      by_cases hd : d = direction
      · rw [hd, Function.update_self] at h
        cases h
        apply hj
        intro heq
        have hx : tree.x j = tree.x v := congrArg Prod.fst heq
        have hy : tree.y j = tree.y v := congrArg Prod.snd heq
        unfold side at hside
        simp [hx, hy] at hside
      · rw [Function.update_of_ne hd] at h
        exact hfound d u h

/-- A neighbour that may be swapped is apart from the pair. -/
theorem swapNbrs_spec (n1 n2 : Nat) :
    (∀ d a, (tree.swapNbrs n1 n2).n1nbr d = some a →
      a < tree.branchCount ∧ tree.n a = n1 ∧ tree.pos a ≠ tree.pos n1) ∧
    ∀ d b, (tree.swapNbrs n1 n2).n2nbr d = some b →
      (b < tree.branchCount ∧ tree.n b = n2 ∨ b = tree.n n2) ∧ tree.pos b ≠ tree.pos n2 := by
  let ok₁ := fun a => a < tree.branchCount ∧ tree.n a = n1 ∧ tree.pos a ≠ tree.pos n1
  let ok₂ := fun b => (b < tree.branchCount ∧ tree.n b = n2 ∨ b = tree.n n2) ∧
    tree.pos b ≠ tree.pos n2
  have hscan := List.foldlRecOn
    (motive := fun found : SwapNbrs => (∀ d a, found.n1nbr d = some a → ok₁ a) ∧
      ∀ d b, found.n2nbr d = some b → ok₂ b)
    (List.range tree.branchCount)
    (fun (found : SwapNbrs) j =>
      if tree.n j = n1 then { found with n1nbr := tree.note found.n1nbr n1 j }
      else if tree.n j = n2 then { found with n2nbr := tree.note found.n2nbr n2 j }
      else found)
    (b := {})
    ⟨fun _ _ h => absurd h (Option.some_ne_none _).symm,
      fun _ _ h => absurd h (Option.some_ne_none _).symm⟩
    (by
      intro found hfound j hj
      have hlt := List.mem_range.mp hj
      split_ifs with h₁ h₂
      · exact ⟨fun _ _ h => note_spec hfound.1 (fun hne => ⟨hlt, h₁, hne⟩) h, hfound.2⟩
      · exact ⟨hfound.1, fun _ _ h =>
          note_spec hfound.2 (fun hne => ⟨Or.inl ⟨hlt, h₂⟩, hne⟩) h⟩
      · exact hfound)
  exact ⟨hscan.1, fun _ _ h => note_spec hscan.2 (fun hne => ⟨Or.inr rfl, hne⟩) h⟩

/-! ### One swap -/

/-- What a swap works with: a pair, a node that is directed to the first of it, and a neighbour of the
second. -/
structure Swappable (tree : Tree) (n1 n2 a b : Nat) : Prop where
  n1_ge : tree.deg ≤ n1
  n1_lt : n1 < tree.branchCount
  parent : tree.n n1 = n2
  pair_ne : n2 ≠ n1
  not_root : tree.n n2 ≠ n2
  a_lt : a < tree.branchCount
  a_parent : tree.n a = n1
  a_ne : a ≠ n1
  b_nbr : b < tree.branchCount ∧ tree.n b = n2 ∨ b = tree.n n2
  b_ne : b ≠ n1 ∧ b ≠ n2

theorem swappable_of_swap {pair : Nat × Nat} {tree' : Tree} (hpair : pair ∈ tree.coincident)
    (hswap : tree.swap pair = some tree') :
    ∃ a b, tree.Swappable pair.1 pair.2 a b ∧ tree' = tree.rewire pair.1 pair.2 a b := by
  obtain ⟨hge, hlt, hparent, hne, hroot, hpos⟩ := mem_coincident hpair
  obtain ⟨hn1, hn2⟩ := tree.swapNbrs_spec pair.1 pair.2
  have hok : ∀ d a b, (tree.swapNbrs pair.1 pair.2).n1nbr d = some a →
      (tree.swapNbrs pair.1 pair.2).n2nbr d = some b →
      tree.Swappable pair.1 pair.2 a b := by
    intro d a b ha hb
    obtain ⟨ha_lt, ha_parent, ha_pos⟩ := hn1 d a ha
    obtain ⟨hb_nbr, hb_pos⟩ := hn2 d b hb
    exact ⟨hge, hlt, hparent, hne, hroot, ha_lt, ha_parent, fun heq => ha_pos (heq ▸ rfl), hb_nbr,
      fun heq => hb_pos (heq ▸ hpos), fun heq => hb_pos (heq ▸ rfl)⟩
  unfold swap at hswap
  dsimp only at hswap
  split at hswap
  next a b ha hb => exact ⟨a, b, hok _ a b ha hb, (Option.some.inj hswap).symm⟩
  next =>
    split at hswap
    next a b ha hb => exact ⟨a, b, hok _ a b ha hb, (Option.some.inj hswap).symm⟩
    next => exact absurd hswap (Option.some_ne_none tree').symm

/-- New pointers make a tree again when they have paths and keep the numbers of children. -/
theorem Steiner.repoint (h : tree.Steiner root) {n' : Nat → Nat} (hroot : n' root = root)
    (hrange : ∀ v < tree.branchCount, tree.deg ≤ n' v ∧ n' v < tree.branchCount)
    (hbelow : ∀ v < tree.branchCount,
      ∃ k, Below (Points { tree with n := n' } root) root v k)
    (hcard : ∀ v, (children { tree with n := n' } v).card = (tree.children v).card) :
    Steiner { tree with n := n' } root where
  root_ge := h.root_ge
  root_lt := h.root_lt
  n_root := hroot
  n_ge := fun v hv => (hrange v hv).1
  n_lt := fun v hv => (hrange v hv).2
  below := hbelow
  degree := fun v hge hlt => by
    rw [hcard v]
    exact h.degree v hge hlt

theorem card_exchange {s : Finset Nat} {a b : Nat} (ha : a ∈ s) (hb : b ∉ s) :
    (insert b (s.erase a)).card = s.card := by
  rw [Finset.card_insert_of_notMem fun h => hb (Finset.mem_of_mem_erase h),
    Finset.card_erase_of_mem ha]
  have := Finset.card_pos.mpr ⟨a, ha⟩
  omega

namespace Swappable

variable {n1 n2 a b : Nat} (hs : tree.Swappable n1 n2 a b) (h : tree.Steiner root)

include hs h

theorem ne_root : n1 ≠ root ∧ n2 ≠ root ∧ a ≠ root := by
  have hn1 : n1 ≠ root := by
    rintro rfl
    exact hs.pair_ne (hs.parent.symm.trans h.n_root)
  refine ⟨hn1, ?_, ?_⟩
  · rintro rfl
    exact hs.not_root h.n_root
  · rintro rfl
    exact hn1 (hs.a_parent.symm.trans h.n_root)

theorem n2_mem : tree.deg ≤ n2 ∧ n2 < tree.branchCount :=
  ⟨hs.parent ▸ h.n_ge n1 hs.n1_lt, hs.parent ▸ h.n_lt n1 hs.n1_lt⟩

/-- How far the nodes are below the parent of the pair. -/
theorem depths : ∃ m, Below (tree.Points root) root (tree.n n2) m ∧
    Below (tree.Points root) root n2 (m + 1) ∧ Below (tree.Points root) root n1 (m + 2) ∧
    Below (tree.Points root) root a (m + 3) := by
  obtain ⟨hn1, hn2, ha⟩ := hs.ne_root h
  obtain ⟨m, hm⟩ := h.below (tree.n n2) (h.n_lt n2 (hs.n2_mem h).2)
  have h₂ := below_n hn2 hm
  have h₁ := below_n hn1 (hs.parent.symm ▸ h₂)
  have h₃ := below_n ha (hs.a_parent.symm ▸ h₁)
  exact ⟨m, hm, h₂, h₁, h₃⟩

theorem distinct : a ≠ n2 ∧ tree.n n2 ≠ n1 ∧ tree.n n2 ≠ a := by
  obtain ⟨m, hm, h₂, h₁, h₃⟩ := hs.depths h
  refine ⟨?_, ?_, ?_⟩
  · rintro rfl
    have := below_unique h₂ h₃
    omega
  · intro heq
    rw [heq] at hm
    have := below_unique hm h₁
    omega
  · intro heq
    rw [heq] at hm
    have := below_unique hm h₃
    omega

/-- A parent above the nodes that change theirs keeps its path, and the nodes below get new ones. -/
theorem below_rewire {n' : Nat → Nat} {m : Nat} {top : Nat} {changed : Nat → Prop}
    (hkeep : ∀ u, ¬changed u → n' u = tree.n u) (htop : Below (tree.Points root) root top m)
    (hdeep : ∀ u k, changed u → Below (tree.Points root) root u k → m < k)
    (hchanged : Below (Points { tree with n := n' } root) root top m →
      ∀ u, changed u → ∃ k, Below (Points { tree with n := n' } root) root u k) :
    ∀ v < tree.branchCount, ∃ k, Below (Points { tree with n := n' } root) root v k := by
  have hkeeps : ∀ driver load, tree.Points root driver load → ¬changed load →
      Points { tree with n := n' } root driver load := fun driver load hpoints hnot =>
    ⟨hpoints.1, (hkeep load hnot).trans hpoints.2⟩
  intro v hv
  obtain ⟨k, hk⟩ := h.below v hv
  exact hk.reroute hkeeps (hchanged (htop.keep hkeeps hdeep le_rfl))

/-- When the neighbour of the second node is its parent. -/
theorem rewire_parent (hb : b = tree.n n2) : (tree.rewire n1 n2 a b).Steiner root := by
  obtain ⟨hn1, hn2, ha⟩ := hs.ne_root h
  obtain ⟨han2, hpn1, hpa⟩ := hs.distinct h
  obtain ⟨hge2, hlt2⟩ := hs.n2_mem h
  obtain ⟨m, hm, h₂, h₁, h₃⟩ := hs.depths h
  have han1 := hs.a_ne
  have hpair := hs.pair_ne
  let n' := fun u =>
    if u = n2 then n1 else if u = n1 then tree.n n2 else if u = a then n2 else tree.n u
  have hrewire : tree.rewire n1 n2 a b = { tree with n := n' } := by
    unfold rewire
    rw [if_pos hb]
    congr 1
    funext u
    simp only [Function.update_apply, hb]
    rfl
  have hkeep : ∀ u, ¬(u = a ∨ u = n1 ∨ u = n2) → n' u = tree.n u := by
    intro u hu
    show (if u = n2 then n1 else if u = n1 then tree.n n2 else if u = a then n2 else tree.n u) = _
    rw [if_neg (by tauto), if_neg (by tauto), if_neg (by tauto)]
  have hn'2 : n' n2 = n1 := if_pos rfl
  have hn'1 : n' n1 = tree.n n2 := by
    show (if n1 = n2 then n1 else if n1 = n1 then tree.n n2 else _) = _
    rw [if_neg (Ne.symm hpair), if_pos rfl]
  have hn'a : n' a = n2 := by
    show (if a = n2 then n1 else if a = n1 then tree.n n2 else if a = a then n2 else _) = _
    rw [if_neg han2, if_neg han1, if_pos rfl]
  have hdeep : ∀ u k, (u = a ∨ u = n1 ∨ u = n2) → Below (tree.Points root) root u k → m < k := by
    rintro u k (rfl | rfl | rfl) hk
    · have := below_unique hk h₃
      omega
    · have := below_unique hk h₁
      omega
    · have := below_unique hk h₂
      omega
  have hbelow := hs.below_rewire h hkeep hm hdeep (by
    intro htop
    have hnew1 : Below (Points { tree with n := n' } root) root n1 (m + 1) :=
      .load htop ⟨hn1, hn'1⟩
    have hnew2 : Below (Points { tree with n := n' } root) root n2 (m + 2) :=
      .load hnew1 ⟨hn2, hn'2⟩
    rintro u (rfl | rfl | rfl)
    · exact ⟨m + 3, .load hnew2 ⟨ha, hn'a⟩⟩
    · exact ⟨m + 1, hnew1⟩
    · exact ⟨m + 2, hnew2⟩)
  have hrange : ∀ v < tree.branchCount, tree.deg ≤ n' v ∧ n' v < tree.branchCount := by
    intro v hv
    by_cases hcase : v = a ∨ v = n1 ∨ v = n2
    · rcases hcase with rfl | rfl | rfl
      · rw [hn'a]
        exact ⟨hge2, hlt2⟩
      · rw [hn'1]
        exact ⟨h.n_ge n2 hlt2, h.n_lt n2 hlt2⟩
      · rw [hn'2]
        exact ⟨hs.n1_ge, hs.n1_lt⟩
    · rw [hkeep v hcase]
      exact ⟨h.n_ge v hv, h.n_lt v hv⟩
  have hcard : ∀ v, (children { tree with n := n' } v).card = (tree.children v).card := by
    have hmem : ∀ v u, u ∈ children { tree with n := n' } v ↔
        u < tree.branchCount ∧ u ≠ v ∧ n' u = v := fun v u => mem_children
    intro v
    by_cases hv1 : v = n1
    · -- the first node loses its child to the second, which it gets instead
      have heq : children { tree with n := n' } v = insert n2 ((tree.children n1).erase a) := by
        ext u
        rw [hmem, Finset.mem_insert, Finset.mem_erase, mem_children]
        grind
      rw [heq, hv1]
      exact card_exchange (mem_children.mpr ⟨hs.a_lt, han1, hs.a_parent⟩)
        fun hmem => hpn1 (mem_children.mp hmem).2.2
    · by_cases hv2 : v = n2
      · have heq : children { tree with n := n' } v = insert a ((tree.children n2).erase n1) := by
          ext u
          rw [hmem, Finset.mem_insert, Finset.mem_erase, mem_children]
          grind [hs.a_lt]
        rw [heq, hv2]
        exact card_exchange (mem_children.mpr ⟨hs.n1_lt, Ne.symm hpair, hs.parent⟩)
          fun hmem => hpair ((mem_children.mp hmem).2.2.symm.trans hs.a_parent)
      · by_cases hvp : v = tree.n n2
        · have heq : children { tree with n := n' } v =
              insert n1 ((tree.children v).erase n2) := by
            ext u
            rw [hmem, Finset.mem_insert, Finset.mem_erase, mem_children]
            grind [hs.n1_lt, hs.a_parent]
          rw [heq]
          exact card_exchange (mem_children.mpr ⟨hlt2, Ne.symm hv2, hvp.symm⟩)
            fun hmem => hv2 ((mem_children.mp hmem).2.2.symm.trans hs.parent)
        · congr 1
          ext u
          rw [hmem, mem_children]
          grind [hs.a_parent, hs.parent]
  rw [hrewire]
  exact h.repoint ((hkeep root (by tauto)).trans h.n_root) hrange hbelow hcard

/-- When the neighbour of the second node is directed to it. -/
theorem rewire_child (hb : b ≠ tree.n n2) : (tree.rewire n1 n2 a b).Steiner root := by
  obtain ⟨hn1, hn2, ha⟩ := hs.ne_root h
  obtain ⟨han2, hpn1, hpa⟩ := hs.distinct h
  obtain ⟨hge2, hlt2⟩ := hs.n2_mem h
  obtain ⟨m, hm, h₂, h₁, h₃⟩ := hs.depths h
  have han1 := hs.a_ne
  have hpair := hs.pair_ne
  obtain ⟨hbn1, hbn2⟩ := hs.b_ne
  obtain ⟨hb_lt, hb_parent⟩ := hs.b_nbr.resolve_right hb
  have hbroot : b ≠ root := by
    rintro rfl
    exact hn2 (hb_parent.symm.trans h.n_root)
  have hab : a ≠ b := by
    rintro rfl
    exact hpair (hb_parent.symm.trans hs.a_parent)
  let n' := fun u => if u = b then n1 else if u = a then n2 else tree.n u
  have hrewire : tree.rewire n1 n2 a b = { tree with n := n' } := by
    unfold rewire
    rw [if_neg hb]
    congr 1
    funext u
    simp only [Function.update_apply]
    rfl
  have hkeep : ∀ u, ¬(u = a ∨ u = b) → n' u = tree.n u := by
    intro u hu
    show (if u = b then n1 else if u = a then n2 else tree.n u) = _
    rw [if_neg (by tauto), if_neg (by tauto)]
  have hn'b : n' b = n1 := if_pos rfl
  have hn'a : n' a = n2 := by
    show (if a = b then n1 else if a = a then n2 else _) = _
    rw [if_neg hab, if_pos rfl]
  have hbdepth := below_n hbroot (hb_parent.symm ▸ h₂)
  have hdeep : ∀ u k, (u = a ∨ u = b) → Below (tree.Points root) root u k → m + 1 < k := by
    rintro u k (rfl | rfl) hk
    · have := below_unique hk h₃
      omega
    · have := below_unique hk hbdepth
      omega
  have hbelow := hs.below_rewire h hkeep h₂ hdeep (by
    intro htop
    have hnew1 : Below (Points { tree with n := n' } root) root n1 (m + 2) :=
      .load htop ⟨hn1, (hkeep n1 (by tauto)).trans hs.parent⟩
    rintro u (rfl | rfl)
    · exact ⟨m + 2, .load htop ⟨ha, hn'a⟩⟩
    · exact ⟨m + 3, .load hnew1 ⟨hbroot, hn'b⟩⟩)
  have hrange : ∀ v < tree.branchCount, tree.deg ≤ n' v ∧ n' v < tree.branchCount := by
    intro v hv
    by_cases hcase : v = a ∨ v = b
    · rcases hcase with rfl | rfl
      · rw [hn'a]
        exact ⟨hge2, hlt2⟩
      · rw [hn'b]
        exact ⟨hs.n1_ge, hs.n1_lt⟩
    · rw [hkeep v hcase]
      exact ⟨h.n_ge v hv, h.n_lt v hv⟩
  have hcard : ∀ v, (children { tree with n := n' } v).card = (tree.children v).card := by
    have hmem : ∀ v u, u ∈ children { tree with n := n' } v ↔
        u < tree.branchCount ∧ u ≠ v ∧ n' u = v := fun v u => mem_children
    intro v
    by_cases hv1 : v = n1
    · -- the two nodes exchange their children
      have heq : children { tree with n := n' } v = insert b ((tree.children n1).erase a) := by
        ext u
        rw [hmem, Finset.mem_insert, Finset.mem_erase, mem_children]
        grind
      rw [heq, hv1]
      exact card_exchange (mem_children.mpr ⟨hs.a_lt, han1, hs.a_parent⟩)
        fun hmem => hpair (hb_parent.symm.trans (mem_children.mp hmem).2.2)
    · by_cases hv2 : v = n2
      · have heq : children { tree with n := n' } v = insert a ((tree.children n2).erase b) := by
          ext u
          rw [hmem, Finset.mem_insert, Finset.mem_erase, mem_children]
          grind [hs.a_lt]
        rw [heq, hv2]
        exact card_exchange (mem_children.mpr ⟨hb_lt, hbn2, hb_parent⟩)
          fun hmem => hpair ((mem_children.mp hmem).2.2.symm.trans hs.a_parent)
      · congr 1
        ext u
        rw [hmem, mem_children]
        grind [hs.a_parent]
  rw [hrewire]
  exact h.repoint ((hkeep root (by tauto)).trans h.n_root) hrange hbelow hcard

theorem rewire_steiner : (tree.rewire n1 n2 a b).Steiner root := by
  by_cases hb : b = tree.n n2
  · exact hs.rewire_parent h hb
  · exact hs.rewire_child h hb

end Swappable

/-- A swap keeps the tree, and moves nothing. -/
theorem Steiner.swap (h : tree.Steiner root) {pair : Nat × Nat} {tree' : Tree}
    (hpair : pair ∈ tree.coincident) (hswap : tree.swap pair = some tree') :
    tree'.Steiner root := by
  obtain ⟨a, b, hs, rfl⟩ := swappable_of_swap hpair hswap
  exact hs.rewire_steiner h

theorem kept_swap {pair : Nat × Nat} {tree' : Tree} (hswap : tree.swap pair = some tree') :
    tree'.deg = tree.deg ∧ tree'.branchCount = tree.branchCount ∧ tree'.pos = tree.pos := by
  have hrewire : ∀ n1 n2 a b, (tree.rewire n1 n2 a b).deg = tree.deg ∧
      (tree.rewire n1 n2 a b).branchCount = tree.branchCount ∧
      (tree.rewire n1 n2 a b).pos = tree.pos := by
    intro n1 n2 a b
    unfold rewire
    split <;> exact ⟨rfl, rfl, rfl⟩
  unfold swap at hswap
  dsimp only at hswap
  split at hswap
  next a b _ _ =>
    cases hswap
    exact hrewire _ _ a b
  next =>
    split at hswap
    next a b _ _ =>
      cases hswap
      exact hrewire _ _ a b
    next => exact absurd hswap (Option.some_ne_none tree').symm

/-! ### The loop -/

/-- Trees with a given root. -/
abbrev Rooted (root : Nat) := { tree : Tree // tree.Steiner root }

/-- `edgeShift` on such a tree. -/
def Rooted.shift (estUsage : GridEdge → ℚ≥0) (tree : Rooted root) : Rooted root × Nat :=
  let shifted := edgeShift estUsage tree.1 tree.2
  (⟨shifted.1, tree.2.kept ((shifts_edgeShift estUsage tree.1 tree.2).1.kept tree.2)⟩, shifted.2)

/-- Swap the neighbours of a pair, if there are some, and shift the edges again. -/
def Rooted.swapShift (estUsage : GridEdge → ℚ≥0) (tree : Rooted root) (pair : Nat × Nat)
    (hpair : pair ∈ tree.1.coincident) : Rooted root × Nat :=
  match hswap : tree.1.swap pair with
  | none => (tree, 0)
  | some swapped => Rooted.shift estUsage ⟨swapped, tree.2.swap hpair hswap⟩

/-- The turns of the loop that are left, with the pair of the last turn. -/
def Rooted.swapLoop (estUsage : GridEdge → ℚ≥0) :
    Nat → Rooted root → Option (Nat × Nat) → Rooted root × Nat
  | 0, tree, _ => (tree, 0)
  | turns + 1, tree, cur =>
      if tree.1.coincident = [] then (tree, 0)
      else
        match hpair : tree.1.choosePair cur with
        | none => swapLoop estUsage turns tree cur
        | some pair =>
            let shifted := tree.swapShift estUsage pair (choosePair_mem hpair)
            let rest := swapLoop estUsage turns shifted.1 (some pair)
            (rest.1, shifted.2 + rest.2)

/-- `FastRouteCore::edgeShiftNew`: the tree, and the number of shifts. -/
def edgeShiftNew (estUsage : GridEdge → ℚ≥0) (tree : Rooted root) : Rooted root × Nat :=
  let shifted := tree.shift estUsage
  let swapped := shifted.1.swapLoop estUsage 3 none
  (swapped.1, shifted.2 + swapped.2)

/-- The sizes and the pins are what they were. -/
structure SamePins (tree tree' : Tree) : Prop where
  deg : tree'.deg = tree.deg
  branchCount : tree'.branchCount = tree.branchCount
  pins : ∀ v < tree.deg, tree'.pos v = tree.pos v

theorem SamePins.refl (tree : Tree) : SamePins tree tree := ⟨rfl, rfl, fun _ _ => rfl⟩

theorem SamePins.trans {tree' tree'' : Tree} (h : SamePins tree tree')
    (h' : SamePins tree' tree'') : SamePins tree tree'' :=
  ⟨h'.deg.trans h.deg, h'.branchCount.trans h.branchCount,
    fun v hv => (h'.pins v (h.deg.symm ▸ hv)).trans (h.pins v hv)⟩

namespace Rooted

variable (estUsage : GridEdge → ℚ≥0) (tree : Rooted root)

theorem samePins_shift : SamePins tree.1 (tree.shift estUsage).1.1 :=
  have hkept := (shifts_edgeShift estUsage tree.1 tree.2).1.kept tree.2
  ⟨hkept.deg, hkept.branchCount, hkept.pins⟩

theorem samePins_swapShift (pair : Nat × Nat) (hpair : pair ∈ tree.1.coincident) :
    SamePins tree.1 (tree.swapShift estUsage pair hpair).1.1 := by
  unfold swapShift
  split
  next => exact SamePins.refl _
  next swapped hswap =>
    obtain ⟨hdeg, hcount, hpos⟩ := kept_swap hswap
    have hsame : SamePins tree.1 swapped := ⟨hdeg, hcount, fun v _ => by rw [hpos]⟩
    exact hsame.trans (samePins_shift estUsage ⟨swapped, tree.2.swap hpair hswap⟩)

theorem samePins_swapLoop (turns : Nat) (cur : Option (Nat × Nat)) :
    SamePins tree.1 (tree.swapLoop estUsage turns cur).1.1 := by
  induction turns generalizing tree cur with
  | zero => exact SamePins.refl _
  | succ turns ih =>
      unfold swapLoop
      split_ifs with hnone
      · exact SamePins.refl _
      · split
        next => exact ih tree cur
        next pair hpair => exact (samePins_swapShift estUsage tree pair _).trans (ih _ _)

end Rooted

/-- Every node of the tree still reaches the root, pins are leaves, Steiner nodes have degree three, and
the pins are where they were. -/
theorem edgeShiftNew_spec (estUsage : GridEdge → ℚ≥0) (tree : Tree) (root : Nat)
    (h : tree.Steiner root) :
    (edgeShiftNew estUsage (⟨tree, h⟩ : Rooted root)).1.1.Steiner root ∧
      SamePins tree (edgeShiftNew estUsage (⟨tree, h⟩ : Rooted root)).1.1 := by
  refine ⟨(edgeShiftNew estUsage (⟨tree, h⟩ : Rooted root)).1.2, ?_⟩
  exact (Rooted.samePins_shift estUsage ⟨tree, h⟩).trans (Rooted.samePins_swapLoop estUsage _ 3 none)

/-- A chain of three Steiner nodes, the last two of them at the same place. -/
def chainTree : Tree where
  deg := 5
  branchCount := 8
  n := fun v => [7, 7, 6, 5, 5, 5, 5, 6].getD v 5
  x := fun v => [0, 2, 4, 5, 5, 5, 2, 2].getD v 0
  y := fun v => [1, 4, 1, 0, 2, 1, 1, 1].getD v 0

theorem steiner_chainTree : chainTree.Steiner 5 where
  root_ge := by decide
  root_lt := by decide
  n_root := rfl
  n_ge := by decide
  n_lt := by decide
  below := by
    intro v hv
    have hsix : Below (chainTree.Points 5) 5 6 1 := .load .top ⟨by decide, rfl⟩
    have hseven : Below (chainTree.Points 5) 5 7 2 := .load hsix ⟨by decide, rfl⟩
    have hv' : v < 8 := hv
    interval_cases v
    · exact ⟨3, .load hseven ⟨by decide, rfl⟩⟩
    · exact ⟨3, .load hseven ⟨by decide, rfl⟩⟩
    · exact ⟨2, .load hsix ⟨by decide, rfl⟩⟩
    · exact ⟨1, .load .top ⟨by decide, rfl⟩⟩
    · exact ⟨1, .load .top ⟨by decide, rfl⟩⟩
    · exact ⟨0, .top⟩
    · exact ⟨1, hsix⟩
    · exact ⟨2, hseven⟩
  degree := by
    intro v hge hlt
    have hge' : 5 ≤ v := hge
    have hlt' : v < 8 := hlt
    interval_cases v <;> rfl

/-- The pin to the left of the pair is hung from the second node, and the pair is turned around. -/
example : (chainTree.swap (7, 6)).map (fun tree => (List.range 8).map tree.n) =
    some [6, 7, 6, 5, 5, 5, 7, 5] := by decide

/-- The chain stays a tree when its pair is swapped. -/
theorem edgeShiftNew_chainTree :
    (edgeShiftNew (fun _ => 0) (⟨chainTree, steiner_chainTree⟩ : Rooted 5)).1.1.Steiner 5 ∧
      SamePins chainTree
        (edgeShiftNew (fun _ => 0) (⟨chainTree, steiner_chainTree⟩ : Rooted 5)).1.1 :=
  edgeShiftNew_spec (fun _ => 0) chainTree 5 steiner_chainTree

end Tree

end OpenRoad.Grt

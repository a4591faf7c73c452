import OpenRoad.DbTermLists

/-!
Merging a net into another. The iterms are collected before they are moved; the bterms are moved
while the list they are on is walked along, and a moved bterm leads on into the list of the other
net. The walk ends well only where there is at most one bterm to move, and none that it could meet.
-/

namespace OpenRoad.Db
open LinkedList

namespace Block

/-! ### The code -/

/-- The members of a list from `t` on; `none` when it has `fuel` or more. -/
def netMembers (next : Nat → Nat) (t : Nat) : Nat → Option (List Nat)
  | 0 => none
  | fuel + 1 => if t = 0 then some [] else (netMembers next (next t) fuel).map (t :: ·)

def connectITerms (B : Block) (n : Nat) : List Nat → Res Block
  | [] => .ok B
  | t :: iterms => (B.itermConnect t n).bind fun B => B.connectITerms n iterms

/-- Connect the bterms to `n`, from `b` on along their links; `none` when `fuel` steps do not do. -/
def mergeBTerms (B : Block) (n b : Nat) : Nat → Option (Res Block)
  | 0 => none
  | fuel + 1 =>
      if b = 0 then some (.ok B)
      else
        match B.btermConnect b n with
        | .ok B => B.mergeBTerms n (B.netBTerms.next b) fuel
        | r => some r

/-- `dbNet::mergeNet`; `none` when the call has not returned after `fuel` steps of its loops. -/
def mergeNet (B : Block) (n inNet fuel : Nat) : Option (Res Block) :=
  (netMembers B.netITerms.next (B.netITerms.head inNet) fuel).bind fun iterms =>
    match B.connectITerms n iterms with
    | .ok B => B.mergeBTerms n (B.netBTerms.head inNet) fuel
    | r => some r

/-! ### Iterms -/

variable {B B' : Block}

theorem chain_eq_nil {next prev : Nat → Nat} {p h : Nat} {l : List Nat}
    (hchain : Chain next prev p h l) (h0 : h = 0) : l = [] := by
  match l, hchain with
  | [], _ => rfl
  | a :: l, ⟨hhead, hne, _, _⟩ => exact absurd (hhead.symm.trans h0) hne

theorem netMembers_of_chain {next prev : Nat → Nat} {p h : Nat} {l : List Nat}
    (hchain : Chain next prev p h l) : ∀ fuel, l.length < fuel → netMembers next h fuel = some l := by
  induction l generalizing p h with
  | nil =>
      intro fuel hfuel
      obtain rfl : h = 0 := hchain
      match fuel, hfuel with
      | fuel + 1, _ => rfl
  | cons a l ih =>
      intro fuel hfuel
      obtain ⟨rfl, hne, -, hrest⟩ := hchain
      match fuel, hfuel with
      | fuel + 1, hfuel =>
          have hlt : l.length < fuel := Nat.lt_of_succ_lt_succ hfuel
          rw [netMembers, if_neg hne, ih hrest fuel hlt]
          rfl

theorem eq_of_netMembers {next prev : Nat → Nat} {p h : Nat} {l l' : List Nat}
    (hchain : Chain next prev p h l) {fuel : Nat} (hmembers : netMembers next h fuel = some l') :
    l' = l := by
  induction l generalizing p h fuel l' with
  | nil =>
      obtain rfl : h = 0 := hchain
      match fuel, hmembers with
      | fuel + 1, hmembers => exact (Option.some.inj hmembers).symm
  | cons a l ih =>
      obtain ⟨rfl, hne, -, hrest⟩ := hchain
      match fuel, hmembers with
      | fuel + 1, hmembers =>
          rw [netMembers, if_neg hne] at hmembers
          obtain ⟨tail, htail, rfl⟩ := Option.map_eq_some_iff.mp hmembers
          rw [ih hrest htail]

/-- The iterms of a list that all are on another net are moved to the net. -/
theorem connectITerms_spec (h : B.ListsOk) {n inNet : Nat} (hn : n ∈ B.netTbl.allocated)
    (hne : inNet ≠ n) (hin0 : inNet ≠ 0) (hnet : (B.net n).dontTouch = false)
    (hinNet : (B.net inNet).dontTouch = false) (l : List Nat) (hl : l.Nodup)
    (hiterms : ∀ t ∈ l, t ∈ B.itermTbl.allocated ∧ B.netITerms.owner t = inNet ∧
      (B.itermInst t).flags.dontTouch = false) :
    ∃ B', B.connectITerms n l = .ok B' ∧ B'.ListsOk ∧
      B' = { B with journal := B'.journal, netITerms := B'.netITerms } ∧
      ∀ t, B'.netITerms.owner t = if t ∈ l then n else B.netITerms.owner t := by
  induction l generalizing B with
  | nil => exact ⟨B, rfl, h, rfl, fun t => (if_neg List.not_mem_nil).symm⟩
  | cons t l ih =>
      obtain ⟨⟨ht, howner, hinst⟩, hrest⟩ := List.forall_mem_cons.mp hiterms
      obtain ⟨hnew, hnodup⟩ := List.nodup_cons.mp hl
      have hn0 : n ≠ 0 := h.netITerms.owner_ne_zero hn
      have hconnect : ∃ B₁, B.itermConnect t n = .ok B₁ ∧
          B₁.netITerms.owner = Function.update B.netITerms.owner t n := by
        unfold itermConnect itermDisconnectDbNet
        simp only [howner, hn0, hne, hinst, hnet, hinNet, hin0, if_false, Bool.false_eq_true,
          Res.bind_ok]
        refine ⟨_, rfl, ?_⟩
        rw [Lists.owner_push, Lists.owner_unlink, Function.update_idem]
      obtain ⟨B₁, hB₁, howner₁⟩ := hconnect
      have heq := itermConnect_ok hB₁
      have h₁ : B₁.ListsOk := itermConnect_listsOk h ht (fun _ => hn) B₁ (by rw [hB₁]; rfl)
      have hrest₁ : ∀ t' ∈ l, t' ∈ B₁.itermTbl.allocated ∧ B₁.netITerms.owner t' = inNet ∧
          (B₁.itermInst t').flags.dontTouch = false := by
        intro t' ht'
        have hne' : t' ≠ t := fun heq' => hnew (heq' ▸ ht')
        rw [howner₁, Function.update_of_ne hne', heq]
        exact hrest t' ht'
      obtain ⟨B', hB', h', heq', howner'⟩ := ih h₁ (by rw [heq]; exact hn) (by rw [heq]; exact hnet)
        (by rw [heq]; exact hinNet) hnodup hrest₁
      refine ⟨B', ?_, h', ?_, fun t' => ?_⟩
      · rw [connectITerms, hB₁]
        exact hB'
      · rw [heq', heq]
      · rw [howner', howner₁]
        by_cases ht' : t' = t
        · rw [ht', if_neg hnew, Function.update_self, if_pos List.mem_cons_self]
        · rw [Function.update_of_ne ht']
          exact if_congr (by rw [List.mem_cons, or_iff_right ht']) rfl rfl

/-! ### Bterms -/

/-- A bterm that is on a net is taken off it, and put at the head of the list of `n`. -/
theorem btermConnect_eq {b n : Nat} (howner : B.netBTerms.owner b ≠ 0)
    (hfree : (B.net (B.netBTerms.owner b)).dontTouch = false) (hn : (B.net n).dontTouch = false) :
    ∃ journal, B.btermConnect b n = .ok { B with
      journal := journal, netBTerms := (B.netBTerms.unlink b (B.netBTerms.owner b)).push b n } := by
  unfold btermConnect btermDisconnectDbNet btermDisconnectNet btermConnectNet
  simp only [howner, hfree, hn, if_false, Bool.false_eq_true, Res.bind_ok]
  exact ⟨_, rfl⟩

/-- A walk that has got to the second bterm of the list that it moves the bterms to goes on for ever:
moved to the head, the bterm leads on to the one that was there. -/
theorem mergeBTerms_never {n b : Nat} (hn : (B.net n).dontTouch = false) (hn0 : n ≠ 0) (hb : b ≠ 0)
    (howner : B.netBTerms.owner b = n) (hhead : B.netBTerms.head n ≠ b)
    (hhead0 : B.netBTerms.head n ≠ 0) (hheadOwner : B.netBTerms.owner (B.netBTerms.head n) = n)
    (fuel : Nat) : B.mergeBTerms n b fuel = none := by
  induction fuel generalizing B b with
  | zero => rfl
  | succ fuel ih =>
      obtain ⟨journal, hconnect⟩ := btermConnect_eq (B := B) (b := b) (n := n)
        (by rw [howner]; exact hn0) (by rw [howner]; exact hn) hn
      have hunlink : (B.netBTerms.unlink b n).head n = B.netBTerms.head n := by
        unfold Lists.unlink
        rw [if_neg hhead]
      rw [mergeBTerms, if_neg hb, hconnect, howner]
      have hnext : ((B.netBTerms.unlink b n).push b n).next b = B.netBTerms.head n :=
        (Function.update_self ..).trans hunlink
      have hfirst : ((B.netBTerms.unlink b n).push b n).head n = b := Function.update_self ..
      have howners : ∀ b', b' ≠ b → ((B.netBTerms.unlink b n).push b n).owner b' =
          B.netBTerms.owner b' := by
        intro b' hne
        rw [Lists.owner_push, Lists.owner_unlink, Function.update_of_ne hne, Function.update_of_ne hne]
      dsimp only
      rw [hnext]
      refine ih (B := { B with
        journal := journal, netBTerms := (B.netBTerms.unlink b n).push b n }) hn hhead0 ?_ ?_ ?_ ?_
      · exact (howners _ hhead).trans hheadOwner
      · rw [hfirst]
        exact hhead.symm
      · rw [hfirst]
        exact hb
      · dsimp only
        rw [hfirst, Lists.owner_push, Function.update_self]

/-- The first bterm of another net leads on to the list of `n`. -/
theorem btermConnect_first {n inNet b : Nat} (hne : inNet ≠ n) (hin0 : inNet ≠ 0)
    (hnet : (B.net n).dontTouch = false) (hinNet : (B.net inNet).dontTouch = false)
    (howner : B.netBTerms.owner b = inNet) (hhead : B.netBTerms.head inNet = b) :
    ∃ B', B.btermConnect b n = .ok B' ∧
      B' = { B with journal := B'.journal, netBTerms := B'.netBTerms } ∧
      B'.netBTerms.next b = B.netBTerms.head n ∧ B'.netBTerms.head n = b ∧
      B'.netBTerms.owner = Function.update B.netBTerms.owner b n := by
  obtain ⟨journal, hconnect⟩ := btermConnect_eq (B := B) (b := b) (n := n)
    (by rw [howner]; exact hin0) (by rw [howner]; exact hinNet) hnet
  rw [howner] at hconnect
  refine ⟨_, hconnect, rfl, ?_, Function.update_self .., ?_⟩
  · have hunlink : (B.netBTerms.unlink b inNet).head n = B.netBTerms.head n := by
      unfold Lists.unlink
      rw [if_pos hhead]
      exact Function.update_of_ne hne.symm _ _
    exact (Function.update_self ..).trans hunlink
  · rw [Lists.owner_push, Lists.owner_unlink, Function.update_idem]

/-! ### The merge -/

/-- Every terminal of the two nets is on the first one, and the second has none. -/
structure Merged (B B' : Block) (n inNet : Nat) : Prop where
  iterms : ∃ l, ListOf B'.netITerms B'.itermTbl.allocated n l ∧ ∀ t, t ∈ l ↔
    t ∈ B.itermTbl.allocated ∧ (B.netITerms.owner t = n ∨ B.netITerms.owner t = inNet)
  itermsLeft : ListOf B'.netITerms B'.itermTbl.allocated inNet []
  bterms : ∃ l, ListOf B'.netBTerms B'.btermTbl.allocated n l ∧ ∀ b, b ∈ l ↔
    b ∈ B.btermTbl.allocated ∧ (B.netBTerms.owner b = n ∨ B.netBTerms.owner b = inNet)
  btermsLeft : ListOf B'.netBTerms B'.btermTbl.allocated inNet []

/-- The lists after every member of one owner has been given to another. -/
theorem listOf_moved {s s' : Lists} {members owners : Finset Nat} {n inNet : Nat}
    (h : s'.Over members owners) (hn : n ∈ owners) (hin : inNet ∈ owners) (hne : inNet ≠ n)
    (howner : ∀ t, s'.owner t = if s.owner t = inNet then n else s.owner t) :
    (∃ l, ListOf s' members n l ∧
      ∀ t, t ∈ l ↔ t ∈ members ∧ (s.owner t = n ∨ s.owner t = inNet)) ∧
      ListOf s' members inNet [] := by
  constructor
  · obtain ⟨l, hl⟩ := listOf_of_over h hn
    refine ⟨l, hl, fun t => ?_⟩
    rw [hl.mem_iff, howner]
    by_cases ht : s.owner t = inNet
    · rw [if_pos ht]
      exact ⟨fun hmem => ⟨hmem.1, Or.inr ht⟩, fun hmem => ⟨hmem.1, rfl⟩⟩
    · rw [if_neg ht]
      exact and_congr_right fun _ => (or_iff_left ht).symm
  · obtain ⟨l, hl⟩ := listOf_of_over h hin
    have hnil : l = [] := by
      refine List.eq_nil_iff_forall_not_mem.mpr fun t hmem => ?_
      have hmoved := ((hl.mem_iff t).mp hmem).2
      rw [howner] at hmoved
      by_cases ht : s.owner t = inNet
      · rw [if_pos ht] at hmoved
        exact hne hmoved.symm
      · rw [if_neg ht] at hmoved
        exact ht hmoved
    rw [← hnil]
    exact hl

section Merge

variable (h : B.ListsOk) {n inNet : Nat} (hn : n ∈ B.netTbl.allocated)
  (hin : inNet ∈ B.netTbl.allocated) (hne : inNet ≠ n) (hnet : (B.net n).dontTouch = false)
  (hinNet : (B.net inNet).dontTouch = false)
  (hinsts : ∀ t, B.netITerms.owner t = inNet → (B.itermInst t).flags.dontTouch = false)

include h hn hin hne hnet hinNet hinsts

/-- Collected beforehand, the iterms are moved; what is left is the walk over the bterms. -/
theorem mergeNet_eq : ∃ (fuel₀ : Nat) (B₁ : Block), B₁.ListsOk ∧
    B₁ = { B with journal := B₁.journal, netITerms := B₁.netITerms } ∧
    (∀ t, B₁.netITerms.owner t = if B.netITerms.owner t = inNet then n else B.netITerms.owner t) ∧
    (∀ fuel r, B.mergeNet n inNet fuel = some r →
      B₁.mergeBTerms n (B.netBTerms.head inNet) fuel = some r) ∧
    ∀ fuel, fuel₀ < fuel →
      B.mergeNet n inNet fuel = B₁.mergeBTerms n (B.netBTerms.head inNet) fuel := by
  obtain ⟨l, hl⟩ := listOf_of_over h.netITerms hin
  have hin0 : inNet ≠ 0 := h.netITerms.owner_ne_zero hin
  obtain ⟨B₁, hB₁, h₁, heq, howner⟩ := connectITerms_spec h hn hne hin0 hnet hinNet l hl.nodup
    fun t ht => ⟨((hl.mem_iff t).mp ht).1, ((hl.mem_iff t).mp ht).2,
      hinsts t ((hl.mem_iff t).mp ht).2⟩
  have hbterms : B₁.netBTerms = B.netBTerms := by rw [heq]
  refine ⟨l.length, B₁, h₁, heq, fun t => ?_, fun fuel r hmerge => ?_, fun fuel hfuel => ?_⟩
  · rw [howner]
    refine if_congr ?_ rfl rfl
    rw [hl.mem_iff]
    refine ⟨fun hmem => hmem.2, fun howner => ⟨h.netITerms.member t ?_, howner⟩⟩
    rw [howner]
    exact hin0
  · obtain ⟨iterms, hiterms, hrest⟩ := Option.bind_eq_some_iff.mp hmerge
    rw [eq_of_netMembers hl.chain hiterms, hB₁] at hrest
    rw [← hbterms]
    exact hrest
  · unfold mergeNet
    rw [netMembers_of_chain hl.chain fuel hfuel, Option.bind_some, hB₁]
    dsimp only
    rw [hbterms]

/-- `dbNet::mergeNet` returns with everything moved exactly when there is no bterm to move, or one and
the net has none of its own. -/
theorem mergeNet_iff : (∃ fuel B', B.mergeNet n inNet fuel = some (.ok B') ∧ Merged B B' n inNet) ↔
    ∃ l l', ListOf B.netBTerms B.btermTbl.allocated inNet l ∧
      ListOf B.netBTerms B.btermTbl.allocated n l' ∧ (l = [] ∨ l.length = 1 ∧ l' = []) := by
  obtain ⟨fuel₀, B₁, h₁, heq, howner, hback, hforth⟩ :=
    mergeNet_eq h hn hin hne hnet hinNet hinsts
  have hn0 : n ≠ 0 := h.netBTerms.owner_ne_zero hn
  have hin0 : inNet ≠ 0 := h.netBTerms.owner_ne_zero hin
  have hbterms : B₁.netBTerms = B.netBTerms := by rw [heq]
  have hnet₁ : (B₁.net n).dontTouch = false := by rw [heq]; exact hnet
  have hinNet₁ : (B₁.net inNet).dontTouch = false := by rw [heq]; exact hinNet
  have hterms : B₁.itermTbl = B.itermTbl ∧ B₁.netTbl = B.netTbl ∧ B₁.btermTbl = B.btermTbl := by
    rw [heq]
    exact ⟨rfl, rfl, rfl⟩
  obtain ⟨hitermTbl, hnetTbl, hbtermTbl⟩ := hterms
  have hiterms : (∃ l, ListOf B₁.netITerms B.itermTbl.allocated n l ∧ ∀ t, t ∈ l ↔
      t ∈ B.itermTbl.allocated ∧ (B.netITerms.owner t = n ∨ B.netITerms.owner t = inNet)) ∧
      ListOf B₁.netITerms B.itermTbl.allocated inNet [] := by
    have hlists := h₁.netITerms
    rw [hitermTbl, hnetTbl] at hlists
    exact listOf_moved hlists hn hin hne howner
  constructor
  · rintro ⟨fuel, B', hmerge, hmerged⟩
    obtain ⟨l, hl⟩ := listOf_of_over h.netBTerms hin
    obtain ⟨l', hl'⟩ := listOf_of_over h.netBTerms hn
    refine ⟨l, l', hl, hl', ?_⟩
    have hwalk := hback fuel _ hmerge
    match l, hl with
    | [], _ => exact Or.inl rfl
    | b :: rest, hl =>
        obtain ⟨hhead, hb0, -, -⟩ := hl.chain
        have hb := ((hl.mem_iff b).mp List.mem_cons_self).2
        obtain ⟨B₂, hconnect, heq₂, hnext, hhead₂, howner₂⟩ := btermConnect_first (B := B₁) (b := b)
          hne hin0 hnet₁ hinNet₁ (by rw [hbterms]; exact hb) (by rw [hbterms]; exact hhead)
        rw [hbterms] at hnext howner₂
        match fuel, hwalk with
        | fuel + 1, hwalk =>
            rw [hhead, mergeBTerms, if_neg hb0, hconnect] at hwalk
            dsimp only at hwalk
            rw [hnext] at hwalk
            match l', hl' with
            | x :: rest', hl' =>
                -- the walk gets to the first bterm that the net had of its own
                obtain ⟨hheadn, hx0, -, -⟩ := hl'.chain
                have hx := ((hl'.mem_iff x).mp List.mem_cons_self).2
                have hxb : x ≠ b := fun hxb => hne (by rw [← hb, ← hxb, hx])
                rw [hheadn, mergeBTerms_never (by rw [heq₂]; exact hnet₁) hn0 hx0] at hwalk
                · exact absurd hwalk (Option.some_ne_none _).symm
                · rw [howner₂, Function.update_of_ne hxb]
                  exact hx
                · rw [hhead₂]
                  exact hxb.symm
                · rw [hhead₂]
                  exact hb0
                · rw [hhead₂, howner₂, Function.update_self]
            | [], hl' =>
                -- the walk ends, whatever is left of the net that it came from
                have hheadn : B.netBTerms.head n = 0 := hl'.chain
                rw [hheadn] at hwalk
                match fuel, hwalk with
                | fuel + 1, hwalk =>
                    obtain rfl : B₂ = B' := by
                      rw [mergeBTerms, if_pos rfl] at hwalk
                      exact Res.ok.inj (Option.some.inj hwalk)
                    refine Or.inr ⟨?_, rfl⟩
                    match rest, hl with
                    | [], _ => rfl
                    | y :: rest, hl =>
                        have hy := (hl.mem_iff y).mp (List.mem_cons_of_mem _ List.mem_cons_self)
                        have hyb : y ≠ b := fun hyb => (List.nodup_cons.mp hl.nodup).1
                          (hyb ▸ List.mem_cons_self)
                        have hleft := (hmerged.btermsLeft.mem_iff y).mpr
                        rw [howner₂, Function.update_of_ne hyb, heq₂, heq] at hleft
                        exact absurd (hleft hy) List.not_mem_nil
  · rintro ⟨l, l', hl, hl', hcases⟩
    -- what is left to show is that the walk ends, with the bterms moved
    suffices hwalk : ∃ fuel B', fuel₀ < fuel ∧
        B₁.mergeBTerms n (B.netBTerms.head inNet) fuel = some (.ok B') ∧
        B' = { B₁ with journal := B'.journal, netBTerms := B'.netBTerms } ∧ B'.ListsOk ∧
        ∀ t, B'.netBTerms.owner t =
          if B.netBTerms.owner t = inNet then n else B.netBTerms.owner t by
      obtain ⟨fuel, B', hfuel, hwalk, heq', h', howner'⟩ := hwalk
      refine ⟨fuel, B', (hforth fuel hfuel).trans hwalk, ?_⟩
      have hiterms' : B'.netITerms = B₁.netITerms ∧ B'.itermTbl = B.itermTbl := by
        rw [heq']
        exact ⟨rfl, hitermTbl⟩
      have htbls : B'.btermTbl = B.btermTbl ∧ B'.netTbl = B.netTbl := by
        rw [heq']
        exact ⟨hbtermTbl, hnetTbl⟩
      have hlists := h'.netBTerms
      rw [htbls.1, htbls.2] at hlists
      obtain ⟨hmoved, hleft⟩ := listOf_moved hlists hn hin hne howner'
      constructor
      · rw [hiterms'.1, hiterms'.2]
        exact hiterms.1
      · rw [hiterms'.1, hiterms'.2]
        exact hiterms.2
      · rw [htbls.1]
        exact hmoved
      · rw [htbls.1]
        exact hleft
    obtain rfl | ⟨hlength, rfl⟩ := hcases
    · have hhead : B.netBTerms.head inNet = 0 := hl.chain
      refine ⟨fuel₀ + 1, B₁, Nat.lt_succ_self _, ?_, rfl, h₁, fun t => ?_⟩
      · rw [hhead, mergeBTerms, if_pos rfl]
      · rw [hbterms, if_neg]
        intro ht
        have hmem := (hl.mem_iff t).mpr ⟨h.netBTerms.member t (by rw [ht]; exact hin0), ht⟩
        exact List.not_mem_nil hmem
    · obtain ⟨b, rfl⟩ := List.length_eq_one_iff.mp hlength
      obtain ⟨hhead, hb0, -, -⟩ := hl.chain
      have hheadn : B.netBTerms.head n = 0 := hl'.chain
      obtain ⟨hmem, hb⟩ := (hl.mem_iff b).mp List.mem_cons_self
      obtain ⟨B₂, hconnect, heq₂, hnext, -, howner₂⟩ := btermConnect_first (B := B₁) (b := b)
        hne hin0 hnet₁ hinNet₁ (by rw [hbterms]; exact hb) (by rw [hbterms]; exact hhead)
      rw [hbterms] at hnext howner₂
      have h₂ : B₂.ListsOk := btermConnect_listsOk h₁ (by rw [hbtermTbl]; exact hmem)
        (by rw [hnetTbl]; exact hn) B₂ (by rw [hconnect]; rfl)
      refine ⟨fuel₀ + 2, B₂, Nat.lt_add_of_pos_right Nat.two_pos, ?_, heq₂, h₂, fun t => ?_⟩
      · rw [hhead, mergeBTerms, if_neg hb0, hconnect]
        dsimp only
        rw [hnext, hheadn, mergeBTerms, if_pos rfl]
      · rw [howner₂]
        by_cases ht : t = b
        · rw [ht, Function.update_self, if_pos hb]
        · rw [Function.update_of_ne ht, if_neg]
          intro howner
          have ht' := (hl.mem_iff t).mpr
            ⟨h.netBTerms.member t (by rw [howner]; exact hin0), howner⟩
          exact ht (List.mem_singleton.mp ht')

end Merge

/-- The calls that make two nets, and a port on the second. -/
def portOnOther : List BlockOp :=
  [.netCreate "net" false, .netCreate "other" false, .btermCreate 2 "port"]

/-- The only port of the second net is moved to the first. -/
theorem mergeNet_iff_port : ∃ B, Run.run step (empty blockShifts (fun _ => noTerms) 1) portOnOther =
    some B ∧ ∃ fuel B', B.mergeNet 1 2 fuel = some (.ok B') ∧ Merged B B' 1 2 := by
  have hfacts : (Run.run step (empty blockShifts (fun _ => noTerms) 1) portOnOther).map (fun B =>
      (B.netBTerms.head 1, B.netBTerms.head 2, B.netBTerms.next 1, B.netITerms.head 2,
        decide (1 ∈ B.netTbl.allocated ∧ 2 ∈ B.netTbl.allocated),
        (B.net 1).dontTouch || (B.net 2).dontTouch)) = some (0, 1, 0, 0, true, false) := by
    decide +kernel
  obtain ⟨B, hrun, heq⟩ := Option.map_eq_some_iff.mp hfacts
  obtain ⟨hhead₁, hhead₂, hnext, hiterm, ⟨hnet₁, hnet₂⟩, hfree₁, hfree₂⟩ :
      B.netBTerms.head 1 = 0 ∧ B.netBTerms.head 2 = 1 ∧ B.netBTerms.next 1 = 0 ∧
      B.netITerms.head 2 = 0 ∧ (1 ∈ B.netTbl.allocated ∧ 2 ∈ B.netTbl.allocated) ∧
      (B.net 1).dontTouch = false ∧ (B.net 2).dontTouch = false := by simpa using heq
  have h : B.ListsOk := run_listsOk (empty_listsOk _ _ _) (by decide +kernel) hrun
  have hinsts : ∀ t, B.netITerms.owner t = 2 → (B.itermInst t).flags.dontTouch = false := by
    intro t ht
    obtain ⟨l, hl⟩ := listOf_of_over h.netITerms hnet₂
    have hmem : t ∈ l := (hl.mem_iff t).mpr ⟨h.netITerms.member t (by rw [ht]; decide), ht⟩
    rw [chain_eq_nil hl.chain hiterm] at hmem
    exact absurd hmem List.not_mem_nil
  refine ⟨B, hrun, (mergeNet_iff h hnet₁ hnet₂ (by decide) hfree₁ hfree₂ hinsts).mpr ?_⟩
  obtain ⟨l, hl⟩ := listOf_of_over h.netBTerms hnet₂
  obtain ⟨l', hl'⟩ := listOf_of_over h.netBTerms hnet₁
  refine ⟨l, l', hl, hl', Or.inr ⟨?_, chain_eq_nil hl'.chain hhead₁⟩⟩
  match l, hl.chain with
  | [], hchain => exact absurd hhead₂ (by rw [show B.netBTerms.head 2 = 0 from hchain]; decide)
  | b :: rest, ⟨hb, _, _, hrest⟩ =>
      rw [show b = 1 from hb.symm.trans hhead₂] at hrest
      rw [chain_eq_nil hrest hnext]
      rfl

/-- The calls that make two nets with a port on each. -/
def portOnEach : List BlockOp :=
  [.netCreate "net" false, .netCreate "other" false, .btermCreate 2 "a", .btermCreate 1 "b"]

/-- With a port on each of the nets, the call does not return. -/
theorem not_mergeNet_ports :
    ∃ B, Run.run step (empty blockShifts (fun _ => noTerms) 1) portOnEach = some B ∧ B.ListsOk ∧
      ∀ fuel, B.mergeNet 1 2 fuel = none := by
  have hfacts : (Run.run step (empty blockShifts (fun _ => noTerms) 1) portOnEach).map (fun B =>
      (B.netBTerms.head 1, B.netBTerms.head 2, B.netBTerms.owner 1, B.netBTerms.owner 2,
        B.netITerms.head 2, (B.net 1).dontTouch || (B.net 2).dontTouch)) =
      some (2, 1, 2, 1, 0, false) := by decide +kernel
  obtain ⟨B, hrun, heq⟩ := Option.map_eq_some_iff.mp hfacts
  obtain ⟨hhead₁, hhead₂, howner₁, howner₂, hiterm, hfree₁, hfree₂⟩ : B.netBTerms.head 1 = 2 ∧
      B.netBTerms.head 2 = 1 ∧ B.netBTerms.owner 1 = 2 ∧ B.netBTerms.owner 2 = 1 ∧
      B.netITerms.head 2 = 0 ∧ (B.net 1).dontTouch = false ∧ (B.net 2).dontTouch = false := by
    simpa using heq
  refine ⟨B, hrun, run_listsOk (empty_listsOk _ _ _) (by decide +kernel) hrun, fun fuel => ?_⟩
  obtain ⟨B', hconnect, heq', hnext, hhead, howner⟩ := btermConnect_first (B := B) (n := 1)
    (by decide) (by decide) hfree₁ hfree₂ howner₁ hhead₂
  match fuel with
  | 0 => rfl
  | fuel + 1 =>
      unfold mergeNet
      rw [hiterm, netMembers, if_pos rfl, Option.bind_some, connectITerms]
      dsimp only
      rw [hhead₂, mergeBTerms, if_neg Nat.one_ne_zero, hconnect]
      dsimp only
      rw [hnext, hhead₁]
      refine mergeBTerms_never ?_ Nat.one_ne_zero Nat.two_pos.ne' ?_ ?_ ?_ ?_ fuel
      · rw [heq']
        exact hfree₁
      · rw [howner]
        exact howner₂
      · rw [hhead]
        decide
      · rw [hhead]
        exact Nat.one_ne_zero
      · rw [hhead, howner, Function.update_self]

end Block

end OpenRoad.Db

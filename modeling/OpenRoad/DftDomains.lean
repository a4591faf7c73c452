import OpenRoad.DftChains

/-!
All scan chains of a design. The buckets part the cells by the hash of their clock domain, every
bucket is emptied into the chains of its domain, and what is left to the widths of the cells is
whether every chain gets a cell and stays within its length.
-/

namespace OpenRoad.Dft

variable (config : ScanArchitectConfig) (cells : List ScanCell)

/-! ### The buckets -/

/-- The key that `compareScanCells` compares. -/
def sortKey (cell : ScanCell) : Nat ×ₗ String ×ₗ Nat :=
  toLex (cell.bits, toLex (cell.clockDomain.clockName, cell.clockDomain.clockEdge.toNat))

theorem compareScanCells_iff (lhs rhs : ScanCell) :
    compareScanCells lhs rhs = true ↔ sortKey lhs < sortKey rhs := by
  unfold compareScanCells sortKey
  rw [Prod.Lex.toLex_lt_toLex, Prod.Lex.toLex_lt_toLex]
  by_cases hbits : lhs.bits = rhs.bits
  · by_cases hname : lhs.clockDomain.clockName = rhs.clockDomain.clockName
    · simp [hbits, hname]
    · simp [hbits, hname]
  · simp [hbits]

theorem sortScanCells_perm : (sortScanCells cells).Perm cells := List.perm_insertionSort ..

/-- The sort puts the widest cells last. -/
theorem sortScanCells_bits : (sortScanCells cells).Pairwise fun a b => a.bits ≤ b.bits := by
  have hkey : ∀ a b : ScanCell, compareScanCells b a = false ↔ sortKey a ≤ sortKey b := by
    intro a b
    rw [← Bool.not_eq_true, compareScanCells_iff, not_lt]
  have : Std.Total fun a b : ScanCell => compareScanCells b a = false := ⟨fun a b => by
    rw [hkey, hkey]
    exact le_total _ _⟩
  have : IsTrans ScanCell fun a b => compareScanCells b a = false := ⟨fun a b c hab hbc => by
    rw [hkey] at *
    exact hab.trans hbc⟩
  refine (List.pairwise_insertionSort _ cells).imp fun {a b} hab => ?_
  rw [hkey, sortKey, sortKey, Prod.Lex.toLex_le_toLex] at hab
  exact hab.elim le_of_lt fun heq => heq.1.le

variable {config cells}

theorem mem_bucketOf {cell : ScanCell} {hashDomain : Nat} :
    cell ∈ bucketOf config cells hashDomain ↔ cell ∈ cells ∧ hashOf config cell = hashDomain := by
  unfold bucketOf
  rw [(sortScanCells_perm _).mem_iff, List.mem_filter, decide_eq_true_eq]

theorem mem_hashDomains {hashDomain : Nat} : hashDomain ∈ hashDomains config cells ↔
    ∃ cell ∈ cells, hashOf config cell = hashDomain := by
  unfold hashDomains
  rw [OrderedSet.mem_insertAll, List.mem_map]
  simp

theorem hashDomains_nodup : (hashDomains config cells).Nodup := by
  have hgeneral : ∀ (new set : List Nat), set.Nodup →
      (OrderedSet.insertAll (· ≤ ·) new set).Nodup := by
    intro new
    induction new with
    | nil => exact fun set hset => hset
    | cons a new ih => exact fun set hset => ih _ (OrderedSet.insert_nodup hset a)
  exact hgeneral _ [] List.nodup_nil

/-- The buckets of keys that cover the cells hold all of them. -/
theorem flatMap_filter_perm {α : Type*} (f : α → Nat) {keys : List Nat} (hnodup : keys.Nodup)
    {list : List α} (hkeys : ∀ a ∈ list, f a ∈ keys) :
    (keys.flatMap fun key => list.filter fun a => f a = key).Perm list := by
  induction keys generalizing list with
  | nil =>
      cases list with
      | nil => exact List.Perm.refl _
      | cons a list => cases hkeys a List.mem_cons_self
  | cons key keys ih =>
      obtain ⟨hkey, hrest⟩ := List.nodup_cons.mp hnodup
      have hmem : ∀ a ∈ list.filter fun a => !decide (f a = key), f a ∈ keys := by
        intro a ha
        obtain ⟨ha, hne⟩ := List.mem_filter.mp ha
        refine (List.mem_cons.mp (hkeys a ha)).resolve_left fun heq => ?_
        rw [heq] at hne
        simp at hne
      have hother := ih hrest hmem
      have hsame : (keys.flatMap fun other =>
          (list.filter fun a => !decide (f a = key)).filter fun a => f a = other) =
          keys.flatMap fun other => list.filter fun a => f a = other := by
        apply List.flatMap_congr
        intro other hmem
        rw [List.filter_filter]
        apply List.filter_congr
        intro a _
        have hne : other ≠ key := fun heq => hkey (heq ▸ hmem)
        by_cases heq : f a = other
        · simp [heq, hne]
        · simp [heq]
      rw [hsame] at hother
      rw [List.flatMap_cons]
      exact (hother.append_left _).trans (List.filter_append_perm ..)

/-! ### The domains -/

variable (config cells)

def domainBits (hashDomain : Nat) : Nat :=
  totalBits (cells.filter fun cell => hashOf config cell = hashDomain)

/-- The widths of the cells of a domain, the largest first. -/
def widths (hashDomain : Nat) : List Nat :=
  ((cells.filter fun cell => hashOf config cell = hashDomain).map ScanCell.bits).insertionSort
    (· ≥ ·)

/-- The widths of the domain fall into as many pieces as it has chains, and the width that closes
a piece keeps it within the length, unless the domain has more bits than its chains may hold. -/
def Fits (hashDomain : Nat) : Prop :=
  ∃ pieces : List (List Nat), pieces.flatten = widths config cells hashDomain ∧
    pieces.length = (limitsOf config cells hashDomain).chainCount ∧
    Closes (limitsOf config cells hashDomain).maxLength pieces ∧
    ∀ piece ∈ pieces, configLength config < piece.sum → ∃ maxChains,
      config.maxChains = some maxChains ∧
        maxChains * configLength config < domainBits config cells hashDomain

/-- What the chains of all domains have to be. -/
structure Architected (domains : List (Nat × List ScanChain)) : Prop where
  perm : ((domains.flatMap Prod.snd).flatMap ScanChain.scanCells).Perm cells
  keys : (domains.map Prod.fst).Nodup
  hash : ∀ entry ∈ domains, ∀ chain ∈ entry.2, ∀ cell ∈ chain.scanCells,
    hashOf config cell = entry.1
  count : ∀ entry ∈ domains, ∀ maxChains, config.maxChains = some maxChains →
    entry.2.length ≤ maxChains
  nonempty : ∀ entry ∈ domains, ∀ chain ∈ entry.2, chain.scanCells ≠ []
  bits : ∀ entry ∈ domains, ∀ chain ∈ entry.2, chain.bits = totalBits chain.scanCells
  length : ∀ entry ∈ domains, ∀ chain ∈ entry.2, configLength config < chain.bits →
    ∃ maxChains, config.maxChains = some maxChains ∧
      maxChains * configLength config < domainBits config cells entry.1
  edges : ∀ entry ∈ domains, ∀ chain ∈ entry.2, chain.scanCells.Pairwise fun first second =>
    ¬(first.clockDomain.clockEdge = .rising ∧ second.clockDomain.clockEdge = .falling)

variable {config cells}

theorem totalBits_perm {cells cells' : List ScanCell} (h : cells.Perm cells') :
    totalBits cells = totalBits cells' := (h.map ScanCell.bits).sum_eq

theorem widths_eq (hashDomain : Nat) : widths config cells hashDomain =
    (bucketOf config cells hashDomain).reverse.map ScanCell.bits := by
  have hperm : (widths config cells hashDomain).Perm
      ((bucketOf config cells hashDomain).reverse.map ScanCell.bits) := by
    refine (List.perm_insertionSort ..).trans (List.Perm.map _ ?_)
    exact (sortScanCells_perm _).symm.trans (List.reverse_perm _).symm
  refine hperm.eq_of_pairwise (fun a b _ _ hab hba => le_antisymm hba hab)
    (List.pairwise_insertionSort ..) ?_
  rw [List.map_reverse, List.pairwise_reverse, List.pairwise_map]
  exact sortScanCells_bits _

/-- The chains of a domain. -/
structure DomainBuilt (config : ScanArchitectConfig) (cells : List ScanCell) (hashDomain : Nat)
    (entry : Nat × List ScanChain) : Prop where
  key : entry.1 = hashDomain
  pieces : ∃ pieces, (bucketOf config cells hashDomain).reverse = pieces.flatten ∧
    List.Forall₂ Built pieces entry.2 ∧
    pieces.length = (limitsOf config cells hashDomain).chainCount ∧
    Filling (limitsOf config cells hashDomain).maxLength [] pieces

theorem createScanChains_spec (limits : Nat → HashDomainLimits) (domains : List Nat)
    (chainNumber : Nat) : List.Forall₂ (fun hashDomain (entry : Nat × List ScanChain) =>
      entry.1 = hashDomain ∧ entry.2.length = (limits hashDomain).chainCount ∧
        ∀ chain ∈ entry.2, Taken [] chain) domains (createScanChains limits domains chainNumber) := by
  induction domains generalizing chainNumber with
  | nil => exact List.Forall₂.nil
  | cons hashDomain rest ih =>
      refine List.Forall₂.cons ⟨rfl, ?_, fun chain hchain => ?_⟩ (ih _)
      · rw [List.length_map, List.length_range]
      · obtain ⟨i, -, rfl⟩ := List.mem_map.mp hchain
        exact Taken.new _

/-- A run over a list gives one result for each element. -/
theorem mapM_forall₂ {α β γ ε : Type*} {f : β → Except ε γ} {R : α → β → Prop} {S : α → γ → Prop}
    {keys : List α} {entries : List β} (h : List.Forall₂ R keys entries)
    (hstep : ∀ key ∈ keys, ∀ entry, R key entry → ∃ result, f entry = .ok result ∧ S key result) :
    ∃ results, entries.mapM f = .ok results ∧ List.Forall₂ S keys results := by
  induction h with
  | nil => exact ⟨[], rfl, List.Forall₂.nil⟩
  | cons hfirst _ ih =>
      obtain ⟨result, hresult, hS⟩ := hstep _ List.mem_cons_self _ hfirst
      obtain ⟨results, hresults, hall⟩ := ih fun key hkey => hstep key (List.mem_cons_of_mem _ hkey)
      refine ⟨result :: results, ?_, List.Forall₂.cons hS hall⟩
      rw [List.mapM_cons, hresult]
      show (List.mapM f _).bind _ = _
      rw [hresults]
      rfl

section Limits

variable (hlength : ∀ maxLength, config.maxLength = some maxLength → 1 ≤ maxLength)
  (hchains : ∀ maxChains, config.maxChains = some maxChains → 1 ≤ maxChains)
  (hbits : ∀ cell ∈ cells, 1 ≤ cell.bits)
include hlength hchains hbits

theorem limitsOf_spec {hashDomain : Nat} (h : hashDomain ∈ hashDomains config cells) :
    1 ≤ (limitsOf config cells hashDomain).maxLength ∧
      totalBits (bucketOf config cells hashDomain) ≤
        (limitsOf config cells hashDomain).chainCount *
          (limitsOf config cells hashDomain).maxLength ∧
      ∀ maxChains, config.maxChains = some maxChains →
        (limitsOf config cells hashDomain).chainCount ≤ maxChains := by
  have hpositive : 1 ≤ configLength config := by
    unfold configLength
    cases hcase : config.maxLength with
    | none => exact Nat.le_add_left 1 199
    | some maxLength => exact hlength maxLength hcase
  have htotal : 1 ≤ totalBits (bucketOf config cells hashDomain) := by
    obtain ⟨cell, hcell, hhash⟩ := mem_hashDomains.mp h
    have hmem := mem_bucketOf.mpr ⟨hcell, hhash⟩
    have hle := List.single_le_sum (fun b _ => Nat.zero_le b) cell.bits
      (List.mem_map_of_mem (f := ScanCell.bits) hmem)
    exact (hbits cell hcell).trans hle
  obtain ⟨-, hmax, hcover, hcount⟩ := inferLimits_spec htotal hpositive hchains
  exact ⟨hmax, hcover, hcount⟩

/-- The architect succeeds, and every bucket goes into the chains of its domain. -/
theorem architect_built (Q : NearestQuery) : ∃ domains, architect config Q cells = .ok domains ∧
    List.Forall₂ (DomainBuilt config cells) (hashDomains config cells) domains := by
  refine mapM_forall₂ (createScanChains_spec (limitsOf config cells) (hashDomains config cells) 0)
    fun hashDomain hmem entry hentry => ?_
  obtain ⟨rfl, hcount, htaken⟩ := hentry
  obtain ⟨hlimit, hcover, -⟩ := limitsOf_spec hlength hchains hbits hmem
  obtain ⟨built, pieces, rest, hrun, hcells, hbuilt, hpieces, hfilling⟩ :=
    architectDomain_fills Q hlimit htaken (bucketOf config cells entry.1).reverse
  have hrest : rest = [] := by
    refine hfilling.rest_nil (fun cell hcell => ?_) ?_
    · have hmem : cell ∈ (bucketOf config cells entry.1).reverse := by
        rw [hcells]
        exact List.mem_append_right _ hcell
      exact hbits cell (mem_bucketOf.mp (List.mem_reverse.mp hmem)).1
    · rw [← hcells, totalBits_perm (List.reverse_perm _), hpieces, hcount]
      exact hcover
  subst hrest
  rw [List.append_nil] at hcells
  refine ⟨(entry.1, built), ?_, rfl, pieces, hcells, hbuilt, hpieces.trans hcount, hfilling⟩
  rw [hrun]
  rfl

end Limits

theorem forall₂_exists_left {α β : Type*} {R : α → β → Prop} {as : List α} {bs : List β}
    (h : List.Forall₂ R as bs) {b : β} (hb : b ∈ bs) : ∃ a ∈ as, R a b := by
  induction h with
  | nil => cases hb
  | cons hfirst _ ih =>
      rcases List.mem_cons.mp hb with rfl | hb
      · exact ⟨_, List.mem_cons_self, hfirst⟩
      · obtain ⟨a, ha, hR⟩ := ih hb
        exact ⟨a, List.mem_cons_of_mem _ ha, hR⟩

theorem forall₂_exists_right {α β : Type*} {R : α → β → Prop} {as : List α} {bs : List β}
    (h : List.Forall₂ R as bs) {a : α} (ha : a ∈ as) : ∃ b ∈ bs, R a b :=
  forall₂_exists_left (R := fun b a => R a b) h.flip ha

/-- The cells of lists that match part by part. -/
theorem forall₂_flatMap_perm {α β γ : Type*} {R : α → β → Prop} {f : α → List γ} {g : β → List γ}
    {as : List α} {bs : List β} (h : List.Forall₂ R as bs) (hR : ∀ a b, R a b → (g b).Perm (f a)) :
    (bs.flatMap g).Perm (as.flatMap f) := by
  induction h with
  | nil => exact List.Perm.refl _
  | cons hfirst _ ih =>
      rw [List.flatMap_cons, List.flatMap_cons]
      exact (hR _ _ hfirst).append ih

namespace DomainBuilt

variable {hashDomain : Nat} {entry : Nat × List ScanChain}

theorem perm (h : DomainBuilt config cells hashDomain entry) :
    (entry.2.flatMap ScanChain.scanCells).Perm
      (cells.filter fun cell => hashOf config cell = hashDomain) := by
  obtain ⟨pieces, hbucket, hbuilt, -, -⟩ := h.pieces
  have hpieces : (entry.2.flatMap ScanChain.scanCells).Perm (pieces.flatMap id) :=
    forall₂_flatMap_perm hbuilt fun piece chain hchain => hchain.perm
  rw [List.flatMap_id, ← hbucket] at hpieces
  exact hpieces.trans ((List.reverse_perm _).trans (sortScanCells_perm _))

/-- Every chain of the domain has a cell and keeps to the length just when the widths fit. -/
theorem fits_iff (h : DomainBuilt config cells hashDomain entry) :
    Fits config cells hashDomain ↔ ∀ chain ∈ entry.2, chain.scanCells ≠ [] ∧
      (configLength config < chain.bits → ∃ maxChains, config.maxChains = some maxChains ∧
        maxChains * configLength config < domainBits config cells hashDomain) := by
  obtain ⟨pieces, hbucket, hbuilt, hcount, hfilling⟩ := h.pieces
  have hwidths : widths config cells hashDomain = pieces.flatten.map ScanCell.bits := by
    rw [widths_eq, hbucket]
  constructor
  · rintro ⟨split, hflatten, hlength, hcloses, hlong⟩ chain hchain
    obtain ⟨piece, hpiece, hchain⟩ := forall₂_exists_left hbuilt hchain
    have hunique := hcloses.unique hfilling (hlength.trans hcount.symm) (hflatten.trans hwidths)
    have hmem : piece.map ScanCell.bits ∈ split := by
      rw [hunique]
      exact List.mem_map_of_mem hpiece
    refine ⟨fun hnil => ?_, fun hbits => ?_⟩
    · have hperm := hchain.perm
      rw [hnil] at hperm
      rw [List.nil_perm.mp hperm] at hmem
      exact hcloses.nonempty _ hmem rfl
    · rw [hchain.bits] at hbits
      exact hlong _ hmem hbits
  · intro hchains
    refine ⟨pieces.map (List.map ScanCell.bits), ?_, ?_, hfilling.closes fun piece hpiece => ?_,
      fun split hsplit hlong => ?_⟩
    · rw [hwidths, List.map_flatten]
    · rw [List.length_map, hcount]
    · obtain ⟨chain, hmem, hchain⟩ := forall₂_exists_right hbuilt hpiece
      rintro rfl
      exact (hchains chain hmem).1 (List.perm_nil.mp hchain.perm)
    · obtain ⟨piece, hpiece, rfl⟩ := List.mem_map.mp hsplit
      obtain ⟨chain, hmem, hchain⟩ := forall₂_exists_right hbuilt hpiece
      refine (hchains chain hmem).2 ?_
      rw [hchain.bits]
      exact hlong

end DomainBuilt

/-- The architect meets its requirements just when the widths of every domain fit. -/
theorem architect_ok_iff (Q : NearestQuery) (config : ScanArchitectConfig) (cells : List ScanCell)
    (hlength : ∀ maxLength, config.maxLength = some maxLength → 1 ≤ maxLength)
    (hchains : ∀ maxChains, config.maxChains = some maxChains → 1 ≤ maxChains)
    (hbits : ∀ cell ∈ cells, 1 ≤ cell.bits) :
    ∃ domains, architect config Q cells = .ok domains ∧
      (Architected config cells domains ↔
        ∀ hashDomain ∈ hashDomains config cells, Fits config cells hashDomain) := by
  obtain ⟨domains, hrun, hbuilt⟩ := architect_built hlength hchains hbits Q
  refine ⟨domains, hrun, ?_⟩
  constructor
  · intro h hashDomain hmem
    obtain ⟨entry, hentry, hdomain⟩ := forall₂_exists_right hbuilt hmem
    refine hdomain.fits_iff.mpr fun chain hchain => ⟨h.nonempty entry hentry chain hchain, ?_⟩
    rw [← hdomain.key]
    exact h.length entry hentry chain hchain
  · intro hfits
    have hdomain : ∀ entry ∈ domains, DomainBuilt config cells entry.1 entry ∧
        entry.1 ∈ hashDomains config cells := by
      intro entry hentry
      obtain ⟨hashDomain, hmem, hdomain⟩ := forall₂_exists_left hbuilt hentry
      obtain rfl := hdomain.key
      exact ⟨hdomain, hmem⟩
    have hchain : ∀ entry ∈ domains, ∀ chain ∈ entry.2, ∃ piece, Built piece chain := by
      intro entry hentry chain hchain
      obtain ⟨pieces, -, hall, -, -⟩ := (hdomain entry hentry).1.pieces
      obtain ⟨piece, -, hpiece⟩ := forall₂_exists_left hall hchain
      exact ⟨piece, hpiece⟩
    have hkeys : domains.map Prod.fst = hashDomains config cells := by
      have hfst : List.Forall₂ (· = ·) (hashDomains config cells) (domains.map Prod.fst) := by
        rw [List.forall₂_map_right_iff]
        exact hbuilt.imp fun _ _ h => h.key.symm
      exact (List.forall₂_eq_eq_eq ▸ hfst : hashDomains config cells = domains.map Prod.fst).symm
    refine ⟨?_, ?_, fun entry hentry chain hmem cell hcell => ?_,
      fun entry hentry maxChains hmax => ?_, fun entry hentry chain hmem => ?_,
      fun entry hentry chain hmem => ?_, fun entry hentry chain hmem => ?_,
      fun entry hentry chain hmem => ?_⟩
    · rw [List.flatMap_assoc]
      refine (forall₂_flatMap_perm hbuilt fun hashDomain entry h => h.perm).trans ?_
      exact flatMap_filter_perm (hashOf config) hashDomains_nodup fun cell hcell =>
        mem_hashDomains.mpr ⟨cell, hcell, rfl⟩
    · rw [hkeys]
      exact hashDomains_nodup
    · have hfilter := (hdomain entry hentry).1.perm.mem_iff.mp
        (List.mem_flatMap.mpr ⟨chain, hmem, hcell⟩)
      exact of_decide_eq_true (List.mem_filter.mp hfilter).2
    · obtain ⟨pieces, -, hall, hcount, -⟩ := (hdomain entry hentry).1.pieces
      rw [← hall.length_eq, hcount]
      exact (limitsOf_spec hlength hchains hbits (hdomain entry hentry).2).2.2 maxChains hmax
    · exact ((hdomain entry hentry).1.fits_iff.mp
        (hfits entry.1 (hdomain entry hentry).2) chain hmem).1
    · obtain ⟨piece, hpiece⟩ := hchain entry hentry chain hmem
      rw [hpiece.bits, totalBits_perm hpiece.perm]
    · exact ((hdomain entry hentry).1.fits_iff.mp
        (hfits entry.1 (hdomain entry hentry).2) chain hmem).2
    · obtain ⟨piece, hpiece⟩ := hchain entry hentry chain hmem
      exact hpiece.edges

/-- An index that gives its values in the order it has them. -/
def firstTen : NearestQuery where
  query := fun _ values => values.take 10
  mem := fun _ _ _ h => List.mem_of_mem_take h
  nodup := fun _ _ h => h.sublist (List.take_sublist ..)
  length := fun _ _ => List.length_take

/-- Nine bits on at most four chains of two: three chains take three bits each, none is left for
the last one. -/
def nineCells : List ScanCell :=
  ["a", "b", "c", "d", "e", "f", "g", "h", "i"].map oneBitCell

theorem nine_cells_leave_chain_empty :
    ∃ domains, architect ⟨.clockMix, some 2, some 4⟩ firstTen nineCells = .ok domains ∧
      ¬Architected ⟨.clockMix, some 2, some 4⟩ nineCells domains := by
  obtain ⟨domains, hrun⟩ : ∃ domains,
      architect ⟨.clockMix, some 2, some 4⟩ firstTen nineCells = .ok domains := ⟨_, rfl⟩
  refine ⟨domains, hrun, fun h => ?_⟩
  have hempty : (architect ⟨.clockMix, some 2, some 4⟩ firstTen nineCells).toOption.all
      (fun domains => domains.all fun entry => entry.2.all fun chain =>
        !chain.scanCells.isEmpty) = false := by
    decide
  rw [hrun] at hempty
  have hall : domains.all (fun entry => entry.2.all fun chain => !chain.scanCells.isEmpty) = true :=
    List.all_eq_true.mpr fun entry hentry => List.all_eq_true.mpr fun chain hchain => by
      rw [Bool.not_eq_true', List.isEmpty_eq_false_iff]
      exact h.nonempty entry hentry chain hchain
  exact Bool.false_ne_true (hempty.symm.trans hall)

theorem nine_cells_architect :
    ∃ domains, architect ⟨.clockMix, some 2, some 4⟩ firstTen nineCells = .ok domains ∧
      (Architected ⟨.clockMix, some 2, some 4⟩ nineCells domains ↔
        ∀ hashDomain ∈ hashDomains ⟨.clockMix, some 2, some 4⟩ nineCells,
          Fits ⟨.clockMix, some 2, some 4⟩ nineCells hashDomain) := by
  apply architect_ok_iff firstTen ⟨.clockMix, some 2, some 4⟩ nineCells
  · intro maxLength h
    rw [← Option.some.inj h]
    decide
  · intro maxChains h
    rw [← Option.some.inj h]
    decide
  · decide

end OpenRoad.Dft

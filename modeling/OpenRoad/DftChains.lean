import OpenRoad.DftArchitect
import Mathlib.Data.Prod.Lex
import Mathlib.Data.String.Basic
import Mathlib.Algebra.Order.BigOperators.Group.List

/-!
What the chains of a hash domain hold. The cells leave the bucket in pieces, a piece is closed as
soon as it reaches the limit, and no cell is left at the end; whether a chain stays empty or grows
too long depends on how the widths of the domain fall into pieces.
-/

namespace OpenRoad.Dft

/-! ### The limits -/

theorem inferLimits_spec {bits maxLength : Nat} {maxChains : Option Nat} (hbits : 1 ≤ bits)
    (hlength : 1 ≤ maxLength) (hchains : ∀ count, maxChains = some count → 1 ≤ count) :
    let limits := inferLimits bits maxLength maxChains
    1 ≤ limits.chainCount ∧ 1 ≤ limits.maxLength ∧ bits ≤ limits.chainCount * limits.maxLength ∧
      ∀ count, maxChains = some count → limits.chainCount ≤ count := by
  have hround : ∀ n : Nat, 1 ≤ n →
      1 ≤ (if bits % n = 0 then bits / n else bits / n + 1) ∧
        bits ≤ n * (if bits % n = 0 then bits / n else bits / n + 1) := by
    intro n hn
    have hdiv := Nat.div_add_mod bits n
    have hmod := Nat.mod_lt bits hn
    generalize bits / n = quotient at hdiv
    generalize bits % n = rest at hdiv hmod
    split
    · rename_i hzero
      have hquotient : quotient ≠ 0 := by
        intro hnone
        rw [hnone, hzero] at hdiv
        omega
      exact ⟨Nat.one_le_iff_ne_zero.mpr hquotient, by omega⟩
    · refine ⟨Nat.le_add_left 1 quotient, ?_⟩
      rw [Nat.mul_add, Nat.mul_one]
      omega
  obtain ⟨hone, -⟩ := hround maxLength hlength
  unfold inferLimits
  dsimp only
  rw [ite_not]
  generalize (if bits % maxLength = 0 then bits / maxLength else bits / maxLength + 1) = unbounded
    at hone
  cases maxChains with
  | none =>
      obtain ⟨hmax, htotal⟩ := hround unbounded hone
      exact ⟨hone, hmax, htotal, fun count hcount => by cases hcount⟩
  | some count =>
      have hcount : 1 ≤ min unbounded count := le_min hone (hchains count rfl)
      obtain ⟨hmax, htotal⟩ := hround (min unbounded count) hcount
      refine ⟨hcount, hmax, htotal, fun other hother => ?_⟩
      rw [← Option.some.inj hother]
      exact min_le_right _ _

/-! ### One chain -/

/-- The chain has taken these cells. -/
structure Taken (cells : List ScanCell) (chain : ScanChain) : Prop where
  rising : chain.risingEdgeScanCells = cells.filter fun cell => cell.clockDomain.clockEdge = .rising
  falling :
    chain.fallingEdgeScanCells = cells.filter fun cell => cell.clockDomain.clockEdge = .falling
  bits : chain.bits = totalBits cells

theorem Taken.new (name : String) : Taken [] (ScanChain.new name) := ⟨rfl, rfl, rfl⟩

theorem totalBits_append (cells cells' : List ScanCell) :
    totalBits (cells ++ cells') = totalBits cells + totalBits cells' := by
  unfold totalBits
  rw [List.map_append, List.sum_append]

theorem Taken.add {cells : List ScanCell} {chain : ScanChain} (h : Taken cells chain)
    (cell : ScanCell) : Taken (cells ++ [cell]) (chain.add cell) := by
  unfold ScanChain.add
  cases hedge : cell.clockDomain.clockEdge with
  | rising =>
      refine ⟨?_, ?_, ?_⟩
      · simp [h.rising, hedge]
      · simp [h.falling, hedge]
      · rw [totalBits_append, ← h.bits]
        rfl
  | falling =>
      refine ⟨?_, ?_, ?_⟩
      · simp [h.rising, hedge]
      · simp [h.falling, hedge]
      · rw [totalBits_append, ← h.bits]
        rfl

/-- A chain takes cells until it reaches the limit or the bucket is empty. -/
theorem fill_spec {limit : Nat} (cells : List ScanCell) {taken : List ScanCell} {chain : ScanChain}
    (h : Taken taken chain) (hopen : totalBits taken.dropLast < limit) :
    ∃ piece chain' rest, fill limit cells chain = (chain', rest) ∧ cells = piece ++ rest ∧
      Taken (taken ++ piece) chain' ∧ totalBits (taken ++ piece).dropLast < limit ∧
      (limit ≤ totalBits (taken ++ piece) ∨ rest = []) := by
  induction cells generalizing taken chain with
  | nil =>
      refine ⟨[], chain, [], rfl, rfl, ?_, ?_, Or.inr rfl⟩
      · rw [List.append_nil]
        exact h
      · rw [List.append_nil]
        exact hopen
  | cons cell cells ih =>
      unfold fill
      by_cases hlt : chain.bits < limit
      · rw [if_pos hlt]
        have hstill : totalBits (taken ++ [cell]).dropLast < limit := by
          rw [List.dropLast_concat, ← h.bits]
          exact hlt
        obtain ⟨piece, chain', rest, hfill, hcells, htaken, hbelow, hend⟩ := ih (h.add cell) hstill
        rw [List.append_assoc] at htaken hbelow hend
        refine ⟨cell :: piece, chain', rest, hfill, ?_, htaken, hbelow, hend⟩
        rw [hcells, List.cons_append]
      · rw [if_neg hlt]
        refine ⟨[], chain, cell :: cells, rfl, rfl, ?_, ?_, Or.inl ?_⟩
        · rw [List.append_nil]
          exact h
        · rw [List.append_nil]
          exact hopen
        · rw [List.append_nil, ← h.bits]
          omega

/-- The chain holds these cells, the falling edge first. -/
structure Built (cells : List ScanCell) (chain : ScanChain) : Prop where
  perm : chain.scanCells.Perm cells
  bits : chain.bits = totalBits cells
  edges : chain.scanCells.Pairwise fun first second =>
    ¬(first.clockDomain.clockEdge = .rising ∧ second.clockDomain.clockEdge = .falling)

theorem Taken.sort {cells : List ScanCell} {chain : ScanChain} (h : Taken cells chain)
    (Q : NearestQuery) : ∃ sorted, chain.sort Q = .ok sorted ∧ Built cells sorted := by
  obtain ⟨falling, hfalling, hfallingPerm⟩ :=
    optimizeScanWirelength_perm Q chain.fallingEdgeScanCells
  obtain ⟨rising, hrising, hrisingPerm⟩ := optimizeScanWirelength_perm Q chain.risingEdgeScanCells
  rw [h.falling] at hfallingPerm
  rw [h.rising] at hrisingPerm
  have hedge : ∀ {edge : ClockEdge} {sorted : List ScanCell}, sorted.Perm
      (cells.filter fun cell => cell.clockDomain.clockEdge = edge) →
      ∀ cell ∈ sorted, cell.clockDomain.clockEdge = edge := by
    intro edge sorted hperm cell hcell
    exact of_decide_eq_true (List.mem_filter.mp (hperm.mem_iff.mp hcell)).2
  have hsort : chain.sort Q = .ok { chain with
      scanCells := falling ++ rising
      fallingEdgeScanCells := []
      risingEdgeScanCells := [] } := by
    unfold ScanChain.sort
    rw [hfalling, hrising]
    rfl
  refine ⟨_, hsort, ?_, h.bits, ?_⟩
  · have hnot : cells.filter (fun cell => cell.clockDomain.clockEdge = .rising) =
        cells.filter fun cell => !decide (cell.clockDomain.clockEdge = .falling) := by
      apply List.filter_congr
      intro cell _
      cases cell.clockDomain.clockEdge <;> rfl
    rw [hnot] at hrisingPerm
    exact (hfallingPerm.append hrisingPerm).trans (List.filter_append_perm ..)
  · refine List.pairwise_append.mpr ⟨?_, ?_, fun first hfirst second _ hboth => ?_⟩
    · refine List.pairwise_of_forall_mem_list fun first hfirst second _ hboth => ?_
      rw [hedge hfallingPerm first hfirst] at hboth
      cases hboth.1
    · refine List.pairwise_of_forall_mem_list fun first _ second hsecond hboth => ?_
      rw [hedge hrisingPerm second hsecond] at hboth
      cases hboth.2
    · rw [hedge hfallingPerm first hfirst] at hboth
      cases hboth.1

/-! ### The chains of a domain -/

/-- The pieces that the chains of a domain take from the bucket. -/
def Filling (limit : Nat) (rest : List ScanCell) : List (List ScanCell) → Prop
  | [] => True
  | piece :: pieces => totalBits piece.dropLast < limit ∧
      (limit ≤ totalBits piece ∨ pieces.flatten ++ rest = []) ∧ Filling limit rest pieces

theorem architectDomain_fills (Q : NearestQuery) {limit : Nat} (hlimit : 1 ≤ limit)
    {chains : List ScanChain} (hchains : ∀ chain ∈ chains, Taken [] chain) (cells : List ScanCell) :
    ∃ built pieces rest, architectDomain Q limit chains cells = .ok built ∧
      cells = pieces.flatten ++ rest ∧ List.Forall₂ Built pieces built ∧
      pieces.length = chains.length ∧ Filling limit rest pieces := by
  induction chains generalizing cells with
  | nil => exact ⟨[], [], cells, rfl, rfl, List.Forall₂.nil, rfl, trivial⟩
  | cons chain chains ih =>
      obtain ⟨piece, filled, rest, hfill, hcells, htaken, hbelow, hend⟩ :=
        fill_spec cells (hchains chain List.mem_cons_self) hlimit
      obtain ⟨sorted, hsort, hbuilt⟩ := htaken.sort Q
      obtain ⟨built, pieces, rest', hrest, hpieces, hall, hlength, hfilling⟩ :=
        ih (fun other hother => hchains other (List.mem_cons_of_mem _ hother)) rest
      refine ⟨sorted :: built, piece :: pieces, rest', ?_, ?_, ?_, ?_, hbelow, ?_, hfilling⟩
      · unfold architectDomain
        dsimp only
        rw [hfill]
        dsimp only
        rw [hsort]
        show (architectDomain Q limit chains rest).bind _ = _
        rw [hrest]
        rfl
      · rw [hcells, hpieces, List.flatten_cons, List.append_assoc]
      · exact List.Forall₂.cons hbuilt hall
      · rw [List.length_cons, List.length_cons, hlength]
      · rw [← hpieces]
        exact hend

theorem Filling.total_le {limit : Nat} {rest : List ScanCell} {pieces : List (List ScanCell)}
    (h : Filling limit rest pieces) (hrest : rest ≠ []) :
    pieces.length * limit ≤ totalBits pieces.flatten := by
  induction pieces with
  | nil => exact Nat.le_of_eq (Nat.zero_mul limit)
  | cons piece pieces ih =>
      obtain ⟨-, hend, htail⟩ := h
      have hpiece : limit ≤ totalBits piece := hend.resolve_right fun hnil =>
        hrest (List.append_eq_nil_iff.mp hnil).2
      have hpieces := ih htail
      rw [List.length_cons, List.flatten_cons, totalBits_append, Nat.add_mul, Nat.one_mul]
      omega

/-- The limits of a domain leave no cell in the bucket. -/
theorem Filling.rest_nil {limit : Nat} {rest : List ScanCell} {pieces : List (List ScanCell)}
    (h : Filling limit rest pieces) (hbits : ∀ cell ∈ rest, 1 ≤ cell.bits)
    (htotal : totalBits (pieces.flatten ++ rest) ≤ pieces.length * limit) : rest = [] := by
  by_contra hrest
  have hpieces := h.total_le hrest
  rw [totalBits_append] at htotal
  cases rest with
  | nil => exact hrest rfl
  | cons cell rest =>
      have hcell := hbits cell List.mem_cons_self
      have hsum : totalBits (cell :: rest) = cell.bits + totalBits rest := List.sum_cons
      omega

/-! ### The widths of a domain -/

/-- A list of widths falls into pieces: a piece is closed by the width that reaches the limit. -/
structure Closes (limit : Nat) (pieces : List (List Nat)) : Prop where
  nonempty : ∀ piece ∈ pieces, piece ≠ []
  stays : ∀ piece ∈ pieces, piece.dropLast.sum < limit
  reaches : ∀ piece ∈ pieces.dropLast, limit ≤ piece.sum

theorem totalBits_dropLast (cells : List ScanCell) :
    totalBits cells.dropLast = (cells.map ScanCell.bits).dropLast.sum := by
  unfold totalBits
  rw [List.map_dropLast]

theorem Filling.closes {limit : Nat} {pieces : List (List ScanCell)} (h : Filling limit [] pieces)
    (hnonempty : ∀ piece ∈ pieces, piece ≠ []) :
    Closes limit (pieces.map (List.map ScanCell.bits)) := by
  induction pieces with
  | nil => exact ⟨by simp, by simp, by simp⟩
  | cons piece pieces ih =>
      obtain ⟨hbelow, hend, htail⟩ := h
      have hrest := ih htail fun other hother => hnonempty other (List.mem_cons_of_mem _ hother)
      rw [totalBits_dropLast] at hbelow
      refine ⟨fun other hother => ?_, fun other hother => ?_, fun other hother => ?_⟩
      · rcases List.mem_cons.mp hother with rfl | hother
        · exact fun hnil => hnonempty piece List.mem_cons_self (List.map_eq_nil_iff.mp hnil)
        · exact hrest.nonempty other hother
      · rcases List.mem_cons.mp hother with rfl | hother
        · exact hbelow
        · exact hrest.stays other hother
      · cases pieces with
        | nil => cases hother
        | cons next pieces =>
            rcases List.mem_cons.mp hother with rfl | hother
            · refine hend.resolve_right fun hnil => ?_
              rw [List.append_nil, List.flatten_cons] at hnil
              have hnext := hnonempty next (List.mem_cons_of_mem _ List.mem_cons_self)
              exact hnext (List.append_eq_nil_iff.mp hnil).1
            · exact hrest.reaches other hother

/-- A prefix that stops short of the last element of a list has no larger sum than the list without
it. -/
theorem sum_le_dropLast {front back list tail : List Nat} (h : front ++ back = list ++ tail)
    (hlt : front.length < list.length) : front.sum ≤ list.dropLast.sum := by
  have hprefix : front <+: list.dropLast := by
    have hle : front <+: list := List.prefix_of_prefix_length_le ⟨back, h⟩ ⟨tail, rfl⟩ hlt.le
    rw [List.dropLast_eq_take]
    exact List.prefix_take_iff.mpr ⟨hle, by omega⟩
  obtain ⟨more, hmore⟩ := hprefix
  rw [← hmore, List.sum_append]
  exact Nat.le_add_right _ _

/-- The pieces are determined by the widths. -/
theorem Closes.unique {limit : Nat} {widths : List (List Nat)} (h : Closes limit widths)
    {pieces : List (List ScanCell)} (hfilling : Filling limit [] pieces)
    (hlength : widths.length = pieces.length)
    (hflatten : widths.flatten = pieces.flatten.map ScanCell.bits) :
    widths = pieces.map (List.map ScanCell.bits) := by
  induction widths generalizing pieces with
  | nil =>
      obtain rfl := List.length_eq_zero_iff.mp hlength.symm
      rfl
  | cons piece widths ih =>
      cases pieces with
      | nil => cases hlength
      | cons cells pieces =>
          obtain ⟨hbelow, hend, htail⟩ := hfilling
          rw [totalBits_dropLast] at hbelow
          rw [List.append_nil] at hend
          rw [List.flatten_cons, List.flatten_cons, List.map_append] at hflatten
          have hpiece : piece.length = (cells.map ScanCell.bits).length := by
            rcases Nat.lt_trichotomy piece.length (cells.map ScanCell.bits).length with
              hlt | heq | hgt
            · have hsum := sum_le_dropLast hflatten hlt
              cases widths with
              | nil =>
                  have hlen := congrArg List.length hflatten
                  rw [List.flatten_nil, List.append_nil, List.length_append] at hlen
                  omega
              | cons next widths =>
                  have hreach := h.reaches piece List.mem_cons_self
                  omega
            · exact heq
            · have hsum := sum_le_dropLast hflatten.symm hgt
              have hstay := h.stays piece List.mem_cons_self
              have hshort : totalBits cells < limit := by
                unfold totalBits
                omega
              rw [hend.resolve_left (by omega)] at hflatten
              have hlen := congrArg List.length hflatten
              rw [List.map_nil, List.append_nil, List.length_append] at hlen
              omega
          obtain ⟨hfirst, hrest⟩ := List.append_inj hflatten hpiece
          have hwidths : Closes limit widths := by
            refine ⟨fun p hp => h.nonempty p (List.mem_cons_of_mem _ hp),
              fun p hp => h.stays p (List.mem_cons_of_mem _ hp), fun p hp => h.reaches p ?_⟩
            cases widths with
            | nil => cases hp
            | cons next widths => exact List.mem_cons_of_mem _ hp
          rw [List.map_cons, hfirst, ih hwidths htail (Nat.succ.inj hlength) hrest]

end OpenRoad.Dft

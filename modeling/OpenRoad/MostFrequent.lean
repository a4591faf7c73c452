import OpenRoad.OrderedMap
import Mathlib.Data.List.Count
import Mathlib.Data.List.Induction

/-!
The most frequent value of a list: the values are tallied in an ordered map, and a scan over the map
keeps the first one with the greatest count.
-/

namespace OpenRoad.MostFrequent

variable {α : Type*}

/-- The scan, from a value and a count before the map. -/
def scan (start : α × Int) (entries : List (α × Nat)) : α × Int :=
  entries.foldl (fun best entry => if best.2 < entry.2 then (entry.1, entry.2) else best) start

/-- The scan keeps an entry that no other beats and no earlier one equals, or what it began with. -/
theorem scan_spec (start : α × Int) (entries : List (α × Nat)) :
    (scan start entries = start ∧ ∀ e ∈ entries, (e.2 : Int) ≤ start.2) ∨
      ∃ before v after, entries = before ++ v :: after ∧ scan start entries = (v.1, (v.2 : Int)) ∧
        start.2 < v.2 ∧ (∀ e ∈ before, e.2 < v.2) ∧ ∀ e ∈ after, e.2 ≤ v.2 := by
  induction entries using List.reverseRecOn with
  | nil => exact Or.inl ⟨rfl, by simp⟩
  | append_singleton entries e ih =>
      have hstep : scan start (entries ++ [e]) =
          if (scan start entries).2 < e.2 then (e.1, (e.2 : Int)) else scan start entries := by
        rw [scan, List.foldl_append]
        rfl
      rw [hstep]
      rcases ih with ⟨hsame, hall⟩ | ⟨before, v, after, rfl, hval, hstart, hbefore, hafter⟩
      · rw [hsame]
        split_ifs with hlt
        · refine Or.inr ⟨entries, e, [], rfl, rfl, hlt, fun b hb => ?_, by simp⟩
          have := hall b hb
          omega
        · refine Or.inl ⟨rfl, fun b hb => ?_⟩
          rcases List.mem_append.mp hb with hb | hb
          · exact hall b hb
          · rw [List.mem_singleton.mp hb]
            omega
      · rw [hval]
        dsimp only
        split_ifs with hlt
        · refine Or.inr ⟨before ++ v :: after, e, [], rfl, rfl, by omega, fun b hb => ?_, by simp⟩
          rcases List.mem_append.mp hb with hb | hb
          · have := hbefore b hb
            omega
          · rcases List.mem_cons.mp hb with rfl | hb
            · omega
            · have := hafter b hb
              omega
        · refine Or.inr ⟨before, v, after ++ [e], by simp, rfl, hstart, hbefore, fun b hb => ?_⟩
          rcases List.mem_append.mp hb with hb | hb
          · exact hafter b hb
          · rw [List.mem_singleton.mp hb]
            omega

variable [LinearOrder α]

/-- The ordered map from the values to how often they occur. -/
def tally (l : List α) : List (α × Nat) :=
  (OrderedSet.insertAll (· ≤ ·) l []).map fun v => (v, l.count v)

/-- The most frequent value, or `absent` where there is none. -/
def mostFrequent (absent : α) (l : List α) : α := (scan (absent, -1) (tally l)).1

/-- No value of the list occurs more often, and no smaller one as often. -/
structure IsMostFrequent (l : List α) (v : α) : Prop where
  mem : v ∈ l
  count_le : ∀ w ∈ l, l.count w ≤ l.count v
  count_lt : ∀ w ∈ l, w < v → l.count w < l.count v

theorem IsMostFrequent.eq {l : List α} {v w : α} (hv : IsMostFrequent l v)
    (hw : IsMostFrequent l w) : v = w := by
  rcases lt_trichotomy v w with h | h | h
  · have hlt := hw.count_lt v hv.mem h
    have hle := hv.count_le w hw.mem
    omega
  · exact h
  · have hlt := hv.count_lt w hw.mem h
    have hle := hw.count_le v hv.mem
    omega

theorem mem_tally {l : List α} {e : α × Nat} : e ∈ tally l ↔ e.1 ∈ l ∧ e.2 = l.count e.1 := by
  unfold tally
  rw [List.mem_map]
  constructor
  · rintro ⟨v, hv, rfl⟩
    rw [OrderedSet.mem_insertAll] at hv
    simpa using hv
  · rintro ⟨hmem, hcount⟩
    refine ⟨e.1, OrderedSet.mem_insertAll.mpr (Or.inl hmem), ?_⟩
    rw [← hcount]

theorem tally_pairwise (l : List α) : (tally l).Pairwise fun a b => a.1 ≤ b.1 := by
  rw [tally, List.pairwise_map]
  exact OrderedSet.insertAll_pairwise List.Pairwise.nil

theorem mostFrequent_nil (absent : α) : mostFrequent absent ([] : List α) = absent := rfl

/-- A scan over the counts of a list finds its most frequent value, the least of several. -/
theorem isMostFrequent_scan {start : α × Int} (hstart : start.2 ≤ 0) {entries : List (α × Nat)}
    {l : List α} (hne : l ≠ []) (hmem : ∀ e, e ∈ entries ↔ e.1 ∈ l ∧ e.2 = l.count e.1)
    (hsorted : entries.Pairwise fun a b => a.1 ≤ b.1) : IsMostFrequent l (scan start entries).1 := by
  rcases scan_spec start entries with ⟨-, hall⟩ | ⟨before, v, after, hsplit, hval, -, hb, ha⟩
  · obtain ⟨a, ha⟩ := List.exists_mem_of_ne_nil l hne
    have hle := hall (a, l.count a) ((hmem _).mpr ⟨ha, rfl⟩)
    have hpos := List.count_pos_iff.mpr ha
    dsimp only at hle
    omega
  · have hv : v ∈ entries := by
      rw [hsplit]
      simp
    obtain ⟨hvmem, hcount⟩ := (hmem v).mp hv
    rw [hval]
    have hentry : ∀ w ∈ l, (w, l.count w) ∈ before ∨ (w, l.count w) = v ∨ (w, l.count w) ∈ after := by
      intro w hw
      have hw : (w, l.count w) ∈ entries := (hmem _).mpr ⟨hw, rfl⟩
      rwa [hsplit, List.mem_append, List.mem_cons] at hw
    refine ⟨hvmem, fun w hw => ?_, fun w hw hlt => ?_⟩
    · rw [← hcount]
      rcases hentry w hw with h | h | h
      · exact (hb _ h).le
      · rw [← h]
      · exact ha _ h
    · rw [← hcount]
      rcases hentry w hw with h | h | h
      · exact hb _ h
      · rw [← h] at hlt
        exact absurd hlt (lt_irrefl _)
      · rw [hsplit, List.pairwise_append, List.pairwise_cons] at hsorted
        exact absurd hlt (not_lt.mpr (hsorted.2.1.1 _ h))

theorem isMostFrequent_mostFrequent (absent : α) {l : List α} (hne : l ≠ []) :
    IsMostFrequent l (mostFrequent absent l) :=
  isMostFrequent_scan (Int.negSucc_lt_zero 0).le hne (fun _ => mem_tally) (tally_pairwise l)

/-! ### The candidates at the least distance -/

/-- The keys met at the least distance so far, with how often each was met. -/
structure NearestTally (α : Type*) [LinearOrder α] where
  minDist : Option Int
  counts : OrderedMap α Nat

namespace NearestTally

def empty : NearestTally α := ⟨none, OrderedMap.empty⟩

/-- A smaller distance clears the counts; no distance is smaller than the initial one. -/
def add (t : NearestTally α) (key : α) (dist : Int) : NearestTally α :=
  if t.minDist.all (dist < ·) then ⟨some dist, OrderedMap.empty.alter key 0 (· + 1)⟩
  else if t.minDist = some dist then ⟨t.minDist, t.counts.alter key 0 (· + 1)⟩
  else t

/-- The keys at a distance. -/
def keysAt (pairs : List (α × Int)) (dist : Int) : List α :=
  (pairs.filter fun p => p.2 = dist).map Prod.fst

/-- The tally holds the least distance of the candidates and the keys at it. -/
structure Tallies (t : NearestTally α) (pairs : List (α × Int)) (dist : Int) : Prop where
  minDist : t.minDist = some dist
  least : ∀ p ∈ pairs, dist ≤ p.2
  counts : ∀ key, t.counts.find? key =
    if key ∈ keysAt pairs dist then some ((keysAt pairs dist).count key) else none

omit [LinearOrder α] in
theorem keysAt_append_singleton (pairs : List (α × Int)) (key : α) (dist d : Int) :
    keysAt (pairs ++ [(key, d)]) dist =
      if d = dist then keysAt pairs dist ++ [key] else keysAt pairs dist := by
  unfold keysAt
  split_ifs with h
  · simp [h]
  · simp [h]

omit [LinearOrder α] in
theorem keysAt_eq_nil {pairs : List (α × Int)} {dist : Int} (h : ∀ p ∈ pairs, dist < p.2) :
    keysAt pairs dist = [] := by
  rw [keysAt, List.filter_eq_nil_iff.mpr fun p hp => by simpa using (h p hp).ne', List.map_nil]

theorem count_keysAt (pairs : List (α × Int)) (dist : Int) (key : α) :
    (keysAt pairs dist).count key = pairs.countP fun p => p.1 = key ∧ p.2 = dist := by
  rw [keysAt, List.count, List.countP_map, List.countP_filter]
  apply List.countP_congr
  simp

/-- One more candidate at the distance of the tally. -/
theorem find?_alter_append {counts : OrderedMap α Nat} {keys : List α} (key : α)
    (h : ∀ k, counts.find? k = if k ∈ keys then some (keys.count k) else none) (k : α) :
    (counts.alter key 0 (· + 1)).find? k =
      if k ∈ keys ++ [key] then some ((keys ++ [key]).count k) else none := by
  rw [OrderedMap.find?_alter, h key, h k, List.count_append, List.count_singleton]
  by_cases hk : k = key
  · subst hk
    rw [if_pos rfl, if_pos (List.mem_append_right _ List.mem_cons_self)]
    by_cases hmem : k ∈ keys
    · simp [hmem]
    · simp [hmem, List.count_eq_zero_of_not_mem hmem]
  · have hkey : ¬(key == k) = true := by simpa using Ne.symm hk
    simp [hk, hkey]

theorem find?_empty (k : α) : (OrderedMap.empty : OrderedMap α Nat).find? k = none := rfl

theorem add_first {t : NearestTally α} {pairs : List (α × Int)} {key : α} {dist : Int}
    (hall : t.minDist.all (dist < ·) = true) (hlt : ∀ p ∈ pairs, dist < p.2) :
    (t.add key dist).Tallies (pairs ++ [(key, dist)]) dist := by
  rw [add, if_pos hall]
  refine ⟨rfl, fun p hp => ?_, fun k => ?_⟩
  · rcases List.mem_append.mp hp with hp | hp
    · exact (hlt p hp).le
    · rw [List.mem_singleton.mp hp]
  · rw [keysAt_append_singleton, if_pos rfl, keysAt_eq_nil hlt]
    exact find?_alter_append key (fun k => find?_empty k) k

/-- One more candidate. -/
theorem Tallies.add {t : NearestTally α} {pairs : List (α × Int)} {dist : Int}
    (h : t.Tallies pairs dist) (key : α) (d : Int) :
    (t.add key d).Tallies (pairs ++ [(key, d)]) (min d dist) := by
  rcases lt_trichotomy d dist with hlt | rfl | hgt
  · rw [min_eq_left hlt.le]
    exact add_first (by rw [h.minDist]; simpa using hlt) fun p hp => hlt.trans_le (h.least p hp)
  · rw [min_self, NearestTally.add, if_neg (by rw [h.minDist]; simp), if_pos h.minDist]
    refine ⟨h.minDist, fun p hp => ?_, fun k => ?_⟩
    · rcases List.mem_append.mp hp with hp | hp
      · exact h.least p hp
      · rw [List.mem_singleton.mp hp]
    · rw [keysAt_append_singleton, if_pos rfl]
      exact find?_alter_append key h.counts k
  · have hnot : ¬t.minDist.all (d < ·) = true := by
      rw [h.minDist]
      simpa using hgt.le
    have hne : t.minDist ≠ some d := by
      rw [h.minDist]
      simpa using hgt.ne
    rw [min_eq_right hgt.le, NearestTally.add, if_neg hnot, if_neg hne]
    refine ⟨h.minDist, fun p hp => ?_, fun k => ?_⟩
    · rcases List.mem_append.mp hp with hp | hp
      · exact h.least p hp
      · rw [List.mem_singleton.mp hp]
        exact hgt.le
    · rw [keysAt_append_singleton, if_neg hgt.ne']
      exact h.counts k

/-- The candidates, one after the other. -/
def collect (pairs : List (α × Int)) : NearestTally α :=
  pairs.foldl (fun t p => t.add p.1 p.2) empty

theorem collect_tallies {pairs : List (α × Int)} (hne : pairs ≠ []) :
    ∃ p ∈ pairs, (collect pairs).Tallies pairs p.2 := by
  induction pairs using List.reverseRecOn with
  | nil => exact absurd rfl hne
  | append_singleton pairs last ih =>
      have hstep : collect (pairs ++ [last]) = (collect pairs).add last.1 last.2 := by
        rw [collect, List.foldl_append]
        rfl
      rw [hstep]
      by_cases hnil : pairs = []
      · subst hnil
        exact ⟨last, by simp, add_first rfl fun p hp => absurd hp List.not_mem_nil⟩
      · obtain ⟨p, hp, htally⟩ := ih hnil
        have hnew := htally.add last.1 last.2
        rcases le_total last.2 p.2 with hmin | hmin
        · rw [min_eq_left hmin] at hnew
          exact ⟨last, by simp, hnew⟩
        · rw [min_eq_right hmin] at hnew
          exact ⟨p, List.mem_append_left _ hp, hnew⟩

/-- The scan over the counts of the nearest candidates. -/
def winner (absent : α) (t : NearestTally α) : α := (scan (absent, 0) t.counts.entries).1

/-- The winner is the most frequent of the keys at the least distance. -/
theorem isMostFrequent_winner (absent : α) {pairs : List (α × Int)} (hne : pairs ≠ []) :
    ∃ p ∈ pairs, (∀ q ∈ pairs, p.2 ≤ q.2) ∧
      IsMostFrequent (keysAt pairs p.2) ((collect pairs).winner absent) := by
  obtain ⟨p, hp, htally⟩ := collect_tallies hne
  have hmem : p.1 ∈ keysAt pairs p.2 :=
    List.mem_map_of_mem (List.mem_filter.mpr ⟨hp, decide_eq_true rfl⟩)
  refine ⟨p, hp, htally.least, isMostFrequent_scan le_rfl (List.ne_nil_of_mem hmem) (fun e => ?_)
    ((collect pairs).counts.ordered.imp le_of_lt)⟩
  have hfind := htally.counts e.1
  rw [← OrderedMap.find?_eq_some, hfind]
  split_ifs with h
  · simp [h, eq_comm]
  · simp [h]

end NearestTally

end OpenRoad.MostFrequent

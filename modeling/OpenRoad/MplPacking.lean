import OpenRoad.MplAnnealing

/-!
The floorplan of a sequence pair is packed exactly. A macro is to the left of those that it precedes
in both sequences, and below those that it follows in the positive sequence only; its coordinates are
the longest chains of such macros.
-/

namespace OpenRoad.Mpl

open Macro SimulatedAnnealingCore

/-! ### Sequences -/

/-- `a` comes before `b`. -/
def Precedes (seq : List Nat) (a b : Nat) : Prop := [a, b].Sublist seq

section Precedes

variable {seq pre post : List Nat} {a b c : Nat}

theorem precedes_append_cons (hseq : (pre ++ b :: post).Nodup) :
    Precedes (pre ++ b :: post) a b ↔ a ∈ pre := by
  have hpre : b ∉ pre := fun h => (List.nodup_append.mp hseq).2.2 b h b List.mem_cons_self rfl
  have hpost : b ∉ post := (List.nodup_cons.mp (List.nodup_append.mp hseq).2.1).1
  unfold Precedes
  rw [List.sublist_append_iff]
  constructor
  · rintro ⟨l, r, heq, hl, hr⟩
    cases l with
    | nil =>
        obtain rfl : [a, b] = r := heq
        rcases List.sublist_cons_iff.mp hr with h | ⟨r', h, h'⟩
        · exact absurd (h.subset (List.mem_cons_of_mem _ (List.mem_singleton_self b))) hpost
        · obtain ⟨rfl, rfl⟩ := List.cons.inj h
          exact absurd (h'.subset (List.mem_singleton_self _)) hpost
    | cons d l =>
        obtain ⟨rfl, -⟩ := List.cons.inj heq
        exact hl.subset List.mem_cons_self
  · intro ha
    exact ⟨[a], [b], rfl, List.singleton_sublist.mpr ha, List.singleton_sublist.mpr List.mem_cons_self⟩

theorem precedes_iff (hseq : seq.Nodup) : Precedes seq a b ↔ b ∈ seq ∧ seq.idxOf a < seq.idxOf b := by
  by_cases hb : b ∈ seq
  · obtain ⟨pre, post, rfl⟩ := List.append_of_mem hb
    have hpre : b ∉ pre := fun h => (List.nodup_append.mp hseq).2.2 b h b List.mem_cons_self rfl
    have hidx : (pre ++ b :: post).idxOf b = pre.length := by
      rw [List.idxOf_append_of_notMem hpre, List.idxOf_cons_self, Nat.add_zero]
    rw [precedes_append_cons hseq, hidx]
    refine ⟨fun ha => ⟨hb, ?_⟩, fun h => ?_⟩
    · rw [List.idxOf_append_of_mem ha]
      exact List.idxOf_lt_length_of_mem ha
    · by_contra ha
      rw [List.idxOf_append_of_notMem ha] at h
      exact absurd h.2 (Nat.not_lt.mpr (Nat.le_add_right _ _))
  · exact iff_of_false (fun h => hb (h.subset (List.mem_cons_of_mem _ (List.mem_singleton_self b))))
      fun h => hb h.1

theorem Precedes.left (h : Precedes seq a b) : a ∈ seq := h.subset List.mem_cons_self

theorem Precedes.right (h : Precedes seq a b) : b ∈ seq :=
  h.subset (List.mem_cons_of_mem _ (List.mem_singleton_self b))

theorem Precedes.trans (hseq : seq.Nodup) (hab : Precedes seq a b) (hbc : Precedes seq b c) :
    Precedes seq a c := by
  rw [precedes_iff hseq] at hab hbc ⊢
  exact ⟨hbc.1, hab.2.trans hbc.2⟩

theorem precedes_or (hseq : seq.Nodup) (ha : a ∈ seq) (hb : b ∈ seq) (hne : a ≠ b) :
    Precedes seq a b ∨ Precedes seq b a := by
  rw [precedes_iff hseq, precedes_iff hseq]
  rcases Nat.lt_trichotomy (seq.idxOf a) (seq.idxOf b) with h | h | h
  · exact Or.inl ⟨hb, h⟩
  · exact absurd ((List.idxOf_inj ha).mp h) hne
  · exact Or.inr ⟨ha, h⟩

theorem precedes_reverse : Precedes seq.reverse a b ↔ Precedes seq b a := by
  have hreverse : [b, a].reverse.Sublist seq.reverse ↔ [b, a].Sublist seq := List.reverse_sublist
  exact hreverse

end Precedes

/-- `a` precedes `b` in both sequences. -/
def LeftOf (posSeq negSeq : List Nat) (a b : Nat) : Prop := Precedes posSeq a b ∧ Precedes negSeq a b

/-- `a` follows `b` in the positive sequence and precedes it in the negative one. -/
def Below (posSeq negSeq : List Nat) (a b : Nat) : Prop := Precedes posSeq b a ∧ Precedes negSeq a b

theorem below_iff {posSeq negSeq : List Nat} {a b : Nat} :
    Below posSeq negSeq a b ↔ LeftOf posSeq.reverse negSeq a b := by
  unfold Below LeftOf
  rw [precedes_reverse]

theorem negSeqPos_eq {negSeq : List Nat} (hneg : negSeq.Nodup) {id : Nat} (hid : id ∈ negSeq) :
    negSeqPos negSeq id = negSeq.idxOf id := by
  have hkey : id ∈ negSeq.zipIdx.map Prod.fst := by
    rw [List.zipIdx_map_fst]
    exact hid
  obtain ⟨i, hi⟩ := LastWrite.exists_recorded hkey
  have hmem := List.mem_zipIdx_iff_getElem?.mp (LastWrite.mem_of_recorded hi)
  obtain ⟨hlt, heq⟩ := List.getElem?_eq_some_iff.mp hmem
  rw [negSeqPos, hi]
  calc i = negSeq.idxOf (negSeq.get ⟨i, hlt⟩) := (hneg.idxOf_getElem i hlt).symm
    _ = negSeq.idxOf id := congrArg (List.idxOf · negSeq) heq

/-! ### One direction -/

section Axis

variable {T : Type} {pos : Nat → Nat} {set : T → ℚ → T} {start size : T → ℚ}

/-- Where the macros `done` have been packed, each starts at the greatest end of those before it. -/
structure Packed (pos : Nat → Nat) (start size : T → ℚ) (done : List Nat) (macros : Nat → T)
    (lengths : List ℚ) : Prop where
  swept : Swept pos (start ∘ macros) (size ∘ macros) {a | a ∈ done} lengths
  starts : ∀ pre b post, done = pre ++ b :: post →
    IsGreatest (ends (start ∘ macros) (size ∘ macros) {a | a ∈ pre ∧ pos a ≤ pos b}) (start (macros b))

theorem ends_update {macros : Nat → T} {s : Set Nat} {b : Nat} (hb : b ∉ s) (m : T) :
    ends (start ∘ Function.update macros b m) (size ∘ Function.update macros b m) s =
      ends (start ∘ macros) (size ∘ macros) s := by
  unfold ends
  refine congrArg (insert 0) (Set.image_congr fun a ha => ?_)
  have hne : a ≠ b := fun heq => hb (heq ▸ ha)
  simp only [Function.comp_apply, Function.update_of_ne hne]

theorem Packed.step {done : List Nat} {macros : Nat → T} {lengths : List ℚ}
    (h : Packed pos start size done macros lengths) {b : Nat} (hb : b ∉ done)
    (hpos : pos b < lengths.length) (hset : start (set (macros b) (lengths.getD (pos b) 0)) =
      lengths.getD (pos b) 0) :
    Packed pos start size (done ++ [b]) (packMacro pos set start size (macros, lengths) b).1
      (packMacro pos set start size (macros, lengths) b).2 := by
  set m := set (macros b) (lengths.getD (pos b) 0) with hm
  have hstart : (start ∘ Function.update macros b m) b = lengths.getD (pos b) 0 := by
    rw [Function.comp_apply, Function.update_self]
    exact hset
  have hswept : Swept pos (start ∘ Function.update macros b m) (size ∘ Function.update macros b m)
      {a | a ∈ done} lengths := by
    intro j a ha
    rw [ends_update fun hmem => hb hmem.1]
    exact h.swept j a ha
  constructor
  · have hset' : {a | a ∈ done ++ [b]} = insert b {a | a ∈ done} := by
      ext a
      simp [or_comm]
    have hpush := hswept.push b
    rw [Function.comp_apply, Function.comp_apply, Function.update_self] at hpush
    rw [hset']
    exact hpush
  · intro pre c post hdone
    change IsGreatest (ends (start ∘ Function.update macros b m) (size ∘ Function.update macros b m) _)
      (start (Function.update macros b m c))
    rcases List.eq_nil_or_concat' post with rfl | ⟨post, d, rfl⟩
    · obtain ⟨rfl, hcb⟩ := List.append_inj' hdone rfl
      obtain rfl : b = c := (List.cons.inj hcb).1
      rw [Function.update_self, hm, hset]
      refine hswept (pos b) _ ?_
      rw [List.getElem?_eq_getElem hpos, ← List.getElem_eq_getD]
    · rw [← List.cons_append, ← List.append_assoc] at hdone
      obtain ⟨rfl, -⟩ := List.append_inj' hdone rfl
      have hne : c ≠ b := fun heq => hb (heq ▸ List.mem_append_right _ List.mem_cons_self)
      rw [Function.update_of_ne hne, ends_update fun hmem => hb (List.mem_append_left _ hmem.1)]
      exact h.starts pre c post rfl

/-- What a sweep leaves: the macros it packed, each of them set once. -/
structure PackedAll (pos : Nat → Nat) (set : T → ℚ → T) (start size : T → ℚ) (n : Nat) (seq : List Nat)
    (macros : Nat → T) (r : (Nat → T) × List ℚ) : Prop where
  packed : Packed pos start size seq r.1 r.2
  length : r.2.length = n
  set : ∀ b ∈ seq, ∃ v, r.1 b = set (macros b) v
  others : ∀ b, b ∉ seq → r.1 b = macros b

theorem packed_all {macros : Nat → T} (n : Nat) {seq : List Nat} (hseq : seq.Nodup)
    (hpos : ∀ b ∈ seq, pos b < n) (hset : ∀ b ∈ seq, ∀ v, start (set (macros b) v) = v) :
    PackedAll pos set start size n seq macros
      (seq.foldl (packMacro pos set start size) (macros, List.replicate n 0)) := by
  induction seq using List.reverseRecOn with
  | nil =>
      refine ⟨⟨?_, fun pre b post hnil => ?_⟩, List.length_replicate, fun b hb => ?_, fun b _ => rfl⟩
      · have hnone : {a : Nat | a ∈ ([] : List Nat)} = ∅ :=
          Set.eq_empty_of_forall_notMem fun a => List.not_mem_nil
        rw [hnone]
        exact Swept.start pos _ _ n
      · exact absurd hnil.symm (List.append_ne_nil_of_right_ne_nil _ (List.cons_ne_nil _ _))
      · exact absurd hb List.not_mem_nil
  | append_singleton seq b ih =>
      obtain ⟨hnodup, -, hdisjoint⟩ := List.nodup_append.mp hseq
      have hb : b ∉ seq := fun h => hdisjoint b h b (List.mem_singleton_self b) rfl
      have hih := ih hnodup (fun a ha => hpos a (List.mem_append_left _ ha))
        fun a ha => hset a (List.mem_append_left _ ha)
      have hmem : b ∈ seq ++ [b] := List.mem_append_right _ (List.mem_singleton_self b)
      rw [List.foldl_append]
      generalize seq.foldl (packMacro pos set start size) (macros, List.replicate n 0) = r at hih ⊢
      obtain ⟨ms, lengths⟩ := r
      have hold : ms b = macros b := hih.others b hb
      refine ⟨hih.packed.step hb (by rw [hih.length]; exact hpos b hmem) ?_, ?_, ?_, ?_⟩
      · change start (set (ms b) _) = _
        rw [hold]
        exact hset b hmem _
      · exact (length_raise _ _ _).trans hih.length
      · intro a ha
        change ∃ v, Function.update ms b _ a = _
        by_cases hab : a = b
        · rw [hab, Function.update_self]
          exact ⟨_, congrArg (fun m => set m _) hold⟩
        · rw [Function.update_of_ne hab]
          exact hih.set a ((List.mem_append.mp ha).resolve_right fun h => hab (List.mem_singleton.mp h))
      · intro a ha
        rw [List.mem_append, not_or, List.mem_singleton] at ha
        change Function.update ms b _ a = _
        rw [Function.update_of_ne ha.2]
        exact hih.others a ha.1

/-- A packed macro starts where the longest chain of macros before it ends. -/
theorem PackedAll.isGreatest {seq negSeq : List Nat} (hseq : seq.Nodup) (hneg : negSeq.Nodup)
    (hmem : ∀ a, a ∈ seq → a ∈ negSeq) {n : Nat} {macros : Nat → T} {r : (Nat → T) × List ℚ}
    (h : PackedAll (negSeqPos negSeq) set start size n seq macros r) {b : Nat} (hb : b ∈ seq) :
    IsGreatest (ends (start ∘ r.1) (size ∘ r.1) {a | LeftOf seq negSeq a b}) (start (r.1 b)) := by
  obtain ⟨pre, post, hsplit⟩ := List.append_of_mem hb
  have hset : {a | LeftOf seq negSeq a b} =
      {a | a ∈ pre ∧ negSeqPos negSeq a ≤ negSeqPos negSeq b} := by
    ext a
    have hpre : Precedes seq a b ↔ a ∈ pre := by
      rw [hsplit]
      exact precedes_append_cons (hsplit ▸ hseq)
    change Precedes seq a b ∧ Precedes negSeq a b ↔ _
    rw [hpre]
    refine and_congr_right fun ha => ?_
    have haseq : a ∈ seq := by
      rw [hsplit]
      exact List.mem_append_left _ ha
    have hne : a ≠ b := by
      rintro rfl
      rw [hsplit] at hseq
      exact (List.nodup_append.mp hseq).2.2 a ha a List.mem_cons_self rfl
    rw [negSeqPos_eq hneg (hmem a haseq), negSeqPos_eq hneg (hmem b hb), precedes_iff hneg]
    refine ⟨fun h => h.2.le, fun h => ⟨hmem b hb, lt_of_le_of_ne h fun heq => ?_⟩⟩
    exact hne ((List.idxOf_inj (hmem a haseq)).mp heq)
  rw [hset]
  exact h.packed.starts pre b post hsplit

section Packed

variable {seq negSeq : List Nat} {n : Nat} {macros : Nat → T} {r : (Nat → T) × List ℚ}

theorem PackedAll.start_le (hseq : seq.Nodup) (hneg : negSeq.Nodup) (hmem : ∀ a, a ∈ seq → a ∈ negSeq)
    (h : PackedAll (negSeqPos negSeq) set start size n seq macros r) {a b : Nat}
    (hab : LeftOf seq negSeq a b) : start (r.1 a) + size (r.1 a) ≤ start (r.1 b) :=
  (h.isGreatest hseq hneg hmem hab.1.right).2 (Set.mem_insert_of_mem _ ⟨a, hab, rfl⟩)

theorem PackedAll.longest_chain (hseq : seq.Nodup) (hneg : negSeq.Nodup)
    (hmem : ∀ a, a ∈ seq → a ∈ negSeq)
    (h : PackedAll (negSeqPos negSeq) set start size n seq macros r) {b : Nat} (hb : b ∈ seq) :
    IsGreatest (chainTotals (LeftOf seq negSeq) (size ∘ r.1) b) (start (r.1 b)) := by
  refine isGreatest_chainTotals ?_ {a | a ∈ seq} ?_ (fun a => seq.idxOf a) ?_
    (fun b hb => h.isGreatest hseq hneg hmem hb) hb
  · exact fun a b c hab hbc => ⟨hab.1.trans hseq hbc.1, hab.2.trans hneg hbc.2⟩
  · exact fun a b hab => hab.1.left
  · exact fun a b hab => ((precedes_iff hseq).mp hab.1).2

/-- The last length is the extent of the macros. -/
theorem PackedAll.extent (hseq : seq.Nodup) (hneg : negSeq.Nodup) (hmem : ∀ a, a ∈ seq → a ∈ negSeq)
    (hlength : negSeq.length = n) (hn : seq ≠ [])
    (h : PackedAll (negSeqPos negSeq) set start size n seq macros r)
    (hsize : ∀ a ∈ seq, 0 < size (r.1 a)) :
    IsGreatest {t | ∃ a ∈ seq, start (r.1 a) + size (r.1 a) = t} (r.2.getD (n - 1) 0) := by
  obtain ⟨a₀, ha₀⟩ := List.exists_mem_of_ne_nil seq hn
  have hpos : ∀ a ∈ seq, negSeqPos negSeq a < n := by
    intro a ha
    rw [negSeqPos_eq hneg (hmem a ha), ← hlength]
    exact List.idxOf_lt_length_of_mem (hmem a ha)
  have hlt : n - 1 < r.2.length := by
    rw [h.length]
    exact Nat.sub_lt (Nat.zero_lt_of_lt (hpos a₀ ha₀)) Nat.one_pos
  have hset : {a | a ∈ {a | a ∈ seq} ∧ negSeqPos negSeq a ≤ n - 1} = {a | a ∈ seq} := by
    ext a
    exact ⟨fun ha => ha.1, fun ha => ⟨ha, Nat.le_sub_one_of_lt (hpos a ha)⟩⟩
  have hlast := h.packed.swept (n - 1) _ (List.getElem?_eq_getElem hlt)
  rw [hset, List.getElem_eq_getD 0] at hlast
  refine ⟨?_, fun t ⟨a, ha, hend⟩ => hlast.2 (Set.mem_insert_of_mem _ ⟨a, ha, hend⟩)⟩
  rcases hlast.1 with hzero | ⟨a, ha, hend⟩
  · have hle := hlast.2 (Set.mem_insert_of_mem _ ⟨a₀, ha₀, rfl⟩)
    have hstart : 0 ≤ start (r.1 a₀) := (h.isGreatest hseq hneg hmem ha₀).2 (Set.mem_insert _ _)
    rw [hzero] at hle
    exact absurd hle (not_le.mpr (add_pos_of_nonneg_of_pos hstart (hsize a₀ ha₀)))
  · exact ⟨a, ha, hend⟩

/-- What the setter leaves alone, the sweep does. -/
theorem PackedAll.same {β : Type} {f : T → β} (hf : ∀ m v, f (set m v) = f m) {pos : Nat → Nat}
    (h : PackedAll pos set start size n seq macros r) (id : Nat) : f (r.1 id) = f (macros id) := by
  by_cases hid : id ∈ seq
  · obtain ⟨v, hv⟩ := h.set id hid
    rw [hv, hf]
  · rw [h.others id hid]

end Packed

end Axis

/-! ### The floorplan -/

section Floorplan

variable {T : Type} [Macro T] [LawfulMacro T]

/-- The macro at the origin, if it can be moved. -/
def atOrigin (m : T) : T := setY (setX m 0) 0

theorem atOrigin_atOrigin (m : T) : atOrigin (atOrigin m) = atOrigin m := by
  simp [atOrigin]

theorem toOrigin_eq (seq : List Nat) (macros : Nat → T) (id : Nat) :
    toOrigin seq macros id = if id ∈ seq then atOrigin (macros id) else macros id := by
  induction seq using List.reverseRecOn with
  | nil => rfl
  | append_singleton seq b ih =>
      unfold toOrigin at ih ⊢
      rw [List.foldl_append]
      change Function.update _ b (atOrigin _) id = _
      by_cases hid : id = b
      · rw [hid, Function.update_self, if_pos (List.mem_append_right _ (List.mem_singleton_self b)), ← hid, ih]
        split
        · exact atOrigin_atOrigin _
        · rfl
      · have hmem : id ∈ seq ++ [b] ↔ id ∈ seq := by simp [hid]
        rw [Function.update_of_ne hid, ih, if_congr hmem rfl rfl]

theorem toOrigin_same {β : Type} {f : T → β} (hx : ∀ m v, f (setX m v) = f m)
    (hy : ∀ m v, f (setY m v) = f m) (seq : List Nat) (macros : Nat → T) (id : Nat) :
    f (toOrigin seq macros id) = f (macros id) := by
  rw [toOrigin_eq]
  split
  · rw [atOrigin, hy, hx]
  · rfl

/-- The interiors of the macros overlap. -/
def Overlap (m m' : T) : Prop :=
  getX m < getX m' + getWidth m' ∧ getX m' < getX m + getWidth m ∧
    getY m < getY m' + getHeight m' ∧ getY m' < getY m + getHeight m

/-- The two sweeps of `packFloorplan`. -/
theorem packFloorplan_packed (sa : SimulatedAnnealingCore T) {n : Nat}
    (hpos : sa.posSeq.Perm (List.range n)) (hneg : sa.negSeq.Perm (List.range n))
    (hmovable : ∀ id < n, movable (sa.macros id) = true) :
    ∃ x y : (Nat → T) × List ℚ,
      PackedAll (negSeqPos sa.negSeq) setX getX getWidth n sa.posSeq (toOrigin sa.posSeq sa.macros) x ∧
      PackedAll (negSeqPos sa.negSeq) setY getY getHeight n sa.posSeq.reverse x.1 y ∧
      sa.packFloorplan = { sa with macros := y.1, width := x.2.getD (n - 1) 0, height := y.2.getD (n - 1) 0 } := by
  have hlength : sa.posSeq.length = n := hpos.length_eq.trans List.length_range
  have hlt : ∀ b ∈ sa.posSeq, negSeqPos sa.negSeq b < n := by
    intro b hb
    have hmem := hneg.mem_iff.mpr (hpos.mem_iff.mp hb)
    rw [negSeqPos_eq (hneg.nodup_iff.mpr List.nodup_range) hmem]
    exact (List.idxOf_lt_length_of_mem hmem).trans_eq (hneg.length_eq.trans List.length_range)
  have hseq : sa.posSeq.Nodup := hpos.nodup_iff.mpr List.nodup_range
  have horigin : ∀ b ∈ sa.posSeq, movable (toOrigin sa.posSeq sa.macros b) = true := by
    intro b hb
    rw [toOrigin_eq, if_pos hb, atOrigin, LawfulMacro.movable_setY, LawfulMacro.movable_setX]
    exact hmovable b (List.mem_range.mp (hpos.mem_iff.mp hb))
  set x := packAxis (negSeqPos sa.negSeq) setX getX getWidth sa.posSeq
    (toOrigin sa.posSeq sa.macros) with hxdef
  set y := packAxis (negSeqPos sa.negSeq) setY getY getHeight sa.posSeq.reverse x.1 with hydef
  have hx : PackedAll (negSeqPos sa.negSeq) setX getX getWidth n sa.posSeq
      (toOrigin sa.posSeq sa.macros) x := by
    rw [hxdef, packAxis, hlength]
    exact packed_all n hseq hlt fun b hb v => by rw [LawfulMacro.getX_setX, if_pos (horigin b hb)]
  have hmoved : ∀ b ∈ sa.posSeq, movable (x.1 b) = true := by
    intro b hb
    obtain ⟨v, hv⟩ := hx.set b hb
    rw [hv, LawfulMacro.movable_setX]
    exact horigin b hb
  have hy : PackedAll (negSeqPos sa.negSeq) setY getY getHeight n sa.posSeq.reverse x.1 y := by
    rw [hydef, packAxis, List.length_reverse, hlength]
    refine packed_all n (List.nodup_reverse.mpr hseq) (fun b hb => hlt b (List.mem_reverse.mp hb))
      fun b hb v => ?_
    rw [LawfulMacro.getY_setY, if_pos (hmoved b (List.mem_reverse.mp hb))]
  refine ⟨x, y, hx, hy, ?_⟩
  rw [packFloorplan, hlength]

/-- For every sequence pair of macros of positive size, no two macros overlap; a macro is to the left
of those it precedes in both sequences and below those it follows in the positive one only; it is
placed at the longest chains of such macros; and the floorplan is the bounding box. -/
theorem packFloorplan_exact (sa : SimulatedAnnealingCore T) (n : Nat) (hn : 0 < n)
    (hpos : sa.posSeq.Perm (List.range n)) (hneg : sa.negSeq.Perm (List.range n))
    (hmacros : ∀ id < n, movable (sa.macros id) = true ∧ 0 < getWidth (sa.macros id) ∧
      0 < getHeight (sa.macros id)) :
    (∀ id, getWidth (sa.packFloorplan.macros id) = getWidth (sa.macros id) ∧
      getHeight (sa.packFloorplan.macros id) = getHeight (sa.macros id)) ∧
    (∀ a < n, ∀ b < n, a ≠ b → ¬Overlap (sa.packFloorplan.macros a) (sa.packFloorplan.macros b)) ∧
    (∀ a b, LeftOf sa.posSeq sa.negSeq a b → getX (sa.packFloorplan.macros a) +
      getWidth (sa.packFloorplan.macros a) ≤ getX (sa.packFloorplan.macros b)) ∧
    (∀ a b, Below sa.posSeq sa.negSeq a b → getY (sa.packFloorplan.macros a) +
      getHeight (sa.packFloorplan.macros a) ≤ getY (sa.packFloorplan.macros b)) ∧
    (∀ b < n, IsGreatest (chainTotals (LeftOf sa.posSeq sa.negSeq) (fun a => getWidth (sa.macros a)) b)
        (getX (sa.packFloorplan.macros b)) ∧
      IsGreatest (chainTotals (Below sa.posSeq sa.negSeq) (fun a => getHeight (sa.macros a)) b)
        (getY (sa.packFloorplan.macros b))) ∧
    IsGreatest {t | ∃ a < n, getX (sa.packFloorplan.macros a) + getWidth (sa.packFloorplan.macros a) = t}
      sa.packFloorplan.width ∧
    IsGreatest {t | ∃ a < n, getY (sa.packFloorplan.macros a) + getHeight (sa.packFloorplan.macros a) = t}
      sa.packFloorplan.height := by
  obtain ⟨x, y, hx, hy, hfp⟩ := packFloorplan_packed sa hpos hneg fun id hid => (hmacros id hid).1
  have hseq : sa.posSeq.Nodup := hpos.nodup_iff.mpr List.nodup_range
  have hrev : sa.posSeq.reverse.Nodup := List.nodup_reverse.mpr hseq
  have hnegNodup : sa.negSeq.Nodup := hneg.nodup_iff.mpr List.nodup_range
  have hmem : ∀ a, a ∈ sa.posSeq → a ∈ sa.negSeq := fun a ha => hneg.mem_iff.mpr (hpos.mem_iff.mp ha)
  have hmemRev : ∀ a, a ∈ sa.posSeq.reverse → a ∈ sa.negSeq := fun a ha => hmem a (List.mem_reverse.mp ha)
  have hrange : ∀ {a}, a < n ↔ a ∈ sa.posSeq := fun {a} => (hpos.mem_iff.trans List.mem_range).symm
  have hin : ∀ {a}, a < n ↔ a ∈ sa.posSeq.reverse := fun {a} => hrange.trans List.mem_reverse.symm
  have hnegLength : sa.negSeq.length = n := hneg.length_eq.trans List.length_range
  rw [hfp]
  dsimp only
  have hwidth : ∀ id, getWidth (x.1 id) = getWidth (sa.macros id) := fun id => by
    rw [hx.same LawfulMacro.getWidth_setX, toOrigin_same LawfulMacro.getWidth_setX LawfulMacro.getWidth_setY]
  have hheight : ∀ id, getHeight (y.1 id) = getHeight (sa.macros id) := fun id => by
    rw [hy.same LawfulMacro.getHeight_setY, hx.same LawfulMacro.getHeight_setX,
      toOrigin_same LawfulMacro.getHeight_setX LawfulMacro.getHeight_setY]
  have hwidth' : ∀ id, getWidth (y.1 id) = getWidth (x.1 id) := hy.same LawfulMacro.getWidth_setY
  have hgetX : ∀ id, getX (y.1 id) = getX (x.1 id) := hy.same LawfulMacro.getX_setY
  have hleft : ∀ a b, LeftOf sa.posSeq sa.negSeq a b →
      getX (y.1 a) + getWidth (y.1 a) ≤ getX (y.1 b) := fun a b hab => by
    rw [hgetX, hgetX, hwidth']
    exact hx.start_le hseq hnegNodup hmem hab
  have hbelow : ∀ a b, Below sa.posSeq sa.negSeq a b →
      getY (y.1 a) + getHeight (y.1 a) ≤ getY (y.1 b) := fun a b hab =>
    hy.start_le hrev hnegNodup hmemRev (below_iff.mp hab)
  have hne : sa.posSeq ≠ [] := List.ne_nil_of_mem (hrange.mp hn)
  refine ⟨fun id => ⟨(hwidth' id).trans (hwidth id), hheight id⟩, fun a ha b hb hab hover => ?_, hleft,
    hbelow, fun b hb => ⟨?_, ?_⟩, ?_, ?_⟩
  · -- one of the two precedes the other in the positive sequence, and likewise in the negative one
    obtain ⟨hx₁, hx₂, hy₁, hy₂⟩ := hover
    rcases precedes_or hseq (hrange.mp ha) (hrange.mp hb) hab with hp | hp <;>
      rcases precedes_or hnegNodup (hmem a (hrange.mp ha)) (hmem b (hrange.mp hb)) hab with hq | hq
    · exact absurd (hleft a b ⟨hp, hq⟩) (not_le.mpr hx₂)
    · exact absurd (hbelow b a ⟨hp, hq⟩) (not_le.mpr hy₁)
    · exact absurd (hbelow a b ⟨hp, hq⟩) (not_le.mpr hy₂)
    · exact absurd (hleft b a ⟨hp, hq⟩) (not_le.mpr hx₁)
  · have hchain := hx.longest_chain hseq hnegNodup hmem (hrange.mp hb)
    rw [hgetX, ← funext hwidth]
    exact hchain
  · have hchain := hy.longest_chain hrev hnegNodup hmemRev (hin.mp hb)
    have hrel : Below sa.posSeq sa.negSeq = LeftOf sa.posSeq.reverse sa.negSeq :=
      funext fun a => funext fun b => propext below_iff
    rw [hrel, ← funext hheight]
    exact hchain
  · have hextent := hx.extent hseq hnegNodup hmem hnegLength hne fun a ha => by
      rw [hwidth]
      exact (hmacros a (hrange.mpr ha)).2.1
    simp only [hgetX, hwidth', hrange]
    simpa only [exists_prop] using hextent
  · have hextent := hy.extent hrev hnegNodup hmemRev hnegLength (List.reverse_ne_nil_iff.mpr hne)
      fun a ha => by
        rw [hheight]
        exact (hmacros a (hin.mpr ha)).2.2
    simpa only [hin, exists_prop] using hextent

end Floorplan

/-- Three hard macros, the second to the right of the first and both above the third. -/
def threeMacros : SimulatedAnnealingCore HardMacro where
  posSeq := [0, 1, 2]
  negSeq := [2, 0, 1]
  size := 3
  macros id := ⟨0, 0, id + 1, 2, .R0, 0, 0, none⟩
  preMacros id := ⟨0, 0, id + 1, 2, .R0, 0, 0, none⟩

example : (List.range 3).map (fun id => getX (threeMacros.packFloorplan.macros id)) = [0, 1, 0] ∧
    (List.range 3).map (fun id => getY (threeMacros.packFloorplan.macros id)) = [2, 2, 0] := by
  decide +kernel

theorem packFloorplan_exact_three :
    (∀ a < 3, ∀ b < 3, a ≠ b →
      ¬Overlap (threeMacros.packFloorplan.macros a) (threeMacros.packFloorplan.macros b)) ∧
    IsGreatest {t | ∃ a < 3, getX (threeMacros.packFloorplan.macros a) +
      getWidth (threeMacros.packFloorplan.macros a) = t} threeMacros.packFloorplan.width :=
  have h := packFloorplan_exact threeMacros 3 (by decide) (List.Perm.refl _) (by decide)
    fun id hid => by
      have hwidth : (0 : ℚ) < id + 1 := add_pos_of_nonneg_of_pos (Nat.cast_nonneg id) one_pos
      refine ⟨?_, hwidth, two_pos⟩
      have harea : ¬((id : ℚ) + 1) * 2 ≤ 0 := not_le.mpr (mul_pos hwidth two_pos)
      exact Bool.not_eq_true' _ ▸ decide_eq_false harea
  ⟨h.2.1, h.2.2.2.2.2.1⟩

end OpenRoad.Mpl

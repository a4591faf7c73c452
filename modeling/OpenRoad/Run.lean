import Mathlib.Data.List.Forall2

/-!
Runs of a deterministic system over a list of operations. A step that fails has no successor; a run
succeeds when all its steps do. An invariant that one step keeps holds after every run, and a
property asked of every step along a run (`Along`) may be used in the step. Where the steps leave
events behind, a relation that undoing one event restores is restored by undoing them all, the last
one first.
-/

namespace OpenRoad.Run

variable {σ ο : Type*} (step : σ → ο → Option σ)

/-- Perform the operations in order; `none` when one of them fails. -/
def run (s : σ) : List ο → Option σ
  | [] => some s
  | o :: os => (step s o).bind fun s' => run s' os

@[simp] theorem run_nil (s : σ) : run step s [] = some s := rfl

@[simp] theorem run_cons (s : σ) (o : ο) (os : List ο) :
    run step s (o :: os) = (step s o).bind fun s' => run step s' os := rfl

theorem run_append (s : σ) (os os' : List ο) :
    run step s (os ++ os') = (run step s os).bind fun s' => run step s' os' := by
  induction os generalizing s with
  | nil => rfl
  | cons o os ih =>
      simp only [List.cons_append, run_cons]
      cases step s o with
      | none => rfl
      | some s' => exact ih s'

/-- `ok` holds of every operation of the run in the state it is performed in. -/
def Along (ok : σ → ο → Prop) (s : σ) : List ο → Prop
  | [] => True
  | o :: os => ok s o ∧ ∀ s', step s o = some s' → Along ok s' os

instance decidableAlong (ok : σ → ο → Prop) [∀ s o, Decidable (ok s o)] (s : σ) (os : List ο) :
    Decidable (Along step ok s os) :=
  match os with
  | [] => isTrue trivial
  | o :: os =>
      match hs : step s o with
      | none => decidable_of_iff (ok s o) ⟨fun h => ⟨h, fun s' h' => by simp [hs] at h'⟩, fun h => h.1⟩
      | some s' =>
          have := decidableAlong ok s' os
          decidable_of_iff (ok s o ∧ Along step ok s' os)
            ⟨fun h => ⟨h.1, fun t ht => by
              obtain rfl : s' = t := by simpa [hs] using ht
              exact h.2⟩, fun h => ⟨h.1, h.2 s' hs⟩⟩

variable {step}

/-- What every step keeps holds after every run. -/
theorem run_invariant {inv : σ → Prop} {ok : σ → ο → Prop}
    (hstep : ∀ s o s', inv s → ok s o → step s o = some s' → inv s')
    {s s' : σ} {os : List ο} (hs : inv s) (hok : Along step ok s os)
    (hrun : run step s os = some s') : inv s' := by
  induction os generalizing s with
  | nil =>
      obtain rfl : s = s' := by simpa using hrun
      exact hs
  | cons o os ih =>
      obtain ⟨t, ht, hrest⟩ := Option.bind_eq_some_iff.mp hrun
      exact ih (hstep s o t hs hok.1 ht) (hok.2 t ht) hrest

/-- The same where nothing is asked of the operations. -/
theorem run_invariant_of_step {inv : σ → Prop}
    (hstep : ∀ s o s', inv s → step s o = some s' → inv s')
    {s s' : σ} {os : List ο} (hs : inv s) (hrun : run step s os = some s') : inv s' := by
  induction os generalizing s with
  | nil =>
      obtain rfl : s = s' := by simpa using hrun
      exact hs
  | cons o os ih =>
      obtain ⟨t, ht, hrest⟩ := Option.bind_eq_some_iff.mp hrun
      exact ih (hstep s o t hs ht) hrest

/-- Where a step keeps the invariant exactly when it is in order, all states of a run have the
invariant exactly when all its steps are in order. -/
theorem forall_prefix_iff_along {inv : σ → Prop} {ok : σ → ο → Prop}
    (hstep : ∀ s o s', inv s → step s o = some s' → (inv s' ↔ ok s o))
    {s : σ} {os : List ο} (hs : inv s) (hrun : (run step s os).isSome) :
    (∀ os', os' <+: os → ∀ s', run step s os' = some s' → inv s') ↔ Along step ok s os := by
  induction os generalizing s with
  | nil =>
      refine ⟨fun _ => trivial, fun _ os' hprefix s' hs' => ?_⟩
      rw [List.prefix_nil.mp hprefix] at hs'
      exact Option.some.inj hs' ▸ hs
  | cons o os ih =>
      obtain ⟨s', hs'⟩ := Option.isSome_iff_exists.mp hrun
      obtain ⟨t, ht, hrest⟩ := Option.bind_eq_some_iff.mp hs'
      have hrest' : (run step t os).isSome := Option.isSome_iff_exists.mpr ⟨s', hrest⟩
      have hcons : ∀ os', run step s (o :: os') = run step t os' := by
        intro os'
        rw [run_cons, ht]
        rfl
      constructor
      · intro hall
        have ht' : inv t := hall [o] (List.prefix_append [o] os) t (hcons [])
        refine ⟨(hstep s o t hs ht).mp ht', fun t' heq => ?_⟩
        obtain rfl := Option.some.inj (ht.symm.trans heq)
        apply (ih ht' hrest').mp
        intro os' hprefix s'' hs''
        exact hall (o :: os') ((List.prefix_cons_inj o).mpr hprefix) s'' ((hcons os').trans hs'')
      · rintro ⟨hok, halong⟩ os' hprefix s'' hs''
        have ht' : inv t := (hstep s o t hs ht).mpr hok
        cases os' with
        | nil => exact Option.some.inj hs'' ▸ hs
        | cons o' os' =>
            obtain ⟨rfl, hprefix'⟩ := List.cons_prefix_cons.mp hprefix
            exact (ih ht' hrest').mpr (halong t ht) os' hprefix' s'' ((hcons os').symm.trans hs'')

/-- An invariant that speaks of the operations still to come. -/
theorem run_rest {P : List ο → σ → Prop}
    (hstep : ∀ o os s s', P (o :: os) s → step s o = some s' → P os s')
    {s s' : σ} {os : List ο} (hs : P os s) (hrun : run step s os = some s') : P [] s' := by
  induction os generalizing s with
  | nil =>
      obtain rfl : s = s' := by simpa using hrun
      exact hs
  | cons o os ih =>
      obtain ⟨t, ht, hrest⟩ := Option.bind_eq_some_iff.mp hrun
      exact ih (hstep o os s t hs ht) hrest

/-- A run succeeds when every step does on what the steps before it leave. -/
theorem run_total {P : List ο → σ → Prop}
    (hstep : ∀ o os s, P (o :: os) s → ∃ s', step s o = some s' ∧ P os s')
    (s : σ) (os : List ο) (hs : P os s) : ∃ s', run step s os = some s' ∧ P [] s' := by
  induction os generalizing s with
  | nil => exact ⟨s, rfl, hs⟩
  | cons o os ih =>
      obtain ⟨t, ht, hrest⟩ := hstep o os s hs
      obtain ⟨s', hs', hend⟩ := ih t hrest
      refine ⟨s', ?_, hend⟩
      rw [run_cons, ht]
      exact hs'

/-- The same for a loop over numbers in a row, with an invariant that counts along. -/
theorem run_range'_total {P : Nat → σ → Prop} {f : σ → Nat → Option σ} (first len : Nat)
    (hstep : ∀ k s, first ≤ k → k < first + len → P k s → ∃ s', f s k = some s' ∧ P (k + 1) s')
    (s : σ) (hs : P first s) :
    ∃ s', run f s (List.range' first len) = some s' ∧ P (first + len) s' := by
  induction len generalizing first s with
  | zero => exact ⟨s, rfl, hs⟩
  | succ len ih =>
      obtain ⟨t, ht, hnext⟩ := hstep first s (Nat.le_refl first) (by omega) hs
      obtain ⟨s', hs', hend⟩ := ih (first + 1)
        (fun k s hk hlt => hstep k s (by omega) (by omega)) t hnext
      refine ⟨s', ?_, ?_⟩
      · rw [List.range'_succ, run_cons, ht]
        exact hs'
      · rw [Nat.add_comm len 1, ← Nat.add_assoc]
        exact hend

/-- Every step of a run that succeeds does. -/
theorem run_step_of_mem {inv : σ → Prop} (hstep : ∀ s o s', inv s → step s o = some s' → inv s')
    {s s' : σ} {os : List ο} (hs : inv s) (hrun : run step s os = some s') {o : ο} (ho : o ∈ os) :
    ∃ t t', inv t ∧ step t o = some t' := by
  induction os generalizing s with
  | nil => exact absurd ho List.not_mem_nil
  | cons o' os ih =>
      obtain ⟨t, ht, hrest⟩ := Option.bind_eq_some_iff.mp hrun
      rcases List.mem_cons.mp ho with rfl | hmem
      · exact ⟨s, t, hs, ht⟩
      · exact ih (hstep s o' t hs ht) hrest hmem

theorem along_true (s : σ) (os : List ο) : Along step (fun _ _ => True) s os := by
  induction os generalizing s with
  | nil => trivial
  | cons o os ih => exact ⟨trivial, fun s' _ => ih s'⟩

/-- What is asked of the operations may be weakened for those that are performed. -/
theorem Along.imp {ok ok' : σ → ο → Prop} {s : σ} {os : List ο}
    (himp : ∀ o ∈ os, ∀ t, ok t o → ok' t o) (h : Along step ok s os) : Along step ok' s os := by
  induction os generalizing s with
  | nil => trivial
  | cons o os ih =>
      exact ⟨himp o List.mem_cons_self s h.1, fun s' hs' =>
        ih (fun o' ho' => himp o' (List.mem_cons_of_mem _ ho')) (h.2 s' hs')⟩

/-- A reflexive and transitive relation that every step respects holds between the ends of a run. -/
theorem run_related {inv : σ → Prop} {R : σ → σ → Prop} {ok : σ → ο → Prop} (hrefl : ∀ s, R s s)
    (htrans : ∀ s t u, R s t → R t u → R s u)
    (hstep : ∀ s o s', inv s → ok s o → step s o = some s' → R s s' ∧ inv s')
    {s s' : σ} {os : List ο} (hs : inv s) (hok : Along step ok s os)
    (hrun : run step s os = some s') : R s s' ∧ inv s' := by
  induction os generalizing s with
  | nil =>
      obtain rfl : s = s' := by simpa using hrun
      exact ⟨hrefl s, hs⟩
  | cons o os ih =>
      obtain ⟨t, ht, hrest⟩ := Option.bind_eq_some_iff.mp hrun
      obtain ⟨hR, hinv⟩ := hstep s o t hs hok.1 ht
      obtain ⟨hR', hinv'⟩ := ih hinv (hok.2 t ht) hrest
      exact ⟨htrans s t s' hR hR', hinv'⟩

/-! ### Events and their undoing -/

variable {ε : Type*}

/-- The events of a run, in order, and the state it ends in. -/
def trace (perform : σ → ο → Option (ε × σ)) (s : σ) : List ο → Option (List ε × σ)
  | [] => some ([], s)
  | o :: os => (perform s o).bind fun r => (trace perform r.2 os).map fun q => (r.1 :: q.1, q.2)

@[simp] theorem trace_nil (perform : σ → ο → Option (ε × σ)) (s : σ) :
    trace perform s [] = some ([], s) := rfl

theorem trace_append (perform : σ → ο → Option (ε × σ)) {s t u : σ} {os os' : List ο}
    {es es' : List ε} (h : trace perform s os = some (es, t))
    (h' : trace perform t os' = some (es', u)) :
    trace perform s (os ++ os') = some (es ++ es', u) := by
  induction os generalizing s es with
  | nil =>
      obtain ⟨rfl, rfl⟩ : [] = es ∧ s = t := by simpa using h
      exact h'
  | cons o os ih =>
      obtain ⟨⟨e, s'⟩, hs', hrest⟩ := Option.bind_eq_some_iff.mp h
      obtain ⟨⟨fs, t'⟩, ht, heq⟩ := Option.map_eq_some_iff.mp hrest
      obtain ⟨rfl, rfl⟩ : e :: fs = es ∧ t' = t := by simpa using heq
      have := ih ht
      simp [trace, hs', this]

theorem trace_invariant {perform : σ → ο → Option (ε × σ)} {inv : σ → Prop}
    (hinv : ∀ s o e s', inv s → perform s o = some (e, s') → inv s')
    {s t : σ} {os : List ο} {es : List ε} (hs : inv s)
    (htrace : trace perform s os = some (es, t)) : inv t := by
  induction os generalizing s es with
  | nil =>
      obtain ⟨-, rfl⟩ : [] = es ∧ s = t := by simpa using htrace
      exact hs
  | cons o os ih =>
      obtain ⟨⟨e, s'⟩, hs', hrest⟩ := Option.bind_eq_some_iff.mp htrace
      obtain ⟨⟨fs, t'⟩, ht, heq⟩ := Option.map_eq_some_iff.mp hrest
      obtain ⟨-, rfl⟩ : e :: fs = es ∧ t' = t := by simpa using heq
      exact ih (hinv s o e s' hs hs') ht

/-- Related states perform the same operations with the same events. -/
theorem trace_congr {perform : σ → ο → Option (ε × σ)} {R : σ → σ → Prop}
    (hperform : ∀ s t o, R s t →
      perform s o = none ∧ perform t o = none ∨
        ∃ e s' t', perform s o = some (e, s') ∧ perform t o = some (e, t') ∧ R s' t')
    {s t : σ} (hR : R s t) (os : List ο) :
    (trace perform t os).map Prod.fst = (trace perform s os).map Prod.fst := by
  induction os generalizing s t with
  | nil => rfl
  | cons o os ih =>
      unfold trace
      rcases hperform s t o hR with ⟨hs, ht⟩ | ⟨e, s', t', hs, ht, hR'⟩
      · rw [hs, ht]
      · have hrest := congrArg (Option.map (e :: ·)) (ih hR')
        rw [hs, ht, Option.bind_some, Option.bind_some, Option.map_map, Option.map_map]
        rw [Option.map_map, Option.map_map] at hrest
        exact hrest

/-- If undoing one event takes a state related to the one after it to a state related to the one
before it, then undoing the events of a whole run, the last first, leads back to a state related to
the first. `undo e` is the operation that undoes `e`, and `undone e` the event this leaves. -/
theorem undo_trace {perform : σ → ο → Option (ε × σ)} {undo : ε → ο} {undone : ε → ε}
    {inv : σ → Prop} {R : σ → σ → Prop}
    (hinv : ∀ s o e s', inv s → perform s o = some (e, s') → inv s')
    (hundo : ∀ s o e s' u', inv s → perform s o = some (e, s') → R s' u' →
      ∃ u, perform u' (undo e) = some (undone e, u) ∧ R s u)
    {s t v : σ} {os : List ο} {es : List ε} (hs : inv s)
    (htrace : trace perform s os = some (es, t)) (hR : R t v) :
    ∃ u, trace perform v (es.reverse.map undo) = some (es.reverse.map undone, u) ∧ R s u := by
  induction os generalizing s es with
  | nil =>
      obtain ⟨rfl, rfl⟩ : [] = es ∧ s = t := by simpa using htrace
      exact ⟨v, rfl, hR⟩
  | cons o os ih =>
      obtain ⟨⟨e, s'⟩, hs', hrest⟩ := Option.bind_eq_some_iff.mp htrace
      obtain ⟨⟨fs, t'⟩, ht, heq⟩ := Option.map_eq_some_iff.mp hrest
      obtain ⟨rfl, rfl⟩ : e :: fs = es ∧ t' = t := by simpa using heq
      obtain ⟨u', hu', hR'⟩ := ih (hinv s o e s' hs hs') ht
      obtain ⟨u, hu, hRu⟩ := hundo s o e s' u' hs hs' hR'
      refine ⟨u, ?_, hRu⟩
      rw [List.reverse_cons, List.map_append, List.map_append]
      exact trace_append perform hu' (by simp [trace, hu])

end OpenRoad.Run

/-!
Loops that take the elements of a list one after the other until their state says to stop.
-/

namespace OpenRoad.StopFold

variable {σ τ α : Type*} {stop : σ → Bool} {step : σ → α → σ}

/-- Take elements until `stop` holds: the state then and the elements that are left; `none` where they
run out before. -/
def runUntil (stop : σ → Bool) (step : σ → α → σ) : σ → List α → Option (σ × List α)
  | s, [] => if stop s then some (s, []) else none
  | s, a :: l => if stop s then some (s, a :: l) else runUntil stop step (step s a) l

theorem runUntil_of_stop {s : σ} (h : stop s = true) (l : List α) :
    runUntil stop step s l = some (s, l) := by
  cases l with
  | nil => exact if_pos h
  | cons a l => exact if_pos h

theorem runUntil_nil {s : σ} (h : stop s = false) : runUntil stop step s [] = none := by
  unfold runUntil
  rw [h]
  rfl

theorem runUntil_cons {s : σ} (h : stop s = false) (a : α) (l : List α) :
    runUntil stop step s (a :: l) = runUntil stop step (step s a) l := by
  rw [runUntil, h]
  rfl

/-- A part of the state that goes its own way may be run alone. -/
theorem runUntil_map {f : σ → τ} {stop' : τ → Bool} {step' : τ → α → τ}
    (hstop : ∀ s, stop' (f s) = stop s) (hstep : ∀ s a, step' (f s) a = f (step s a)) (s : σ)
    (l : List α) : runUntil stop' step' (f s) l =
      (runUntil stop step s l).map fun r => (f r.1, r.2) := by
  induction l generalizing s with
  | nil =>
      unfold runUntil
      rw [hstop]
      split_ifs <;> rfl
  | cons a l ih =>
      rw [runUntil, runUntil, hstop, hstep, ih]
      split_ifs <;> rfl

/-- What was taken and what is left. -/
theorem runUntil_eq_some {s t : σ} {l rest : List α} (h : runUntil stop step s l = some (t, rest)) :
    stop t = true ∧ ∃ taken, l = taken ++ rest ∧ t = taken.foldl step s := by
  induction l generalizing s with
  | nil =>
      unfold runUntil at h
      split_ifs at h with hstop
      obtain ⟨rfl, rfl⟩ := Prod.mk.inj (Option.some.inj h)
      exact ⟨hstop, [], rfl, rfl⟩
  | cons a l ih =>
      unfold runUntil at h
      split_ifs at h with hstop
      · obtain ⟨rfl, rfl⟩ := Prod.mk.inj (Option.some.inj h)
        exact ⟨hstop, [], rfl, rfl⟩
      · obtain ⟨ht, taken, rfl, rfl⟩ := ih h
        exact ⟨ht, a :: taken, rfl, rfl⟩

end OpenRoad.StopFold

namespace OpenRoad.OptionMap

variable {α β : Type*} {f : α → Option β}

theorem mapM_exists (f : α → Option β) (list : List α) (hlist : ∀ a ∈ list, ∃ b, f a = some b) :
    ∃ found, list.mapM f = some found ∧ List.Forall₂ (fun a b => f a = some b) list found := by
  induction list with
  | nil => exact ⟨[], rfl, .nil⟩
  | cons a list ih =>
      obtain ⟨⟨b, hb⟩, hrest⟩ := List.forall_mem_cons.mp hlist
      obtain ⟨found, hfound, hall⟩ := ih hrest
      refine ⟨b :: found, ?_, .cons hb hall⟩
      rw [List.mapM_cons, hb, hfound]
      rfl

theorem forall₂_of_mapM {list : List α} {found : List β} (h : list.mapM f = some found) :
    List.Forall₂ (fun a b => f a = some b) list found := by
  induction list generalizing found with
  | nil =>
      cases h
      exact .nil
  | cons a list ih =>
      rw [List.mapM_cons] at h
      obtain ⟨b, hb, hrest⟩ := Option.bind_eq_some_iff.mp h
      obtain ⟨found, hfound, heq⟩ := Option.bind_eq_some_iff.mp hrest
      cases heq
      exact .cons hb (ih hfound)

theorem mapM_getElem? {list : List α} {found : List β} (h : list.mapM f = some found) {i : Nat}
    {a : α} (ha : list[i]? = some a) : found[i]? = f a := by
  have hall := forall₂_of_mapM h
  obtain ⟨hi, rfl⟩ := List.getElem?_eq_some_iff.mp ha
  have hj : i < found.length := hall.length_eq ▸ hi
  have hget : f list[i] = some found[i] := List.Forall₂.get hall hi hj
  rw [hget, List.getElem?_eq_getElem hj]

end OpenRoad.OptionMap

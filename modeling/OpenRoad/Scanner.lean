import Mathlib.Data.List.Basic

/-!
Scanners. A pass of a scanner goes on to the next pass or returns to the caller, who reads an
element off the state. Each pass consumes some of what is left to scan. `Scans S s es` says that
the scan from `s` reads the elements `es` and then ends.
-/

namespace OpenRoad

/-- The outcome of one pass. -/
inductive Pass (σ : Type*) where
  | goto (s : σ)
  | ret (s : σ)

/-- A scanner: what is left to scan, one pass, and what is read after a pass that returns. -/
structure Scanner (σ ε : Type*) where
  left : σ → Nat
  pass : σ → Option (Pass σ)
  read : σ → ε

namespace Scanner

variable {σ ε : Type*} (S : Scanner σ ε)

/-- The passes up to the first that returns, or up to the end; `none` when a pass fails. -/
def next : Nat → σ → Option (Option σ)
  | 0, _ => none
  | fuel + 1, s =>
      if S.left s = 0 then some none
      else
        match S.pass s with
        | none => none
        | some (.goto s') => next fuel s'
        | some (.ret s') => some (some s')

/-- The elements read up to the end. -/
def collect : Nat → σ → Option (List ε)
  | 0, _ => none
  | fuel + 1, s =>
      match S.next (S.left s + 1) s with
      | none => none
      | some none => some []
      | some (some s') => (collect fuel s').map (S.read s' :: ·)

/-- The scan from `s` reads `es` and ends. -/
inductive Scans : σ → List ε → Prop where
  | nil {s : σ} (hleft : S.left s = 0) : Scans s []
  | goto {s s' : σ} {es : List ε} (hpass : S.pass s = some (.goto s')) (hleft : S.left s' < S.left s)
      (hrest : Scans s' es) : Scans s es
  | ret {s s' : σ} {es : List ε} (hpass : S.pass s = some (.ret s')) (hleft : S.left s' < S.left s)
      (hrest : Scans s' es) : Scans s (S.read s' :: es)

/-- The passes from `s` return at the states `ts`, and lead on to `s'`. -/
inductive Runs : σ → List σ → σ → Prop where
  | refl (s : σ) : Runs s [] s
  | goto {s t s' : σ} {ts : List σ} (hpass : S.pass s = some (.goto t)) (hleft : S.left t < S.left s)
      (hrest : Runs t ts s') : Runs s ts s'
  | ret {s t s' : σ} {ts : List σ} (hpass : S.pass s = some (.ret t)) (hleft : S.left t < S.left s)
      (hrest : Runs t ts s') : Runs s (t :: ts) s'

/-- From `s` the elements `es` are read, and the scan goes on from `s'`. -/
def Reaches (s : σ) (es : List ε) (s' : σ) : Prop := ∃ ts, S.Runs s ts s' ∧ ts.map S.read = es

/-- The scanner that reads something else off its states. -/
def reading {δ : Type*} (r : σ → δ) : Scanner σ δ := ⟨S.left, S.pass, r⟩

variable {S}

theorem Runs.reading {δ : Type*} {s s' : σ} {ts : List σ} (h : S.Runs s ts s') (r : σ → δ) :
    (S.reading r).Runs s ts s' := by
  induction h with
  | refl s => exact .refl s
  | goto hpass hleft _ ih => exact .goto hpass hleft ih
  | ret hpass hleft _ ih => exact .ret hpass hleft ih

theorem Runs.trans {s t u : σ} {ts us : List σ} (h : S.Runs s ts t) (h' : S.Runs t us u) :
    S.Runs s (ts ++ us) u := by
  induction h with
  | refl s => exact h'
  | goto hpass hleft _ ih => exact .goto hpass hleft (ih h')
  | ret hpass hleft _ ih => exact .ret hpass hleft (ih h')

/-- A scan reads what is returned on the way, and then what is read from there. -/
theorem Runs.scans {s s' : σ} {ts : List σ} (h : S.Runs s ts s') {es : List ε}
    (hscan : S.Scans s' es) : S.Scans s (ts.map S.read ++ es) := by
  induction h with
  | refl s => exact hscan
  | goto hpass hleft _ ih => exact .goto hpass hleft (ih hscan)
  | ret hpass hleft _ ih => exact .ret hpass hleft (ih hscan)

/-- A scan from where the passes lead is what is left of the scan from where they start. -/
theorem Runs.scans_rest {s s' : σ} {ts : List σ} (h : S.Runs s ts s') {es : List ε}
    (hscan : S.Scans s es) : ∃ rest, S.Scans s' rest ∧ es = ts.map S.read ++ rest := by
  induction h generalizing es with
  | refl s => exact ⟨es, hscan, rfl⟩
  | goto hpass hleft _ ih =>
      cases hscan with
      | nil h0 => exact absurd hleft (by rw [h0]; exact Nat.not_lt_zero _)
      | goto hpass' _ hrest =>
          cases hpass.symm.trans hpass'
          exact ih hrest
      | ret hpass' _ _ => cases hpass.symm.trans hpass'
  | ret hpass hleft _ ih =>
      cases hscan with
      | nil h0 => exact absurd hleft (by rw [h0]; exact Nat.not_lt_zero _)
      | goto hpass' _ _ => cases hpass.symm.trans hpass'
      | ret hpass' _ hrest =>
          cases hpass.symm.trans hpass'
          obtain ⟨rest, hscan', rfl⟩ := ih hrest
          exact ⟨rest, hscan', rfl⟩

theorem Reaches.refl (s : σ) : S.Reaches s [] s := ⟨[], .refl s, rfl⟩

theorem Reaches.trans {s t u : σ} {es fs : List ε} (h : S.Reaches s es t) (h' : S.Reaches t fs u) :
    S.Reaches s (es ++ fs) u := by
  obtain ⟨ts, hruns, rfl⟩ := h
  obtain ⟨us, hruns', rfl⟩ := h'
  exact ⟨ts ++ us, hruns.trans hruns', List.map_append⟩

theorem Reaches.goto {s s' : σ} (hpass : S.pass s = some (.goto s')) (hleft : S.left s' < S.left s) :
    S.Reaches s [] s' := ⟨[], .goto hpass hleft (.refl s'), rfl⟩

theorem Reaches.ret {s s' : σ} (hpass : S.pass s = some (.ret s')) (hleft : S.left s' < S.left s) :
    S.Reaches s [S.read s'] s' := ⟨[s'], .ret hpass hleft (.refl s'), rfl⟩

theorem Reaches.scans {s s' : σ} {es fs : List ε} (h : S.Reaches s es s') (hscan : S.Scans s' fs) :
    S.Scans s (es ++ fs) := by
  obtain ⟨ts, hruns, rfl⟩ := h
  exact hruns.scans hscan

theorem Reaches.scans_rest {s s' : σ} {es fs : List ε} (h : S.Reaches s es s')
    (hscan : S.Scans s fs) : ∃ rest, S.Scans s' rest ∧ fs = es ++ rest := by
  obtain ⟨ts, hruns, rfl⟩ := h
  exact hruns.scans_rest hscan

/-- A scan that reads nothing ends in the first `next`; another one returns its first element. -/
theorem Scans.next {s : σ} {es : List ε} (h : S.Scans s es) :
    (es = [] ∧ ∀ fuel, S.left s < fuel → S.next fuel s = some none) ∨
    ∃ s' rest, es = S.read s' :: rest ∧ S.left s' < S.left s ∧ S.Scans s' rest ∧
      ∀ fuel, S.left s < fuel → S.next fuel s = some (some s') := by
  induction h with
  | nil hleft =>
      refine Or.inl ⟨rfl, fun fuel hfuel => ?_⟩
      obtain ⟨fuel, rfl⟩ := Nat.exists_eq_succ_of_ne_zero (Nat.ne_of_gt (Nat.zero_lt_of_lt hfuel))
      rw [Scanner.next, if_pos hleft]
  | @goto s s' es hpass hleft hrest ih =>
      have hstep : ∀ fuel, S.next (fuel + 1) s = S.next fuel s' := by
        intro fuel
        rw [Scanner.next, if_neg (by omega), hpass]
      rcases ih with ⟨rfl, hend⟩ | ⟨t, rest, rfl, hlt, hscan, hret⟩
      · refine Or.inl ⟨rfl, fun fuel hfuel => ?_⟩
        obtain ⟨fuel, rfl⟩ := Nat.exists_eq_succ_of_ne_zero (Nat.ne_of_gt (Nat.zero_lt_of_lt hfuel))
        rw [hstep]
        exact hend fuel (by omega)
      · refine Or.inr ⟨t, rest, rfl, Nat.lt_trans hlt hleft, hscan, fun fuel hfuel => ?_⟩
        obtain ⟨fuel, rfl⟩ := Nat.exists_eq_succ_of_ne_zero (Nat.ne_of_gt (Nat.zero_lt_of_lt hfuel))
        rw [hstep]
        exact hret fuel (by omega)
  | @ret s s' es hpass hleft hrest ih =>
      refine Or.inr ⟨s', es, rfl, hleft, hrest, fun fuel hfuel => ?_⟩
      obtain ⟨fuel, rfl⟩ := Nat.exists_eq_succ_of_ne_zero (Nat.ne_of_gt (Nat.zero_lt_of_lt hfuel))
      rw [Scanner.next, if_neg (by omega), hpass]

/-- With fuel for all that is left, the elements of a scan are collected. -/
theorem Scans.collect {s : σ} {es : List ε} (h : S.Scans s es) {fuel : Nat}
    (hfuel : S.left s < fuel) : S.collect fuel s = some es := by
  induction fuel generalizing s es with
  | zero => omega
  | succ fuel ih =>
      rcases h.next with ⟨rfl, hend⟩ | ⟨s', rest, rfl, hlt, hscan, hret⟩
      · rw [Scanner.collect, hend _ (Nat.lt_succ_self _)]
      · rw [Scanner.collect, hret _ (Nat.lt_succ_self _)]
        change (Scanner.collect S fuel s').map _ = _
        rw [ih hscan (by omega)]
        rfl

/-- Where every pass consumes something, what `next` returns is where the passes lead. -/
theorem runs_of_next (hprogress : ∀ s p, S.left s ≠ 0 → S.pass s = some p →
      ∀ s', p = .goto s' ∨ p = .ret s' → S.left s' < S.left s) {fuel : Nat} {s : σ}
    {r : Option σ} (h : S.next fuel s = some r) :
    (r = none ∧ S.Scans s []) ∨ ∃ s', r = some s' ∧ S.Runs s [s'] s' := by
  induction fuel generalizing s with
  | zero => cases h
  | succ fuel ih =>
      rw [Scanner.next] at h
      by_cases h0 : S.left s = 0
      · rw [if_pos h0] at h
        cases h
        exact Or.inl ⟨rfl, .nil h0⟩
      · rw [if_neg h0] at h
        cases hpass : S.pass s with
        | none =>
            rw [hpass] at h
            cases h
        | some p =>
            rw [hpass] at h
            cases p with
            | goto t =>
                have hleft := hprogress s _ h0 hpass t (Or.inl rfl)
                obtain ⟨rfl, hscan⟩ | ⟨s', rfl, hruns⟩ := ih h
                · exact Or.inl ⟨rfl, .goto hpass hleft hscan⟩
                · exact Or.inr ⟨s', rfl, .goto hpass hleft hruns⟩
            | ret t =>
                have hleft := hprogress s _ h0 hpass t (Or.inr rfl)
                cases h
                exact Or.inr ⟨t, rfl, .ret hpass hleft (.refl t)⟩

/-- Where every pass consumes something, what is collected are the elements of the scan. -/
theorem scans_of_collect (hprogress : ∀ s p, S.left s ≠ 0 → S.pass s = some p →
      ∀ s', p = .goto s' ∨ p = .ret s' → S.left s' < S.left s) {fuel : Nat} {s : σ} {es : List ε}
    (h : S.collect fuel s = some es) : S.Scans s es := by
  induction fuel generalizing s es with
  | zero => cases h
  | succ fuel ih =>
      rw [Scanner.collect] at h
      cases hnext : S.next (S.left s + 1) s with
      | none =>
          rw [hnext] at h
          cases h
      | some r =>
          rw [hnext] at h
          obtain ⟨rfl, hscan⟩ | ⟨s', rfl, hruns⟩ := runs_of_next hprogress hnext
          · cases h
            exact hscan
          · obtain ⟨rest, hrest, rfl⟩ := Option.map_eq_some_iff.mp h
            exact hruns.scans (ih hrest)

end Scanner

end OpenRoad

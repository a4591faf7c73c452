import OpenRoad.DbJournalFraming
import Mathlib.Data.List.Induction

/-!
Both scans of a journal find its actions exactly when the journal has fewer than `2 ^ 31` bytes.
-/

namespace OpenRoad.Db
open ByteReader DbJournalLog

/-! ### Popping one value -/

/-- Nothing is counted past the greatest `int` in a log that has not that many bytes. -/
theorem counted_of_reads {α : Type} {m : Reader JournalError α} {bs : List UInt8} {a : α} {s : Source}
    (hm : Reads m bs a) (hs : s.Next bs) (hfit : s.data.length < 2 ^ 31) :
    counted m s = .ok (a, s.skip bs.length) := by
  have hlt : ¬(s.idx < 2 ^ 31 ∧ 2 ^ 31 ≤ (s.skip bs.length).idx) := by
    rintro ⟨hidx, hle⟩
    obtain ⟨rest, hrest⟩ := hs
    have hlen := congrArg List.length hrest
    rw [List.length_drop, List.length_append] at hlen
    change 2 ^ 31 ≤ s.idx + bs.length at hle
    omega
  unfold counted
  rw [hm s hs]
  exact if_neg hlt

theorem counted_ok {α : Type} {m : Reader JournalError α} {s s' : Source} {a : α}
    (h : counted m s = .ok (a, s')) : m s = .ok (a, s') ∧ (s.idx < 2 ^ 31 → s'.idx < 2 ^ 31) := by
  unfold counted at h
  cases hm : m s with
  | error e => rw [hm] at h; cases h
  | ok r =>
      obtain ⟨b, t⟩ := r
      rw [hm] at h
      dsimp only at h
      split_ifs at h with hover
      obtain ⟨rfl, rfl⟩ := Prod.mk.inj (Except.ok.inj h)
      exact ⟨rfl, fun hidx => not_le.mp fun hle => hover ⟨hidx, hle⟩⟩

/-- What is read where the bytes come next. -/
theorem counted_reads {α : Type} {m : Reader JournalError α} {bs : List UInt8} {a b : α} {s s' : Source}
    (hm : Reads m bs a) (hs : s.Next bs) (hidx : s.idx < 2 ^ 31) (h : counted m s = .ok (b, s')) :
    b = a ∧ s' = s.skip bs.length ∧ s'.idx < 2 ^ 31 := by
  obtain ⟨hok, hlt⟩ := counted_ok h
  rw [hm s hs] at hok
  obtain ⟨rfl, rfl⟩ := Prod.mk.inj (Except.ok.inj hok)
  exact ⟨rfl, rfl, hlt hidx⟩

namespace LogValue

variable {debug : Bool}

/-- The length of a string fits an `int`. -/
def Short : LogValue → Prop
  | .param (.string (some s)) => s.bytes.length < 2 ^ 31
  | _ => True

theorem ofBytes_bytes (s : CString) : CString.ofBytes s.bytes = s := by
  obtain ⟨bytes, hbytes⟩ := s
  have hall : bytes.takeWhile (· ≠ 0) = bytes := List.takeWhile_eq_self_iff.mpr fun b hb =>
    decide_eq_true fun hzero => hbytes (hzero ▸ hb)
  unfold CString.ofBytes
  congr 1

/-- What is pushed is popped, if it is not too long a string. -/
theorem reads_pop {v : LogValue} (h : v.Short) : Reads (pop debug v.type) (v.push debug) v := by
  cases v with
  | char c => exact (reads_checkType debug .LOG_CHAR).bind (reads_next _ c).bind_pure
  | float w => exact (reads_checkType debug .LOG_FLOAT).bind (reads_word _ w).bind_pure
  | double w₀ w₁ =>
      exact (reads_checkType debug .LOG_DOUBLE).bind ((reads_word _ w₀).bind (reads_word _ w₁).bind_pure)
  | param p =>
      cases p with
      | bool b => exact (reads_popBool debug b).bind_pure
      | uchar c => exact (reads_popUchar debug c).bind_pure
      | int i => exact (reads_popInt debug i).bind_pure
      | uint u => exact (reads_popUint debug u).bind_pure
      | string s =>
          cases s with
          | none =>
              refine (reads_checkType debug .LOG_STRING).bind ((reads_popInt debug (-1)).bind_last ?_)
              rw [if_pos rfl]
          | some s =>
              refine (reads_checkType debug .LOG_STRING).bind ((reads_popInt debug _).bind ?_)
              have hlen := toInt_ofNat_length h
              have hne : Int32.ofNat s.bytes.length ≠ -1 := by
                intro heq
                rw [heq] at hlen
                exact absurd hlen (by simp)
              have hnonneg : ¬(Int32.ofNat s.bytes.length).toInt < 0 := by omega
              rw [if_neg hne, if_neg hnonneg, hlen, Int.toNat_natCast]
              have htake := (reads_take JournalError.outOfRange s.bytes).bind_pure
                (f := fun bs => LogValue.param (.string (some (CString.ofBytes bs))))
              rwa [ofBytes_bytes] at htake

theorem take_length {e : JournalError} {n : Nat} {s s' : Source} {bs : List UInt8}
    (h : take e n s = .ok (bs, s')) : bs.length = n := by
  induction n generalizing s s' bs with
  | zero =>
      obtain ⟨rfl, -⟩ := Prod.mk.inj (Except.ok.inj h)
      rfl
  | succ n ih =>
      obtain ⟨b, t, -, hrest⟩ := bind_eq_ok h
      obtain ⟨bs', t', htake, hpure⟩ := bind_eq_ok hrest
      obtain ⟨rfl, -⟩ := Prod.mk.inj (Except.ok.inj hpure)
      rw [List.length_cons, ih htake]

/-- No string that is popped is longer than an `int` says. -/
theorem short_of_pop {v : LogValue} {s s' : Source} (h : pop debug .LOG_STRING s = .ok (v, s')) :
    v.Short := by
  obtain ⟨-, t, -, h⟩ := bind_eq_ok h
  obtain ⟨len, t', -, h⟩ := bind_eq_ok h
  split_ifs at h with hnull hneg
  · obtain ⟨rfl, -⟩ := Prod.mk.inj (Except.ok.inj h)
    trivial
  · cases h
  · obtain ⟨bs, t'', htake, hpure⟩ := bind_eq_ok h
    obtain ⟨rfl, -⟩ := Prod.mk.inj (Except.ok.inj hpure)
    change (bs.takeWhile (· ≠ 0)).length < 2 ^ 31
    have hle := (List.takeWhile_prefix (l := bs) (fun b => decide (b ≠ 0))).length_le
    rw [take_length htake] at hle
    have hlt := Int32.toInt_lt len
    omega

/-- Only values that fit are popped as they were pushed. -/
theorem short_of_pop_type {v : LogValue} {s s' : Source} (h : pop debug v.type s = .ok (v, s')) :
    v.Short := by
  cases v with
  | param p =>
      cases p with
      | string o => exact short_of_pop h
      | _ => trivial
  | _ => trivial

theorem short_of_next {v : LogValue} {s : Source} (hs : s.Next (v.push debug))
    (hfit : s.data.length < 2 ^ 31) : v.Short := by
  cases v with
  | param p =>
      cases p with
      | string o =>
          cases o with
          | none => trivial
          | some cs =>
              obtain ⟨rest, hrest⟩ := hs
              have hlen := congrArg List.length hrest
              rw [List.length_drop, List.length_append] at hlen
              change _ = (setType debug .LOG_STRING ++ (pushInt debug _ ++ cs.bytes)).length + _ at hlen
              rw [List.length_append, List.length_append] at hlen
              change cs.bytes.length < 2 ^ 31
              omega
      | _ => trivial
  | _ => trivial

end LogValue

/-! ### The parameters of an action -/

section
variable {debug : Bool} {s s' : Source}

/-- In a log that is short enough the parameters come back. -/
theorem popAll_of_next {vs : List LogValue} (hs : s.Next (LogValue.pushAll debug vs))
    (hfit : s.data.length < 2 ^ 31) :
    popAll debug (vs.map LogValue.type) s = .ok (vs, s.skip (LogValue.pushAll debug vs).length) := by
  induction vs generalizing s with
  | nil => rfl
  | cons v vs ih =>
      have hv : Reads (LogValue.pop debug v.type) (v.push debug) v :=
        LogValue.reads_pop (LogValue.short_of_next hs.left hfit)
      have hfirst := counted_of_reads hv hs.left hfit
      have hrest := ih (s := s.skip _) hs.right hfit
      change (counted (LogValue.pop debug v.type) s).bind _ = _
      rw [hfirst]
      change (popAll debug (vs.map LogValue.type) (s.skip (v.push debug).length)).bind _ = _
      rw [hrest, Source.skip_skip, ← List.length_append]
      rfl

/-- Parameters that come back end before the greatest `int`. -/
theorem popAll_eq_ok {vs : List LogValue} (hs : s.Next (LogValue.pushAll debug vs))
    (hidx : s.idx < 2 ^ 31) (h : popAll debug (vs.map LogValue.type) s = .ok (vs, s')) :
    s' = s.skip (LogValue.pushAll debug vs).length ∧ s'.idx < 2 ^ 31 := by
  induction vs generalizing s with
  | nil =>
      obtain ⟨-, rfl⟩ := Prod.mk.inj (Except.ok.inj h)
      exact ⟨rfl, hidx⟩
  | cons v vs ih =>
      obtain ⟨v', t, hv, h⟩ := bind_eq_ok h
      obtain ⟨vs', t', hvs, hpure⟩ := bind_eq_ok h
      obtain ⟨heq, rfl⟩ := Prod.mk.inj (Except.ok.inj hpure)
      obtain ⟨rfl, rfl⟩ := List.cons.inj heq
      have hshort := LogValue.short_of_pop_type (counted_ok hv).1
      obtain ⟨-, rfl, hlt⟩ := counted_reads (LogValue.reads_pop hshort) hs.left hidx hv
      obtain ⟨hskip, hend⟩ := ih (s := s.skip _) hs.right hlt hvs
      refine ⟨?_, hend⟩
      rw [hskip, Source.skip_skip, ← List.length_append]
      rfl

end

namespace DbJournal

/-! ### The bytes of actions -/

variable {debug : Bool} {handler : UInt8 → Reader JournalError (List LogValue)}

/-- What ends an action that starts at `idx`. -/
def endBytes (debug : Bool) (idx : Nat) : List UInt8 :=
  push debug (.uchar Action.END_ACTION.code) ++ push debug (.uint (UInt32.ofNat idx))

/-- The bytes of an action that starts at `idx`. -/
def frame (debug : Bool) (idx : Nat) (r : LogAction) : List UInt8 :=
  push debug (.uchar r.action.code) ++ (LogValue.pushAll debug r.params ++ endBytes debug idx)

/-- The bytes of actions, the first of which starts at `idx`. -/
def frames (debug : Bool) (idx : Nat) : List LogAction → List UInt8
  | [] => []
  | r :: rs => frame debug idx r ++ frames debug (idx + (frame debug idx r).length) rs

/-- The actions where they are, the first at `idx`. -/
def visits (debug : Bool) (idx : Nat) : List LogAction → List Visit
  | [] => []
  | r :: rs => ⟨idx, r.action.code, r.params⟩ :: visits debug (idx + (frame debug idx r).length) rs

theorem frames_end_cons (idx : Nat) (r : LogAction) (rs : List LogAction) :
    idx + (frames debug idx (r :: rs)).length = idx + (frame debug idx r).length +
      (frames debug (idx + (frame debug idx r).length) rs).length := by
  rw [frames, List.length_append, Nat.add_assoc]

theorem frames_append (idx : Nat) (rs rs' : List LogAction) : frames debug idx (rs ++ rs') =
    frames debug idx rs ++ frames debug (idx + (frames debug idx rs).length) rs' := by
  induction rs generalizing idx with
  | nil => rfl
  | cons r rs ih =>
      rw [frames_end_cons, List.cons_append, frames, frames, ih, List.append_assoc]

theorem visits_append (idx : Nat) (rs rs' : List LogAction) : visits debug idx (rs ++ rs') =
    visits debug idx rs ++ visits debug (idx + (frames debug idx rs).length) rs' := by
  induction rs generalizing idx with
  | nil => rfl
  | cons r rs ih =>
      rw [frames_end_cons, List.cons_append, visits, visits, ih, List.cons_append]

theorem length_frame_pos (debug : Bool) (idx : Nat) (r : LogAction) : 0 < (frame debug idx r).length := by
  unfold frame push
  rw [List.length_append, List.length_append, List.length_singleton]
  omega

theorem length_le_frames (debug : Bool) (idx : Nat) (rs : List LogAction) :
    rs.length ≤ (frames debug idx rs).length := by
  induction rs generalizing idx with
  | nil => exact le_rfl
  | cons r rs ih =>
      have hpos := length_frame_pos debug idx r
      have hle := ih (idx + (frame debug idx r).length)
      change rs.length + 1 ≤ (frame debug idx r ++ _).length
      rw [List.length_append]
      omega

theorem foldl_pushValue (J : DbJournal) (vs : List LogValue) : vs.foldl pushValue J =
    { J with log := J.log ++ LogValue.pushAll J.debug vs } := by
  induction vs generalizing J with
  | nil => simp [LogValue.pushAll]
  | cons v vs ih =>
      rw [List.foldl_cons, ih]
      simp [LogValue.pushAll, pushValue]

/-- Outside of an action, one is written as its frame. -/
theorem logAction_eq {J : DbJournal} (hstart : J.startAction = false) (r : LogAction) :
    ∃ J', J.logAction r = .ok J' ∧ J'.startAction = false ∧ J'.debug = J.debug ∧
      J'.log = J.log ++ frame J.debug J.log.length r := by
  set J₁ := pushParam { J with startAction := true, actionIdx := UInt32.ofNat J.log.length }
    (.uchar r.action.code) with hJ₁
  have hbegin : J.beginAction r.action = .ok J₁ := by
    unfold beginAction
    rw [hstart]
    rfl
  refine ⟨(r.params.foldl pushValue J₁).endAction, ?_, rfl, ?_, ?_⟩
  · rw [logAction, hbegin]
    rfl
  · rw [foldl_pushValue]
    rfl
  · rw [foldl_pushValue]
    simp [endAction, pushParam, frame, endBytes, hJ₁]

/-- What is written between the actions is their frames. -/
theorem logAll_eq {J : DbJournal} (hstart : J.startAction = false) (rs : List LogAction) :
    ∃ J', J.logAll rs = .ok J' ∧ J'.debug = J.debug ∧
      J'.log = J.log ++ frames J.debug J.log.length rs := by
  induction rs generalizing J with
  | nil => exact ⟨J, rfl, rfl, (List.append_nil _).symm⟩
  | cons r rs ih =>
      obtain ⟨J₁, hlog, hstart₁, hdebug, hframe⟩ := logAction_eq hstart r
      obtain ⟨J', hall, hdebug', hframes⟩ := ih hstart₁
      refine ⟨J', ?_, hdebug'.trans hdebug, ?_⟩
      · rw [logAll, hlog]
        exact hall
      · rw [hframes, hframe, hdebug, List.append_assoc, List.length_append]
        rfl

/-! ### Going forward -/

/-- The handler pops the types that were pushed. -/
def HandlerPops (debug : Bool) (handler : UInt8 → Reader JournalError (List LogValue)) (r : LogAction) :
    Prop :=
  ∀ s : Source, s.Next (LogValue.pushAll debug r.params) →
    handler r.action.code s = popAll debug (r.params.map LogValue.type) s

theorem run_bind {α β : Type} {m : Reader JournalError α} {f : α → Reader JournalError β}
    {s t : Source} {a : α} (hm : m s = .ok (a, t)) : (m >>= f) s = f a t := by
  change (m s).bind (fun r => f r.1 r.2) = _
  rw [hm]
  rfl

theorem code_ne_end (r : LogAction) : r.action.code ≠ Action.END_ACTION.code := by
  have hne := r.notEnd
  cases haction : r.action <;> first | exact absurd haction hne | decide

theorem redoScan_done {s : Source} {fuel : Nat} (hdone : s.idx % 2 ^ 32 = s.data.length % 2 ^ 32) :
    redoScan debug handler (fuel + 1) s = .ok ([], s) := by
  unfold redoScan
  change (if s.idx % 2 ^ 32 = s.data.length % 2 ^ 32 then _ else _ : Reader _ _) s = _
  rw [if_pos hdone]
  rfl

/-- One pass of the loop. -/
theorem redoScan_pass {s s₁ s₂ s₃ s₄ : Source} {fuel : Nat} {curAction : UInt8}
    {values : List LogValue} (hmore : ¬s.idx % 2 ^ 32 = s.data.length % 2 ^ 32)
    (haction : counted (popUchar debug) s = .ok (curAction, s₁))
    (hne : curAction ≠ Action.END_ACTION.code) (hvalues : handler curAction s₁ = .ok (values, s₂))
    (hend : counted (popUchar debug) s₂ = .ok (Action.END_ACTION.code, s₃))
    (hidx : counted (popUint debug) s₃ = .ok (UInt32.ofNat s.idx, s₄)) {rest : List Visit} {s' : Source}
    (hrest : redoScan debug handler fuel s₄ = .ok (rest, s')) :
    redoScan debug handler (fuel + 1) s = .ok (⟨s.idx, curAction, values⟩ :: rest, s') := by
  unfold redoScan
  change (if s.idx % 2 ^ 32 = s.data.length % 2 ^ 32 then _ else _ : Reader _ _) s = _
  rw [if_neg hmore, run_bind haction]
  dsimp only
  rw [if_neg hne, run_bind hvalues, run_bind hend, run_bind hidx, if_neg (by simp), run_bind hrest]
  rfl

/-- A pass that goes through. -/
theorem redoScan_eq_ok {s s' : Source} {fuel : Nat} {found : List Visit}
    (hmore : ¬s.idx % 2 ^ 32 = s.data.length % 2 ^ 32)
    (h : redoScan debug handler fuel s = .ok (found, s')) :
    ∃ k curAction values endAction actionIdx s₁ s₂ s₃ s₄ rest,
      counted (popUchar debug) s = .ok (curAction, s₁) ∧ handler curAction s₁ = .ok (values, s₂) ∧
      counted (popUchar debug) s₂ = .ok (endAction, s₃) ∧
      counted (popUint debug) s₃ = .ok (actionIdx, s₄) ∧
      redoScan debug handler k s₄ = .ok (rest, s') ∧ found = ⟨s.idx, curAction, values⟩ :: rest := by
  cases fuel with
  | zero => cases h
  | succ k =>
      unfold redoScan at h
      change (if s.idx % 2 ^ 32 = s.data.length % 2 ^ 32 then _ else _ : Reader _ _) s = _ at h
      rw [if_neg hmore] at h
      obtain ⟨curAction, s₁, haction, h⟩ := bind_eq_ok h
      dsimp only at h
      split_ifs at h with hcode
      · obtain ⟨values, s₂, hvalues, -⟩ := bind_eq_ok h
        cases hvalues
      · obtain ⟨values, s₂, hvalues, h⟩ := bind_eq_ok h
        obtain ⟨endAction, s₃, hend, h⟩ := bind_eq_ok h
        obtain ⟨actionIdx, s₄, hidx, h⟩ := bind_eq_ok h
        split_ifs at h with hbad
        · cases h
        · obtain ⟨rest, s₅, hrest, hpure⟩ := bind_eq_ok h
          obtain ⟨rfl, rfl⟩ := Prod.mk.inj (Except.ok.inj hpure)
          exact ⟨k, curAction, values, endAction, actionIdx, s₁, s₂, s₃, s₄, rest, haction, hvalues,
            hend, hidx, hrest, rfl⟩

/-- Where an action is left, the position is not the end. -/
theorem not_done {s : Source} {r : LogAction} {rs : List LogAction}
    (hlen : s.data.length = s.idx + (frames debug s.idx (r :: rs)).length)
    (hfit : s.data.length < 2 ^ 31) : ¬s.idx % 2 ^ 32 = s.data.length % 2 ^ 32 := by
  have hpos := length_frame_pos debug s.idx r
  rw [frames, List.length_append] at hlen
  omega

/-- Past the four parts of an action. -/
theorem skip_frame (s : Source) (idx : Nat) (r : LogAction) :
    (((s.skip (push debug (.uchar r.action.code)).length).skip
        (LogValue.pushAll debug r.params).length).skip
        (push debug (.uchar Action.END_ACTION.code)).length).skip
        (push debug (.uint (UInt32.ofNat idx))).length = s.skip (frame debug idx r).length := by
  rw [Source.skip_skip, Source.skip_skip, Source.skip_skip]
  unfold frame endBytes
  rw [List.length_append, List.length_append, List.length_append]

/-- All actions are found, in order, in a log that is short enough. -/
theorem redoScan_of_lt {rs : List LogAction} (hpops : ∀ r ∈ rs, HandlerPops debug handler r)
    {s : Source} {fuel : Nat} (hs : s.Next (frames debug s.idx rs))
    (hlen : s.data.length = s.idx + (frames debug s.idx rs).length) (hfit : s.data.length < 2 ^ 31)
    (hfuel : rs.length < fuel) :
    ∃ s', redoScan debug handler fuel s = .ok (visits debug s.idx rs, s') := by
  induction rs generalizing s fuel with
  | nil =>
      obtain ⟨fuel, rfl⟩ : ∃ k, fuel = k + 1 := ⟨fuel - 1, by omega⟩
      exact ⟨s, redoScan_done (congrArg (· % 2 ^ 32) hlen.symm)⟩
  | cons r rs ih =>
      obtain ⟨fuel, rfl⟩ : ∃ k, fuel = k + 1 := ⟨fuel - 1, by omega⟩
      have hframe : s.Next (frame debug s.idx r) := hs.left
      have haction := counted_of_reads (reads_popUchar debug r.action.code) hframe.left hfit
      have hparams := (hpops r List.mem_cons_self _ hframe.right.left).trans
        (popAll_of_next hframe.right.left hfit)
      have hend := counted_of_reads (reads_popUchar debug Action.END_ACTION.code)
        hframe.right.right.left hfit
      have hidx := counted_of_reads (reads_popUint debug (UInt32.ofNat s.idx))
        hframe.right.right.right hfit
      obtain ⟨s', hrest⟩ := ih (fun r hr => hpops r (List.mem_cons_of_mem _ hr))
        (s := s.skip (frame debug s.idx r).length) hs.right
        (hlen.trans (frames_end_cons s.idx r rs)) hfit (Nat.lt_of_succ_lt_succ hfuel)
      refine ⟨s', redoScan_pass (not_done hlen hfit) haction (code_ne_end r) hparams hend hidx ?_⟩
      rw [skip_frame]
      exact hrest

/-- A log whose actions were all found is short enough. -/
theorem lt_of_redoScan {rs : List LogAction} (hpops : ∀ r ∈ rs, HandlerPops debug handler r)
    {s s' : Source} {fuel : Nat} (hs : s.Next (frames debug s.idx rs))
    (hlen : s.data.length = s.idx + (frames debug s.idx rs).length) (hidx : s.idx < 2 ^ 31)
    (h : redoScan debug handler fuel s = .ok (visits debug s.idx rs, s')) :
    s.data.length < 2 ^ 31 := by
  induction rs generalizing s fuel with
  | nil => exact lt_of_eq_of_lt hlen hidx
  | cons r rs ih =>
      have hmore : ¬s.idx % 2 ^ 32 = s.data.length % 2 ^ 32 := by
        intro hdone
        cases fuel with
        | zero => cases h
        | succ k =>
            rw [redoScan_done hdone] at h
            cases (Prod.mk.inj (Except.ok.inj h)).1
      obtain ⟨k, curAction, values, endAction, actionIdx, s₁, s₂, s₃, s₄, rest, haction, hvalues, hend,
        hback, hrest, hfound⟩ := redoScan_eq_ok hmore h
      obtain ⟨hvisit, rfl⟩ := List.cons.inj hfound
      obtain ⟨-, -, rfl⟩ := Visit.mk.inj hvisit
      have hframe : s.Next (frame debug s.idx r) := hs.left
      obtain ⟨rfl, rfl, hidx₁⟩ := counted_reads (reads_popUchar debug r.action.code) hframe.left hidx
        haction
      rw [hpops r List.mem_cons_self _ hframe.right.left] at hvalues
      obtain ⟨rfl, hidx₂⟩ := popAll_eq_ok hframe.right.left hidx₁ hvalues
      obtain ⟨-, rfl, hidx₃⟩ := counted_reads (reads_popUchar debug Action.END_ACTION.code)
        hframe.right.right.left hidx₂ hend
      obtain ⟨-, rfl, hidx₄⟩ := counted_reads (reads_popUint debug (UInt32.ofNat s.idx))
        hframe.right.right.right hidx₃ hback
      rw [skip_frame] at hidx₄ hrest
      exact ih (fun r hr => hpops r (List.mem_cons_of_mem _ hr)) (s := s.skip (frame debug s.idx r).length)
        hs.right (hlen.trans (frames_end_cons s.idx r rs)) hidx₄ hrest

/-! ### Going backward -/

theorem length_push_uint (debug : Bool) (u : UInt32) :
    (push debug (.uint u)).length = if debug then 5 else 4 := by
  cases debug <;> rfl

/-- One pass of the loop. -/
theorem undoScan_pass {s s₁ s₂ s₃ : Source} {fuel : Nat} {actionIdx : UInt32} {curAction : UInt8}
    {values : List LogValue} (hidx : counted (popUint debug) s = .ok (actionIdx, s₁))
    (haction : counted (popUchar debug) { s₁ with idx := actionIdx.toNat } = .ok (curAction, s₂))
    (hne : curAction ≠ Action.END_ACTION.code) (hvalues : handler curAction s₂ = .ok (values, s₃)) :
    undoScan debug handler (fuel + 1) s = if actionIdx = 0 then
      .ok ([⟨actionIdx.toNat, curAction, values⟩], s₃) else
      (undoScan debug handler fuel { s₃ with idx := moveBackOneInt debug actionIdx.toNat }).map
        fun r => (⟨actionIdx.toNat, curAction, values⟩ :: r.1, r.2) := by
  have hjump : ∀ (t : Source) (n : Nat),
      (modify fun s => { s with idx := n } : Reader JournalError PUnit) t =
        .ok ((), { t with idx := n }) := fun _ _ => rfl
  rw [undoScan, run_bind hidx, run_bind (hjump s₁ _), run_bind haction]
  dsimp only
  rw [if_neg hne, run_bind hvalues]
  split_ifs with hzero
  · rfl
  · rw [run_bind (hjump s₃ _)]
    rfl

theorem moveBackOneInt_eq {idx n : Nat} (hidx : idx < 2 ^ 31)
    (hn : n + (if debug then 5 else 4) = idx) : moveBackOneInt debug idx = n := by
  unfold moveBackOneInt
  cases debug <;> simp only [Bool.false_eq_true, if_true, if_false] at hn ⊢ <;> omega

theorem lt_length_frames (debug : Bool) (idx : Nat) {rs : List LogAction} (hne : rs ≠ []) :
    (if debug then 5 else 4) < (frames debug idx rs).length := by
  cases rs with
  | nil => exact absurd rfl hne
  | cons r rs =>
      have hlen := length_push_uint debug (UInt32.ofNat idx)
      have hend : 0 < (push debug (.uchar Action.END_ACTION.code)).length := by
        rw [push, List.length_append]
        exact Nat.lt_add_left _ Nat.one_pos
      unfold frames frame endBytes
      rw [List.length_append, List.length_append, List.length_append, List.length_append]
      omega

/-- From the last bytes of an action, all up to this one are found, the last one first. -/
theorem undoScan_of_lt {rs : List LogAction} (hpops : ∀ r ∈ rs, HandlerPops debug handler r)
    (hne : rs ≠ []) {log tail : List UInt8} {idx fuel : Nat} (hlog : log = frames debug 0 rs ++ tail)
    (hfit : log.length < 2 ^ 31)
    (hidx : idx + (if debug then 5 else 4) = (frames debug 0 rs).length) (hfuel : rs.length ≤ fuel) :
    ∃ s', undoScan debug handler fuel ⟨log, idx⟩ = .ok ((visits debug 0 rs).reverse, s') := by
  induction rs using List.reverseRecOn generalizing tail idx fuel with
  | nil => exact absurd rfl hne
  | append_singleton rs r ih =>
      obtain ⟨fuel, rfl⟩ : ∃ k, fuel = k + 1 := ⟨fuel - 1, by simp at hfuel; omega⟩
      set start := (frames debug 0 rs).length with hstart
      have hframes : frames debug 0 (rs ++ [r]) = frames debug 0 rs ++ frame debug start r := by
        rw [frames_append, Nat.zero_add]
        change _ ++ (_ ++ []) = _
        rw [List.append_nil]
      have hvisits : (visits debug 0 (rs ++ [r])).reverse =
          ⟨start, r.action.code, r.params⟩ :: (visits debug 0 rs).reverse := by
        rw [visits_append, List.reverse_append, Nat.zero_add]
        rfl
      rw [hframes] at hlog hidx
      have hsmall : start < 2 ^ 31 := by
        rw [hlog, List.append_assoc, List.length_append] at hfit
        omega
      have htoNat : (UInt32.ofNat start).toNat = start := by
        rw [UInt32.toNat_ofNat']
        omega
      let s : Source := ⟨log, start⟩
      have hframe : s.Next (frame debug start r) := by
        refine ⟨tail, ?_⟩
        change log.drop start = _
        rw [hlog, List.append_assoc, hstart, List.drop_left]
      have hat : (⟨log, idx⟩ : Source) = ((s.skip (push debug (.uchar r.action.code)).length).skip
          (LogValue.pushAll debug r.params).length).skip
          (push debug (.uchar Action.END_ACTION.code)).length := by
        rw [Source.skip_skip, Source.skip_skip]
        have hlen := length_push_uint debug (UInt32.ofNat start)
        unfold frame endBytes at hidx
        rw [List.length_append, List.length_append, List.length_append, List.length_append, hlen,
          ← hstart] at hidx
        unfold Source.skip
        congr 1
        change idx = start + _
        omega
      have hback := counted_of_reads (reads_popUint debug (UInt32.ofNat start))
        hframe.right.right.right hfit
      rw [← hat] at hback
      have haction := counted_of_reads (reads_popUchar debug r.action.code) hframe.left hfit
      have hparams := (hpops r (by simp) _ hframe.right.left).trans
        (popAll_of_next hframe.right.left hfit)
      have hjump : { (⟨log, idx⟩ : Source).skip (push debug (.uint (UInt32.ofNat start))).length with
          idx := (UInt32.ofNat start).toNat } = s := by
        rw [htoNat]
        rfl
      rw [undoScan_pass hback (hjump ▸ haction) (code_ne_end r) hparams, htoNat, hvisits]
      by_cases hrs : rs = []
      · subst hrs
        exact ⟨_, if_pos rfl⟩
      · have hlong := lt_length_frames debug 0 hrs
        have hnonzero : UInt32.ofNat start ≠ 0 := by
          intro hzero
          rw [hzero] at htoNat
          change 0 = start at htoNat
          omega
        have hmove : moveBackOneInt debug start + (if debug then 5 else 4) = start := by
          have hsplit := Nat.sub_add_cancel hlong.le
          rw [moveBackOneInt_eq hsmall hsplit]
          exact hsplit
        obtain ⟨s', hrest⟩ := ih (fun r hr => hpops r (List.mem_append_left _ hr)) hrs
          (by rw [hlog, List.append_assoc]) hmove
          (by simpa using hfuel)
        refine ⟨s', ?_⟩
        rw [if_neg hnonzero]
        change (undoScan debug handler fuel ⟨log, _⟩).map _ = _
        rw [hrest]
        rfl

/-! ### The journal -/

/-- What a journal has written when the actions are logged. -/
theorem log_of_logAll {rs : List LogAction} {J : DbJournal} (hlog : (init debug).logAll rs = .ok J) :
    J.log = frames debug 0 rs := by
  obtain ⟨J', hall, -, hframes⟩ := logAll_eq (J := init debug) rfl rs
  obtain rfl := Except.ok.inj (hall.symm.trans hlog)
  exact hframes

theorem lt_of_redoVisits {rs : List LogAction} (hpops : ∀ r ∈ rs, HandlerPops debug handler r)
    (h : redoVisits debug handler (frames debug 0 rs) = .ok (visits debug 0 rs)) :
    (frames debug 0 rs).length < 2 ^ 31 := by
  unfold redoVisits at h
  cases hscan : redoScan debug handler ((frames debug 0 rs).length + 1) ⟨frames debug 0 rs, 0⟩ with
  | error e => rw [hscan] at h; cases h
  | ok r =>
      rw [hscan] at h
      obtain ⟨found, s'⟩ := r
      obtain rfl := Except.ok.inj h
      exact lt_of_redoScan hpops ⟨[], (List.append_nil _).symm⟩ (Nat.zero_add _).symm
        (Nat.two_pow_pos 31) hscan

/-- Both scans find the actions that were written, in order and in reverse order, exactly when the
journal has fewer than `2 ^ 31` bytes. -/
theorem scans_iff {rs : List LogAction} {J : DbJournal} (hlog : (init debug).logAll rs = .ok J)
    (hpops : ∀ r ∈ rs, HandlerPops debug handler r) :
    (redoVisits debug handler J.log = .ok (visits debug 0 rs) ∧
      undoVisits debug handler J.log = .ok (visits debug 0 rs).reverse) ↔ J.log.length < 2 ^ 31 := by
  rw [log_of_logAll hlog]
  set log := frames debug 0 rs with hframes
  constructor
  · rintro ⟨hredo, -⟩
    exact lt_of_redoVisits hpops hredo
  · intro hfit
    have hfuel : rs.length < log.length + 1 := Nat.lt_succ_of_le (length_le_frames debug 0 rs)
    obtain ⟨s', hredo⟩ := redoScan_of_lt hpops (s := ⟨log, 0⟩) ⟨[], (List.append_nil _).symm⟩
      (Nat.zero_add _).symm hfit hfuel
    refine ⟨by rw [redoVisits, hredo]; rfl, ?_⟩
    unfold undoVisits
    by_cases hrs : rs = []
    · have hnil : log = [] := by rw [hframes, hrs]; rfl
      rw [if_pos hnil, hrs]
      rfl
    · have hlong := lt_length_frames debug 0 hrs
      have hnonempty : log ≠ [] := fun hnil => by
        rw [← hframes, hnil] at hlong
        exact absurd hlong (Nat.not_lt_zero _)
      have hidx := Nat.sub_add_cancel hlong.le
      rw [if_neg hnonempty, Nat.mod_eq_of_lt (by omega), moveBackOneInt_eq hfit hidx]
      obtain ⟨s'', hundo⟩ := undoScan_of_lt hpops hrs (List.append_nil _).symm hfit hidx
        (Nat.lt_succ_iff.mp hfuel)
      rw [hundo]
      rfl

/-- Two actions with a number and a string are found. -/
theorem scans_two :
    (redoVisits true (fun c => popAll true (if c = 0 then [.LOG_INT] else [.LOG_CHAR, .LOG_STRING]))
        (frames true 0 [⟨.CREATE_OBJECT, [.param (.int 7)], nofun⟩,
          ⟨.DELETE_OBJECT, [.char 97, .param (.string none)], nofun⟩]) =
        .ok [⟨0, 0, [.param (.int 7)]⟩, ⟨14, 1, [.char 97, .param (.string none)]⟩] ∧
      undoVisits true (fun c => popAll true (if c = 0 then [.LOG_INT] else [.LOG_CHAR, .LOG_STRING]))
        (frames true 0 [⟨.CREATE_OBJECT, [.param (.int 7)], nofun⟩,
          ⟨.DELETE_OBJECT, [.char 97, .param (.string none)], nofun⟩]) =
        .ok [⟨14, 1, [.char 97, .param (.string none)]⟩, ⟨0, 0, [.param (.int 7)]⟩]) := by
  have hlog : (init true).logAll [⟨.CREATE_OBJECT, [.param (.int 7)], nofun⟩,
      ⟨.DELETE_OBJECT, [.char 97, .param (.string none)], nofun⟩] = .ok ⟨_, true, false, 14⟩ := rfl
  refine (scans_iff hlog ?_).mpr ?_
  · intro r hr
    rcases List.mem_pair.mp hr with rfl | rfl <;> exact fun _ _ => rfl
  · decide

/-- A journal of `2 ^ 31` actions is not scanned to its end, though each handler pops what was
pushed. -/
theorem not_scans_long :
    ¬∀ (debug : Bool) (handler : UInt8 → Reader JournalError (List LogValue)) (rs : List LogAction)
      (J : DbJournal), (init debug).logAll rs = .ok J → (∀ r ∈ rs, HandlerPops debug handler r) →
      redoVisits debug handler J.log = .ok (visits debug 0 rs) ∧
        undoVisits debug handler J.log = .ok (visits debug 0 rs).reverse := by
  intro hall
  set r : LogAction := ⟨.UPDATE_FIELD, [.param (.uint 0)], nofun⟩ with hr
  set rs := List.replicate (2 ^ 31) r with hrs
  have hpops : ∀ r ∈ rs, HandlerPops false (fun _ => popAll false [.LOG_UINT]) r := by
    intro r' hr'
    obtain rfl := List.eq_of_mem_replicate hr'
    exact fun _ _ => rfl
  obtain ⟨J, hlog, -⟩ := logAll_eq (J := init false) rfl rs
  obtain ⟨hredo, -⟩ := hall false _ rs J hlog hpops
  rw [log_of_logAll hlog] at hredo
  have hlt := lt_of_redoVisits hpops hredo
  have hle := length_le_frames false 0 rs
  rw [hrs, List.length_replicate] at hle
  rw [hrs] at hlt
  exact absurd (hle.trans_lt hlt) (lt_irrefl _)

end DbJournal

end OpenRoad.Db

import OpenRoad.DbJournalRedo

/-!
Which actions `dbJournal::redo` reads as they were written, and that it reads a whole journal of
them.
-/

namespace OpenRoad.Db
open ByteReader DbJournalLog

namespace JournalOp

/-- The operations whose action the handler pops in full. The others push a parameter that is not
popped (connecting a bterm, destroying a modinst, a modbterm or a moditerm), or journal a type that
no handler knows (a guide, a name, a rule). In debug mode, a zero of type `int` is not popped as an
id. -/
def Matched (debug : Bool) : JournalOp → Prop
  | .btermConnectNet .. | .btermConnectModNet .. | .modInstDestroy .. | .modBTermDestroy ..
  | .modITermDestroy .. | .guideCreate .. | .guideDestroy .. | .netSwapNetNames ..
  | .netSetNonDefaultRule .. => False
  | .itermConnect .. | .itermConnectMod .. | .itermDisconnectDbNet ..
  | .itermDisconnectModNet .. => debug = false
  | _ => True

instance (debug : Bool) (op : JournalOp) : Decidable (Matched debug op) := by
  cases op <;> unfold Matched <;> infer_instance

end JournalOp

/-- The length of a string fits an `int`. -/
def Param.fits : Param → Bool
  | .string (some s) => decide (s.bytes.length < 2 ^ 31)
  | _ => true

namespace JournalOp

/-- An action that is read as it was written. -/
def RedoReads (debug : Bool) (op : JournalOp) : Prop :=
  Matched debug op ∧ op.params.all Param.fits = true

instance (debug : Bool) (op : JournalOp) : Decidable (RedoReads debug op) := by
  unfold RedoReads; infer_instance

/-- The calls that perform an operation again. -/
def replay : JournalOp → List RedoCall
  | .instCreate lib master name _ => [.instCreate lib master name.bytes]
  | .instDestroy _ _ _ inst _ _ _ _ _ _ => [.instDestroy inst]
  | .instSwapMaster inst _ _ newLib newMaster => [.instSwapMaster inst newLib newMaster]
  | .netCreate name _ => [.netCreate name.bytes]
  | .netDestroy _ net _ _ => [.netDestroy net]
  | .netSwapNetNames .. | .netSetNonDefaultRule .. | .guideCreate .. | .guideDestroy .. => []
  | .itermConnect iterm net => DbJournal.callIf net (.itermConnect iterm net)
  | .itermConnectMod iterm modNet => DbJournal.callIf modNet (.itermConnectMod iterm modNet)
  | .itermDisconnect iterm net modNet =>
      if net ≠ 0 ∧ modNet ≠ 0 then [.itermDisconnect iterm]
      else if net ≠ 0 then [.itermDisconnectDbNet iterm]
      else DbJournal.callIf modNet (.itermDisconnectModNet iterm)
  | .itermDisconnectDbNet iterm net => DbJournal.callIf net (.itermDisconnectDbNet iterm)
  | .itermDisconnectModNet iterm modNet =>
      DbJournal.callIf modNet (.itermDisconnectModNet iterm)
  | .btermCreate net name => [.btermCreate net name.bytes]
  | .btermDestroy bterm => [.btermDestroy bterm]
  | .btermConnectNet bterm net => [.btermConnect bterm net]
  | .btermConnectModNet bterm _ => [.btermConnect bterm 0]
  | .btermDisconnectNet bterm net => DbJournal.callIf net (.btermDisconnectDbNet bterm)
  | .btermDisconnectModNet bterm modNet =>
      DbJournal.callIf modNet (.btermDisconnectDbModNet bterm)
  | .moduleCreate name _ => [.moduleCreate name.bytes]
  | .moduleDestroy _ module => [.moduleDestroy module]
  | .modInstCreate name _ module master => [.modInstCreate module master name.bytes]
  | .modInstDestroy _ modInst _ _ _ => [.modInstDestroy modInst]
  | .modNetCreate name _ parent => [.modNetCreate parent name.bytes]
  | .modNetDestroy _ modNet _ => [.modNetDestroy modNet]
  | .modBTermCreate name _ module => [.modBTermCreate module name.bytes]
  | .modBTermDestroy _ modBTerm _ => [.modBTermDestroy modBTerm]
  | .modBTermConnect modBTerm modNet => DbJournal.callIf modNet (.modBTermConnect modBTerm modNet)
  | .modBTermDisconnect modBTerm _ => [.modBTermDisconnect modBTerm]
  | .modITermCreate name _ modBTerm parent => [.modITermCreate parent name.bytes modBTerm]
  | .modITermDestroy _ modITerm _ _ => [.modITermDestroy modITerm]
  | .modITermConnect modITerm modNet => DbJournal.callIf modNet (.modITermConnect modITerm modNet)
  | .modITermDisconnect modITerm _ => [.modITermDisconnect modITerm]

end JournalOp

namespace DbJournal

variable (debug : Bool) (otherField : DbObjectType → Handler)

/-! ### Handlers -/

theorem reads_popObjectType (t : DbObjectType) :
    Reads (popObjectType debug) (push debug (.int t.code)) (some t) := by
  have h := (reads_popInt debug t.code).bind_pure (f := objTypeOf)
  have ht : objTypeOf t.code = some t := by cases t <;> rfl
  rwa [ht] at h

/-- A parameter that is popped before others. -/
theorem reads_param {α β : Type} {m : Reader JournalError α} {f : α → Reader JournalError β}
    {p : Param} {ps : List Param} {a : α} {b : β} (hm : Reads m (push debug p) a)
    (hf : Reads (f a) (bytes debug ps) b) : Reads (m >>= f) (bytes debug (p :: ps)) b :=
  hm.bind hf

variable {debug}

/-- Without types, a zero of type `int` is the same bytes as an id. -/
theorem reads_popUint_int (h : debug = false) (i : Int32) :
    Reads (popUint debug) (push debug (.int i)) i.toUInt32 := by
  subst h
  exact reads_popUint false i.toUInt32

theorem reads_calls {calls calls' : List RedoCall} (h : calls = calls') :
    Reads (pure calls : Handler) (bytes debug []) calls' := by
  rw [h]
  exact reads_pure calls'

theorem handler_code (action : Action) : handler debug otherField action.code =
    match action with
    | .CREATE_OBJECT => redoCreateObject debug
    | .DELETE_OBJECT => redoDeleteObject debug
    | .CONNECT_OBJECT => redoConnectObject debug
    | .DISCONNECT_OBJECT => redoDisconnectObject debug
    | .SWAP_OBJECT => redoSwapObject debug
    | .UPDATE_FIELD => redoUpdateField debug otherField
    | .END_ACTION => throw (.critical 399) := by
  cases action <;> rfl

/-- The handler pops what the operation pushed. -/
theorem reads_handler {op : JournalOp} (h : op.RedoReads debug) :
    Reads (handler debug otherField op.action.code)
      (bytes debug (Param.int op.objType.code :: op.params)) op.replay := by
  obtain ⟨hmatched, hfits⟩ := h
  have hname : ∀ s : CString, Param.string (some s) ∈ op.params →
      Reads (popString debug) (push debug (.string (some s))) s.bytes := by
    intro s hs
    exact reads_popString debug s (of_decide_eq_true (List.all_eq_true.mp hfits _ hs))
  have huint := reads_popUint debug
  have hint := reads_popInt debug
  rw [handler_code]
  cases op <;> refine reads_param debug (reads_popObjectType debug _) ?_
  case instCreate lib master name inst =>
    refine reads_param debug (huint lib) ?_
    refine reads_param debug (huint master) ?_
    refine reads_param debug (hname name (by simp [JournalOp.params])) ?_
    refine reads_param debug (huint inst) ?_
    exact reads_pure _
  case instDestroy lib master name inst flags x y group module region =>
    refine reads_param debug (huint lib) ?_
    refine reads_param debug (huint master) ?_
    refine reads_param debug (hname name (by simp [JournalOp.params])) ?_
    refine reads_param debug (huint inst) ?_
    refine reads_param debug (huint flags) ?_
    refine reads_param debug (hint x) ?_
    refine reads_param debug (hint y) ?_
    refine reads_param debug (huint group) ?_
    refine reads_param debug (huint module) ?_
    refine reads_param debug (huint region) ?_
    exact reads_pure _
  case instSwapMaster inst oldLib oldMaster newLib newMaster =>
    refine reads_param debug (huint inst) ?_
    refine reads_param debug (huint oldLib) ?_
    refine reads_param debug (huint oldMaster) ?_
    refine reads_param debug (huint newLib) ?_
    refine reads_param debug (huint newMaster) ?_
    exact reads_pure _
  case netCreate name net =>
    refine reads_param debug (hname name (by simp [JournalOp.params])) ?_
    refine reads_param debug (huint net) ?_
    exact reads_pure _
  case netDestroy name net flags nonDefaultRule =>
    refine reads_param debug (hname name (by simp [JournalOp.params])) ?_
    refine reads_param debug (huint net) ?_
    refine reads_param debug (huint flags) ?_
    refine reads_param debug (huint nonDefaultRule) ?_
    exact reads_pure _
  case itermConnect iterm net =>
    refine reads_param debug (huint iterm) ?_
    refine reads_param debug (huint net) ?_
    refine reads_param debug (reads_popUint_int hmatched 0) ?_
    exact reads_calls (List.append_nil _)
  case itermConnectMod iterm modNet =>
    refine reads_param debug (huint iterm) ?_
    refine reads_param debug (reads_popUint_int hmatched 0) ?_
    refine reads_param debug (huint modNet) ?_
    exact reads_pure _
  case itermDisconnect iterm net modNet =>
    refine reads_param debug (huint iterm) ?_
    refine reads_param debug (huint net) ?_
    refine reads_param debug (huint modNet) ?_
    exact reads_pure _
  case itermDisconnectDbNet iterm net =>
    refine reads_param debug (huint iterm) ?_
    refine reads_param debug (huint net) ?_
    refine reads_param debug (reads_popUint_int hmatched 0) ?_
    have hzero : Int32.toUInt32 0 = 0 := rfl
    exact reads_calls (by simp [JournalOp.replay, callIf, hzero])
  case itermDisconnectModNet iterm modNet =>
    refine reads_param debug (huint iterm) ?_
    refine reads_param debug (reads_popUint_int hmatched 0) ?_
    refine reads_param debug (huint modNet) ?_
    exact reads_pure _
  case btermCreate net name =>
    refine reads_param debug (huint net) ?_
    refine reads_param debug (hname name (by simp [JournalOp.params])) ?_
    exact reads_pure _
  case btermDestroy bterm =>
    refine reads_param debug (huint bterm) ?_
    exact reads_pure _
  case btermDisconnectNet bterm net =>
    refine reads_param debug (huint bterm) ?_
    refine reads_param debug (huint net) ?_
    refine reads_param debug (huint 0) ?_
    exact reads_calls (List.append_nil _)
  case btermDisconnectModNet bterm modNet =>
    refine reads_param debug (huint bterm) ?_
    refine reads_param debug (huint 0) ?_
    refine reads_param debug (huint modNet) ?_
    exact reads_pure _
  case moduleCreate name module =>
    refine reads_param debug (hname name (by simp [JournalOp.params])) ?_
    refine reads_param debug (huint module) ?_
    exact reads_pure _
  case moduleDestroy name module =>
    refine reads_param debug (hname name (by simp [JournalOp.params])) ?_
    refine reads_param debug (huint module) ?_
    exact reads_pure _
  case modInstCreate name modInst module master =>
    refine reads_param debug (hname name (by simp [JournalOp.params])) ?_
    refine reads_param debug (huint modInst) ?_
    refine reads_param debug (huint module) ?_
    refine reads_param debug (huint master) ?_
    exact reads_pure _
  case modNetCreate name modNet parent =>
    refine reads_param debug (hname name (by simp [JournalOp.params])) ?_
    refine reads_param debug (huint modNet) ?_
    refine reads_param debug (huint parent) ?_
    exact reads_pure _
  case modNetDestroy name modNet module =>
    refine reads_param debug (hname name (by simp [JournalOp.params])) ?_
    refine reads_param debug (huint modNet) ?_
    refine reads_param debug (huint module) ?_
    exact reads_pure _
  case modBTermCreate name modBTerm module =>
    refine reads_param debug (hname name (by simp [JournalOp.params])) ?_
    refine reads_param debug (huint modBTerm) ?_
    refine reads_param debug (huint module) ?_
    exact reads_pure _
  case modBTermConnect modBTerm modNet =>
    refine reads_param debug (huint modBTerm) ?_
    refine reads_param debug (huint modNet) ?_
    exact reads_pure _
  case modBTermDisconnect modBTerm modNet =>
    refine reads_param debug (huint modBTerm) ?_
    refine reads_param debug (huint modNet) ?_
    exact reads_pure _
  case modITermCreate name modITerm modBTerm parent =>
    refine reads_param debug (hname name (by simp [JournalOp.params])) ?_
    refine reads_param debug (huint modITerm) ?_
    refine reads_param debug (huint modBTerm) ?_
    refine reads_param debug (huint parent) ?_
    exact reads_pure _
  case modITermConnect modITerm modNet =>
    refine reads_param debug (huint modITerm) ?_
    refine reads_param debug (huint modNet) ?_
    exact reads_pure _
  case modITermDisconnect modITerm modNet =>
    refine reads_param debug (huint modITerm) ?_
    refine reads_param debug (huint modNet) ?_
    exact reads_pure _
  all_goals exact hmatched.elim

/-! ### Actions and journals -/

/-- The action is popped up to its end, and its index is the one it starts at. -/
theorem redoAction_eq {op : JournalOp} (h : op.RedoReads debug) {s : Source}
    (hs : s.Next (actionBytes debug op s.idx)) :
    redoAction debug otherField s =
      .ok (op.replay, s.skip (actionBytes debug op s.idx).length) := by
  have hread : Reads
      (popUchar debug >>= fun curAction =>
        handler debug otherField curAction >>= fun calls =>
          popUchar debug >>= fun endAction =>
            popUint debug >>= fun actionIdx =>
              if endAction ≠ Action.END_ACTION.code ∨ actionIdx ≠ UInt32.ofNat s.idx then
                throw (.critical 419)
              else pure calls)
      (actionBytes debug op s.idx) op.replay := by
    refine (reads_popUchar debug op.action.code).bind ?_
    refine (reads_handler otherField h).bind ?_
    refine (reads_popUchar debug Action.END_ACTION.code).bind ?_
    refine (reads_popUint debug (UInt32.ofNat s.idx)).bind_last ?_
    rw [if_neg (by simp)]
  exact hread s hs

/-- The bytes of actions one after the other, the first of which starts at `idx`. -/
def logBytes (debug : Bool) (idx : Nat) : List JournalOp → List UInt8
  | [] => []
  | op :: ops =>
      actionBytes debug op idx ++ logBytes debug (idx + (actionBytes debug op idx).length) ops

theorem actionBytes_pos (debug : Bool) (op : JournalOp) (idx : Nat) :
    0 < (actionBytes debug op idx).length := by
  have hcode : 0 < (DbJournalLog.push debug (.uchar op.action.code)).length := by
    rw [DbJournalLog.push, List.length_append, List.length_singleton]
    exact Nat.succ_pos _
  rw [actionBytes, List.length_append]
  exact Nat.add_pos_left hcode _

theorem length_le_logBytes (debug : Bool) (idx : Nat) (ops : List JournalOp) :
    ops.length ≤ (logBytes debug idx ops).length := by
  induction ops generalizing idx with
  | nil => exact Nat.le_refl 0
  | cons op ops ih =>
      have hpos := actionBytes_pos debug op idx
      have hrest := ih (idx + (actionBytes debug op idx).length)
      rw [logBytes, List.length_append, List.length_cons]
      omega

/-- Outside of an action, journaling operations appends their actions. -/
theorem journalAll_eq {J : DbJournal} (hstart : J.startAction = false) (ops : List JournalOp) :
    ∃ J', J.journalAll ops = .ok J' ∧ J'.log = J.log ++ logBytes J.debug J.log.length ops := by
  induction ops generalizing J with
  | nil => exact ⟨J, rfl, (List.append_nil _).symm⟩
  | cons op ops ih =>
      obtain ⟨J₁, hJ₁, hstart₁, hdebug, hlog⟩ := journal_eq hstart op
      obtain ⟨J', hJ', hlog'⟩ := ih hstart₁
      refine ⟨J', by rw [journalAll, hJ₁]; exact hJ', ?_⟩
      rw [hlog', hlog, hdebug, logBytes, List.append_assoc, List.length_append]

theorem redoLoop_eq {ops : List JournalOp} (hops : ∀ op ∈ ops, op.RedoReads debug) {fuel : Nat}
    (hfuel : ops.length ≤ fuel) {s : Source} (hidx : s.idx ≤ s.data.length)
    (hs : s.data.drop s.idx = logBytes debug s.idx ops) :
    redoLoop debug otherField fuel s =
      .ok (ops.flatMap JournalOp.replay, s.skip (logBytes debug s.idx ops).length) := by
  induction ops generalizing fuel s with
  | nil =>
      have hend : s.idx = s.data.length := by
        have hlen := congrArg List.length hs
        rw [List.length_drop, logBytes, List.length_nil] at hlen
        omega
      cases fuel with
      | zero => rfl
      | succ fuel =>
          change (if s.idx = s.data.length then pure [] else _ : Handler) s = _
          rw [if_pos hend]
          rfl
  | cons op ops ih =>
      obtain ⟨fuel, rfl⟩ : ∃ k, fuel = k + 1 := ⟨fuel - 1, by simp at hfuel; omega⟩
      rw [logBytes] at hs
      have hlen := congrArg List.length hs
      rw [List.length_drop, List.length_append] at hlen
      have hpos := actionBytes_pos debug op s.idx
      have hne : s.idx ≠ s.data.length := by omega
      have haction := redoAction_eq otherField (hops op List.mem_cons_self) (s := s) ⟨_, hs⟩
      set n := (actionBytes debug op s.idx).length with hn
      have hdrop : (s.skip n).data.drop (s.skip n).idx = logBytes debug (s.skip n).idx ops := by
        change s.data.drop (s.idx + n) = logBytes debug (s.idx + n) ops
        rw [← List.drop_drop, hs, hn, List.drop_left]
      have hrest := ih (fun op' hop' => hops op' (List.mem_cons_of_mem _ hop'))
        (Nat.le_of_succ_le_succ hfuel) (s := s.skip n)
        (by change s.idx + n ≤ s.data.length; omega) hdrop
      change (if s.idx = s.data.length then pure [] else _ : Handler) s = _
      rw [if_neg hne]
      change (redoAction debug otherField s).bind _ = _
      rw [haction]
      change (redoLoop debug otherField fuel (s.skip n)).bind _ = _
      rw [hrest, logBytes, List.length_append, List.flatMap_cons]
      change Except.ok (_, ((s.skip n).skip _)) = _
      rw [Source.skip_skip]
      rfl

/-- A journal of such actions is read to its end; each action ends where it is read to, with the
index it starts at, and the operations are performed again in their order. -/
theorem redo_journalAll (debug : Bool) (otherField : DbObjectType → Handler) (ops : List JournalOp)
    (hops : ∀ op ∈ ops, op.RedoReads debug) :
    ∃ J, (init debug).journalAll ops = .ok J ∧
      redo debug otherField J.log = .ok (ops.flatMap JournalOp.replay) := by
  obtain ⟨J, hJ, hlog⟩ := journalAll_eq (J := init debug) rfl ops
  have hlog' : J.log = logBytes debug 0 ops := hlog
  refine ⟨J, hJ, ?_⟩
  have hfuel : ops.length ≤ J.log.length := by
    rw [hlog']
    exact length_le_logBytes debug 0 ops
  have hloop := redoLoop_eq otherField hops hfuel (s := ⟨J.log, 0⟩) (Nat.zero_le _) hlog'
  rw [redo, hloop]
  rfl

/-- A net is created, connected and destroyed. -/
theorem redo_journalAll_net : ∃ J, (init false).journalAll
      [.netCreate ⟨[110], by decide⟩ 1, .itermConnect 4 1, .itermDisconnect 4 1 0,
        .netDestroy ⟨[110], by decide⟩ 1 0 0] = .ok J ∧
    redo false (fun _ => pure []) J.log =
      .ok [.netCreate [110], .itermConnect 4 1, .itermDisconnectDbNet 4, .netDestroy 1] :=
  redo_journalAll false (fun _ => pure [])
    [.netCreate ⟨[110], by decide⟩ 1, .itermConnect 4 1, .itermDisconnect 4 1 0,
      .netDestroy ⟨[110], by decide⟩ 1 0 0] (by decide)

/-- The handler does not pop the hierarchical net of a bterm. -/
theorem redo_btermConnect_error : ∃ J, (init false).journalAll [.btermConnectNet 1 2] = .ok J ∧
    redo false (fun _ => pure []) J.log = .error (.critical 419) :=
  ⟨_, rfl, rfl⟩

end DbJournal

end OpenRoad.Db

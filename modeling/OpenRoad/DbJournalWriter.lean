import OpenRoad.ByteReader

/-!
`dbJournalLog`, the bytes that the parameters of journaled actions are pushed on and popped off. In
debug mode each value is preceded by a byte for its type, and popping checks it.
-/

namespace OpenRoad.Db
open ByteReader

/-- Why the program ends: `logger->critical`, or an index out of the range of the data. -/
inductive JournalError where
  | critical (code : Nat)
  | outOfRange
  deriving DecidableEq

/-- `dbJournalLog::LogDataType` -/
inductive LogDataType where
  | LOG_BOOL | LOG_CHAR | LOG_UCHAR | LOG_INT | LOG_UINT | LOG_FLOAT | LOG_DOUBLE | LOG_STRING

def LogDataType.code : LogDataType → UInt8
  | .LOG_BOOL => 0
  | .LOG_CHAR => 1
  | .LOG_UCHAR => 2
  | .LOG_INT => 3
  | .LOG_UINT => 4
  | .LOG_FLOAT => 5
  | .LOG_DOUBLE => 6
  | .LOG_STRING => 7

/-- The characters of a C string. -/
structure CString where
  bytes : List UInt8
  noNul : (0 : UInt8) ∉ bytes
  deriving DecidableEq

/-- A value that is pushed, by the type that selects the overload. -/
inductive Param where
  | bool (b : Bool)
  | uchar (c : UInt8)
  | int (i : Int32)
  | uint (u : UInt32)
  /-- null, or the characters -/
  | string (s : Option CString)
  deriving DecidableEq

namespace DbJournalLog

variable (debug : Bool)

/-! ### Pushing -/

def setType (t : LogDataType) : List UInt8 := if debug then [t.code] else []

def pushInt (i : Int32) : List UInt8 := setType debug .LOG_INT ++ wordBytes i.toUInt32

/-- The bytes `dbJournalLog::push` appends; the length of a string is pushed as an `int`. -/
def push : Param → List UInt8
  | .bool b => setType debug .LOG_BOOL ++ [if b then 1 else 0]
  | .uchar c => setType debug .LOG_UCHAR ++ [c]
  | .int i => pushInt debug i
  | .uint u => setType debug .LOG_UINT ++ wordBytes u
  | .string none => setType debug .LOG_STRING ++ pushInt debug (-1)
  | .string (some s) =>
      setType debug .LOG_STRING ++ (pushInt debug (Int32.ofNat s.bytes.length) ++ s.bytes)

/-! ### Popping -/

def checkType (t : LogDataType) : Reader JournalError Unit :=
  if debug then do
    let b ← next .outOfRange
    if b = t.code then pure () else throw (.critical 426)
  else pure ()

def popBool : Reader JournalError Bool := do
  let _ ← checkType debug .LOG_BOOL
  let b ← next .outOfRange
  pure (b == 1)

def popUchar : Reader JournalError UInt8 := do
  let _ ← checkType debug .LOG_UCHAR
  next .outOfRange

def popInt : Reader JournalError Int32 := do
  let _ ← checkType debug .LOG_INT
  let w ← word .outOfRange
  pure w.toInt32

def popUint : Reader JournalError UInt32 := do
  let _ ← checkType debug .LOG_UINT
  word .outOfRange

/-- `pop(std::string&)`: a null pointer comes back as the empty string. -/
def popString : Reader JournalError (List UInt8) := do
  let _ ← checkType debug .LOG_STRING
  let len ← popInt debug
  if len = -1 then pure [] else take .outOfRange len.toInt.toNat

/-! ### What is pushed is popped -/

theorem reads_checkType (t : LogDataType) : Reads (checkType debug t) (setType debug t) () := by
  unfold checkType setType
  cases debug with
  | false => exact reads_pure ()
  | true =>
      have h := (reads_next JournalError.outOfRange t.code).bind
        (f := fun b => if b = t.code then pure () else throw (.critical 426)) (q := []) (b := ())
        (by rw [if_pos rfl]; exact reads_pure ())
      exact h

theorem reads_popBool (b : Bool) : Reads (popBool debug) (push debug (.bool b)) b := by
  refine (reads_checkType debug .LOG_BOOL).bind ?_
  have h := (reads_next JournalError.outOfRange (if b then 1 else 0)).bind_pure (f := fun b => b == 1)
  cases b <;> exact h

theorem reads_popUchar (c : UInt8) : Reads (popUchar debug) (push debug (.uchar c)) c :=
  (reads_checkType debug .LOG_UCHAR).bind (reads_next _ c)

theorem reads_popInt (i : Int32) : Reads (popInt debug) (push debug (.int i)) i := by
  have h := (reads_word JournalError.outOfRange i.toUInt32).bind_pure (f := UInt32.toInt32)
  rw [Int32.toInt32_toUInt32] at h
  exact (reads_checkType debug .LOG_INT).bind h

theorem reads_popUint (u : UInt32) : Reads (popUint debug) (push debug (.uint u)) u :=
  (reads_checkType debug .LOG_UINT).bind (reads_word _ u)

/-- The length of a string that fits an `int` comes back as it is. -/
theorem toInt_ofNat_length {n : Nat} (h : n < 2 ^ 31) : (Int32.ofNat n).toInt = n := by
  have hsize : Int32.size = 2 ^ 32 := rfl
  rw [Int32.toInt_ofNat']
  rw [Int.bmod_eq_of_le] <;> omega

theorem reads_popString (s : CString) (h : s.bytes.length < 2 ^ 31) :
    Reads (popString debug) (push debug (.string (some s))) s.bytes := by
  refine (reads_checkType debug .LOG_STRING).bind ((reads_popInt debug _).bind ?_)
  have hlen := toInt_ofNat_length h
  have hne : Int32.ofNat s.bytes.length ≠ -1 := by
    intro heq
    rw [heq] at hlen
    exact absurd hlen (by simp)
  rw [if_neg hne, hlen, Int.toNat_natCast]
  exact reads_take _ s.bytes

end DbJournalLog

end OpenRoad.Db

/-!
The actions that operations journal: between `beginAction` and `endAction` each operation pushes the
type of the object and its own parameters.
-/

namespace OpenRoad.Db
open ByteReader

/-- `dbJournal::Action` -/
inductive Action where
  | CREATE_OBJECT | DELETE_OBJECT | CONNECT_OBJECT | DISCONNECT_OBJECT | SWAP_OBJECT | UPDATE_FIELD
  | END_ACTION
  deriving DecidableEq

def Action.code : Action → UInt8
  | .CREATE_OBJECT => 0
  | .DELETE_OBJECT => 1
  | .CONNECT_OBJECT => 2
  | .DISCONNECT_OBJECT => 3
  | .SWAP_OBJECT => 4
  | .UPDATE_FIELD => 5
  | .END_ACTION => 6

/-- The types of `dbObjectType` that occur in the journal. -/
inductive DbObjectType where
  | dbBlockObj | dbInstObj | dbNetObj | dbBTermObj | dbITermObj | dbCapNodeObj | dbRSegObj
  | dbCCSegObj | dbGuideObj | dbModBTermObj | dbModInstObj | dbModITermObj | dbModNetObj
  | dbModuleObj | dbTechNonDefaultRuleObj | dbNameObj
  deriving DecidableEq

/-- The position in the enumeration. -/
def DbObjectType.code : DbObjectType → Int32
  | .dbBlockObj => 3
  | .dbInstObj => 5
  | .dbNetObj => 6
  | .dbBTermObj => 7
  | .dbITermObj => 8
  | .dbCapNodeObj => 17
  | .dbRSegObj => 18
  | .dbCCSegObj => 19
  | .dbGuideObj => 39
  | .dbModBTermObj => 47
  | .dbModInstObj => 48
  | .dbModITermObj => 49
  | .dbModNetObj => 50
  | .dbModuleObj => 51
  | .dbTechNonDefaultRuleObj => 91
  | .dbNameObj => 103

/-! ### `dbJournal` -/

structure DbJournal where
  /-- `_log`, in debug mode or not -/
  log : List UInt8
  debug : Bool
  startAction : Bool
  actionIdx : UInt32

namespace DbJournal

/-- A new journal. -/
def init (debug : Bool) : DbJournal := ⟨[], debug, false, 0⟩

def pushParam (J : DbJournal) (p : Param) : DbJournal :=
  { J with log := J.log ++ DbJournalLog.push J.debug p }

def beginAction (J : DbJournal) (action : Action) : Except JournalError DbJournal :=
  if J.startAction then .error (.critical 398)
  else .ok (pushParam { J with startAction := true, actionIdx := UInt32.ofNat J.log.length }
    (.uchar action.code))

/-- The index of the action allows the log to be scanned backwards. -/
def endAction (J : DbJournal) : DbJournal :=
  (pushParam { J with startAction := false } (.uchar Action.END_ACTION.code)).pushParam
    (.uint J.actionIdx)

end DbJournal

/-! ### Operations -/

/-- The operations that are journaled, with the data they push. -/
inductive JournalOp where
  | instCreate (lib master : UInt32) (name : CString) (inst : UInt32)
  | instDestroy (lib master : UInt32) (name : CString) (inst flags : UInt32) (x y : Int32)
      (group module region : UInt32)
  | instSwapMaster (inst oldLib oldMaster newLib newMaster : UInt32)
  | netCreate (name : CString) (net : UInt32)
  | netDestroy (name : CString) (net flags nonDefaultRule : UInt32)
  | netSwapNetNames (source dest : UInt32)
  | netSetNonDefaultRule (rule prevRule newRule : UInt32) (prevBlockRule blockRule : Bool)
  /-- `connect(dbNet*)`, `connect(dbModNet*)` -/
  | itermConnect (iterm net : UInt32)
  | itermConnectMod (iterm modNet : UInt32)
  | itermDisconnect (iterm net modNet : UInt32)
  | itermDisconnectDbNet (iterm net : UInt32)
  | itermDisconnectModNet (iterm modNet : UInt32)
  | btermCreate (net : UInt32) (name : CString)
  | btermDestroy (bterm : UInt32)
  | btermConnectNet (bterm net : UInt32)
  | btermConnectModNet (bterm modNet : UInt32)
  | btermDisconnectNet (bterm net : UInt32)
  | btermDisconnectModNet (bterm modNet : UInt32)
  | moduleCreate (name : CString) (module : UInt32)
  | moduleDestroy (name : CString) (module : UInt32)
  | modInstCreate (name : CString) (modInst module master : UInt32)
  | modInstDestroy (name : CString) (modInst module master group : UInt32)
  | modNetCreate (name : CString) (modNet parent : UInt32)
  | modNetDestroy (name : CString) (modNet module : UInt32)
  | modBTermCreate (name : CString) (modBTerm module : UInt32)
  | modBTermDestroy (name : CString) (modBTerm module : UInt32)
  | modBTermConnect (modBTerm modNet : UInt32)
  | modBTermDisconnect (modBTerm modNet : UInt32)
  /-- the id of the modbterm is 0 where there is none -/
  | modITermCreate (name : CString) (modITerm modBTerm parent : UInt32)
  | modITermDestroy (name : CString) (modITerm childModBTerm parent : UInt32)
  | modITermConnect (modITerm modNet : UInt32)
  | modITermDisconnect (modITerm modNet : UInt32)
  | guideCreate (guide : UInt32)
  | guideDestroy (net : UInt32) (xMin yMin xMax yMax : Int32) (layer viaLayer : UInt32)
      (isCongested : Bool)
  deriving DecidableEq

namespace JournalOp

def action : JournalOp → Action
  | .instCreate .. | .netCreate .. | .btermCreate .. | .moduleCreate .. | .modInstCreate ..
  | .modNetCreate .. | .modBTermCreate .. | .modITermCreate .. | .guideCreate .. => .CREATE_OBJECT
  | .instDestroy .. | .netDestroy .. | .btermDestroy .. | .moduleDestroy .. | .modInstDestroy ..
  | .modNetDestroy .. | .modBTermDestroy .. | .modITermDestroy .. | .guideDestroy .. =>
      .DELETE_OBJECT
  | .itermConnect .. | .itermConnectMod .. | .btermConnectNet .. | .btermConnectModNet ..
  | .modBTermConnect .. | .modITermConnect .. => .CONNECT_OBJECT
  | .itermDisconnect .. | .itermDisconnectDbNet .. | .itermDisconnectModNet ..
  | .btermDisconnectNet .. | .btermDisconnectModNet .. | .modBTermDisconnect ..
  | .modITermDisconnect .. => .DISCONNECT_OBJECT
  | .instSwapMaster .. | .netSwapNetNames .. => .SWAP_OBJECT
  | .netSetNonDefaultRule .. => .UPDATE_FIELD

/-- The type of the object, which is pushed first; the names of two nets are swapped as a name, and
changing the rule of a net is journaled for the rule. -/
def objType : JournalOp → DbObjectType
  | .instCreate .. | .instDestroy .. | .instSwapMaster .. => .dbInstObj
  | .netCreate .. | .netDestroy .. => .dbNetObj
  | .netSwapNetNames .. => .dbNameObj
  | .netSetNonDefaultRule .. => .dbTechNonDefaultRuleObj
  | .itermConnect .. | .itermConnectMod .. | .itermDisconnect .. | .itermDisconnectDbNet ..
  | .itermDisconnectModNet .. => .dbITermObj
  | .btermCreate .. | .btermDestroy .. | .btermConnectNet .. | .btermConnectModNet ..
  | .btermDisconnectNet .. | .btermDisconnectModNet .. => .dbBTermObj
  | .moduleCreate .. | .moduleDestroy .. => .dbModuleObj
  | .modInstCreate .. | .modInstDestroy .. => .dbModInstObj
  | .modNetCreate .. | .modNetDestroy .. => .dbModNetObj
  | .modBTermCreate .. | .modBTermDestroy .. | .modBTermConnect .. | .modBTermDisconnect .. =>
      .dbModBTermObj
  | .modITermCreate .. | .modITermDestroy .. | .modITermConnect .. | .modITermDisconnect .. =>
      .dbModITermObj
  | .guideCreate .. | .guideDestroy .. => .dbGuideObj

/-- `_dbNet::NON_DEFAULT_RULE` -/
def nonDefaultRuleField : Int32 := 1

/-- The parameters after the type, as each operation pushes them. -/
def params : JournalOp → List Param
  | .instCreate lib master name inst => [.uint lib, .uint master, .string (some name), .uint inst]
  | .instDestroy lib master name inst flags x y group module region =>
      [.uint lib, .uint master, .string (some name), .uint inst, .uint flags, .int x, .int y,
        .uint group, .uint module, .uint region]
  | .instSwapMaster inst oldLib oldMaster newLib newMaster =>
      [.uint inst, .uint oldLib, .uint oldMaster, .uint newLib, .uint newMaster]
  | .netCreate name net => [.string (some name), .uint net]
  | .netDestroy name net flags nonDefaultRule =>
      [.string (some name), .uint net, .uint flags, .uint nonDefaultRule]
  | .netSwapNetNames source dest => [.int DbObjectType.dbNetObj.code, .uint source, .uint dest]
  | .netSetNonDefaultRule rule prevRule newRule prevBlockRule blockRule =>
      [.uint rule, .int nonDefaultRuleField, .uint prevRule, .uint newRule, .bool prevBlockRule,
        .bool blockRule]
  -- the other net is a zero of type `int` here, but `0U` in the actions of a bterm
  | .itermConnect iterm net => [.uint iterm, .uint net, .int 0]
  | .itermConnectMod iterm modNet => [.uint iterm, .int 0, .uint modNet]
  | .itermDisconnect iterm net modNet => [.uint iterm, .uint net, .uint modNet]
  | .itermDisconnectDbNet iterm net => [.uint iterm, .uint net, .int 0]
  | .itermDisconnectModNet iterm modNet => [.uint iterm, .int 0, .uint modNet]
  | .btermCreate net name => [.uint net, .string (some name)]
  | .btermDestroy bterm => [.uint bterm]
  | .btermConnectNet bterm net => [.uint bterm, .uint net, .uint 0]
  | .btermConnectModNet bterm modNet => [.uint bterm, .uint 0, .uint modNet]
  | .btermDisconnectNet bterm net => [.uint bterm, .uint net, .uint 0]
  | .btermDisconnectModNet bterm modNet => [.uint bterm, .uint 0, .uint modNet]
  | .moduleCreate name module => [.string (some name), .uint module]
  | .moduleDestroy name module => [.string (some name), .uint module]
  | .modInstCreate name modInst module master =>
      [.string (some name), .uint modInst, .uint module, .uint master]
  | .modInstDestroy name modInst module master group =>
      [.string (some name), .uint modInst, .uint module, .uint master, .uint group]
  | .modNetCreate name modNet parent => [.string (some name), .uint modNet, .uint parent]
  | .modNetDestroy name modNet module => [.string (some name), .uint modNet, .uint module]
  | .modBTermCreate name modBTerm module => [.string (some name), .uint modBTerm, .uint module]
  | .modBTermDestroy name modBTerm module => [.string (some name), .uint modBTerm, .uint module]
  | .modBTermConnect modBTerm modNet => [.uint modBTerm, .uint modNet]
  | .modBTermDisconnect modBTerm modNet => [.uint modBTerm, .uint modNet]
  | .modITermCreate name modITerm modBTerm parent =>
      [.string (some name), .uint modITerm, .uint modBTerm, .uint parent]
  | .modITermDestroy name modITerm childModBTerm parent =>
      [.string (some name), .uint modITerm, .uint childModBTerm, .uint parent]
  | .modITermConnect modITerm modNet => [.uint modITerm, .uint modNet]
  | .modITermDisconnect modITerm modNet => [.uint modITerm, .uint modNet]
  | .guideCreate guide => [.uint guide]
  | .guideDestroy net xMin yMin xMax yMax layer viaLayer isCongested =>
      [.uint net, .int xMin, .int yMin, .int xMax, .int yMax, .uint layer, .uint viaLayer,
        .bool isCongested]

end JournalOp

namespace DbJournal

/-- Journal an operation. -/
def journal (J : DbJournal) (op : JournalOp) : Except JournalError DbJournal := do
  let J ← J.beginAction op.action
  let J := (Param.int op.objType.code :: op.params).foldl pushParam J
  pure J.endAction

/-- Journal operations one after the other. -/
def journalAll (J : DbJournal) : List JournalOp → Except JournalError DbJournal
  | [] => .ok J
  | op :: ops => do
      let J ← J.journal op
      journalAll J ops

/-! ### The bytes of an action -/

/-- The bytes of parameters one after the other. -/
def bytes (debug : Bool) (ps : List Param) : List UInt8 := ps.flatMap (DbJournalLog.push debug)

theorem foldl_pushParam (J : DbJournal) (ps : List Param) :
    ps.foldl pushParam J = { J with log := J.log ++ bytes J.debug ps } := by
  induction ps generalizing J with
  | nil => simp [bytes]
  | cons p ps ih =>
      rw [List.foldl_cons, ih]
      simp [bytes, pushParam]

/-- The bytes of the action of an operation that starts at `idx`. -/
def actionBytes (debug : Bool) (op : JournalOp) (idx : Nat) : List UInt8 :=
  DbJournalLog.push debug (.uchar op.action.code) ++
    (bytes debug (Param.int op.objType.code :: op.params) ++
      (DbJournalLog.push debug (.uchar Action.END_ACTION.code) ++
        DbJournalLog.push debug (.uint (UInt32.ofNat idx))))

/-- Outside of an action, journaling an operation appends its action. -/
theorem journal_eq {J : DbJournal} (hstart : J.startAction = false) (op : JournalOp) :
    ∃ J', J.journal op = .ok J' ∧ J'.startAction = false ∧ J'.debug = J.debug ∧
      J'.log = J.log ++ actionBytes J.debug op J.log.length := by
  set J₁ := pushParam { J with startAction := true, actionIdx := UInt32.ofNat J.log.length }
    (.uchar op.action.code) with hJ₁
  have hbegin : J.beginAction op.action = .ok J₁ := by
    unfold beginAction
    rw [hstart]
    rfl
  refine ⟨((Param.int op.objType.code :: op.params).foldl pushParam J₁).endAction, ?_, rfl, ?_, ?_⟩
  · rw [journal, hbegin]
    rfl
  · rw [foldl_pushParam]
    rfl
  · rw [foldl_pushParam]
    simp [hJ₁, endAction, pushParam, actionBytes, List.append_assoc]

end DbJournal

end OpenRoad.Db

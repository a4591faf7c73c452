import OpenRoad.DbJournalWriter
import Mathlib.Data.List.TakeWhile

/-!
The framing of the journal. An action has no length in front; it ends with a mark and the index it
started at. Going forward, `dbJournal::redo` relies on each handler to pop what was pushed; going
backward, `dbJournal::undo` finds the start of an action from the four bytes at its end. The position
in the log is an `int`, which ends what can be read at 2 GiB.
-/

namespace OpenRoad.Db
open ByteReader DbJournalLog

/-! ### Values of all types -/

/-- A value of a type that `dbJournalLog::push` is overloaded for. A floating point number is given by
its bytes, as one or two words. -/
inductive LogValue where
  | param (p : Param)
  | char (c : UInt8)
  | float (w : UInt32)
  | double (w₀ w₁ : UInt32)
  deriving DecidableEq

/-- A C string ends at its first null. -/
def CString.ofBytes (bytes : List UInt8) : CString where
  bytes := bytes.takeWhile (· ≠ 0)
  noNul := fun h => by simpa using List.mem_takeWhile_imp h

namespace LogValue

variable (debug : Bool)

def type : LogValue → LogDataType
  | .param (.bool _) => .LOG_BOOL
  | .param (.uchar _) => .LOG_UCHAR
  | .param (.int _) => .LOG_INT
  | .param (.uint _) => .LOG_UINT
  | .param (.string _) => .LOG_STRING
  | .char _ => .LOG_CHAR
  | .float _ => .LOG_FLOAT
  | .double _ _ => .LOG_DOUBLE

/-- The bytes `dbJournalLog::push` appends. -/
def push : LogValue → List UInt8
  | .param p => DbJournalLog.push debug p
  | .char c => setType debug .LOG_CHAR ++ [c]
  | .float w => setType debug .LOG_FLOAT ++ wordBytes w
  | .double w₀ w₁ => setType debug .LOG_DOUBLE ++ (wordBytes w₀ ++ wordBytes w₁)

def pushAll (vs : List LogValue) : List UInt8 := vs.flatMap (push debug)

/-- `pop(char*&)`: there is no memory for a negative number of characters. -/
def popCharPtr : Reader JournalError LogValue := do
  let _ ← checkType debug .LOG_STRING
  let len ← popInt debug
  if len = -1 then pure (.param (.string none))
  else if len.toInt < 0 then throw .outOfRange
  else do
    let bs ← take .outOfRange len.toInt.toNat
    pure (.param (.string (some (CString.ofBytes bs))))

/-- `dbJournalLog::pop`, by the type that selects the overload. -/
def pop : LogDataType → Reader JournalError LogValue
  | .LOG_BOOL => do
      let b ← popBool debug
      pure (.param (.bool b))
  | .LOG_CHAR => do
      let _ ← checkType debug .LOG_CHAR
      let c ← next .outOfRange
      pure (.char c)
  | .LOG_UCHAR => do
      let c ← popUchar debug
      pure (.param (.uchar c))
  | .LOG_INT => do
      let i ← popInt debug
      pure (.param (.int i))
  | .LOG_UINT => do
      let u ← popUint debug
      pure (.param (.uint u))
  | .LOG_FLOAT => do
      let _ ← checkType debug .LOG_FLOAT
      let w ← word .outOfRange
      pure (.float w)
  | .LOG_DOUBLE => do
      let _ ← checkType debug .LOG_DOUBLE
      let w₀ ← word .outOfRange
      let w₁ ← word .outOfRange
      pure (.double w₀ w₁)
  | .LOG_STRING => popCharPtr debug

end LogValue

/-- `_idx` is an `int`: it cannot be incremented past the greatest one. -/
def counted {α : Type} (m : Reader JournalError α) : Reader JournalError α := fun s =>
  match m s with
  | .error e => .error e
  | .ok (a, s') => if s.idx < 2 ^ 31 ∧ 2 ^ 31 ≤ s'.idx then .error .outOfRange else .ok (a, s')

/-- Pop values of the given types one after the other. -/
def popAll (debug : Bool) : List LogDataType → Reader JournalError (List LogValue)
  | [] => pure []
  | t :: ts => do
      let v ← counted (LogValue.pop debug t)
      let vs ← popAll debug ts
      pure (v :: vs)

/-! ### Writing actions -/

/-- An action with its parameters; `END_ACTION` is not an action but ends one. -/
structure LogAction where
  action : Action
  params : List LogValue
  notEnd : action ≠ .END_ACTION

namespace DbJournal

def pushValue (J : DbJournal) (v : LogValue) : DbJournal := { J with log := J.log ++ v.push J.debug }

/-- `beginAction`, the parameters, `endAction` -/
def logAction (J : DbJournal) (r : LogAction) : Except JournalError DbJournal := do
  let J ← J.beginAction r.action
  pure (r.params.foldl pushValue J).endAction

def logAll (J : DbJournal) : List LogAction → Except JournalError DbJournal
  | [] => .ok J
  | r :: rs => do
      let J ← J.logAction r
      logAll J rs

/-! ### Scanning -/

/-- An action as a scan finds it: where it starts, its code, and what its handler popped. -/
structure Visit where
  start : Nat
  action : UInt8
  values : List LogValue
  deriving DecidableEq

variable (debug : Bool) (handler : UInt8 → Reader JournalError (List LogValue))

/-- The loop of `dbJournal::redo`, at most `fuel` times. -/
def redoScan : Nat → Reader JournalError (List Visit)
  | 0 => throw .outOfRange
  | fuel + 1 => do
      let s ← get
      if s.idx % 2 ^ 32 = s.data.length % 2 ^ 32 then pure []
      else do
        let curAction ← counted (popUchar debug)
        let values ← if curAction = Action.END_ACTION.code then throw (.critical 399)
          else handler curAction
        let endAction ← counted (popUchar debug)
        let actionIdx ← counted (popUint debug)
        if endAction ≠ Action.END_ACTION.code ∨ actionIdx ≠ UInt32.ofNat s.idx then
          throw (.critical 419)
        else do
          let rest ← redoScan fuel
          pure (⟨s.idx, curAction, values⟩ :: rest)

/-- `dbJournal::redo`; each pass takes bytes, so there are not more passes than bytes. -/
def redoVisits (log : List UInt8) : Except JournalError (List Visit) :=
  (redoScan debug handler (log.length + 1) ⟨log, 0⟩).map Prod.fst

/-- `dbJournalLog::moveBackOneInt` -/
def moveBackOneInt (idx : Nat) : Nat := (idx + 2 ^ 32 - if debug then 5 else 4) % 2 ^ 32

/-- The loop of `dbJournal::undo`, at most `fuel` times. -/
def undoScan : Nat → Reader JournalError (List Visit)
  | 0 => throw .outOfRange
  | fuel + 1 => do
      let actionIdx ← counted (popUint debug)
      modify fun s => { s with idx := actionIdx.toNat }
      let curAction ← counted (popUchar debug)
      let values ← if curAction = Action.END_ACTION.code then pure [] else handler curAction
      if actionIdx = 0 then pure [⟨actionIdx.toNat, curAction, values⟩]
      else do
        modify fun s => { s with idx := moveBackOneInt debug actionIdx.toNat }
        let rest ← undoScan fuel
        pure (⟨actionIdx.toNat, curAction, values⟩ :: rest)

/-- `dbJournal::undo` -/
def undoVisits (log : List UInt8) : Except JournalError (List Visit) :=
  if log = [] then .ok []
  else (undoScan debug handler log.length
    ⟨log, moveBackOneInt debug (log.length % 2 ^ 32)⟩).map Prod.fst

end DbJournal

end OpenRoad.Db

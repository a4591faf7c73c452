import OpenRoad.DftArchitect
import Mathlib.Logic.Function.Basic

/-!
Stitching: the ports of every chain are found or created, and the cells of the chain are connected
from scan-out to scan-in. A connection puts the load on the net of the driver.
-/

namespace OpenRoad.Dft

inductive IoType where
  | input
  | output
  | inout
  | feedthru
  deriving DecidableEq

/-- `ScanPin`: a pin of an instance or a port of the block, which its name identifies. -/
inductive Term where
  | iterm (pin : ITerm)
  | bterm (name : String)
  deriving DecidableEq

def Term.getName : Term → String
  | iterm pin => pin.inst ++ "/" ++ pin.mterm
  | bterm name => name

/-- The block: its instances and their pins, the ports, the names of the nets, and what is
connected. -/
structure Block where
  insts : String → Bool
  iterms : ITerm → Option IoType
  bterms : List (String × IoType)
  netNames : List String
  nextNet : Nat
  netOf : Term → Option Nat

/-- What ends a run: an error of the logger, or an iterator past the end that is dereferenced. -/
inductive StitchFault where
  | error (id : Nat) (name : String)
  | pastEnd
  deriving DecidableEq

structure ScanStitchConfig where
  enableName : String
  inName : Nat → String
  outName : Nat → String

namespace Block

variable (block : Block)

def findBTerm (name : String) : Option (String × IoType) := block.bterms.find? fun b => b.1 = name

/-- `connect` of a term. -/
def connect (term : Term) (net : Nat) : Block :=
  { block with netOf := Function.update block.netOf term (some net) }

/-- `dbNet::create`; a net of this name may exist. -/
def createNet (name : String) (fault : StitchFault) : Except StitchFault (Nat × Block) :=
  if name ∈ block.netNames then .error fault
  else .ok (block.nextNet,
    { block with netNames := name :: block.netNames, nextNet := block.nextNet + 1 })

/-- `CreateNewPort` -/
def createNewPort (name : String) (ioType : IoType) : Except StitchFault (Term × Block) := do
  let (net, block) ← block.createNet name (.error 31 name)
  if (block.findBTerm name).isSome then
    throw (.error 18 name)
  return (.bterm name, { block.connect (.bterm name) net with
    bterms := block.bterms ++ [(name, ioType)] })

end Block

/-- `SplitTermIdentifier`: at the first slash without a backslash before it. -/
def splitTermIdentifier (escaped : Bool) : List Char → Option (List Char × List Char)
  | [] => none
  | c :: cs =>
      if c = '/' && !escaped then some ([], cs)
      else (splitTermIdentifier (c = '\\') cs).map fun term => (c :: term.1, term.2)

/-- An instance pin of a kind; `ids` are those of the errors. -/
def findITerm (block : Block) (ids : Nat × Nat × Nat) (ioType : IoType) (inst mterm : String) :
    Except StitchFault Term :=
  if block.insts inst = false then .error (.error ids.1 inst)
  else
    match block.iterms ⟨inst, mterm⟩ with
    | none => .error (.error ids.2.1 (inst ++ "/" ++ mterm))
    | some found =>
        if found ≠ ioType then .error (.error ids.2.2 (inst ++ "/" ++ mterm))
        else .ok (.iterm ⟨inst, mterm⟩)

def findOrCreateDriver (block : Block) (name : String) : Except StitchFault (Term × Block) :=
  match splitTermIdentifier false name.toList with
  | some (inst, mterm) =>
      (findITerm block (34, 35, 36) .output (String.ofList inst) (String.ofList mterm)).map (·, block)
  | none =>
      match block.findBTerm name with
      | some bterm => .ok (.bterm bterm.1, block)
      | none => block.createNewPort name .input

def findOrCreateScanOut (block : Block) (cellScanOut : Term) (name : String) :
    Except StitchFault (Term × Block) :=
  match splitTermIdentifier false name.toList with
  | some (inst, mterm) =>
      (findITerm block (37, 38, 39) .input (String.ofList inst) (String.ofList mterm)).map (·, block)
  | none =>
      match block.findBTerm name with
      | some bterm =>
          if bterm.2 ≠ .output then .error (.error 40 name) else .ok (.bterm bterm.1, block)
      | none =>
          -- an output port on the scan-out net is reused
          match (block.netOf cellScanOut).bind fun net => block.bterms.find? fun bterm =>
              bterm.2 = .output && block.netOf (.bterm bterm.1) = some net with
          | some bterm => .ok (.bterm bterm.1, block)
          | none => block.createNewPort name .output

/-- `ScanCell::Connect` -/
def connect (block : Block) (load driver : Term) (preserve : Bool) : Except StitchFault Block :=
  match block.netOf driver with
  | some net => .ok (block.connect load net)
  | none =>
      match if preserve then block.netOf load else none with
      | some net => .ok (block.connect driver net)
      | none => do
          let (net, block) ← block.createNet driver.getName (.error 30 driver.getName)
          return (block.connect driver net).connect load net

namespace ScanCell

variable (cell : ScanCell) (block : Block)

def connectScanEnable (driver : Term) : Except StitchFault Block :=
  connect block (.iterm cell.scanEnable) driver false

def connectScanIn (driver : Term) : Except StitchFault Block :=
  connect block (.iterm cell.scanIn) driver false

/-- The scan-out usually has functional connections, which are preserved. -/
def connectScanOut (load : Term) : Except StitchFault Block :=
  connect block load (.iterm cell.scanOut) true

def getScanOut : Term := .iterm cell.scanOut

end ScanCell

/-- The loop over the cells that are left in the deque: at the last one the next is past the end. -/
def stitchMiddle : List ScanCell → Block → Except StitchFault Block
  | [], block => .ok block
  | [_], _ => .error .pastEnd
  | current :: next :: rest, block => do
      let block ← next.connectScanIn block current.getScanOut
      stitchMiddle (next :: rest) block

/-- The ports that a chain gets. -/
structure StitchedChain where
  cells : List ScanCell
  scanIn : Term
  scanEnable : Term
  scanOut : Term

/-- The connections of a chain from its first to its last cell. -/
def stitchCells (first last : ScanCell) (middle : List ScanCell) (scanEnable scanIn : Term)
    (block : Block) : Except StitchFault Block := do
  let block ← stitchMiddle middle block
  let block ← first.connectScanEnable block scanEnable
  let block ← first.connectScanIn block scanIn
  match middle with
  | second :: _ => second.connectScanIn block first.getScanOut
  | [] => if last ≠ first then last.connectScanIn block first.getScanOut else return block

/-- `Stitch` of one chain, as far as its cells are connected; the first and the last one of an empty
deque are past the end. -/
def stitchPath (config : ScanStitchConfig) (block : Block) (scanCells : List ScanCell)
    (ordinal : Nat) : Except StitchFault (Term × Term × ScanCell × Block) := do
  let (scanEnable, block) ← findOrCreateDriver block config.enableName
  let (scanIn, block) ← findOrCreateDriver block (config.inName ordinal)
  let block ← scanCells.foldlM (fun block cell => cell.connectScanEnable block scanEnable) block
  match scanCells.head?, scanCells.getLast? with
  | some first, some last =>
      let block ← stitchCells first last scanCells.tail.dropLast scanEnable scanIn block
      return (scanEnable, scanIn, last, block)
  | _, _ => throw .pastEnd

/-- `Stitch` of one chain. -/
def stitchChain (config : ScanStitchConfig) (block : Block) (scanCells : List ScanCell)
    (ordinal : Nat) : Except StitchFault (StitchedChain × Block) := do
  let (scanEnable, scanIn, last, block) ← stitchPath config block scanCells ordinal
  let (scanOut, block) ← findOrCreateScanOut block last.getScanOut (config.outName ordinal)
  let block ← last.connectScanOut block scanOut
  return (⟨scanCells, scanIn, scanEnable, scanOut⟩, block)

/-- `Stitch` of all chains from an ordinal on. -/
def stitch (config : ScanStitchConfig) : List (List ScanCell) → Nat → Block →
    Except StitchFault (List StitchedChain × Block)
  | [], _, block => .ok ([], block)
  | scanCells :: rest, ordinal, block => do
      let (chain, block) ← stitchChain config block scanCells ordinal
      let (chains, block) ← stitch config rest (ordinal + 1) block
      return (chain :: chains, block)

end OpenRoad.Dft

/-!
The shift path of a chain. A connection keeps the ones made before it when its load is not one of
their terms, so a chain of one or two cells gets its whole path; a chain of three or more cells and
one without cells step past the end of their deque.
-/

namespace OpenRoad.Dft

/-- Driver and load are on one net. -/
def Drives (block : Block) (driver load : Term) : Prop :=
  ∃ net, block.netOf driver = some net ∧ block.netOf load = some net

/-- A wire list uses a term. -/
def Uses (wires : List (Term × Term)) (term : Term) : Prop :=
  ∃ wire ∈ wires, term = wire.1 ∨ term = wire.2

/-- A port exists; a pin is taken to exist. -/
def Block.Has (block : Block) (term : Term) : Prop :=
  ∀ name, term = .bterm name → block.findBTerm name ≠ none

/-- Every scan cell has pins of its own. -/
structure ScanPins (cells : List ScanCell) (iterms : ITerm → Option IoType) : Prop where
  scanIn : ∀ a ∈ cells, ∀ b ∈ cells, a.scanIn = b.scanIn → a = b
  scanOut : ∀ a ∈ cells, ∀ b ∈ cells, a.scanOut = b.scanOut → a = b
  scanEnable : ∀ a ∈ cells, ∀ b ∈ cells, a.scanEnable = b.scanEnable → a = b
  disjoint : ∀ a ∈ cells, ∀ b ∈ cells, a.scanIn ≠ b.scanEnable
  types : ∀ a ∈ cells, iterms a.scanIn = some .input ∧ iterms a.scanEnable = some .input ∧
    iterms a.scanOut = some .output

/-- The wires made so far are there, and the scan-outs of the cells are on nets of their own. -/
structure Wired (cells : List ScanCell) (iterms : ITerm → Option IoType) (block : Block)
    (wires : List (Term × Term)) : Prop where
  pins : ScanPins cells iterms
  static : block.iterms = iterms
  drives : ∀ wire ∈ wires, Drives block wire.1 wire.2
  fresh : ∀ term net, block.netOf term = some net → net < block.nextNet
  absent : ∀ name, block.findBTerm name = none → block.netOf (.bterm name) = none
  apart : ∀ a ∈ cells, ∀ b ∈ cells, ∀ net, block.netOf (.iterm a.scanOut) = some net →
    block.netOf (.iterm b.scanOut) = some net → a = b

variable {cells : List ScanCell} {iterms : ITerm → Option IoType} {block block' : Block}
  {wires : List (Term × Term)}

theorem Drives.of_netOf {driver load : Term} (h : Drives block driver load)
    (hdriver : block'.netOf driver = block.netOf driver)
    (hload : block'.netOf load = block.netOf load) : Drives block' driver load := by
  obtain ⟨net, hnet, hnet'⟩ := h
  exact ⟨net, hdriver.trans hnet, hload.trans hnet'⟩

theorem Drives.ne_of_none {driver load term : Term} (h : Drives block driver load)
    (hnone : block.netOf term = none) : driver ≠ term ∧ load ≠ term := by
  obtain ⟨net, hdriver, hload⟩ := h
  constructor
  · rintro rfl
    rw [hnone] at hdriver
    cases hdriver
  · rintro rfl
    rw [hnone] at hload
    cases hload

namespace Wired

/-- A term that no wire uses may be put on a net, unless it is a scan-out and another one is
there. -/
theorem put (h : Wired cells iterms block wires) {term : Term} {net : Nat}
    (hunused : ¬Uses wires term) (hhas : block.Has term) (hnet : net < block.nextNet)
    (hout : ∀ a ∈ cells, term = .iterm a.scanOut → ∀ b ∈ cells,
      block.netOf (.iterm b.scanOut) ≠ some net) :
    Wired cells iterms (block.connect term net) wires := by
  have hother : ∀ {other}, other ≠ term → (block.connect term net).netOf other = block.netOf other :=
    fun hne => Function.update_of_ne hne ..
  have hself : (block.connect term net).netOf term = some net := Function.update_self ..
  refine ⟨h.pins, h.static, fun wire hwire => ?_, fun other n hn => ?_, fun name hname => ?_,
    fun a ha b hb n han hbn => ?_⟩
  · exact (h.drives wire hwire).of_netOf
      (hother fun heq => hunused ⟨wire, hwire, Or.inl heq.symm⟩)
      (hother fun heq => hunused ⟨wire, hwire, Or.inr heq.symm⟩)
  · show n < block.nextNet
    by_cases heq : other = term
    · rw [heq, hself] at hn
      rw [← Option.some.inj hn]
      exact hnet
    · rw [hother heq] at hn
      exact h.fresh other n hn
  · have hne : Term.bterm name ≠ term := fun heq => hhas name heq.symm hname
    rw [hother hne]
    exact h.absent name hname
  · by_cases hterma : Term.iterm a.scanOut = term
    · by_cases htermb : Term.iterm b.scanOut = term
      · exact h.pins.scanOut a ha b hb (Term.iterm.inj (hterma.trans htermb.symm))
      · rw [hterma, hself] at han
        rw [hother htermb] at hbn
        rw [← Option.some.inj han] at hbn
        exact absurd hbn (hout a ha hterma.symm b hb)
    · by_cases htermb : Term.iterm b.scanOut = term
      · rw [htermb, hself] at hbn
        rw [hother hterma] at han
        rw [← Option.some.inj hbn] at han
        exact absurd han (hout b hb htermb.symm a ha)
      · rw [hother hterma] at han
        rw [hother htermb] at hbn
        exact h.apart a ha b hb n han hbn

/-- A wire is added once driver and load are on one net. -/
theorem add (h : Wired cells iterms block wires) {driver load : Term} (hdrives : Drives block driver load) :
    Wired cells iterms block ((driver, load) :: wires) where
  pins := h.pins
  static := h.static
  drives := fun wire hwire => (List.mem_cons.mp hwire).elim (fun heq => heq ▸ hdrives) (h.drives wire)
  fresh := h.fresh
  absent := h.absent
  apart := h.apart

/-- A new net. -/
theorem createNet (h : Wired cells iterms block wires) {name : String} {fault : StitchFault} {net : Nat}
    (hrun : block.createNet name fault = .ok (net, block')) :
    Wired cells iterms block' wires ∧ net < block'.nextNet ∧ (∀ term, block'.netOf term ≠ some net) ∧
      block'.netOf = block.netOf ∧ block'.bterms = block.bterms := by
  unfold Block.createNet at hrun
  split at hrun
  · cases hrun
  · cases hrun
    refine ⟨⟨h.pins, h.static, h.drives, fun term n hn => ?_, h.absent, h.apart⟩, Nat.lt_succ_self _,
      fun term hterm => ?_, rfl, rfl⟩
    · exact Nat.lt_succ_of_lt (h.fresh term n hn)
    · exact absurd (h.fresh term _ hterm) (Nat.lt_irrefl _)

theorem unused_of_none (h : Wired cells iterms block wires) {term : Term} (hnone : block.netOf term = none) :
    ¬Uses wires term := by
  rintro ⟨wire, hwire, heq⟩
  have hne := (h.drives wire hwire).ne_of_none hnone
  exact heq.elim (fun heq => hne.1 heq.symm) fun heq => hne.2 heq.symm

end Wired

theorem connect_ok_bterms {load driver : Term} {preserve : Bool}
    (hrun : connect block load driver preserve = .ok block') : block'.bterms = block.bterms := by
  unfold connect at hrun
  split at hrun
  · cases hrun
    rfl
  · split at hrun
    · cases hrun
      rfl
    · cases hcreate : block.createNet driver.getName (.error 30 driver.getName) with
      | error fault =>
          rw [hcreate] at hrun
          cases hrun
      | ok created =>
          rw [hcreate] at hrun
          cases hrun
          unfold Block.createNet at hcreate
          split at hcreate
          · cases hcreate
          · cases hcreate
            rfl

/-- A connection with a load that no wire uses. -/
theorem Wired.connected (h : Wired cells iterms block wires) {load driver : Term} {preserve : Bool}
    (hload : ¬Uses wires load) (hhas : block.Has load) (hhas' : block.Has driver)
    (hout : ∀ a ∈ cells, load ≠ .iterm a.scanOut)
    (hpreserve : preserve = true → block.netOf driver = none → ∀ net, block.netOf load = some net →
      ∀ a ∈ cells, block.netOf (.iterm a.scanOut) ≠ some net)
    (hrun : connect block load driver preserve = .ok block') :
    Wired cells iterms block' ((driver, load) :: wires) := by
  unfold Dft.connect at hrun
  split at hrun
  · rename_i net hdriver
    cases hrun
    have hconnect := h.put hload hhas (h.fresh _ _ hdriver) fun a ha heq => absurd heq (hout a ha)
    refine hconnect.add ⟨net, ?_, Function.update_self ..⟩
    by_cases heq : driver = load
    · rw [heq]
      exact Function.update_self ..
    · exact (Function.update_of_ne heq ..).trans hdriver
  · rename_i hdriver
    split at hrun
    · rename_i net hnet
      cases hrun
      cases hcase : preserve with
      | false =>
          rw [hcase] at hnet
          cases hnet
      | true =>
          rw [hcase, if_pos rfl] at hnet
          have hconnect := h.put (h.unused_of_none hdriver) hhas' (h.fresh _ _ hnet)
            fun a _ _ => hpreserve hcase hdriver net hnet
          refine hconnect.add ⟨net, Function.update_self .., ?_⟩
          have hne : load ≠ driver := by
            rintro rfl
            rw [hdriver] at hnet
            cases hnet
          exact (Function.update_of_ne hne ..).trans hnet
    · cases hcreate : block.createNet driver.getName (.error 30 driver.getName) with
      | error fault =>
          rw [hcreate] at hrun
          cases hrun
      | ok created =>
          obtain ⟨net, created⟩ := created
          rw [hcreate] at hrun
          cases hrun
          obtain ⟨hcreated, hlt, hfresh, hnets, hbterms⟩ := h.createNet hcreate
          have hhasCreated : ∀ {term}, block.Has term → created.Has term := by
            intro term hterm name heq
            unfold Block.findBTerm
            rw [hbterms]
            exact hterm name heq
          have hdriven := hcreated.put (h.unused_of_none hdriver) (hhasCreated hhas') hlt
            fun a _ _ b _ => hfresh _
          have hloaded := hdriven.put hload (hhasCreated hhas) hlt
            fun a ha heq => absurd heq (hout a ha)
          refine hloaded.add ⟨net, ?_, Function.update_self ..⟩
          by_cases heq : driver = load
          · rw [heq]
            exact Function.update_self ..
          · exact (Function.update_of_ne heq ..).trans (Function.update_self ..)

/-- A connection made before changes nothing. -/
theorem Wired.connected_again (h : Wired cells iterms block wires) {load driver : Term} {preserve : Bool}
    (hwire : (driver, load) ∈ wires) : Dft.connect block load driver preserve = .ok block := by
  obtain ⟨net, hdriver, hload⟩ := h.drives _ hwire
  unfold Dft.connect
  rw [hdriver]
  show Except.ok { block with netOf := Function.update block.netOf load (some net) } = _
  rw [← hload, Function.update_eq_self]

/-! ### Finding the ports -/

theorem findBTerm_eq_none {name : String} :
    block.findBTerm name = none ↔ ∀ bterm ∈ block.bterms, bterm.1 ≠ name := by
  unfold Block.findBTerm
  rw [List.find?_eq_none]
  simp only [decide_eq_true_eq]

/-- A new port. -/
theorem Wired.addBTerm (h : Wired cells iterms block wires) (bterm : String × IoType) :
    Wired cells iterms { block with bterms := block.bterms ++ [bterm] } wires := by
  refine ⟨h.pins, h.static, h.drives, h.fresh, fun name hname => h.absent name ?_, h.apart⟩
  rw [findBTerm_eq_none] at hname ⊢
  exact fun other hother => hname other (List.mem_append_left _ hother)

/-- What finding or creating a port keeps. -/
structure Found (cells : List ScanCell) (iterms : ITerm → Option IoType)
    (wires : List (Term × Term)) (block block' : Block) (term : Term) : Prop where
  wired : Wired cells iterms block' wires
  has : block'.Has term
  keeps : ∀ other, block.Has other → block'.Has other

theorem Found.refl (h : Wired cells iterms block wires) {term : Term} (hterm : block.Has term) :
    Found cells iterms wires block block term :=
  ⟨h, hterm, fun _ => id⟩

theorem Block.has_iterm (block : Block) (pin : ITerm) : block.Has (.iterm pin) :=
  fun _ heq => by cases heq

theorem Block.has_of_find {pred : String × IoType → Bool} {bterm : String × IoType}
    (hfind : block.bterms.find? pred = some bterm) : block.Has (.bterm bterm.1) := by
  intro name heq hnone
  exact findBTerm_eq_none.mp hnone bterm (List.mem_of_find?_eq_some hfind) (Term.bterm.inj heq)

theorem Wired.createNewPort (h : Wired cells iterms block wires) {name : String} {ioType : IoType}
    {term : Term} (hnone : block.findBTerm name = none)
    (hrun : block.createNewPort name ioType = .ok (term, block')) :
    Found cells iterms wires block block' term ∧ term = .bterm name := by
  unfold Block.createNewPort at hrun
  cases hcreate : block.createNet name (.error 31 name) with
  | error fault =>
      rw [hcreate] at hrun
      cases hrun
  | ok created =>
      obtain ⟨net, created⟩ := created
      obtain ⟨hcreated, hlt, hfresh, hnets, hbterms⟩ := h.createNet hcreate
      have hstill : created.findBTerm name = none := by
        unfold Block.findBTerm
        rw [hbterms]
        exact hnone
      rw [hcreate] at hrun
      simp only [Bind.bind, Except.bind, hstill, Option.isSome_none, Bool.false_eq_true,
        ↓reduceIte] at hrun
      cases hrun
      have hhas : { created with bterms := created.bterms ++ [(name, ioType)] }.Has (.bterm name) := by
        intro other heq hother
        refine findBTerm_eq_none.mp hother (name, ioType) ?_ (Term.bterm.inj heq)
        exact List.mem_append_right _ List.mem_cons_self
      refine ⟨⟨?_, hhas, fun other hother port heq hport => ?_⟩, rfl⟩
      · refine (hcreated.addBTerm (name, ioType)).put ?_ hhas hlt fun a _ heq => by cases heq
        exact hcreated.unused_of_none (hcreated.absent name hstill)
      · refine hother port heq ?_
        rw [findBTerm_eq_none] at hport ⊢
        intro bterm hbterm
        refine hport bterm (List.mem_append_left _ ?_)
        rw [hbterms]
        exact hbterm

theorem findITerm_ok {ids : Nat × Nat × Nat} {ioType : IoType} {inst mterm : String} {term : Term}
    (hrun : findITerm block ids ioType inst mterm = .ok term) :
    ∃ pin, term = .iterm pin ∧ block.iterms pin = some ioType := by
  unfold findITerm at hrun
  split at hrun
  · cases hrun
  · split at hrun
    · cases hrun
    · rename_i found hfound
      split at hrun
      · cases hrun
      · rename_i hsame
        cases hrun
        exact ⟨_, rfl, hfound.trans (congrArg some (not_not.mp hsame))⟩

/-- A driver that is found or created is not an input pin. -/
theorem Wired.findOrCreateDriver (h : Wired cells iterms block wires) {name : String} {term : Term}
    (hrun : findOrCreateDriver block name = .ok (term, block')) :
    Found cells iterms wires block block' term ∧
      ∀ pin, term = .iterm pin → iterms pin = some .output := by
  unfold Dft.findOrCreateDriver at hrun
  split at hrun
  · cases hfind : findITerm block (34, 35, 36) .output _ _ with
    | error fault =>
        rw [hfind] at hrun
        cases hrun
    | ok found =>
        rw [hfind] at hrun
        cases hrun
        obtain ⟨pin, rfl, htype⟩ := findITerm_ok hfind
        refine ⟨Found.refl h (block.has_iterm pin), fun other heq => ?_⟩
        rw [← Term.iterm.inj heq, ← h.static]
        exact htype
  · split at hrun
    · rename_i bterm hfind
      cases hrun
      exact ⟨Found.refl h (Block.has_of_find hfind), fun pin heq => by cases heq⟩
    · rename_i hnone
      obtain ⟨hfound, rfl⟩ := h.createNewPort hnone hrun
      exact ⟨hfound, fun pin heq => by cases heq⟩

theorem Wired.findOrCreateScanOut (h : Wired cells iterms block wires) {cellScanOut : Term} {name : String}
    {term : Term} (hrun : findOrCreateScanOut block cellScanOut name = .ok (term, block')) :
    Found cells iterms wires block block' term := by
  unfold Dft.findOrCreateScanOut at hrun
  split at hrun
  · cases hfind : findITerm block (37, 38, 39) .input _ _ with
    | error fault =>
        rw [hfind] at hrun
        cases hrun
    | ok found =>
        rw [hfind] at hrun
        cases hrun
        obtain ⟨pin, rfl, -⟩ := findITerm_ok hfind
        exact Found.refl h (block.has_iterm pin)
  · split at hrun
    · rename_i bterm hfind
      split at hrun
      · cases hrun
      · cases hrun
        exact Found.refl h (Block.has_of_find hfind)
    · rename_i hnone
      split at hrun
      · rename_i bterm hreuse
        cases hrun
        obtain ⟨net, -, hfind⟩ := Option.bind_eq_some_iff.mp hreuse
        exact Found.refl h (Block.has_of_find hfind)
      · exact (h.createNewPort hnone hrun).1

/-! ### The wires of a chain -/

theorem uses_cons {wire : Term × Term} {term : Term} :
    Uses (wire :: wires) term ↔ term = wire.1 ∨ term = wire.2 ∨ Uses wires term := by
  unfold Uses
  rw [List.exists_mem_cons_iff, or_assoc]

theorem connect_has {load driver : Term} {preserve : Bool}
    (hrun : connect block load driver preserve = .ok block') {other : Term}
    (hother : block.Has other) : block'.Has other := by
  intro name heq
  unfold Block.findBTerm
  rw [connect_ok_bterms hrun]
  exact hother name heq

/-- An input pin that no wire uses is connected. -/
theorem Wired.pin (h : Wired cells iterms block wires) {pin : ITerm} {driver : Term}
    (hinput : iterms pin = some .input) (hunused : ¬Uses wires (.iterm pin))
    (hhas : block.Has driver) (hrun : Dft.connect block (.iterm pin) driver false = .ok block') :
    Wired cells iterms block' ((driver, .iterm pin) :: wires) := by
  refine h.connected hunused (block.has_iterm pin) hhas (fun a ha heq => ?_)
    (fun hfalse => by cases hfalse) hrun
  rw [Term.iterm.inj heq, (h.pins.types a ha).2.2] at hinput
  cases hinput

/-- A driver is not an input pin. -/
def IsDriver (iterms : ITerm → Option IoType) (term : Term) : Prop :=
  ∀ pin, term = .iterm pin → iterms pin = some .output

theorem IsDriver.ne {driver : Term} (h : IsDriver iterms driver) {pin : ITerm}
    (hinput : iterms pin = some .input) : Term.iterm pin ≠ driver := by
  intro heq
  rw [h pin heq.symm] at hinput
  cases hinput

/-- The pins of a cell that have to be free before its chain is stitched. -/
def PinsUnused (wires : List (Term × Term)) (cell : ScanCell) : Prop :=
  ¬Uses wires (.iterm cell.scanIn) ∧ ¬Uses wires (.iterm cell.scanEnable)

/-- A run in two steps succeeds when both do. -/
theorem bind_ok_iff {ε α β : Type} {x : Except ε α} {f : α → Except ε β} {b : β} :
    x >>= f = .ok b ↔ ∃ a, x = .ok a ∧ f a = .ok b := by
  cases x with
  | error fault =>
      constructor
      · intro h
        cases h
      · rintro ⟨a, h, -⟩
        cases h
  | ok a =>
      refine ⟨fun h => ⟨a, rfl, h⟩, fun h => ?_⟩
      obtain ⟨a', heq, h⟩ := h
      rw [Except.ok.inj heq]
      exact h

/-- The wires of a chain up to its last cell. -/
def pathWires (scanEnable scanIn : Term) : List ScanCell → List (Term × Term)
  | [] => []
  | [a] => [(scanIn, .iterm a.scanIn), (scanEnable, .iterm a.scanEnable)]
  | a :: b :: _ => [(.iterm a.scanOut, .iterm b.scanIn), (scanIn, .iterm a.scanIn),
      (scanEnable, .iterm b.scanEnable), (scanEnable, .iterm a.scanEnable)]

/-- What a chain has before its scan-out is connected. -/
structure Path (cells : List ScanCell) (iterms : ITerm → Option IoType)
    (wires : List (Term × Term)) (scanCells : List ScanCell) (scanEnable scanIn : Term)
    (last : ScanCell) (block : Block) : Prop where
  last : scanCells.getLast? = some last
  enable : IsDriver iterms scanEnable
  driver : IsDriver iterms scanIn
  wired : Wired cells iterms block (pathWires scanEnable scanIn scanCells ++ wires)

section Path

variable {config : ScanStitchConfig} {ordinal : Nat} {scanEnable scanIn : Term} {last : ScanCell}
  (h : Wired cells iterms block wires)
include h

theorem stitchPath_one {a : ScanCell} (ha : a ∈ cells) (hunused : PinsUnused wires a)
    (hrun : stitchPath config block [a] ordinal = .ok (scanEnable, scanIn, last, block')) :
    Path cells iterms wires [a] scanEnable scanIn last block' := by
  obtain ⟨hin, hen, hout⟩ := h.pins.types a ha
  obtain ⟨⟨enable, block₁⟩, henable, hrun⟩ := bind_ok_iff.mp hrun
  obtain ⟨hfound₁, hdriver₁⟩ := h.findOrCreateDriver henable
  obtain ⟨⟨driver, block₂⟩, hdriver, hrun⟩ := bind_ok_iff.mp hrun
  obtain ⟨hfound₂, hdriver₂⟩ := hfound₁.wired.findOrCreateDriver hdriver
  obtain ⟨block₃, hfold, hrun⟩ := bind_ok_iff.mp hrun
  obtain ⟨block₄, hconnect, hnil⟩ := bind_ok_iff.mp hfold
  cases hnil
  have hwired₃ := hfound₂.wired.pin hen hunused.2 (hfound₂.keeps _ hfound₁.has) hconnect
  obtain ⟨block₅, hstitch, hrun⟩ := bind_ok_iff.mp hrun
  cases hrun
  obtain ⟨block₆, hmiddle, hstitch⟩ := bind_ok_iff.mp hstitch
  cases hmiddle
  obtain ⟨block₇, hagain, hstitch⟩ := bind_ok_iff.mp hstitch
  rw [ScanCell.connectScanEnable, hwired₃.connected_again List.mem_cons_self] at hagain
  cases hagain
  obtain ⟨block₈, hfirst, hstitch⟩ := bind_ok_iff.mp hstitch
  have hunused₃ : ¬Uses ((scanEnable, .iterm a.scanEnable) :: wires) (.iterm a.scanIn) := by
    rw [uses_cons]
    rintro (heq | heq | huse)
    · exact IsDriver.ne hdriver₁ hin heq
    · exact h.pins.disjoint a ha a ha (Term.iterm.inj heq)
    · exact hunused.1 huse
  have hwired₄ := hwired₃.pin hin hunused₃ (connect_has hconnect hfound₂.has) hfirst
  change (if a ≠ a then a.connectScanIn block₈ a.getScanOut else pure block₈) = _ at hstitch
  rw [if_neg (not_not.mpr rfl)] at hstitch
  cases hstitch
  exact ⟨rfl, hdriver₁, hdriver₂, hwired₄⟩

theorem stitchPath_two {a b : ScanCell} (ha : a ∈ cells) (hb : b ∈ cells) (hne : a ≠ b)
    (hunusedA : PinsUnused wires a) (hunusedB : PinsUnused wires b)
    (hrun : stitchPath config block [a, b] ordinal = .ok (scanEnable, scanIn, last, block')) :
    Path cells iterms wires [a, b] scanEnable scanIn last block' := by
  obtain ⟨hinA, henA, -⟩ := h.pins.types a ha
  obtain ⟨hinB, henB, -⟩ := h.pins.types b hb
  have hout : IsDriver iterms (.iterm a.scanOut) := fun pin heq => by
    rw [← Term.iterm.inj heq]
    exact (h.pins.types a ha).2.2
  obtain ⟨⟨enable, block₁⟩, henable, hrun⟩ := bind_ok_iff.mp hrun
  obtain ⟨hfound₁, hdriver₁⟩ := h.findOrCreateDriver henable
  obtain ⟨⟨driver, block₂⟩, hdriver, hrun⟩ := bind_ok_iff.mp hrun
  obtain ⟨hfound₂, hdriver₂⟩ := hfound₁.wired.findOrCreateDriver hdriver
  obtain ⟨block₃, hfold, hrun⟩ := bind_ok_iff.mp hrun
  obtain ⟨block₄, hconnectA, hfold⟩ := bind_ok_iff.mp hfold
  obtain ⟨block₅, hconnectB, hnil⟩ := bind_ok_iff.mp hfold
  cases hnil
  obtain ⟨block₆, hstitch, hrun⟩ := bind_ok_iff.mp hrun
  cases hrun
  have hwiredA := hfound₂.wired.pin henA hunusedA.2 (hfound₂.keeps _ hfound₁.has) hconnectA
  have hwiredB := hwiredA.pin henB (by
    rw [uses_cons]
    rintro (heq | heq | huse)
    · exact IsDriver.ne hdriver₁ henB heq
    · exact hne (h.pins.scanEnable b hb a ha (Term.iterm.inj heq)).symm
    · exact hunusedB.2 huse) (connect_has hconnectA (hfound₂.keeps _ hfound₁.has)) hconnectB
  obtain ⟨block₇, hmiddle, hstitch⟩ := bind_ok_iff.mp hstitch
  cases hmiddle
  obtain ⟨block₈, hagain, hstitch⟩ := bind_ok_iff.mp hstitch
  change connect block₃ (.iterm a.scanEnable) scanEnable false = _ at hagain
  rw [hwiredB.connected_again (List.mem_cons_of_mem _ List.mem_cons_self)] at hagain
  cases hagain
  obtain ⟨block₉, hfirst, hstitch⟩ := bind_ok_iff.mp hstitch
  have hwiredFirst := hwiredB.pin hinA (by
    rw [uses_cons, uses_cons]
    rintro (heq | heq | heq | heq | huse)
    · exact IsDriver.ne hdriver₁ hinA heq
    · exact h.pins.disjoint a ha b hb (Term.iterm.inj heq)
    · exact IsDriver.ne hdriver₁ hinA heq
    · exact h.pins.disjoint a ha a ha (Term.iterm.inj heq)
    · exact hunusedA.1 huse) (connect_has hconnectB (connect_has hconnectA hfound₂.has)) hfirst
  change (if b ≠ a then b.connectScanIn block₉ a.getScanOut else pure block₉) = _ at hstitch
  rw [if_pos hne.symm] at hstitch
  have hwiredLast := hwiredFirst.pin hinB (by
    rw [uses_cons, uses_cons, uses_cons]
    rintro (heq | heq | heq | heq | heq | heq | huse)
    · exact IsDriver.ne hdriver₂ hinB heq
    · exact hne (h.pins.scanIn b hb a ha (Term.iterm.inj heq)).symm
    · exact IsDriver.ne hdriver₁ hinB heq
    · exact h.pins.disjoint b hb b hb (Term.iterm.inj heq)
    · exact IsDriver.ne hdriver₁ hinB heq
    · exact h.pins.disjoint b hb a ha (Term.iterm.inj heq)
    · exact hunusedB.1 huse) (block₉.has_iterm _) hstitch
  exact ⟨rfl, hdriver₁, hdriver₂, hwiredLast⟩

/-- A chain of one or two cells gets its path. -/
theorem stitchPath_path {scanCells : List ScanCell} (hcells : ∀ cell ∈ scanCells, cell ∈ cells)
    (hnodup : scanCells.Nodup) (hunused : ∀ cell ∈ scanCells, PinsUnused wires cell)
    (hlength : scanCells.length = 1 ∨ scanCells.length = 2)
    (hrun : stitchPath config block scanCells ordinal = .ok (scanEnable, scanIn, last, block')) :
    Path cells iterms wires scanCells scanEnable scanIn last block' := by
  rcases hlength with hone | htwo
  · obtain ⟨a, rfl⟩ := List.length_eq_one_iff.mp hone
    exact stitchPath_one h (hcells a List.mem_cons_self) (hunused a List.mem_cons_self) hrun
  · obtain ⟨a, b, rfl⟩ := List.length_eq_two.mp htwo
    have hb : b ∈ [a, b] := List.mem_cons_of_mem _ List.mem_cons_self
    have hne : a ≠ b := fun heq => (List.nodup_cons.mp hnodup).1 (heq ▸ List.mem_cons_self)
    exact stitchPath_two h (hcells a List.mem_cons_self) (hcells b hb) hne
      (hunused a List.mem_cons_self) (hunused b hb) hrun

end Path

/-- A chain that is stitched has one or two cells. -/
theorem stitchPath_length {config : ScanStitchConfig} {scanCells : List ScanCell} {ordinal : Nat}
    {result : Term × Term × ScanCell × Block}
    (hrun : stitchPath config block scanCells ordinal = .ok result) :
    scanCells.length = 1 ∨ scanCells.length = 2 := by
  obtain ⟨⟨enable, block₁⟩, -, hrun⟩ := bind_ok_iff.mp hrun
  obtain ⟨⟨driver, block₂⟩, -, hrun⟩ := bind_ok_iff.mp hrun
  obtain ⟨block₃, -, hrun⟩ := bind_ok_iff.mp hrun
  cases scanCells with
  | nil => cases hrun
  | cons first rest =>
      obtain ⟨block₄, hstitch, -⟩ := bind_ok_iff.mp hrun
      obtain ⟨block₅, hmiddle, -⟩ := bind_ok_iff.mp hstitch
      have hnil : ∀ (middle : List ScanCell) (block : Block),
          stitchMiddle middle block = .ok block₅ → middle = [] := by
        intro middle
        induction middle with
        | nil => exact fun _ _ => rfl
        | cons current middle ih =>
            intro block hrun
            cases middle with
            | nil => cases hrun
            | cons next middle =>
                obtain ⟨block₆, -, hrest⟩ := bind_ok_iff.mp hrun
                cases ih block₆ hrest
      have hmiddle : rest.dropLast = [] := hnil _ _ hmiddle
      cases rest with
      | nil => exact Or.inl rfl
      | cons second rest =>
          cases rest with
          | nil => exact Or.inr rfl
          | cons third rest => cases hmiddle

end OpenRoad.Dft

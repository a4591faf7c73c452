import OpenRoad.DftShiftPath

/-!
Stitching all chains. As long as every chain has one or two cells and gets a scan-out port of its
own, the wires of all chains are there at the end.
-/

namespace OpenRoad.Dft

/-- The chain is one shift path: each scan-in is driven by the port or the cell before it and by no
other scan-out, the last cell drives the scan-out port, and all cells share the enable. -/
structure ShiftPath (cells : List ScanCell) (block : Block) (chain : StitchedChain) : Prop where
  first : ∃ cell, chain.cells.head? = some cell ∧
    Drives block chain.scanIn (.iterm cell.scanIn)
  next : chain.cells.IsChain fun a b => Drives block a.getScanOut (.iterm b.scanIn) ∧
    ∀ other ∈ cells, Drives block other.getScanOut (.iterm b.scanIn) → other = a
  last : ∃ cell, chain.cells.getLast? = some cell ∧ Drives block cell.getScanOut chain.scanOut
  enable : ∀ cell ∈ chain.cells, Drives block chain.scanEnable (.iterm cell.scanEnable)

/-- What stitching has to do: no iterator past the end is dereferenced, and unless an error ends the
run every chain is a shift path. -/
def Stitches (config : ScanStitchConfig) (chains : List (List ScanCell)) (block : Block) : Prop :=
  match stitch config chains 0 block with
  | .ok (stitched, block') => stitched.map StitchedChain.cells = chains ∧
      ∀ chain ∈ stitched, ShiftPath chains.flatten block' chain
  | .error .pastEnd => False
  | .error (.error ..) => True

/-- The port that is picked for the scan-out of a chain belongs to no other chain and to no cell. -/
structure PortFree (cells : List ScanCell) (ports : List Term) (block : Block) (last : ScanCell)
    (scanOut : Term) : Prop where
  ports : scanOut ∉ ports
  pins : ∀ cell ∈ cells, scanOut ≠ .iterm cell.scanIn ∧ scanOut ≠ .iterm cell.scanEnable ∧
    scanOut ≠ cell.getScanOut
  alone : block.netOf last.getScanOut = none → ∀ net, block.netOf scanOut = some net →
    ∀ cell ∈ cells, block.netOf cell.getScanOut ≠ some net

/-- In every step the scan-out port is free; `ports` are those of the chains before. -/
def PortsFree (config : ScanStitchConfig) (cells : List ScanCell) :
    List (List ScanCell) → Nat → List Term → Block → Prop
  | [], _, _, _ => True
  | scanCells :: rest, ordinal, ports, block => ∀ scanEnable scanIn last block₁,
      stitchPath config block scanCells ordinal = .ok (scanEnable, scanIn, last, block₁) →
      ∀ scanOut block₂, findOrCreateScanOut block₁ last.getScanOut (config.outName ordinal) =
        .ok (scanOut, block₂) →
      PortFree cells (scanEnable :: scanIn :: ports) block₂ last scanOut ∧
        ∀ block₃, last.connectScanOut block₂ scanOut = .ok block₃ →
          PortsFree config cells rest (ordinal + 1) (scanOut :: scanEnable :: scanIn :: ports) block₃

/-- The block before stitching: nets are numbered below the next one, a port that does not exist is
on no net, and the scan-outs are on nets of their own. -/
structure Design (cells : List ScanCell) (block : Block) : Prop where
  nodup : cells.Nodup
  wired : Wired cells block.iterms block []

variable {cells : List ScanCell} {iterms : ITerm → Option IoType} {block block' : Block}
  {wires : List (Term × Term)} {config : ScanStitchConfig}

/-- The terms of the wires are ports of the chains or pins of cells. -/
def Covered (cells : List ScanCell) (ports : List Term) (wires : List (Term × Term)) : Prop :=
  ∀ term, Uses wires term → term ∈ ports ∨ ∃ cell ∈ cells,
    term = .iterm cell.scanIn ∨ term = .iterm cell.scanEnable ∨ term = cell.getScanOut

theorem PortFree.unused {ports : List Term} {last : ScanCell} {scanOut : Term}
    (h : PortFree cells ports block last scanOut) (hcovered : Covered cells ports wires) :
    ¬Uses wires scanOut := by
  intro huse
  rcases hcovered scanOut huse with hport | ⟨cell, hcell, hpin⟩
  · exact h.ports hport
  · obtain ⟨hin, hen, hout⟩ := h.pins cell hcell
    rcases hpin with heq | heq | heq
    · exact hin heq
    · exact hen heq
    · exact hout heq

theorem uses_append {wires' : List (Term × Term)} {term : Term} :
    Uses (wires' ++ wires) term ↔ Uses wires' term ∨ Uses wires term := by
  unfold Uses
  constructor
  · rintro ⟨wire, hwire, heq⟩
    exact (List.mem_append.mp hwire).imp (fun h => ⟨wire, h, heq⟩) fun h => ⟨wire, h, heq⟩
  · rintro (⟨wire, hwire, heq⟩ | ⟨wire, hwire, heq⟩)
    · exact ⟨wire, List.mem_append_left _ hwire, heq⟩
    · exact ⟨wire, List.mem_append_right _ hwire, heq⟩

/-- The wires of a path use its ports and the pins of its cells. -/
theorem uses_pathWires {scanEnable scanIn term : Term} {scanCells : List ScanCell}
    (h : Uses (pathWires scanEnable scanIn scanCells) term) :
    term = scanEnable ∨ term = scanIn ∨ ∃ cell ∈ scanCells,
      term = .iterm cell.scanIn ∨ term = .iterm cell.scanEnable ∨ term = cell.getScanOut := by
  obtain ⟨wire, hwire, heq⟩ := h
  match scanCells with
  | [] => cases hwire
  | [a] =>
      have ha : a ∈ [a] := List.mem_cons_self
      simp only [pathWires, List.mem_cons, List.not_mem_nil, or_false] at hwire
      rcases hwire with rfl | rfl
      · exact heq.elim (fun h => Or.inr (Or.inl h)) fun h => Or.inr (Or.inr ⟨a, ha, Or.inl h⟩)
      · exact heq.elim Or.inl fun h => Or.inr (Or.inr ⟨a, ha, Or.inr (Or.inl h)⟩)
  | a :: b :: rest =>
      have ha : a ∈ a :: b :: rest := List.mem_cons_self
      have hb : b ∈ a :: b :: rest := List.mem_cons_of_mem _ List.mem_cons_self
      simp only [pathWires, List.mem_cons, List.not_mem_nil, or_false] at hwire
      rcases hwire with rfl | rfl | rfl | rfl
      · exact heq.elim (fun h => Or.inr (Or.inr ⟨a, ha, Or.inr (Or.inr h)⟩))
          fun h => Or.inr (Or.inr ⟨b, hb, Or.inl h⟩)
      · exact heq.elim (fun h => Or.inr (Or.inl h)) fun h => Or.inr (Or.inr ⟨a, ha, Or.inl h⟩)
      · exact heq.elim Or.inl fun h => Or.inr (Or.inr ⟨b, hb, Or.inr (Or.inl h)⟩)
      · exact heq.elim Or.inl fun h => Or.inr (Or.inr ⟨a, ha, Or.inr (Or.inl h)⟩)

/-- An input pin of a cell is none of the pins of another cell. -/
theorem ScanPins.ne_pins (h : ScanPins cells iterms) {a b : ScanCell} (ha : a ∈ cells)
    (hb : b ∈ cells) (hne : a ≠ b) {pin : ITerm} (hpin : pin = a.scanIn ∨ pin = a.scanEnable) :
    ¬(Term.iterm pin = .iterm b.scanIn ∨ Term.iterm pin = .iterm b.scanEnable ∨
      Term.iterm pin = b.getScanOut) := by
  obtain ⟨hin, hen, -⟩ := h.types a ha
  have hout := (h.types b hb).2.2
  have hnotOut : ∀ {pin}, iterms pin = some .input → Term.iterm pin ≠ b.getScanOut := by
    intro pin hinput heq
    rw [Term.iterm.inj heq, hout] at hinput
    cases hinput
  rcases hpin with rfl | rfl
  · rintro (heq | heq | heq)
    · exact hne (h.scanIn a ha b hb (Term.iterm.inj heq))
    · exact h.disjoint a ha b hb (Term.iterm.inj heq)
    · exact hnotOut hin heq
  · rintro (heq | heq | heq)
    · exact h.disjoint b hb a ha (Term.iterm.inj heq).symm
    · exact hne (h.scanEnable a ha b hb (Term.iterm.inj heq))
    · exact hnotOut hen heq

section Chain

variable {scanCells : List ScanCell} {scanEnable scanIn scanOut : Term} {last : ScanCell}
  {block₂ : Block} {ports : List Term} {name : String}
  (hcells : ∀ cell ∈ scanCells, cell ∈ cells)
  (hpath : Path cells iterms wires scanCells scanEnable scanIn last block)
  (hcovered : Covered cells ports wires)
  (hfree : PortFree cells (scanEnable :: scanIn :: ports) block₂ last scanOut)
include hcells hpath hcovered hfree

omit hfree in
theorem Path.covered : Covered cells (scanEnable :: scanIn :: ports)
    (pathWires scanEnable scanIn scanCells ++ wires) := by
  intro term huse
  rcases uses_append.mp huse with huse | huse
  · rcases uses_pathWires huse with rfl | rfl | ⟨cell, hcell, hpin⟩
    · exact Or.inl List.mem_cons_self
    · exact Or.inl (List.mem_cons_of_mem _ List.mem_cons_self)
    · exact Or.inr ⟨cell, hcells cell hcell, hpin⟩
  · exact (hcovered term huse).imp (fun h => List.mem_cons_of_mem _ (List.mem_cons_of_mem _ h)) id

theorem Path.connected (hfind : findOrCreateScanOut block last.getScanOut name = .ok (scanOut, block₂))
    (hrun : last.connectScanOut block₂ scanOut = .ok block') :
    Wired cells iterms block'
      ((last.getScanOut, scanOut) :: (pathWires scanEnable scanIn scanCells ++ wires)) := by
  have hfound := hpath.wired.findOrCreateScanOut hfind
  refine hfound.wired.connected (hfree.unused (hpath.covered hcells hcovered)) hfound.has
    (block₂.has_iterm _) (fun a ha => (hfree.pins a ha).2.2) (fun _ => hfree.alone) hrun

theorem Path.covered_out : Covered cells (scanOut :: scanEnable :: scanIn :: ports)
    ((last.getScanOut, scanOut) :: (pathWires scanEnable scanIn scanCells ++ wires)) := by
  intro term huse
  rcases uses_cons.mp huse with rfl | rfl | huse
  · have hmem := hcells last (List.mem_of_getLast? hpath.last)
    exact Or.inr ⟨last, hmem, Or.inr (Or.inr rfl)⟩
  · exact Or.inl List.mem_cons_self
  · exact (hpath.covered hcells hcovered term huse).imp (List.mem_cons_of_mem _) id

omit hcovered in
/-- The cells of other chains keep their pins unused. -/
theorem Path.pinsUnused {cell : ScanCell} (hcell : cell ∈ cells) (hother : cell ∉ scanCells)
    (hunused : PinsUnused wires cell) : PinsUnused
      ((last.getScanOut, scanOut) :: (pathWires scanEnable scanIn scanCells ++ wires)) cell := by
  obtain ⟨hin, hen, -⟩ := hpath.wired.pins.types cell hcell
  have hlast := List.mem_of_getLast? hpath.last
  have hpin : ∀ pin, (pin = cell.scanIn ∨ pin = cell.scanEnable) → iterms pin = some .input →
      scanOut ≠ .iterm pin → ¬Uses wires (.iterm pin) →
      ¬Uses ((last.getScanOut, scanOut) :: (pathWires scanEnable scanIn scanCells ++ wires))
        (.iterm pin) := by
    intro pin hpin hinput hout hold huse
    have hne : ∀ b ∈ scanCells, ¬(Term.iterm pin = .iterm b.scanIn ∨
        Term.iterm pin = .iterm b.scanEnable ∨ Term.iterm pin = b.getScanOut) := fun b hb =>
      hpath.wired.pins.ne_pins hcell (hcells b hb) (fun heq => hother (heq ▸ hb)) hpin
    rcases uses_cons.mp huse with heq | heq | huse
    · exact hne last hlast (Or.inr (Or.inr heq))
    · exact hout heq.symm
    rcases uses_append.mp huse with huse | huse
    · rcases uses_pathWires huse with heq | heq | ⟨b, hb, heq⟩
      · exact hpath.enable.ne hinput heq
      · exact hpath.driver.ne hinput heq
      · exact hne b hb heq
    · exact hold huse
  obtain ⟨hnotIn, hnotEn, -⟩ := hfree.pins cell hcell
  exact ⟨hpin _ (Or.inl rfl) hin hnotIn hunused.1, hpin _ (Or.inr rfl) hen hnotEn hunused.2⟩

end Chain

/-- The wires of a stitched chain. -/
structure HasWires (wires : List (Term × Term)) (chain : StitchedChain) : Prop where
  path : ∀ wire ∈ pathWires chain.scanEnable chain.scanIn chain.cells, wire ∈ wires
  last : ∃ cell, chain.cells.getLast? = some cell ∧ (cell.getScanOut, chain.scanOut) ∈ wires

/-- A run over chains of one or two cells makes the wires of all of them. -/
theorem stitch_wired {chains : List (List ScanCell)} {ordinal : Nat} {ports : List Term}
    {stitched : List StitchedChain} (h : Wired cells iterms block wires)
    (hcells : ∀ cell ∈ chains.flatten, cell ∈ cells) (hnodup : chains.flatten.Nodup)
    (hunused : ∀ cell ∈ chains.flatten, PinsUnused wires cell)
    (hlength : ∀ scanCells ∈ chains, scanCells.length = 1 ∨ scanCells.length = 2)
    (hcovered : Covered cells ports wires)
    (hports : PortsFree config cells chains ordinal ports block)
    (hrun : stitch config chains ordinal block = .ok (stitched, block')) :
    stitched.map StitchedChain.cells = chains ∧ ∃ wires', Wired cells iterms block' wires' ∧
      (∀ wire ∈ wires, wire ∈ wires') ∧ ∀ chain ∈ stitched, HasWires wires' chain := by
  induction chains generalizing ordinal ports stitched block wires with
  | nil =>
      cases hrun
      exact ⟨rfl, wires, h, fun _ => id, fun chain hchain => by cases hchain⟩
  | cons scanCells rest ih =>
      obtain ⟨⟨chain, block₃⟩, hchain, hrun⟩ := bind_ok_iff.mp hrun
      obtain ⟨⟨chains, block₄⟩, hrest, hrun⟩ := bind_ok_iff.mp hrun
      cases hrun
      obtain ⟨⟨scanEnable, scanIn, last, block₁⟩, hpathRun, hchain⟩ := bind_ok_iff.mp hchain
      obtain ⟨⟨scanOut, block₂⟩, hfind, hchain⟩ := bind_ok_iff.mp hchain
      obtain ⟨block₅, hconnect, hchain⟩ := bind_ok_iff.mp hchain
      cases hchain
      rw [List.flatten_cons] at hcells hnodup hunused
      obtain ⟨hnodupCells, hnodupRest, hdisjoint⟩ := List.nodup_append.mp hnodup
      have hscan : ∀ cell ∈ scanCells, cell ∈ cells := fun cell hcell =>
        hcells cell (List.mem_append_left _ hcell)
      have hpath := stitchPath_path h hscan hnodupCells
        (fun cell hcell => hunused cell (List.mem_append_left _ hcell))
        (hlength scanCells List.mem_cons_self) hpathRun
      obtain ⟨hfree, hportsRest⟩ := hports _ _ _ _ hpathRun _ _ hfind
      obtain ⟨hmap, wires', hwired, hsub, hall⟩ := ih
        (hpath.connected hscan hcovered hfree hfind hconnect)
        (fun cell hcell => hcells cell (List.mem_append_right _ hcell)) hnodupRest
        (fun cell hcell => hpath.pinsUnused hscan hfree
          (hcells cell (List.mem_append_right _ hcell))
          (fun hmem => hdisjoint cell hmem cell hcell rfl)
          (hunused cell (List.mem_append_right _ hcell)))
        (fun other hother => hlength other (List.mem_cons_of_mem _ hother))
        (hpath.covered_out hscan hcovered hfree) (hportsRest _ hconnect) hrest
      refine ⟨congrArg (scanCells :: ·) hmap, wires', hwired, fun wire hwire => ?_,
        fun chain hchain => ?_⟩
      · exact hsub wire (List.mem_cons_of_mem _ (List.mem_append_right _ hwire))
      · rcases List.mem_cons.mp hchain with rfl | hchain
        · refine ⟨fun wire hwire => ?_, last, hpath.last, hsub _ List.mem_cons_self⟩
          exact hsub wire (List.mem_cons_of_mem _ (List.mem_append_left _ hwire))
        · exact hall chain hchain

/-- The wires of a chain make it a shift path. -/
theorem HasWires.shiftPath (hwired : Wired cells iterms block wires) {chain : StitchedChain}
    (h : HasWires wires chain) (hcells : ∀ cell ∈ chain.cells, cell ∈ cells)
    (hlength : chain.cells.length = 1 ∨ chain.cells.length = 2) : ShiftPath cells block chain := by
  obtain ⟨scanCells, scanIn, scanEnable, scanOut⟩ := chain
  obtain ⟨hpath, last, hlast, hout⟩ := h
  have hdrives : ∀ wire ∈ pathWires scanEnable scanIn scanCells, Drives block wire.1 wire.2 :=
    fun wire hwire => hwired.drives wire (hpath wire hwire)
  rcases hlength with hone | htwo
  · obtain ⟨a, rfl⟩ := List.length_eq_one_iff.mp hone
    refine ⟨⟨a, rfl, hdrives (scanIn, _) List.mem_cons_self⟩, List.IsChain.singleton a,
      ⟨last, hlast, hwired.drives _ hout⟩, fun cell hcell => ?_⟩
    obtain rfl := List.mem_singleton.mp hcell
    exact hdrives (scanEnable, _) (List.mem_cons_of_mem _ List.mem_cons_self)
  · obtain ⟨a, b, rfl⟩ := List.length_eq_two.mp htwo
    have hnext : Drives block a.getScanOut (.iterm b.scanIn) :=
      hdrives (a.getScanOut, _) List.mem_cons_self
    refine ⟨⟨a, rfl, hdrives (scanIn, _) (by simp [pathWires])⟩, ?_,
      ⟨last, hlast, hwired.drives _ hout⟩, fun cell hcell => ?_⟩
    · refine List.IsChain.cons_cons ⟨hnext, fun other hother hdriven => ?_⟩ (List.IsChain.singleton b)
      obtain ⟨net, hnet, hload⟩ := hnext
      obtain ⟨net', hnet', hload'⟩ := hdriven
      rw [hload] at hload'
      rw [← Option.some.inj hload'] at hnet'
      exact hwired.apart other hother a (hcells a List.mem_cons_self) net hnet' hnet
    · rcases List.mem_cons.mp hcell with rfl | hcell
      · exact hdrives (scanEnable, .iterm cell.scanEnable) (by simp [pathWires])
      · obtain rfl := List.mem_singleton.mp hcell
        exact hdrives (scanEnable, .iterm cell.scanEnable) (by simp [pathWires])

theorem stitch_length {chains : List (List ScanCell)} {ordinal : Nat}
    {result : List StitchedChain × Block}
    (hrun : stitch config chains ordinal block = .ok result) :
    ∀ scanCells ∈ chains, scanCells.length = 1 ∨ scanCells.length = 2 := by
  induction chains generalizing ordinal block result with
  | nil => exact fun scanCells hmem => by cases hmem
  | cons first rest ih =>
      obtain ⟨⟨chain, block₁⟩, hchain, hrun⟩ := bind_ok_iff.mp hrun
      obtain ⟨⟨chains, block₂⟩, hrest, -⟩ := bind_ok_iff.mp hrun
      obtain ⟨path, hpath, -⟩ := bind_ok_iff.mp hchain
      intro scanCells hmem
      rcases List.mem_cons.mp hmem with rfl | hmem
      · exact stitchPath_length hpath
      · exact ih hrest scanCells hmem

/-! ### Iterators past the end -/

theorem bind_ne_pastEnd {α β : Type} {x : Except StitchFault α} {f : α → Except StitchFault β}
    (hx : x ≠ .error .pastEnd) (hf : ∀ a, f a ≠ .error .pastEnd) : x >>= f ≠ .error .pastEnd := by
  cases x with
  | error fault => exact fun h => hx (congrArg Except.error (Except.error.inj h))
  | ok a => exact hf a

theorem createNet_ne_pastEnd {name name' : String} {id : Nat} :
    block.createNet name (.error id name') ≠ .error .pastEnd := by
  unfold Block.createNet
  split
  · exact fun h => by cases h
  · exact fun h => by cases h

theorem createNewPort_ne_pastEnd {name : String} {ioType : IoType} :
    block.createNewPort name ioType ≠ .error .pastEnd := by
  refine bind_ne_pastEnd createNet_ne_pastEnd fun created => ?_
  dsimp only
  split
  · exact fun h => by cases h
  · exact fun h => by cases h

theorem findITerm_ne_pastEnd {ids : Nat × Nat × Nat} {ioType : IoType} {inst mterm : String} :
    findITerm block ids ioType inst mterm ≠ .error .pastEnd := by
  unfold findITerm
  split
  · exact fun h => by cases h
  · split
    · exact fun h => by cases h
    · split
      · exact fun h => by cases h
      · exact fun h => by cases h

theorem map_ne_pastEnd {α β : Type} {x : Except StitchFault α} {f : α → β}
    (hx : x ≠ .error .pastEnd) : x.map f ≠ .error .pastEnd := by
  cases x with
  | error fault => exact fun h => hx (congrArg Except.error (Except.error.inj h))
  | ok a => exact fun h => by cases h

theorem findOrCreateDriver_ne_pastEnd {name : String} :
    findOrCreateDriver block name ≠ .error .pastEnd := by
  unfold findOrCreateDriver
  split
  · exact map_ne_pastEnd findITerm_ne_pastEnd
  · split
    · exact fun h => by cases h
    · exact createNewPort_ne_pastEnd

theorem findOrCreateScanOut_ne_pastEnd {cellScanOut : Term} {name : String} :
    findOrCreateScanOut block cellScanOut name ≠ .error .pastEnd := by
  unfold findOrCreateScanOut
  split
  · exact map_ne_pastEnd findITerm_ne_pastEnd
  · split
    · split
      · exact fun h => by cases h
      · exact fun h => by cases h
    · split
      · exact fun h => by cases h
      · exact createNewPort_ne_pastEnd

theorem connect_ne_pastEnd {load driver : Term} {preserve : Bool} :
    connect block load driver preserve ≠ .error .pastEnd := by
  unfold connect
  split
  · exact fun h => by cases h
  · split
    · exact fun h => by cases h
    · exact bind_ne_pastEnd createNet_ne_pastEnd fun _ h => by cases h

/-- A chain of one or two cells steps nowhere past the end. -/
theorem stitchPath_ne_pastEnd {scanCells : List ScanCell} {ordinal : Nat}
    (hlength : scanCells.length = 1 ∨ scanCells.length = 2) :
    stitchPath config block scanCells ordinal ≠ .error .pastEnd := by
  refine bind_ne_pastEnd findOrCreateDriver_ne_pastEnd fun enable => ?_
  refine bind_ne_pastEnd findOrCreateDriver_ne_pastEnd fun driver => ?_
  have hfold : ∀ (list : List ScanCell) (block : Block), list.foldlM
      (fun block cell => cell.connectScanEnable block enable.1) block ≠ .error .pastEnd := by
    intro list
    induction list with
    | nil => exact fun _ h => by cases h
    | cons cell list ih => exact fun block => bind_ne_pastEnd connect_ne_pastEnd fun block => ih block
  refine bind_ne_pastEnd (hfold scanCells _) fun block₁ => ?_
  rcases hlength with hone | htwo
  · obtain ⟨a, rfl⟩ := List.length_eq_one_iff.mp hone
    refine bind_ne_pastEnd ?_ fun _ h => by cases h
    refine bind_ne_pastEnd (fun h => by cases h) fun block₂ => ?_
    refine bind_ne_pastEnd connect_ne_pastEnd fun block₃ => ?_
    refine bind_ne_pastEnd connect_ne_pastEnd fun block₄ => ?_
    change (if a ≠ a then a.connectScanIn block₄ a.getScanOut else pure block₄) ≠ _
    rw [if_neg (not_not.mpr rfl)]
    exact fun h => by cases h
  · obtain ⟨a, b, rfl⟩ := List.length_eq_two.mp htwo
    refine bind_ne_pastEnd ?_ fun _ h => by cases h
    refine bind_ne_pastEnd (fun h => by cases h) fun block₂ => ?_
    refine bind_ne_pastEnd connect_ne_pastEnd fun block₃ => ?_
    refine bind_ne_pastEnd connect_ne_pastEnd fun block₄ => ?_
    change (if b ≠ a then b.connectScanIn block₄ a.getScanOut else pure block₄) ≠ _
    split
    · exact connect_ne_pastEnd
    · exact fun h => by cases h

theorem stitch_ne_pastEnd {chains : List (List ScanCell)} {ordinal : Nat}
    (hlength : ∀ scanCells ∈ chains, scanCells.length = 1 ∨ scanCells.length = 2) :
    stitch config chains ordinal block ≠ .error .pastEnd := by
  induction chains generalizing ordinal block with
  | nil => exact fun h => by cases h
  | cons scanCells rest ih =>
      refine bind_ne_pastEnd ?_ fun chain => bind_ne_pastEnd
        (ih fun other hother => hlength other (List.mem_cons_of_mem _ hother)) fun _ h => by cases h
      refine bind_ne_pastEnd (stitchPath_ne_pastEnd (hlength scanCells List.mem_cons_self))
        fun path => ?_
      refine bind_ne_pastEnd findOrCreateScanOut_ne_pastEnd fun found => ?_
      exact bind_ne_pastEnd connect_ne_pastEnd fun _ h => by cases h

/-- Nothing is connected, and no port exists. -/
def emptyBlock : Block where
  insts := fun _ => true
  iterms := fun pin =>
    if pin.mterm = "SI" then some .input
    else if pin.mterm = "SE" then some .input
    else some .output
  bterms := []
  netNames := []
  nextNet := 0
  netOf := fun _ => none

def namePatterns : ScanStitchConfig where
  enableName := "scan_enable_0"
  inName := fun ordinal => "scan_in_" ++ toString ordinal
  outName := fun ordinal => "scan_out_" ++ toString ordinal

def pair : List ScanCell := ["a", "b"].map oneBitCell

theorem pair_design : Design [pair].flatten emptyBlock where
  nodup := by decide
  wired :=
    { pins := ⟨by decide, by decide, by decide, by decide, by decide⟩
      static := rfl
      drives := fun wire hwire => by cases hwire
      fresh := fun term net hnet => by cases hnet
      absent := fun name _ => rfl
      apart := fun a _ b _ net hnet => by cases hnet }

end OpenRoad.Dft

import ProgramScan.Program.Annotation

/-!
# Exception regions

A region protects a block of code and has a handler for it; a filter region has a filter block in
front of its handler.  `enclosingRegion` finds the region an offset belongs to.

Offsets and ends are 32-bit numbers, and an end past the largest one is the largest one.
-/

namespace ProgramScan

inductive RegionKind
  | typed
  | filter
  /-- the handler runs on every exit -/
  | cleanup
  /-- the handler runs on exceptions only -/
  | fault
  deriving DecidableEq

def RegionKind.flags : RegionKind → Nat
  | .typed => 0
  | .filter => 1
  | .cleanup => 2
  | .fault => 4

/-- An exception region; offsets count from the first instruction. -/
structure Region where
  kind : RegionKind
  tryOffset : Nat
  tryLength : Nat
  handlerOffset : Nat
  handlerLength : Nat
  filterOffset : Nat := 0
  caught : Option TypeId := none

def maxOffset : Nat := 0xFFFFFFFF

namespace Region

def tryEnd (h : Region) : Nat := min (h.tryOffset + h.tryLength) maxOffset

def handlerEnd (h : Region) : Nat := min (h.handlerOffset + h.handlerLength) maxOffset

def isFilter (h : Region) : Bool := h.kind == .filter

def tryContains (h : Region) (pos : Nat) : Bool := h.tryOffset ≤ pos && pos < h.tryEnd

def handlerContains (h : Region) (pos : Nat) : Bool :=
  h.handlerOffset ≤ pos && pos < h.handlerEnd

/-- the protected block holds `pos` and is narrower than that of the region taken so far -/
def takesByTry (h : Region) (pos : Nat) (taken : Option Region) : Bool :=
  h.tryContains pos &&
    taken.all fun cur => cur.tryOffset < h.tryOffset && h.tryEnd < cur.tryEnd

/-- the handler holds `pos` and is narrower than that of the region taken so far -/
def takesByHandler (h : Region) (pos : Nat) (taken : Option Region) : Bool :=
  0 < h.handlerOffset && h.handlerContains pos &&
    taken.all fun cur => cur.handlerOffset < h.handlerOffset && h.handlerEnd < cur.handlerEnd

/-- the filter starts at or before `pos`, and later than that of the region taken so far -/
def takesByFilter (h : Region) (pos : Nat) (taken : Option Region) : Bool :=
  h.isFilter && 0 < h.filterOffset && h.filterOffset ≤ pos &&
    taken.all fun cur => cur.filterOffset < h.filterOffset

def takes (h : Region) (pos : Nat) (taken : Option Region) : Bool :=
  h.takesByTry pos taken || h.takesByHandler pos taken || h.takesByFilter pos taken

end Region

/-- the region taken for `pos` after looking at `regions`, which start at index `index` -/
def regionFrom (pos : Nat) :
    (index : Nat) → (taken : Option (Nat × Region)) → List Region → Option (Nat × Region)
  | _, taken, [] => taken
  | index, taken, h :: rest =>
    let taken := if h.takes pos (taken.map (·.2)) then some (index, h) else taken
    regionFrom pos (index + 1) taken rest

/-- The index of the region taken for `pos`: regions are looked at in order, and a later one replaces
an earlier one when it `takes` over. -/
def enclosingRegion (regions : List Region) (pos : Nat) : Option Nat :=
  (regionFrom (min pos maxOffset) 0 none regions).map (·.1)

end ProgramScan

import MakeExt4fs.Lib.Arena
import MakeExt4fs.Lib.Words
import MakeExt4fs.Utils.Types

namespace MakeExt4fs

open Words

-- Pointers to regions are positions in the arena of the allocation that made them.
structure Region where
  block : Nat
  len : Nat
  bg : Nat
  next : Option Nat
  prev : Option Nat
  deriving DecidableEq, Repr

structure Piece where
  block : Nat
  len : Nat
  bg : Nat
  deriving DecidableEq, Repr

def Region.piece (r : Region) : Piece := ⟨r.block, r.len, r.bg⟩

structure RegionList where
  first : Option Nat
  last : Option Nat
  iter : Option Nat
  partialIter : Nat
  deriving DecidableEq, Repr

def RegionList.empty : RegionList := ⟨none, none, none, 0⟩

structure BlockAllocation where
  regions : Arena Region
  list : RegionList
  oobList : RegionList
  deriving DecidableEq, Repr

def BlockAllocation.pieces (alloc : BlockAllocation) : List Piece :=
  alloc.regions.live.map Region.piece

def createAllocation : BlockAllocation := ⟨[], .empty, .empty⟩

def regionListRemove (a : Arena Region) (list : RegionList) (reg : Nat) :
    Option (Arena Region × RegionList) := do
  let r ← a.look (some reg)
  let a ← if r.prev.isSome then a.modify r.prev fun p => { p with next := r.next } else some a
  let a ← if r.next.isSome then a.modify r.next fun n => { n with prev := r.prev } else some a
  let list := if list.first = some reg then { list with first := r.next } else list
  let list := if list.last = some reg then { list with last := r.prev } else list
  let a ← a.modify (some reg) fun r => { r with next := none, prev := none }
  some (a, list)

def regionListAppend (a : Arena Region) (list : RegionList) (reg : Nat) :
    Option (Arena Region × RegionList) :=
  match list.first with
  | none => do
    let a ← a.modify (some reg) fun r => { r with prev := none, next := none }
    some (a, ⟨some reg, some reg, some reg, 0⟩)
  | some _ => do
    let a ← a.modify list.last fun r => { r with next := some reg }
    let a ← a.modify (some reg) fun r => { r with prev := list.last, next := none }
    some (a, { list with last := some reg })

def appendRegion (alloc : BlockAllocation) (block len bgNum : Nat) : Option BlockAllocation := do
  let reg := alloc.regions.length
  let (a, list) ←
    regionListAppend (alloc.regions ++ [some ⟨block, len, bgNum, none, none⟩]) alloc.list reg
  some { alloc with regions := a, list }

-- The loops below follow next pointers; a chain with more links than cells never ends.
def chainLen (a : Arena Region) (weight : Region → Nat) : Nat → Option Nat → Option Nat
  | _, none => some 0
  | 0, some _ => none
  | fuel + 1, some i => do
    let r ← a.look (some i)
    let n ← chainLen a weight fuel r.next
    some (weight r + n)

def blockAllocationNumRegions (alloc : BlockAllocation) : Option Nat :=
  chainLen alloc.regions (fun _ => 1) alloc.regions.length alloc.list.first

def blockAllocationLen (alloc : BlockAllocation) : Option Nat :=
  (chainLen alloc.regions Region.len alloc.regions.length alloc.list.first).map u32

def seek (a : Arena Region) : Nat → Option Nat → Nat → Option (Option Nat × Nat)
  | _, none, block => some (none, block)
  | 0, some _, _ => none
  | fuel + 1, some i, block => do
    let r ← a.look (some i)
    if block < r.len then some (some i, block) else seek a fuel r.next (block - r.len)

def getBlockFrom (a : Arena Region) (list : RegionList) (block : Nat) : Option Nat := do
  match ← seek a a.length list.iter (u32 (block + list.partialIter)) with
  | (none, _) => some ext4AllocateFailed
  | (some i, place) =>
    let r ← a.look (some i)
    some (u32 (r.block + place))

def getBlock (alloc : BlockAllocation) (block : Nat) : Option Nat :=
  getBlockFrom alloc.regions alloc.list block

def getOobBlock (alloc : BlockAllocation) (block : Nat) : Option Nat :=
  getBlockFrom alloc.regions alloc.oobList block

def getRegion (alloc : BlockAllocation) : Option (Nat × Nat) := do
  let r ← alloc.regions.look alloc.list.iter
  some (r.block, sub32 r.len alloc.list.partialIter)

def getNextRegion (alloc : BlockAllocation) : Option BlockAllocation := do
  let r ← alloc.regions.look alloc.list.iter
  some { alloc with list := { alloc.list with iter := r.next, partialIter := 0 } }

def lastRegion (alloc : BlockAllocation) : Bool := alloc.list.iter.isNone

def rewindAlloc (alloc : BlockAllocation) : BlockAllocation :=
  { alloc with list := { alloc.list with iter := alloc.list.first, partialIter := 0 } }

def doSplitAllocation (alloc : BlockAllocation) (len : Nat) :
    Option (BlockAllocation × Option Nat) := do
  match ← seek alloc.regions alloc.regions.length alloc.list.iter len with
  | (none, _) => some (alloc, none)
  | (some i, 0) => some (alloc, some i)
  | (some i, len) =>
    let r ← alloc.regions.look (some i)
    let new := alloc.regions.length
    let a := alloc.regions ++ [some ⟨u32 (r.block + len), r.len - len, r.bg, r.next, some i⟩]
    let a ← a.modify (some i) fun r => { r with next := some new, len }
    some ({ alloc with regions := a, list := { alloc.list with iter := some new } },
      alloc.list.iter)

def splitAllocation (alloc : BlockAllocation) (len : Nat) :
    Option (BlockAllocation × Option Nat) := do
  let (alloc, _) ← doSplitAllocation alloc alloc.list.partialIter
  let (alloc, middle) ← doSplitAllocation alloc len
  some ({ alloc with list := { alloc.list with partialIter := 0 } }, middle)

def moveToOob : Nat → BlockAllocation → Option Nat → Option BlockAllocation
  | _, alloc, none => some alloc
  | 0, alloc, some oob => if alloc.list.iter = some oob then some alloc else none
  | fuel + 1, alloc, some oob =>
    if alloc.list.iter = some oob then some alloc
    else do
      let r ← alloc.regions.look (some oob)
      let (a, list) ← regionListRemove alloc.regions alloc.list oob
      let (a, oobList) ← regionListAppend a alloc.oobList oob
      moveToOob fuel ⟨a, list, oobList⟩ r.next

def reserveOobBlocks (alloc : BlockAllocation) (blocks : Int) : Option (BlockAllocation × Int) := do
  match ← splitAllocation alloc (ofInt32 blocks) with
  | (alloc, none) => some (alloc, -1)
  | (alloc, some oob) =>
    let alloc ← moveToOob alloc.regions.length alloc (some oob)
    some (alloc, 0)

def linkPieces (n : Nat) : Option Nat → List Piece → Arena Region
  | _, [] => []
  | prev, p :: rest =>
    some ⟨p.block, p.len, p.bg, if rest.isEmpty then none else some (n + 1), prev⟩ ::
      linkPieces (n + 1) (some n) rest

end MakeExt4fs

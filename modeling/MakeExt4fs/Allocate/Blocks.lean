import MakeExt4fs.Allocate.Group
import MakeExt4fs.Allocate.Regions

namespace MakeExt4fs

open ErrorLog Words

namespace FsAuxInfo

def setBg (aux : FsAuxInfo) (i : Nat) (bg : BlockGroupInfo) : FsAuxInfo :=
  { aux with bgs := aux.bgs.set i bg }

@[simp] theorem setBg_bgs (aux : FsAuxInfo) (i : Nat) (bg : BlockGroupInfo) :
    (aux.setBg i bg).bgs = aux.bgs.set i bg := rfl

end FsAuxInfo

abbrev Alloc := Run Ext4Error FsAuxInfo

def onGroup {α : Type} (i : Nat) (m : Run Ext4Error BlockGroupInfo α) : Alloc α :=
  Run.zoom (fun aux => aux.bgs[i]?) (fun bg aux => aux.setBg i bg) m

theorem onGroup_meets {α : Type} {bad : Ext4Error → Prop} {i : Nat}
    {m : Run Ext4Error BlockGroupInfo α} {Q : α → FsAuxInfo → List Ext4Error → Prop}
    {aux : FsAuxInfo} {l : List Ext4Error} :
    Run.Meets bad (onGroup i m) Q aux l ↔ ∀ bg, aux.bgs[i]? = some bg →
      Run.Meets bad m (fun a b l' => Q a (aux.setBg i b) l') bg l := by
  cases h : aux.bgs[i]? with
  | none => simp [Run.Meets, onGroup, Run.zoom, h]
  | some bg =>
    rw [onGroup, Run.meets_zoom (fun aux : FsAuxInfo => aux.bgs[i]?) h]
    simp

def ext4AllocateBlocksFromBlockGroup (force : Bool) (len bgNum : Nat) : Alloc Nat :=
  onGroup bgNum do
    let bg ← Run.read
    if bg.freeBlocks < len then
      return ext4AllocateFailed
    else
      let r ← BlockGroupInfo.reserveBlocks force bg.firstFreeBlock len
      if r < 0 then
        Run.raise force (.failedToReserve len bgNum)
        return ext4AllocateFailed
      else
        Run.update fun b => { b with dataBlocksUsed := b.dataBlocksUsed + len }
        return u32 (bg.firstBlock + bg.firstFreeBlock)

def allocateBlockFrom (force : Bool) : List Nat → Alloc Nat
  | [] => return ext4AllocateFailed
  | i :: rest => do
    let block ← ext4AllocateBlocksFromBlockGroup force 1 i
    if block ≠ ext4AllocateFailed then
      return block
    else
      allocateBlockFrom force rest

def allocateBlock (force : Bool) : Alloc Nat := do
  let aux ← Run.read
  allocateBlockFrom force (List.range aux.groups)

-- found_bg and found_bg_len after the groups from number i on.
def findBg (len : Nat) : Nat → List Nat → Nat × Nat → Nat × Nat
  | _, [], found => found
  | i, bgLen :: rest, (foundBg, foundBgLen) =>
    if (len ≤ bgLen ∧ (foundBgLen = 0 ∨ bgLen < foundBgLen)) ∨
        (foundBgLen < len ∧ foundBgLen < bgLen) then
      findBg len (i + 1) rest (i, bgLen)
    else
      findBg len (i + 1) rest (foundBg, foundBgLen)

def FsAuxInfo.freeList (aux : FsAuxInfo) : List Nat :=
  (aux.bgs.take aux.groups).map BlockGroupInfo.freeBlocks

def ext4AllocateBestFitPartial (force : Bool) (len : Nat) : Alloc (Option Piece) := do
  let aux ← Run.read
  let (foundBg, foundBgLen) := findBg len 0 aux.freeList (0, 0)
  if foundBgLen = 0 then
    Run.raise force (.outOfSpace len)
    return none
  else
    let allocateLen := min len foundBgLen
    let block ← ext4AllocateBlocksFromBlockGroup force allocateLen foundBg
    if block = ext4AllocateFailed then
      Run.raise force (.failedToAllocateInGroup allocateLen foundBg)
      return none
    else
      return some ⟨block, allocateLen, foundBg⟩

-- Every turn of the loop allocates at least one block, so len turns are enough.
def bestFitLoop (force : Bool) : Nat → Nat → Alloc (Option (List Piece))
  | 0, len => if len = 0 then return some [] else Run.crash
  | fuel + 1, len =>
    if len = 0 then
      return some []
    else do
      match ← ext4AllocateBestFitPartial force len with
      | none => return none
      | some reg =>
        match ← bestFitLoop force fuel (len - reg.len) with
        | none => return none
        | some rest => return some (reg :: rest)

-- The regions of a best fit, in order; none at all is the source's NULL.
def ext4AllocateBestFit (force : Bool) (len : Nat) : Alloc (List Piece) := do
  return (← bestFitLoop force len len).getD []

def allocateBlocks (force : Bool) (len : Nat) : Alloc (Option BlockAllocation) := do
  match ← ext4AllocateBestFit force len with
  | [] => return none
  | reg :: rest =>
    return some ⟨linkPieces 0 none (reg :: rest), ⟨some 0, some 0, some 0, 0⟩, .empty⟩

def reduceLoop : Nat → BlockAllocation → Nat → Alloc BlockAllocation
  | _, alloc, 0 => return alloc
  | 0, _, _ + 1 => Run.crash
  | fuel + 1, alloc, len => do
    let lastReg ← Run.expect (alloc.regions.look alloc.list.last)
    if lastReg.len > len then
      onGroup lastReg.bg (Run.update fun bg => bg.releaseBlocks len)
      let a ← Run.expect
        (alloc.regions.modify alloc.list.last fun r => { r with len := r.len - len })
      return { alloc with regions := a }
    else
      onGroup lastReg.bg (Run.update fun bg => bg.releaseBlocks lastReg.len)
      let (a, list) ← match lastReg.prev with
        | some p => do
          let a ← Run.expect (alloc.regions.modify (some p) fun r => { r with next := none })
          pure (a, alloc.list)
        | none => pure (alloc.regions, RegionList.empty)
      let a ← Run.expect (a.free alloc.list.last)
      reduceLoop fuel { alloc with regions := a, list } (len - lastReg.len)

def reduceAllocation (alloc : BlockAllocation) (len : Nat) : Alloc BlockAllocation :=
  reduceLoop len alloc len

-- region_list_append cuts the chain it is given, so this loop ends after one turn.
def appendOobLoop : Nat → BlockAllocation → Option Nat → Option BlockAllocation
  | _, alloc, none => some alloc
  | 0, _, some _ => none
  | fuel + 1, alloc, some reg => do
    let (a, oobList) ← regionListAppend alloc.regions alloc.oobList reg
    let r ← a.look (some reg)
    appendOobLoop fuel { alloc with regions := a, oobList } r.next

def appendOobAllocation (force : Bool) (alloc : BlockAllocation) (len : Nat) :
    Alloc (BlockAllocation × Int) := do
  match ← ext4AllocateBestFit force len with
  | [] =>
    Run.raise force (.failedToAllocateOob len)
    return (alloc, -1)
  | reg :: rest =>
    let n := alloc.regions.length
    let alloc := { alloc with regions := alloc.regions ++ linkPieces n none (reg :: rest) }
    let alloc ← Run.expect (appendOobLoop alloc.regions.length alloc (some n))
    return (alloc, 0)

end MakeExt4fs

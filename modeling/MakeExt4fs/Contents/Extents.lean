import MakeExt4fs.Allocate.Inodes

namespace MakeExt4fs

open ErrorLog Words

inductive ExtentPlace where
  | inode (inode : InodeRef)
  | block (data : Nat)
  deriving DecidableEq, Repr

namespace ExtentPlace

def set (place : ExtentPlace) (f : Field) (v : Nat) : Build Unit :=
  match place with
  | inode r => setField r ⟨(iBlock 0).off + f.off, f.size⟩ v
  | block data => setHeap data f.off f.size v

end ExtentPlace

def ehMagic : Field := ⟨0, 2⟩
def ehEntries : Field := ⟨2, 2⟩
def ehMax : Field := ⟨4, 2⟩
def ehDepth : Field := ⟨6, 2⟩
def ehGeneration : Field := ⟨8, 4⟩
def eiBlock : Field := ⟨12, 4⟩
def eiLeafLo : Field := ⟨16, 4⟩
def eiLeafHi : Field := ⟨20, 2⟩
def eiUnused : Field := ⟨22, 2⟩

def eeBlock (i : Nat) : Field := ⟨12 + 12 * i, 4⟩
def eeLen (i : Nat) : Field := ⟨16 + 12 * i, 2⟩
def eeStartHi (i : Nat) : Field := ⟨18 + 12 * i, 2⟩
def eeStartLo (i : Nat) : Field := ⟨20 + 12 * i, 4⟩

def writeExtentHeader (place : ExtentPlace) (entries max depth : Nat) : Build Unit := do
  place.set ehMagic ext4ExtMagic
  place.set ehEntries entries
  place.set ehMax max
  place.set ehGeneration 0
  place.set ehDepth depth

-- One region after the other; every turn follows a next pointer, so the cells bound the turns.
def backingLoop (info : FsInfo) (queue : Nat → Nat → Nat → Build Unit) :
    Nat → BlockAllocation → Nat → Nat → Build Unit
  | _, _, _, 0 => return ()
  | 0, _, _, _ + 1 => Run.crash
  | fuel + 1, alloc, offset, left + 1 => do
    let (regionBlock, regionLen) ← Run.expect (getRegion alloc)
    let len := u32 (min (u32 (regionLen * info.blockSize.val)) (left + 1))
    queue offset len regionBlock
    let alloc ← Run.expect (getNextRegion alloc)
    backingLoop info queue fuel alloc (offset + len) (left + 1 - len)

-- The buffer, and the allocation is dropped by the caller.
def extentCreateBacking (info : FsInfo) (alloc : BlockAllocation) (backingLen : Nat) :
    Build Nat := do
  let data ← calloc backingLen
  backingLoop info (fun offset len block => sparseFileAddData (.heap data offset) len block)
    (alloc.regions.length + 1) alloc 0 backingLen
  return data

def extentCreateBackingFile (info : FsInfo) (alloc : BlockAllocation) (backingLen : Nat)
    (filename : List UInt8) : Build Unit :=
  backingLoop info (fun offset len block => sparseFileAddFile filename offset len block)
    (alloc.regions.length + 1) alloc 0 backingLen

def writeExtents (place : ExtentPlace) : Nat → BlockAllocation → Nat → Nat → Build Unit
  | 0, alloc, _, _ => if lastRegion alloc then return () else Run.crash
  | fuel + 1, alloc, i, fileBlock =>
    if lastRegion alloc then
      return ()
    else do
      let (regionBlock, regionLen) ← Run.expect (getRegion alloc)
      place.set (eeBlock i) fileBlock
      place.set (eeLen i) regionLen
      place.set (eeStartHi i) 0
      place.set (eeStartLo i) regionBlock
      let alloc ← Run.expect (getNextRegion alloc)
      writeExtents place fuel alloc (i + 1) (u32 (fileBlock + regionLen))

-- The block of extents for an allocation of more than three regions; nothing comes back where
-- the source gives up.
def createExtentBlock (info : FsInfo) (force : Bool) (inode : InodeRef) (extentBlock : Nat)
    (allocationLen len : Nat) : Build (Option ExtentPlace) := do
  writeExtentHeader (.inode inode) 1 3 1
  setField inode ⟨(iBlock 0).off + eiBlock.off, 4⟩ 0
  setField inode ⟨(iBlock 0).off + eiLeafLo.off, 4⟩ extentBlock
  setField inode ⟨(iBlock 0).off + eiLeafHi.off, 2⟩ 0
  setField inode ⟨(iBlock 0).off + eiUnused.off, 2⟩ 0
  let data ← calloc info.blockSize.val
  sparseFileAddData (.heap data 0) info.blockSize.val extentBlock
  -- 12 / 12 is all that is taken off for the header
  if s32 (sub64 info.blockSize.val 1) < allocationLen then
    Run.raise force (.fileTooBig len)
    return none
  else
    writeExtentHeader (.block data) allocationLen (sub64 info.blockSize.val 12 / 12) 0
    return some (.block data)

-- The number of regions is counted before the spare block is given back or set aside.
def placeExtents (info : FsInfo) (force : Bool) (inode : InodeRef) (alloc : BlockAllocation)
    (len : Nat) : Build (Option (BlockAllocation × Nat × ExtentPlace)) := do
  let allocationLen ← Run.expect (blockAllocationNumRegions alloc)
  let (alloc, extentBlock) ←
    if allocationLen ≤ 3 then do
      let alloc ← onAux (reduceAllocation alloc 1)
      pure (alloc, 0)
    else do
      let (alloc, _) ← Run.expect (reserveOobBlocks alloc 1)
      let block ← Run.expect (getOobBlock alloc 0)
      pure (alloc, block)
  if extentBlock = 0 then
    writeExtentHeader (.inode inode) allocationLen 3 0
    return some (alloc, 0, .inode inode)
  else
    match ← createExtentBlock info force inode extentBlock allocationLen len with
    | none => return none
    | some place => return some (alloc, extentBlock, place)

def setExtentSizes (info : FsInfo) (inode : InodeRef) (len blockLen : Nat) : Build Unit := do
  let blocks := blockLen * info.blockSize.val / 512
  let flags ← getField inode iFlags
  setField inode iFlags (flags ||| ext4ExtentsFl)
  setField inode iSizeLo len
  setField inode iSizeHigh (len / 4294967296)
  setField inode iBlocksLo blocks
  setField inode iBlocksHigh (blocks / 4294967296)

def doInodeAllocateExtents (info : FsInfo) (force : Bool) (inode : InodeRef) (len : Nat) :
    Build (Option BlockAllocation) := do
  let blockLen := u32 (divRoundUp64 len info.blockSize.val)
  match ← onAux (allocateBlocks force (u32 (blockLen + 1))) with
  | none =>
    Run.raise force (.failedToAllocate (u32 (blockLen + 1)))
    return none
  | some alloc =>
    match ← placeExtents info force inode alloc len with
    | none => return none
    | some (alloc, extentBlock, place) =>
      writeExtents place alloc.regions.length alloc 0 0
      setExtentSizes info inode len (if extentBlock = 0 then blockLen else u32 (blockLen + 1))
      return some (rewindAlloc alloc)

def inodeAllocateDataExtents (info : FsInfo) (force : Bool) (inode : InodeRef)
    (len backingLen : Nat) : Build (Option Nat) := do
  match ← doInodeAllocateExtents info force inode len with
  | none =>
    Run.raise force (.failedExtents len)
    return none
  | some alloc =>
    if backingLen = 0 then
      return none
    else
      let data ← extentCreateBacking info alloc backingLen
      return some data

def inodeAllocateFileExtents (info : FsInfo) (force : Bool) (inode : InodeRef) (len : Nat)
    (filename : List UInt8) : Build (Option BlockAllocation) := do
  match ← doInodeAllocateExtents info force inode len with
  | none =>
    Run.raise force (.failedExtents len)
    return none
  | some alloc =>
    extentCreateBackingFile info alloc len filename
    return some alloc

end MakeExt4fs

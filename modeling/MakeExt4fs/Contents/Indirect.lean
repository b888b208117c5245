import MakeExt4fs.Contents.Extents

namespace MakeExt4fs

open ErrorLog Words

-- The loop of advance_list_ptr from reg on: only partial_iter changes, iter never does.
def advanceFrom (a : Arena Region) : Nat → RegionList → Option Nat → Int → Option (RegionList × Int)
  | _, list, none, blocks => some (list, if blocks > 0 then -1 else 0)
  | 0, list, some _, blocks => if blocks > 0 then none else some (list, 0)
  | fuel + 1, list, some i, blocks =>
    if blocks > 0 then do
      let r ← a.look (some i)
      if r.len > u32 (list.partialIter + ofInt32 blocks) then
        some ({ list with partialIter := u32 (list.partialIter + ofInt32 blocks) }, 0)
      else
        let blocks := s32 (sub32 (ofInt32 blocks) (sub32 r.len list.partialIter))
        advanceFrom a fuel { list with partialIter := 0 } r.next blocks
    else
      some (list, 0)

def advanceListPtr (a : Arena Region) (list : RegionList) (blocks : Int) :
    Option (RegionList × Int) :=
  advanceFrom a a.length list list.iter blocks

def advanceBlocks (alloc : BlockAllocation) (blocks : Int) : Option (BlockAllocation × Int) := do
  let (list, r) ← advanceListPtr alloc.regions alloc.list blocks
  some ({ alloc with list }, r)

def advanceOobBlocks (alloc : BlockAllocation) (blocks : Int) : Option (BlockAllocation × Int) := do
  let (oobList, r) ← advanceListPtr alloc.regions alloc.oobList blocks
  some ({ alloc with oobList }, r)

-- The first twelve blocks only; backing_len is the length of one block where this is called.
def createBacking (info : FsInfo) (alloc : BlockAllocation) (backingLen : Nat) : Build Nat :=
  if divRoundUp64 backingLen info.blockSize.val > ext4NdirBlocks then do
    Run.raise false .indirectBackingTooLarge
    Run.crash
  else
    extentCreateBacking info alloc backingLen

def fillIndirectBlock (block len : Nat) (alloc : BlockAllocation) : Build Unit :=
  Run.each (List.range len) fun i => do
    let b ← Run.expect (getBlock alloc i)
    setHeap block (4 * i) 4 b

-- The loop of fill_dindirect_block and of fill_tindirect_block: one child after the other takes
-- the next block out of band; `below` fills it and says whether to go on.
def fillChildren (info : FsInfo) (force : Bool) (perBlock : Nat)
    (below : Nat → Nat → BlockAllocation → Build (BlockAllocation × Bool)) (block : Nat) :
    Nat → Nat → Nat → BlockAllocation → Build BlockAllocation
  | _, _, 0, alloc => return alloc
  | 0, _, _ + 1, _ => Run.crash
  | fuel + 1, i, len + 1, alloc => do
    let child ← Run.expect (getOobBlock alloc 0)
    let (alloc, r) ← Run.expect (advanceOobBlocks alloc 1)
    if r ≠ 0 then
      Run.raise force .failedToReserveOob
      return alloc
    else
      setHeap block (4 * i) 4 child
      let data ← calloc info.blockSize.val
      sparseFileAddData (.heap data 0) info.blockSize.val child
      let childLen := min perBlock (len + 1)
      let (alloc, goOn) ← below data childLen alloc
      if goOn then
        fillChildren info force perBlock below block fuel (i + 1) (len + 1 - childLen) alloc
      else
        return alloc

def fillDindirectBlock (info : FsInfo) (force : Bool) (block len : Nat)
    (alloc : BlockAllocation) : Build BlockAllocation := do
  let fs ← Run.read
  fillChildren info force (s32 fs.aux.blocksPerInd).toNat
    (fun data childLen alloc => do
      fillIndirectBlock data childLen alloc
      let (alloc, r) ← Run.expect (advanceBlocks alloc childLen)
      if r ≠ 0 then
        Run.raise force (.failedToAdvance childLen)
        return (alloc, false)
      else
        return (alloc, true))
    block len 0 len alloc

def fillTindirectBlock (info : FsInfo) (force : Bool) (block len : Nat)
    (alloc : BlockAllocation) : Build BlockAllocation := do
  let fs ← Run.read
  fillChildren info force (s32 fs.aux.blocksPerDind).toNat
    (fun data childLen alloc => do
      let alloc ← fillDindirectBlock info force data childLen alloc
      return (alloc, true))
    block len 0 len alloc

abbrev Attached := BlockAllocation × Nat × Int

def inodeAttachDirectBlocks (force : Bool) (inode : InodeRef) (alloc : BlockAllocation)
    (blockLen : Nat) : Build Attached := do
  let len := min blockLen ext4NdirBlocks
  Run.each (List.range len) fun i => do
    let block ← Run.expect (getBlock alloc i)
    setField inode (iBlock i) block
  let (alloc, r) ← Run.expect (advanceBlocks alloc len)
  if r ≠ 0 then
    Run.raise force (.failedToAdvance len)
    return (alloc, blockLen, -1)
  else
    return (alloc, blockLen - len, 0)

-- inode_attach_indirect_blocks and its two likes: the place in the inode, the number of blocks
-- below it and the way its block is filled tell them apart.
def attachLevel (info : FsInfo) (force : Bool) (slot perBlock : Nat)
    (fill : Nat → Nat → BlockAllocation → Build BlockAllocation) (inode : InodeRef)
    (alloc : BlockAllocation) (blockLen : Nat) : Build Attached := do
  let len := min blockLen perBlock
  let block ← Run.expect (getOobBlock alloc 0)
  setField inode (iBlock slot) block
  let (alloc, r) ← Run.expect (advanceOobBlocks alloc 1)
  if r ≠ 0 then
    Run.raise force .failedToAdvanceOob
    return (alloc, blockLen, -1)
  else
    let data ← calloc info.blockSize.val
    sparseFileAddData (.heap data 0) info.blockSize.val block
    let alloc ← fill data (s32 len).toNat alloc
    let (alloc, r) ← Run.expect (advanceBlocks alloc (s32 len))
    if r ≠ 0 then
      Run.raise force (.failedToAdvance len)
      return (alloc, blockLen, -1)
    else
      return (alloc, blockLen - len, 0)

def inodeAttachIndirectBlocks (info : FsInfo) (force : Bool) (inode : InodeRef)
    (alloc : BlockAllocation) (blockLen : Nat) : Build Attached := do
  let fs ← Run.read
  attachLevel info force ext4IndBlock fs.aux.blocksPerInd
    (fun data len alloc => do
      fillIndirectBlock data len alloc
      return alloc) inode alloc blockLen

def inodeAttachDindirectBlocks (info : FsInfo) (force : Bool) (inode : InodeRef)
    (alloc : BlockAllocation) (blockLen : Nat) : Build Attached := do
  let fs ← Run.read
  attachLevel info force ext4DindBlock fs.aux.blocksPerDind (fillDindirectBlock info force) inode
    alloc blockLen

def inodeAttachTindirectBlocks (info : FsInfo) (force : Bool) (inode : InodeRef)
    (alloc : BlockAllocation) (blockLen : Nat) : Build Attached := do
  let fs ← Run.read
  attachLevel info force ext4TindBlock fs.aux.blocksPerTind (fillTindirectBlock info force) inode
    alloc blockLen

def attachStep (force : Bool) (what : String)
    (attach : BlockAllocation → Nat → Build Attached) (alloc : BlockAllocation) (count : Nat) :
    Build Attached := do
  let (alloc, count, r) ← attach alloc count
  if r ≠ 0 then
    Run.raise force (.failedToAttach what)
    return (alloc, count, -1)
  else
    return (alloc, count, 0)

def attachSteps (force : Bool) :
    List (String × (BlockAllocation → Nat → Build Attached)) → BlockAllocation → Nat →
      Build Attached
  | [], alloc, count =>
    if count ≠ 0 then do
      Run.raise force (.failedToAttach "blocks left after triply-indirect allocation")
      return (alloc, count, -1)
    else
      return (rewindAlloc alloc, 0, 0)
  | (what, attach) :: rest, alloc, count =>
    if count = 0 then
      attachSteps force rest alloc count
    else do
      let (alloc, count, r) ← attachStep force what attach alloc count
      if r ≠ 0 then
        return (alloc, count, -1)
      else
        attachSteps force rest alloc count

def doInodeAttachIndirect (info : FsInfo) (force : Bool) (inode : InodeRef)
    (alloc : BlockAllocation) (blockLen : Nat) : Build Attached := do
  let (alloc, count, r) ← attachStep force "direct blocks to inode"
    (inodeAttachDirectBlocks force inode) alloc blockLen
  if r ≠ 0 then
    return (alloc, count, -1)
  else
    attachSteps force
      [("indirect blocks to inode", inodeAttachIndirectBlocks info force inode),
        ("dindirect blocks to inode", inodeAttachDindirectBlocks info force inode),
        ("tindirect blocks to inode", inodeAttachTindirectBlocks info force inode)] alloc count

-- A block count is divided by the blocks of each level in turn; zero divisors crash.
def blocksNeeded : List Nat → Nat → Nat → Alloc Nat
  | [], _, _ => do
    Run.raise false .requestTooLarge
    return 0
  | perBlock :: rest, ind, len =>
    if perBlock = 0 then
      Run.crash
    else
      let ind := u32 (ind + divRoundUp32 len perBlock)
      if len ≤ perBlock then
        return ind
      else
        blocksNeeded rest ind (len - perBlock)

def indirectBlocksNeeded (len : Nat) : Alloc Nat := do
  let aux ← Run.read
  if len ≤ ext4NdirBlocks then
    return 0
  else
    blocksNeeded [aux.blocksPerInd, aux.blocksPerDind, aux.blocksPerTind] 0 (len - ext4NdirBlocks)

def doInodeAllocateIndirect (force : Bool) (blockLen : Nat) : Alloc (Option BlockAllocation) := do
  let indirectLen ← indirectBlocksNeeded blockLen
  match ← allocateBlocks force (u32 (blockLen + indirectLen)) with
  | none =>
    Run.raise force (.failedToAllocate (u32 (blockLen + indirectLen)))
    return none
  | some alloc => return some alloc

-- create_backing leaves the allocation at the end of the data, and rewind_alloc takes it back.
def inodeAllocateDataIndirect (info : FsInfo) (force : Bool) (inode : InodeRef)
    (len backingLen : Nat) : Build (Option Nat) := do
  let blockLen := u32 (divRoundUp64 len info.blockSize.val)
  match ← onAux (doInodeAllocateIndirect force blockLen) with
  | none =>
    Run.raise force (.failedExtents len)
    return none
  | some alloc =>
    let data ← if backingLen = 0 then pure none else do
      let data ← createBacking info alloc backingLen
      pure (some data)
    let (_, _, r) ← doInodeAttachIndirect info force inode (rewindAlloc alloc) blockLen
    if r ≠ 0 then
      Run.raise force (.failedToAttach "blocks to indirect inode")
    return data

end MakeExt4fs

import MakeExt4fs.Allocate.Chains
import MakeExt4fs.Allocate.Inodes
import MakeExt4fs.Utils.SuperBlock

namespace MakeExt4fs

open ErrorLog Words

def resizeRegions (info : FsInfo) (aux : FsAuxInfo) : List Nat → BlockAllocation →
    Option BlockAllocation
  | [], alloc => some alloc
  | i :: rest, alloc =>
    if ext4BgHasSuperBlock info i then do
      let alloc ← appendRegion alloc
        (u32 (groupStartBlock info aux i + 1 + aux.bgDescBlocks)) info.bgDescReserveBlocks.val i
      resizeRegions info aux rest alloc
    else
      resizeRegions info aux rest alloc

def resizeSlot (info : FsInfo) (aux : FsAuxInfo) (i : Nat) : Nat :=
  let r := s32 (sub32 i aux.bgDescBlocks % info.bgDescReserveBlocks.val)
  if r < 0 then ofInt32 (r + info.bgDescReserveBlocks.val) else ofInt32 r

def fillResizeEntry (info : FsInfo) (alloc : BlockAllocation) (superblocks dind ind i : Nat) :
    Build Unit := do
  let fs ← Run.read
  let r := resizeSlot info fs.aux i
  let block ← Run.expect (getBlock alloc r)
  setHeap dind (4 * i) 4 block
  Run.each (List.range' 1 (superblocks - 1)) fun j => do
    let b := u32 (j * info.bgDescReserveBlocks.val + r)
    let block ← Run.expect (getBlock alloc b)
    setHeap ind (4 * sub32 (u32 (r * fs.aux.blocksPerInd + j)) 1) 4 block

-- The part of inode_attach_resize that fills the indirect blocks: the double-indirect block, the
-- number of blocks in the allocation and the number of superblocks come back.
def fillResizeBlocks (info : FsInfo) (force : Bool) (alloc : BlockAllocation) :
    Build (Nat × Nat × Nat) := do
  let reserved := info.bgDescReserveBlocks.val
  let blockLen ← Run.expect (blockAllocationLen alloc)
  if reserved = 0 then
    Run.crash
  else
    let superblocks := blockLen / reserved
    if blockLen % reserved ≠ 0 then
      Run.raise false (.reservedNotMultiple reserved)
    let (alloc, _) ← onAux (appendOobAllocation force alloc 1)
    let dindBlock ← Run.expect (getOobBlock alloc 0)
    let dind ← calloc info.blockSize.val
    sparseFileAddData (.heap dind 0) info.blockSize.val dindBlock
    let ind ← calloc (info.blockSize.val * reserved)
    let indBlock ← Run.expect (getBlock alloc 0)
    sparseFileAddData (.heap ind 0) (u32 (info.blockSize.val * reserved)) indBlock
    Run.each (List.range reserved) (fillResizeEntry info alloc superblocks dind ind)
    return (dindBlock, blockLen, superblocks)

def inodeAttachResize (info : FsInfo) (force : Bool) (inode : InodeRef)
    (alloc : BlockAllocation) : Build Unit := do
  let fs ← Run.read
  let (dindBlock, blockLen, superblocks) ← fillResizeBlocks info force alloc
  let lastBlock := u32 (ext4NdirBlocks + fs.aux.blocksPerInd +
    fs.aux.blocksPerInd * (info.bgDescReserveBlocks.val - 1) + superblocks + 4294967294)
  let blocks := (blockLen + 1) * info.blockSize.val / 512
  let size := lastBlock * info.blockSize.val
  setField inode (iBlock ext4DindBlock) dindBlock
  setField inode iFlags 0
  setField inode iBlocksLo (u32 blocks)
  setField inode iBlocksHigh (u16 (blocks / 4294967296))
  setField inode iSizeLo (u32 size)
  setField inode iSizeHigh (u32 (size / 4294967296))

def ext4CreateResizeInode (info : FsInfo) (force : Bool) : Build Unit := do
  let inode ← getInode info ext4ResizeIno
  let fs ← Run.read
  let alloc ← Run.expect
    (resizeRegions info fs.aux (List.range fs.aux.groups) createAllocation)
  inodeAttachResize info force inode alloc
  setField inode iMode 0o100600
  setField inode iLinksCount 1

def reservedPiece (info : FsInfo) (aux : FsAuxInfo) (i : Nat) : Piece :=
  ⟨u32 (groupStartBlock info aux i + 1 + aux.bgDescBlocks), info.bgDescReserveBlocks.val, i⟩

def reservedPieces (info : FsInfo) (aux : FsAuxInfo) : List Piece :=
  ((List.range aux.groups).filter (ext4BgHasSuperBlock info)).map (reservedPiece info aux)

theorem resizeRegions_linked (info : FsInfo) (aux : FsAuxInfo) (groups : List Nat)
    (ps : List Piece) : resizeRegions info aux groups (linkedAlloc ps) =
      some (linkedAlloc (ps ++ (groups.filter (ext4BgHasSuperBlock info)).map
        (reservedPiece info aux))) := by
  induction groups generalizing ps with
  | nil => simp [resizeRegions]
  | cons i rest ih =>
    rw [resizeRegions]
    split
    · rename_i hsb
      have happend := appendRegion_linkedAlloc ps (reservedPiece info aux i)
      simp only [reservedPiece] at happend
      simp only [happend, Option.bind_eq_bind, Option.bind_some, ih, List.filter_cons_of_pos hsb,
        List.map_cons, List.append_assoc, List.singleton_append]
      rfl
    · rename_i hsb
      rw [ih, List.filter_cons_of_neg hsb]

theorem resizeRegions_run (info : FsInfo) (aux : FsAuxInfo) :
    resizeRegions info aux (List.range aux.groups) createAllocation =
      some (linkedAlloc (reservedPieces info aux)) :=
  resizeRegions_linked info aux (List.range aux.groups) []

end MakeExt4fs

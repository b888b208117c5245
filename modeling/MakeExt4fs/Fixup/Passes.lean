import MakeExt4fs.Fixup.Directories
import MakeExt4fs.Utils.SuperBlock

namespace MakeExt4fs

open ErrorLog Interrupt Words

def ext4FeatureIncompatRecover : Nat := 0x4

-- bitmap_get_bit and bitmap_clear_bit on a block that was read.
def blockGetBit (bitmap : Buffer) (bit : Nat) : Bool := (bitmap.get (bit / 8)).testBit (bit % 8)

def blockClearBit (bitmap : Buffer) (bit : Nat) : Buffer :=
  bitmap.putLE (bit / 8) 1 (bitmap.get (bit / 8) &&& (255 - 2 ^ (bit % 8)))

section Volume

variable (v : Volume)

def checkInodeBitmap (noWrite : Bool) (bgNum newInodesPerGroup : Nat) : Fixup Unit := do
  let blockNum ← getDesc (bgInodeBitmap bgNum)
  if v.info.blockSize.val > maxExt4BlockSize then
    Act.crash
  else
    let block ← readBlock v blockNum
    let (block, updated) ← Act.fold
      (List.range' v.info.inodesPerGroup.val (newInodesPerGroup - v.info.inodesPerGroup.val))
      (fun (block, updated) i =>
        if i / 8 < block.size then
          if blockGetBit block i then return (blockClearBit block i, true)
          else return (block, updated)
        else Act.crash) (block, false)
    if updated then writeBlock v noWrite blockNum block

def numBlockGroups : Nat := u32 (divRoundUp64 v.aux.lenBlocks v.info.blocksPerGroup.val)

def groupOffset (i : Nat) : Nat :=
  u64 (i * v.info.blocksPerGroup.val * v.info.blockSize.val)

def descsSize : Nat := u32 (v.info.blockSize.val * v.aux.bgDescBlocks)

def updateSuperblock (noWrite : Bool) (sb : Buffer) (i : Nat) : Fixup Buffer := do
  if ext4BgHasSuperBlock v.info i then
    let sb := sBlockGroupNr.put sb i
    let sb := if i ≠ 0 then setUnmountable sb false else sb
    if !noWrite then
      writeSb (u64 (groupOffset v i + if i = 0 then 1024 else 0)) sb
    lseekOr .seekDescs
      (u64 (groupOffset v i + u32 (v.info.blockSize.val * u32 (v.aux.firstDataBlock + 1))))
    if !noWrite then
      let m ← Act.read
      writeHere .writeDescs (m.bgDesc.view 0 (descsSize v))
    return sb
  else
    return sb

def updateSuperblocksAndBgDesc (noWrite : Bool) (state : FixupState) (newInodesPerGroup : Nat) :
    Fixup Unit := do
  let sb ← readSb
  let added := sub32 newInodesPerGroup (sInodesPerGroup.get sb)
  let totalNewInodes := u32 (numBlockGroups v * added)
  Act.each (List.range (numBlockGroups v)) fun i => do
    if state = .updatingSb then
      setDesc (bgFreeInodesCount i) ((← getDesc (bgFreeInodesCount i)) + added)
    checkInodeBitmap v noWrite i newInodesPerGroup
  if u32 (sInodesCount.get sb + totalNewInodes) ≠ u32 (newInodesPerGroup * numBlockGroups v) then
    Act.fail .inodeCount
  else if v.info.inodeSize.val = 0 ∨ v.info.blockSize.val / v.info.inodeSize.val = 0 then
    Act.crash
  else if newInodesPerGroup % (v.info.blockSize.val / v.info.inodeSize.val) ≠ 0 then
    Act.fail .perGroupAlignment
  else
    let sb := sInodesCount.put sb (sInodesCount.get sb + totalNewInodes)
    let sb := sFreeInodesCount.put sb (sFreeInodesCount.get sb + totalNewInodes)
    let sb := sInodesPerGroup.put sb newInodesPerGroup
    let _ ← Act.fold (List.range v.aux.groups) (updateSuperblock v noWrite) sb

def inUpdatePhase (noWrite : Bool) (state : FixupState) (phase : Fixup Unit) : Fixup Unit := do
  let now ← getFsFixupState noWrite
  if now = state then phase

-- The first of the phases of ext4fixup_internal: only a sanity check, with nothing to be written.
def sanityPhase (depth : Nat) (noWrite : Bool) (rootInode : Buffer) (dirsize : Int)
    (newInodesPerGroup : Nat) : Fixup Unit := do
  recurseDir v noWrite .sanityCheck newInodesPerGroup depth rootInode dirsize
  updateSuperblocksAndBgDesc v true .unset newInodesPerGroup

def markPhase (depth : Nat) (noWrite : Bool) (rootInode : Buffer) (dirsize : Int)
    (newInodesPerGroup : Nat) : Fixup Unit := do
  recurseDir v noWrite .markInodeNums newInodesPerGroup depth rootInode dirsize
  setFsFixupState noWrite .updatingInums

def updatePhase (depth : Nat) (noWrite : Bool) (rootInode : Buffer) (dirsize : Int)
    (newInodesPerGroup : Nat) : Fixup Unit := do
  recurseDir v noWrite .updateInodeNums newInodesPerGroup depth rootInode dirsize
  setFsFixupState noWrite .updatingSb

def superblockPhase (noWrite : Bool) (newInodesPerGroup : Nat) : Fixup Unit := do
  updateSuperblocksAndBgDesc v noWrite .updatingSb newInodesPerGroup
  setFsFixupState noWrite .unset

end Volume

-- With force an error is only printed, and what could not be parsed stays as it was.
def ext4ParseSbInfo (old : FsInfo) (force : Bool) (sb : Ext4SuperBlock) : Fixup Volume := do
  if sb.sMagic ≠ ext4SuperMagic ∧ !force then
    Act.fail (.parse .badMagic)
  else if sb.sState &&& ext4ValidFs ≠ ext4ValidFs ∧ !force then
    Act.fail (.parse .badState)
  else
    let info := (ext4ParseSb sb old).getD old
    let aux ← Act.expect (ext4InitFsAuxInfo info)
    if aux.firstDataBlock ≠ sb.sFirstDataBlock then
      Act.fail (.parse .firstDataBlockMismatch)
    else
      return ⟨info, { aux with sb }⟩

-- The length in bytes as the unsigned number it is computed as.
def lengthOf (sb : Ext4SuperBlock) : Nat :=
  u64 (u32 (1024 <<< sb.sLogBlockSize) * (sb.sBlocksCountHi * 4294967296 + sb.sBlocksCountLo))

-- One call of read gives no more bytes than this.
def maxRead : Nat := 0x7ffff000

def readExt (old : FsInfo) (force : Bool) : Fixup Volume := do
  let sb ← readSb
  let v ← ext4ParseSbInfo old force (superBlockAt sb)
  lseekOr .seekEnd (if (ext4ParseSb (superBlockAt sb) old).isSome then lengthOf (superBlockAt sb)
    else v.info.len.val)
  lseekOr .seekDescs (u32 (v.info.blockSize.val * u32 (v.aux.firstDataBlock + 1)))
  let descs ← readHere .readDescs .readAllDescs (descsSize v)
  if descsSize v > maxRead then
    Act.fail .readAllDescs
  else
    Act.update fun m => { m with
      bgDesc := (Buffer.zeros (v.info.blockSize.val * v.aux.bgDescBlocks)).blit 0 descs }
    return v

structure Prepared where
  volume : Volume
  newInodesPerGroup : Nat
  rootInode : Buffer
  dirsize : Int

def prepare (old : FsInfo) (force : Bool) : Fixup Prepared := do
  call .openImage
  let v ← readExt old force
  if v.info.featIncompat.val &&& ext4FeatureIncompatRecover ≠ 0 then
    Act.fail .needsRecovery
  else if v.aux.sb.sDescSize &&& 0xfffe ≠ sizeofExt2GroupDesc ∧ v.aux.sb.sDescSize &&& 0xfffe ≠ 0 then
    Act.fail .descSize
  else if v.info.featIncompat.val &&& ext4FeatureIncompatFiletype = 0 then
    Act.fail .filetype
  else if v.info.inodeSize.val = 0 ∨ v.info.blockSize.val / v.info.inodeSize.val = 0 then
    Act.crash
  else
    let perBlock := v.info.blockSize.val / v.info.inodeSize.val
    let newInodesPerGroup := u32 (perBlock * divRoundUp32 v.info.inodesPerGroup.val perBlock)
    let rootInode ← readInode v ext4RootIno
    if sIsdir (iMode.get rootInode) then
      return ⟨v, newInodesPerGroup, rootInode, s32 (iBlocksLo.get rootInode * inodeBlockSize)⟩
    else
      Act.fail (.rootNotDirectory ext4RootIno)

def sanityIfUnset (depth : Nat) (noWrite : Bool) (p : Prepared) : Fixup Bool := do
  let state ← getFsFixupState noWrite
  if state = .unset then
    sanityPhase p.volume depth noWrite p.rootInode p.dirsize p.newInodesPerGroup
    return true
  else
    return false

-- Everything in front of the first set_fs_fixup_state.
def untilMarking (depth : Nat) (old : FsInfo) (force noWrite : Bool) : Fixup (Prepared × Bool) := do
  let p ← prepare old force
  let checked ← sanityIfUnset depth noWrite p
  return (p, checked)

def writingPhases (depth : Nat) (noWrite : Bool) (p : Prepared) : Fixup Unit := do
  inUpdatePhase noWrite .markingInums
    (markPhase p.volume depth noWrite p.rootInode p.dirsize p.newInodesPerGroup)
  inUpdatePhase noWrite .updatingInums
    (updatePhase p.volume depth noWrite p.rootInode p.dirsize p.newInodesPerGroup)
  inUpdatePhase noWrite .updatingSb (superblockPhase p.volume noWrite p.newInodesPerGroup)

def ext4fixupInternal (depth : Nat) (old : FsInfo) (force noWrite : Bool) : Fixup Unit := do
  let (p, checked) ← untilMarking depth old force noWrite
  if checked then
    setFsFixupState noWrite .markingInums
  writingPhases depth noWrite p

def Machine.start (device : Disk) (left : Option Nat) : Machine :=
  ⟨device, 0, left, .unset, .zeros 0, []⟩

end MakeExt4fs

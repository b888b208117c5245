import MakeExt4fs.Lib.Buffer
import MakeExt4fs.Lib.ErrorLog

namespace MakeExt4fs

abbrev U16 := Fin 65536

abbrev U32 := Fin 4294967296

instance neZero_u16 : NeZero 65536 := ⟨by decide⟩

instance neZero_u32 : NeZero 4294967296 := ⟨by decide⟩

instance neZero_len : NeZero 9223372036854775808 := ⟨by decide⟩

structure FsInfo where
  len : Fin 9223372036854775808
  blockSize : U32
  blocksPerGroup : U32
  inodesPerGroup : U32
  inodeSize : U32
  inodes : U32
  journalBlocks : U32
  featRoCompat : U16
  featCompat : U16
  featIncompat : U16
  bgDescReserveBlocks : U32
  reservePcnt : U32
  label : List UInt8
  noJournal : Bool
  uuid : List UInt8
  deriving DecidableEq

structure Ext2GroupDesc where
  bgBlockBitmap : Nat
  bgInodeBitmap : Nat
  bgInodeTable : Nat
  bgFreeBlocksCount : Nat
  bgFreeInodesCount : Nat
  bgUsedDirsCount : Nat
  bgFlags : Nat
  bgChecksum : Nat
  deriving DecidableEq

def Ext2GroupDesc.zero : Ext2GroupDesc := ⟨0, 0, 0, 0, 0, 0, 0, 0⟩

structure Ext4SuperBlock where
  sInodesCount : Nat
  sBlocksCountLo : Nat
  sRBlocksCountLo : Nat
  sFreeBlocksCountLo : Nat
  sFreeInodesCount : Nat
  sFirstDataBlock : Nat
  sLogBlockSize : Nat
  sObsoLogFragSize : Nat
  sBlocksPerGroup : Nat
  sObsoFragsPerGroup : Nat
  sInodesPerGroup : Nat
  sMaxMntCount : Nat
  sMagic : Nat
  sState : Nat
  sErrors : Nat
  sCreatorOs : Nat
  sRevLevel : Nat
  sDefResuid : Nat
  sDefResgid : Nat
  sFirstIno : Nat
  sInodeSize : Nat
  sBlockGroupNr : Nat
  sFeatureCompat : Nat
  sFeatureIncompat : Nat
  sFeatureRoCompat : Nat
  sUuid : List UInt8
  sVolumeName : List UInt8
  sReservedGdtBlocks : Nat
  sJournalInum : Nat
  sDefHashVersion : Nat
  sReservedCharPad : Nat
  sDescSize : Nat
  sJnlBlocks : List UInt8
  sBlocksCountHi : Nat
  sRBlocksCountHi : Nat
  sFreeBlocksCountHi : Nat
  sMinExtraIsize : Nat
  sWantExtraIsize : Nat
  sFlags : Nat
  deriving DecidableEq

def Ext4SuperBlock.zero : Ext4SuperBlock :=
  ⟨0, 0, 0, 0, 0, 0, 0, 0, 0, 0, 0, 0, 0, 0, 0, 0, 0, 0, 0, 0, 0, 0, 0, 0, 0, [], [], 0, 0, 0, 0, 0,
    [], 0, 0, 0, 0, 0, 0⟩

-- A bitmap is the number whose bit k is bit k % 8 of the bitmap's byte k / 8.
structure BlockGroupInfo where
  firstBlock : Nat
  headerBlocks : Nat
  dataBlocksUsed : Nat
  hasSuperblock : Bool
  blockBitmap : Nat
  inodeBitmap : Nat
  inodeTable : Option Buffer
  freeBlocks : Nat
  firstFreeBlock : Nat
  freeInodes : Nat
  firstFreeInode : Nat
  flags : Nat
  usedDirs : Nat

def BlockGroupInfo.zero : BlockGroupInfo := ⟨0, 0, 0, false, 0, 0, none, 0, 0, 0, 0, 0, 0⟩

structure FsAuxInfo where
  sb : Ext4SuperBlock
  backupSb : List (Option Ext4SuperBlock)
  bgDesc : List Ext2GroupDesc
  bgs : List BlockGroupInfo
  -- The inode an element belongs to and the heap block that holds its attributes.
  xattrs : List (Nat × Nat)
  firstDataBlock : Nat
  lenBlocks : Nat
  inodeTableBlocks : Nat
  groups : Nat
  bgDescBlocks : Nat
  defaultIFlags : Nat
  blocksPerInd : Nat
  blocksPerDind : Nat
  blocksPerTind : Nat

def ext4AllocateFailed : Nat := 4294967295
def ext4RootIno : Nat := 2
def ext4ResizeIno : Nat := 7
def ext4JournalIno : Nat := 8
def ext4GoodOldFirstIno : Nat := 11
def ext4GoodOldInodeSize : Nat := 128
def ext4BgInodeUninit : Nat := 1
def ext4NdirBlocks : Nat := 12
def ext4IndBlock : Nat := 12
def ext4DindBlock : Nat := 13
def ext4TindBlock : Nat := 14
def ext4NoatimeFl : Nat := 0x80
def ext4ExtentsFl : Nat := 0x80000
def ext4SuperMagic : Nat := 0xEF53
def ext4ValidFs : Nat := 1
def ext4ErrorsRo : Nat := 2
def ext4DynamicRev : Nat := 1
def ext4FeatureCompatHasJournal : Nat := 0x4
def ext4FeatureCompatExtAttr : Nat := 0x8
def ext4FeatureCompatResizeInode : Nat := 0x10
def ext4FeatureRoCompatSparseSuper : Nat := 0x1
def ext4FeatureRoCompatLargeFile : Nat := 0x2
def ext4FeatureRoCompatGdtCsum : Nat := 0x10
def ext4FeatureIncompatFiletype : Nat := 0x2
def ext4FeatureIncompatExtents : Nat := 0x40
def ext4ExtMagic : Nat := 0xf30a
def dxHashTea : Nat := 2
def ext4JnlBackupBlocks : Nat := 1

def sizeofExt2GroupDesc : Nat := 32
def sizeofExt4Inode : Nat := 156

inductive Ext4Error where
  | alreadyReserved
  | failedToReserve (blocks group : Nat)
  | failedToAllocateInGroup (blocks group : Nat)
  | outOfSpace (blocks : Nat)
  | failedToAllocateOob (blocks : Nat)
  | failedToAllocate (blocks : Nat)
  | fileTooBig (len : Nat)
  | failedExtents (len : Nat)
  | failedBacking (len : Nat)
  | indirectBackingTooLarge
  | failedToReserveOob
  | failedToAdvance (blocks : Nat)
  | failedToAdvanceOob
  | blocksRemaining (blocks : Nat)
  | requestTooLarge
  | failedToAttach (what : String)
  | reservedNotMultiple (blocks : Nat)
  | failedInode
  | failedGetInode (inode : Nat)
  | noPrev
  | dentryPastEnd (name : List UInt8) (offset len : Nat)
  | xattrBeyondEnd
  | xattrNotSorted
  | xattrDuplicate
  | getXattrFailed
  | failedFirstInodes
  | failedJournal
  | failedSetPermissions (path : List UInt8)
  | failedSetCapability (path : List UInt8)
  | scandir
  | lstat
  | stat
  | unknownFileType (path : List UInt8)
  | needSize
  | badMagic
  | badState
  | firstDataBlockMismatch
  deriving DecidableEq, Repr

def Ext4Error.text : Ext4Error → String
  | .alreadyReserved => "attempted to reserve already reserved block"
  | .failedToReserve n g => s!"failed to reserve {n} blocks in block group {g}"
  | .failedToAllocateInGroup n g => s!"failed to allocate {n} blocks in block group {g}"
  | .outOfSpace n => s!"failed to allocate {n} blocks, out of space?"
  | .failedToAllocateOob n => s!"failed to allocate {n} blocks"
  | .failedToAllocate n => s!"Failed to allocate {n} blocks"
  | .fileTooBig n => s!"File size {n} is too big to fit in a single extent block"
  | .failedExtents n => s!"failed to allocate extents for {n} bytes"
  | .failedBacking n => s!"failed to create backing for {n} bytes"
  | .indirectBackingTooLarge => "indirect backing larger than 12 blocks"
  | .failedToReserveOob => "failed to reserve oob block"
  | .failedToAdvance n => s!"failed to advance {n} blocks"
  | .failedToAdvanceOob => "failed to advance oob block"
  | .blocksRemaining n => s!"{n} blocks remaining"
  | .requestTooLarge => "request too large"
  | .failedToAttach what => s!"failed to attach {what}"
  | .reservedNotMultiple n => s!"reserved blocks not a multiple of {n}"
  | .failedInode => "failed to allocate inode"
  | .failedGetInode n => s!"failed to get inode {n}"
  | .noPrev => "no prev"
  | .dentryPastEnd _ o n => s!"internal error: dentry ends at {o}, past {n}"
  | .xattrBeyondEnd => "unexpected read beyond end of xattr space"
  | .xattrNotSorted => "BUG: extended attributes are not sorted"
  | .xattrDuplicate => "BUG: duplicate extended attributes detected"
  | .getXattrFailed => "get_xattr: failed to allocate"
  | .failedFirstInodes => "failed to reserve first 10 inodes"
  | .failedJournal => "failed to allocate extents for journal data"
  | .failedSetPermissions _ => "failed to set permissions"
  | .failedSetCapability _ => "failed to set capability"
  | .scandir => "scandir"
  | .lstat => "lstat"
  | .stat => "failed to stat file"
  | .unknownFileType _ => "unknown file type"
  | .needSize => "Need size of filesystem"
  | .badMagic => "superblock magic incorrect"
  | .badState => "filesystem state not valid"
  | .firstDataBlockMismatch => "first data block does not match"

end MakeExt4fs

import MakeExt4fs.Contents.Extents
import MakeExt4fs.Lib.Disk
import MakeExt4fs.Lib.Interrupt

namespace MakeExt4fs

open ErrorLog Interrupt Words

inductive FixupError where
  | openImage
  | seekSb
  | readSb
  | readAllSb
  | writeSb
  | writeAllSb
  | parse (e : Ext4Error)
  | seekEnd
  | seekDescs
  | readDescs
  | readAllDescs
  | writeDescs
  | needsRecovery
  | descSize
  | filetype
  | rootNotDirectory (inum : Nat)
  | readState
  | writeState
  | seekInode (inum : Nat)
  | readInode (inum : Nat)
  | readBlock (blockNum : Nat)
  | seekBlock (blockNum : Nat)
  | writeBlock (blockNum : Nat)
  | inodeCount
  | perGroupAlignment
  | entsDepth
  | idxDepth
  | extentMagic (magic : Nat)
  | dirSize (dirsize : Int) (blockSize : Nat)
  | dirTooBig
  | notDirectory (inum : Nat) (name : List UInt8)
  | mallocDirbuf
  deriving DecidableEq, Repr

def FixupError.text : FixupError → String
  | .openImage => "failed to open filesystem image"
  | .seekSb => "failed to seek to superblock"
  | .readSb => "failed to read superblock"
  | .readAllSb => "failed to read all of superblock"
  | .writeSb => "failed to write superblock"
  | .writeAllSb => "failed to write all of superblock"
  | .parse e => e.text
  | .seekEnd => "failed to seek to end of input image"
  | .seekDescs => "failed to seek to block group descriptors"
  | .readDescs => "failed to read block group descriptors"
  | .readAllDescs => "failed to read all of block group descriptors"
  | .writeDescs => "failed to write block group descriptors"
  | .needsRecovery => "Filesystem needs recovery first, mount and unmount to do that"
  | .descSize => "error: bg_desc_size != sizeof(struct ext2_group_desc)"
  | .filetype => "Expected filesystem to have filetype flag set"
  | .rootNotDirectory n => s!"root inode {n} does not point to a directory"
  | .readState => "cannot read fixup_state"
  | .writeState => "cannot write fixup_state"
  | .seekInode n => s!"failed to seek to inode {n}"
  | .readInode n => s!"failed to read inode {n}"
  | .readBlock n => s!"failed to read block {n}"
  | .seekBlock n => s!"failed to seek to block {n}"
  | .writeBlock n => s!"failed to write block {n}"
  | .inodeCount => "Failed sanity check on new inode count"
  | .perGroupAlignment => "Failed sanity check on new inode per group alignment"
  | .entsDepth => "get_extent_ents called with eh_depth != 0"
  | .idxDepth => "get_extent_idx called with eh_depth == 0"
  | .extentMagic n => s!"extent header has unexpected magic value {n}"
  | .dirSize n bs => s!"dirsize {n} not a multiple of block_size {bs}.  This is unexpected!"
  | .dirTooBig => "Non-extent based directory is too big!"
  | .notDirectory n _ => s!"inode {n} does not point to a directory"
  | .mallocDirbuf => "failed to allocate memory for tmp_dirbuf"

inductive FixupState where
  | unset
  | markingInums
  | updatingInums
  | updatingSb
  deriving DecidableEq, Repr

namespace FixupState

def magic : FixupState → Nat
  | unset => 0
  | markingInums => 0x7000151515565512
  | updatingInums => 0x6121131211735123
  | updatingSb => 0x15e1715151558477

def ofMagic (magic : Nat) : FixupState :=
  if magic = markingInums.magic then markingInums
  else if magic = updatingInums.magic then updatingInums
  else if magic = updatingSb.magic then updatingSb
  else unset

theorem ofMagic_magic (state : FixupState) : ofMagic state.magic = state := by
  cases state <;> rfl

theorem magic_lt (state : FixupState) : state.magic < 18446744073709551616 := by
  cases state <;> decide

end FixupState

-- What a run of the tool changes. The next `left` reads and writes succeed and the one after them
-- fails, as it does when the tool is stopped there; with none, all of them succeed. The run does not
-- look at the writes it has made so far.
structure Machine where
  device : Disk
  pos : Nat
  left : Option Nat
  noWriteFixupState : FixupState
  bgDesc : Buffer
  written : List (Nat × Buffer)

abbrev Fixup := Act FixupError Machine

-- An offset from 2^63 on is negative; past the end of the image it is a fine one.
def lseek (off : Nat) : Fixup Bool := do
  if 9223372036854775808 ≤ off then
    return false
  else
    Act.update fun m => { m with pos := off }
    return true

def lseekOr (e : FixupError) (off : Nat) : Fixup Unit := do
  let there ← lseek off
  if there then return () else Act.fail e

def call (e : FixupError) : Fixup Unit := do
  let m ← Act.read
  match m.left with
  | none => return ()
  | some 0 => Act.fail e
  | some (n + 1) => Act.update fun m => { m with left := some n }

def readHere (e short : FixupError) (len : Nat) : Fixup Buffer := do
  call e
  let m ← Act.read
  if m.pos + len ≤ m.device.size then
    Act.update fun m => { m with pos := m.pos + len }
    return m.device.view m.pos len
  else
    Act.fail short

def writeHere (e : FixupError) (src : Buffer) : Fixup Unit := do
  call e
  Act.update fun m =>
    { m with
      device := m.device.writeAt m.pos src
      pos := m.pos + src.size
      written := m.written ++ [(m.pos, src)] }

def sizeofSuperBlock : Nat := 1024

def readSb : Fixup Buffer := do
  lseekOr .seekSb 1024
  readHere .readSb .readAllSb sizeofSuperBlock

def writeSb (offset : Nat) (sb : Buffer) : Fixup Unit := do
  lseekOr .seekSb offset
  writeHere .writeSb sb

def sInodesCount : Field := ⟨0, 4⟩
def sFreeInodesCount : Field := ⟨16, 4⟩
def sInodesPerGroup : Field := ⟨40, 4⟩
def sBlockGroupNr : Field := ⟨90, 2⟩
def sDescSize : Field := ⟨254, 2⟩

def Field.get (f : Field) (b : Buffer) : Nat := b.getLE f.off f.size

def Field.put (f : Field) (b : Buffer) (v : Nat) : Buffer := b.putLE f.off f.size v

def superBlockAt (b : Buffer) : Ext4SuperBlock where
  sInodesCount := sInodesCount.get b
  sBlocksCountLo := b.get32 4
  sRBlocksCountLo := b.get32 8
  sFreeBlocksCountLo := b.get32 12
  sFreeInodesCount := sFreeInodesCount.get b
  sFirstDataBlock := b.get32 20
  sLogBlockSize := b.get32 24
  sObsoLogFragSize := b.get32 28
  sBlocksPerGroup := b.get32 32
  sObsoFragsPerGroup := b.get32 36
  sInodesPerGroup := sInodesPerGroup.get b
  sMaxMntCount := b.get16 54
  sMagic := b.get16 56
  sState := b.get16 58
  sErrors := b.get16 60
  sCreatorOs := b.get32 72
  sRevLevel := b.get32 76
  sDefResuid := b.get16 80
  sDefResgid := b.get16 82
  sFirstIno := b.get32 84
  sInodeSize := b.get16 88
  sBlockGroupNr := sBlockGroupNr.get b
  sFeatureCompat := b.get32 92
  sFeatureIncompat := b.get32 96
  sFeatureRoCompat := b.get32 100
  sUuid := b.slice 104 16
  sVolumeName := b.slice 120 16
  sReservedGdtBlocks := b.get16 206
  sJournalInum := b.get32 224
  sDefHashVersion := b.get 252
  sReservedCharPad := b.get 253
  sDescSize := sDescSize.get b
  sJnlBlocks := b.slice 268 68
  sBlocksCountHi := b.get32 336
  sRBlocksCountHi := b.get32 340
  sFreeBlocksCountHi := b.get32 344
  sMinExtraIsize := b.get16 348
  sWantExtraIsize := b.get16 350
  sFlags := b.get32 352

def getFsFixupState (noWrite : Bool) : Fixup FixupState := do
  if noWrite then
    let m ← Act.read
    return m.noWriteFixupState
  else
    let _ ← lseek 0
    let magic ← readHere .readState .readState 8
    return .ofMagic (magic.getLE 0 8)

-- The low bit of s_desc_size makes the filesystem unmountable.
def setUnmountable (sb : Buffer) (unmountable : Bool) : Buffer :=
  sDescSize.put sb
    (if unmountable then sDescSize.get sb ||| 1 else sDescSize.get sb &&& 0xfffe)

def setFsFixupState (noWrite : Bool) (state : FixupState) : Fixup Unit := do
  if noWrite then
    Act.update fun m => { m with noWriteFixupState := state }
  else
    let _ ← lseek 0
    writeHere .writeState ((Buffer.zeros 8).putLE 0 8 state.magic)
    let sb ← readSb
    writeSb 1024 (setUnmountable sb (state.magic ≠ 0))

structure Volume where
  info : FsInfo
  aux : FsAuxInfo

def bgInodeBitmap (i : Nat) : Field := ⟨32 * i + 4, 4⟩
def bgInodeTable (i : Nat) : Field := ⟨32 * i + 8, 4⟩
def bgFreeInodesCount (i : Nat) : Field := ⟨32 * i + 14, 2⟩

def getDesc (f : Field) : Fixup Nat := do
  let m ← Act.read
  if f.off + f.size ≤ m.bgDesc.size then return f.get m.bgDesc else Act.crash

def setDesc (f : Field) (v : Nat) : Fixup Unit := do
  let m ← Act.read
  if f.off + f.size ≤ m.bgDesc.size then
    Act.update fun m => { m with bgDesc := f.put m.bgDesc v }
  else
    Act.crash

section Volume

variable (v : Volume)

def computeNewInum (oldInum newInodesPerGroup : Nat) : Nat :=
  let group := sub32 oldInum 1 / v.info.inodesPerGroup.val
  let offset := sub32 oldInum 1 % v.info.inodesPerGroup.val
  u32 (u32 (group * newInodesPerGroup) + offset + 1)

def readInode (inum : Nat) : Fixup Buffer := do
  if v.info.inodesPerGroup.val = 0 then
    Act.crash
  else
    let bgNum := sub32 inum 1 / v.info.inodesPerGroup.val
    let bgOffset := sub32 inum 1 % v.info.inodesPerGroup.val
    let table ← getDesc (bgInodeTable bgNum)
    lseekOr (.seekInode inum)
      (u64 (table * v.info.blockSize.val + u32 (bgOffset * v.info.inodeSize.val)))
    readHere (.readInode inum) (.readInode inum) sizeofExt4Inode

-- A comma in the source drops what lseek says; the read then goes on from where the last one ended.
def readBlock (blockNum : Nat) : Fixup Buffer := do
  let _ ← lseek (u64 (blockNum * v.info.blockSize.val))
  readHere (.readBlock blockNum) (.readBlock blockNum) v.info.blockSize.val

def writeBlock (noWrite : Bool) (blockNum : Nat) (block : Buffer) : Fixup Unit := do
  if noWrite then
    return ()
  else
    lseekOr (.seekBlock blockNum) (u64 (blockNum * v.info.blockSize.val))
    writeHere (.writeBlock blockNum) block

end Volume

section Images

def imageOf (size : Nat) (fields : List (Nat × Nat × Nat)) : Disk :=
  .ofBuffer (fields.foldl (fun b (off, n, val) => b.putLE off n val) (.zeros size))

def noInfo : FsInfo := ⟨0, 0, 0, 0, 0, 0, 0, 0, 0, 0, 0, 0, [], false, []⟩

def noVolume : Volume := ⟨noInfo, ⟨.zero, [], [], [], [], 0, 0, 0, 0, 0, 0, 0, 0, 0⟩⟩

end Images

end MakeExt4fs

import MakeExt4fs.Contents.Extents
import MakeExt4fs.Utils.Crc16

namespace MakeExt4fs

open ErrorLog Words

def jbd2MagicNumber : Nat := 0xc03b3998
def jbd2SuperblockV2 : Nat := 4

-- The word whose bytes in memory are those of n from the highest to the lowest.
def htonl (n : Nat) : Nat :=
  n % 256 * 16777216 + n / 256 % 256 * 65536 + n / 65536 % 256 * 256 + n / 16777216 % 256

def jsbMagic : Field := ⟨0, 4⟩
def jsbBlocktype : Field := ⟨4, 4⟩
def jsbBlocksize : Field := ⟨12, 4⟩
def jsbMaxlen : Field := ⟨16, 4⟩
def jsbFirst : Field := ⟨20, 4⟩
def jsbSequence : Field := ⟨24, 4⟩
def jsbNrUsers : Field := ⟨64, 4⟩

def setBe32 (data : Nat) (f : Field) (v : Nat) : Build Unit := setHeap data f.off f.size (htonl v)

def writeJournalSuperblock (info : FsInfo) (data : Nat) : Build Unit := do
  setBe32 data jsbMagic jbd2MagicNumber
  setBe32 data jsbBlocktype jbd2SuperblockV2
  setBe32 data jsbBlocksize info.blockSize.val
  setBe32 data jsbMaxlen info.journalBlocks.val
  setBe32 data jsbNrUsers 1
  setBe32 data jsbFirst 1
  setBe32 data jsbSequence 1

def getIBlock (r : InodeRef) : Build (List UInt8) :=
  onTable r do
    let b ← Run.read
    return b.slice (r.off + (iBlock 0).off) 60

def ext4CreateJournalInode (info : FsInfo) (force : Bool) : Build Unit := do
  let inode ← getInode info ext4JournalIno
  let len := u32 (info.journalBlocks.val * info.blockSize.val)
  match ← inodeAllocateDataExtents info force inode len len with
  | none => Run.raise force .failedJournal
  | some data =>
    setField inode iMode 0o100600
    setField inode iLinksCount 1
    writeJournalSuperblock info data
    let blocks ← getIBlock inode
    onAux <| Run.update fun aux => { aux with sb := { aux.sb with sJnlBlocks := blocks } }

def updatedDesc (uuid : List UInt8) (i : Nat) (bg : BlockGroupInfo) (desc : Ext2GroupDesc) :
    Ext2GroupDesc :=
  let desc := { desc with
    bgFreeBlocksCount := u16 bg.freeBlocks
    bgFreeInodesCount := u16 bg.freeInodes
    bgUsedDirsCount := u16 (desc.bgUsedDirsCount + bg.usedDirs)
    bgFlags := bg.flags }
  { desc with bgChecksum := groupChecksum uuid i desc }

def updateFreeGroup (i : Nat) : Alloc Unit := do
  let aux ← Run.read
  let bg ← Run.expect aux.bgs[i]?
  let desc ← Run.expect aux.bgDesc[i]?
  Run.write { aux with
    bgDesc := aux.bgDesc.set i (updatedDesc aux.sb.sUuid i bg desc)
    sb := { aux.sb with
      sFreeBlocksCountLo := u32 (aux.sb.sFreeBlocksCountLo + bg.freeBlocks)
      sFreeInodesCount := u32 (aux.sb.sFreeInodesCount + bg.freeInodes) } }

def ext4UpdateFree : Alloc Unit := do
  let aux ← Run.read
  Run.each (List.range aux.groups) updateFreeGroup

end MakeExt4fs

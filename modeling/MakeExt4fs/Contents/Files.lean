import MakeExt4fs.Contents.Indirect
import MakeExt4fs.Contents.Xattr

namespace MakeExt4fs

open ErrorLog Words

def sIfmt : Nat := 0o170000
def sIfsock : Nat := 0o140000
def sIflnk : Nat := 0o120000
def sIfreg : Nat := 0o100000
def sIfblk : Nat := 0o060000
def sIfdir : Nat := 0o040000
def sIfchr : Nat := 0o020000
def sIfifo : Nat := 0o010000

structure HostStat where
  mode : Nat
  size : Nat
  mtime : Int
  rdevMajor : Nat
  rdevMinor : Nat
  deriving DecidableEq, Repr

def HostStat.fileType (st : HostStat) : Nat := st.mode &&& sIfmt

structure SavedAllocation where
  filename : Option (List UInt8)
  alloc : BlockAllocation
  next : Option Nat
  deriving DecidableEq, Repr

structure Tree where
  fs : Fs
  saved : List SavedAllocation

abbrev BuildTree := Run Ext4Error Tree

def onFs {α : Type} (m : Build α) : BuildTree α :=
  Run.zoom (fun t => some t.fs) (fun fs t => { t with fs }) m

def orField (inode : InodeRef) (f : Field) (v : Nat) : Build Unit := do
  setField inode f ((← getField inode f) ||| v)

structure InodeSlots where
  data : Nat
  offsets : List Nat

def makeDirectory (info : FsInfo) (force : Bool) (dirInodeNum : Nat) (dentries : List Dentry)
    (dirs : Nat) : Build (Nat × Option InodeSlots) := do
  let len := directoryLen info dentries
  let inodeNum ← if dirInodeNum ≠ 0 then onAux (allocateInode info) else pure ext4RootIno
  let dirInodeNum := if dirInodeNum ≠ 0 then dirInodeNum else ext4RootIno
  if inodeNum = ext4AllocateFailed then
    Run.raise force .failedInode
    return (ext4AllocateFailed, none)
  else
    onAux (addDirectory info inodeNum)
    let inode ← getInode info inodeNum
    match ← inodeAllocateDataExtents info force inode len len with
    | none =>
      Run.raise force (.failedExtents len)
      return (ext4AllocateFailed, none)
    | some data =>
      let fs ← Run.read
      setField inode iMode sIfdir
      setField inode iLinksCount (u32 (dirs + 2))
      orField inode iFlags fs.aux.defaultIFlags
      let (_, offsets) ← onHeap data (fillDirectory info len inodeNum dirInodeNum dentries)
      Run.update fun fs => { fs with dirs := fs.dirs ++ [inodeNum] }
      return (inodeNum, some ⟨data, offsets⟩)

-- The part of make_directory behind the choice of the inode number.
def directoryAt (info : FsInfo) (force : Bool) (inodeNum dirInodeNum : Nat)
    (dentries : List Dentry) (dirs : Nat) : Build (Nat × Option InodeSlots) := do
  let len := directoryLen info dentries
  onAux (addDirectory info inodeNum)
  let inode ← getInode info inodeNum
  match ← inodeAllocateDataExtents info force inode len len with
  | none =>
    Run.raise force (.failedExtents len)
    return (ext4AllocateFailed, none)
  | some data =>
    let fs ← Run.read
    setField inode iMode sIfdir
    setField inode iLinksCount (u32 (dirs + 2))
    orField inode iFlags fs.aux.defaultIFlags
    let (_, offsets) ← onHeap data (fillDirectory info len inodeNum dirInodeNum dentries)
    Run.update fun fs => { fs with dirs := fs.dirs ++ [inodeNum] }
    return (inodeNum, some ⟨data, offsets⟩)

theorem makeDirectory_eq (info : FsInfo) (force : Bool) (dirInodeNum : Nat) (dentries : List Dentry)
    (dirs : Nat) : makeDirectory info force dirInodeNum dentries dirs =
      (if dirInodeNum ≠ 0 then onAux (allocateInode info) else pure ext4RootIno) >>= fun inodeNum =>
        if inodeNum = ext4AllocateFailed then do
          Run.raise force .failedInode
          return (ext4AllocateFailed, none)
        else
          directoryAt info force inodeNum (if dirInodeNum ≠ 0 then dirInodeNum else ext4RootIno)
            dentries dirs := by
  rw [makeDirectory]
  split <;> rfl

def initInode (inode : InodeRef) (mode : Nat) : Build Unit := do
  let fs ← Run.read
  setField inode iMode mode
  setField inode iLinksCount 1
  orField inode iFlags fs.aux.defaultIFlags

-- The start of make_file, make_link and make_special.
def newInode (info : FsInfo) (force : Bool) (fill : InodeRef → Build Unit) : Build Nat := do
  let inodeNum ← onAux (allocateInode info)
  if inodeNum = ext4AllocateFailed then
    Run.raise force .failedInode
    return ext4AllocateFailed
  else
    let inode ← getInode info inodeNum
    fill inode
    return inodeNum

-- saved_allocation_head is passed by value: the new head is known to make_file alone.
def makeFile (info : FsInfo) (force : Bool) (savedAllocationHead : Option Nat)
    (filename : List UInt8) (len : Nat) : BuildTree Nat := do
  let inodeNum ← onFs (onAux (allocateInode info))
  if inodeNum = ext4AllocateFailed then
    Run.raise force .failedInode
    return ext4AllocateFailed
  else
    let inode ← onFs (getInode info inodeNum)
    if len > 0 then
      match ← onFs (inodeAllocateFileExtents info force inode len filename) with
      | none => pure ()
      | some alloc =>
        Run.update fun t => { t with saved := t.saved ++
          [⟨some filename, alloc, savedAllocationHead⟩] }
    onFs (initInode inode sIfreg)
    return inodeNum

def makeLink (info : FsInfo) (force : Bool) (link : List UInt8) : Build Nat :=
  newInode info force fun inode => do
    let len := u32 link.length
    initInode inode sIflnk
    setField inode iSizeLo len
    if u32 (len + 1) ≤ 60 then
      onTable inode (pokeBytes (inode.off + (iBlock 0).off) (link.take len))
    else
      match ← inodeAllocateDataIndirect info force inode info.blockSize.val info.blockSize.val with
      | none => Run.crash
      | some data =>
        onHeap data (pokeBytes 0 (link.take len))
        setField inode iBlocksLo (info.blockSize.val / 512)

def makeSpecial (info : FsInfo) (force : Bool) (stat : Option HostStat) : Build Nat :=
  match stat with
  | none => do
    Run.raise force .stat
    return ext4AllocateFailed
  | some s =>
    newInode info force fun inode => do
      initInode inode s.fileType
      setField inode ⟨(iBlock 0).off, 1⟩ s.rdevMajor
      setField inode ⟨(iBlock 0).off + 1, 1⟩ s.rdevMinor

def inodeSetPermissions (info : FsInfo) (inodeNum mode uid gid mtime : Nat) : Build Int := do
  let inode ← getInode info inodeNum
  orField inode iMode mode
  setField inode iUid uid
  setField inode iGid gid
  setField inode iMtime mtime
  setField inode iAtime mtime
  setField inode iCtime mtime
  return 0

end MakeExt4fs

import MakeExt4fs.Contents.Dentries

namespace MakeExt4fs

open ErrorLog Words

def ext4XattrMagic : Nat := 0xEA020000
def ext4XattrIndexSecurity : Nat := 6
def sizeofXattrHeader : Nat := 32
def sizeofXattrEntry : Nat := 16

def ext4XattrLen (nameLen : Nat) : Nat := (nameLen + 3 + sizeofXattrEntry) / 4 * 4

def ext4XattrSize (size : Nat) : Nat := (size + 3) / 4 * 4

abbrev OnBuffer := Run Ext4Error Buffer

def peekAt (off n : Nat) : OnBuffer Nat := do
  let b ← Run.read
  if off + n ≤ b.size then return b.getLE off n else Run.crash

def isLastEntry (entry : Nat) : OnBuffer Bool := do
  return (← peekAt entry 4) = 0

def xattrNext (entry : Nat) : OnBuffer Nat := do
  return entry + ext4XattrLen (← peekAt entry 1)

-- Every turn goes at least 16 bytes on, so the bytes of the buffer bound the turns.
def xattrFreeLoop : Nat → Nat → Int → OnBuffer (Nat × Int)
  | 0, _, _ => Run.crash
  | fuel + 1, entry, stop => do
    if ! (← isLastEntry entry) && (entry : Int) < stop then
      let valueSize ← peekAt (entry + 8) 4
      xattrFreeLoop fuel (← xattrNext entry) (stop - ext4XattrSize valueSize)
    else
      return (entry, stop)

def xattrFreeSpace (force : Bool) (entry stop : Nat) : OnBuffer Nat := do
  let b ← Run.read
  let (entry, stop) ← xattrFreeLoop (b.size + 1) entry stop
  if stop < entry then
    Run.raise force .xattrBeyondEnd
    return 0
  else
    return (stop - entry).toNat

def xattrLastLoop : Nat → Nat → OnBuffer Nat
  | 0, _ => Run.crash
  | fuel + 1, entry => do
    if ← isLastEntry entry then
      return entry
    else
      xattrLastLoop fuel (← xattrNext entry)

def xattrGetLast (entry : Nat) : OnBuffer Nat := do
  let b ← Run.read
  xattrLastLoop (b.size + 1) entry

def compareNames (b : Buffer) (next entry : Nat) : Nat → Int
  | 0 => 0
  | n + 1 =>
    if b.get next = b.get entry then compareNames b (next + 1) (entry + 1) n
    else (b.get next : Int) - b.get entry

def xattrCompare (next entry : Nat) : OnBuffer Int := do
  let index := ((← peekAt (next + 1) 1) : Int) - (← peekAt (entry + 1) 1)
  let len := ((← peekAt next 1) : Int) - (← peekAt entry 1)
  let b ← Run.read
  if index ≠ 0 then
    return index
  else if len ≠ 0 then
    return len
  else
    return compareNames b (next + 16) (entry + 16) (b.get next)

def xattrSaneLoop (force : Bool) : Nat → Nat → OnBuffer Unit
  | 0, _ => Run.crash
  | fuel + 1, entry => do
    if ← isLastEntry entry then
      return ()
    else
      let next ← xattrNext entry
      if ← isLastEntry next then
        return ()
      else
        let cmp ← xattrCompare next entry
        if cmp < 0 then
          Run.raise force .xattrNotSorted
        else if cmp = 0 then
          Run.raise force .xattrDuplicate
        else
          xattrSaneLoop force fuel next

def xattrAssertSane (force : Bool) (entry : Nat) : OnBuffer Unit := do
  let b ← Run.read
  xattrSaneLoop force (b.size + 1) entry

def signedChar (c : UInt8) : Nat := if c.toNat < 128 then c.toNat else c.toNat + 4294967040

def hashStep (shift hash x : Nat) : Nat :=
  u32 (hash * 2 ^ shift) ^^^ hash / 2 ^ (32 - shift) ^^^ x

def ext4XattrHashEntry (header entry : Nat) : OnBuffer Unit := do
  let b ← Run.read
  let name := b.slice (entry + 16) (b.get entry)
  let hash := name.foldl (fun h c => hashStep 5 h (signedChar c)) 0
  let hash :=
    if b.get32 (entry + 4) = 0 ∧ b.get32 (entry + 8) ≠ 0 then
      (List.range ((b.get32 (entry + 8) + 3) / 4)).foldl
        (fun h i => hashStep 16 h (b.get32 (header + b.get16 (entry + 2) + 4 * i))) hash
    else hash
  pokeAt (entry + 12) 4 hash

def xattrAddtoRange (force : Bool) (blockStart blockEnd first nameIndex : Nat)
    (name value : List UInt8) : OnBuffer (Option Nat) := do
  if name.length > 255 then
    return none
  else
    let availableSize ← xattrFreeSpace force first blockEnd
    if ext4XattrLen name.length + ext4XattrSize value.length > availableSize then
      return none
    else
      let entry ← xattrGetLast first
      let val := entry + availableSize - ext4XattrSize value.length
      pokeBytes entry (List.replicate (ext4XattrLen name.length) 0)
      pokeAt entry 1 name.length
      pokeAt (entry + 1) 1 nameIndex
      pokeBytes (entry + 16) name
      pokeAt (entry + 4) 4 0
      pokeAt (entry + 8) 4 value.length
      pokeAt (entry + 2) 2 (val - blockStart)
      pokeBytes val (List.replicate (ext4XattrSize value.length) 0)
      pokeBytes val value
      xattrAssertSane force first
      return some entry

def xattrAddtoInode (info : FsInfo) (force : Bool) (inode : InodeRef) (nameIndex : Nat)
    (name value : List UInt8) : Build Int :=
  onTable inode do
    let hdr := inode.off + sizeofExt4Inode
    match ← xattrAddtoRange force (hdr + 4) (inode.off + info.inodeSize.val) (hdr + 4) nameIndex
        name value with
    | none => return -1
    | some _ =>
      pokeAt hdr 4 ext4XattrMagic
      pokeAt (inode.off + iExtraIsize.off) 2 (sizeofExt4Inode - ext4GoodOldInodeSize)
      return 0

-- The list is keyed by the inode's number; the source compares pointers to inodes.
def xattrListFind (aux : FsAuxInfo) (inodeNum : Nat) : Option Nat :=
  (aux.xattrs.find? fun e => e.1 = inodeNum).map Prod.snd

def getXattrBlockForInode (info : FsInfo) (force : Bool) (inode : InodeRef) (inodeNum : Nat) :
    Build Nat := do
  let fs ← Run.read
  match xattrListFind fs.aux inodeNum with
  | some block => return block
  | none =>
    let blockNum ← onAux (allocateBlock force)
    let block ← calloc info.blockSize.val
    setHeap block 0 4 ext4XattrMagic
    setHeap block 4 4 1
    setHeap block 8 4 1
    let blocks ← getField inode iBlocksLo
    setField inode iBlocksLo (u32 (blocks + info.blockSize.val / 512))
    setField inode iFileAclLo blockNum
    sparseFileAddData (.heap block 0) info.blockSize.val blockNum
    onAux <| Run.update fun aux => { aux with xattrs := (inodeNum, block) :: aux.xattrs }
    return block

def xattrAddtoBlock (info : FsInfo) (force : Bool) (inode : InodeRef) (inodeNum nameIndex : Nat)
    (name value : List UInt8) : Build Int := do
  let header ← getXattrBlockForInode info force inode inodeNum
  onHeap header do
    match ← xattrAddtoRange force 0 info.blockSize.val sizeofXattrHeader nameIndex name value with
    | none => return -1
    | some entry =>
      ext4XattrHashEntry 0 entry
      return 0

def xattrAdd (info : FsInfo) (force : Bool) (inodeNum nameIndex : Nat)
    (name value : List UInt8) : Build Int := do
  let inode ← getInode info inodeNum
  let result ← xattrAddtoInode info force inode nameIndex name value
  if result ≠ 0 then
    xattrAddtoBlock info force inode inodeNum nameIndex name value
  else
    return result

def vfsCapRevision : Nat := 0x02000000
def vfsCapFlagsEffective : Nat := 0x000001

def xattrCapsSuffix : List UInt8 := [99, 97, 112, 97, 98, 105, 108, 105, 116, 121]

-- struct vfs_cap_data with nothing inheritable.
def capData (capabilities : Nat) : List UInt8 :=
  Buffer.leBytes 4 (vfsCapRevision ||| vfsCapFlagsEffective) ++ Buffer.leBytes 4 capabilities ++
    List.replicate 4 0 ++ Buffer.leBytes 4 (capabilities / 4294967296) ++ List.replicate 4 0

def inodeSetCapabilities (info : FsInfo) (force : Bool) (inodeNum capabilities : Nat) :
    Build Int :=
  if capabilities = 0 then
    return 0
  else
    xattrAdd info force inodeNum ext4XattrIndexSecurity xattrCapsSuffix (capData capabilities)

end MakeExt4fs

import MakeExt4fs.Contents.Files
import MakeExt4fs.Fixup.Device

namespace MakeExt4fs

open ErrorLog Interrupt Words

inductive Pass where
  | sanityCheck
  | markInodeNums
  | updateInodeNums
  deriving DecidableEq, Repr

def inodeBlockSize : Nat := 512

def maxExt4BlockSize : Nat := 4096

def pendingBit : Nat := 0x80000000

def ext4FtUnknown : Nat := 0

def sIsdir (mode : Nat) : Bool := mode &&& sIfmt = sIfdir

-- A field of some memory; behind its end nothing is defined.
def memGet (f : Field) (b : Buffer) : Fixup Nat :=
  if f.off + f.size ≤ b.size then return f.get b else Act.crash

def ehAt (hdr : Nat) (f : Field) : Field := ⟨hdr + f.off, f.size⟩

-- malloc leaves the block numbers unset.
abbrev BlockList := List (Option Nat)

def setBlock (blockList : BlockList) (i blockNum : Nat) : Fixup BlockList :=
  if i < blockList.length then return blockList.set i (some blockNum) else Act.crash

section Volume

variable (v : Volume)

def sectorsPerBlock : Nat := v.info.blockSize.val / inodeBlockSize

def getDirectBlocks (inode : Buffer) (blockList : BlockList) : Fixup (BlockList × Bool) := do
  if sectorsPerBlock v = 0 then
    Act.crash
  else
    let blocks := iBlocksLo.get inode / sectorsPerBlock v
    let blockList ← Act.fold (List.range (min blocks ext4NdirBlocks))
      (fun blockList i => setBlock blockList i ((iBlock i).get inode)) blockList
    return (blockList, decide (blocks > ext4NdirBlocks))

def getIndirectBlocks (inode : Buffer) (blockList : BlockList) : Fixup BlockList := do
  let indirectBlock ← readBlock v ((iBlock ext4NdirBlocks).get inode)
  Act.fold (List.range (iBlocksLo.get inode / sectorsPerBlock v - ext4NdirBlocks))
    (fun blockList i => do
      let blockNum ← memGet ⟨4 * i, 4⟩ indirectBlock
      setBlock blockList (ext4NdirBlocks + i) blockNum) blockList

def getBlockListIndirect (inode : Buffer) (blockList : BlockList) : Fixup BlockList := do
  let (blockList, more) ← getDirectBlocks v inode blockList
  if more then getIndirectBlocks v inode blockList else return blockList

def getExtentEnts (b : Buffer) (hdr : Nat) (blockList : BlockList) : Fixup BlockList := do
  let depth ← memGet (ehAt hdr ehDepth) b
  if depth ≠ 0 then
    Act.fail .entsDepth
  else
    let entries ← memGet (ehAt hdr ehEntries) b
    Act.fold (List.range entries) (fun blockList i => do
      let first ← memGet (ehAt hdr (eeBlock i)) b
      let len ← memGet (ehAt hdr (eeLen i)) b
      let hi ← memGet (ehAt hdr (eeStartHi i)) b
      let lo ← memGet (ehAt hdr (eeStartLo i)) b
      Act.fold (List.range len) (fun blockList j =>
        setBlock blockList (u32 (first + j)) (hi * 4294967296 + lo + j)) blockList) blockList

-- The source never moves on from the first of the entries. The depth bounds how far the C stack lets
-- the calls nest.
def getExtentIdx : Nat → Buffer → Nat → BlockList → Fixup BlockList
  | 0, _, _, _ => Act.crash
  | depth + 1, b, hdr, blockList => do
    let level ← memGet (ehAt hdr ehDepth) b
    if level = 0 then
      Act.fail .idxDepth
    else
      let entries ← memGet (ehAt hdr ehEntries) b
      Act.fold (List.range entries) (fun blockList _ => do
        let hi ← memGet (ehAt hdr eiLeafHi) b
        let lo ← memGet (ehAt hdr eiLeafLo) b
        if v.info.blockSize.val > maxExt4BlockSize then
          Act.crash
        else
          let block ← readBlock v (hi * 4294967296 + lo)
          let level ← memGet ehDepth block
          if level = 0 then getExtentEnts block 0 blockList
          else getExtentIdx depth block 0 blockList) blockList

def getBlockListExtents (depth : Nat) (inode : Buffer) (blockList : BlockList) :
    Fixup BlockList := do
  let hdr := (iBlock 0).off
  let magic := (ehAt hdr ehMagic).get inode
  if magic ≠ ext4ExtMagic then
    Act.fail (.extentMagic magic)
  else if (ehAt hdr ehDepth).get inode = 0 then
    getExtentEnts inode hdr blockList
  else
    getExtentIdx v depth inode hdr blockList

def getBlockList (depth : Nat) (inode : Buffer) (numBlocks : Nat) : Fixup BlockList :=
  let blockList := List.replicate (numBlocks + 1) none
  if iFlags.get inode &&& ext4ExtentsFl ≠ 0 then
    getBlockListExtents v depth inode blockList
  else if numBlocks > v.info.blockSize.val / 4 + ext4NdirBlocks then
    Act.fail .dirTooBig
  else
    getBlockListIndirect v inode blockList

def direntInode (dirp : Nat) : Field := ⟨dirp, 4⟩
def direntRecLen (dirp : Nat) : Field := ⟨dirp + 4, 2⟩
def direntNameLen (dirp : Nat) : Field := ⟨dirp + 6, 1⟩
def direntFileType (dirp : Nat) : Field := ⟨dirp + 7, 1⟩

-- What strncpy copies of a name: it stops at a zero byte.
def nameFrom (dirbuf : Buffer) : Nat → Nat → Option (List UInt8)
  | _, 0 => some []
  | off, n + 1 =>
    if off < dirbuf.size then
      if dirbuf.get off = 0 then some []
      else (nameFrom dirbuf (off + 1) n).map (UInt8.ofNat (dirbuf.get off) :: ·)
    else none

def isDotName (name : List UInt8) : Bool := name = [46] ∨ name = [46, 46]

def isEntryDir (dirbuf : Buffer) (dirp : Nat) (pass : Pass) : Fixup Bool := do
  let fileType ← memGet (direntFileType dirp) dirbuf
  if fileType = ext4FtDir then
    return true
  else if fileType = ext4FtUnknown then
    let inum ← memGet (direntInode dirp) dirbuf
    if pass = .updateInodeNums ∧ inum &&& pendingBit = 0 then
      return false
    else
      let inode ← readInode v (inum &&& 0x7fffffff)
      return sIsdir (iMode.get inode)
  else
    return false

def passEntry (pass : Pass) (newInodesPerGroup : Nat) (dirbuf : Buffer) (dirp : Nat) : Buffer :=
  let inum := (direntInode dirp).get dirbuf
  match pass with
  | .sanityCheck => dirbuf
  | .markInodeNums => (direntInode dirp).put dirbuf (inum ||| pendingBit)
  | .updateInodeNums =>
    if inum &&& pendingBit ≠ 0 then
      (direntInode dirp).put dirbuf
        (computeNewInum v (inum &&& 0x7fffffff) newInodesPerGroup)
    else dirbuf

-- One turn of the loop over the entries; enter descends into the directory of an inode.
def visitEntry (pass : Pass) (newInodesPerGroup : Nat) (enter : List UInt8 → Nat → Fixup Unit)
    (dirbuf : Buffer) (dirp : Nat) : Fixup Buffer := do
  let inum ← memGet (direntInode dirp) dirbuf
  let nameLen ← memGet (direntNameLen dirp) dirbuf
  let name ← Act.expect (nameFrom dirbuf (dirp + 8) nameLen)
  let isDir ← isEntryDir v dirbuf dirp pass
  if isDir && !isDotName name &&
      (pass ≠ .updateInodeNums || decide (inum &&& pendingBit ≠ 0)) then
    enter name (inum &&& 0x7fffffff)
  return passEntry v pass newInodesPerGroup dirbuf dirp

-- A turn that does not end the loop by itself; rest is the loop from the next entry on.
def nextEntry (pass : Pass) (newInodesPerGroup : Nat) (enter : List UInt8 → Nat → Fixup Unit)
    (rest : Nat → Buffer → Fixup Buffer) (dirp : Nat) (dirbuf : Buffer) : Fixup Buffer := do
  let inum ← memGet (direntInode dirp) dirbuf
  if inum = 0 then
    return dirbuf
  else
    let dirbuf ← visitEntry v pass newInodesPerGroup enter dirbuf dirp
    let recLen ← memGet (direntRecLen dirp) dirbuf
    rest (dirp + recLen) dirbuf

-- An older make_ext4fs left the rest of the last block out of rec_len. The entry in front of such
-- a tail is the one to make longer.
def shortEntry (pass : Pass) (dirsize : Int) (dirp : Nat) (prevDirp : Option Nat) : Option Nat :=
  if pass ≠ .markInodeNums ∧ ofInt32 (dirsize - dirp) ≤ 8 then prevDirp else none

def growRecLen (dirbuf : Buffer) (prev leftoverSpace : Nat) : Buffer :=
  (direntRecLen prev).put dirbuf ((direntRecLen prev).get dirbuf + leftoverSpace)

-- The loop over the entries of a directory. Every turn goes rec_len bytes on, so that more turns
-- than the directory has bytes mean that it never ends.
def walkDir (pass : Pass) (newInodesPerGroup : Nat) (enter : List UInt8 → Nat → Fixup Unit)
    (dirsize : Int) : Nat → Nat → Option Nat → Buffer → Fixup Buffer
  | 0, _, _, _ => Act.crash
  | turns + 1, dirp, prevDirp, dirbuf =>
    if dirsize ≤ dirp then
      return dirbuf
    else
      match shortEntry pass dirsize dirp prevDirp with
      | some prev => return growRecLen dirbuf prev (ofInt32 (dirsize - dirp))
      | none =>
        nextEntry v pass newInodesPerGroup enter
          (fun next => walkDir pass newInodesPerGroup enter dirsize turns next (some dirp))
          dirp dirbuf

def readDirBlocks (blockList : BlockList) (numBlocks : Nat) (dirbuf : Buffer) : Fixup Buffer :=
  Act.fold (List.range numBlocks) (fun dirbuf i => do
    let blockNum ← Act.expect (blockList.getD i none)
    let block ← readBlock v blockNum
    return dirbuf.blit (i * v.info.blockSize.val) block) dirbuf

def writeDirBlocks (noWrite : Bool) (blockList : BlockList) (numBlocks : Nat) (dirbuf : Buffer) :
    Fixup Unit :=
  Act.each (List.range numBlocks) fun i => do
    let blockNum ← Act.expect (blockList.getD i none)
    writeBlock v noWrite blockNum (dirbuf.view (i * v.info.blockSize.val) v.info.blockSize.val)

def recurseDir (noWrite : Bool) (pass : Pass) (newInodesPerGroup : Nat) :
    Nat → Buffer → Int → Fixup Unit
  | 0, _, _ => Act.crash
  | depth + 1, inode, dirsize => do
    if ofInt32 dirsize % v.info.blockSize.val ≠ 0 then
      Act.fail (.dirSize dirsize v.info.blockSize.val)
    else
      let numBlocks := ofInt32 dirsize / v.info.blockSize.val
      let blockList ← getBlockList v depth inode numBlocks
      let dirbuf ← readDirBlocks v blockList numBlocks (.zeros (ofInt32 dirsize))
      let dirbuf ← walkDir v pass newInodesPerGroup (fun name inum => do
        let tmpInode ← readInode v inum
        if sIsdir (iMode.get tmpInode) then
          let tmpDirsize := s32 (iBlocksLo.get tmpInode * inodeBlockSize)
          if tmpDirsize < 0 then
            Act.fail .mallocDirbuf
          else
            recurseDir noWrite pass newInodesPerGroup depth tmpInode tmpDirsize
        else
          Act.fail (.notDirectory inum name)) dirsize (ofInt32 dirsize + 1) 0 none dirbuf
      writeDirBlocks v noWrite blockList numBlocks dirbuf

end Volume

def enterDir (v : Volume) (recurse : Buffer → Int → Fixup Unit) (name : List UInt8) (inum : Nat) :
    Fixup Unit := do
  let tmpInode ← readInode v inum
  if sIsdir (iMode.get tmpInode) then
    if s32 (iBlocksLo.get tmpInode * inodeBlockSize) < 0 then
      Act.fail .mallocDirbuf
    else
      recurse tmpInode (s32 (iBlocksLo.get tmpInode * inodeBlockSize))
  else
    Act.fail (.notDirectory inum name)

theorem recurseDir_succ (v : Volume) (noWrite : Bool) (pass : Pass)
    (newInodesPerGroup depth : Nat) (inode : Buffer) (dirsize : Int) :
    recurseDir v noWrite pass newInodesPerGroup (depth + 1) inode dirsize =
      if ofInt32 dirsize % v.info.blockSize.val ≠ 0 then
        Act.fail (.dirSize dirsize v.info.blockSize.val)
      else
        getBlockList v depth inode (ofInt32 dirsize / v.info.blockSize.val) >>= fun blockList =>
        readDirBlocks v blockList (ofInt32 dirsize / v.info.blockSize.val)
          (.zeros (ofInt32 dirsize)) >>= fun dirbuf =>
        walkDir v pass newInodesPerGroup
          (enterDir v (recurseDir v noWrite pass newInodesPerGroup depth)) dirsize
          (ofInt32 dirsize + 1) 0 none dirbuf >>= fun dirbuf =>
        writeDirBlocks v noWrite blockList (ofInt32 dirsize / v.info.blockSize.val) dirbuf := rfl

end MakeExt4fs

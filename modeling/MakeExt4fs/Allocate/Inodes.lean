import MakeExt4fs.Allocate.Init

namespace MakeExt4fs

open ErrorLog Words

structure InodeRef where
  bg : Nat
  off : Nat
  deriving DecidableEq, Repr

structure Field where
  off : Nat
  size : Nat
  deriving DecidableEq, Repr

def iMode : Field := ⟨0, 2⟩
def iUid : Field := ⟨2, 2⟩
def iSizeLo : Field := ⟨4, 4⟩
def iAtime : Field := ⟨8, 4⟩
def iCtime : Field := ⟨12, 4⟩
def iMtime : Field := ⟨16, 4⟩
def iGid : Field := ⟨24, 2⟩
def iLinksCount : Field := ⟨26, 2⟩
def iBlocksLo : Field := ⟨28, 4⟩
def iFlags : Field := ⟨32, 4⟩
def iBlock (n : Nat) : Field := ⟨40 + 4 * n, 4⟩
def iFileAclLo : Field := ⟨104, 4⟩
def iSizeHigh : Field := ⟨108, 4⟩
def iBlocksHigh : Field := ⟨116, 2⟩
def iExtraIsize : Field := ⟨128, 2⟩

def pokeBuffer (b : Buffer) (off n v : Nat) : Option Buffer :=
  if off + n ≤ b.size then some (b.putLE off n v) else none

def onTable {α : Type} (r : InodeRef) (m : Run Ext4Error Buffer α) : Build α :=
  onAux <| onGroup r.bg <|
    Run.zoom BlockGroupInfo.inodeTable (fun t bg => { bg with inodeTable := some t }) m

def pokeAt (off n v : Nat) : Run Ext4Error Buffer Unit := do
  let b ← Run.read
  match pokeBuffer b off n v with
  | none => Run.crash
  | some b => Run.write b

def setField (r : InodeRef) (f : Field) (v : Nat) : Build Unit :=
  onTable r (pokeAt (r.off + f.off) f.size v)

def getField (r : InodeRef) (f : Field) : Build Nat :=
  onTable r do
    let b ← Run.read
    return b.getLE (r.off + f.off) f.size

def onHeap {α : Type} (id : Nat) (m : Run Ext4Error Buffer α) : Build α :=
  Run.zoom (fun fs : Fs => fs.heap[id]?) (fun b fs => { fs with heap := fs.heap.set id b }) m

def setHeap (id off n v : Nat) : Build Unit := onHeap id (pokeAt off n v)

def inodeTableBlock (info : FsInfo) (aux : FsAuxInfo) (bg : BlockGroupInfo) : Nat :=
  u32 (bg.firstBlock + 2 + if bg.hasSuperblock then superblockBlocks info aux else 0)

def allocateBgInodeTable (info : FsInfo) (i : Nat) : Build Unit := do
  let fs ← Run.read
  match fs.aux.bgs[i]? with
  | none => Run.crash
  | some bg =>
    if bg.inodeTable.isSome then
      return ()
    else
      sparseFileAddData (.inodeTable i) (u32 (fs.aux.inodeTableBlocks * info.blockSize.val))
        (inodeTableBlock info fs.aux bg)
      onAux <| onGroup i <| Run.update fun bg => { bg with
        inodeTable := some (.zeros (fs.aux.inodeTableBlocks * info.blockSize.val))
        flags := bg.flags / 2 * 2 }

def getInode (info : FsInfo) (inode : Nat) : Build InodeRef := do
  let inode := sub32 inode 1
  if info.inodesPerGroup.val = 0 then
    Run.crash
  else
    let bg := inode / info.inodesPerGroup.val
    allocateBgInodeTable info bg
    return ⟨bg, u32 (inode % info.inodesPerGroup.val * info.inodeSize.val)⟩

def setInodeBits : Nat → Nat → Nat → Nat
  | _, 0, bitmap => bitmap
  | inode, n + 1, bitmap => setInodeBits (inode + 1) n (bitmap ||| spanMask inode 1)

def reserveInodes (bg num : Nat) : Alloc Nat :=
  onGroup bg do
    let b ← Run.read
    if b.freeInodes < num then
      return ext4AllocateFailed
    else
      Run.write { b with
        inodeBitmap := setInodeBits (sub32 b.firstFreeInode 1) num b.inodeBitmap
        firstFreeInode := u32 (b.firstFreeInode + num)
        freeInodes := b.freeInodes - num }
      return b.firstFreeInode

def allocateInodeFrom (info : FsInfo) : List Nat → Alloc Nat
  | [] => return ext4AllocateFailed
  | bg :: rest => do
    let inode ← reserveInodes bg 1
    if inode ≠ ext4AllocateFailed then
      return u32 (bg * info.inodesPerGroup.val + inode)
    else
      allocateInodeFrom info rest

def allocateInode (info : FsInfo) : Alloc Nat := do
  let aux ← Run.read
  allocateInodeFrom info (List.range aux.groups)

def addDirectory (info : FsInfo) (inode : Nat) : Alloc Unit :=
  if info.inodesPerGroup.val = 0 then Run.crash
  else onGroup (sub32 inode 1 / info.inodesPerGroup.val) <|
    Run.update fun bg => { bg with usedDirs := u16 (bg.usedDirs + 1) }

end MakeExt4fs

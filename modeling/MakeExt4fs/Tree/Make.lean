import MakeExt4fs.Contents.Journal
import MakeExt4fs.Contents.Resize
import MakeExt4fs.Libsparse.Sparse
import MakeExt4fs.Tree.Build

namespace MakeExt4fs

open ErrorLog Words

structure MakeArgs where
  req : FsRequest
  force : Bool
  directory : Option (List UInt8)
  fsConfigFunc : Option (List UInt8 → Bool → Option FsConfig)
  gzip : Bool
  sparse : Bool
  crc : Bool
  fixedTime : Int
  blockListFile : Bool

-- What the host says about the output file and lists in the directory, and where the buffers of
-- the image are in its memory.
structure MakeHost where
  fdStat : Option FdStat
  listing : Option (List HostEntry)
  place : Source → Nat
  output : Host

def canonicalizeRelSlashes (str : List UInt8) : List UInt8 :=
  if str = [] ∨ str.getLast? = some 47 then str else str ++ [47]

namespace MakeArgs

variable (args : MakeArgs)

def build (info : FsInfo) : BuildArgs where
  info
  force := args.force
  fsConfigFunc := args.fsConfigFunc
  fixedTime := args.fixedTime
  savedAllocationHead := some 0

def rootMtime : Nat := ofInt32 (if args.fixedTime ≠ 1 then args.fixedTime else 0)

def rootMode : Nat := 0o755

end MakeArgs

def buildTree (args : MakeArgs) (info : FsInfo) (listing : Option (List HostEntry)) :
    BuildTree Nat :=
  match args.directory with
  | some directory =>
    buildDirectoryStructure (args.build info) (canonicalizeRelSlashes directory) [] 0
      (scandir listing)
  | none => buildDefaultDirectoryStructure (args.build info)

def prepareImage (args : MakeArgs) (info : FsInfo) : BuildTree Unit :=
  onFs do
    blockAllocatorInit info args.force
    ext4FillInSb info
    let ret ← onAux (reserveInodes 0 10)
    if ret = ext4AllocateFailed then
      Run.raise args.force .failedFirstInodes
    if info.featCompat.val &&& ext4FeatureCompatHasJournal ≠ 0 then
      ext4CreateJournalInode info args.force
    if info.featCompat.val &&& ext4FeatureCompatResizeInode ≠ 0 then
      ext4CreateResizeInode info args.force

def finishImage (args : MakeArgs) (info : FsInfo) (rootInodeNum : Nat) : BuildTree Unit :=
  onFs do
    let _ ← inodeSetPermissions info rootInodeNum MakeArgs.rootMode 0 0 args.rootMtime
    onAux ext4UpdateFree
    ext4QueueSb info

def buildImage (args : MakeArgs) (info : FsInfo) (listing : Option (List HostEntry)) :
    BuildTree Unit := do
  prepareImage args info
  let rootInodeNum ← buildTree args info listing
  finishImage args info rootInodeNum

def zeroAllocation : SavedAllocation := ⟨none, createAllocation, none⟩

def startTree (aux : FsAuxInfo) : Tree := ⟨⟨aux, [], [], []⟩, [zeroAllocation]⟩

def walkFrom (saved : List SavedAllocation) : Nat → Option Nat → List SavedAllocation
  | 0, _ => []
  | fuel + 1, head =>
    match head.bind fun i => saved[i]? with
    | none => []
    | some p => p :: walkFrom saved fuel p.next

-- What make_ext4fs_internal walks: the head is its own copy of the pointer main gave it.
def walkedList (t : Tree) : List SavedAllocation := walkFrom t.saved t.saved.length (some 0)

-- strncmp on a null filename is undefined, and so is strlen on a directory that is not given.
def printable (args : MakeArgs) (t : Tree) : Bool :=
  !args.blockListFile ||
    (args.directory.isSome && (walkedList t).all fun p => p.filename.isSome)

def queueChunk (place : Source → Nat) (bbl : BackedBlockList) : Chunk → Option BackedBlockList
  | .data src len block => backedBlockAddData bbl (place src) len block
  | .file filename offset len block => backedBlockAddFile bbl filename offset len block

def sparseFileOf (place : Source → Nat) (info : FsInfo) (chunks : List Chunk) :
    Option SparseFile := do
  let bbl ← chunks.foldlM (queueChunk place) (backedBlockListNew info.blockSize.val)
  return ⟨info.blockSize.val, info.len.val, bbl.dataBlocks⟩

-- The result is dropped.
def writeExt4Image (h : Host) (s : SparseFile) : Output Unit := do
  let _ ← sparseFileWrite h s
  return ()

theorem exists_of_isOk {ε α : Type} {x : Except ε α} (h : x.isOk = true) : ∃ a, x = .ok a := by
  cases x with
  | error e => cases h
  | ok a => exact ⟨a, rfl⟩

def makeImage (args : MakeArgs) (host : MakeHost) : Except (Stop Ext4Error) (FsInfo × Tree) := do
  let info ← settleInfo args.req host.fdStat
  match ext4InitFsAuxInfo info with
  | none => .error .crash
  | some aux =>
    let (_, (tree, _)) ← buildImage args info host.listing (startTree aux, [])
    return (info, tree)

-- The exit code, and what was done to the output file; nothing where the code crashes.
def makeExt4fsInternal (args : MakeArgs) (host : MakeHost) : Option (Nat × Option Out) :=
  match makeImage args host with
  | .error .crash => none
  | .error (.error _) => some (1, none)
  | .ok (info, tree) =>
    if printable args tree then do
      let s ← sparseFileOf host.place info tree.fs.sparse
      match writeExt4Image host.output s (Out.start s args.gzip args.sparse args.crc) with
      | (.ok (), out) => some (0, some out)
      | (.error _, _) => none
    else
      none

end MakeExt4fs

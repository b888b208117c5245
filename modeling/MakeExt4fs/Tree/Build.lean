import MakeExt4fs.Tree.Host

namespace MakeExt4fs

open ErrorLog Words

def ext4FtRegFile : UInt8 := 1
def ext4FtChrdev : UInt8 := 3
def ext4FtBlkdev : UInt8 := 4
def ext4FtFifo : UInt8 := 5
def ext4FtSock : UInt8 := 6
def ext4FtSymlink : UInt8 := 7

-- The entry of a directory as EXT4_FT_DIR.
def ext4FtDirectory : UInt8 := 2

structure FsConfig where
  uid : Nat
  gid : Nat
  mode : Nat
  capabilities : Nat
  deriving DecidableEq, Repr

structure BuildArgs where
  info : FsInfo
  force : Bool
  fsConfigFunc : Option (List UInt8 → Bool → Option FsConfig)
  fixedTime : Int
  savedAllocationHead : Option Nat

def fileTypeOf (st : HostStat) : Option UInt8 :=
  if st.fileType = sIfreg then some ext4FtRegFile
  else if st.fileType = sIfdir then some ext4FtDirectory
  else if st.fileType = sIfchr then some ext4FtChrdev
  else if st.fileType = sIfblk then some ext4FtBlkdev
  else if st.fileType = sIfifo then some ext4FtFifo
  else if st.fileType = sIfsock then some ext4FtSock
  else if st.fileType = sIflnk then some ext4FtSymlink
  else none

-- The string in the block that readlink writes to; it stays empty when readlink fails.
def linkText (info : FsInfo) (readlink : Option (List UInt8)) : List UInt8 :=
  ((readlink.getD []).take (info.blockSize.val - 1)).takeWhile (· ≠ 0)

-- mtime is 32 bits wide, and -1 stands for no fixed time.
def entryMtime (fixedTime : Int) (st : HostStat) : Nat :=
  ofInt32 (if fixedTime = -1 then st.mtime else fixedTime)

def makeDentry (args : BuildArgs) (fullPath dirPath : List UInt8) (e : HostEntry) (st : HostStat)
    (fileType : UInt8) : Dentry :=
  let path := dirPath ++ e.name
  let config := args.fsConfigFunc.bind fun f => f path (fileType = ext4FtDirectory)
  { path
    fullPath := some (fullPath ++ e.name)
    filename := e.name
    link := if fileType = ext4FtSymlink then linkText args.info e.readlink else []
    size := st.size
    fileType
    mode := config.elim (st.mode % 4096) fun c => u16 c.mode
    uid := config.elim 0 fun c => u16 c.uid
    gid := config.elim 0 fun c => u16 c.gid
    mtime := entryMtime args.fixedTime st
    capabilities := config.elim 0 FsConfig.capabilities }

def scanEntry (args : BuildArgs) (fullPath dirPath : List UInt8) (e : HostEntry) :
    Except Ext4Error Dentry :=
  match e.lstat with
  | none => .error .lstat
  | some st =>
    match fileTypeOf st with
    | none => .error (.unknownFileType (dirPath ++ e.name))
    | some fileType => .ok (makeDentry args fullPath dirPath e st fileType)

-- The dentry of an entry that is left out goes to the next one, whose turn reads the name that
-- was freed in this one.
def scanEntries (args : BuildArgs) (fullPath dirPath : List UInt8) :
    List HostEntry → BuildTree (List Dentry)
  | [] => return []
  | e :: rest =>
    match scanEntry args fullPath dirPath e with
    | .ok d => do
      let ds ← scanEntries args fullPath dirPath rest
      return d :: ds
    | .error err => do
      Run.raise args.force err
      if rest = [] then return [] else Run.crash

def lostAndFoundName : List UInt8 := [108, 111, 115, 116, 43, 102, 111, 117, 110, 100]

-- A lost+found that the host has not; its mtime is the zero of calloc.
def lostAndFound (dirPath : List UInt8) : Dentry where
  path := dirPath ++ lostAndFoundName
  fullPath := none
  filename := lostAndFoundName
  link := []
  size := 0
  fileType := ext4FtDirectory
  mode := 0o700
  uid := 0
  gid := 0
  mtime := 0
  capabilities := 0

def countDirs (dentries : List Dentry) : Nat :=
  u32 (dentries.countP fun d => d.fileType = ext4FtDirectory)

-- build_directory_structure without a directory on the host, below another one.
def buildEmptyDirectory (args : BuildArgs) (dirInode : Nat) : BuildTree Nat := do
  let (inode, _) ← onFs (makeDirectory args.info args.force dirInode [] 0)
  return inode

-- *dentries[i].inode = inode; the pointer is null when make_directory came to nothing.
def patchEntry (slots : Option InodeSlots) (i inode : Nat) : Build Unit := do
  let slots ← Run.expect slots
  let off ← Run.expect slots.offsets[i]?
  setHeap slots.data off 4 inode

def finishEntry (args : BuildArgs) (slots : Option InodeSlots) (i : Nat) (d : Dentry)
    (entryInode : Nat) : Build Unit := do
  patchEntry slots i entryInode
  let ret ← inodeSetPermissions args.info entryInode d.mode d.uid d.gid d.mtime
  if ret ≠ 0 then
    Run.raise args.force (.failedSetPermissions d.path)
  let ret ← inodeSetCapabilities args.info args.force entryInode d.capabilities
  if ret ≠ 0 then
    Run.raise args.force (.failedSetCapability d.path)

def needsLostAndFound (dirInode : Nat) (entries : List HostEntry) : Bool :=
  dirInode = 0 ∧ ∀ e ∈ entries, e.name ≠ lostAndFoundName

mutual

def buildDirectoryStructure (args : BuildArgs) (fullPath dirPath : List UInt8) (dirInode : Nat) :
    Option (List HostEntry) → BuildTree Nat
  | none => do
    Run.raise args.force .scandir
    return ext4AllocateFailed
  | some entries => do
    let dentries ← scanEntries args fullPath dirPath entries
    if needsLostAndFound dirInode entries then
      let all := lostAndFound dirPath :: dentries
      let (inode, slots) ← onFs (makeDirectory args.info args.force dirInode all (countDirs all))
      let entryInode ← buildEmptyDirectory args inode
      onFs (finishEntry args slots 0 (lostAndFound dirPath) entryInode)
      buildEntries args inode slots 1 dentries entries
      return inode
    else
      let (inode, slots) ←
        onFs (makeDirectory args.info args.force dirInode dentries (countDirs dentries))
      buildEntries args inode slots 0 dentries entries
      return inode

def buildEntries (args : BuildArgs) (inode : Nat) (slots : Option InodeSlots) (i : Nat)
    (dentries : List Dentry) : List HostEntry → BuildTree Unit
  | [] => return ()
  | e :: rest =>
    match dentries with
    | [] => return ()
    | d :: ds => do
      let entryInode ← buildEntry args inode d e
      onFs (finishEntry args slots i d entryInode)
      buildEntries args inode slots (i + 1) ds rest

def buildEntry (args : BuildArgs) (inode : Nat) (d : Dentry) : HostEntry → BuildTree Nat
  | .mk _ _ stat _ _ listing =>
    let fullPath := d.fullPath.getD []
    if d.fileType = ext4FtRegFile then
      makeFile args.info args.force args.savedAllocationHead fullPath d.size
    else if d.fileType = ext4FtDirectory then
      buildDirectoryStructure args (fullPath ++ [47]) (d.path ++ [47]) inode listing
    else if d.fileType = ext4FtSymlink then
      onFs (makeLink args.info args.force d.link)
    else if d.fileType = ext4FtChrdev ∨ d.fileType = ext4FtBlkdev ∨ d.fileType = ext4FtSock ∨
        d.fileType = ext4FtFifo then
      onFs (makeSpecial args.info args.force stat)
    else do
      Run.raise args.force (.unknownFileType d.path)
      return 0

end

-- The lost+found of an image that no directory is copied to; its own result codes are not
-- looked at.
def buildDefaultDirectoryStructure (args : BuildArgs) : BuildTree Nat := do
  let d := { lostAndFound [] with
    mtime := if args.fixedTime ≠ -1 then ofInt32 args.fixedTime else 0 }
  let (rootInode, slots) ← onFs (makeDirectory args.info args.force 0 [d] 1)
  let inode ← buildEmptyDirectory args rootInode
  onFs do
    patchEntry slots 0 inode
    let _ ← inodeSetPermissions args.info inode d.mode d.uid d.gid d.mtime
  return rootInode

end MakeExt4fs

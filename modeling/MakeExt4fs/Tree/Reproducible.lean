import MakeExt4fs.Tree.Make
import MakeExt4fs.Tree.SameTree

namespace MakeExt4fs

open ErrorLog Words

section Regions

mutual

def contentsOf (fullPath : List UInt8) : Option (List HostEntry) → List (List UInt8 × List UInt8)
  | none => []
  | some entries => contentsAmong fullPath entries

def contentsAmong (fullPath : List UInt8) : List HostEntry → List (List UInt8 × List UInt8)
  | [] => []
  | e :: rest => contentsIn fullPath e ++ contentsAmong fullPath rest

def contentsIn (fullPath : List UInt8) : HostEntry → List (List UInt8 × List UInt8)
  | .mk name _ _ _ contents listing =>
    (fullPath ++ name, contents) :: contentsOf (fullPath ++ name ++ [47]) listing

end

def hostContents (args : MakeArgs) (listing : Option (List HostEntry)) (path : List UInt8) :
    Option (List UInt8) :=
  (args.directory.map fun directory =>
    contentsOf (canonicalizeRelSlashes directory) (scandir listing)).bind fun files =>
      files.lookup path

inductive RegionData where
  | superBlock (sb : Ext4SuperBlock)
  | groupDescs (descs : List Ext2GroupDesc)
  | bitmaps (block inode : Nat)
  | bytes (bytes : List UInt8)
  deriving DecidableEq

def sourceData (fs : Fs) (len : Nat) : Source → Option RegionData
  | .sb => some (.superBlock fs.aux.sb)
  | .sbBlock => some (.superBlock fs.aux.sb)
  | .backupSb group => (fs.aux.backupSb[group]?).join.map .superBlock
  | .bgDesc => some (.groupDescs fs.aux.bgDesc)
  | .bitmaps group => fs.aux.bgs[group]?.map fun bg => .bitmaps bg.blockBitmap bg.inodeBitmap
  | .inodeTable group =>
    (fs.aux.bgs[group]?.bind BlockGroupInfo.inodeTable).map fun b => .bytes (b.slice 0 len)
  | .heap buffer offset => fs.heap[buffer]?.map fun b => .bytes (b.slice offset len)

structure QueuedRegion where
  block : Nat
  len : Nat
  data : Option RegionData
  deriving DecidableEq

def queuedRegion (fs : Fs) (contents : List UInt8 → Option (List UInt8)) : Chunk → QueuedRegion
  | .data src len block => ⟨block, len, sourceData fs len src⟩
  | .file filename offset len block =>
    ⟨block, len, (contents filename).map fun bytes => .bytes ((bytes.drop offset).take len)⟩

def queuedRegions (args : MakeArgs) (host : MakeHost) :
    Except (Stop Ext4Error) (List QueuedRegion) := do
  let (_, t) ← makeImage args host
  return t.fs.sparse.map (queuedRegion t.fs (hostContents args host.listing))

end Regions

section Untimed

variable {args : BuildArgs}

theorem fileType_untimed (st : HostStat) : fileTypeOf st.untimed = fileTypeOf st := rfl

theorem scanEntry_untimed (htime : args.fixedTime ≠ -1) (fullPath dirPath : List UInt8)
    (e : HostEntry) :
    scanEntry args fullPath dirPath e.untimed = scanEntry args fullPath dirPath e := by
  obtain ⟨name, lstat, stat, readlink, contents, listing⟩ := e
  cases lstat with
  | none => rfl
  | some st =>
    simp only [scanEntry, HostEntry.untimed, HostEntry.lstat, Option.map_some, fileType_untimed]
    cases fileTypeOf st with
    | none => rfl
    | some fileType =>
      simp only [makeDentry, entryMtime, if_neg htime]
      rfl

theorem scanEntries_untimed (htime : args.fixedTime ≠ -1) (fullPath dirPath : List UInt8)
    (entries : List HostEntry) :
    scanEntries args fullPath dirPath (untimedAll entries) =
      scanEntries args fullPath dirPath entries := by
  induction entries with
  | nil => rfl
  | cons e rest ih =>
    have hempty : untimedAll rest = [] ↔ rest = [] := by
      rw [untimedAll_eq_map, List.map_eq_nil_iff]
    simp only [untimedAll, scanEntries, scanEntry_untimed htime, ih, hempty]

theorem needsLostAndFound_untimed (dirInode : Nat) (entries : List HostEntry) :
    needsLostAndFound dirInode (untimedAll entries) = needsLostAndFound dirInode entries := by
  simp [needsLostAndFound, untimedAll_eq_map]

theorem makeSpecial_untimed (info : FsInfo) (force : Bool) (stat : Option HostStat) :
    makeSpecial info force (stat.map HostStat.untimed) = makeSpecial info force stat := by
  cases stat <;> rfl

mutual

theorem buildDirectoryStructure_untimed (htime : args.fixedTime ≠ -1)
    (fullPath dirPath : List UInt8) (dirInode : Nat) : ∀ listing,
    buildDirectoryStructure args fullPath dirPath dirInode (untimedListing listing) =
      buildDirectoryStructure args fullPath dirPath dirInode listing
  | none => rfl
  | some entries => by
    simp only [untimedListing, buildDirectoryStructure, scanEntries_untimed htime,
      needsLostAndFound_untimed, buildEntries_untimed htime _ _ _ _ entries]

theorem buildEntries_untimed (htime : args.fixedTime ≠ -1) (inode : Nat)
    (slots : Option InodeSlots) (i : Nat) (dentries : List Dentry) : ∀ entries,
    buildEntries args inode slots i dentries (untimedAll entries) =
      buildEntries args inode slots i dentries entries
  | [] => rfl
  | e :: rest => by
    cases dentries with
    | nil => rfl
    | cons d ds =>
      simp only [untimedAll, buildEntries, buildEntry_untimed htime inode d e,
        buildEntries_untimed htime inode slots (i + 1) ds rest]

theorem buildEntry_untimed (htime : args.fixedTime ≠ -1) (inode : Nat) (d : Dentry) : ∀ e,
    buildEntry args inode d e.untimed = buildEntry args inode d e
  | .mk name lstat stat readlink contents listing => by
    simp only [HostEntry.untimed, buildEntry, makeSpecial_untimed,
      buildDirectoryStructure_untimed htime _ _ inode listing]

end

mutual

theorem contentsOf_untimed (fullPath : List UInt8) : ∀ listing,
    contentsOf fullPath (untimedListing listing) = contentsOf fullPath listing
  | none => rfl
  | some entries => contentsAmong_untimed fullPath entries

theorem contentsAmong_untimed (fullPath : List UInt8) : ∀ entries,
    contentsAmong fullPath (untimedAll entries) = contentsAmong fullPath entries
  | [] => rfl
  | e :: rest => by
    rw [untimedAll, contentsAmong, contentsAmong, contentsIn_untimed fullPath e,
      contentsAmong_untimed fullPath rest]

theorem contentsIn_untimed (fullPath : List UInt8) : ∀ e,
    contentsIn fullPath e.untimed = contentsIn fullPath e
  | .mk name lstat stat readlink contents listing => by
    rw [HostEntry.untimed, contentsIn, contentsIn, contentsOf_untimed _ listing]

end

end Untimed

section TwoRuns

variable {args : MakeArgs} {host host' : MakeHost}

theorem settleInfo_len {req : FsRequest} {st st' : Option FdStat}
    (h : req.wantedLen st = req.wantedLen st') : settleInfo req st = settleInfo req st' := by
  have hround : req.roundedLen st = req.roundedLen st' := by simp only [FsRequest.roundedLen, h]
  unfold settleInfo
  generalize req.roundedLen st = len at *
  subst hround
  rw [h]

theorem buildTree_same (htime : args.fixedTime ≠ -1) (info : FsInfo)
    {listing listing' : Option (List HostEntry)} (hsame : SameListing listing listing') :
    buildTree args info listing = buildTree args info listing' := by
  simp only [buildTree]
  cases args.directory with
  | none => rfl
  | some directory =>
    have hnormal := hsame.normal
    have huntimed (listing : Option (List HostEntry)) :
        buildDirectoryStructure (args.build info) (canonicalizeRelSlashes directory) [] 0
            (untimedListing (scandir listing)) =
          buildDirectoryStructure (args.build info) (canonicalizeRelSlashes directory) [] 0
            (scandir listing) :=
      buildDirectoryStructure_untimed htime _ _ _ _
    exact (huntimed listing).symm.trans ((congrArg _ hnormal).trans (huntimed listing'))

theorem makeImage_same (htime : args.fixedTime ≠ -1)
    (hlen : args.req.wantedLen host.fdStat = args.req.wantedLen host'.fdStat)
    (hsame : SameListing host.listing host'.listing) :
    makeImage args host = makeImage args host' := by
  simp only [makeImage, buildImage, settleInfo_len hlen, buildTree_same htime _ hsame]

theorem hostContents_same (hsame : SameListing host.listing host'.listing) :
    hostContents args host.listing = hostContents args host'.listing := by
  funext path
  cases hdir : args.directory with
  | none => simp [hostContents, hdir]
  | some directory =>
    have hcontents : contentsOf (canonicalizeRelSlashes directory) (scandir host.listing) =
        contentsOf (canonicalizeRelSlashes directory) (scandir host'.listing) := by
      rw [← contentsOf_untimed, hsame.normal, contentsOf_untimed]
    simp only [hostContents, hdir, Option.map_some, hcontents]

theorem queuedRegions_same (htime : args.fixedTime ≠ -1)
    (hlen : args.req.wantedLen host.fdStat = args.req.wantedLen host'.fdStat)
    (hsame : SameListing host.listing host'.listing) :
    queuedRegions args host = queuedRegions args host' := by
  simp only [queuedRegions, makeImage_same htime hlen hsame, hostContents_same hsame]

end TwoRuns

section Example

def emptyFile (name : UInt8) (mtime : Int) : HostEntry :=
  .mk [name] (some ⟨0o100644, 0, mtime, 0, 0⟩) (some ⟨0o100644, 0, mtime, 0, 0⟩) none [] none

def twoFilesArgs : MakeArgs where
  req := ⟨262144, 1024, 0, 16, 128, 0, 0, [], true, []⟩
  force := false
  directory := some [115]
  fsConfigFunc := none
  gzip := false
  sparse := false
  crc := false
  fixedTime := 5
  blockListFile := false

def twoFilesHost (entries : List HostEntry) : MakeHost where
  fdStat := none
  listing := some entries
  place _ := 0
  output := ⟨fun _ => 0, fun _ _ => 0, fun _ _ => 0, fun _ => none⟩

theorem queuedRegions_same_swapped :
    queuedRegions twoFilesArgs (twoFilesHost [emptyFile 97 1, emptyFile 98 2]) =
      queuedRegions twoFilesArgs (twoFilesHost [emptyFile 98 77, emptyFile 97 8]) := by
  have hentry : ∀ name mtime mtime', SameEntry (emptyFile name mtime) (emptyFile name mtime') :=
    fun _ _ _ => ⟨rfl, rfl, rfl, rfl, rfl, rfl⟩
  refine queuedRegions_same (by decide) rfl
    ⟨by decide, [emptyFile 98 77, emptyFile 97 8], [emptyFile 97 8, emptyFile 98 77], rfl,
      List.Perm.swap _ _ _, ?_⟩
  exact ⟨_, _, rfl, hentry 97 1 8, _, _, rfl, hentry 98 2 77, rfl⟩

end Example

end MakeExt4fs

import MakeExt4fs.Contents.Links
import MakeExt4fs.Contents.NewData
import MakeExt4fs.Lib.Numbering
import MakeExt4fs.Tree.Build

namespace MakeExt4fs

open ErrorLog Numbering Words

structure Node where
  dentry : Dentry
  stat : Option HostStat

namespace Node

def isDir (x : Node) : Bool := x.dentry.fileType = ext4FtDirectory

def typeBits (x : Node) : Nat :=
  if x.dentry.fileType = ext4FtRegFile then sIfreg
  else if x.dentry.fileType = ext4FtDirectory then sIfdir
  else if x.dentry.fileType = ext4FtSymlink then sIflnk
  else (x.stat.map HostStat.fileType).getD 0

def link (n : Nat) (x : Node) : Link := (n, x.dentry.entry)

end Node

structure Owned (fs : Fs) (r : InodeRef) (owner group time : Nat) : Prop where
  uid : fs.field r iUid = owner % 65536
  gid : fs.field r iGid = group % 65536
  mtime : fs.field r iMtime = time % 4294967296
  atime : fs.field r iAtime = time % 4294967296
  ctime : fs.field r iCtime = time % 4294967296

def dirNumbers (ps : List (Place Node)) : List Nat := (ps.filter (·.label.isDir)).map Place.number

theorem dirNumbers_cons (p : Place Node) (ps : List (Place Node)) : dirNumbers (p :: ps) =
    if p.label.isDir then p.number :: dirNumbers ps else dirNumbers ps := by
  rw [dirNumbers, List.filter_cons]
  split <;> rfl

theorem dirNumbers_append (ps qs : List (Place Node)) :
    dirNumbers (ps ++ qs) = dirNumbers ps ++ dirNumbers qs := by
  rw [dirNumbers, List.filter_append, List.map_append]
  rfl

section Meaning

variable (p : Place Node)

def placeLinks : List Link := p.below.map fun x => x.2.link x.1

def placeListing : List Link :=
  (p.number, ([46], ext4FtDir)) :: (p.up, ([46, 46], ext4FtDir)) :: placeLinks p

def linkCount : Nat := if p.label.isDir then p.below.countP (fun x => x.2.isDir) + 2 else 1

inductive Carries (info : FsInfo) (lo : Nat) (fs : Fs) : Prop
  | file (htype : p.label.dentry.fileType = ext4FtRegFile)
      (hsize : fs.inodeSize (inodeRef info p.number) = p.label.dentry.size)
      (hqueued : FileQueued fs (p.label.dentry.fullPath.getD []) p.label.dentry.size)
  | directory (data : Nat) (b : Buffer) (htype : p.label.dentry.fileType = ext4FtDirectory)
      (hsize : fs.inodeSize (inodeRef info p.number) = b.size)
      (hdata : InMemory lo fs data b.size b)
      (hlist : listDirectory info.blockSize.val b = some (placeListing p))
  | shortLink (htype : p.label.dentry.fileType = ext4FtSymlink)
      (hsize : fs.inodeSize (inodeRef info p.number) = p.label.dentry.link.length)
      (hlen : p.label.dentry.link.length < 60)
      (hlink : (fs.aux.table (inodeRef info p.number).bg).slice
        ((inodeRef info p.number).off + (iBlock 0).off) p.label.dentry.link.length =
          p.label.dentry.link)
  | longLink (data : Nat) (b : Buffer) (htype : p.label.dentry.fileType = ext4FtSymlink)
      (hsize : fs.inodeSize (inodeRef info p.number) = p.label.dentry.link.length)
      (hlen : 60 ≤ p.label.dentry.link.length)
      (hdata : InMemory lo fs data info.blockSize.val b)
      (hlink : b.slice 0 p.label.dentry.link.length = p.label.dentry.link)
  | special (s : HostStat) (htype : p.label.dentry.fileType = ext4FtChrdev ∨
        p.label.dentry.fileType = ext4FtBlkdev ∨ p.label.dentry.fileType = ext4FtSock ∨
        p.label.dentry.fileType = ext4FtFifo)
      (hstat : p.label.stat = some s)
      (hmajor : fs.field (inodeRef info p.number) ⟨(iBlock 0).off, 1⟩ = s.rdevMajor % 256)
      (hminor : fs.field (inodeRef info p.number) ⟨(iBlock 0).off + 1, 1⟩ = s.rdevMinor % 256)

structure Built (info : FsInfo) (lo : Nat) (fs : Fs) : Prop where
  carries : Carries p info lo fs
  mode : fs.field (inodeRef info p.number) iMode = p.label.typeBits % 65536
  links : fs.field (inodeRef info p.number) iLinksCount = linkCount p % 65536

structure Holds (info : FsInfo) (lo : Nat) (fs : Fs) : Prop where
  carries : Carries p info lo fs
  mode : fs.field (inodeRef info p.number) iMode =
    (p.label.typeBits ||| p.label.dentry.mode) % 65536
  links : fs.field (inodeRef info p.number) iLinksCount = linkCount p % 65536
  owned : Owned fs (inodeRef info p.number) p.label.dentry.uid p.label.dentry.gid
    p.label.dentry.mtime

end Meaning

def carrySpans : Stretches := [(4, 8), (40, 100), (108, 112)]

def countSpans : Stretches := (26, 28) :: carrySpans

def heldSpans : Stretches := [(0, 28), (40, 100), (108, 112)]

section Keeping

variable {info : FsInfo} {P : Nat → Nat → Prop} {D : Nat → Prop} {fs fs' : Fs} {lo lo' : Nat}
  {p : Place Node} {spans spans' : Stretches} {r : InodeRef}

theorem Names.within (h : Names P r spans) (hs : ∀ s ∈ spans', ∃ t ∈ spans, t.1 ≤ s.1 ∧ s.2 ≤ t.2) :
    Names P r spans' := by
  intro s hmem i h1 h2
  obtain ⟨t, ht, h3, h4⟩ := hs s hmem
  exact h t ht i (by omega) (by omega)

theorem LeavesAlone.inodeSize (h : LeavesAlone P D fs fs') (hP : Names P r carrySpans) :
    fs'.inodeSize r = fs.inodeSize r := by
  rw [Fs.inodeSize, Fs.inodeSize, h.field (f := iSizeHigh) hP (by decide),
    h.field (f := iSizeLo) hP (by decide)]

theorem Carries.keep (h : Carries p info lo fs) (ha : LeavesAlone P D fs fs')
    (hP : Names P (inodeRef info p.number) carrySpans) (hD : ∀ id, D id → id < lo) :
    Carries p info lo fs' := by
  have hsame := ha.inodeSize hP
  have hout {data : Nat} (hlo : lo ≤ data) : ¬ D data := by
    intro hin
    have := hD data hin
    omega
  cases h with
  | file htype hsize hqueued =>
    exact .file htype (hsame.trans hsize) (hqueued.keep ha.queue)
  | directory data b htype hsize hdata hlist =>
    exact .directory data b htype (hsame.trans hsize) (hdata.keep ha (hout hdata.young)) hlist
  | shortLink htype hsize hlen hlink =>
    refine .shortLink htype (hsame.trans hsize) hlen (Eq.trans ?_ hlink)
    apply Buffer.slice_congr
    intro i h1 h2
    have hblock : (iBlock 0).off = 40 := rfl
    exact ha.bytes _ i (hP (40, 100) (by decide) i (by omega) (by omega))
  | longLink data b htype hsize hlen hdata hlink =>
    exact .longLink data b htype (hsame.trans hsize) hlen (hdata.keep ha (hout hdata.young)) hlink
  | special s htype hstat hmajor hminor =>
    exact .special s htype hstat ((ha.field hP (by decide)).trans hmajor)
      ((ha.field hP (by decide)).trans hminor)

theorem Built.keep (h : Built p info lo fs) (ha : LeavesAlone P D fs fs')
    (hP : Names P (inodeRef info p.number) heldSpans) (hD : ∀ id, D id → id < lo) :
    Built p info lo fs' :=
  ⟨h.carries.keep ha (hP.within (by decide)) hD, (ha.field hP (by decide)).trans h.mode,
    (ha.field hP (by decide)).trans h.links⟩

theorem Holds.keep (h : Holds p info lo fs) (ha : LeavesAlone P D fs fs')
    (hP : Names P (inodeRef info p.number) heldSpans) (hD : ∀ id, D id → id < lo) :
    Holds p info lo fs' := by
  have hfield (f : Field) (hf : f.Within heldSpans) :
      fs'.field (inodeRef info p.number) f = fs.field (inodeRef info p.number) f := ha.field hP hf
  have howned := h.owned
  refine ⟨h.carries.keep ha (hP.within (by decide)) hD, (hfield _ (by decide)).trans h.mode,
    (hfield _ (by decide)).trans h.links, ?_⟩
  exact ⟨(hfield _ (by decide)).trans howned.uid, (hfield _ (by decide)).trans howned.gid,
    (hfield _ (by decide)).trans howned.mtime, (hfield _ (by decide)).trans howned.atime,
    (hfield _ (by decide)).trans howned.ctime⟩

theorem Carries.older (h : Carries p info lo fs) (hle : lo' ≤ lo) : Carries p info lo' fs := by
  cases h with
  | file htype hsize hqueued => exact .file htype hsize hqueued
  | directory data b htype hsize hdata hlist =>
    exact .directory data b htype hsize (hdata.older hle) hlist
  | shortLink htype hsize hlen hlink => exact .shortLink htype hsize hlen hlink
  | longLink data b htype hsize hlen hdata hlink =>
    exact .longLink data b htype hsize hlen (hdata.older hle) hlink
  | special s htype hstat hmajor hminor => exact .special s htype hstat hmajor hminor

theorem Holds.older (h : Holds p info lo fs) (hle : lo' ≤ lo) : Holds p info lo' fs :=
  { h with carries := h.carries.older hle }

end Keeping

end MakeExt4fs

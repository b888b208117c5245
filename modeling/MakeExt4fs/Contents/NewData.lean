import MakeExt4fs.Contents.NewInodes
import MakeExt4fs.Contents.Placed

namespace MakeExt4fs

open ErrorLog Words

def DataQueued (fs : Fs) (data len : Nat) : Prop :=
  ∃ cs, Covers 0 len cs ∧ ∀ c ∈ cs, Backed.chunk data c ∈ fs.sparse

def FileQueued (fs : Fs) (filename : List UInt8) (len : Nat) : Prop :=
  ∃ cs, Covers 0 len cs ∧ ∀ c ∈ cs, Chunk.file filename c.offset c.len c.block ∈ fs.sparse

structure InMemory (lo : Nat) (fs : Fs) (data len : Nat) (b : Buffer) : Prop where
  young : lo ≤ data
  plain : fs.Plain data
  bytes : fs.heap[data]? = some b
  queued : DataQueued fs data len

section Keeping

variable {P : Nat → Nat → Prop} {D : Nat → Prop} {fs fs' : Fs} {lo data len : Nat} {b b' : Buffer}

theorem DataQueued.keep (h : DataQueued fs data len) (hq : fs.sparse <+: fs'.sparse) :
    DataQueued fs' data len := by
  obtain ⟨cs, hcovers, hmem⟩ := h
  exact ⟨cs, hcovers, fun c hc => hq.subset (hmem c hc)⟩

theorem FileQueued.keep {filename : List UInt8} (h : FileQueued fs filename len)
    (hq : fs.sparse <+: fs'.sparse) : FileQueued fs' filename len := by
  obtain ⟨cs, hcovers, hmem⟩ := h
  exact ⟨cs, hcovers, fun c hc => hq.subset (hmem c hc)⟩

theorem InMemory.keep (h : InMemory lo fs data len b) (ha : LeavesAlone P D fs fs')
    (hd : ¬ D data) : InMemory lo fs' data len b := by
  obtain ⟨hplain, hsame⟩ := ha.heap data h.plain hd
  exact ⟨h.young, hplain, hsame.trans h.bytes, h.queued.keep ha.queue⟩

theorem InMemory.write (h : InMemory lo fs data len b) (b' : Buffer) :
    InMemory lo { fs with heap := fs.heap.set data b' } data len b' := by
  have hlt := h.plain.1
  exact ⟨h.young, ⟨by simpa using hlt, h.plain.2⟩, List.getElem?_set_self hlt, h.queued⟩

theorem InMemory.older {lo' : Nat} (h : InMemory lo fs data len b) (hle : lo' ≤ lo) :
    InMemory lo' fs data len b := { h with young := hle.trans h.young }

end Keeping

section Making

variable {L : Layout} {P : Nat → Nat → Prop} {info : FsInfo} {force : Bool} {r : InodeRef}
  {fs fs' : Fs} {l l' : List Ext4Error} {data len backingLen : Nat} {alloc : BlockAllocation}

theorem extentCreateBacking_data (hknown : fs.Known)
    (h : extentCreateBacking info alloc backingLen (fs, l) = .ok (data, (fs', l'))) :
    InMemory fs.heap.length fs' data backingLen (.zeros backingLen) := by
  obtain ⟨id, ⟨fs1, l1⟩, hcalloc, h1⟩ := Run.bind_ok.mp h
  obtain ⟨rfl, rfl, rfl⟩ := calloc_ok hcalloc
  obtain ⟨⟨⟩, ⟨fs2, l2⟩, hloop, hend⟩ := Run.bind_ok.mp h1
  cases hend
  obtain ⟨cs, rfl, hcovers⟩ := backingLoop_covers (Backed.chunk fs.heap.length) hloop
  rw [Nat.zero_add] at hcovers
  refine ⟨le_rfl, ⟨by simp, fun e he => (hknown e he).ne⟩, by simp, cs, hcovers, ?_⟩
  exact fun c hc => List.mem_append_right _ (List.mem_map_of_mem hc)

theorem inodeAllocateDataExtents_data (hp : ApartFrom P r madeSpans) (hL : L.Positive)
    (hk : L.Keeps fs.aux) (hknown : fs.Known)
    (h : inodeAllocateDataExtents info force r len backingLen (fs, l) =
      .ok (some data, (fs', l'))) :
    InMemory fs.heap.length fs' data backingLen (.zeros backingLen) := by
  obtain ⟨found, ⟨fs1, l1⟩, hdo, h1⟩ := Run.bind_ok.mp h
  obtain ⟨hfirst, -⟩ := doInodeAllocateExtents_fills (D := fun _ => False) hp hL len _ _ _ _ _ hdo
  cases found with
  | none =>
    obtain ⟨_, st, -, hend⟩ := Run.bind_ok.mp h1
    cases hend
  | some alloc =>
    dsimp only at h1
    split at h1
    · cases h1
    · obtain ⟨data1, ⟨fs2, l2⟩, hback, hend⟩ := Run.bind_ok.mp h1
      cases hend
      exact (extentCreateBacking_data ((hfirst hk).known hknown) hback).older (hfirst hk).longer

theorem inodeAllocateFileExtents_data {filename : List UInt8}
    (h : inodeAllocateFileExtents info force r len filename (fs, l) =
      .ok (some alloc, (fs', l'))) :
    FileQueued fs' filename len ∧ (len < 18446744073709551616 → fs'.inodeSize r = len) := by
  obtain ⟨found, ⟨fs1, l1⟩, hdo, h1⟩ := Run.bind_ok.mp h
  cases found with
  | none =>
    obtain ⟨_, st, -, hend⟩ := Run.bind_ok.mp h1
    cases hend
  | some alloc0 =>
    obtain ⟨⟨⟩, ⟨fs2, l2⟩, hback, hend⟩ := Run.bind_ok.mp h1
    cases hend
    obtain ⟨cs, rfl, hcovers⟩ :=
      backingLoop_covers (fun c => Chunk.file filename c.offset c.len c.block) hback
    rw [Nat.zero_add] at hcovers
    have hsize (hlen : len < 18446744073709551616) : fs1.inodeSize r = len :=
      doInodeAllocateExtents_size hlen hdo
    refine ⟨⟨cs, hcovers, fun c hc => ?_⟩, hsize⟩
    exact List.mem_append_right _ (List.mem_map_of_mem hc)

theorem inodeAllocateFileExtents_none {filename : List UInt8}
    (h : inodeAllocateFileExtents info force r len filename (fs, l) = .ok (none, (fs', []))) :
    False := by
  obtain ⟨found, ⟨fs1, l1⟩, -, h1⟩ := Run.bind_ok.mp h
  cases found with
  | none =>
    obtain ⟨_, ⟨fs2, l2⟩, hraise, hend⟩ := Run.bind_ok.mp h1
    cases hend
    exact raise_not_quiet hraise
  | some alloc =>
    obtain ⟨⟨⟩, st, -, hend⟩ := Run.bind_ok.mp h1
    cases hend

theorem inodeAllocateDataIndirect_data (hoff : ∀ i < 15, Off P r (iBlock i)) (hk : L.Keeps fs.aux)
    (hknown : fs.Known)
    (h : inodeAllocateDataIndirect info force r len backingLen (fs, l) =
      .ok (some data, (fs', l'))) :
    InMemory fs.heap.length fs' data backingLen (.zeros backingLen) := by
  obtain ⟨found, fs1, l1, hfirst, -, h1⟩ :=
    (onAux_fills (P := P) (D := fun _ => False) (doInodeAllocateIndirect_account (L := L) _)).next
      (refl_of (Fills L P fun _ => False) fs) h
  cases found with
  | none =>
    obtain ⟨⟨⟩, st, -, hend⟩ := Run.bind_ok.mp h1
    cases hend
  | some alloc =>
    have hattached {res : Option Nat} {s s' : Fs} {k k' : List Ext4Error}
        (hrun : attachedData info force r len alloc res (s, k) = .ok (some data, (s', k'))) :
        res = some data ∧ Fills L P (fun _ => False) s s' := attachedData_ok hoff hrun
    simp only [pure_bind] at h1
    split at h1
    · obtain ⟨hnone, -⟩ := hattached h1
      cases hnone
    · obtain ⟨data1, ⟨fs2, l2⟩, hback, h2⟩ := Run.bind_ok.mp h1
      obtain ⟨hdata, hlast⟩ := hattached h2
      cases hdata
      obtain ⟨hsecond, -⟩ := createBacking_fills (P := P) (D := fun _ => False) (L := L) alloc
        backingLen _ _ _ _ _ hback
      unfold createBacking at hback
      split at hback
      · obtain ⟨⟨⟩, st, -, hend⟩ := Run.bind_ok.mp hback
        cases hend
      · have hnew := extentCreateBacking_data ((hfirst hk).known hknown) hback
        have hkeeps := (hsecond (hfirst hk).keeps).keeps
        exact (hnew.older (hfirst hk).longer).keep (hlast hkeeps).toLeavesAlone id

end Making

end MakeExt4fs

import MakeExt4fs.Contents.MadeDirectory

namespace MakeExt4fs

open ErrorLog Words

def DentryError (e : Ext4Error) : Prop :=
  e = .noPrev ∨ ∃ name offset len, e = .dentryPastEnd name offset len

section Spared

variable {info : FsInfo} {force : Bool} {α : Type}

theorem onGroup_spares {m : Run Ext4Error BlockGroupInfo α} (i : Nat)
    (h : Run.Spares DentryError m) : Run.Spares DentryError (onGroup i m) := by
  rw [onGroup]
  exact h.zoom

theorem onAux_spares {m : Alloc α} (h : Run.Spares DentryError m) :
    Run.Spares DentryError (onAux m) := by
  rw [onAux]
  exact h.zoom

theorem onTable_spares {m : Run Ext4Error Buffer α} (r : InodeRef)
    (h : Run.Spares DentryError m) : Run.Spares DentryError (onTable r m) := by
  rw [onTable]
  exact onAux_spares (onGroup_spares _ h.zoom)

theorem onHeap_spares {m : Run Ext4Error Buffer α} (id : Nat) (h : Run.Spares DentryError m) :
    Run.Spares DentryError (onHeap id m) := by
  rw [onHeap]
  exact h.zoom

theorem reserveBlocks_spares (start num : Nat) :
    Run.Spares DentryError (BlockGroupInfo.reserveBlocks force start num) := by
  refine Run.spares_read.bind fun bg => .ite (Run.spares_pure _) ?_
  split
  · refine (Run.spares_write _).bind fun _ => ?_
    exact (Run.spares_raise force (by simp [DentryError])).bind fun _ => Run.spares_pure _
  · exact (Run.spares_write _).bind fun _ => Run.spares_pure _

theorem allocateFromGroup_spares (len bgNum : Nat) :
    Run.Spares DentryError (ext4AllocateBlocksFromBlockGroup force len bgNum) := by
  apply onGroup_spares
  refine Run.spares_read.bind fun bg => .ite (Run.spares_pure _) ?_
  refine (reserveBlocks_spares _ _).bind fun r => .ite ?_ ?_
  · exact (Run.spares_raise force (by simp [DentryError])).bind fun _ => Run.spares_pure _
  · exact (Run.spares_update _).bind fun _ => Run.spares_pure _

theorem bestFitPartial_spares (len : Nat) :
    Run.Spares DentryError (ext4AllocateBestFitPartial force len) := by
  refine Run.spares_read.bind fun aux => .ite ?_ ?_
  · exact (Run.spares_raise force (by simp [DentryError])).bind fun _ => Run.spares_pure _
  · refine (allocateFromGroup_spares _ _).bind fun block => .ite ?_ (Run.spares_pure _)
    exact (Run.spares_raise force (by simp [DentryError])).bind fun _ => Run.spares_pure _

theorem bestFitLoop_spares (fuel len : Nat) :
    Run.Spares DentryError (bestFitLoop force fuel len) := by
  induction fuel generalizing len with
  | zero => exact .ite (Run.spares_pure _) Run.spares_crash
  | succ fuel ih =>
    refine .ite (Run.spares_pure _) ((bestFitPartial_spares len).bind fun found => ?_)
    cases found with
    | none => exact Run.spares_pure _
    | some reg =>
      refine (ih _).bind fun rest => ?_
      cases rest with
      | none => exact Run.spares_pure _
      | some rest => exact Run.spares_pure _

theorem allocateBlocks_spares (len : Nat) :
    Run.Spares DentryError (allocateBlocks force len) := by
  refine Run.Spares.bind ((bestFitLoop_spares len len).bind fun _ => Run.spares_pure _) fun ps => ?_
  cases ps with
  | nil => exact Run.spares_pure _
  | cons reg rest => exact Run.spares_pure _

theorem reduceLoop_spares (fuel : Nat) (alloc : BlockAllocation) (len : Nat) :
    Run.Spares DentryError (reduceLoop fuel alloc len) := by
  induction fuel generalizing alloc len with
  | zero =>
    cases len with
    | zero => exact Run.spares_pure _
    | succ len => exact Run.spares_crash
  | succ fuel ih =>
    cases len with
    | zero => exact Run.spares_pure _
    | succ len =>
      refine (Run.spares_expect _).bind fun lastReg => .ite ?_ ?_
      · refine (onGroup_spares _ (Run.spares_update _)).bind fun _ => ?_
        exact (Run.spares_expect _).bind fun a => Run.spares_pure _
      · refine (onGroup_spares _ (Run.spares_update _)).bind fun _ => ?_
        cases lastReg.prev with
        | none =>
          simp only [pure_bind]
          exact (Run.spares_expect _).bind fun _ => ih _ _
        | some p =>
          simp only [pure_bind]
          refine (Run.spares_expect _).bind fun _ => ?_
          exact (Run.spares_expect _).bind fun _ => ih _ _

theorem pokeAt_spares (off n v : Nat) : Run.Spares DentryError (pokeAt off n v) := by
  refine Run.spares_read.bind fun b => ?_
  cases pokeBuffer b off n v with
  | none => exact Run.spares_crash
  | some b => exact Run.spares_write b

theorem setField_spares (r : InodeRef) (f : Field) (v : Nat) :
    Run.Spares DentryError (setField r f v) := onTable_spares r (pokeAt_spares _ _ _)

theorem getField_spares (r : InodeRef) (f : Field) : Run.Spares DentryError (getField r f) :=
  onTable_spares r (Run.spares_read.bind fun _ => Run.spares_pure _)

theorem place_spares (place : ExtentPlace) (f : Field) (v : Nat) :
    Run.Spares DentryError (place.set f v) := by
  cases place with
  | inode r => exact setField_spares _ _ _
  | block data => exact onHeap_spares data (pokeAt_spares _ _ _)

theorem sparseFileAdd_spares (c : Chunk) : Run.Spares DentryError (sparseFileAdd c) := by
  rw [sparseFileAdd]
  exact Run.spares_update _

theorem calloc_spares (size : Nat) : Run.Spares DentryError (calloc size) :=
  Run.spares_read.bind fun _ => (Run.spares_write _).bind fun _ => Run.spares_pure _

theorem writeExtentHeader_spares (place : ExtentPlace) (entries max depth : Nat) :
    Run.Spares DentryError (writeExtentHeader place entries max depth) :=
  (place_spares _ _ _).bind fun _ => (place_spares _ _ _).bind fun _ =>
    (place_spares _ _ _).bind fun _ => (place_spares _ _ _).bind fun _ => place_spares _ _ _

theorem writeExtents_spares (place : ExtentPlace) (fuel : Nat) (alloc : BlockAllocation)
    (i fileBlock : Nat) : Run.Spares DentryError (writeExtents place fuel alloc i fileBlock) := by
  induction fuel generalizing alloc i fileBlock with
  | zero => exact .ite (Run.spares_pure _) Run.spares_crash
  | succ fuel ih =>
    refine .ite (Run.spares_pure _) ((Run.spares_expect _).bind fun region => ?_)
    refine (place_spares _ _ _).bind fun _ => (place_spares _ _ _).bind fun _ => ?_
    refine (place_spares _ _ _).bind fun _ => (place_spares _ _ _).bind fun _ => ?_
    exact (Run.spares_expect _).bind fun alloc => ih _ _ _

theorem createExtentBlock_spares (r : InodeRef) (extentBlock allocationLen len : Nat) :
    Run.Spares DentryError (createExtentBlock info force r extentBlock allocationLen len) := by
  have hset (n k v : Nat) :
      Run.Spares DentryError (setField r ⟨(iBlock 0).off + n, k⟩ v) := setField_spares _ _ _
  refine (writeExtentHeader_spares _ _ _ _).bind fun _ => ?_
  refine (hset _ _ _).bind fun _ => (hset _ _ _).bind fun _ => ?_
  refine (hset _ _ _).bind fun _ => (hset _ _ _).bind fun _ => ?_
  generalize s32 (sub64 info.blockSize.val 1) = top
  refine (calloc_spares _).bind fun data => (sparseFileAdd_spares _).bind fun _ => ?_
  apply Run.Spares.ite
  · exact (Run.spares_raise force (by simp [DentryError])).bind fun _ => Run.spares_pure _
  · exact (writeExtentHeader_spares _ _ _ _).bind fun _ => Run.spares_pure _

theorem extentsPlaced_spares (r : InodeRef) (alloc : BlockAllocation)
    (extentBlock allocationLen len : Nat) :
    Run.Spares DentryError (if extentBlock = 0 then do
        writeExtentHeader (.inode r) allocationLen 3 0
        return some (alloc, 0, .inode r)
      else do
        match ← createExtentBlock info force r extentBlock allocationLen len with
        | none => return none
        | some place => return some (alloc, extentBlock, place) :
      Build (Option (BlockAllocation × Nat × ExtentPlace))) := by
  refine .ite ((writeExtentHeader_spares _ _ _ _).bind fun _ => Run.spares_pure _) ?_
  refine (createExtentBlock_spares _ _ _ _).bind fun place => ?_
  cases place with
  | none => exact Run.spares_pure _
  | some place => exact Run.spares_pure _

theorem placeExtents_spares (r : InodeRef) (alloc : BlockAllocation) (len : Nat) :
    Run.Spares DentryError (placeExtents info force r alloc len) := by
  refine (Run.spares_expect _).bind fun allocationLen => .ite ?_ ?_
  · exact (onAux_spares (reduceLoop_spares _ _ _)).bind fun alloc =>
      @extentsPlaced_spares info force r alloc 0 allocationLen len
  · refine (Run.spares_expect _).bind fun reserved => ?_
    exact (Run.spares_expect _).bind fun block =>
      @extentsPlaced_spares info force r _ block allocationLen len

theorem setExtentSizes_spares (r : InodeRef) (len blockLen : Nat) :
    Run.Spares DentryError (setExtentSizes info r len blockLen) := by
  refine (getField_spares _ _).bind fun flags => (setField_spares _ _ _).bind fun _ => ?_
  refine (setField_spares _ _ _).bind fun _ => (setField_spares _ _ _).bind fun _ => ?_
  exact (setField_spares _ _ _).bind fun _ => setField_spares _ _ _

theorem doInodeAllocateExtents_spares (r : InodeRef) (len : Nat) :
    Run.Spares DentryError (doInodeAllocateExtents info force r len) := by
  refine (onAux_spares (allocateBlocks_spares _)).bind fun found => ?_
  cases found with
  | none => exact (Run.spares_raise force (by simp [DentryError])).bind fun _ => Run.spares_pure _
  | some alloc =>
    refine (placeExtents_spares _ _ _).bind fun placed => ?_
    cases placed with
    | none => exact Run.spares_pure _
    | some p =>
      refine (writeExtents_spares _ _ _ _ _).bind fun _ => ?_
      exact (setExtentSizes_spares _ _ _).bind fun _ => Run.spares_pure _

theorem backingLoop_spares {queue : Nat → Nat → Nat → Build Unit}
    (hqueue : ∀ offset len block, Run.Spares DentryError (queue offset len block)) (fuel : Nat)
    (alloc : BlockAllocation) (offset left : Nat) :
    Run.Spares DentryError (backingLoop info queue fuel alloc offset left) := by
  induction fuel generalizing alloc offset left with
  | zero =>
    cases left with
    | zero => exact Run.spares_pure _
    | succ left => exact Run.spares_crash
  | succ fuel ih =>
    cases left with
    | zero => exact Run.spares_pure _
    | succ left =>
      refine (Run.spares_expect _).bind fun region => (hqueue _ _ _).bind fun _ => ?_
      exact (Run.spares_expect _).bind fun alloc => ih _ _ _

theorem inodeAllocateDataExtents_spares (r : InodeRef) (len backingLen : Nat) :
    Run.Spares DentryError (inodeAllocateDataExtents info force r len backingLen) := by
  refine (doInodeAllocateExtents_spares _ _).bind fun found => ?_
  cases found with
  | none => exact (Run.spares_raise force (by simp [DentryError])).bind fun _ => Run.spares_pure _
  | some alloc =>
    refine .ite (Run.spares_pure _) (Run.Spares.bind ?_ fun data => Run.spares_pure _)
    refine (calloc_spares _).bind fun data => Run.Spares.bind ?_ fun _ => Run.spares_pure _
    exact backingLoop_spares (fun _ _ _ => sparseFileAdd_spares _) _ _ _ _

theorem allocateInode_spares : Run.Spares DentryError (allocateInode info) := by
  have hreserve (bg : Nat) : Run.Spares DentryError (reserveInodes bg 1) := by
    apply onGroup_spares
    refine Run.spares_read.bind fun b => .ite (Run.spares_pure _) ?_
    exact (Run.spares_write _).bind fun _ => Run.spares_pure _
  have hfrom (bgs : List Nat) : Run.Spares DentryError (allocateInodeFrom info bgs) := by
    induction bgs with
    | nil => exact Run.spares_pure _
    | cons bg rest ih => exact (hreserve bg).bind fun _ => .ite (Run.spares_pure _) ih
  exact Run.spares_read.bind fun _ => hfrom _

theorem addDirectory_spares (n : Nat) : Run.Spares DentryError (addDirectory info n) :=
  .ite Run.spares_crash (onGroup_spares _ (Run.spares_update _))

theorem getInode_spares (n : Nat) : Run.Spares DentryError (getInode info n) := by
  refine .ite Run.spares_crash (Run.Spares.bind ?_ fun _ => Run.spares_pure _)
  refine Run.spares_read.bind fun fs => ?_
  split
  · exact Run.spares_crash
  · refine .ite (Run.spares_pure _) ((sparseFileAdd_spares _).bind fun _ => ?_)
    exact onAux_spares (onGroup_spares _ (Run.spares_update _))

end Spared

section Decoded

variable {info : FsInfo} {force : Bool} {fs fs' : Fs} {l l' : List Ext4Error}
  {dentries : List Dentry}

theorem inodeAllocateDataExtents_heap {r : InodeRef} {len backingLen data : Nat}
    (h : inodeAllocateDataExtents info force r len backingLen (fs, l) =
      .ok (some data, (fs', l'))) :
    backingLen ≠ 0 ∧ fs'.heap[data]? = some (Buffer.zeros backingLen) := by
  obtain ⟨found, ⟨fs1, l1⟩, -, h1⟩ := Run.bind_ok.mp h
  cases found with
  | none =>
    obtain ⟨⟨⟩, st, -, hend⟩ := Run.bind_ok.mp h1
    cases hend
  | some alloc =>
    dsimp only at h1
    split at h1
    · cases h1
    · next hsome =>
      obtain ⟨data1, ⟨fs2, l2⟩, hback, hend⟩ := Run.bind_ok.mp h1
      cases hend
      obtain ⟨id, ⟨fs3, l3⟩, hcalloc, h2⟩ := Run.bind_ok.mp hback
      obtain ⟨-, rfl, rfl⟩ := calloc_ok hcalloc
      obtain ⟨⟨⟩, ⟨fs4, l4⟩, hloop, hend⟩ := Run.bind_ok.mp h2
      cases hend
      obtain ⟨cs, rfl, -⟩ := backingLoop_covers (Backed.chunk fs1.heap.length) hloop
      refine ⟨hsome, ?_⟩
      dsimp only
      rw [List.getElem?_append_right le_rfl, Nat.sub_self]
      rfl

theorem setField_heap {r : InodeRef} {f : Field} {v : Nat}
    (h : setField r f v (fs, l) = .ok ((), (fs', l'))) : fs'.heap = fs.heap := by
  obtain ⟨-, b, t, -, -, -, rfl⟩ := setField_ok.mp h
  rfl

theorem orField_heap {r : InodeRef} {f : Field} {v : Nat}
    (h : orField r f v (fs, l) = .ok ((), (fs', l'))) : fs'.heap = fs.heap := by
  obtain ⟨flags, ⟨fs1, l1⟩, hget, hset⟩ := Run.bind_ok.mp h
  obtain ⟨rfl, -, -⟩ := getField_run r f hget
  exact setField_heap hset

theorem directoryBytes_lt (hbs : SmallBlocks info.blockSize.val) (hnames : NamesFit dentries)
    (htotal : endOf info.blockSize.val 24 dentries < 4294967296)
    (hlen : directoryLen info dentries ≠ 0) : directoryBytes info dentries < 4294967296 := by
  have hge := hbs.ge
  have hle := hbs.le
  have hloop := dentrySizeLoop_eq hbs dentries hnames 24
  rw [u32_of_lt (by decide), u32_of_lt htotal] at hloop
  have hmul := divRoundUp_mul_lt (endOf info.blockSize.val 24 dentries)
    (show 0 < info.blockSize.val by omega)
  by_contra hover
  apply hlen
  have hzero : divRoundUp32 (endOf info.blockSize.val 24 dentries) info.blockSize.val = 0 := by
    rw [directoryBytes] at hover
    rw [divRoundUp32, u32]
    apply Nat.div_eq_of_lt
    omega
  rw [directoryLen, dentrySize, hloop, hzero, Nat.zero_mul]
  rfl

def DirectoryWritten (info : FsInfo) (dentries : List Dentry) (slots : InodeSlots) (fs : Fs) :
    Prop :=
  ∃ data, fs.heap[slots.data]? = some data ∧ data.size = directoryLen info dentries ∧
    data.size ≠ 0 ∧ readDirectory info.blockSize.val data = some (directoryEntries dentries)

theorem directoryAt_decodes (hbs : SmallBlocks info.blockSize.val) (hnames : NamesFit dentries)
    (htotal : endOf info.blockSize.val 24 dentries < 4294967296) (inodeNum parent dirs : Nat) :
    Run.Meets DentryError (directoryAt info force inodeNum parent dentries dirs)
      (fun r fs' _ => ∀ slots, r.2 = some slots → DirectoryWritten info dentries slots fs') fs l := by
  have hor (r : InodeRef) (v : Nat) : Run.Spares DentryError (orField r iFlags v) :=
    (getField_spares _ _).bind fun _ => setField_spares _ _ _
  rw [directoryAt, Run.meets_bind]
  refine (onAux_spares (addDirectory_spares inodeNum)).meets fun _ fs1 l1 _ => ?_
  rw [Run.meets_bind]
  refine (getInode_spares inodeNum).meets fun r fs2 l2 _ => ?_
  rw [Run.meets_bind]
  refine (inodeAllocateDataExtents_spares r _ _).meets fun found fs3 l3 halloc => ?_
  cases found with
  | none =>
    rw [Run.meets_bind]
    exact Run.meets_raise (by simp [DentryError]) (by simp)
  | some data =>
    obtain ⟨hlen, hheap⟩ := inodeAllocateDataExtents_heap halloc
    have hbytes := directoryBytes_lt hbs hnames htotal hlen
    obtain ⟨-, hlen'⟩ := directoryLen_eq hbs hnames hbytes
    dsimp only
    rw [Run.meets_bind, Run.meets_read, Run.meets_bind]
    refine (setField_spares _ _ _).meets fun _ fs4 l4 hmode => ?_
    rw [Run.meets_bind]
    refine (setField_spares _ _ _).meets fun _ fs5 l5 hlinks => ?_
    rw [Run.meets_bind]
    refine (hor _ _).meets fun _ fs6 l6 hflags => ?_
    rw [← setField_heap hmode, ← setField_heap hlinks, ← orField_heap hflags] at hheap
    obtain ⟨b, places, hfill, hbsize, hread⟩ := fillDirectory_run (l := l6) hbs inodeNum parent
      dentries hnames hbytes (show (Buffer.zeros (directoryLen info dentries)).size = _ from hlen')
    rw [Buffer.size_zeros] at hfill hbsize
    rw [Run.meets_bind, onHeap, Run.meets_zoom (fun fs : Fs => fs.heap[data]?) hheap, Run.Meets, hfill]
    intro slots hslots
    cases hslots
    refine ⟨b, ?_, hbsize, hbsize ▸ hlen, hread⟩
    exact List.getElem?_set_self (List.getElem?_eq_some_iff.mp hheap).1

structure DirectoryMade (info : FsInfo) (force : Bool) (dirInodeNum : Nat) (dentries : List Dentry)
    (dirs : Nat) : Prop where
  sizes : directoryLen info dentries ≠ 0 →
    ∀ inodeNum parent l, DirectoryDecodes info inodeNum parent dentries l
  runs : ∀ fs l, Run.Meets DentryError (makeDirectory info force dirInodeNum dentries dirs)
    (fun r fs' _ => ∀ slots, r.2 = some slots → DirectoryWritten info dentries slots fs') fs l

theorem makeDirectory_decodes (hbs : ∃ k, 10 ≤ k ∧ k ≤ 15 ∧ info.blockSize.val = 2 ^ k)
    (force : Bool) (dirInodeNum dirs : Nat) (hnames : NamesFit dentries)
    (htotal : endOf info.blockSize.val 24 dentries < 4294967296) :
    DirectoryMade info force dirInodeNum dentries dirs := by
  obtain ⟨k, h1, h2, hk⟩ := hbs
  have hsmall : SmallBlocks info.blockSize.val := hk ▸ SmallBlocks.of_pow h1 h2
  constructor
  · intro hlen inodeNum parent l
    exact directoryDecodes_of_lt hsmall inodeNum parent hnames
      (directoryBytes_lt hsmall hnames htotal hlen)
  · intro fs l
    have hinode : Run.Spares DentryError
        (if dirInodeNum ≠ 0 then onAux (allocateInode info) else pure ext4RootIno) :=
      .ite (onAux_spares allocateInode_spares) (Run.spares_pure _)
    rw [makeDirectory_eq, Run.meets_bind]
    refine hinode.meets fun inodeNum fs1 l1 _ => ?_
    split
    · rw [Run.meets_bind]
      exact Run.meets_raise (by simp [DentryError]) (by simp)
    · exact directoryAt_decodes hsmall hnames htotal _ _ _

def namedDentry (n : Nat) : Dentry := ⟨[], none, List.replicate n 97, [], 0, 1, 0, 0, 0, 0, 0⟩

theorem namedDentry_fits {n : Nat} (h1 : 1 ≤ n) (h2 : n ≤ 255) :
    NameFits (namedDentry n).filename := by
  rw [NameFits, namedDentry, List.length_replicate]
  exact ⟨h1, h2⟩

theorem makeDirectory_decodes_names :
    DirectoryMade smallInfo false 2 ((List.range 255).map fun n => namedDentry (n + 1)) 0 := by
  refine makeDirectory_decodes ⟨12, by decide, by decide, rfl⟩ false 2 0 ?_ (by decide +kernel)
  intro d hd
  obtain ⟨n, hn, rfl⟩ := List.mem_map.mp hd
  have := List.mem_range.mp hn
  exact namedDentry_fits (by omega) (by omega)

end Decoded

end MakeExt4fs

import MakeExt4fs.Contents.XattrWalk

namespace MakeExt4fs

open ErrorLog Words

def BlockGroupInfo.Grants (b : BlockGroupInfo) : Prop :=
  0 < b.freeBlocks ∧ b.blockBitmap.testBit b.firstFreeBlock = false ∧
    u32 (b.firstBlock + b.firstFreeBlock) ≠ ext4AllocateFailed

def FsAuxInfo.Grants (aux : FsAuxInfo) (i : Nat) : Prop :=
  ∃ b, aux.bgs[i]? = some b ∧ b.Grants

section Granting

variable {force : Bool} {aux aux' : FsAuxInfo} {l l' : List Ext4Error}

theorem setBits_one (start bitmap : Nat) : BlockGroupInfo.setBits start 1 bitmap =
    if bitmap.testBit start then (false, bitmap) else (true, bitmap ||| spanMask start 1) := by
  have hstart : ∀ more : BlockGroupInfo.Cursor → Bool, BlockGroupInfo.bitLoop more 1
      ⟨0, start, bitmap⟩ = if more ⟨0, start, bitmap⟩ then
        if bitmap.testBit start then (false, ⟨0, start, bitmap⟩)
        else (true, ⟨1, start + 1, bitmap ||| spanMask start 1⟩)
      else (true, ⟨0, start, bitmap⟩) := by
    intro more
    cases hbit : bitmap.testBit start <;>
      simp [BlockGroupInfo.bitLoop, bitmapSetBit, hbit]
  have hbytes : ∀ c, BlockGroupInfo.byteLoop 1 1 c = (true, c) := by
    intro c
    rw [BlockGroupInfo.byteLoop, if_neg (by simp)]
  have hend : ∀ c : BlockGroupInfo.Cursor, c.i = 1 →
      BlockGroupInfo.bitLoop (fun c => decide (c.i = 0)) 1 c = (true, c) := by
    intro c hc
    rw [BlockGroupInfo.bitLoop, if_neg (by simp [hc])]
  by_cases halign : start % 8 = 0
  · cases hbit : bitmap.testBit start <;>
      simp [BlockGroupInfo.setBits, hstart, hbytes, halign, hbit]
  · cases hbit : bitmap.testBit start <;>
      simp [BlockGroupInfo.setBits, hstart, hbytes, hend, halign, hbit]

theorem allocateOne_ok {i r : Nat}
    (h : ext4AllocateBlocksFromBlockGroup force 1 i (aux, l) = .ok (r, (aux', l'))) :
    r < 4294967296 ∧ (r ≠ ext4AllocateFailed ↔ aux.Grants i) ∧
      ∀ j, j ≠ i → aux'.bgs[j]? = aux.bgs[j]? := by
  unfold ext4AllocateBlocksFromBlockGroup onGroup Run.zoom at h
  cases hb : aux.bgs[i]? with
  | none => simp [hb] at h
  | some b =>
    have hothers (b' : BlockGroupInfo) : ∀ j, j ≠ i → (aux.setBg i b').bgs[j]? = aux.bgs[j]? := by
      intro j hj
      rw [FsAuxInfo.setBg_bgs, List.getElem?_set_ne (Ne.symm hj)]
    have hgrants : aux.Grants i ↔ b.Grants := by simp [FsAuxInfo.Grants, hb]
    rw [hgrants, BlockGroupInfo.Grants]
    simp only [hb, Run.bind_run, Run.read_run, BlockGroupInfo.reserveBlocks, setBits_one] at h
    by_cases hfree : b.freeBlocks < 1
    · simp only [if_pos hfree, Run.pure_run] at h
      cases h
      exact ⟨by decide, by simp; omega, hothers b⟩
    · rw [if_neg hfree] at h
      by_cases hbit : b.blockBitmap.testBit b.firstFreeBlock = true
      · simp only [Run.bind_run, Run.read_run, if_neg (show ¬ 1 > b.freeBlocks by omega), hbit,
          if_true] at h
        cases force
        · cases h
        · cases h
          exact ⟨by decide, by simp [hbit], hothers _⟩
      · simp only [Run.bind_run, Run.read_run, if_neg (show ¬ 1 > b.freeBlocks by omega),
          if_neg hbit] at h
        cases h
        simp only [Bool.not_eq_true] at hbit
        exact ⟨u32_lt _, by simp [hbit]; omega, hothers _⟩

theorem allocateBlockFrom_ok {groups : List Nat} (hnodup : groups.Nodup) {r : Nat}
    (h : allocateBlockFrom force groups (aux, l) = .ok (r, (aux', l'))) :
    r < 4294967296 ∧ (r ≠ ext4AllocateFailed ↔ ∃ i ∈ groups, aux.Grants i) := by
  induction groups generalizing aux l with
  | nil =>
    cases h
    exact ⟨by decide, by simp⟩
  | cons i rest ih =>
    obtain ⟨block, ⟨aux1, l1⟩, h1, hrest⟩ := Run.bind_ok.mp h
    obtain ⟨hlt, hone, hothers⟩ := allocateOne_ok h1
    have hnot := (List.nodup_cons.mp hnodup).1
    split at hrest
    · rename_i hok
      cases hrest
      refine ⟨hlt, ?_⟩
      simp only [hok, ne_eq, not_false_eq_true, true_iff]
      exact ⟨i, List.mem_cons_self, hone.mp hok⟩
    · rename_i hfailed
      have hsame : ∀ j ∈ rest, aux1.Grants j ↔ aux.Grants j := by
        intro j hj
        rw [FsAuxInfo.Grants, FsAuxInfo.Grants, hothers j fun heq => hnot (heq ▸ hj)]
      have hhere : ¬ aux.Grants i := fun hg => hfailed (hone.mpr hg)
      obtain ⟨hlt', hlater⟩ := ih (List.nodup_cons.mp hnodup).2 hrest
      refine ⟨hlt', ?_⟩
      rw [hlater]
      constructor
      · rintro ⟨j, hj, hg⟩
        exact ⟨j, List.mem_cons_of_mem i hj, (hsame j hj).mp hg⟩
      · rintro ⟨j, hj, hg⟩
        rcases List.mem_cons.mp hj with rfl | hj
        · exact absurd hg hhere
        · exact ⟨j, hj, (hsame j hj).mpr hg⟩

theorem allocateBlock_ok {r : Nat} (h : allocateBlock force (aux, l) = .ok (r, (aux', l'))) :
    r < 4294967296 ∧ (r ≠ ext4AllocateFailed ↔ ∃ i < aux.groups, aux.Grants i) := by
  obtain ⟨a, st, hread, hfrom⟩ := Run.bind_ok.mp h
  cases hread
  simpa using allocateBlockFrom_ok List.nodup_range hfrom

end Granting

def BlockGroupInfo.blocks (b : BlockGroupInfo) : BlockGroupInfo :=
  { b with inodeTable := none, flags := 0 }

def FsAuxInfo.blocks (aux : FsAuxInfo) : List BlockGroupInfo := aux.bgs.map BlockGroupInfo.blocks

def Fs.opened (info : FsInfo) (n : Nat) (fs : Fs) : Fs :=
  match fs.aux.bgs[(inodeRef info n).bg]? with
  | none => fs
  | some b =>
    { fs with
      aux := fs.aux.setBg (inodeRef info n).bg (openedGroup info fs.aux b)
      sparse := fs.sparse ++ openedChunks info fs.aux (inodeRef info n).bg b }

section Parts

variable {fs fs' : Fs} {l l' : List Ext4Error} {info : FsInfo} {n : Nat} {r : InodeRef}

theorem blocks_setBg {aux : FsAuxInfo} {i : Nat} {b b' : BlockGroupInfo} (hb : aux.bgs[i]? = some b)
    (hsame : b'.blocks = b.blocks) : (aux.setBg i b').blocks = aux.blocks := by
  rw [FsAuxInfo.blocks, FsAuxInfo.setBg_bgs]
  exact map_set_same hb hsame

theorem blocks_withTable {i : Nat} {b : BlockGroupInfo} (hb : fs.aux.bgs[i]? = some b) (t : Buffer) :
    (fs.withTable i b t).aux.blocks = fs.aux.blocks := blocks_setBg hb rfl

theorem getInode_opened (h : getInode info n (fs, l) = .ok (r, (fs', l'))) :
    l' = l ∧ r = inodeRef info n ∧ fs' = fs.opened info n := by
  obtain ⟨hl, rfl, b, hb, rfl⟩ := getInode_ok h
  exact ⟨hl, rfl, by rw [Fs.opened, hb]⟩

theorem blocks_opened : (fs.opened info n).aux.blocks = fs.aux.blocks := by
  rw [Fs.opened]
  split
  · rfl
  · rename_i b hb
    apply blocks_setBg hb
    rw [openedGroup]
    split <;> rfl

theorem xattrs_opened : (fs.opened info n).aux.xattrs = fs.aux.xattrs := by
  rw [Fs.opened]
  split <;> rfl

theorem heap_opened : (fs.opened info n).heap = fs.heap := by
  rw [Fs.opened]
  split <;> rfl

theorem get_table_opened (bg i : Nat) :
    ((fs.opened info n).aux.table bg).get i = (fs.aux.table bg).get i := by
  rw [Fs.opened]
  split
  · rfl
  · rename_i b hb
    exact table_openedGroup hb bg i

theorem field_opened (f : Field) : (fs.opened info n).field r f = fs.field r f :=
  Buffer.getLE_congr fun i _ _ => get_table_opened r.bg i

theorem onAux_ok {α : Type} {m : Alloc α} {c : α} : onAux m (fs, l) = .ok (c, (fs', l')) ↔
    ∃ aux, m (fs.aux, l) = .ok (c, (aux, l')) ∧ fs' = { fs with aux := aux } := by
  unfold onAux Run.zoom
  cases hm : m (fs.aux, l) with
  | error e => simp [hm]
  | ok p =>
    obtain ⟨d, aux, k⟩ := p
    simp only [hm, Except.ok.injEq, Prod.mk.injEq]
    constructor
    · rintro ⟨rfl, rfl, rfl⟩
      exact ⟨aux, ⟨rfl, rfl, rfl⟩, rfl⟩
    · rintro ⟨aux', ⟨rfl, rfl, rfl⟩, rfl⟩
      exact ⟨rfl, rfl, rfl⟩

theorem onHeap_ok {α : Type} {id : Nat} {m : OnBuffer α} {c : α} :
    onHeap id m (fs, l) = .ok (c, (fs', l')) ↔ ∃ b b', fs.heap[id]? = some b ∧
      m (b, l) = .ok (c, (b', l')) ∧ fs' = { fs with heap := fs.heap.set id b' } := by
  unfold onHeap Run.zoom
  cases hb : fs.heap[id]? with
  | none => simp [hb]
  | some b =>
    cases hm : m (b, l) with
    | error e => simp [hb, hm]
    | ok p =>
      obtain ⟨d, b', l1⟩ := p
      simp only [hb, hm, Except.ok.injEq, Prod.mk.injEq]
      constructor
      · rintro ⟨rfl, rfl, rfl⟩
        exact ⟨b, b', rfl, hm, rfl⟩
      · rintro ⟨b1, b2, h1, h2, rfl⟩
        cases h1
        rw [hm] at h2
        cases h2
        exact ⟨rfl, rfl, rfl⟩

end Parts

structure PutAt (before after : Buffer) (start first stop : Nat) (a : XAttr) (pos top : Nat) :
    Prop where
  range : freeRange before first stop = some (pos, (top : Int))
  first_le : first ≤ pos
  fits : pos + a.entryLen + a.valueLen ≤ top
  le_stop : top ≤ stop
  entry : IsXattr after start pos top a

def StoredIn (before after : Buffer) (start first stop : Nat) (a : XAttr) : Prop :=
  ∃ pos top, PutAt before after start first stop a pos top ∧
    (a.value ≠ [] → start + after.get16 (pos + 2) = top - a.valueLen)

def OffsetFits (before : Buffer) (start first stop : Nat) (a : XAttr) : Prop :=
  a.value ≠ [] → ∀ e s, freeRange before first stop = some (e, s) →
    s - a.valueLen - start < 65536

section Storing

variable {b b' c : Buffer} {start first stop pos top : Nat} {a : XAttr} {l l' : List Ext4Error}
  {force : Bool}

theorem PutAt.storedIn_iff (h : PutAt b b' start first stop a pos top) (hstart : start ≤ first) :
    StoredIn b b' start first stop a ↔ OffsetFits b start first stop a := by
  have hle := h.first_le
  have hfits := h.fits
  constructor
  · rintro ⟨pos', top', h', hoff⟩ hvalue e s hrange
    rw [h'.range] at hrange
    cases hrange
    have hlt : b'.get16 (pos' + 2) < 65536 := b'.getLE_lt (pos' + 2) 2
    have hat := hoff hvalue
    have hfits' := h'.fits
    have hle' := h'.first_le
    omega
  · intro hoff
    refine ⟨pos, top, h, ?_⟩
    intro hvalue
    have hlt := hoff hvalue pos top h.range
    rw [h.entry.valueOffs, u16_of_lt (by omega)]
    omega

theorem PutAt.congr (h : PutAt b b' start first stop a pos top)
    (hsame : ∀ i, first ≤ i → i < stop → i < pos + 12 ∨ pos + 16 ≤ i → c.get i = b'.get i) :
    PutAt b c start first stop a pos top := by
  have hfits := h.fits
  have hfirst := h.first_le
  have hstop := h.le_stop
  have hlen := a.entryLen_spec
  refine ⟨h.range, hfirst, hfits, hstop, h.entry.congr (by omega) ?_ ?_⟩
  · intro i h1 h2 h3
    exact hsame i (by omega) (by omega) h3
  · intro i h1 h2
    exact hsame i (by omega) (by omega) (by omega)

theorem xattrAddtoRange_put {r : Option Nat} (hsize : stop < first + 4294967296)
    (h : xattrAddtoRange force start stop first a.nameIndex a.name a.value (b, l) =
      .ok (r, (b', l'))) :
    r = none ∧ b' = b ∧ ¬ RangeFits b first stop a ∨
      ∃ pos top, r = some pos ∧ RangeFits b first stop a ∧ PutAt b b' start first stop a pos top ∧
        ∀ i, i < first ∨ stop ≤ i → b'.get i = b.get i := by
  have hval := a.valueLen_spec
  obtain hnone | ⟨pos, top, rfl, hfits, hrange, hfirst, hstop, hin, hroom, rfl⟩ :=
    xattrAddtoRange_ok h
  · exact Or.inl hnone
  refine Or.inr ⟨pos, top, rfl, hfits, ⟨hrange, hfirst, hroom, hstop, ?_⟩, ?_⟩
  · have hentry := @isXattr_putXattr b start pos (top - a.valueLen) a (by omega) (by omega)
      hfits.1 (by omega)
    rwa [Nat.sub_add_cancel (by omega)] at hentry
  · intro i hi
    exact get_putXattr_of_apart (by omega) (by omega)

end Storing

def bodyFirst (r : InodeRef) : Nat := r.off + sizeofExt4Inode + 4

def bodyStop (info : FsInfo) (r : InodeRef) : Nat := r.off + info.inodeSize.val

structure SameBlocks (r : InodeRef) (fs fs' : Fs) : Prop where
  allocator : fs'.aux.blocks = fs.aux.blocks
  list : fs'.aux.xattrs = fs.aux.xattrs
  count : fs'.field r iBlocksLo = fs.field r iBlocksLo
  acl : fs'.field r iFileAclLo = fs.field r iFileAclLo

section Inode

variable {info : FsInfo} {force : Bool} {r : InodeRef} {n : Nat} {a : XAttr} {fs fs' : Fs}
  {l l' : List Ext4Error}

theorem field_congr {f : Field} (h : ∀ i, r.off + f.off ≤ i → i < r.off + f.off + f.size →
    (fs'.aux.table r.bg).get i = (fs.aux.table r.bg).get i) : fs'.field r f = fs.field r f :=
  Buffer.getLE_congr h

theorem xattrAddtoInode_ok {c : Int}
    (h : xattrAddtoInode info force r a.nameIndex a.name a.value (fs, l) = .ok (c, (fs', l'))) :
    c = -1 ∧ fs' = fs ∧ ¬ RangeFits (fs.aux.table r.bg) (bodyFirst r) (bodyStop info r) a ∨
      c = 0 ∧ RangeFits (fs.aux.table r.bg) (bodyFirst r) (bodyStop info r) a ∧
        SameBlocks r fs fs' ∧ fs'.heap = fs.heap ∧ ∃ pos top,
          PutAt (fs.aux.table r.bg) (fs'.aux.table r.bg) (bodyFirst r) (bodyFirst r)
            (bodyStop info r) a pos top := by
  obtain ⟨b, t, t', hb, ht, hrun, rfl⟩ := onTable_ok.mp h
  have htable := table_of_group hb ht
  obtain ⟨res, ⟨t1, l1⟩, hadd, hend⟩ := Run.bind_ok.mp hrun
  have hsize : bodyStop info r < bodyFirst r + 4294967296 := by
    have := info.inodeSize.isLt
    simp only [bodyStop, bodyFirst]
    omega
  rw [htable]
  obtain ⟨rfl, rfl, hno⟩ | ⟨pos, top, rfl, hfits, hput, hsame⟩ := xattrAddtoRange_put hsize hadd
  · cases hend
    exact Or.inl ⟨rfl, withTable_self hb ht, hno⟩
  · obtain ⟨⟨⟩, ⟨t2, l2⟩, h2, hend2⟩ := Run.bind_ok.mp hend
    obtain ⟨⟨⟩, ⟨t3, l3⟩, h3, hend3⟩ := Run.bind_ok.mp hend2
    cases hend3
    obtain ⟨-, rfl, rfl⟩ := pokeAt_ok.mp h2
    obtain ⟨-, rfl, rfl⟩ := pokeAt_ok.mp h3
    have hfields : ∀ f : Field, f.off + f.size ≤ 128 →
        (fs.withTable r.bg b ((t1.putLE (r.off + sizeofExt4Inode) 4 ext4XattrMagic).putLE
          (r.off + iExtraIsize.off) 2 (sizeofExt4Inode - ext4GoodOldInodeSize))).field r f =
          fs.field r f := by
      intro f hf
      apply field_congr
      intro i h1 h2
      rw [table_withTable hb, if_pos rfl, htable, Buffer.get_putLE_of_apart _ _ _ _ _
        (by simp only [iExtraIsize]; omega), Buffer.get_putLE_of_apart _ _ _ _ _
        (by simp only [sizeofExt4Inode]; omega)]
      exact hsame i (by simp only [bodyFirst, sizeofExt4Inode]; omega)
    refine Or.inr ⟨rfl, hfits, ⟨blocks_withTable hb _, rfl, hfields _ (by decide),
      hfields _ (by decide)⟩, rfl, pos, top, ?_⟩
    rw [table_withTable hb, if_pos rfl]
    apply hput.congr
    intro i h1 h2 _
    simp only [bodyFirst, sizeofExt4Inode] at h1
    rw [Buffer.get_putLE_of_apart _ _ _ _ _ (by simp only [iExtraIsize]; omega),
      Buffer.get_putLE_of_apart _ _ _ _ _ (by simp only [sizeofExt4Inode]; omega)]

end Inode

def emptyXattrBlock (blockSize : Nat) : Buffer :=
  (((Buffer.zeros blockSize).putLE 0 4 ext4XattrMagic).putLE 4 4 1).putLE 8 4 1

structure NewBlock (info : FsInfo) (r : InodeRef) (n num id : Nat) (fs fs' : Fs) : Prop where
  list : fs'.aux.xattrs = (n, id) :: fs.aux.xattrs
  buffer : id = fs.heap.length
  count : fs'.field r iBlocksLo = u32 (fs.field r iBlocksLo + info.blockSize.val / 512)
  acl : fs'.field r iFileAclLo = num
  chunk : .data (.heap id 0) info.blockSize.val num ∈ fs'.sparse

section Block

variable {info : FsInfo} {force : Bool} {r : InodeRef} {n : Nat} {a : XAttr} {fs fs' : Fs}
  {l l' : List Ext4Error}

theorem calloc_ok {size id : Nat} (h : calloc size (fs, l) = .ok (id, (fs', l'))) :
    l' = l ∧ id = fs.heap.length ∧ fs' = { fs with heap := fs.heap ++ [Buffer.zeros size] } := by
  cases h
  exact ⟨rfl, rfl, rfl⟩

theorem setHeap_last {pre : List Buffer} {b : Buffer} {off k v : Nat}
    (h : setHeap pre.length off k v (fs, l) = .ok ((), (fs', l'))) (hheap : fs.heap = pre ++ [b]) :
    l' = l ∧ fs' = { fs with heap := pre ++ [b.putLE off k v] } := by
  obtain ⟨b0, b', hb, hrun, rfl⟩ := onHeap_ok.mp h
  obtain ⟨-, rfl, rfl⟩ := pokeAt_ok.mp hrun
  rw [hheap, List.getElem?_concat_length] at hb
  cases hb
  exact ⟨rfl, by rw [hheap]; simp⟩

theorem setField_rest {f : Field} {v : Nat} (h : setField r f v (fs, l) = .ok ((), (fs', l'))) :
    l' = l ∧ fs'.heap = fs.heap ∧ fs'.sparse = fs.sparse ∧ fs'.aux.xattrs = fs.aux.xattrs ∧
      fs'.aux.blocks = fs.aux.blocks := by
  obtain ⟨rfl, b, t, hb, -, -, rfl⟩ := setField_ok.mp h
  exact ⟨rfl, rfl, rfl, rfl, blocks_withTable hb _⟩

theorem getXattrBlockForInode_ok {id : Nat}
    (h : getXattrBlockForInode info force r n (fs, l) = .ok (id, (fs', l'))) :
    xattrListFind fs.aux n = some id ∧ fs' = fs ∨
      xattrListFind fs.aux n = none ∧ ∃ num aux k,
        allocateBlock force (fs.aux, l) = .ok (num, (aux, k)) ∧ fs'.aux.blocks = aux.blocks ∧
          NewBlock info r n num id fs fs' ∧
          fs'.heap = fs.heap ++ [emptyXattrBlock info.blockSize.val] := by
  obtain ⟨fs0, st0, hread, hgo⟩ := Run.bind_ok.mp h
  cases hread
  cases hfind : xattrListFind fs.aux n with
  | some block =>
    simp only [hfind] at hgo
    cases hgo
    exact Or.inl ⟨rfl, rfl⟩
  | none =>
    simp only [hfind] at hgo
    obtain ⟨num, ⟨fs1, l1⟩, h1, hgo1⟩ := Run.bind_ok.mp hgo
    obtain ⟨block, ⟨fs2, l2⟩, h2, hgo2⟩ := Run.bind_ok.mp hgo1
    obtain ⟨⟨⟩, ⟨fs3, l3⟩, h3, hgo3⟩ := Run.bind_ok.mp hgo2
    obtain ⟨⟨⟩, ⟨fs4, l4⟩, h4, hgo4⟩ := Run.bind_ok.mp hgo3
    obtain ⟨⟨⟩, ⟨fs5, l5⟩, h5, hgo5⟩ := Run.bind_ok.mp hgo4
    obtain ⟨count, ⟨fs6, l6⟩, h6, hgo6⟩ := Run.bind_ok.mp hgo5
    obtain ⟨⟨⟩, ⟨fs7, l7⟩, h7, hgo7⟩ := Run.bind_ok.mp hgo6
    obtain ⟨⟨⟩, ⟨fs8, l8⟩, h8, hgo8⟩ := Run.bind_ok.mp hgo7
    obtain ⟨⟨⟩, ⟨fs9, l9⟩, h9, hgo9⟩ := Run.bind_ok.mp hgo8
    obtain ⟨⟨⟩, ⟨fs10, l10⟩, h10, hend⟩ := Run.bind_ok.mp hgo9
    cases hend
    obtain ⟨aux, halloc, rfl⟩ := onAux_ok.mp h1
    have hblocks := (allocateBlock_blocksOnly _ _ _ _ _ halloc).1
    have hlist : aux.xattrs = fs.aux.xattrs := by rw [hblocks.same]
    obtain ⟨rfl, rfl, hfs2⟩ := calloc_ok h2
    obtain ⟨rfl, hfs3⟩ := setHeap_last h3 (by rw [hfs2])
    obtain ⟨rfl, hfs4⟩ := setHeap_last h4 (by rw [hfs3])
    obtain ⟨rfl, hfs5⟩ := setHeap_last h5 (by rw [hfs4])
    obtain ⟨rfl, rfl, rfl⟩ := getField_run r iBlocksLo h6
    obtain ⟨rfl, hheap7, hsparse7, hlist7, hblocks7⟩ := setField_rest h7
    obtain ⟨rfl, hheap8, hsparse8, hlist8, hblocks8⟩ := setField_rest h8
    cases h9
    cases h10
    have hfs : fs6 = { fs with
        aux := aux
        heap := fs.heap ++ [emptyXattrBlock info.blockSize.val] } := by
      rw [hfs5, hfs4, hfs3, hfs2]
      rfl
    have hcount : fs6.field r iBlocksLo = fs.field r iBlocksLo := by
      rw [hfs]
      exact congrArg (fun t : Buffer => t.getLE _ _) (table_of_frames hblocks r.bg)
    have hcount7 := field_setField h7
    have hcount8 : fs8.field r iBlocksLo = fs7.field r iBlocksLo := setField_keeps (by decide) h8
    have hacl := field_setField h8
    have hnum := (allocateBlock_ok halloc).1
    refine Or.inr ⟨rfl, num, aux, _, halloc, ?_, ⟨?_, rfl, ?_, ?_, ?_⟩, ?_⟩
    · rw [show FsAuxInfo.blocks aux = fs6.aux.blocks by rw [hfs]]
      exact hblocks8.trans hblocks7
    · change (n, fs.heap.length) :: fs8.aux.xattrs = _
      rw [hlist8, hlist7, hfs, hlist]
    · change fs8.field r iBlocksLo = _
      rw [hcount8, hcount7, hcount]
      exact Nat.mod_eq_of_lt (u32_lt _)
    · change fs8.field r iFileAclLo = num
      rw [hacl]
      exact Nat.mod_eq_of_lt hnum
    · exact List.mem_append_right _ List.mem_cons_self
    · change fs8.heap = _
      rw [hheap8, hheap7, hfs]

theorem xattrAddtoBlock_ok {c : Int}
    (h : xattrAddtoBlock info force r n a.nameIndex a.name a.value (fs, l) = .ok (c, (fs', l'))) :
    ∃ id fs1 k b b', getXattrBlockForInode info force r n (fs, l) = .ok (id, (fs1, k)) ∧
      fs1.heap[id]? = some b ∧ fs' = { fs1 with heap := fs1.heap.set id b' } ∧
      (c = -1 ∧ b' = b ∧ ¬ RangeFits b sizeofXattrHeader info.blockSize.val a ∨
        c = 0 ∧ RangeFits b sizeofXattrHeader info.blockSize.val a ∧ ∃ pos top,
          PutAt b b' 0 sizeofXattrHeader info.blockSize.val a pos top) := by
  obtain ⟨id, ⟨fs1, k⟩, hget, hgo⟩ := Run.bind_ok.mp h
  obtain ⟨b, b', hb, hrun, rfl⟩ := onHeap_ok.mp hgo
  obtain ⟨res, ⟨b1, k1⟩, hadd, hend⟩ := Run.bind_ok.mp hrun
  refine ⟨id, fs1, k, b, b', hget, hb, rfl, ?_⟩
  have hsize : info.blockSize.val < sizeofXattrHeader + 4294967296 := by
    have := info.blockSize.isLt
    omega
  obtain ⟨rfl, rfl, hno⟩ | ⟨pos, top, rfl, hfits, hput, -⟩ := xattrAddtoRange_put hsize hadd
  · cases hend
    exact Or.inl ⟨rfl, rfl, hno⟩
  · obtain ⟨⟨⟩, ⟨b2, k2⟩, hhash, hend2⟩ := Run.bind_ok.mp hend
    cases hend2
    obtain ⟨b3, st3, hread, hpoke⟩ := Run.bind_ok.mp hhash
    cases hread
    obtain ⟨-, rfl, rfl⟩ := pokeAt_ok.mp hpoke
    refine Or.inr ⟨rfl, hfits, pos, top, hput.congr ?_⟩
    intro i h1 h2 h3
    exact Buffer.get_putLE_of_apart _ _ _ _ _ (by omega)

theorem freeRange_empty {bs : Nat} (h : 36 ≤ bs) :
    freeRange (emptyXattrBlock bs) sizeofXattrHeader bs = some (32, (bs : Int)) := by
  have hzero : (emptyXattrBlock bs).getLE 32 4 = 0 := by
    simp (disch := omega) only [emptyXattrBlock, Buffer.getLE_putLE_of_apart, Buffer.getLE_zeros]
  have hlast := @isLastEntry_run (emptyXattrBlock bs) 32 [] h
  rw [freeRange, xattrFreeLoop]
  simp only [Run.bind_run, sizeofXattrHeader, hlast, hzero, decide_true, Bool.not_true,
    Bool.false_and, Bool.false_eq_true, if_false, Run.pure_run]

theorem rangeFits_empty_iff {bs : Nat} : RangeFits (emptyXattrBlock bs) sizeofXattrHeader bs a ↔
    a.name.length ≤ 255 ∧ sizeofXattrHeader + a.entryLen + a.valueLen ≤ bs := by
  have hlen := a.entryLen_spec
  rcases Nat.lt_or_ge bs 36 with hsmall | hroom
  · constructor
    · rintro ⟨-, e, s, hrange, hfits⟩
      obtain ⟨he, hs⟩ := freeRange_bounds hrange
      simp only [sizeofXattrHeader] at he
      omega
    · rintro ⟨-, hfits⟩
      simp only [sizeofXattrHeader] at hfits
      omega
  · rw [RangeFits, freeRange_empty hroom]
    simp only [Option.some.injEq, Prod.mk.injEq, sizeofXattrHeader]
    constructor
    · rintro ⟨hname, e, s, ⟨rfl, rfl⟩, hfits⟩
      exact ⟨hname, by omega⟩
    · rintro ⟨hname, hfits⟩
      exact ⟨hname, 32, bs, ⟨rfl, rfl⟩, by omega⟩

theorem offsetFits_empty_iff {bs : Nat}
    (h : RangeFits (emptyXattrBlock bs) sizeofXattrHeader bs a) :
    OffsetFits (emptyXattrBlock bs) 0 sizeofXattrHeader bs a ↔
      (a.value ≠ [] → bs - a.valueLen < 65536) := by
  have hlen := a.entryLen_spec
  obtain ⟨-, hroom⟩ := rangeFits_empty_iff.mp h
  simp only [sizeofXattrHeader] at hroom
  rw [OffsetFits, freeRange_empty (show 36 ≤ bs by omega)]
  simp only [Option.some.injEq, Prod.mk.injEq]
  constructor
  · intro hoff hvalue
    have := hoff hvalue 32 bs ⟨rfl, rfl⟩
    omega
  · rintro hoff hvalue e s ⟨rfl, rfl⟩
    have := hoff hvalue
    omega

theorem grants_opened {i : Nat} : (fs.opened info n).aux.Grants i ↔ fs.aux.Grants i := by
  rw [Fs.opened]
  split
  · rfl
  · rename_i b hb
    obtain ⟨hlt, hget⟩ := List.getElem?_eq_some_iff.mp hb
    have hsame : (openedGroup info fs.aux b).Grants ↔ b.Grants := by
      rw [openedGroup]
      split <;> rfl
    simp only [FsAuxInfo.Grants, FsAuxInfo.setBg_bgs, List.getElem?_set]
    split
    · rename_i hi
      subst hi
      simp [hlt, hsame, hget]
    · rfl

theorem groups_opened : (fs.opened info n).aux.groups = fs.aux.groups := by
  rw [Fs.opened]
  split <;> rfl

end Block

def bodyTable (info : FsInfo) (n : Nat) (fs : Fs) : Buffer :=
  (fs.opened info n).aux.table (inodeRef info n).bg

def BodyFits (info : FsInfo) (n : Nat) (fs : Fs) (a : XAttr) : Prop :=
  RangeFits (bodyTable info n fs) (bodyFirst (inodeRef info n)) (bodyStop info (inodeRef info n)) a

structure AddedToBody (info : FsInfo) (n : Nat) (a : XAttr) (fs fs' : Fs) : Prop where
  fits : BodyFits info n fs a
  stored : StoredIn (bodyTable info n fs) (fs'.aux.table (inodeRef info n).bg)
    (bodyFirst (inodeRef info n)) (bodyFirst (inodeRef info n)) (bodyStop info (inodeRef info n)) a
  same : SameBlocks (inodeRef info n) fs fs'
  heap : fs'.heap = fs.heap

structure AddedToBlock (info : FsInfo) (n : Nat) (a : XAttr) (fs fs' : Fs) (id : Nat)
    (before : Buffer) : Prop where
  full : ¬ BodyFits info n fs a
  found : xattrListFind fs'.aux n = some id
  stored : ∃ after, fs'.heap[id]? = some after ∧
    StoredIn before after 0 sizeofXattrHeader info.blockSize.val a

def AddedToOldBlock (info : FsInfo) (n : Nat) (a : XAttr) (fs fs' : Fs) : Prop :=
  ∃ id before, xattrListFind fs.aux n = some id ∧ fs.heap[id]? = some before ∧
    AddedToBlock info n a fs fs' id before ∧ SameBlocks (inodeRef info n) fs fs'

def AddedToNewBlock (info : FsInfo) (force : Bool) (n : Nat) (a : XAttr) (fs fs' : Fs) : Prop :=
  xattrListFind fs.aux n = none ∧ ∃ num id aux k k',
    allocateBlock force ((fs.opened info n).aux, k) = .ok (num, (aux, k')) ∧
      num ≠ ext4AllocateFailed ∧ fs'.aux.blocks = aux.blocks ∧
      NewBlock info (inodeRef info n) n num id fs fs' ∧
      AddedToBlock info n a fs fs' id (emptyXattrBlock info.blockSize.val)

structure NothingAdded (info : FsInfo) (n : Nat) (fs fs' : Fs) : Prop where
  same : SameBlocks (inodeRef info n) fs fs'
  tables : ∀ bg i, (fs'.aux.table bg).get i = (fs.aux.table bg).get i
  heap : fs'.heap = fs.heap

def XattrAddHolds (info : FsInfo) (force : Bool) (n : Nat) (a : XAttr) (fs fs' : Fs) (c : Int) :
    Prop :=
  c = 0 ∧ (AddedToBody info n a fs fs' ∨ AddedToOldBlock info n a fs fs' ∨
    AddedToNewBlock info force n a fs fs') ∨
  c ≠ 0 ∧ NothingAdded info n fs fs'

def XattrHasPlace (info : FsInfo) (n : Nat) (a : XAttr) (fs : Fs) : Prop :=
  BodyFits info n fs a ∧ OffsetFits (bodyTable info n fs) (bodyFirst (inodeRef info n))
      (bodyFirst (inodeRef info n)) (bodyStop info (inodeRef info n)) a ∨
  ¬ BodyFits info n fs a ∧
    match xattrListFind fs.aux n with
    | some id => ∀ b, fs.heap[id]? = some b →
        RangeFits b sizeofXattrHeader info.blockSize.val a →
        OffsetFits b 0 sizeofXattrHeader info.blockSize.val a
    | none => (∃ i < fs.aux.groups, fs.aux.Grants i) ∧ a.name.length ≤ 255 ∧
        sizeofXattrHeader + a.entryLen + a.valueLen ≤ info.blockSize.val ∧
        (a.value ≠ [] → info.blockSize.val - a.valueLen < 65536)

section Add

variable {info : FsInfo} {force : Bool} {n : Nat} {a : XAttr} {fs fs' : Fs}
  {l l' : List Ext4Error} {c : Int}

theorem sameBlocks_of_opened {r : InodeRef} (h : SameBlocks r (fs.opened info n) fs') :
    SameBlocks r fs fs' :=
  ⟨h.allocator.trans blocks_opened, h.list.trans xattrs_opened, h.count.trans (field_opened _),
    h.acl.trans (field_opened _)⟩

theorem holds_iff_old {id : Nat} {b b' : Buffer} (hno : ¬ BodyFits info n fs a)
    (hfind : xattrListFind fs.aux n = some id) (hb : fs.heap[id]? = some b)
    (hfs : fs' = { fs.opened info n with heap := fs.heap.set id b' })
    (h : c = -1 ∧ b' = b ∧ ¬ RangeFits b sizeofXattrHeader info.blockSize.val a ∨
      c = 0 ∧ RangeFits b sizeofXattrHeader info.blockSize.val a ∧ ∃ pos top,
        PutAt b b' 0 sizeofXattrHeader info.blockSize.val a pos top) :
    XattrAddHolds info force n a fs fs' c ↔ XattrHasPlace info n a fs := by
  have hplace : XattrHasPlace info n a fs ↔
      (RangeFits b sizeofXattrHeader info.blockSize.val a →
        OffsetFits b 0 sizeofXattrHeader info.blockSize.val a) := by
    simp [XattrHasPlace, hno, hfind, hb]
  obtain ⟨hlt, hget⟩ := List.getElem?_eq_some_iff.mp hb
  have hsame : SameBlocks (inodeRef info n) fs fs' := by
    subst hfs
    exact sameBlocks_of_opened ⟨rfl, rfl, rfl, rfl⟩
  rw [hplace]
  obtain ⟨rfl, rfl, hfull⟩ | ⟨rfl, hfits, pos, top, hput⟩ := h
  · have hheap : fs'.heap = fs.heap := by
      rw [hfs, ← hget]
      exact List.set_getElem_self hlt
    have htables : ∀ bg i, (fs'.aux.table bg).get i = (fs.aux.table bg).get i := by
      rw [hfs]
      exact get_table_opened
    simp [XattrAddHolds, hfull, (⟨hsame, htables, hheap⟩ : NothingAdded info n fs fs')]
  · have hafter : fs'.heap[id]? = some b' := by simp [hfs, hlt]
    have hfound : xattrListFind fs'.aux n = some id := by
      rw [xattrListFind, hsame.list]
      exact hfind
    rw [imp_iff_right hfits, ← hput.storedIn_iff (Nat.zero_le _)]
    constructor
    · rintro (⟨-, hbody | ⟨id', before, hfind', hb', hold, -⟩ | ⟨hnone, -⟩⟩ | ⟨hc, -⟩)
      · exact absurd hbody.fits hno
      · obtain ⟨after, hafter', hstored⟩ := hold.stored
        cases hfind.symm.trans hfind'
        cases hb.symm.trans hb'
        cases hafter.symm.trans hafter'
        exact hstored
      · rw [hfind] at hnone
        cases hnone
      · exact absurd rfl hc
    · intro hstored
      exact Or.inl ⟨rfl, Or.inr (Or.inl ⟨id, b, hfind, hb, ⟨hno, hfound, b', hafter, hstored⟩,
        hsame⟩)⟩

theorem holds_iff_new {id num : Nat} {aux : FsAuxInfo} {k k' : List Ext4Error} {fs1 : Fs}
    {b' : Buffer} (hno : ¬ BodyFits info n fs a) (hfind : xattrListFind fs.aux n = none)
    (halloc : allocateBlock force ((fs.opened info n).aux, k) = .ok (num, (aux, k')))
    (hblocks : fs1.aux.blocks = aux.blocks)
    (hnew : NewBlock info (inodeRef info n) n num id (fs.opened info n) fs1)
    (hheap : fs1.heap = fs.heap ++ [emptyXattrBlock info.blockSize.val])
    (hfs : fs' = { fs1 with heap := fs1.heap.set id b' })
    (h : c = -1 ∧ ¬ RangeFits (emptyXattrBlock info.blockSize.val) sizeofXattrHeader
        info.blockSize.val a ∨
      c = 0 ∧ RangeFits (emptyXattrBlock info.blockSize.val) sizeofXattrHeader
        info.blockSize.val a ∧ ∃ pos top, PutAt (emptyXattrBlock info.blockSize.val) b' 0
          sizeofXattrHeader info.blockSize.val a pos top) :
    XattrAddHolds info force n a fs fs' c ↔ XattrHasPlace info n a fs := by
  have hgrants : ∀ {num' : Nat} {aux' : FsAuxInfo} {j j' : List Ext4Error},
      allocateBlock force ((fs.opened info n).aux, j) = .ok (num', (aux', j')) →
        (num' ≠ ext4AllocateFailed ↔ ∃ i < fs.aux.groups, fs.aux.Grants i) := by
    intro num' aux' j j' hrun
    rw [(allocateBlock_ok hrun).2, groups_opened]
    simp only [grants_opened]
  have hplace : XattrHasPlace info n a fs ↔ num ≠ ext4AllocateFailed ∧
      RangeFits (emptyXattrBlock info.blockSize.val) sizeofXattrHeader info.blockSize.val a ∧
        OffsetFits (emptyXattrBlock info.blockSize.val) 0 sizeofXattrHeader
          info.blockSize.val a := by
    rw [hgrants halloc]
    simp only [XattrHasPlace, hno, hfind, false_and, false_or, not_false_eq_true, true_and]
    apply and_congr_right
    intro _
    constructor
    · rintro ⟨hname, hroom, hoff⟩
      have hfits := rangeFits_empty_iff.mpr ⟨hname, hroom⟩
      exact ⟨hfits, (offsetFits_empty_iff hfits).mpr hoff⟩
    · rintro ⟨hfits, hoff⟩
      obtain ⟨hname, hroom⟩ := rangeFits_empty_iff.mp hfits
      exact ⟨hname, hroom, (offsetFits_empty_iff hfits).mp hoff⟩
  have hid : id = fs.heap.length := hnew.buffer.trans (congrArg _ heap_opened)
  have hnew' : NewBlock info (inodeRef info n) n num id fs fs' := by
    subst hfs
    have hcount := hnew.count
    rw [field_opened] at hcount
    exact ⟨hnew.list.trans (congrArg _ xattrs_opened), hid, hcount, hnew.acl, hnew.chunk⟩
  have hfound : xattrListFind fs'.aux n = some id := by
    rw [xattrListFind, hnew'.list]
    simp
  rw [hplace]
  obtain ⟨rfl, hfull⟩ | ⟨rfl, hfits, pos, top, hput⟩ := h
  · have hlist : ¬ NothingAdded info n fs fs' := by
      intro hnone
      have hsame := hnone.same.list
      rw [hnew'.list] at hsame
      exact List.cons_ne_self _ _ hsame
    simp [XattrAddHolds, hfull, hlist]
  · have hafter : fs'.heap[id]? = some b' := by
      rw [hfs, hheap, hid]
      simp
    rw [and_iff_right hfits, ← hput.storedIn_iff (Nat.zero_le _)]
    constructor
    · rintro (⟨-, hbody | ⟨id', -, hfind', -⟩ | ⟨-, num', id', aux', j, j', halloc', hnum, -, hnew2,
        hadded⟩⟩ | ⟨hc, -⟩)
      · exact absurd hbody.fits hno
      · rw [hfind] at hfind'
        cases hfind'
      · obtain ⟨after, hafter', hstored⟩ := hadded.stored
        rw [hnew2.buffer, ← hid, hafter] at hafter'
        cases hafter'
        exact ⟨(hgrants halloc).mpr ((hgrants halloc').mp hnum), hstored⟩
      · exact absurd rfl hc
    · rintro ⟨hnum, hstored⟩
      refine Or.inl ⟨rfl, Or.inr (Or.inr ⟨hfind, num, id, aux, k, k', halloc, hnum, ?_, hnew',
        ⟨hno, hfound, b', hafter, hstored⟩⟩)⟩
      rw [hfs]
      exact hblocks

theorem holds_iff_hasPlace
    (h : xattrAdd info force n a.nameIndex a.name a.value (fs, l) = .ok (c, (fs', l'))) :
    XattrAddHolds info force n a fs fs' c ↔ XattrHasPlace info n a fs := by
  obtain ⟨r, ⟨fs1, l1⟩, hget, hgo⟩ := Run.bind_ok.mp h
  obtain ⟨rfl, rfl, rfl⟩ := getInode_opened hget
  obtain ⟨res, ⟨fs2, l2⟩, hbody, hgo2⟩ := Run.bind_ok.mp hgo
  obtain ⟨rfl, rfl, hno⟩ | ⟨rfl, hfits, hsame, hheap, pos, top, hput⟩ := xattrAddtoInode_ok hbody
  · change ¬ BodyFits info n fs a at hno
    rw [if_pos (by decide)] at hgo2
    obtain ⟨id, fs1, k, b, b', hblock, hb, hfs, hres⟩ := xattrAddtoBlock_ok hgo2
    obtain ⟨hfind, rfl⟩ | ⟨hfind, num, aux, k', halloc, hblocks, hnew, hheap⟩ :=
      getXattrBlockForInode_ok hblock
    · rw [xattrListFind, xattrs_opened] at hfind
      rw [heap_opened] at hb hfs
      exact holds_iff_old hno hfind hb hfs hres
    · rw [xattrListFind, xattrs_opened] at hfind
      rw [heap_opened] at hheap
      have hid : id = fs.heap.length := hnew.buffer.trans (congrArg _ heap_opened)
      rw [hheap, hid, List.getElem?_concat_length] at hb
      cases hb
      apply holds_iff_new hno hfind halloc hblocks hnew hheap hfs
      exact hres.imp_left fun hr => ⟨hr.1, hr.2.2⟩
  · change BodyFits info n fs a at hfits
    rw [if_neg (by decide)] at hgo2
    cases hgo2
    have hstored := hput.storedIn_iff le_rfl
    constructor
    · rintro (⟨-, hbody | ⟨_, _, _, _, hold, _⟩ | ⟨_, _, _, _, _, _, _, _, _, _, hnew⟩⟩ | ⟨hc, -⟩)
      · exact Or.inl ⟨hfits, hstored.mp hbody.stored⟩
      · exact absurd hfits hold.full
      · exact absurd hfits hnew.full
      · exact absurd rfl hc
    · rintro (⟨-, hoff⟩ | ⟨hno, -⟩)
      · exact Or.inl ⟨rfl, Or.inl ⟨hfits, hstored.mpr hoff, sameBlocks_of_opened hsame,
          hheap.trans heap_opened⟩⟩
      · exact absurd hfits hno

end Add

end MakeExt4fs

import MakeExt4fs.Contents.Directory
import MakeExt4fs.Contents.Placed

namespace MakeExt4fs

open ErrorLog Words

def BlockGroupInfo.account (b : BlockGroupInfo) : BlockGroupInfo :=
  { b with
    inodeBitmap := 0
    inodeTable := none
    freeInodes := 0
    firstFreeInode := 0
    flags := 0
    usedDirs := 0 }

section Accounts

variable {L : Layout} {info : FsInfo} {aux aux' : FsAuxInfo} {l l' : List Ext4Error}

structure SameAccount (aux aux' : FsAuxInfo) : Prop where
  groups : aux'.groups = aux.groups
  firstDataBlock : aux'.firstDataBlock = aux.firstDataBlock
  lenBlocks : aux'.lenBlocks = aux.lenBlocks
  account : aux'.bgs.map BlockGroupInfo.account = aux.bgs.map BlockGroupInfo.account

instance : IsPreorder FsAuxInfo SameAccount where
  refl _ := ⟨rfl, rfl, rfl, rfl⟩
  trans _ _ _ h h' := ⟨h'.groups.trans h.groups, h'.firstDataBlock.trans h.firstDataBlock,
    h'.lenBlocks.trans h.lenBlocks, h'.account.trans h.account⟩

theorem SameAccount.freeList (h : SameAccount aux aux') : aux'.freeList = aux.freeList := by
  have hfree (xs : List BlockGroupInfo) : xs.map BlockGroupInfo.freeBlocks =
      (xs.map BlockGroupInfo.account).map BlockGroupInfo.freeBlocks := by
    rw [List.map_map]
    rfl
  rw [FsAuxInfo.freeList, FsAuxInfo.freeList, List.map_take, List.map_take, hfree aux'.bgs,
    hfree aux.bgs, h.account, h.groups]

theorem SameAccount.keeps (h : SameAccount aux aux') (hk : L.Keeps aux) : L.Keeps aux' := by
  have hlength : aux'.bgs.length = aux.bgs.length := by
    simpa using congrArg List.length h.account
  refine ⟨h.groups.trans hk.groups, h.firstDataBlock.trans hk.firstDataBlock,
    h.lenBlocks.trans hk.lenBlocks, hlength.trans hk.length, fun {i b'} hb' => ?_⟩
  have hget := congrArg (fun bs => bs[i]?) h.account
  simp only [List.getElem?_map, hb', Option.map_some] at hget
  obtain ⟨b, hb, hsame⟩ := Option.map_eq_some_iff.mp hget.symm
  have hgroup := hk.group hb
  have hof {α : Type} (f : BlockGroupInfo → α) (hf : ∀ b, f b.account = f b) : f b' = f b := by
    rw [← hf, ← hsame, hf]
  have hbits := hof BlockGroupInfo.blockBitmap fun _ => rfl
  have hfree := hof BlockGroupInfo.freeBlocks fun _ => rfl
  have hfirst := hof BlockGroupInfo.firstFreeBlock fun _ => rfl
  refine ⟨(hof BlockGroupInfo.firstBlock fun _ => rfl).trans hgroup.first,
    (hof BlockGroupInfo.headerBlocks fun _ => rfl).trans hgroup.header, ?_, ?_, ?_, ?_, ?_⟩
  · rw [hbits, hfirst]
    exact hgroup.sound.bits
  · rw [hfree, hfirst]
    exact hgroup.sound.free
  · rw [hfirst]
    exact hgroup.sound.hdr_le
  · exact hgroup.sound.lim_le
  · rw [hfirst]
    exact hgroup.sound.first_le

theorem setBg_sameAccount {i : Nat} {b b' : BlockGroupInfo} (hb : aux.bgs[i]? = some b)
    (hsame : b'.account = b.account) : SameAccount aux (aux.setBg i b') :=
  ⟨rfl, rfl, rfl, by rw [FsAuxInfo.setBg_bgs]; exact map_set_same hb hsame⟩

theorem InodesOnly.account (h : InodesOnly aux aux') : SameAccount aux aux' := by
  have hmap := congrArg (List.map BlockGroupInfo.account) h.others
  simp only [List.map_map] at hmap
  exact ⟨by rw [h.same], by rw [h.same], by rw [h.same], hmap⟩

theorem allocateInode_account {n : Nat}
    (h : allocateInode info (aux, l) = .ok (n, (aux', l'))) : SameAccount aux aux' :=
  (allocateInode_ok h).2.account

theorem addDirectory_account {n : Nat}
    (h : addDirectory info n (aux, l) = .ok ((), (aux', l'))) : SameAccount aux aux' := by
  unfold addDirectory at h
  split at h
  · cases h
  · unfold onGroup Run.zoom at h
    cases hb : aux.bgs[sub32 n 1 / info.inodesPerGroup.val]? with
    | none => simp [hb] at h
    | some b =>
      simp only [hb, Run.update_run] at h
      cases h
      exact setBg_sameAccount hb rfl

theorem openedGroup_account (info : FsInfo) (aux : FsAuxInfo) (b : BlockGroupInfo) :
    (openedGroup info aux b).account = b.account := by
  unfold openedGroup
  split <;> rfl

end Accounts

section Made

variable {L : Layout} {info : FsInfo} {force : Bool} {fs0 fs fs' : Fs} {l l' : List Ext4Error}
  {ps : List Piece}

structure DataPlaced (info : FsInfo) (r : InodeRef) (len data : Nat) (free : List Nat) (fs fs' : Fs)
    (ps : List Piece) : Prop where
  carved : ps.map Piece.len = carve (divRoundUp len info.blockSize.val + 1)
    (divRoundUp len info.blockSize.val + 1) free
  word : ∀ p ∈ ps, p.block < 4294967296
  flag : (fs'.field r iFlags).testBit 19 = true
  covers : Covers 0 len (backedOf data (fs'.sparse.drop fs.sparse.length))
  few : ps.length ≤ 3 →
    fs'.field r iBlocksLo = u32 (divRoundUp len info.blockSize.val * info.blockSize.val / 512) ∧
    ((shrinkFirst ps).map Piece.len).sum = divRoundUp len info.blockSize.val ∧
    InInode fs' r (shrinkFirst ps) ∧ backedOf data (fs'.sparse.drop fs.sparse.length) =
      backedBy info.blockSize.val 0 len (shrinkFirst ps)
  many : 3 < ps.length → fs'.field r iBlocksLo =
    u32 ((divRoundUp len info.blockSize.val + 1) * info.blockSize.val / 512)

theorem backingLoop_stuck {queue : Nat → Nat → Nat → Build Unit} {alloc : BlockAllocation}
    {fuel offset left : Nat} {res : Unit × (Fs × List Ext4Error)} (hnone : alloc.list.iter = none)
    (hleft : 0 < left) : backingLoop info queue fuel alloc offset left (fs, l) ≠ .ok res := by
  obtain ⟨left, rfl⟩ := Nat.exists_eq_add_of_le' hleft
  cases fuel with
  | zero => exact fun h => by cases h
  | succ fuel =>
    have hregion : getRegion alloc = none := by
      rw [getRegion, hnone]
      rfl
    rw [backingLoop, hregion]
    exact fun h => by cases h

theorem inodeAllocateDataExtents_placed {r : InodeRef} {len data : Nat} (h0 : Grows fs0 fs)
    (hk : L.Keeps fs.aux) (hL : L.Positive) (hbs : 512 ≤ info.blockSize.val)
    (hlen : len < 4294967296)
    (h : inodeAllocateDataExtents info force r len len (fs, l) = .ok (some data, (fs', l'))) :
    ∃ ps, DataPlaced info r len data fs.aux.freeList fs0 fs' ps := by
  have hword := info.blockSize.isLt
  generalize hn : divRoundUp len info.blockSize.val = n
  have hle : n ≤ 8388608 := by
    rw [← hn, divRoundUp_le_iff (by omega)]
    have hsmall := Nat.mul_le_mul_left 8388608 hbs
    omega
  have hround : u32 (divRoundUp64 len info.blockSize.val) = n := by
    rw [divRoundUp64_eq (by omega), hn, u32_of_lt (by omega)]
  obtain ⟨found, ⟨fs1, l1⟩, hdo, h1⟩ := Run.bind_ok.mp h
  cases found with
  | none =>
    obtain ⟨⟨⟩, st, -, hend⟩ := Run.bind_ok.mp h1
    cases hend
  | some alloc =>
    obtain ⟨hgrows, ps, hplaced⟩ := doInodeAllocateExtents_placed hk hL hround (by omega) hdo
    have hgrows := trans_of Grows h0 hgrows
    dsimp only at h1
    split at h1
    · cases h1
    · rename_i hne
      obtain ⟨data1, ⟨fs2, l2⟩, hback, hend⟩ := Run.bind_ok.mp h1
      cases hend
      have hretains : Retains r fs1 fs' :=
        .of_keeps fun P => extentCreateBacking_keepsBytes _ _ _ _ _ _ _ hback
      obtain ⟨id, ⟨fs3, l3⟩, hcalloc, h2⟩ := Run.bind_ok.mp hback
      obtain ⟨-, rfl, rfl⟩ := calloc_ok hcalloc
      obtain ⟨⟨⟩, ⟨fs4, l4⟩, hloop, hend⟩ := Run.bind_ok.mp h2
      cases hend
      obtain ⟨cs, rfl, hcovers⟩ := backingLoop_covers (Backed.chunk fs1.heap.length) hloop
      have hbacked := backedOf_since hgrows cs
      subst hn
      refine ⟨ps, hplaced.carved, hplaced.word, hretains.flag hplaced.flag, ?_, fun hfew => ?_,
        fun hmany => hretains.blocks.trans (hplaced.many hmany)⟩
      · rw [hbacked]
        simpa using hcovers
      · obtain ⟨hblocks, hstart⟩ := hplaced.few hfew
        have hfit : (extentsOf 0 (shrinkFirst ps)).length ≤ 4 := by
          rw [length_extentsOf, length_shrinkFirst]
          omega
        obtain hnone | ⟨hstart, hsum, hin⟩ := hstart
        · exact absurd hloop (backingLoop_stuck hnone (Nat.pos_of_ne_zero hne))
        · refine ⟨hretains.blocks.trans hblocks, hsum, hin.keeps hfit hretains.front, ?_⟩
          obtain ⟨cells, hchain, hcells⟩ := hstart.regions
          have hlens : ∀ c ∈ cells, c.2.len < 4294967296 := by
            intro c hc
            have hmem : c.2.piece ∈ shrinkFirst ps := hcells ▸ List.mem_map_of_mem hc
            have hle := List.single_le_sum (fun _ _ => Nat.zero_le _) _
              (List.mem_map_of_mem (f := Piece.len) hmem)
            change c.2.len ≤ _ at hle
            omega
          have hqueue := backingLoop_ok (Backed.chunk fs1.heap.length) hchain hstart.whole hlens hloop
          rw [hqueue]
          have hpieces : piecesOf cells = shrinkFirst ps := hcells
          rw [hpieces]
          exact backedOf_since hgrows _

theorem DataPlaced.retain {r : InodeRef} {len data : Nat} {free : List Nat} {fs1 : Fs}
    (h : DataPlaced info r len data free fs fs1 ps) (hretains : Retains r fs1 fs')
    (hsparse : fs'.sparse = fs1.sparse) : DataPlaced info r len data free fs fs' ps := by
  refine ⟨h.carved, h.word, hretains.flag h.flag, ?_, fun hfew => ?_, fun hmany => ?_⟩
  · rw [hsparse]
    exact h.covers
  · obtain ⟨hblocks, hsum, hin, hbacked⟩ := h.few hfew
    refine ⟨hretains.blocks.trans hblocks, hsum, hin.keeps ?_ hretains.front, ?_⟩
    · rw [length_extentsOf, length_shrinkFirst]
      omega
    · rw [hsparse]
      exact hbacked
  · exact hretains.blocks.trans (h.many hmany)

theorem setField_sparse {r : InodeRef} {f : Field} {v : Nat}
    (h : setField r f v (fs, l) = .ok ((), (fs', l'))) : fs'.sparse = fs.sparse := by
  obtain ⟨-, b, t, -, -, -, rfl⟩ := setField_ok.mp h
  rfl

theorem orField_sparse {r : InodeRef} {f : Field} {v : Nat}
    (h : orField r f v (fs, l) = .ok ((), (fs', l'))) : fs'.sparse = fs.sparse := by
  obtain ⟨flags, ⟨fs1, l1⟩, hget, hset⟩ := Run.bind_ok.mp h
  obtain ⟨rfl, -, -⟩ := getField_run r f hget
  exact setField_sparse hset

theorem directoryAt_placed {inodeNum parent dirs n : Nat} {dentries : List Dentry}
    {slots : InodeSlots} (h0 : Grows fs0 fs) (hk : L.Keeps fs.aux) (hL : L.Positive)
    (hbs : 512 ≤ info.blockSize.val)
    (h : directoryAt info force inodeNum parent dentries dirs (fs, l) =
      .ok ((n, some slots), (fs', l'))) :
    ∃ ps, DataPlaced info (inodeRef info n) (directoryLen info dentries) slots.data
      fs.aux.freeList fs0 fs' ps := by
  have hlen : directoryLen info dentries < 4294967296 := u32_lt _
  obtain ⟨⟨⟩, ⟨fs2, l2⟩, hadd, h2⟩ := Run.bind_ok.mp h
  obtain ⟨aux2, haddRun, rfl⟩ := onAux_ok.mp hadd
  obtain ⟨r, ⟨fs3, l3⟩, hget, h3⟩ := Run.bind_ok.mp h2
  obtain ⟨rfl, rfl, b, hb, hfs3⟩ := getInode_ok hget
  have haccount : SameAccount fs.aux fs3.aux := by
    rw [hfs3]
    exact trans_of SameAccount (addDirectory_account haddRun)
      (setBg_sameAccount hb (openedGroup_account _ _ _))
  have hgrows : Grows fs fs3 := by
    rw [hfs3]
    refine ⟨le_rfl, _, rfl, ?_⟩
    rintro c hc id offset len block rfl
    simp only [openedChunks] at hc
    split at hc <;> simp [tableChunk] at hc
  obtain ⟨found, ⟨fs4, l4⟩, halloc, h4⟩ := Run.bind_ok.mp h3
  cases found with
  | none =>
    obtain ⟨⟨⟩, st, -, hend⟩ := Run.bind_ok.mp h4
    cases hend
  | some data =>
    obtain ⟨ps, hplaced⟩ :=
      inodeAllocateDataExtents_placed (trans_of Grows h0 hgrows) (haccount.keeps hk) hL hbs hlen
        halloc
    obtain ⟨_, st, hread, h5⟩ := Run.bind_ok.mp h4
    cases hread
    obtain ⟨⟨⟩, ⟨fs5, l5⟩, hmode, h6⟩ := Run.bind_ok.mp h5
    obtain ⟨⟨⟩, ⟨fs6, l6⟩, hlinks, h7⟩ := Run.bind_ok.mp h6
    obtain ⟨⟨⟩, ⟨fs7, l7⟩, hflags, h8⟩ := Run.bind_ok.mp h7
    obtain ⟨⟨offset, offsets⟩, ⟨fs8, l8⟩, hfill, h9⟩ := Run.bind_ok.mp h8
    obtain ⟨⟨⟩, ⟨fs9, l9⟩, hupdate, hend⟩ := Run.bind_ok.mp h9
    cases hupdate
    cases hend
    obtain ⟨buffer, buffer', -, -, rfl⟩ := onHeap_ok.mp hfill
    have hretains : Retains (inodeRef info inodeNum) fs4 fs7 :=
      trans_of (Retains _) (setField_retains (by decide) _ _ _ _ _ _ hmode)
        (trans_of (Retains _) (setField_retains (by decide) _ _ _ _ _ _ hlinks)
          (orField_retains _ _ _ _ _ _ hflags))
    have hsparse : fs7.sparse = fs4.sparse := by
      rw [orField_sparse hflags, setField_sparse hlinks, setField_sparse hmode]
    rw [← haccount.freeList]
    refine ⟨ps, hplaced.retain ?_ hsparse⟩
    exact ⟨hretains.front, hretains.blocks, hretains.flag⟩

theorem makeDirectory_placed {dirInodeNum dirs n : Nat} {dentries : List Dentry} {slots : InodeSlots}
    (hk : L.Keeps fs.aux) (hL : L.Positive) (hbs : 512 ≤ info.blockSize.val)
    (h : makeDirectory info force dirInodeNum dentries dirs (fs, l) =
      .ok ((n, some slots), (fs', l'))) :
    ∃ ps, DataPlaced info (inodeRef info n) (directoryLen info dentries) slots.data fs.aux.freeList
      fs fs' ps := by
  rw [makeDirectory_eq] at h
  obtain ⟨inodeNum, ⟨fs1, l1⟩, hinode, h1⟩ := Run.bind_ok.mp h
  split at h1
  · obtain ⟨⟨⟩, st, -, hend⟩ := Run.bind_ok.mp h1
    cases hend
  split at hinode
  · obtain ⟨aux, hrun, rfl⟩ := onAux_ok.mp hinode
    have haccount := allocateInode_account hrun
    rw [← haccount.freeList]
    have hgrows : Grows fs { fs with aux := aux } := .of_same rfl le_rfl
    exact directoryAt_placed hgrows (haccount.keeps hk) hL hbs h1
  · cases hinode
    exact directoryAt_placed (refl_of Grows fs) hk hL hbs h1

end Made

end MakeExt4fs

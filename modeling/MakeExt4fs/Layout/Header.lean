import MakeExt4fs.Contents.Resize
import MakeExt4fs.Lib.Spans

namespace MakeExt4fs

open ErrorLog Words

def headerLen (info : FsInfo) (aux : FsAuxInfo) (i : Nat) : Nat :=
  2 + aux.inodeTableBlocks + if ext4BgHasSuperBlock info i then superblockBlocks info aux else 0

def headerSpans (info : FsInfo) (aux : FsAuxInfo) (i sb desc reserved : Nat)
    (d : Ext2GroupDesc) : List Span :=
  (if ext4BgHasSuperBlock info i then
    [⟨sb, 1⟩, ⟨desc, aux.bgDescBlocks⟩, ⟨reserved, info.bgDescReserveBlocks.val⟩]
  else []) ++ [⟨d.bgBlockBitmap, 1⟩, ⟨d.bgInodeBitmap, 1⟩, ⟨d.bgInodeTable, aux.inodeTableBlocks⟩]

-- The superblock copy of group i is queued at block b: that of group 0 at the end of the run.
def QueuesSuperblock (info : FsInfo) (fs : Fs) (i b : Nat) : Prop :=
  if i = 0 then ∀ fs' l, ∃ src n, ext4QueueSb info (fs', l) =
    .ok ((), ({ fs' with sparse := fs'.sparse ++ [.data src n b] }, l))
  else .data (.backupSb i) info.blockSize.val b ∈ fs.sparse

def QueuesInodeTable (info : FsInfo) (fs : Fs) (i b : Nat) : Prop :=
  ∀ (fs' : Fs) (l : List Ext4Error) (bg' : BlockGroupInfo), fs'.aux.bgs[i]? = some bg' →
    bg'.inodeTable = none → fs'.aux.bgDescBlocks = fs.aux.bgDescBlocks →
    (∀ bg, fs.aux.bgs[i]? = some bg →
      bg'.firstBlock = bg.firstBlock ∧ bg'.hasSuperblock = bg.hasSuperblock) →
    ∃ fs'', allocateBgInodeTable info i (fs', l) = .ok ((), (fs'', l)) ∧
      fs''.sparse = fs'.sparse ++
        [.data (.inodeTable i) (u32 (fs'.aux.inodeTableBlocks * info.blockSize.val)) b]

structure HeaderAgrees (info : FsInfo) (fs : Fs) (i : Nat) (bg : BlockGroupInfo)
    (d : Ext2GroupDesc) : Prop where
  bitmaps : ∀ n b, Chunk.data (.bitmaps i) n b ∈ fs.sparse ↔
    n = u32 (2 * info.blockSize.val) ∧ b = d.bgBlockBitmap
  inodeTable : QueuesInodeTable info fs i d.bgInodeTable
  start : bg.firstBlock = fs.aux.firstDataBlock + i * info.blocksPerGroup.val
  header : bg.headerBlocks = headerLen info fs.aux i
  used : bg.headerBlocks ≤ info.blocksPerGroup.val →
    ∀ k < bg.headerBlocks, bg.blockBitmap.testBit k = true
  tiles : ∃ sb desc reserved, Span.Tiles bg.firstBlock
      (headerSpans info fs.aux i sb desc reserved d) (bg.firstBlock + bg.headerBlocks) ∧
    (ext4BgHasSuperBlock info i = true → QueuesSuperblock info fs i sb ∧
      .data .bgDesc (u32 (fs.aux.bgDescBlocks * info.blockSize.val)) desc ∈ fs.sparse ∧
      ∃ alloc, resizeRegions info fs.aux (List.range fs.aux.groups) createAllocation =
          some alloc ∧
        alloc.pieces.filter (fun p => p.bg = i) =
          [⟨reserved, info.bgDescReserveBlocks.val, i⟩])

section Agreement

variable {info : FsInfo} {aux : FsAuxInfo} {i : Nat}

abbrev Numbered (info : FsInfo) (aux : FsAuxInfo) (i : Nat) : Prop :=
  headerLen info aux i < 4294967296 ∧
    aux.firstDataBlock + i * info.blocksPerGroup.val + headerLen info aux i ≤ 4294967296

theorem headerBlocks_of_numbered (h : Numbered info aux i) :
    headerBlocks info aux i = headerLen info aux i := u32_of_lt h.1

theorem firstBlock_of_numbered (h : Numbered info aux i) :
    firstBlock info aux i = aux.firstDataBlock + i * info.blocksPerGroup.val := by
  have hlen : 2 ≤ headerLen info aux i := by
    unfold headerLen
    omega
  have hword := h.2
  exact u32_of_lt (by omega)

theorem groupStartBlock_eq (info : FsInfo) (aux : FsAuxInfo) (i : Nat) :
    groupStartBlock info aux i = firstBlock info aux i := by
  simp only [groupStartBlock, firstBlock, u32]
  omega

theorem descOf_bitmaps (info : FsInfo) (aux : FsAuxInfo) (i : Nat) (d : Ext2GroupDesc) :
    (descOf info aux i d).bgBlockBitmap = bitmapsBlock info aux i := by
  simp only [descOf, bitmapsBlock, groupStartBlock_eq, groupHeaderSize, superblockBlocks]
  split
  · simp only [u32]
    omega
  · rfl

theorem descOf_inodeTable (d : Ext2GroupDesc) {bg : BlockGroupInfo}
    (hfirst : bg.firstBlock = firstBlock info aux i)
    (hsb : bg.hasSuperblock = ext4BgHasSuperBlock info i) :
    inodeTableBlock info aux bg = (descOf info aux i d).bgInodeTable := by
  simp only [inodeTableBlock, descOf, groupStartBlock_eq, groupHeaderSize, superblockBlocks,
    hfirst, hsb]
  split
  · simp only [u32]
    omega
  · simp only [u32]

theorem headerSpans_tile (h : Numbered info aux i) (d : Ext2GroupDesc) :
    Span.Tiles (firstBlock info aux i)
      (headerSpans info aux i (groupStartBlock info aux i)
        (u32 (groupStartBlock info aux i + 1)) (reservedPiece info aux i).block
        (descOf info aux i d))
      (firstBlock info aux i + headerBlocks info aux i) := by
  have hstart := firstBlock_of_numbered h
  have hword := h.2
  rw [← hstart] at hword
  have hlt : firstBlock info aux i < 4294967296 := u32_lt _
  rw [headerBlocks_of_numbered h]
  simp only [headerLen, superblockBlocks] at hword ⊢
  simp only [headerSpans, descOf, groupHeaderSize, reservedPiece, groupStartBlock_eq]
  by_cases hsb : ext4BgHasSuperBlock info i = true
  · simp only [if_pos hsb, List.cons_append, List.nil_append, Span.Tiles, u32] at hword ⊢
    refine ⟨Or.inr trivial, ?_⟩
    omega
  · simp only [if_neg hsb, List.nil_append, Span.Tiles, u32] at hword ⊢
    omega

theorem filter_reservedPieces (hi : i < aux.groups) (hsb : ext4BgHasSuperBlock info i = true) :
    (reservedPieces info aux).filter (fun p => p.bg = i) = [reservedPiece info aux i] := by
  have hmem : i ∈ (List.range aux.groups).filter (ext4BgHasSuperBlock info) :=
    List.mem_filter.mpr ⟨List.mem_range.mpr hi, hsb⟩
  have hnodup : ((List.range aux.groups).filter (ext4BgHasSuperBlock info)).Nodup :=
    List.nodup_range.filter _
  have hcomp : ((fun p : Piece => decide (p.bg = i)) ∘ reservedPiece info aux) =
      fun j => j == i := by
    funext j
    rfl
  rw [reservedPieces, List.filter_map, hcomp, List.filter_beq, List.count_eq_one_of_mem hnodup hmem]
  rfl

theorem bitmaps_not_mem_groupChunks {n b j : Nat} :
    Chunk.data (.bitmaps i) n b ∉ groupChunks info aux j := by
  unfold groupChunks
  split
  · split <;> simp
  · simp

theorem allocateBgInodeTable_run (info : FsInfo) (fs : Fs) (l : List Ext4Error) {bg : BlockGroupInfo}
    (hbg : fs.aux.bgs[i]? = some bg) (hnone : bg.inodeTable = none) :
    ∃ fs', allocateBgInodeTable info i (fs, l) = .ok ((), (fs', l)) ∧
      fs'.sparse = fs.sparse ++ [.data (.inodeTable i)
        (u32 (fs.aux.inodeTableBlocks * info.blockSize.val)) (inodeTableBlock info fs.aux bg)] := by
  have hno : ¬ bg.inodeTable.isSome = true := by simp [hnone]
  simp only [allocateBgInodeTable, Run.bind_run, Run.read_run, hbg, if_neg hno]
  simp only [sparseFileAddData, sparseFileAdd, Run.update_run, onAux, onGroup, Run.zoom, hbg]
  exact ⟨_, rfl, rfl⟩

def headerChunks (info : FsInfo) (aux : FsAuxInfo) : List Chunk :=
  (List.range aux.groups).map (bitmapsChunk info aux) ++
    (List.range aux.groups).flatMap (groupChunks info aux)

theorem bitmaps_mem_headerChunks (hi : i < aux.groups) {n b : Nat} :
    Chunk.data (.bitmaps i) n b ∈ headerChunks info aux ↔
      n = u32 (2 * info.blockSize.val) ∧ b = bitmapsBlock info aux i := by
  rw [headerChunks, List.mem_append, List.mem_map, List.mem_flatMap]
  constructor
  · rintro (⟨j, -, hj⟩ | ⟨j, -, hj⟩)
    · simp only [bitmapsChunk, Chunk.data.injEq, Source.bitmaps.injEq] at hj
      obtain ⟨rfl, hn, hb⟩ := hj
      exact ⟨hn.symm, hb.symm⟩
    · exact absurd hj bitmaps_not_mem_groupChunks
  · rintro ⟨rfl, rfl⟩
    exact Or.inl ⟨i, List.mem_range.mpr hi, rfl⟩

theorem mem_headerChunks_of_group (hi : i < aux.groups) {c : Chunk}
    (hc : c ∈ groupChunks info aux i) : c ∈ headerChunks info aux :=
  List.mem_append_right _ (List.mem_flatMap.mpr ⟨i, List.mem_range.mpr hi, hc⟩)

theorem bgDesc_mem_headerChunks (hi : i < aux.groups)
    (hsb : ext4BgHasSuperBlock info i = true) :
    .data .bgDesc (u32 (aux.bgDescBlocks * info.blockSize.val))
      (u32 (groupStartBlock info aux i + 1)) ∈ headerChunks info aux := by
  refine mem_headerChunks_of_group hi ?_
  rw [groupChunks, if_pos hsb]
  exact List.mem_append_right _ (List.mem_singleton.mpr rfl)

theorem queuesSuperblock_of_chunks {fs : Fs} (hi : i < fs.aux.groups) (hnum : Numbered info fs.aux i)
    (hfdb : fs.aux.firstDataBlock = info.firstDataBlock)
    (hsparse : fs.sparse = headerChunks info fs.aux) (hsb : ext4BgHasSuperBlock info i = true) :
    QueuesSuperblock info fs i (groupStartBlock info fs.aux i) := by
  unfold QueuesSuperblock
  split
  · rename_i hzero
    intro fs' l
    have hstart : groupStartBlock info fs.aux i = info.firstDataBlock := by
      rw [groupStartBlock_eq, firstBlock_of_numbered hnum, hzero]
      simpa using hfdb
    rw [hstart]
    unfold ext4QueueSb FsInfo.firstDataBlock
    split
    · exact ⟨_, _, rfl⟩
    · exact ⟨_, _, rfl⟩
  · rename_i hne
    rw [hsparse]
    refine mem_headerChunks_of_group hi ?_
    rw [groupChunks, if_pos hsb, if_pos hne]
    exact List.mem_append_left _ (List.mem_singleton.mpr rfl)

theorem queuesInodeTable_of_group {fs : Fs} {bg : BlockGroupInfo} (d : Ext2GroupDesc)
    (hbg : fs.aux.bgs[i]? = some bg) (hfirst : bg.firstBlock = firstBlock info fs.aux i)
    (hsuper : bg.hasSuperblock = ext4BgHasSuperBlock info i) :
    QueuesInodeTable info fs i (descOf info fs.aux i d).bgInodeTable := by
  intro fs' l bg' hbg' hnone hdesc hkeep
  obtain ⟨hf, hs⟩ := hkeep bg hbg
  obtain ⟨fs'', hrun, hqueue⟩ := allocateBgInodeTable_run info fs' l hbg' hnone
  refine ⟨fs'', hrun, ?_⟩
  have hblock : inodeTableBlock info fs'.aux bg' = inodeTableBlock info fs.aux bg := by
    simp only [inodeTableBlock, superblockBlocks, hf, hs, hdesc]
  rw [hqueue, hblock, descOf_inodeTable d hfirst hsuper]

theorem used_of_made {bg : BlockGroupInfo} (hmade : Made info aux i bg)
    (hle : bg.headerBlocks ≤ info.blocksPerGroup.val) :
    ∀ k < bg.headerBlocks, bg.blockBitmap.testBit k = true := by
  intro k hk
  have hsame : bg.headerBlocks = headerBlocks info aux i :=
    BlockGroupInfo.headerBlocks_of_frame hmade.frame
  have hsound := (hmade.setUp (hsame ▸ hle)).sound
  have hfree := hsound.hdr_le
  rw [hsound.bits k, decide_eq_true_eq]
  exact Or.inl (by change headerBlocks info aux i ≤ _ at hfree; omega)

-- The four functions that compute the layout of a group's header put its parts one behind the
-- other, in one place each, and together they are the blocks that init_bg marks as used.
theorem header_agrees {force : Bool} {fs1 fs2 : Fs} {l1 l2 : List Ext4Error}
    (haux : ext4InitFsAuxInfo info = some aux)
    (hinit : blockAllocatorInit info force (⟨aux, [], [], []⟩, []) = .ok ((), (fs1, l1)))
    (hfill : ext4FillInSb info (fs1, l1) = .ok ((), (fs2, l2)))
    (hi : i < aux.groups) (hnum : Numbered info aux i) :
    ∃ bg d, fs2.aux.bgs[i]? = some bg ∧ fs2.aux.bgDesc[i]? = some d ∧
      HeaderAgrees info fs2 i bg d := by
  have hinitTo := (blockAllocatorInit_meets info force ⟨aux, [], [], []⟩ []).ok hinit
  obtain ⟨-, hfilled⟩ := (ext4FillInSb_meets (fun _ => False) info fs1 l1).ok hfill
  have haux1 := hinitTo.aux
  have haux2 := hfilled.aux
  have hgroups : fs1.aux.groups = aux.groups := by rw [haux1]
  have hgroups2 : fs2.aux.groups = aux.groups := by
    rw [haux2]
    exact hgroups
  obtain ⟨bg, hbg, hmade⟩ := hinitTo.groups i hi
  obtain ⟨d, hd⟩ := hfilled.desc (show i < fs1.aux.groups by omega)
  have hsparse : fs2.sparse = headerChunks info fs2.aux := by
    rw [hfilled.sparse, hinitTo.sparse, headerChunks, haux2, hgroups, haux1]
    rfl
  have hnum2 : Numbered info fs2.aux i := by
    rw [haux2, haux1]
    exact hnum
  have hfirst : bg.firstBlock = firstBlock info fs2.aux i := by
    rw [haux2, haux1]
    exact BlockGroupInfo.firstBlock_of_frame hmade.frame
  have hheader : bg.headerBlocks = headerBlocks info fs2.aux i := by
    rw [haux2, haux1]
    exact BlockGroupInfo.headerBlocks_of_frame hmade.frame
  have hbg2 : fs2.aux.bgs[i]? = some bg := by
    rw [haux2]
    exact hbg
  have hi2 : i < fs2.aux.groups := by omega
  refine ⟨bg, _, hbg2, hd, ?_, ?_, ?_, ?_, used_of_made hmade, ?_⟩
  · intro n b
    rw [descOf_bitmaps, hsparse]
    exact bitmaps_mem_headerChunks hi2
  · exact queuesInodeTable_of_group d hbg2 hfirst
      (BlockGroupInfo.hasSuperblock_of_frame hmade.frame)
  · rw [hfirst, firstBlock_of_numbered hnum2]
  · rw [hheader, headerBlocks_of_numbered hnum2]
  · have htile := headerSpans_tile hnum2 d
    rw [← hfirst, ← hheader] at htile
    refine ⟨_, _, _, htile, fun hsb => ⟨?_, ?_, _, resizeRegions_run info fs2.aux, ?_⟩⟩
    · refine queuesSuperblock_of_chunks hi2 hnum2 ?_ hsparse hsb
      rw [haux2, haux1]
      exact (ext4InitFsAuxInfo_some haux).1
    · rw [hsparse]
      exact bgDesc_mem_headerChunks hi2 hsb
    · rw [BlockAllocation.pieces, linkedAlloc, live_linkPieces]
      exact filter_reservedPieces hi2 hsb

end Agreement

theorem header_agrees_of_small :
    ∃ fs1 fs2 bg d, blockAllocatorInit smallInfo false (⟨smallAux, [], [], []⟩, []) =
        .ok ((), (fs1, [])) ∧ ext4FillInSb smallInfo (fs1, []) = .ok ((), (fs2, [])) ∧
      fs2.aux.bgs[0]? = some bg ∧ fs2.aux.bgDesc[0]? = some d ∧
      HeaderAgrees smallInfo fs2 0 bg d := by
  obtain ⟨fs1, hinit, hdone⟩ := blockAllocatorInit_run smallInfo false ⟨smallAux, [], [], []⟩ []
    (by decide)
  have haux := hdone.aux
  obtain ⟨fs2, hfill⟩ := ext4FillInSb_run smallInfo fs1 []
    (by
      rw [haux]
      simp [smallAux])
  obtain ⟨bg, d, hbg, hd, hagrees⟩ := header_agrees (show ext4InitFsAuxInfo smallInfo =
    some smallAux from rfl) hinit hfill (show 0 < smallAux.groups by decide) (by decide)
  exact ⟨fs1, fs2, bg, d, hinit, hfill, hbg, hd, hagrees⟩

end MakeExt4fs

import MakeExt4fs.Contents.MadeDirectory
import MakeExt4fs.Fixup.ExtentTree

namespace MakeExt4fs

open ErrorLog Interrupt Words

def Backed.blocks (bs : Nat) (c : Backed) : List Nat :=
  (List.range (c.len / bs)).map fun j => c.block + j

def filledBlocks (bs data : Nat) (queue : List Chunk) : List Nat :=
  (backedOf data queue).flatMap (Backed.blocks bs)

def usedBlocks (blockList : BlockList) (numBlocks : Nat) : BlockList :=
  (List.range numBlocks).map fun i => blockList.getD i none

structure IsRecord (fs : Fs) (r : InodeRef) (inode : Buffer) : Prop where
  size : inode.size = sizeofExt4Inode
  same : ∀ i < 128, inode.get i = (fs.aux.table r.bg).get (r.off + i)

def LeafThere (bs : Nat) (fs : Fs) (r : InodeRef) (d : Disk) : Prop :=
  fs.field r (inBlock ehDepth) ≠ 0 → ∃ id b, fs.heap[id]? = some b ∧
    .data (.heap id 0) bs (fs.field r (inBlock eiLeafLo)) ∈ fs.sparse ∧
    fs.field r (inBlock eiLeafLo) * bs + bs ≤ d.size ∧
    ∀ i < bs, d.get (fs.field r (inBlock eiLeafLo) * bs + i) = b.get i

-- The reader of the new directory n, whose data were queued after fs, comes by the blocks that the
-- writer filled: as many bytes, and the same blocks in the order of the bytes.
structure ReadsBack (info : FsInfo) (fs fs' : Fs) (n data : Nat) : Prop where
  inOrder : Covers 0 ((filledBlocks info.blockSize.val data (fs'.sparse.drop fs.sparse.length)).length *
    info.blockSize.val) (backedOf data (fs'.sparse.drop fs.sparse.length))
  dirsize : s32 (fs'.field (inodeRef info n) iBlocksLo * inodeBlockSize) =
    ((filledBlocks info.blockSize.val data (fs'.sparse.drop fs.sparse.length)).length *
      info.blockSize.val : Nat)
  blockList : ∀ (v : Volume) (depth : Nat) (inode : Buffer) (m : Machine),
    v.info.blockSize = info.blockSize → IsRecord fs' (inodeRef info n) inode →
    LeafThere info.blockSize.val fs' (inodeRef info n) m.device → m.left = none →
    (getBlockList v depth inode (filledBlocks info.blockSize.val data
        (fs'.sparse.drop fs.sparse.length)).length).Ends
      (fun blockList m' => usedBlocks blockList (filledBlocks info.blockSize.val data
          (fs'.sparse.drop fs.sparse.length)).length =
        (filledBlocks info.blockSize.val data (fs'.sparse.drop fs.sparse.length)).map some ∧
          m'.device = m.device)
      (fun _ _ => False) m

section Routine

variable {v : Volume} {noWrite : Bool} {pass : Pass} {newInodesPerGroup : Nat}

def descend (v : Volume) (enter : Buffer → Int → Fixup Unit) (name : List UInt8) (inum : Nat) :
    Fixup Unit := do
  let tmpInode ← readInode v inum
  if sIsdir (iMode.get tmpInode) then
    let tmpDirsize := s32 (iBlocksLo.get tmpInode * inodeBlockSize)
    if tmpDirsize < 0 then Act.fail .mallocDirbuf else enter tmpInode tmpDirsize
  else
    Act.fail (.notDirectory inum name)

def recurseBlocks (v : Volume) (noWrite : Bool) (pass : Pass) (newInodesPerGroup : Nat)
    (enter : List UInt8 → Nat → Fixup Unit) (blocks : List Nat) (dirsize : Int) : Fixup Unit := do
  let dirbuf ← Act.fold blocks.zipIdx (fun dirbuf p => do
    let block ← readBlock v p.1
    return dirbuf.blit (p.2 * v.info.blockSize.val) block) (.zeros (ofInt32 dirsize))
  let dirbuf ← walkDir v pass newInodesPerGroup enter dirsize (ofInt32 dirsize + 1) 0 none dirbuf
  Act.each blocks.zipIdx fun p =>
    writeBlock v noWrite p.1 (dirbuf.view (p.2 * v.info.blockSize.val) v.info.blockSize.val)

variable {blockList : BlockList} {blocks : List Nat}

theorem zipIdx_eq_map_range (xs : List Nat) :
    xs.zipIdx = (List.range xs.length).map fun i => (xs.getD i 0, i) := by
  refine List.ext_getElem? fun i => ?_
  rw [List.getElem?_zipIdx, List.getElem?_map]
  rcases Nat.lt_or_ge i xs.length with hin | hout
  · rw [List.getElem?_range hin, List.getElem?_eq_getElem hin]
    simp [hin]
  · rw [List.getElem?_eq_none hout, List.getElem?_eq_none (by simpa using hout)]
    rfl

theorem getD_of_used (h : usedBlocks blockList blocks.length = blocks.map some) {i : Nat}
    (hi : i < blocks.length) : blockList.getD i none = some (blocks.getD i 0) := by
  have hat := congrArg (fun xs : BlockList => xs[i]?) h
  simp only [usedBlocks, List.getElem?_map, List.getElem?_range hi, List.getElem?_eq_getElem hi,
    Option.map_some, Option.some.injEq] at hat
  rw [hat, List.getD_eq_getElem?_getD, List.getElem?_eq_getElem hi, Option.getD_some]

theorem readDirBlocks_used (h : usedBlocks blockList blocks.length = blocks.map some)
    (dirbuf : Buffer) : readDirBlocks v blockList blocks.length dirbuf =
      Act.fold blocks.zipIdx (fun dirbuf p => do
        let block ← readBlock v p.1
        return dirbuf.blit (p.2 * v.info.blockSize.val) block) dirbuf := by
  rw [readDirBlocks, zipIdx_eq_map_range, Act.fold_map]
  refine Act.fold_congr (fun i hi dirbuf => ?_) dirbuf
  rw [getD_of_used h (List.mem_range.mp hi)]
  rfl

theorem writeDirBlocks_used (h : usedBlocks blockList blocks.length = blocks.map some)
    (dirbuf : Buffer) : writeDirBlocks v noWrite blockList blocks.length dirbuf =
      Act.each blocks.zipIdx fun p =>
        writeBlock v noWrite p.1 (dirbuf.view (p.2 * v.info.blockSize.val) v.info.blockSize.val) := by
  rw [writeDirBlocks, zipIdx_eq_map_range, Act.each_map]
  refine Act.each_congr fun i hi => ?_
  rw [getD_of_used h (List.mem_range.mp hi)]
  rfl

theorem recurseDir_used {depth : Nat} {inode : Buffer} {m m' : Machine} (hpos : 0 < v.info.blockSize.val)
    (hword : blocks.length * v.info.blockSize.val < 4294967296)
    (hlist : getBlockList v depth inode blocks.length m = (.ok blockList, m'))
    (h : usedBlocks blockList blocks.length = blocks.map some) :
    recurseDir v noWrite pass newInodesPerGroup (depth + 1) inode
        (blocks.length * v.info.blockSize.val : Nat) m =
      recurseBlocks v noWrite pass newInodesPerGroup
        (descend v (recurseDir v noWrite pass newInodesPerGroup depth)) blocks
        (blocks.length * v.info.blockSize.val : Nat) m' := by
  have hsize : ofInt32 (blocks.length * v.info.blockSize.val : Nat) =
      blocks.length * v.info.blockSize.val := by
    rw [ofInt32_natCast, u32_of_lt hword]
  have hcount : ofInt32 (blocks.length * v.info.blockSize.val : Nat) / v.info.blockSize.val =
      blocks.length := by
    rw [hsize]
    exact Nat.mul_div_cancel _ hpos
  have haligned : ofInt32 (blocks.length * v.info.blockSize.val : Nat) % v.info.blockSize.val = 0 := by
    rw [hsize]
    exact Nat.mul_mod_left _ _
  rw [recurseDir, if_neg (not_not.mpr haligned)]
  simp only [hcount]
  rw [Act.bind_run, hlist]
  simp only [readDirBlocks_used h, writeDirBlocks_used h]
  rfl

end Routine

section Blocks

variable {bs : Nat} {cs : List Backed}

def pieceBlocks (ps : List Piece) : List Nat :=
  ps.flatMap fun p => (List.range p.len).map fun j => p.block + j

theorem length_pieceBlocks (ps : List Piece) :
    (pieceBlocks ps).length = (ps.map Piece.len).sum := by
  simp [pieceBlocks, List.length_flatMap]

theorem getElem?_pieceBlocks (ps : List Piece) (i : Nat) :
    (pieceBlocks ps)[i]? = pieceBlock ps i := by
  induction ps generalizing i with
  | nil => rfl
  | cons p rest ih =>
    have hcons : pieceBlocks (p :: rest) =
        (List.range p.len).map (fun j => p.block + j) ++ pieceBlocks rest := rfl
    rw [pieceBlock, hcons]
    split
    · rename_i hin
      rw [List.getElem?_append_left (by simpa using hin)]
      simp [hin]
    · rename_i hout
      rw [List.getElem?_append_right (by simpa using hout), List.length_map, List.length_range]
      exact ih (i - p.len)

theorem Covers.stop_unique {start stop stop' : Nat} (h : Covers start stop cs)
    (h' : Covers start stop' cs) : stop = stop' := by
  induction cs generalizing start with
  | nil => exact h.symm.trans h'
  | cons c rest ih => exact ih h.2 h'.2

theorem blocks_exactBacking (hbs : 0 < bs) (offset : Nat) (ps : List Piece) :
    (exactBacking bs offset ((ps.map Piece.len).sum * bs) ps).flatMap (Backed.blocks bs) =
      pieceBlocks ps := by
  induction ps generalizing offset with
  | nil =>
    rw [List.map_nil, List.sum_nil, Nat.zero_mul]
    rfl
  | cons p rest ih =>
    rw [List.map_cons, List.sum_cons]
    generalize hleft : (p.len + (rest.map Piece.len).sum) * bs = left
    rw [Nat.add_mul] at hleft
    cases left with
    | zero =>
      -- Nothing is left, and the pieces have no blocks.
      have hnone : (pieceBlocks (p :: rest)).length = 0 := by
        rw [length_pieceBlocks, List.map_cons, List.sum_cons]
        have h1 : p.len * bs = 0 := by omega
        have h2 : (rest.map Piece.len).sum * bs = 0 := by omega
        have := (Nat.mul_eq_zero.mp h1).resolve_right (by omega)
        have := (Nat.mul_eq_zero.mp h2).resolve_right (by omega)
        omega
      rw [List.length_eq_zero_iff.mp hnone]
      rfl
    | succ left =>
      have hcut : min (p.len * bs) (left + 1) = p.len * bs := by omega
      have hrest : left + 1 - p.len * bs = (rest.map Piece.len).sum * bs := by omega
      have hblocks : Backed.blocks bs ⟨offset, p.len * bs, p.block⟩ =
          (List.range p.len).map fun j => p.block + j := by
        simp only [Backed.blocks, Nat.mul_div_cancel _ hbs]
      rw [exactBacking, hcut, hrest, List.flatMap_cons, hblocks, ih]
      rfl

end Blocks

section Stored

variable {fileBlock : Nat} {ps : List Piece}

def Extent.stored (e : Extent) : Extent :=
  ⟨u32 e.eeBlock, u16 e.eeLen, u16 e.eeStartHi, u32 e.eeStartLo⟩

def storedExtents (fileBlock : Nat) (ps : List Piece) : List Extent :=
  (extentsOf fileBlock ps).map Extent.stored

theorem storedExtents_cons {p : Piece} {rest : List Piece}
    (hend : fileBlock + p.len < 4294967296) : storedExtents fileBlock (p :: rest) =
      ⟨fileBlock, u16 p.len, 0, u32 p.block⟩ :: storedExtents (fileBlock + p.len) rest := by
  have hstart : u32 fileBlock = fileBlock := u32_of_lt (by omega)
  rw [storedExtents, extentsOf, List.map_cons, u32_of_lt hend]
  exact congrArg (fun n => Extent.mk n _ _ _ :: _) hstart

theorem length_storedExtents (fileBlock : Nat) (ps : List Piece) :
    (storedExtents fileBlock ps).length = ps.length := by
  rw [storedExtents, List.length_map, length_extentsOf]

theorem storedExtents_between (hend : fileBlock + (ps.map Piece.len).sum < 4294967296) :
    ∀ e ∈ storedExtents fileBlock ps, fileBlock ≤ e.eeBlock ∧
      e.eeBlock + e.eeLen ≤ fileBlock + (ps.map Piece.len).sum := by
  induction ps generalizing fileBlock with
  | nil => exact fun e he => absurd he List.not_mem_nil
  | cons p rest ih =>
    rw [List.map_cons, List.sum_cons] at hend ⊢
    rw [storedExtents_cons (by omega)]
    intro e he
    rcases List.mem_cons.mp he with rfl | he
    · have : u16 p.len ≤ p.len := Nat.mod_le _ _
      dsimp only
      omega
    · have := ih (by omega) e he
      omega

theorem storedExtents_wellFormed (hend : fileBlock + (ps.map Piece.len).sum < 4294967296) :
    (ExtentTree.leaf (storedExtents fileBlock ps)).WellFormed := by
  refine ⟨?_, fun e he => ?_⟩
  · induction ps generalizing fileBlock with
    | nil => exact List.Pairwise.nil
    | cons p rest ih =>
      rw [List.map_cons, List.sum_cons] at hend
      rw [storedExtents_cons (by omega)]
      refine List.pairwise_cons.mpr ⟨fun e he => ?_, ih (by omega)⟩
      have := (storedExtents_between (by omega) e he).1
      have : u16 p.len ≤ p.len := Nat.mod_le _ _
      dsimp only
      omega
  · have := (storedExtents_between hend e he).2
    omega

theorem storedExtents_assign {fileBlock : Nat}
    (hend : fileBlock + (ps.map Piece.len).sum < 4294967296)
    (hlens : ∀ p ∈ ps, p.len < 65536) (hword : ∀ p ∈ ps, p.block < 4294967296) {i b : Nat}
    (hb : pieceBlock ps i = some b) :
    (ExtentTree.leaf (storedExtents fileBlock ps)).Assigns (fileBlock + i) b := by
  induction ps generalizing fileBlock i with
  | nil => cases hb
  | cons p rest ih =>
    rw [List.map_cons, List.sum_cons] at hend
    rw [storedExtents_cons (by omega)]
    rw [pieceBlock] at hb
    split at hb
    · rename_i hin
      cases hb
      refine ⟨_, List.mem_cons_self, i, ?_, rfl, ?_⟩
      · exact hin.trans_eq (u16_of_lt (hlens p List.mem_cons_self)).symm
      · simp only [Extent.start, u32_of_lt (hword p List.mem_cons_self), Nat.zero_mul, Nat.zero_add]
    · rename_i hout
      have hrest : fileBlock + p.len + (rest.map Piece.len).sum < 4294967296 := by omega
      obtain ⟨e, he, hassign⟩ := ih hrest (fun q hq => hlens q (List.mem_cons_of_mem p hq))
        (fun q hq => hword q (List.mem_cons_of_mem p hq)) hb
      rw [show fileBlock + p.len + (i - p.len) = fileBlock + i by omega] at hassign
      exact ⟨e, List.mem_cons_of_mem _ he, hassign⟩

theorem storedExtents_miss {fileBlock : Nat} (hend : fileBlock + (ps.map Piece.len).sum < 4294967296) {p : Piece}
    (hp : p ∈ ps) (hlong : 65536 ≤ p.len) : ∃ i < (ps.map Piece.len).sum, ∀ b,
      ¬ (ExtentTree.leaf (storedExtents fileBlock ps)).Assigns (fileBlock + i) b := by
  induction ps generalizing fileBlock with
  | nil => cases hp
  | cons q rest ih =>
    rw [List.map_cons, List.sum_cons] at hend ⊢
    rw [storedExtents_cons (by omega)]
    rcases List.mem_cons.mp hp with rfl | hp
    · have hshort : u16 p.len < p.len := (Nat.mod_lt _ (by decide)).trans_le hlong
      refine ⟨u16 p.len, by omega, ?_⟩
      rintro b ⟨e, he, j, hj, heq, -⟩
      rcases List.mem_cons.mp he with rfl | he
      · dsimp only at hj heq
        omega
      · have := (storedExtents_between (by omega) e he).1
        omega
    · have hrest : fileBlock + q.len + (rest.map Piece.len).sum < 4294967296 := by omega
      obtain ⟨i, hi, hmiss⟩ := ih hrest hp
      refine ⟨q.len + i, by omega, ?_⟩
      rintro b ⟨e, he, hassign⟩
      rcases List.mem_cons.mp he with rfl | he
      · obtain ⟨j, hj, heq, -⟩ := hassign
        have : u16 q.len ≤ q.len := Nat.mod_le _ _
        dsimp only at hj heq
        omega
      · rw [← Nat.add_assoc] at hassign
        exact hmiss b ⟨e, he, hassign⟩

end Stored

section Reader

variable {fs : Fs} {r : InodeRef} {inode : Buffer} {ps : List Piece} {n : Nat}

theorem IsRecord.get (h : IsRecord fs r inode) {f : Field} (hf : f.off + f.size ≤ 128) :
    f.get inode = fs.field r f := by
  have hview : f.get inode = f.get ((fs.aux.table r.bg).view r.off 128) := by
    refine Buffer.getLE_congr fun i _ hi => ?_
    rw [h.same i (by omega), Buffer.get_view (by omega)]
  exact hview.trans (Buffer.getLE_view hf)

theorem IsRecord.held (h : IsRecord fs r inode) (hin : InInode fs r ps) (hfew : ps.length ≤ 3)
    (v : Volume) (d : Disk) : (ExtentTree.leaf (storedExtents 0 ps)).Held v d 0 inode
      (iBlock 0).off ((iBlock 0).off + 60) := by
  have hget {f : Field} (hf : f.off + f.size ≤ 60) :
      (ehAt (iBlock 0).off f).get inode = fs.field r (inBlock f) := by
    refine h.get (f := inBlock f) ?_
    change 40 + f.off + f.size ≤ 128
    omega
  refine ⟨rfl, ?_, ?_, ?_, ?_, ?_, fun i hi => ?_⟩
  · rw [h.size]
    decide
  · rw [length_storedExtents]
    omega
  · rw [hget (by decide), hin.header.magic]
  · rw [hget (by decide), hin.header.depth]
  · rw [hget (by decide), hin.header.entries, length_storedExtents]
  · have hk : i < (extentsOf 0 ps).length := by
      rwa [length_storedExtents, ← length_extentsOf 0] at hi
    have hfour : i < 4 := by
      rw [length_extentsOf] at hk
      omega
    obtain ⟨hblock, hlen, hhi, hlo⟩ := hin.extents i hk
    have hstored : (storedExtents 0 ps)[i] = ((extentsOf 0 ps)[i]).stored := by
      simp [storedExtents]
    rw [hstored, hget (by simp only [eeBlock]; omega), hget (by simp only [eeLen]; omega),
      hget (by simp only [eeStartHi]; omega), hget (by simp only [eeStartLo]; omega), hblock, hlen,
      hhi, hlo]
    exact ⟨rfl, rfl, rfl⟩

theorem and_extentsFl_ne_zero {flags : Nat} (h : flags.testBit 19 = true) :
    flags &&& ext4ExtentsFl ≠ 0 := by
  change flags &&& 2 ^ 19 ≠ 0
  rw [Nat.and_two_pow, h]
  decide

theorem getBlockList_inInode {v : Volume} {depth : Nat} {m : Machine} (h : IsRecord fs r inode)
    (hin : InInode fs r ps) (hfew : ps.length ≤ 3) (hflag : (fs.field r iFlags).testBit 19 = true)
    (hsum : (ps.map Piece.len).sum ≤ n) (hn : n < 4294967296) :
    (getBlockList v depth inode n).Ends (fun blockList m' =>
      Stored (ExtentTree.leaf (storedExtents 0 ps)).Assigns (List.replicate (n + 1) none)
        blockList ∧ m' = m) (fun _ _ => False) m := by
  have hend : 0 + (ps.map Piece.len).sum < 4294967296 := by omega
  have hheld := h.held hin hfew v m.device
  have hmagic : (ehAt (iBlock 0).off ehMagic).get inode = ext4ExtMagic := hheld.2.2.2.1
  simp only [getBlockList, getBlockListExtents]
  rw [h.get (f := iFlags) (by decide), if_pos (and_extentsFl_ne_zero hflag),
    if_neg (not_not.mpr hmagic), if_pos hheld.depth]
  refine getExtentEnts_ends hheld (storedExtents_wellFormed hend) ?_
  rintro l b ⟨e, he, j, hj, rfl, -⟩
  have := (storedExtents_between hend e he).2
  rw [List.length_replicate]
  omega

end Reader

section Condition

def dropSpare : List Nat → List Nat
  | [] => []
  | n :: rest => (n - 1) :: rest

theorem map_len_shrinkFirst (ps : List Piece) :
    (shrinkFirst ps).map Piece.len = dropSpare (ps.map Piece.len) := by
  cases ps <;> rfl

-- The extents of a directory of len bytes are in its inode, in 16 bits each, and its length is an
-- int and counts sectors. What best fit carves is len's blocks and the spare one.
structure FitsInode (bs len : Nat) (free : List Nat) : Prop where
  few : (carve (len / bs + 1) (len / bs + 1) free).length ≤ 3
  lengths : ∀ n ∈ dropSpare (carve (len / bs + 1) (len / bs + 1) free), n < 65536
  bytes : len < 2147483648
  blocks : bs ∣ len
  sectors : 512 ∣ len

instance (bs len : Nat) (free : List Nat) : Decidable (FitsInode bs len free) :=
  decidable_of_iff ((carve (len / bs + 1) (len / bs + 1) free).length ≤ 3 ∧
      (∀ n ∈ dropSpare (carve (len / bs + 1) (len / bs + 1) free), n < 65536) ∧
        len < 2147483648 ∧ bs ∣ len ∧ 512 ∣ len)
    ⟨fun h => ⟨h.1, h.2.1, h.2.2.1, h.2.2.2.1, h.2.2.2.2⟩,
      fun h => ⟨h.few, h.lengths, h.bytes, h.blocks, h.sectors⟩⟩

end Condition

section Writer

variable {L : Layout} {info : FsInfo} {force : Bool} {fs fs' : Fs} {l l' : List Ext4Error}
  {ps : List Piece} {len data n : Nat} {free : List Nat}

theorem s32_eq_iff {i m : Nat} : s32 i = m ↔ u32 i = m ∧ m < 2147483648 := by
  have := u32_lt i
  unfold s32
  split <;> omega

theorem shrinkFirst_word (h : ∀ p ∈ ps, p.block < 4294967296) :
    ∀ p ∈ shrinkFirst ps, p.block < 4294967296 := by
  cases ps with
  | nil => exact h
  | cons p rest =>
    intro q hq
    rcases List.mem_cons.mp hq with rfl | hq
    · exact h p List.mem_cons_self
    · exact h q (List.mem_cons_of_mem p hq)

theorem usedBlocks_iff {qs : List Piece} {blockList : BlockList}
    (hword : ∀ p ∈ qs, p.block < 4294967296) (hend : (qs.map Piece.len).sum < 4294967296)
    (h : Stored (ExtentTree.leaf (storedExtents 0 qs)).Assigns
      (List.replicate ((qs.map Piece.len).sum + 1) none) blockList) :
    usedBlocks blockList (qs.map Piece.len).sum = (pieceBlocks qs).map some ↔
      ∀ p ∈ qs, p.len < 65536 := by
  rw [← Nat.zero_add (qs.map Piece.len).sum] at hend
  constructor
  · intro hused p hp
    by_contra hlong
    obtain ⟨i, hi, hmiss⟩ := storedExtents_miss hend hp (Nat.le_of_not_lt hlong)
    have hnone : blockList[i]? = some none := by
      rw [h.others i fun b => by simpa using hmiss b, List.getElem?_replicate, if_pos (by omega)]
    have hat := congrArg (fun xs : BlockList => xs[i]?) hused
    simp only [usedBlocks, List.getElem?_map, List.getElem?_range hi, Option.map_some,
      List.getD_eq_getElem?_getD, hnone, Option.getD_some] at hat
    cases hblock : (pieceBlocks qs)[i]? with
    | none =>
      rw [List.getElem?_eq_none_iff, length_pieceBlocks] at hblock
      omega
    | some b =>
      rw [hblock] at hat
      cases hat
  · intro hlens
    refine List.ext_getElem? fun i => ?_
    rw [usedBlocks, List.getElem?_map, List.getElem?_map, getElem?_pieceBlocks]
    rcases Nat.lt_or_ge i (qs.map Piece.len).sum with hin | hout
    · obtain ⟨b, hblock⟩ : ∃ b, pieceBlock qs i = some b := by
        rw [← getElem?_pieceBlocks]
        exact ⟨_, List.getElem?_eq_getElem (by rwa [length_pieceBlocks])⟩
      have hset := h.assigned _ _ (storedExtents_assign hend hlens hword hblock)
      rw [Nat.zero_add] at hset
      rw [List.getElem?_range hin, hblock, Option.map_some, Option.map_some,
        List.getD_eq_getElem?_getD, hset, Option.getD_some]
    · rw [List.getElem?_eq_none (by simpa using hout), ← getElem?_pieceBlocks,
        List.getElem?_eq_none (by rwa [length_pieceBlocks])]
      rfl

theorem divRoundUp_of_dvd {x y : Nat} (hy : 0 < y) (h : y ∣ x) : divRoundUp x y = x / y := by
  obtain ⟨n, rfl⟩ := h
  rw [Nat.mul_div_cancel_left n hy, Nat.mul_comm]
  exact divRoundUp_mul_self n hy

theorem DataPlaced.filled (h : DataPlaced info (inodeRef info n) len data free fs fs' ps)
    (hbs : 0 < info.blockSize.val) (hdvd : info.blockSize.val ∣ len) (hlen : len < 4294967296)
    (hfew : ps.length ≤ 3) :
    filledBlocks info.blockSize.val data (fs'.sparse.drop fs.sparse.length) =
      pieceBlocks (shrinkFirst ps) := by
  obtain ⟨-, hsum, -, hbacked⟩ := h.few hfew
  have hbytes : ((shrinkFirst ps).map Piece.len).sum * info.blockSize.val = len := by
    rw [hsum, divRoundUp_of_dvd hbs hdvd]
    exact Nat.div_mul_cancel hdvd
  have hfit (left : Nat) (qs : List Piece)
      (hle : (qs.map Piece.len).sum * info.blockSize.val ≤ len) :
      RegionsFit info.blockSize.val left qs := by
    induction qs generalizing left with
    | nil => trivial
    | cons q rest ih =>
      rw [List.map_cons, List.sum_cons, Nat.add_mul] at hle
      exact Or.inr ⟨Or.inl (by omega), ih _ (by omega)⟩
  rw [filledBlocks, hbacked, (backedBy_eq_iff 0 len).mpr (hfit _ _ hbytes.le),
    ← blocks_exactBacking hbs 0 (shrinkFirst ps), hbytes]

theorem DataPlaced.dirsize_iff (h : DataPlaced info (inodeRef info n) len data free fs fs' ps)
    (hbs : 512 ≤ info.blockSize.val) (hdvd : info.blockSize.val ∣ len) (hlen : len < 4294967296) :
    s32 (fs'.field (inodeRef info n) iBlocksLo * inodeBlockSize) = (len : Int) ↔
      ps.length ≤ 3 ∧ len < 2147483648 ∧ 512 ∣ len := by
  have hword := info.blockSize.isLt
  have hbytes : divRoundUp len info.blockSize.val * info.blockSize.val = len := by
    rw [divRoundUp_of_dvd (by omega) hdvd]
    exact Nat.div_mul_cancel hdvd
  rw [s32_eq_iff]
  rcases Nat.lt_or_ge 3 ps.length with hmany | hfew
  · refine iff_of_false (fun hs => ?_) (by omega)
    have hone := hs.1
    have hsmall : (len + info.blockSize.val) / 512 < 4294967296 := by omega
    rw [h.many hmany, Nat.succ_mul, hbytes, u32_of_lt hsmall, inodeBlockSize] at hone
    simp only [u32] at hone
    omega
  · have hsmall : len / 512 < 4294967296 := by omega
    rw [(h.few hfew).1, hbytes, u32_of_lt hsmall, inodeBlockSize, u32_of_lt (by omega)]
    omega

theorem DataPlaced.reads_iff (h : DataPlaced info (inodeRef info n) len data free fs fs' ps)
    (hbs : 512 ≤ info.blockSize.val) (hlen : len < 4294967296) :
    ReadsBack info fs fs' n data ↔ FitsInode info.blockSize.val len free := by
  have hpos : 0 < info.blockSize.val := by omega
  have hlength (hdvd : info.blockSize.val ∣ len) :
      (carve (len / info.blockSize.val + 1) (len / info.blockSize.val + 1) free).length =
        ps.length := by
    rw [← divRoundUp_of_dvd hpos hdvd, ← h.carved, List.length_map]
  have hlens (hdvd : info.blockSize.val ∣ len) : (∀ p ∈ shrinkFirst ps, p.len < 65536) ↔
      ∀ n ∈ dropSpare (carve (len / info.blockSize.val + 1) (len / info.blockSize.val + 1) free),
        n < 65536 := by
    rw [← divRoundUp_of_dvd hpos hdvd, ← h.carved, ← map_len_shrinkFirst]
    simp
  have hlist (hdvd : info.blockSize.val ∣ len) (hfew : ps.length ≤ 3) {v : Volume} {depth : Nat}
      {inode : Buffer} {m : Machine} (hrec : IsRecord fs' (inodeRef info n) inode) :
      (getBlockList v depth inode (filledBlocks info.blockSize.val data
        (fs'.sparse.drop fs.sparse.length)).length).Ends (fun blockList m' =>
          (usedBlocks blockList (filledBlocks info.blockSize.val data
              (fs'.sparse.drop fs.sparse.length)).length = (filledBlocks info.blockSize.val data
              (fs'.sparse.drop fs.sparse.length)).map some ↔ ∀ p ∈ shrinkFirst ps, p.len < 65536) ∧
            m' = m) (fun _ _ => False) m := by
    obtain ⟨-, hsum, hin, -⟩ := h.few hfew
    have hend : ((shrinkFirst ps).map Piece.len).sum < 4294967296 := by
      rw [hsum, divRoundUp_of_dvd hpos hdvd]
      exact (Nat.div_le_self _ _).trans_lt hlen
    rw [h.filled hpos hdvd hlen hfew, length_pieceBlocks]
    refine (getBlockList_inInode hrec hin (by simpa using hfew) h.flag le_rfl hend).post ?_
    rintro blockList m' ⟨hstored, rfl⟩
    exact ⟨usedBlocks_iff (shrinkFirst_word h.word) hend hstored, rfl⟩
  constructor
  · rintro ⟨hcovers, hsize, hread⟩
    have hcount := hcovers.stop_unique h.covers
    have hdvd : info.blockSize.val ∣ len := hcount ▸ Nat.dvd_mul_left _ _
    rw [hcount] at hsize
    obtain ⟨hfew, hbytes, hsectors⟩ := (h.dirsize_iff hbs hdvd hlen).mp hsize
    have hrec : IsRecord fs' (inodeRef info n)
        ((fs'.aux.table (inodeRef info n).bg).view (inodeRef info n).off sizeofExt4Inode) :=
      ⟨rfl, fun i hi => Buffer.get_view (by simp only [sizeofExt4Inode]; omega)⟩
    have hnoLeaf : LeafThere info.blockSize.val fs' (inodeRef info n) (Disk.ofBuffer (.zeros 0)) :=
      fun hne => absurd (h.few hfew).2.2.1.header.depth hne
    have hends := (hread ⟨info, fs.aux⟩ 0 _ (.start (Disk.ofBuffer (.zeros 0)) none) rfl hrec
      hnoLeaf rfl).and (hlist hdvd hfew hrec)
    refine ⟨(hlength hdvd).trans_le hfew, ?_, hbytes, hdvd, hsectors⟩
    by_contra hlong
    refine (hends.mono ?_ fun _ _ h => h.1).false
    rintro blockList m' ⟨⟨hused, -⟩, hiff, -⟩
    exact hlong ((hlens hdvd).mp (hiff.mp hused))
  · rintro ⟨hfew, hshort, hbytes, hdvd, hsectors⟩
    rw [hlength hdvd] at hfew
    have hcount : (filledBlocks info.blockSize.val data
        (fs'.sparse.drop fs.sparse.length)).length * info.blockSize.val = len := by
      rw [h.filled hpos hdvd hlen hfew, length_pieceBlocks, (h.few hfew).2.1,
        divRoundUp_of_dvd hpos hdvd]
      exact Nat.div_mul_cancel hdvd
    refine ⟨?_, ?_, ?_⟩
    · rw [hcount]
      exact h.covers
    · rw [hcount]
      exact (h.dirsize_iff hbs hdvd hlen).mpr ⟨hfew, hbytes, hsectors⟩
    · intro v depth inode m _ hrec _ _
      refine (hlist hdvd hfew hrec).post ?_
      rintro blockList m' ⟨hiff, rfl⟩
      exact ⟨hiff.mpr ((hlens hdvd).mpr hshort), rfl⟩

theorem readsBack_iff {dirInodeNum dirs : Nat} {dentries : List Dentry} {slots : InodeSlots}
    (hk : L.Keeps fs.aux) (hL : L.Positive) (hbs : 512 ≤ info.blockSize.val)
    (hrun : makeDirectory info force dirInodeNum dentries dirs (fs, l) =
      .ok ((n, some slots), (fs', l'))) :
    ReadsBack info fs fs' n slots.data ↔
      FitsInode info.blockSize.val (directoryLen info dentries) fs.aux.freeList := by
  obtain ⟨ps, hplaced⟩ := makeDirectory_placed hk hL hbs hrun
  exact hplaced.reads_iff hbs (u32_lt _)

theorem ReadsBack.recurseDir (h : ReadsBack info fs fs' n data) (hpos : 0 < info.blockSize.val)
    {v : Volume} {noWrite : Bool} {pass : Pass} {newInodesPerGroup depth : Nat} {inode : Buffer}
    {m : Machine} (hv : v.info.blockSize = info.blockSize)
    (hrec : IsRecord fs' (inodeRef info n) inode)
    (hleaf : LeafThere info.blockSize.val fs' (inodeRef info n) m.device) (hleft : m.left = none) :
    ∃ m', m'.device = m.device ∧
      recurseDir v noWrite pass newInodesPerGroup (depth + 1) inode
          (s32 (iBlocksLo.get inode * inodeBlockSize)) m =
        recurseBlocks v noWrite pass newInodesPerGroup
          (descend v (recurseDir v noWrite pass newInodesPerGroup depth))
          (filledBlocks info.blockSize.val data (fs'.sparse.drop fs.sparse.length))
          (s32 (iBlocksLo.get inode * inodeBlockSize)) m' := by
  have hsize := h.dirsize
  obtain ⟨-, hword⟩ := s32_eq_iff.mp hsize
  rw [hrec.get (f := iBlocksLo) (by decide), hsize, ← hv]
  rw [← hv] at hpos hword
  have hends := h.blockList v depth inode m hv hrec hleaf hleft
  unfold Act.Ends at hends
  rw [← hv] at hends
  rcases hrun : getBlockList v depth inode (filledBlocks v.info.blockSize.val data
    (fs'.sparse.drop fs.sparse.length)).length m with ⟨e | blockList, m'⟩
  · rw [hrun] at hends
    exact hends.elim
  · rw [hrun] at hends
    exact ⟨m', hends.2, recurseDir_used (by omega) (by omega) hrun hends.1⟩

end Writer

section Example

def fourGroups : Layout where
  groups := 4
  bpg := 8192
  firstDataBlock := 1
  lenBlocks := 32769
  first i := 8192 * i + 1
  header _ := 100
  limit _ := 8192
  bpg_lt := by decide
  word i hi := by omega
  inside i hi := by omega
  header_le _ _ := by decide
  apart i j hi hj := by omega

theorem fourGroups_positive : fourGroups.Positive := fun i _ => by
  change 0 < 8192 * i + 1 + 100
  omega

def fourGroupsInfo : FsInfo :=
  { noInfo with blockSize := 1024, blocksPerGroup := 8192, inodesPerGroup := 64, inodeSize := 256 }

def groupWith (i free freeInodes : Nat) : BlockGroupInfo :=
  { BlockGroupInfo.zero with
    firstBlock := 8192 * i + 1
    headerBlocks := 100
    blockBitmap := 2 ^ (8192 - free) - 1
    freeBlocks := free
    firstFreeBlock := 8192 - free
    inodeBitmap := 2 ^ (64 - freeInodes) - 1
    freeInodes := freeInodes
    firstFreeInode := 65 - freeInodes }

def fsWith (free0 free1 free2 free3 : Nat) : Fs where
  aux := ⟨.zero, [], [],
    [groupWith 0 free0 53, groupWith 1 free1 64, groupWith 2 free2 64, groupWith 3 free3 64], [], 1,
    32769, 16, 4, 1, 0, 256, 65536, 0⟩
  sparse := []
  heap := []
  dirs := []

theorem groupWith_group {i free : Nat} (freeInodes : Nat) (hfree : free ≤ 8092) :
    fourGroups.Group i (groupWith i free freeInodes) := by
  have hfirst : (groupWith i free freeInodes).firstFreeBlock = 8192 - free := rfl
  refine ⟨rfl, rfl, fun k => ?_, ?_, ?_, le_rfl, ?_⟩
  · rw [hfirst]
    change (2 ^ (8192 - free) - 1).testBit k = decide (k < 8192 - free ∨ 8192 ≤ k ∧ k < 8192)
    rw [Nat.testBit_two_pow_sub_one, decide_eq_decide]
    omega
  · rw [hfirst]
    change free = 8192 - (8192 - free)
    omega
  · rw [hfirst]
    change 100 ≤ 8192 - free
    omega
  · rw [hfirst]
    change 8192 - free ≤ 8192 ∨ _
    omega

theorem fsWith_keeps {free0 free1 free2 free3 : Nat} (h0 : free0 ≤ 8092) (h1 : free1 ≤ 8092)
    (h2 : free2 ≤ 8092) (h3 : free3 ≤ 8092) :
    fourGroups.Keeps (fsWith free0 free1 free2 free3).aux := by
  refine ⟨rfl, rfl, rfl, rfl, fun {i b} hb => ?_⟩
  match i with
  | 0 => cases hb; exact groupWith_group 53 h0
  | 1 => cases hb; exact groupWith_group 64 h1
  | 2 => cases hb; exact groupWith_group 64 h2
  | 3 => cases hb; exact groupWith_group 64 h3
  | i + 4 => cases hb

-- Ten files with names of 255 bytes, three of which fit into a block.
def longNames : List Dentry := (List.range 10).map fun i =>
  ⟨[], none, UInt8.ofNat (97 + i) :: List.replicate 254 120, [], 0, 1, 0o100644, 0, 0, 0, 0⟩

def madeDirectory (res : Except (Stop Ext4Error)
    ((Nat × Option InodeSlots) × (Fs × List Ext4Error))) : Bool :=
  match res with
  | .ok ((_, some _), _) => true
  | .ok ((_, none), _) => false
  | .error _ => false

theorem exists_of_madeDirectory {res : Except (Stop Ext4Error)
    ((Nat × Option InodeSlots) × (Fs × List Ext4Error))} (h : madeDirectory res = true) :
    ∃ n slots fs' l', res = .ok ((n, some slots), (fs', l')) := by
  unfold madeDirectory at h
  split at h
  · exact ⟨_, _, _, _, rfl⟩
  · cases h
  · cases h

-- Two blocks and three single ones are free, for four and the spare one.
theorem scattered_directory_misread : ¬ ∀ (L : Layout) (info : FsInfo) (force : Bool) (fs fs' : Fs)
    (l l' : List Ext4Error) (dirInodeNum dirs n : Nat) (dentries : List Dentry) (slots : InodeSlots),
    L.Keeps fs.aux → L.Positive → 512 ≤ info.blockSize.val →
      makeDirectory info force dirInodeNum dentries dirs (fs, l) =
        .ok ((n, some slots), (fs', l')) → ReadsBack info fs fs' n slots.data := by
  intro h
  have hk : fourGroups.Keeps (fsWith 2 1 1 1).aux :=
    fsWith_keeps (by decide) (by decide) (by decide) (by decide)
  have hbs : 512 ≤ fourGroupsInfo.blockSize.val := by decide
  have hmade : madeDirectory (makeDirectory fourGroupsInfo false 2 longNames 0
    (fsWith 2 1 1 1, [])) = true := by decide +kernel
  obtain ⟨n, slots, fs', l', hrun⟩ := exists_of_madeDirectory hmade
  have hreads := h _ _ _ _ _ _ _ _ _ _ _ _ hk fourGroups_positive hbs hrun
  obtain ⟨ps, hplaced⟩ := makeDirectory_placed hk fourGroups_positive hbs hrun
  have hfits := (hplaced.reads_iff hbs (u32_lt _)).mp hreads
  revert hfits
  decide +kernel

theorem readsBack_longNames : ∃ n slots fs' l', makeDirectory fourGroupsInfo false 2 longNames 0
      (fsWith 1000 1 1 1, []) = .ok ((n, some slots), (fs', l')) ∧
    ReadsBack fourGroupsInfo (fsWith 1000 1 1 1) fs' n slots.data := by
  have hmade : madeDirectory (makeDirectory fourGroupsInfo false 2 longNames 0
    (fsWith 1000 1 1 1, [])) = true := by decide +kernel
  obtain ⟨n, slots, fs', l', hrun⟩ := exists_of_madeDirectory hmade
  refine ⟨n, slots, fs', l', hrun, (readsBack_iff (fsWith_keeps (by decide) (by decide) (by decide)
    (by decide)) fourGroups_positive (by decide) hrun).mpr ?_⟩
  decide +kernel

end Example

end MakeExt4fs

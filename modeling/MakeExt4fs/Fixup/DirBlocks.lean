import MakeExt4fs.Fixup.Calm

namespace MakeExt4fs

open ErrorLog Interrupt Words

def extentRun (inode : Buffer) (i : Nat) : List Nat :=
  (List.range ((ehAt (iBlock 0).off (eeLen i)).get inode)).map fun j =>
    (ehAt (iBlock 0).off (eeStartHi i)).get inode * 4294967296 +
      (ehAt (iBlock 0).off (eeStartLo i)).get inode + j

def extentRuns (inode : Buffer) (n : Nat) : List Nat := (List.range n).flatMap (extentRun inode)

structure InlineExtents (inode : Buffer) (blocks : List Nat) : Prop where
  extents : iFlags.get inode &&& ext4ExtentsFl ≠ 0
  magic : (ehAt (iBlock 0).off ehMagic).get inode = ext4ExtMagic
  depth : (ehAt (iBlock 0).off ehDepth).get inode = 0
  few : (ehAt (iBlock 0).off ehEntries).get inode ≤ 4
  inOrder : ∀ i < (ehAt (iBlock 0).off ehEntries).get inode,
    (ehAt (iBlock 0).off (eeBlock i)).get inode = (extentRuns inode i).length
  mapped : extentRuns inode ((ehAt (iBlock 0).off ehEntries).get inode) = blocks

instance (inode : Buffer) (blocks : List Nat) : Decidable (InlineExtents inode blocks) :=
  decidable_of_iff (iFlags.get inode &&& ext4ExtentsFl ≠ 0 ∧
      (ehAt (iBlock 0).off ehMagic).get inode = ext4ExtMagic ∧
      (ehAt (iBlock 0).off ehDepth).get inode = 0 ∧
      (ehAt (iBlock 0).off ehEntries).get inode ≤ 4 ∧
      (∀ i < (ehAt (iBlock 0).off ehEntries).get inode,
        (ehAt (iBlock 0).off (eeBlock i)).get inode = (extentRuns inode i).length) ∧
      extentRuns inode ((ehAt (iBlock 0).off ehEntries).get inode) = blocks)
    ⟨fun ⟨h1, h2, h3, h4, h5, h6⟩ => ⟨h1, h2, h3, h4, h5, h6⟩,
      fun ⟨h1, h2, h3, h4, h5, h6⟩ => ⟨h1, h2, h3, h4, h5, h6⟩⟩

section Extents

variable {inode : Buffer} {blocks : List Nat}

theorem extentRuns_succ (inode : Buffer) (n : Nat) :
    extentRuns inode (n + 1) = extentRuns inode n ++ extentRun inode n := by
  simp [extentRuns, List.range_succ]

theorem length_extentRun_lt (inode : Buffer) (i : Nat) : (extentRun inode i).length < 65536 := by
  rw [extentRun, List.length_map, List.length_range]
  have h0 := inode.get_lt ((iBlock 0).off + (16 + 12 * i))
  have h1 := inode.get_lt ((iBlock 0).off + (16 + 12 * i) + 1)
  simp only [Field.get, ehAt, eeLen, Buffer.getLE]
  omega

theorem length_extentRuns_le (inode : Buffer) (n : Nat) :
    (extentRuns inode n).length ≤ n * 65535 := by
  induction n with
  | zero => simp [extentRuns]
  | succ n ih =>
    have := length_extentRun_lt inode n
    rw [extentRuns_succ, List.length_append]
    omega

theorem InlineExtents.length_le (h : InlineExtents inode blocks) : blocks.length ≤ 262140 := by
  have hle := length_extentRuns_le inode ((ehAt (iBlock 0).off ehEntries).get inode)
  have hfew := h.few
  rw [h.mapped] at hle
  omega

theorem length_extentRuns_mono (inode : Buffer) {m n : Nat} (h : m ≤ n) :
    (extentRuns inode m).length ≤ (extentRuns inode n).length := by
  induction n with
  | zero =>
    obtain rfl : m = 0 := by omega
    exact le_rfl
  | succ n ih =>
    rcases Nat.le_succ_iff.mp h with hle | rfl
    · rw [extentRuns_succ, List.length_append]
      exact (ih hle).trans (Nat.le_add_right _ _)
    · exact le_rfl

def filled (n : Nat) (blocks : List Nat) : BlockList :=
  blocks.map some ++ List.replicate (n + 1 - blocks.length) none

@[simp] theorem filled_nil (n : Nat) : filled n [] = List.replicate (n + 1) none := by
  simp [filled]

theorem length_filled {n : Nat} (h : blocks.length ≤ n) : (filled n blocks).length = n + 1 := by
  simp only [filled, List.length_append, List.length_map, List.length_replicate]
  omega

theorem filled_getD {n i : Nat} (hi : i < blocks.length) :
    (filled n blocks).getD i none = some (blocks.getD i 0) := by
  simp [filled, List.getD_eq_getElem?_getD, List.getElem?_append_left, hi]

theorem filled_set {n blockNum : Nat} (h : blocks.length ≤ n) :
    (filled n blocks).set blocks.length (some blockNum) = filled n (blocks ++ [blockNum]) := by
  have hrep : n + 1 - blocks.length = n - blocks.length + 1 := by omega
  have hrest : n + 1 - (blocks ++ [blockNum]).length = n - blocks.length := by simp
  rw [filled, filled, hrest, hrep, List.replicate_succ, List.set_append_right _ _ (by simp)]
  simp

theorem setBlock_filled {n blockNum : Nat} (h : blocks.length ≤ n) :
    setBlock (filled n blocks) blocks.length blockNum = pure (filled n (blocks ++ [blockNum])) := by
  rw [setBlock, if_pos (by rw [length_filled h]; omega), filled_set h]

theorem range_map_succ {α : Type} (f : Nat → α) (n : Nat) :
    (List.range (n + 1)).map f = (List.range n).map f ++ [f n] := by
  simp [List.range_succ]

variable {m : Machine} {E : Stop FixupError → Machine → Prop}

theorem getExtentEnts_inline (hsize : inode.size = sizeofExt4Inode)
    (h : InlineExtents inode blocks) :
    (getExtentEnts inode (iBlock 0).off (filled blocks.length [])).Ends
      (fun blockList m' => blockList = filled blocks.length blocks ∧ m' = m) E m := by
  have hfew := h.few
  have hlength := h.length_le
  have hin (f : Field) (hf : f.off + f.size ≤ 60) :
      (ehAt (iBlock 0).off f).off + (ehAt (iBlock 0).off f).size ≤ inode.size := by
    simp only [ehAt, iBlock, hsize, sizeofExt4Inode]
    omega
  rw [getExtentEnts, memGet_eq (hin ehDepth (by decide)), pure_bind, h.depth, if_neg (by simp),
    memGet_eq (hin ehEntries (by decide)), pure_bind]
  refine (Act.ends_fold_range (fun i blockList m' =>
    blockList = filled blocks.length (extentRuns inode i) ∧ m' = m) ?_ ⟨rfl, rfl⟩).post ?_
  · rintro i hi blockList m1 ⟨rfl, hm1⟩
    rw [memGet_eq (hin (eeBlock i) (by simp only [eeBlock]; omega)), pure_bind,
      memGet_eq (hin (eeLen i) (by simp only [eeLen]; omega)), pure_bind,
      memGet_eq (hin (eeStartHi i) (by simp only [eeStartHi]; omega)), pure_bind,
      memGet_eq (hin (eeStartLo i) (by simp only [eeStartLo]; omega)), pure_bind, h.inOrder i hi]
    have hupto : (extentRuns inode (i + 1)).length ≤ blocks.length := by
      rw [← h.mapped]
      exact length_extentRuns_mono inode hi
    rw [extentRuns_succ, List.length_append, extentRun, List.length_map, List.length_range] at hupto
    refine (Act.ends_fold_range (fun j blockList m' =>
      blockList = filled blocks.length (extentRuns inode i ++ (List.range j).map fun j =>
        (ehAt (iBlock 0).off (eeStartHi i)).get inode * 4294967296 +
          (ehAt (iBlock 0).off (eeStartLo i)).get inode + j) ∧ m' = m) ?_ ?_).post ?_
    · rintro j hj blockList m2 ⟨rfl, hm2⟩
      rw [u32_of_lt (by omega)]
      have hat : (extentRuns inode i).length + j = (extentRuns inode i ++ (List.range j).map fun j =>
          (ehAt (iBlock 0).off (eeStartHi i)).get inode * 4294967296 +
            (ehAt (iBlock 0).off (eeStartLo i)).get inode + j).length := by simp
      rw [hat, setBlock_filled (by rw [← hat]; omega), Act.ends_pure, List.append_assoc,
        ← range_map_succ]
      exact ⟨rfl, hm2⟩
    · simpa using hm1
    · rintro blockList m2 ⟨rfl, hm2⟩
      rw [extentRuns_succ, extentRun]
      exact ⟨rfl, hm2⟩
  · rintro blockList m' ⟨rfl, rfl⟩
    rw [h.mapped]
    exact ⟨rfl, rfl⟩

theorem getBlockList_inline (v : Volume) (depth : Nat) (hsize : inode.size = sizeofExt4Inode)
    (h : InlineExtents inode blocks) :
    (getBlockList v depth inode blocks.length).Ends
      (fun blockList m' => blockList = filled blocks.length blocks ∧ m' = m) E m := by
  have hdepth := h.depth
  have hmagic := h.magic
  simp only [getBlockList, getBlockListExtents]
  rw [if_pos h.extents, if_neg (by simp [hmagic]), if_pos hdepth, ← filled_nil]
  exact getExtentEnts_inline hsize h

end Extents

theorem InlineExtents.congr {inode inode' : Buffer} {blocks : List Nat}
    (h : InlineExtents inode blocks) (hsame : ∀ f : Field, f.get inode' = f.get inode) :
    InlineExtents inode' blocks := by
  have hrun : extentRun inode' = extentRun inode := by
    funext i
    simp only [extentRun, hsame]
  have hruns : extentRuns inode' = extentRuns inode := by
    funext n
    simp only [extentRuns, hrun]
  obtain ⟨h1, h2, h3, h4, h5, h6⟩ := h
  constructor <;> simpa only [hsame, hruns]

def dirAddr (bs : Nat) (blocks : List Nat) (off : Nat) : Nat :=
  blocks.getD (off / bs) 0 * bs + off % bs

structure HasData (bs : Nat) (d : Disk) (blocks : List Nat) (dirbuf : Buffer) : Prop where
  size : dirbuf.size = blocks.length * bs
  get : ∀ off < blocks.length * bs, dirbuf.get off = d.get (dirAddr bs blocks off)

section Places

variable {bs : Nat} {blocks : List Nat}

theorem dirAddr_block {i k : Nat} (hk : k < bs) :
    dirAddr bs blocks (i * bs + k) = blocks.getD i 0 * bs + k := by
  have hbs : 0 < bs := by omega
  have hdiv : (i * bs + k) / bs = i := by
    rw [Nat.mul_comm, Nat.mul_add_div hbs, Nat.div_eq_of_lt hk, Nat.add_zero]
  have hmod : (i * bs + k) % bs = k := by
    rw [Nat.mul_comm, Nat.mul_add_mod, Nat.mod_eq_of_lt hk]
  rw [dirAddr, hdiv, hmod]

theorem exists_block {off n : Nat} (hbs : 0 < bs) (h : off < n * bs) :
    ∃ i k, i < n ∧ k < bs ∧ off = i * bs + k :=
  ⟨off / bs, off % bs, (Nat.div_lt_iff_lt_mul hbs).mpr h, Nat.mod_lt _ hbs, by
    rw [Nat.mul_comm, Nat.div_add_mod]⟩

theorem apart_of_ne {b c k : Nat} (h : b ≠ c) (hk : k < bs) :
    b * bs + k < c * bs ∨ c * bs + bs ≤ b * bs + k := by
  rcases Nat.lt_or_gt_of_ne h with hlt | hgt
  · have hle : (b + 1) * bs ≤ c * bs := Nat.mul_le_mul_right _ hlt
    rw [Nat.succ_mul] at hle
    omega
  · have hle : (c + 1) * bs ≤ b * bs := Nat.mul_le_mul_right _ hgt
    rw [Nat.succ_mul] at hle
    omega

theorem getD_eq_get {i : Nat} (hi : i < blocks.length) : blocks.getD i 0 = blocks[i] := by
  rw [List.getD_eq_getElem?_getD, List.getElem?_eq_getElem hi, Option.getD_some]

theorem getD_ne {i j : Nat} (hnodup : blocks.Nodup) (hi : i < blocks.length)
    (hj : j < blocks.length) (h : i ≠ j) : blocks.getD i 0 ≠ blocks.getD j 0 := by
  rw [getD_eq_get hi, getD_eq_get hj]
  exact fun heq => h ((hnodup.getElem_inj_iff).mp heq)

theorem getD_mem {i : Nat} (hi : i < blocks.length) : blocks.getD i 0 ∈ blocks := by
  rw [getD_eq_get hi]
  exact List.getElem_mem hi

end Places

structure WrittenUpTo (bs : Nat) (blocks : List Nat) (dirbuf : Buffer) (n : Nat) (d d' : Disk) :
    Prop where
  size : d'.size = d.size
  written : ∀ off < n * bs, d'.get (dirAddr bs blocks off) = dirbuf.get off
  same : ∀ a, (∀ i < n, a < blocks.getD i 0 * bs ∨ blocks.getD i 0 * bs + bs ≤ a) →
    d'.get a = d.get a

section Moving

variable {v : Volume} {calm : Prop} {stored : Disk × Buffer} {m : Machine} {blocks : List Nat}

structure BlocksThere (info : FsInfo) (d : Disk) (blocks : List Nat) : Prop where
  blockSize_pos : 0 < info.blockSize.val
  size_le : d.size ≤ 9223372036854775808
  fits : ∀ b ∈ blocks, b * info.blockSize.val + info.blockSize.val ≤ d.size

theorem readDirBlocks_calm (hthere : BlocksThere v.info stored.1 blocks) (h : At calm stored m) :
    (readDirBlocks v (filled blocks.length blocks) blocks.length
        (.zeros (blocks.length * v.info.blockSize.val))).Ends
      (fun b m' => HasData v.info.blockSize.val stored.1 blocks b ∧ At calm stored m')
      (fun _ m' => Halted calm stored m') m := by
  generalize hbs : v.info.blockSize.val = bs
  refine (Act.ends_fold_range (fun n b m' => b.size = blocks.length * bs ∧
    (∀ off < n * bs, b.get off = stored.1.get (dirAddr bs blocks off)) ∧ At calm stored m')
      ?_ ⟨rfl, by simp, h⟩).post fun b m' h' => ⟨⟨h'.1, h'.2.1⟩, h'.2.2⟩
  rintro n hn b m1 ⟨hsize, hread, h1⟩
  rw [filled_getD hn, Act.expect, pure_bind, Act.ends_bind]
  refine (readBlock_calm hthere.size_le hthere.blockSize_pos (hthere.fits _ (getD_mem hn)) h1).post ?_
  rintro block m2 ⟨hblock, h2⟩
  refine ⟨by simpa using hsize, fun off hoff => ?_, h2⟩
  have hbspos : 0 < bs := hbs ▸ hthere.blockSize_pos
  obtain ⟨i, k, hi, hk, rfl⟩ := exists_block hbspos hoff
  have hblocksize : block.size = bs := by rw [hblock, ← hbs]; rfl
  rw [hbs] at hblock ⊢
  rcases Nat.lt_succ_iff_lt_or_eq.mp hi with hlt | rfl
  · have hle : (i + 1) * bs ≤ n * bs := Nat.mul_le_mul_right _ hlt
    rw [Nat.succ_mul] at hle
    rw [Buffer.get_blit_of_not_mem (by omega), hread _ (by omega)]
  · have hle : (i + 1) * bs ≤ blocks.length * bs := Nat.mul_le_mul_right _ hn
    rw [Nat.succ_mul] at hle
    rw [Buffer.get_blit_of_mem (by omega) (by omega), Nat.add_sub_cancel_left, hblock,
      Buffer.get_view hk, dirAddr_block hk]

theorem WrittenUpTo.refl (bs : Nat) (blocks : List Nat) (dirbuf : Buffer) (d : Disk) :
    WrittenUpTo bs blocks dirbuf 0 d d :=
  ⟨rfl, by simp, fun _ _ => rfl⟩

theorem WrittenUpTo.next {bs n : Nat} {dirbuf : Buffer} {d d' : Disk} (hnodup : blocks.Nodup)
    (hbs : 0 < bs) (hn : n < blocks.length) (hfits : blocks.getD n 0 * bs + bs ≤ d.size)
    (h : WrittenUpTo bs blocks dirbuf n d d') :
    WrittenUpTo bs blocks dirbuf (n + 1) d
      (d'.writeAt (blocks.getD n 0 * bs) (dirbuf.view (n * bs) bs)) := by
  refine ⟨?_, fun off hoff => ?_, fun a ha => ?_⟩
  · rw [Disk.size_writeAt, h.size, Buffer.size_view]
    omega
  · obtain ⟨i, k, hi, hk, rfl⟩ := exists_block hbs hoff
    rcases Nat.lt_succ_iff_lt_or_eq.mp hi with hlt | rfl
    · have hapart := apart_of_ne (getD_ne hnodup (by omega) hn (by omega : i ≠ n)) hk
      have hle : (i + 1) * bs ≤ n * bs := Nat.mul_le_mul_right _ hlt
      rw [Nat.succ_mul] at hle
      have hold := h.written (i * bs + k) (by omega)
      rw [dirAddr_block hk] at hold ⊢
      rw [Disk.get_writeAt_of_not_mem (by rw [Buffer.size_view]; omega), hold]
    · rw [dirAddr_block hk, Disk.get_writeAt_of_mem (by rw [Buffer.size_view]; omega),
        Nat.add_sub_cancel_left, Buffer.get_view hk]
  · have hlast := ha n (by omega)
    rw [Disk.get_writeAt_of_not_mem (by rw [Buffer.size_view]; omega)]
    exact h.same a fun i hi => ha i (by omega)

theorem writeDirBlocks_calm {dirbuf : Buffer} (hnodup : blocks.Nodup)
    (hthere : BlocksThere v.info stored.1 blocks) (h : At calm stored m) :
    (writeDirBlocks v false (filled blocks.length blocks) blocks.length dirbuf).Ends
      (fun _ m' => ∃ d, WrittenUpTo v.info.blockSize.val blocks dirbuf blocks.length stored.1 d ∧
        At calm (d, stored.2) m')
      (fun _ m' => ∃ n d, n ≤ blocks.length ∧
        WrittenUpTo v.info.blockSize.val blocks dirbuf n stored.1 d ∧
          Halted calm (d, stored.2) m') m := by
  refine Act.ends_each_range (fun n m' => ∃ d,
    WrittenUpTo v.info.blockSize.val blocks dirbuf n stored.1 d ∧ At calm (d, stored.2) m') ?_
      ⟨stored.1, .refl _ _ _ _, h⟩
  rintro n hn m1 ⟨d, hd, h1⟩
  rw [filled_getD hn, Act.expect, pure_bind]
  have hfits := hthere.fits _ (getD_mem hn)
  refine (writeBlock_calm (by exact hd.size.trans_le hthere.size_le) hthere.blockSize_pos
    (by exact hfits.trans_eq hd.size.symm) h1).mono ?_ ?_
  · exact fun _ m2 h2 => ⟨_, hd.next hnodup hthere.blockSize_pos hn hfits, h2⟩
  · exact fun _ m2 h2 => ⟨n, d, hn.le, hd, h2⟩

end Moving

end MakeExt4fs

import MakeExt4fs.Fixup.DirBlocks
import MakeExt4fs.Fixup.ExtentTree

namespace MakeExt4fs

open ErrorLog Interrupt Words

def countedBytes (inode : Buffer) : Nat := iBlocksLo.get inode * inodeBlockSize

def CountsData (info : FsInfo) (inode : Buffer) (blocks : List Nat) : Prop :=
  countedBytes inode = blocks.length * info.blockSize.val

structure DirectBlocks (inode : Buffer) (blocks : List Nat) : Prop where
  noExtents : iFlags.get inode &&& ext4ExtentsFl = 0
  few : blocks.length ≤ ext4NdirBlocks
  mapped : ∀ i < blocks.length, (iBlock i).get inode = blocks.getD i 0

instance (inode : Buffer) (blocks : List Nat) : Decidable (DirectBlocks inode blocks) :=
  decidable_of_iff (iFlags.get inode &&& ext4ExtentsFl = 0 ∧ blocks.length ≤ ext4NdirBlocks ∧
      ∀ i < blocks.length, (iBlock i).get inode = blocks.getD i 0)
    ⟨fun ⟨h1, h2, h3⟩ => ⟨h1, h2, h3⟩, fun ⟨h1, h2, h3⟩ => ⟨h1, h2, h3⟩⟩

-- Every way an inode has to map the blocks of a directory. With the blocks of the data, i_blocks
-- counts those of the extent tree, of the indirect blocks and of the attributes, where there are any.
inductive DirMapping (v : Volume) (d : Disk) (all : List Nat) (inode : Buffer) (blocks : List Nat) :
    Prop
  | inline (h : InlineExtents inode blocks) (counted : CountsData v.info inode blocks)
  | direct (h : DirectBlocks inode blocks) (sectors : inodeBlockSize ∣ v.info.blockSize.val)
    (counted : CountsData v.info inode blocks)
  | extents (t : ExtentTree) (level : Nat) (h : InodeTree v d inode t level blocks.length)
    (flag : iFlags.get inode &&& ext4ExtentsFl ≠ 0)
    (mapped : ∀ l p, t.Assigns l p ↔ blocks[l]? = some p)
    (apart : ∀ b, t.Node b → b ∉ all ∧ 2048 ≤ b * v.info.blockSize.val)
    (more : blocks.length * v.info.blockSize.val < countedBytes inode)
  | blockMap (noExtents : iFlags.get inode &&& ext4ExtentsFl = 0)
    (mapped : ∀ i < min blocks.length ext4NdirBlocks, (iBlock i).get inode = blocks.getD i 0)
    (more : blocks.length * v.info.blockSize.val < countedBytes inode)

-- Blocks counted behind the data of a directory without extents are read as data, from wherever the
-- unused block numbers point; and a count of 2^32 bytes or more wraps.
def Overread (info : FsInfo) (inode : Buffer) (blocks : List Nat) : Prop :=
  4294967296 ≤ countedBytes inode ∨
    iFlags.get inode &&& ext4ExtentsFl = 0 ∧ ¬ CountsData info inode blocks ∧
      countedBytes inode / info.blockSize.val ≤ info.blockSize.val / 4 + ext4NdirBlocks

section Mapping

variable {v v' : Volume} {d d' : Disk} {all : List Nat} {inode inode' : Buffer} {blocks : List Nat}

theorem InodeTree.congr {t : ExtentTree} {level n : Nat} (h : InodeTree v d inode t level n)
    (hinfo : v'.info = v.info) (hisize : inode.size ≤ inode'.size)
    (hsame : ∀ f : Field, f.get inode' = f.get inode) (hsize : d'.size = d.size)
    (hnodes : ∀ p, t.Node p → ∀ k < v.info.blockSize.val,
      d'.get (p * v.info.blockSize.val + k) = d.get (p * v.info.blockSize.val + k)) :
    InodeTree v' d' inode' t level n := by
  refine ⟨h.held.congr hinfo hsize (h.held.room.2.trans hisize) (fun f _ => hsame f) hnodes,
    h.wellFormed, h.inside, ?_⟩
  rw [hsize]
  exact h.offsets

theorem DirMapping.congr (h : DirMapping v d all inode blocks) (hinfo : v'.info = v.info)
    (hisize : inode.size ≤ inode'.size) (hsame : ∀ f : Field, f.get inode' = f.get inode)
    (hsize : d'.size = d.size)
    (hapart : ∀ p, p ∉ all ∧ 2048 ≤ p * v.info.blockSize.val → ∀ k < v.info.blockSize.val,
      d'.get (p * v.info.blockSize.val + k) = d.get (p * v.info.blockSize.val + k)) :
    DirMapping v' d' all inode' blocks := by
  have hcount : countedBytes inode' = countedBytes inode := by rw [countedBytes, hsame, countedBytes]
  cases h with
  | inline h counted =>
    refine .inline (h.congr hsame) ?_
    rw [CountsData, hinfo, hcount]
    exact counted
  | direct h sectors counted =>
    refine .direct ⟨?_, h.few, fun i hi => ?_⟩ (hinfo ▸ sectors) ?_
    · rw [hsame]
      exact h.noExtents
    · rw [hsame]
      exact h.mapped i hi
    · rw [CountsData, hinfo, hcount]
      exact counted
  | extents t level h flag mapped apart more =>
    refine .extents t level (h.congr hinfo hisize hsame hsize fun p hp => hapart p (apart p hp)) ?_
      mapped (hinfo ▸ apart) ?_
    · rw [hsame]
      exact flag
    · rw [hcount, hinfo]
      exact more
  | blockMap noExtents mapped more =>
    refine .blockMap ?_ (fun i hi => ?_) ?_
    · rw [hsame]
      exact noExtents
    · rw [hsame]
      exact mapped i hi
    · rw [hcount, hinfo]
      exact more

theorem countedBytes_congr (hsame : ∀ f : Field, f.get inode' = f.get inode) :
    countedBytes inode' = countedBytes inode := by rw [countedBytes, hsame, countedBytes]

theorem CountsData.congr (hsame : ∀ f : Field, f.get inode' = f.get inode) :
    CountsData v.info inode' blocks ↔ CountsData v.info inode blocks := by
  rw [CountsData, countedBytes_congr hsame, CountsData]

theorem Overread.congr (hsame : ∀ f : Field, f.get inode' = f.get inode) :
    Overread v.info inode' blocks ↔ Overread v.info inode blocks := by
  rw [Overread, countedBytes_congr hsame, CountsData.congr hsame, hsame, Overread]

theorem DirMapping.size_lt (h : DirMapping v d all inode blocks)
    (hbs : v.info.blockSize.val ≤ maxExt4BlockSize) (hcounted : CountsData v.info inode blocks) :
    blocks.length * v.info.blockSize.val < 2147483648 := by
  have hsmall {n : Nat} (hn : blocks.length ≤ n) :
      blocks.length * v.info.blockSize.val ≤ n * 4096 := Nat.mul_le_mul hn hbs
  rw [CountsData] at hcounted
  cases h with
  | inline h _ =>
    have := hsmall h.length_le
    omega
  | direct h _ _ =>
    have := hsmall h.few
    simp only [ext4NdirBlocks] at this
    omega
  | extents _ _ _ _ _ _ more => omega
  | blockMap _ _ more => omega

variable {m : Machine} {E : Stop FixupError → Machine → Prop}

theorem getBlockList_direct (depth : Nat) (h : DirectBlocks inode blocks)
    (hbs : 0 < v.info.blockSize.val) (hsectors : inodeBlockSize ∣ v.info.blockSize.val)
    (hcounted : CountsData v.info inode blocks) :
    (getBlockList v depth inode blocks.length).Ends
      (fun blockList m' => blockList = filled blocks.length blocks ∧ m' = m) E m := by
  obtain ⟨sectors, hsectors⟩ := hsectors
  have hper : sectorsPerBlock v = sectors := by
    rw [sectorsPerBlock, hsectors, Nat.mul_div_cancel_left _ (by decide)]
  have hpos : 0 < sectors := Nat.pos_of_ne_zero fun h0 => by simp [hsectors, h0] at hbs
  have hcount : iBlocksLo.get inode / sectors = blocks.length := by
    rw [CountsData, countedBytes, hsectors, Nat.mul_comm inodeBlockSize, ← Nat.mul_assoc] at hcounted
    rw [Nat.eq_of_mul_eq_mul_right (by decide) hcounted, Nat.mul_div_cancel _ hpos]
  have hfew := h.few
  have hflag : ¬ iFlags.get inode &&& ext4ExtentsFl ≠ 0 := not_not.mpr h.noExtents
  simp only [getBlockList]
  rw [if_neg hflag, if_neg (by omega), getBlockListIndirect, getDirectBlocks, hper,
    if_neg (by omega), hcount, ← filled_nil, Act.ends_bind]
  dsimp only
  rw [Nat.min_eq_left hfew]
  refine (Act.ends_bind.mpr ((Act.ends_fold_range (fun i blockList m' =>
    blockList = filled blocks.length (blocks.take i) ∧ m' = m) ?_ ⟨by simp, rfl⟩).post ?_))
  · rintro i hi blockList m1 ⟨rfl, hm1⟩
    have hat : i = (blocks.take i).length := by
      rw [List.length_take]
      omega
    have hset := @setBlock_filled (blocks.take i) blocks.length ((iBlock i).get inode) (by omega)
    rw [← hat] at hset
    rw [hset, Act.ends_pure, h.mapped i hi, getD_eq_get hi, List.take_append_getElem hi]
    exact ⟨rfl, hm1⟩
  · rintro blockList m1 ⟨rfl, rfl⟩
    rw [Act.ends_pure, if_neg (by simp only [decide_eq_true_eq]; omega), Act.ends_pure,
      List.take_length]
    exact ⟨rfl, rfl⟩

theorem getBlockList_mapped (depth : Nat) (hisize : inode.size = sizeofExt4Inode)
    (h : DirMapping v d all inode blocks) (hbs : 0 < v.info.blockSize.val)
    (hcounted : CountsData v.info inode blocks) :
    (getBlockList v depth inode blocks.length).Ends
      (fun blockList m' => blockList = filled blocks.length blocks ∧ m' = m) E m := by
  rw [CountsData] at hcounted
  cases h with
  | inline h _ => exact getBlockList_inline v depth hisize h
  | direct h sectors counted => exact getBlockList_direct depth h hbs sectors counted
  | extents _ _ _ _ _ _ more => omega
  | blockMap _ _ more => omega

theorem getBlockList_more (depth : Nat) {numBlocks : Nat}
    (h : DirMapping v m.device all inode blocks) (hbs : 0 < v.info.blockSize.val)
    (hbsle : v.info.blockSize.val ≤ maxExt4BlockSize)
    (hnum : countedBytes inode = numBlocks * v.info.blockSize.val)
    (hmore : ¬ CountsData v.info inode blocks) (hover : ¬ Overread v.info inode blocks) :
    (getBlockList v depth inode numBlocks).Ends
      (fun blockList m' => blocks.length < numBlocks ∧ blockList.getD blocks.length none = none ∧
        m'.stored = m.stored)
      (fun _ m' => m'.stored = m.stored) m := by
  have hdiv : countedBytes inode / v.info.blockSize.val = numBlocks := by
    rw [hnum, Nat.mul_div_cancel _ hbs]
  simp only [getBlockList]
  cases h with
  | inline _ counted => exact absurd counted hmore
  | direct _ _ counted => exact absurd counted hmore
  | extents t level h flag mapped _ more =>
    have hlonger : blocks.length < numBlocks := by
      rw [hnum] at more
      exact Nat.lt_of_mul_lt_mul_right more
    have hm : At False m.stored m := ⟨rfl, False.elim⟩
    rw [if_pos flag, getBlockListExtents_node h]
    refine (getExtentNode_ends t h.offsets h.held h.wellFormed (fun _ => hbsle) False.elim ?_ hm).mono
      ?_ fun _ _ h => h.stored
    · intro l p hassign
      have := h.inside l ⟨p, hassign.assigns⟩
      rw [List.length_replicate]
      omega
    · rintro after m' ⟨hstored, hm'⟩
      refine ⟨hlonger, ?_, hm'.stored⟩
      have hother := hstored.others blocks.length fun p hassign =>
        absurd (h.inside _ ⟨p, hassign.assigns⟩) (lt_irrefl _)
      rw [List.getD_eq_getElem?_getD, hother, List.getElem?_replicate_of_lt (by omega),
        Option.getD_some]
  | blockMap noExtents _ _ =>
    rw [if_neg (not_not.mpr noExtents)]
    refine .ite (fun _ => rfl) fun hfew => absurd (Or.inr ⟨noExtents, hmore, ?_⟩) hover
    rw [hdiv]
    omega

theorem readDirBlocks_unset {blockList : BlockList} {numBlocks n : Nat} {dirbuf : Buffer}
    (hn : n < numBlocks) (hunset : blockList.getD n none = none) :
    (readDirBlocks v blockList numBlocks dirbuf).Ends (fun _ _ => False)
      (fun _ m' => m'.stored = m.stored) m := by
  refine (Act.ends_fold_range (fun i _ m' => i ≤ n ∧ m'.stored = m.stored) ?_
    ⟨Nat.zero_le n, rfl⟩).post fun _ _ h => absurd h.1 (by omega)
  rintro i hi b m1 ⟨hle, hm1⟩
  rw [Act.ends_bind, Act.ends_expect]
  refine ⟨fun blockNum hset => ?_, fun _ => hm1⟩
  have hlt : i < n := lt_of_le_of_ne hle fun heq => by
    rw [heq, hunset] at hset
    cases hset
  rw [Act.ends_bind]
  exact (readBlock_reads v blockNum).ends (fun _ m2 _ hm2 => ⟨hlt, hm2.trans hm1⟩)
    fun _ m2 hm2 => hm2.trans hm1

end Mapping

end MakeExt4fs

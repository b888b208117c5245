import MakeExt4fs.Allocate.LastGroup
import MakeExt4fs.Allocate.Ownership

namespace MakeExt4fs

open ErrorLog Words

def HeadersFit (info : FsInfo) (aux : FsAuxInfo) : Prop :=
  ∀ i < aux.groups, headerBlocks info aux i ≤ info.blocksPerGroup.val ∧
    aux.groupStart info i + headerBlocks info aux i ≤ aux.lenBlocks

-- The end of the last group is a 32-bit number, or the group is as long as the others.
def EndsInWord (info : FsInfo) (aux : FsAuxInfo) : Prop :=
  aux.groupStart info aux.groups < 4294967296 ∨
    aux.groupStart info aux.groups = 4294967296 ∧ 4294967296 ≤ aux.lenBlocks

section Start

variable {info : FsInfo} {aux : FsAuxInfo} {i j : Nat}

theorem groupStart_succ (aux : FsAuxInfo) (info : FsInfo) (i : Nat) :
    aux.groupStart info (i + 1) = aux.groupStart info i + info.blocksPerGroup.val := by
  simp only [FsAuxInfo.groupStart]
  ring

theorem groupStart_le (aux : FsAuxInfo) (info : FsInfo) (h : i ≤ j) :
    aux.groupStart info i ≤ aux.groupStart info j :=
  Nat.add_le_add_left (Nat.mul_le_mul_right _ h) _

theorem EndsInWord.below (h : EndsInWord info aux) (hi : i < aux.groups) :
    aux.groupStart info i + info.blocksPerGroup.val < 4294967296 ∨
      aux.groupStart info i + info.blocksPerGroup.val ≤ 4294967296 ∧
        4294967296 ≤ aux.lenBlocks := by
  have hle := groupStart_le aux info (show i + 1 ≤ aux.groups from hi)
  rw [groupStart_succ] at hle
  rcases h with hlt | ⟨heq, hlen⟩
  · exact Or.inl (by omega)
  · exact Or.inr ⟨by omega, hlen⟩

theorem blocksPerGroup_lt (info : FsInfo) : info.blocksPerGroup.val < 4294967296 :=
  info.blocksPerGroup.isLt

theorem EndsInWord.word (hword : EndsInWord info aux) (i : Nat) (hi : i < aux.groups) :
    aux.groupStart info i + aux.blocksBelow info i ≤ 4294967296 := by
  have := hword.below hi
  simp only [FsAuxInfo.blocksBelow]
  omega

theorem HeadersFit.inside (hhdr : HeadersFit info aux) (i : Nat) (hi : i < aux.groups) :
    aux.firstDataBlock ≤ aux.groupStart info i ∧
      aux.groupStart info i + aux.blocksBelow info i ≤ aux.lenBlocks := by
  have := (hhdr i hi).2
  refine ⟨Nat.le_add_right _ _, ?_⟩
  simp only [FsAuxInfo.blocksBelow]
  omega

theorem HeadersFit.header_le (hhdr : HeadersFit info aux) (i : Nat) (hi : i < aux.groups) :
    headerBlocks info aux i ≤ aux.blocksBelow info i := by
  have := hhdr i hi
  simp only [FsAuxInfo.blocksBelow]
  omega

theorem blocksBelow_apart (info : FsInfo) (aux : FsAuxInfo) (i j : Nat) (hij : i < j)
    (_hj : j < aux.groups) :
    aux.groupStart info i + aux.blocksBelow info i ≤ aux.groupStart info j := by
  have hle := groupStart_le aux info (show i + 1 ≤ j from hij)
  rw [groupStart_succ] at hle
  simp only [FsAuxInfo.blocksBelow]
  omega

def startLayout (info : FsInfo) (aux : FsAuxInfo) (hhdr : HeadersFit info aux)
    (hword : EndsInWord info aux) : Layout where
  groups := aux.groups
  bpg := info.blocksPerGroup.val
  firstDataBlock := aux.firstDataBlock
  lenBlocks := aux.lenBlocks
  first := aux.groupStart info
  header := headerBlocks info aux
  limit := aux.blocksBelow info
  bpg_lt := blocksPerGroup_lt info
  word := hword.word
  inside := hhdr.inside
  header_le := hhdr.header_le
  apart := blocksBelow_apart info aux

theorem groupLimit_eq (hhdr : HeadersFit info aux) (hword : EndsInWord info aux)
    (hi : i < aux.groups) : groupLimit info aux i = aux.blocksBelow info i := by
  have hfit := hhdr i hi
  have hend := hword.below hi
  have hfirst : firstBlock info aux i = u32 (aux.groupStart info i) := rfl
  rw [groupLimit, hfirst]
  by_cases hfull : aux.groupStart info i + info.blocksPerGroup.val ≤ aux.lenBlocks
  · rw [groupEnd_full hfull, FsAuxInfo.blocksBelow]
    omega
  · have hlt : aux.groupStart info i + info.blocksPerGroup.val < 4294967296 := by omega
    rw [groupEnd, u32_of_lt (show aux.groupStart info i < 4294967296 by omega), u32_of_lt hlt,
      if_pos (by omega), FsAuxInfo.blocksBelow]
    omega

theorem blockAllocatorInit_owns {force : Bool} {fs0 fs : Fs} {l : List Ext4Error}
    (hbpg : 0 < info.blocksPerGroup.val) (hhdr : HeadersFit info fs0.aux)
    (hword : EndsInWord info fs0.aux)
    (hinit : blockAllocatorInit info force (fs0, []) = .ok ((), (fs, l))) :
    l = [] ∧ fs.aux = { fs0.aux with bgs := fs.aux.bgs } ∧
      (startLayout info fs0.aux hhdr hword).Owns fs.aux [] := by
  obtain ⟨fs', hrun, hto⟩ := blockAllocatorInit_run info force fs0 [] fun i hi => (hhdr i hi).1
  obtain ⟨rfl, rfl⟩ : fs' = fs ∧ [] = l := by simpa [hrun] using hinit
  have haux := hto.aux
  refine ⟨rfl, haux, ⟨⟨?_, ?_, ?_, hto.length, ?_⟩, by simp, List.Pairwise.nil⟩⟩
  · rw [haux]
    rfl
  · rw [haux]
    rfl
  · rw [haux]
    rfl
  · intro i bg hbg
    have hi : i < fs0.aux.groups := by
      rw [← hto.length]
      exact (List.getElem?_eq_some_iff.mp hbg).1
    obtain ⟨bg', hbg', hset⟩ := hto.setUp hi (hhdr i hi).1
    obtain rfl : bg = bg' := Option.some.inj (hbg.symm.trans hbg')
    have hsame : headerBlocks info fs'.aux i = headerBlocks info fs0.aux i := by rw [haux]; rfl
    have hlimit : groupLimit info fs'.aux i = fs0.aux.blocksBelow info i := by
      rw [← groupLimit_eq hhdr hword hi, haux]
      rfl
    refine ⟨?_, ?_, ?_⟩
    · have hend := hword.below hi
      rw [BlockGroupInfo.firstBlock_of_frame hset.frame, haux]
      exact u32_of_lt (show fs0.aux.groupStart info i < 4294967296 by omega)
    · rw [BlockGroupInfo.headerBlocks_of_frame hset.frame]
      exact hsame
    · have hsound := hset.sound
      rw [hsame, hlimit] at hsound
      exact hsound

end Start

end MakeExt4fs

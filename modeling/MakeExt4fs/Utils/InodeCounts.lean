import MakeExt4fs.Utils.Params
import MakeExt4fs.Utils.SuperBlock

namespace MakeExt4fs

open ErrorLog Words

namespace FsRequest

variable (req : FsRequest) (st : Option FdStat)

def requestedInodes : Nat := req.wantedInodes (req.roundedLen st)

def inodesPerBlock : Nat := req.wantedBlockSize / req.wantedInodeSize

def inodesAtMost : Nat := 8 * req.wantedBlockSize / req.inodesPerBlock * req.inodesPerBlock

end FsRequest

def roundUpTo (m x : Nat) : Nat := m * divRoundUp x m

namespace FsRequest

variable (req : FsRequest) (st : Option FdStat)

def share : Nat := divRoundUp (req.requestedInodes st) (req.paramGroups st)

def wholeShare : Nat := roundUpTo req.inodesPerBlock (req.share st)

end FsRequest

def FsInfo.keptGroups (info : FsInfo) : Nat :=
  if info.lastGroupShort then sub32 info.allGroups 1 else info.allGroups

-- Neither sum that is rounded up goes past 2^32, a group's bitmap has room for its share, and what
-- is lost of the products past 2^32 is neither needed nor told by the groups that are counted.
structure ShareFits (req : FsRequest) (st : Option FdStat) (info : FsInfo) : Prop where
  inodes : req.requestedInodes st + req.paramGroups st ≤ 4294967296
  share : req.share st + req.inodesPerBlock ≤ 4294967296
  bitmap : req.requestedInodes st ≤ req.inodesAtMost * req.paramGroups st
  enough : req.requestedInodes st ≤ u32 (req.wholeShare st * req.paramGroups st)
  groups : req.wholeShare st * info.keptGroups ≡
    req.wholeShare st * req.paramGroups st [MOD 4294967296]

structure InodesCounted (req : FsRequest) (st : Option FdStat) (info : FsInfo) (aux : FsAuxInfo) :
    Prop where
  superBlock : (superBlockOf info aux).sInodesCount = info.inodes.val
  requested : req.requestedInodes st ≤ info.inodes.val
  bitmap : info.inodesPerGroup.val ≤ 8 * info.blockSize.val

section Counts

variable {req : FsRequest} {st : Option FdStat} {info : FsInfo} {aux : FsAuxInfo}

theorem roundUpTo_lt {m : Nat} (x : Nat) (hm : 0 < m) : roundUpTo m x < x + m := by
  rw [roundUpTo, Nat.mul_comm]
  exact divRoundUp_mul_lt x hm

theorem roundUpTo_le_iff {m n : Nat} (x : Nat) (hm : 0 < m) : roundUpTo m x ≤ n ↔ x ≤ n / m * m := by
  rw [roundUpTo, ← divRoundUp_le_iff hm, Nat.le_div_iff_mul_le hm, Nat.mul_comm]

theorem divRoundUp32_wrapped {x y : Nat} (hx : x < 4294967296) (h : 4294967296 < x + y)
    (hy : y < 4294967296) : divRoundUp32 x y = 0 := by
  rw [divRoundUp32, u32]
  apply Nat.div_eq_of_lt
  omega

theorem divRoundUp_zero {y : Nat} (hy : 0 < y) : divRoundUp 0 y = 0 := by
  rw [divRoundUp]
  exact Nat.div_eq_of_lt (by omega)

theorem FsRequest.requestedInodes_lt (req : FsRequest) (st : Option FdStat) :
    req.requestedInodes st < 4294967296 := by
  rw [FsRequest.requestedInodes, FsRequest.wantedInodes]
  split
  · rw [computeInodes]
    exact u32_lt _
  · exact req.inodes.isLt

theorem settleInfo_inodes (h : settleInfo req st = .ok info) :
    ∃ perGroup inodes, computeInodesPerGroup (req.roundedLen st) req.wantedBlockSize
        req.wantedBlocksPerGroup (req.requestedInodes st) req.wantedInodeSize =
          some (perGroup, inodes) ∧ info.blockSize.val = req.wantedBlockSize ∧
      info.inodesPerGroup.val = u32 perGroup ∧ info.inodes.val = u32 inodes := by
  unfold settleInfo at h
  split at h
  · cases h
  · split at h
    · split at h
      · cases h
      · rename_i perGroup inodes hper
        simp only [Except.ok.injEq] at h
        subst h
        exact ⟨perGroup, inodes, hper, u32_of_lt req.wantedBlockSize_bounds.2, rfl, rfl⟩
    · cases h

theorem settleInfo_counts (hok : settleInfo req st = .ok info) :
    0 < req.paramGroups st ∧ 0 < req.inodesPerBlock ∧
      info.inodesPerGroup.val = u32 (req.inodesPerBlock * divRoundUp32
        (divRoundUp32 (req.requestedInodes st) (req.paramGroups st)) req.inodesPerBlock) ∧
      info.inodes.val = u32 (info.inodesPerGroup.val * req.paramGroups st) := by
  obtain ⟨perGroup, inodes, hper, -, hperGroup, hinodes⟩ := settleInfo_inodes hok
  rw [computeInodesPerGroup] at hper
  dsimp only at hper
  split at hper
  · cases hper
  · next hsome =>
    rw [not_or, not_or] at hsome
    cases hper
    rw [hperGroup, hinodes, u32_of_lt (u32_lt _), u32_of_lt (u32_lt _)]
    exact ⟨Nat.pos_of_ne_zero hsome.1, Nat.pos_of_ne_zero hsome.2.2, rfl, rfl⟩

theorem inodesPerGroup_eq (hok : settleInfo req st = .ok info)
    (hsum : req.requestedInodes st + req.paramGroups st ≤ 4294967296)
    (hshare : req.share st + req.inodesPerBlock ≤ 4294967296) :
    info.inodesPerGroup.val = req.wholeShare st := by
  obtain ⟨hgroups, hblock, hper, -⟩ := settleInfo_counts hok
  have hlt := roundUpTo_lt (req.share st) hblock
  rw [hper, divRoundUp32_eq (x := req.requestedInodes st) (by omega), ← FsRequest.share,
    divRoundUp32_eq (by omega), ← roundUpTo, u32_of_lt (by omega), FsRequest.wholeShare]

theorem inodesPerGroup_wrapped (hok : settleInfo req st = .ok info)
    (h : ¬ (req.requestedInodes st + req.paramGroups st ≤ 4294967296 ∧
      req.share st + req.inodesPerBlock ≤ 4294967296)) : info.inodesPerGroup.val = 0 := by
  obtain ⟨hgroups, hblock, hper, -⟩ := settleInfo_counts hok
  have hinodes := req.requestedInodes_lt st
  have hgroupsWord : req.paramGroups st < 4294967296 := by
    rw [FsRequest.paramGroups, divRoundUp32]
    exact (Nat.div_le_self _ _).trans_lt (u32_lt _)
  have hblockWord : req.inodesPerBlock < 4294967296 :=
    (Nat.div_le_self _ _).trans_lt req.wantedBlockSize_bounds.2
  rw [hper]
  by_cases hsum : req.requestedInodes st + req.paramGroups st ≤ 4294967296
  · have hshare : req.share st < 4294967296 :=
      ((divRoundUp_le_iff hgroups).mpr (Nat.le_mul_of_pos_right _ hgroups)).trans_lt hinodes
    rw [divRoundUp32_eq (x := req.requestedInodes st) (by omega), ← FsRequest.share,
      divRoundUp32_wrapped hshare (by omega) hblockWord]
    rfl
  · rw [divRoundUp32_wrapped hinodes (by omega) hgroupsWord, divRoundUp32_eq (by omega),
      divRoundUp_zero hblock]
    rfl

theorem inodesCounted_iff (hok : settleInfo req st = .ok info)
    (haux : ext4InitFsAuxInfo info = some aux) :
    InodesCounted req st info aux ↔ req.requestedInodes st = 0 ∨ ShareFits req st info := by
  obtain ⟨-, -, -, hbs, -, -⟩ := settleInfo_inodes hok
  obtain ⟨hgroups, hblock, -, hinodes⟩ := settleInfo_counts hok
  have hsuper : (superBlockOf info aux).sInodesCount =
      u32 (info.inodesPerGroup.val * info.keptGroups) := by
    rw [FsInfo.keptGroups, ← (ext4InitFsAuxInfo_some haux).2.2.1]
    rfl
  have hbitmap : req.wholeShare st ≤ 8 * info.blockSize.val ↔
      req.requestedInodes st ≤ req.inodesAtMost * req.paramGroups st := by
    rw [FsRequest.wholeShare, roundUpTo_le_iff _ hblock, FsRequest.share,
      divRoundUp_le_iff hgroups, FsRequest.inodesAtMost, hbs]
  constructor
  · rintro ⟨hcount, hrequested, hbits⟩
    rw [or_iff_not_imp_left]
    intro hsome
    have hsums : req.requestedInodes st + req.paramGroups st ≤ 4294967296 ∧
        req.share st + req.inodesPerBlock ≤ 4294967296 := by
      by_contra hwrapped
      rw [hinodes, inodesPerGroup_wrapped hok hwrapped, Nat.zero_mul] at hrequested
      exact hsome (Nat.le_zero.mp hrequested)
    have hper := inodesPerGroup_eq hok hsums.1 hsums.2
    rw [hsuper, hinodes, hper] at hcount
    rw [hinodes, hper] at hrequested
    exact ⟨hsums.1, hsums.2, hbitmap.mp (hper ▸ hbits), hrequested, hcount⟩
  · rintro (hnone | ⟨hsum, hshare, hfew, henough, hsame⟩)
    · have hzero : info.inodesPerGroup.val = 0 := by
        by_cases hsums : req.requestedInodes st + req.paramGroups st ≤ 4294967296 ∧
            req.share st + req.inodesPerBlock ≤ 4294967296
        · rw [inodesPerGroup_eq hok hsums.1 hsums.2, FsRequest.wholeShare, FsRequest.share, hnone,
            divRoundUp_zero hgroups, roundUpTo, divRoundUp_zero hblock, Nat.mul_zero]
        · exact inodesPerGroup_wrapped hok hsums
      refine ⟨?_, by omega, by omega⟩
      rw [hsuper, hinodes, hzero, Nat.zero_mul, Nat.zero_mul]
    · have hper := inodesPerGroup_eq hok hsum hshare
      refine ⟨?_, ?_, hper ▸ hbitmap.mpr hfew⟩
      · rw [hsuper, hinodes, hper]
        exact hsame
      · rw [hinodes, hper]
        exact henough

theorem inodesCounted_iff_of_small : InodesCounted smallRequest none smallInfo smallAux ↔
    smallRequest.requestedInodes none = 0 ∨ ShareFits smallRequest none smallInfo :=
  inodesCounted_iff rfl rfl

-- make_ext4fs -l 128m -i 40000: one full group, whose bitmap block has 32768 bits.
def manyInodesRequest : FsRequest := { smallRequest with len := 134217728, inodes := 40000 }

theorem many_inodes_miss_bitmap : ∃ info aux, settleInfo manyInodesRequest none = .ok info ∧
    ext4InitFsAuxInfo info = some aux ∧ aux.groups = 1 ∧
      ¬ InodesCounted manyInodesRequest none info aux :=
  ⟨_, _, rfl, rfl, by decide, fun h => absurd h.bitmap (by decide)⟩

end Counts

end MakeExt4fs

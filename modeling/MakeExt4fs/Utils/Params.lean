import MakeExt4fs.Utils.Geometry

namespace MakeExt4fs

open ErrorLog Words

namespace FsRequest

variable (req : FsRequest) (st : Option FdStat)

def paramBlocks : Nat := u32 (divRoundUp64 (req.roundedLen st) req.wantedBlockSize)

def paramGroups : Nat := divRoundUp32 (req.paramBlocks st) req.wantedBlocksPerGroup

end FsRequest

def GroupLeft (info : FsInfo) : Prop := info.allGroups ≠ if info.lastGroupShort then 1 else 0

def ReserveLeft (blockSize groups : Nat) : Prop :=
  if 32 ≤ blockSize ∧ groups < 4194304 then blockSize < 32768 * groups
  else 4 ≤ blockSize ∧ ¬ divRoundUp64 (u32 (groups * 1024) * 32) blockSize ≡
    divRoundUp64 (groups * 32) blockSize [MOD 4294967296]

section Divisors

theorem divRoundUp32_pos_iff {x y : Nat} (hx : x < 4294967296) (hy : y < 4294967296) :
    divRoundUp32 x y ≠ 0 ↔ 0 < y ∧ 0 < x ∧ x + y ≤ 4294967296 := by
  rcases Nat.eq_zero_or_pos y with rfl | hpos
  · simp [divRoundUp32]
  · have hdiv : divRoundUp32 x y ≠ 0 ↔ y ≤ u32 (x + y - 1) := by
      rw [divRoundUp32, ← Nat.pos_iff_ne_zero, Nat.div_pos_iff]
      exact and_iff_right hpos
    rw [hdiv]
    simp only [u32]
    omega

theorem FsRequest.wantedInodeSize_pos (req : FsRequest) : 0 < req.wantedInodeSize := by
  unfold FsRequest.wantedInodeSize
  split <;> omega

theorem computeInodesPerGroup_isSome_iff (req : FsRequest) (st : Option FdStat) (inodes : Nat) :
    (computeInodesPerGroup (req.roundedLen st) req.wantedBlockSize req.wantedBlocksPerGroup inodes
      req.wantedInodeSize).isSome ↔
    (0 < req.wantedBlocksPerGroup ∧ 0 < req.paramBlocks st ∧
      req.paramBlocks st + req.wantedBlocksPerGroup ≤ 4294967296) ∧
      req.wantedInodeSize ≤ req.wantedBlockSize := by
  have hgroups := divRoundUp32_pos_iff (u32_lt (divRoundUp64 (req.roundedLen st)
    req.wantedBlockSize)) req.wantedBlocksPerGroup_lt
  have hsize := req.wantedInodeSize_pos
  have hper : req.wantedBlockSize / req.wantedInodeSize ≠ 0 ↔
      req.wantedInodeSize ≤ req.wantedBlockSize := by
    rw [← Nat.pos_iff_ne_zero, Nat.div_pos_iff]
    exact and_iff_right hsize
  rw [FsRequest.paramBlocks, ← hgroups, ← hper]
  unfold computeInodesPerGroup
  dsimp only
  split
  · rename_i hzero
    simp only [Option.isSome_none, Bool.false_eq_true, false_iff]
    rintro ⟨h1, h2⟩
    rcases hzero with h | h | h
    · exact h1 h
    · omega
    · exact h2 h
  · rename_i hzero
    simp only [Option.isSome_some, true_iff]
    exact ⟨fun h => hzero (Or.inl h), fun h => hzero (Or.inr (Or.inr h))⟩

end Divisors

section Reserve

variable {blockSize groups : Nat}

theorem divRoundUp_one {x y : Nat} (hx : 0 < x) (h : x ≤ y) : divRoundUp x y = 1 :=
  divRoundUp_eq_of (by omega) (by omega) (by omega)

theorem divRoundUp_descs_lt_iff (hbs : 0 < blockSize) (hgroups : 0 < groups) :
    divRoundUp (groups * 32) blockSize < divRoundUp (groups * 1024 * 32) blockSize ↔
      blockSize < 32768 * groups := by
  constructor
  · intro h
    by_contra hle
    rw [divRoundUp_one (by omega) (by omega), divRoundUp_one (by omega) (by omega)] at h
    omega
  · intro h
    rw [lt_divRoundUp_iff hbs]
    have hup := divRoundUp_mul_lt (groups * 32) hbs
    rcases Nat.lt_or_ge (groups * 32) blockSize with hlt | hge
    · rw [divRoundUp_one (by omega) (by omega)]
      omega
    · omega

theorem reserveLeft_iff (hbs : 0 < blockSize) (hword : blockSize < 4294967296) (hgroups : 0 < groups)
    (hlt : groups < 4294967296) :
    ReserveLeft blockSize groups ↔ 4 ≤ blockSize ∧
      ¬ divRoundUp64 (u32 (groups * 1024) * 32) blockSize ≡
        divRoundUp64 (groups * 32) blockSize [MOD 4294967296] := by
  unfold ReserveLeft
  split
  · rename_i husual
    obtain ⟨hsmall, hfew⟩ := husual
    have hmany : divRoundUp (groups * 1024 * 32) blockSize < 4294967296 := by
      have hle : divRoundUp (groups * 1024 * 32) blockSize ≤ groups * 1024 := by
        rw [divRoundUp_le_iff hbs]
        exact Nat.mul_le_mul_left _ hsmall
      omega
    have hmono := divRoundUp_mono blockSize (show groups * 32 ≤ groups * 1024 * 32 by omega)
    rw [u32_of_lt (by omega), divRoundUp64_eq (by omega), divRoundUp64_eq (by omega),
      Nat.ModEq, Nat.mod_eq_of_lt hmany, Nat.mod_eq_of_lt (by omega),
      ← divRoundUp_descs_lt_iff hbs hgroups]
    omega
  · exact Iff.rfl

theorem u32_sub64_ne_zero_iff {many : Nat} (few : Nat) (hmany : many < 18446744073709551616) :
    u32 (sub64 many (u32 few)) ≠ 0 ↔ ¬ many ≡ few [MOD 4294967296] := by
  simp only [sub64, u64, u32, Nat.ModEq]
  omega

theorem capped_ne_zero_iff (n cap : Nat) : (if n > cap then cap else n) ≠ 0 ↔ cap ≠ 0 ∧ n ≠ 0 := by
  split <;> omega

theorem computeBgDescReserveBlocks_pos_iff (req : FsRequest) (st : Option FdStat)
    (hgroups : 0 < req.paramGroups st) :
    computeBgDescReserveBlocks (req.roundedLen st) req.wantedBlockSize req.wantedBlocksPerGroup ≠ 0 ↔
      ReserveLeft req.wantedBlockSize (req.paramGroups st) := by
  obtain ⟨hbs, hword⟩ := req.wantedBlockSize_bounds
  have hlt : req.paramGroups st < 4294967296 :=
    lt_of_le_of_lt (Nat.div_le_self _ _) (u32_lt _)
  have hmany : divRoundUp64 (u32 (req.paramGroups st * 1024) * 32) req.wantedBlockSize <
      18446744073709551616 := lt_of_le_of_lt (Nat.div_le_self _ _) (u64_lt _)
  have hdef : divRoundUp32 (u32 (divRoundUp64 (req.roundedLen st) req.wantedBlockSize))
      req.wantedBlocksPerGroup = req.paramGroups st := rfl
  rw [reserveLeft_iff hbs hword hgroups hlt]
  simp only [computeBgDescReserveBlocks, hdef, sizeofExt2GroupDesc]
  rw [capped_ne_zero_iff, u32_sub64_ne_zero_iff _ hmany]
  refine and_congr_left fun _ => ?_
  omega

end Reserve

section Sound

variable {req : FsRequest} {st : Option FdStat} {info : FsInfo}

theorem groupLeft_iff {aux : FsAuxInfo} (h : ext4InitFsAuxInfo info = some aux) :
    1 ≤ aux.groups ↔ GroupLeft info := by
  have hlt : info.allGroups < 4294967296 := u32_lt _
  rw [(ext4InitFsAuxInfo_some h).2.2.1, GroupLeft]
  split
  · simp only [sub32, u32]
    omega
  · omega

theorem FsRequest.roundedLen_lt (hlen : req.wantedLen st < 9223372036854775808) :
    req.roundedLen st < 9223372036854775808 := by
  have hle : req.roundedLen st ≤ (req.wantedLen st).toNat := Nat.and_le_left
  omega

theorem settleInfo_cases (hlen : req.wantedLen st < 9223372036854775808)
    (hpos : 0 < req.wantedLen st) :
    ((0 < req.wantedBlocksPerGroup ∧ 0 < req.paramBlocks st ∧
      req.paramBlocks st + req.wantedBlocksPerGroup ≤ 4294967296) ∧
      req.wantedInodeSize ≤ req.wantedBlockSize) ∧ (∃ info, settleInfo req st = .ok info ∧
        info.bgDescReserveBlocks.val = computeBgDescReserveBlocks (req.roundedLen st)
          req.wantedBlockSize req.wantedBlocksPerGroup) ∨
    ¬ ((0 < req.wantedBlocksPerGroup ∧ 0 < req.paramBlocks st ∧
      req.paramBlocks st + req.wantedBlocksPerGroup ≤ 4294967296) ∧
      req.wantedInodeSize ≤ req.wantedBlockSize) ∧ settleInfo req st = .error .crash := by
  rw [← computeInodesPerGroup_isSome_iff req st (req.wantedInodes (req.roundedLen st))]
  have hword := req.wantedBlockSize_bounds.2
  have hreserve := computeBgDescReserveBlocks_le (req.roundedLen st) req.wantedBlockSize
    req.wantedBlocksPerGroup
  cases hper : computeInodesPerGroup (req.roundedLen st) req.wantedBlockSize
      req.wantedBlocksPerGroup (req.wantedInodes (req.roundedLen st)) req.wantedInodeSize with
  | none =>
    right
    refine ⟨by simp, ?_⟩
    rw [settleInfo, if_neg (by omega), dif_pos (FsRequest.roundedLen_lt hlen), hper]
  | some r =>
    left
    rw [settleInfo, if_neg (by omega), dif_pos (FsRequest.roundedLen_lt hlen), hper]
    exact ⟨rfl, _, rfl, u32_of_lt (by omega)⟩

end Sound

end MakeExt4fs

import MakeExt4fs.Utils.Types

namespace MakeExt4fs

open ErrorLog Words

def toU16 (n : Nat) : U16 := ⟨u16 n, u16_lt n⟩

def toU32 (n : Nat) : U32 := ⟨u32 n, u32_lt n⟩

@[simp] theorem toU16_val (n : Nat) : (toU16 n).val = u16 n := rfl

@[simp] theorem toU32_val (n : Nat) : (toU32 n).val = u32 n := rfl

-- An int is below 2^31, so 31 divisions by 2 or more are enough.
def isPowerOfLoop : Nat → Int → Int → Bool
  | 0, _, _ => false
  | fuel + 1, a, b => if a > b then (a % b == 0 && isPowerOfLoop fuel (a / b) b) else a == b

def isPowerOf (a b : Int) : Bool := isPowerOfLoop 32 a b

def ext4BgHasSuperBlock (info : FsInfo) (bg : Nat) : Bool :=
  if info.featRoCompat.val &&& ext4FeatureRoCompatSparseSuper = 0 then true
  else if s32 bg = 0 ∨ s32 bg = 1 then true
  else isPowerOf (s32 bg) 3 || isPowerOf (s32 bg) 5 || isPowerOf (s32 bg) 7

namespace FsInfo

def firstDataBlock (info : FsInfo) : Nat := if info.blockSize.val > 1024 then 0 else 1

def lenBlocks (info : FsInfo) : Nat := info.len.val / info.blockSize.val

def inodeTableBlocks (info : FsInfo) : Nat :=
  divRoundUp32 (u32 (info.inodesPerGroup.val * info.inodeSize.val)) info.blockSize.val

def allGroups (info : FsInfo) : Nat :=
  u32 (divRoundUp64 (sub64 info.lenBlocks info.firstDataBlock) info.blocksPerGroup.val)

def neededGroups (info : FsInfo) : Nat :=
  divRoundUp (info.lenBlocks - info.firstDataBlock) info.blocksPerGroup.val

def bgDescBlocks (info : FsInfo) : Nat :=
  u32 (divRoundUp64 (info.allGroups * sizeofExt2GroupDesc) info.blockSize.val)

def lastGroupSize (info : FsInfo) : Nat := u32 (info.lenBlocks % info.blocksPerGroup.val)

def headerSize (info : FsInfo) (i : Nat) : Nat :=
  u32 (2 + info.inodeTableBlocks + if ext4BgHasSuperBlock info i then
    1 + info.bgDescBlocks + info.bgDescReserveBlocks.val else 0)

def lastHeaderSize (info : FsInfo) : Nat := info.headerSize (sub32 info.allGroups 1)

def lastGroupShort (info : FsInfo) : Bool :=
  decide (info.lastGroupSize > 0 ∧ info.lastGroupSize < info.lastHeaderSize)

end FsInfo

-- Nothing comes back where the source divides by zero.
def ext4InitFsAuxInfo (info : FsInfo) : Option FsAuxInfo :=
  if info.blockSize.val = 0 ∨ info.blocksPerGroup.val = 0 then none
  else
    let groups := if info.lastGroupShort then sub32 info.allGroups 1 else info.allGroups
    some {
      sb := .zero
      backupSb := List.replicate groups none
      -- The buffer is sized before a group is dropped.
      bgDesc :=
        List.replicate (info.bgDescBlocks * info.blockSize.val / sizeofExt2GroupDesc) .zero
      bgs := []
      xattrs := []
      firstDataBlock := info.firstDataBlock
      lenBlocks :=
        if info.lastGroupShort then sub64 info.lenBlocks info.lastGroupSize else info.lenBlocks
      inodeTableBlocks := info.inodeTableBlocks
      groups
      bgDescBlocks := info.bgDescBlocks
      defaultIFlags := ext4NoatimeFl
      blocksPerInd := info.blockSize.val / 4
      blocksPerDind := u32 (info.blockSize.val / 4 * (info.blockSize.val / 4))
      blocksPerTind :=
        u32 (u32 (info.blockSize.val / 4 * (info.blockSize.val / 4)) *
          u32 (info.blockSize.val / 4 * (info.blockSize.val / 4))) }

theorem FsInfo.firstDataBlock_le (info : FsInfo) : info.firstDataBlock ≤ 1 := by
  unfold FsInfo.firstDataBlock
  split <;> omega

theorem FsInfo.lenBlocks_lt (info : FsInfo) : info.lenBlocks < 9223372036854775808 :=
  lt_of_le_of_lt (Nat.div_le_self _ _) info.len.isLt

theorem FsInfo.allGroups_eq {info : FsInfo} (hlen : info.firstDataBlock ≤ info.lenBlocks) :
    info.allGroups = u32 info.neededGroups := by
  have hlt := info.lenBlocks_lt
  have hbpg := info.blocksPerGroup.isLt
  rw [FsInfo.allGroups, FsInfo.neededGroups, sub64_of_le (by omega) hlen,
    divRoundUp64_eq (by omega)]

theorem FsInfo.lastGroupSize_eq {info : FsInfo} (hbpg : 0 < info.blocksPerGroup.val) :
    info.lastGroupSize = info.lenBlocks % info.blocksPerGroup.val :=
  u32_of_lt ((Nat.mod_lt _ hbpg).trans info.blocksPerGroup.isLt)

theorem ext4InitFsAuxInfo_some {info : FsInfo} {aux : FsAuxInfo}
    (h : ext4InitFsAuxInfo info = some aux) :
    aux.firstDataBlock = info.firstDataBlock ∧
    aux.lenBlocks = (if info.lastGroupShort then sub64 info.lenBlocks info.lastGroupSize
      else info.lenBlocks) ∧
    aux.groups = (if info.lastGroupShort then sub32 info.allGroups 1 else info.allGroups) ∧
    aux.inodeTableBlocks = info.inodeTableBlocks ∧ aux.bgDescBlocks = info.bgDescBlocks := by
  unfold ext4InitFsAuxInfo at h
  split at h
  · cases h
  · simp only [Option.some.injEq] at h
    subst h
    exact ⟨rfl, rfl, rfl, rfl, rfl⟩

theorem ext4InitFsAuxInfo_exists (info : FsInfo) (hbs : 0 < info.blockSize.val)
    (hbpg : 0 < info.blocksPerGroup.val) : ∃ aux, ext4InitFsAuxInfo info = some aux := by
  unfold ext4InitFsAuxInfo
  rw [if_neg (by omega)]
  exact ⟨_, rfl⟩

def computeBlockSize : Nat := 4096

def computeJournalBlocks (len blockSize : Nat) : Nat :=
  let journalBlocks := u32 (divRoundUp64 len blockSize / 64)
  if journalBlocks < 1024 then 1024 else if journalBlocks > 32768 then 32768 else journalBlocks

def computeBlocksPerGroup (blockSize : Nat) : Nat := u32 (blockSize * 8)

def computeInodes (len blockSize : Nat) : Nat := u32 (divRoundUp64 len blockSize / 4)

def computeInodesPerGroup (len blockSize blocksPerGroup inodes inodeSize : Nat) :
    Option (Nat × Nat) :=
  let blocks := u32 (divRoundUp64 len blockSize)
  let blockGroups := divRoundUp32 blocks blocksPerGroup
  let perBlock := blockSize / inodeSize
  if blockGroups = 0 ∨ inodeSize = 0 ∨ perBlock = 0 then none
  else
    let perGroup := u32 (perBlock * divRoundUp32 (divRoundUp32 inodes blockGroups) perBlock)
    some (perGroup, u32 (perGroup * blockGroups))

def computeBgDescReserveBlocks (len blockSize blocksPerGroup : Nat) : Nat :=
  let blocks := u32 (divRoundUp64 len blockSize)
  let blockGroups := divRoundUp32 blocks blocksPerGroup
  let bgDescBlocks := u32 (divRoundUp64 (blockGroups * sizeofExt2GroupDesc) blockSize)
  let bgDescReserveBlocks := u32 (sub64
    (divRoundUp64 (u32 (blockGroups * 1024) * sizeofExt2GroupDesc) blockSize) bgDescBlocks)
  if bgDescReserveBlocks > blockSize / 4 then blockSize / 4 else bgDescReserveBlocks

-- What the command line gives; zero stands for "not given", as in the source.
structure FsRequest where
  len : Int
  blockSize : U32
  blocksPerGroup : U32
  inodes : U32
  inodeSize : U32
  journalBlocks : U32
  reservePcnt : U32
  label : List UInt8
  noJournal : Bool
  uuid : List UInt8
  deriving DecidableEq

-- What fstat says about the output.
structure FdStat where
  isReg : Bool
  isBlk : Bool
  size : Int
  deviceSize : Int
  deriving DecidableEq

def getFileSize (len : Int) (st : Option FdStat) : Int :=
  match st with
  | none => 0
  | some st =>
    let reserveLen := if len < 0 then -len else 0
    let computed :=
      if st.isReg then st.size - reserveLen
      else if st.isBlk then st.deviceSize - reserveLen
      else 0
    if computed < 0 then 0 else computed

namespace FsRequest

def wantedLen (req : FsRequest) (st : Option FdStat) : Int :=
  if req.len ≤ 0 then getFileSize req.len st else req.len

def wantedBlockSize (req : FsRequest) : Nat :=
  if req.blockSize.val = 0 then computeBlockSize else req.blockSize.val

def roundedLen (req : FsRequest) (st : Option FdStat) : Nat :=
  (req.wantedLen st).toNat &&& (18446744073709551616 - req.wantedBlockSize)

def wantedBlocksPerGroup (req : FsRequest) : Nat :=
  if req.blocksPerGroup.val = 0 then computeBlocksPerGroup req.wantedBlockSize
  else req.blocksPerGroup.val

def wantedJournalBlocks (req : FsRequest) (len : Nat) : Nat :=
  if req.noJournal then 0
  else if req.journalBlocks.val = 0 then computeJournalBlocks len req.wantedBlockSize
  else req.journalBlocks.val

def wantedInodes (req : FsRequest) (len : Nat) : Nat :=
  if req.inodes.val = 0 then computeInodes len req.wantedBlockSize else req.inodes.val

def wantedInodeSize (req : FsRequest) : Nat :=
  if req.inodeSize.val = 0 then 256 else req.inodeSize.val

end FsRequest

-- The part of make_ext4fs_internal that settles the parameters; the uuid comes with the request.
def settleInfo (req : FsRequest) (st : Option FdStat) : Except (Stop Ext4Error) FsInfo :=
  if req.wantedLen st ≤ 0 then .error (.error .needSize)
  else if h : req.roundedLen st < 9223372036854775808 then
    match computeInodesPerGroup (req.roundedLen st) req.wantedBlockSize req.wantedBlocksPerGroup
        (req.wantedInodes (req.roundedLen st)) req.wantedInodeSize with
    | none => .error .crash
    | some (inodesPerGroup, inodes) =>
      .ok {
        len := ⟨req.roundedLen st, h⟩
        blockSize := toU32 req.wantedBlockSize
        blocksPerGroup := toU32 req.wantedBlocksPerGroup
        inodesPerGroup := toU32 inodesPerGroup
        inodeSize := toU32 req.wantedInodeSize
        inodes := toU32 inodes
        journalBlocks := toU32 (req.wantedJournalBlocks (req.roundedLen st))
        featCompat := toU16 ((if req.noJournal then 0 else ext4FeatureCompatHasJournal) |||
          (ext4FeatureCompatResizeInode ||| ext4FeatureCompatExtAttr))
        featRoCompat := toU16 (ext4FeatureRoCompatSparseSuper |||
          ext4FeatureRoCompatLargeFile ||| ext4FeatureRoCompatGdtCsum)
        featIncompat := toU16 (ext4FeatureIncompatExtents ||| ext4FeatureIncompatFiletype)
        bgDescReserveBlocks := toU32 (computeBgDescReserveBlocks (req.roundedLen st)
          req.wantedBlockSize req.wantedBlocksPerGroup)
        reservePcnt := req.reservePcnt
        label := req.label
        noJournal := req.noJournal
        uuid := req.uuid }
  -- A length is a signed 64-bit number.
  else .error .crash

theorem computeBgDescReserveBlocks_le (len blockSize blocksPerGroup : Nat) :
    computeBgDescReserveBlocks len blockSize blocksPerGroup ≤ blockSize / 4 := by
  unfold computeBgDescReserveBlocks
  simp only
  split <;> omega

theorem computeInodesPerGroup_some {len blockSize blocksPerGroup inodes inodeSize : Nat}
    {r : Nat × Nat} (h : computeInodesPerGroup len blockSize blocksPerGroup inodes inodeSize = some r) :
    0 < inodeSize ∧ inodeSize ≤ blockSize ∧ 0 < blocksPerGroup := by
  unfold computeInodesPerGroup at h
  simp only at h
  split at h
  · cases h
  · rename_i hne
    refine ⟨by omega, ?_, ?_⟩
    · by_contra hlt
      exact hne (Or.inr (Or.inr (Nat.div_eq_of_lt (by omega))))
    · rcases Nat.eq_zero_or_pos blocksPerGroup with rfl | hpos
      · exact absurd (Or.inl (Nat.div_zero _)) hne
      · exact hpos

structure Settled (info : FsInfo) : Prop where
  blockSize : 0 < info.blockSize.val
  blocksPerGroup : 0 < info.blocksPerGroup.val
  inodeSize_pos : 0 < info.inodeSize.val
  inodeSize_le : info.inodeSize.val ≤ info.blockSize.val
  reserve_le : info.bgDescReserveBlocks.val ≤ info.blockSize.val / 4

theorem FsRequest.wantedBlockSize_bounds (req : FsRequest) :
    0 < req.wantedBlockSize ∧ req.wantedBlockSize < 4294967296 := by
  unfold FsRequest.wantedBlockSize
  split
  · exact ⟨by decide, by decide⟩
  · exact ⟨by omega, req.blockSize.isLt⟩

theorem FsRequest.wantedBlocksPerGroup_lt (req : FsRequest) :
    req.wantedBlocksPerGroup < 4294967296 := by
  unfold FsRequest.wantedBlocksPerGroup
  split
  · exact u32_lt _
  · exact req.blocksPerGroup.isLt

theorem settleInfo_settled {req : FsRequest} {st : Option FdStat} {info : FsInfo}
    (h : settleInfo req st = .ok info) : Settled info := by
  unfold settleInfo at h
  split at h
  · cases h
  · split at h
    · split at h
      · cases h
      · rename_i hper
        simp only [Except.ok.injEq] at h
        subst h
        obtain ⟨hpos, hlt⟩ := req.wantedBlockSize_bounds
        have hbpg := req.wantedBlocksPerGroup_lt
        have hsize := computeInodesPerGroup_some hper
        have hres := computeBgDescReserveBlocks_le (req.roundedLen st) req.wantedBlockSize
          req.wantedBlocksPerGroup
        refine ⟨?_, ?_, ?_, ?_, ?_⟩ <;> simp only [toU32_val] <;> rw [u32_of_lt (by omega)]
        · exact hpos
        · exact hsize.2.2
        · exact hsize.1
        · rw [u32_of_lt hlt]
          exact hsize.2.1
        · rw [u32_of_lt hlt]
          exact hres
    · cases h

-- make_ext4fs -l 16m.
def smallRequest : FsRequest :=
  ⟨16777216, 0, 0, 0, 0, 0, 0, [], false, List.replicate 16 0⟩

def smallInfo : FsInfo :=
  ⟨16777216, 4096, 32768, 1024, 256, 1024, 1024, 19, 28, 66, 7, 0, [], false,
    List.replicate 16 0⟩

def smallAux : FsAuxInfo :=
  ⟨.zero, [none], List.replicate 128 .zero, [], [], 0, 4096, 64, 1, 1, 128, 1024, 1048576, 0⟩

end MakeExt4fs

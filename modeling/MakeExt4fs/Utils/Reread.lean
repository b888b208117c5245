import MakeExt4fs.Utils.SuperBlock

namespace MakeExt4fs

open Words

structure SameGeometry (info : FsInfo) (aux : FsAuxInfo) (info' : FsInfo) (aux' : FsAuxInfo) :
    Prop where
  blockSize : info'.blockSize = info.blockSize
  blocksPerGroup : info'.blocksPerGroup = info.blocksPerGroup
  inodesPerGroup : info'.inodesPerGroup = info.inodesPerGroup
  inodeSize : info'.inodeSize = info.inodeSize
  featCompat : info'.featCompat = info.featCompat
  featIncompat : info'.featIncompat = info.featIncompat
  featRoCompat : info'.featRoCompat = info.featRoCompat
  reserved : info'.bgDescReserveBlocks = info.bgDescReserveBlocks
  firstDataBlock : aux'.firstDataBlock = aux.firstDataBlock
  lenBlocks : aux'.lenBlocks = aux.lenBlocks
  groups : aux'.groups = aux.groups
  inodeTableBlocks : aux'.inodeTableBlocks = aux.inodeTableBlocks
  bgDescBlocks : aux'.bgDescBlocks = aux.bgDescBlocks

def Rereads (info : FsInfo) : Prop :=
  ∀ old : FsInfo, ∃ aux info' aux', ext4InitFsAuxInfo info = some aux ∧
    ext4ParseSb (superBlockOf info aux) old = some info' ∧
    ext4InitFsAuxInfo info' = some aux' ∧ SameGeometry info aux info' aux'

def FsInfo.descBlocksFor (info : FsInfo) (groups : Nat) : Nat :=
  divRoundUp (groups * sizeofExt2GroupDesc) info.blockSize.val

def FsInfo.TrimRereads (info : FsInfo) : Prop :=
  info.lastGroupShort = true →
    info.lenBlocks % info.blocksPerGroup.val ≠ info.firstDataBlock ∧
      info.descBlocksFor (sub32 info.allGroups 1) = info.descBlocksFor info.allGroups

section Reread

variable {info info' : FsInfo} {aux aux' : FsAuxInfo}

-- What ext4_parse_sb recovers from the superblock, the length apart.
structure Recovered (info : FsInfo) (lenBlocks : Nat) (info' : FsInfo) : Prop where
  blockSize : info'.blockSize = info.blockSize
  blocksPerGroup : info'.blocksPerGroup = info.blocksPerGroup
  inodesPerGroup : info'.inodesPerGroup = info.inodesPerGroup
  inodeSize : info'.inodeSize = info.inodeSize
  featCompat : info'.featCompat = info.featCompat
  featIncompat : info'.featIncompat = info.featIncompat
  featRoCompat : info'.featRoCompat = info.featRoCompat
  reserved : info'.bgDescReserveBlocks = info.bgDescReserveBlocks
  lenBlocks : info'.lenBlocks = lenBlocks

theorem u32_fin (n : U32) : toU32 n.val = n := Fin.ext (u32_of_lt n.isLt)

theorem u16_fin (n : U16) : toU16 n.val = n := Fin.ext (u16_of_lt n.isLt)

theorem ext4ParseSb_superBlockOf (hset : Settled info)
    (hbs : info.blockSize.val = 1024 ∨ info.blockSize.val = 2048 ∨ info.blockSize.val = 4096)
    (hlen : aux.lenBlocks ≤ info.lenBlocks) (old : FsInfo) :
    ∃ info', ext4ParseSb (superBlockOf info aux) old = some info' ∧
      Recovered info aux.lenBlocks info' := by
  have hinode := hset.inodeSize_le
  have hres := hset.reserve_le
  have hlog : toU32 (1024 <<< (superBlockOf info aux).sLogBlockSize) = info.blockSize := by
    apply Fin.ext
    simp only [superBlockOf, toU32_val]
    rcases hbs with h | h | h <;> rw [h] <;> decide
  have hblocks : info.blockSize.val * aux.lenBlocks ≤ info.len.val :=
    (Nat.mul_le_mul_left _ hlen).trans (Nat.mul_div_le _ _)
  have hlt := info.len.isLt
  have hn := info.lenBlocks_lt
  have hjoin : u32 (aux.lenBlocks / 4294967296) * 4294967296 + u32 aux.lenBlocks =
      aux.lenBlocks := by
    simp only [u32]
    omega
  have hmagic : ¬ (superBlockOf info aux).sMagic ≠ ext4SuperMagic := not_not_intro rfl
  have hstate : ¬ (superBlockOf info aux).sState &&& ext4ValidFs ≠ ext4ValidFs := by
    simp [superBlockOf, ext4ValidFs]
  rw [ext4ParseSb, if_neg hmagic, if_neg hstate]
  refine ⟨_, rfl, ?_⟩
  refine ⟨hlog, u32_fin _, u32_fin _, ?_, u16_fin _, u16_fin _, u16_fin _, ?_, ?_⟩
  · simp only [superBlockOf]
    rw [u16_of_lt (by omega)]
    exact u32_fin _
  · simp only [superBlockOf]
    rw [u16_of_lt (by omega)]
    exact u32_fin _
  · simp only [FsInfo.lenBlocks]
    rw [hlog]
    simp only [superBlockOf, hjoin]
    rw [u64_of_lt (by omega), Fin.val_ofNat, Nat.mod_eq_of_lt (by omega)]
    exact Nat.mul_div_cancel_left _ hset.blockSize

theorem Recovered.geometry {n : Nat} (h : Recovered info n info') :
    info'.firstDataBlock = info.firstDataBlock ∧
      info'.inodeTableBlocks = info.inodeTableBlocks := by
  constructor
  · simp only [FsInfo.firstDataBlock, h.blockSize]
  · simp only [FsInfo.inodeTableBlocks, h.blockSize, h.inodesPerGroup, h.inodeSize]

theorem bgDescBlocks_eq (hbs : 1024 ≤ info.blockSize.val) :
    info.bgDescBlocks = info.descBlocksFor info.allGroups := by
  have hgroups : info.allGroups < 4294967296 := u32_lt _
  have hlt := info.blockSize.isLt
  have hle : divRoundUp (info.allGroups * 32) info.blockSize.val ≤ 137438953472 / 1024 := by
    rw [divRoundUp_le_iff (by omega)]
    omega
  simp only [FsInfo.bgDescBlocks, FsInfo.descBlocksFor, sizeofExt2GroupDesc]
  rw [divRoundUp64_eq (by omega), u32_of_lt (by omega)]

theorem Recovered.unchanged (h : Recovered info info.lenBlocks info') :
    info'.allGroups = info.allGroups ∧ info'.bgDescBlocks = info.bgDescBlocks ∧
      info'.lastGroupShort = info.lastGroupShort := by
  obtain ⟨hfdb, htable⟩ := h.geometry
  have hgroups : info'.allGroups = info.allGroups := by
    simp only [FsInfo.allGroups, h.lenBlocks, h.blocksPerGroup, hfdb]
  have hdesc : info'.bgDescBlocks = info.bgDescBlocks := by
    simp only [FsInfo.bgDescBlocks, hgroups, h.blockSize]
  have hsuper (i : Nat) : ext4BgHasSuperBlock info' i = ext4BgHasSuperBlock info i := by
    simp only [ext4BgHasSuperBlock, h.featRoCompat]
  have hheader : info'.lastHeaderSize = info.lastHeaderSize := by
    simp only [FsInfo.lastHeaderSize, FsInfo.headerSize, hsuper, h.reserved, hgroups, hdesc,
      htable]
  have hsize : info'.lastGroupSize = info.lastGroupSize := by
    simp only [FsInfo.lastGroupSize, h.lenBlocks, h.blocksPerGroup]
  exact ⟨hgroups, hdesc, by rw [FsInfo.lastGroupShort, hheader, hsize, FsInfo.lastGroupShort]⟩

theorem lastGroupShort_pos (hbpg : 0 < info.blocksPerGroup.val)
    (hshort : info.lastGroupShort = true) : 0 < info.lenBlocks % info.blocksPerGroup.val := by
  rw [← FsInfo.lastGroupSize_eq hbpg]
  exact (of_decide_eq_true hshort).1

theorem allGroups_whole {q : Nat} (hbpg : 2 ≤ info.blocksPerGroup.val)
    (hlen : info.lenBlocks = q * info.blocksPerGroup.val) : info.allGroups = u32 q := by
  have hf := info.firstDataBlock_le
  have hlt := info.blocksPerGroup.isLt
  rcases Nat.eq_zero_or_pos q with rfl | hq
  · rw [Nat.zero_mul] at hlen
    rw [FsInfo.allGroups, hlen]
    have hzero : divRoundUp64 (sub64 0 info.firstDataBlock) info.blocksPerGroup.val = 0 := by
      apply Nat.div_eq_of_lt
      simp only [sub64, u64]
      omega
    rw [hzero]
  · have hmul : info.blocksPerGroup.val ≤ q * info.blocksPerGroup.val :=
      Nat.le_mul_of_pos_left _ hq
    rw [FsInfo.allGroups_eq (by omega), FsInfo.neededGroups, hlen,
      divRoundUp_eq_of (by omega) (Nat.sub_le _ _) (by omega)]

theorem allGroups_part (hbpg : 0 < info.blocksPerGroup.val)
    (hpart : info.firstDataBlock < info.lenBlocks % info.blocksPerGroup.val) :
    info.allGroups = u32 (info.lenBlocks / info.blocksPerGroup.val + 1) := by
  have hdiv := Nat.div_add_mod' info.lenBlocks info.blocksPerGroup.val
  have hmod := Nat.mod_lt info.lenBlocks hbpg
  rw [FsInfo.allGroups_eq (by omega), FsInfo.neededGroups]
  congr 1
  apply divRoundUp_eq_of hbpg
  · rw [Nat.succ_mul]
    omega
  · rw [Nat.succ_mul]
    omega

theorem sub32_u32_succ (n : Nat) : sub32 (u32 (n + 1)) 1 = u32 n := by
  simp only [sub32, u32]
  omega

theorem trimmed_groups (hbpg : 0 < info.blocksPerGroup.val) (hshort : info.lastGroupShort = true) :
    (u32 (info.lenBlocks / info.blocksPerGroup.val) = sub32 info.allGroups 1 ↔
      info.lenBlocks % info.blocksPerGroup.val ≠ info.firstDataBlock) := by
  have hpos := lastGroupShort_pos hbpg hshort
  have hmod := Nat.mod_lt info.lenBlocks hbpg
  have hdiv := Nat.div_add_mod' info.lenBlocks info.blocksPerGroup.val
  have hf := info.firstDataBlock_le
  by_cases hr : info.lenBlocks % info.blocksPerGroup.val = info.firstDataBlock
  · refine iff_of_false (fun heq => ?_) (not_not_intro hr)
    have hall : info.allGroups = u32 (info.lenBlocks / info.blocksPerGroup.val) := by
      rw [FsInfo.allGroups_eq (by omega), FsInfo.neededGroups, ← hr]
      congr 1
      apply divRoundUp_eq_of hbpg <;> omega
    rw [hall] at heq
    have := u32_lt (info.lenBlocks / info.blocksPerGroup.val)
    simp only [sub32, u32] at heq this
    omega
  · refine iff_of_true ?_ hr
    rw [allGroups_part hbpg (by omega), sub32_u32_succ]

theorem lenBlocks_of_init (hbpg : 0 < info.blocksPerGroup.val)
    (haux : ext4InitFsAuxInfo info = some aux) :
    aux.lenBlocks = if info.lastGroupShort then
      info.lenBlocks / info.blocksPerGroup.val * info.blocksPerGroup.val else info.lenBlocks := by
  have hmod := Nat.mod_le info.lenBlocks info.blocksPerGroup.val
  have hdiv := Nat.div_add_mod' info.lenBlocks info.blocksPerGroup.val
  have hlt := info.lenBlocks_lt
  rw [(ext4InitFsAuxInfo_some haux).2.1, FsInfo.lastGroupSize_eq hbpg,
    sub64_of_le (by omega) hmod]
  congr 1
  omega

theorem Recovered.same_iff (hbpg : 0 < info.blocksPerGroup.val) (hbs : 1024 ≤ info.blockSize.val)
    (haux : ext4InitFsAuxInfo info = some aux) (hrec : Recovered info aux.lenBlocks info')
    (haux' : ext4InitFsAuxInfo info' = some aux') :
    SameGeometry info aux info' aux' ↔ info.TrimRereads := by
  obtain ⟨hfdb, -, hgroups, htable, hdesc⟩ := ext4InitFsAuxInfo_some haux
  obtain ⟨hfdb', hlen', hgroups', htable', hdesc'⟩ := ext4InitFsAuxInfo_some haux'
  obtain ⟨hf, ht⟩ := hrec.geometry
  have hlen := lenBlocks_of_init hbpg haux
  -- The groups, the length and the descriptor blocks are what the two readings can differ in.
  have hsame : SameGeometry info aux info' aux' ↔ aux'.lenBlocks = aux.lenBlocks ∧
      aux'.groups = aux.groups ∧ aux'.bgDescBlocks = aux.bgDescBlocks := by
    refine ⟨fun h => ⟨h.lenBlocks, h.groups, h.bgDescBlocks⟩, fun ⟨h1, h2, h3⟩ => ?_⟩
    exact ⟨hrec.blockSize, hrec.blocksPerGroup, hrec.inodesPerGroup, hrec.inodeSize,
      hrec.featCompat, hrec.featIncompat, hrec.featRoCompat, hrec.reserved,
      by rw [hfdb, hfdb', hf], h1, h2, by rw [htable, htable', ht], h3⟩
  rw [hsame]
  by_cases hshort : info.lastGroupShort = true
  · have hpos := lastGroupShort_pos hbpg hshort
    have hmod := Nat.mod_lt info.lenBlocks hbpg
    rw [if_pos hshort] at hgroups hlen
    have hwhole : info'.lenBlocks =
        info.lenBlocks / info.blocksPerGroup.val * info'.blocksPerGroup.val := by
      rw [hrec.lenBlocks, hlen, hrec.blocksPerGroup]
    have hall := allGroups_whole (by rw [hrec.blocksPerGroup]; omega) hwhole
    have hlong : ¬ info'.lastGroupShort = true := by
      intro hs
      have := lastGroupShort_pos (by rw [hrec.blocksPerGroup]; exact hbpg) hs
      rw [hwhole, Nat.mul_mod_left] at this
      exact absurd this (lt_irrefl 0)
    rw [if_neg hlong] at hgroups' hlen'
    rw [hlen', hgroups', hgroups, hdesc', hdesc, hrec.lenBlocks, hall, trimmed_groups hbpg hshort,
      bgDescBlocks_eq (by rw [hrec.blockSize]; exact hbs), bgDescBlocks_eq hbs,
      FsInfo.descBlocksFor, hrec.blockSize, hall]
    constructor
    · rintro ⟨-, h1, h2⟩ -
      refine ⟨h1, ?_⟩
      rw [← h2, ← (trimmed_groups hbpg hshort).mpr h1]
      rfl
    · intro h
      obtain ⟨h1, h2⟩ := h hshort
      refine ⟨rfl, h1, ?_⟩
      rw [(trimmed_groups hbpg hshort).mpr h1, ← h2]
      rfl
  · rw [if_neg hshort] at hgroups hlen
    rw [hlen] at hrec
    obtain ⟨hall, hdescs, hkeeps⟩ := hrec.unchanged
    rw [hkeeps, if_neg hshort] at hgroups' hlen'
    refine iff_of_true ⟨?_, ?_, ?_⟩ fun h => absurd h hshort
    · rw [hlen', hlen, hrec.lenBlocks]
    · rw [hgroups', hgroups, hall]
    · rw [hdesc', hdesc, hdescs]

theorem rereads_iff_trimRereads {req : FsRequest} {st : Option FdStat}
    (hreq : settleInfo req st = .ok info)
    (hbs : info.blockSize.val = 1024 ∨ info.blockSize.val = 2048 ∨ info.blockSize.val = 4096) :
    Rereads info ↔ info.TrimRereads := by
  have hset := settleInfo_settled hreq
  have hbpg := hset.blocksPerGroup
  have hpos := hset.blockSize
  have hbs' : 1024 ≤ info.blockSize.val := by omega
  obtain ⟨aux, haux⟩ := ext4InitFsAuxInfo_exists info hpos hbpg
  have hlen : aux.lenBlocks ≤ info.lenBlocks := by
    rw [lenBlocks_of_init hbpg haux]
    split
    · exact Nat.div_mul_le_self _ _
    · exact le_rfl
  have hread (old : FsInfo) : ∃ info' aux', ext4ParseSb (superBlockOf info aux) old = some info' ∧
      ext4InitFsAuxInfo info' = some aux' ∧
      (SameGeometry info aux info' aux' ↔ info.TrimRereads) := by
    obtain ⟨info', hparse, hrec⟩ := ext4ParseSb_superBlockOf hset hbs hlen old
    obtain ⟨aux', haux'⟩ := ext4InitFsAuxInfo_exists info'
      (by rw [hrec.blockSize]; exact hpos) (by rw [hrec.blocksPerGroup]; exact hbpg)
    exact ⟨info', aux', hparse, haux', hrec.same_iff hbpg hbs' haux haux'⟩
  constructor
  · intro h
    obtain ⟨a, i, a', h1, h2, h3, hsame⟩ := h info
    obtain ⟨i', b', h4, h5, hiff⟩ := hread info
    obtain rfl : a = aux := Option.some.inj (h1.symm.trans haux)
    obtain rfl : i = i' := Option.some.inj (h2.symm.trans h4)
    obtain rfl : a' = b' := Option.some.inj (h3.symm.trans h5)
    exact hiff.mp hsame
  · intro h old
    obtain ⟨info', aux', h1, h2, hiff⟩ := hread old
    exact ⟨aux, info', aux', haux, h1, h2, hiff.mpr h⟩

end Reread

-- make_ext4fs -b 1024 -l 262194k: 32 groups and 49 blocks that are too few for a 33rd.
def groups33Request : FsRequest :=
  ⟨262194 * 1024, 1024, 0, 0, 0, 0, 0, [], false, List.replicate 16 0⟩

def groups33Info : FsInfo :=
  ⟨262194 * 1024, 1024, 8192, 1988, 256, 65604, 4096, 19, 28, 66, 256, 0, [], false,
    List.replicate 16 0⟩

def descBlocksTwice (info : FsInfo) : Option (Nat × Nat) := do
  let aux ← ext4InitFsAuxInfo info
  let info' ← ext4ParseSb (superBlockOf info aux) info
  let aux' ← ext4InitFsAuxInfo info'
  some (aux.bgDescBlocks, aux'.bgDescBlocks)

-- The writer keeps two blocks of descriptors, 33 of them needing a second; the reader finds 32.
theorem dropped_group_keeps_its_block :
    settleInfo groups33Request none = .ok groups33Info ∧ groups33Info.blockSize.val = 1024 ∧
      ¬ Rereads groups33Info := by
  refine ⟨rfl, rfl, fun h => ?_⟩
  obtain ⟨aux, info', aux', h1, h2, h3, hsame⟩ := h groups33Info
  have hrun : descBlocksTwice groups33Info = some (aux.bgDescBlocks, aux'.bgDescBlocks) := by
    simp only [descBlocksTwice, h1, h2, h3, Option.bind_eq_bind, Option.bind_some]
  rw [show descBlocksTwice groups33Info = some (2, 1) by decide, hsame.bgDescBlocks] at hrun
  simp only [Option.some.injEq, Prod.mk.injEq] at hrun
  omega

theorem rereads_iff_trimRereads_of_small : Rereads smallInfo ↔ smallInfo.TrimRereads :=
  rereads_iff_trimRereads (show settleInfo smallRequest none = .ok smallInfo from rfl)
    (Or.inr (Or.inr rfl))

end MakeExt4fs

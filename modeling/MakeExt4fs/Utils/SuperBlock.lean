import MakeExt4fs.Utils.Fs

namespace MakeExt4fs

open ErrorLog Words

def log2Loop : Nat → Nat → Int → Int
  | 0, _, i => i
  | fuel + 1, j, i => if j > 0 then log2Loop fuel (j / 2) (i + 1) else i

-- An int has at most 31 bits, so the loop of log_2 ends within 32 turns.
def log2 (j : Nat) : Int := log2Loop 32 j 0 - 1

-- strncpy into a field of n bytes: cut at n, filled up with zeros.
def strncpy (n : Nat) (s : List UInt8) : List UInt8 :=
  s.take n ++ List.replicate (n - s.length) 0

def superBlockOf (info : FsInfo) (aux : FsAuxInfo) : Ext4SuperBlock :=
  { aux.sb with
    sInodesCount := u32 (info.inodesPerGroup.val * aux.groups)
    sBlocksCountLo := u32 aux.lenBlocks
    sRBlocksCountLo := u32 (aux.lenBlocks / 100 * info.reservePcnt.val)
    sFreeBlocksCountLo := 0
    sFreeInodesCount := 0
    sFirstDataBlock := aux.firstDataBlock
    sLogBlockSize := ofInt32 (log2 (info.blockSize.val / 1024))
    sObsoLogFragSize := ofInt32 (log2 (info.blockSize.val / 1024))
    sBlocksPerGroup := info.blocksPerGroup.val
    sObsoFragsPerGroup := info.blocksPerGroup.val
    sInodesPerGroup := info.inodesPerGroup.val
    sMaxMntCount := 0xFFFF
    sMagic := ext4SuperMagic
    sState := ext4ValidFs
    sErrors := ext4ErrorsRo
    sCreatorOs := 0
    sRevLevel := ext4DynamicRev
    sDefResuid := 0
    sDefResgid := 0
    sFirstIno := ext4GoodOldFirstIno
    sInodeSize := u16 info.inodeSize.val
    sBlockGroupNr := 0
    sFeatureCompat := info.featCompat.val
    sFeatureIncompat := info.featIncompat.val
    sFeatureRoCompat := info.featRoCompat.val
    sUuid := info.uuid
    sVolumeName := strncpy 16 info.label
    sReservedGdtBlocks := u16 info.bgDescReserveBlocks.val
    sJournalInum :=
      if info.featCompat.val &&& ext4FeatureCompatHasJournal = 0 then aux.sb.sJournalInum
      else ext4JournalIno
    sDefHashVersion := dxHashTea
    sReservedCharPad := ext4JnlBackupBlocks
    sDescSize := sizeofExt2GroupDesc
    sBlocksCountHi := u32 (aux.lenBlocks / 4294967296)
    sRBlocksCountHi := 0
    sFreeBlocksCountHi := 0
    sMinExtraIsize := sizeofExt4Inode - ext4GoodOldInodeSize
    sWantExtraIsize := sizeofExt4Inode - ext4GoodOldInodeSize
    sFlags := 2 }

-- Unlike in init_bg, i is a 32-bit number here, and so is the product.
def groupStartBlock (info : FsInfo) (aux : FsAuxInfo) (i : Nat) : Nat :=
  u32 (aux.firstDataBlock + u32 (i * info.blocksPerGroup.val))

def groupHeaderSize (info : FsInfo) (aux : FsAuxInfo) (i : Nat) : Nat :=
  if ext4BgHasSuperBlock info i then
    u32 (1 + aux.bgDescBlocks + info.bgDescReserveBlocks.val)
  else 0

def descOf (info : FsInfo) (aux : FsAuxInfo) (i : Nat) (desc : Ext2GroupDesc) : Ext2GroupDesc :=
  { desc with
    bgBlockBitmap := u32 (groupStartBlock info aux i + groupHeaderSize info aux i)
    bgInodeBitmap := u32 (groupStartBlock info aux i + groupHeaderSize info aux i + 1)
    bgInodeTable := u32 (groupStartBlock info aux i + groupHeaderSize info aux i + 2)
    bgFreeBlocksCount := u16 aux.sb.sBlocksPerGroup
    bgFreeInodesCount := u16 aux.sb.sInodesPerGroup
    bgUsedDirsCount := 0 }

def queueBackupSb (info : FsInfo) (i : Nat) : Build Unit := do
  Run.update fun fs => { fs with aux := { fs.aux with
    backupSb := fs.aux.backupSb.set i (some { fs.aux.sb with sBlockGroupNr := u16 i }) } }
  let fs ← Run.read
  sparseFileAddData (.backupSb i) info.blockSize.val (groupStartBlock info fs.aux i)

def queueBgDesc (info : FsInfo) (i : Nat) : Build Unit := do
  let fs ← Run.read
  sparseFileAddData .bgDesc (u32 (fs.aux.bgDescBlocks * info.blockSize.val))
    (u32 (groupStartBlock info fs.aux i + 1))

def queueGroup (info : FsInfo) (i : Nat) : Build Unit :=
  if ext4BgHasSuperBlock info i then
    if i ≠ 0 then do
      queueBackupSb info i
      queueBgDesc info i
    else
      queueBgDesc info i
  else
    return ()

def fillInDesc (info : FsInfo) (i : Nat) : Build Unit := do
  let fs ← Run.read
  match fs.aux.bgDesc[i]? with
  | none => Run.crash
  | some desc =>
    Run.update fun fs => { fs with aux := { fs.aux with
      bgDesc := fs.aux.bgDesc.set i (descOf info fs.aux i desc) } }

def fillInGroup (info : FsInfo) (i : Nat) : Build Unit := do
  queueGroup info i
  fillInDesc info i

def ext4FillInSb (info : FsInfo) : Build Unit := do
  Run.update fun fs => { fs with aux := { fs.aux with sb := superBlockOf info fs.aux } }
  let fs ← Run.read
  Run.each (List.range fs.aux.groups) (fillInGroup info)

def ext4QueueSb (info : FsInfo) : Build Unit :=
  if info.blockSize.val > 1024 then sparseFileAddData .sbBlock info.blockSize.val 0
  else sparseFileAddData .sb 1024 1

-- The parameters read back from a superblock; those it does not hold are left as they were.
def ext4ParseSb (sb : Ext4SuperBlock) (info : FsInfo) : Option FsInfo :=
  if sb.sMagic ≠ ext4SuperMagic then none
  else if sb.sState &&& ext4ValidFs ≠ ext4ValidFs then none
  else
    let blockSize := toU32 (1024 <<< sb.sLogBlockSize)
    let lenBlocks := sb.sBlocksCountHi * 4294967296 + sb.sBlocksCountLo
    some { info with
      blockSize
      blocksPerGroup := toU32 sb.sBlocksPerGroup
      inodesPerGroup := toU32 sb.sInodesPerGroup
      inodeSize := toU32 sb.sInodeSize
      inodes := toU32 sb.sInodesCount
      featRoCompat := toU16 sb.sFeatureRoCompat
      featCompat := toU16 sb.sFeatureCompat
      featIncompat := toU16 sb.sFeatureIncompat
      bgDescReserveBlocks := toU32 sb.sReservedGdtBlocks
      label := sb.sVolumeName
      uuid := sb.sUuid
      len := Fin.ofNat _ (u64 (blockSize.val * lenBlocks)) }

def groupChunks (info : FsInfo) (aux : FsAuxInfo) (i : Nat) : List Chunk :=
  if ext4BgHasSuperBlock info i then
    (if i ≠ 0 then [.data (.backupSb i) info.blockSize.val (groupStartBlock info aux i)] else []) ++
      [.data .bgDesc (u32 (aux.bgDescBlocks * info.blockSize.val))
        (u32 (groupStartBlock info aux i + 1))]
  else []

structure FilledTo (info : FsInfo) (fs0 : Fs) (k : Nat) (fs : Fs) : Prop where
  aux : fs.aux = { fs0.aux with bgDesc := fs.aux.bgDesc, backupSb := fs.aux.backupSb }
  sparse : fs.sparse = fs0.sparse ++ (List.range k).flatMap (groupChunks info fs0.aux)
  heap : fs.heap = fs0.heap
  dirs : fs.dirs = fs0.dirs
  descs : ∀ i < k, ∃ d, fs.aux.bgDesc[i]? = some (descOf info fs0.aux i d)

section Fill

variable (bad : Ext4Error → Prop) {info : FsInfo} {fs0 : Fs}

theorem FilledTo.step {k : Nat} {fs : Fs} (h : FilledTo info fs0 k fs)
    {d : Ext2GroupDesc} (hd : fs.aux.bgDesc[k]? = some d) (backupSb : List (Option Ext4SuperBlock)) :
    FilledTo info fs0 (k + 1) { fs with
      aux := { fs.aux with bgDesc := fs.aux.bgDesc.set k (descOf info fs.aux k d), backupSb }
      sparse := fs.sparse ++ groupChunks info fs.aux k } := by
  have haux := h.aux
  obtain ⟨hk, -⟩ := List.getElem?_eq_some_iff.mp hd
  refine ⟨?_, ?_, h.heap, h.dirs, ?_⟩
  · rw [haux]
  · rw [h.sparse, List.range_succ, List.flatMap_append, List.append_assoc, haux]
    simp only [List.flatMap_cons, List.flatMap_nil, List.append_nil]
    rfl
  · intro i hi
    change ∃ d', (fs.aux.bgDesc.set k (descOf info fs.aux k d))[i]? = _
    by_cases hik : i = k
    · subst hik
      rw [List.getElem?_set_self hk]
      refine ⟨d, ?_⟩
      rw [haux]
      rfl
    · rw [List.getElem?_set_ne (by omega)]
      exact h.descs i (by omega)

theorem FilledTo.desc {k i : Nat} {fs : Fs} (h : FilledTo info fs0 k fs) (hi : i < k) :
    ∃ d, fs.aux.bgDesc[i]? = some (descOf info fs.aux i d) := by
  obtain ⟨d, hd⟩ := h.descs i hi
  refine ⟨d, hd.trans ?_⟩
  rw [h.aux]
  rfl

theorem queueGroup_run (info : FsInfo) (i : Nat) (fs : Fs) (l : List Ext4Error) :
    ∃ backupSb, queueGroup info i (fs, l) = .ok ((), ({ fs with
      aux := { fs.aux with backupSb }
      sparse := fs.sparse ++ groupChunks info fs.aux i }, l)) := by
  unfold queueGroup
  by_cases hsb : ext4BgHasSuperBlock info i = true
  · by_cases hi : i = 0
    · rw [if_pos hsb, if_neg (not_not_intro hi), groupChunks, if_pos hsb,
        if_neg (not_not_intro hi)]
      exact ⟨fs.aux.backupSb, rfl⟩
    · rw [if_pos hsb, if_pos hi, groupChunks, if_pos hsb, if_pos hi, ← List.append_assoc]
      exact ⟨_, rfl⟩
  · rw [if_neg hsb, groupChunks, if_neg hsb, List.append_nil]
    exact ⟨fs.aux.backupSb, rfl⟩

theorem fillInGroup_run {k : Nat} {fs : Fs} (l : List Ext4Error) (h : FilledTo info fs0 k fs)
    {d : Ext2GroupDesc} (hd : fs.aux.bgDesc[k]? = some d) :
    ∃ fs', fillInGroup info k (fs, l) = .ok ((), (fs', l)) ∧ FilledTo info fs0 (k + 1) fs' ∧
      fs'.aux.bgDesc.length = fs.aux.bgDesc.length := by
  obtain ⟨backupSb, hqueue⟩ := queueGroup_run info k fs l
  refine ⟨_, ?_, h.step hd backupSb, by simp⟩
  simp only [fillInGroup, fillInDesc, Run.bind_run, hqueue, Run.read_run, hd, Run.update_run]
  rfl

theorem fillInGroup_meets {k : Nat} {fs : Fs} (l : List Ext4Error) (h : FilledTo info fs0 k fs) :
    Run.Meets bad (fillInGroup info k)
      (fun _ fs' l' => l' = l ∧ FilledTo info fs0 (k + 1) fs') fs l := by
  cases hd : fs.aux.bgDesc[k]? with
  | none =>
    obtain ⟨backupSb, hqueue⟩ := queueGroup_run info k fs l
    simp only [Run.Meets, fillInGroup, fillInDesc, Run.bind_run, hqueue, Run.read_run, hd,
      Run.crash_run]
  | some d =>
    obtain ⟨fs', hrun, hfilled, -⟩ := fillInGroup_run l h hd
    rw [Run.Meets, hrun]
    exact ⟨rfl, hfilled⟩

theorem filledTo_zero (info : FsInfo) (fs : Fs) : FilledTo info fs 0 fs :=
  ⟨rfl, by simp, rfl, rfl, by omega⟩

theorem ext4FillInSb_run (info : FsInfo) (fs : Fs) (l : List Ext4Error)
    (hroom : fs.aux.groups ≤ fs.aux.bgDesc.length) :
    ∃ fs', ext4FillInSb info (fs, l) = .ok ((), (fs', l)) := by
  simp only [ext4FillInSb, Run.bind_run, Run.update_run, Run.read_run]
  change ∃ fs', Run.each (List.range fs.aux.groups) (fillInGroup info)
    ({ fs with aux := { fs.aux with sb := superBlockOf info fs.aux } }, l) = _
  let fs0 : Fs := { fs with aux := { fs.aux with sb := superBlockOf info fs.aux } }
  have hloop : ∃ fs', Run.each (List.range fs.aux.groups) (fillInGroup info) (fs0, l) =
      .ok ((), (fs', l)) ∧ FilledTo info fs0 fs.aux.groups fs' ∧
      fs'.aux.bgDesc.length = fs.aux.bgDesc.length := by
    refine Run.each_range_run (fun k s => FilledTo info fs0 k s ∧
      s.aux.bgDesc.length = fs.aux.bgDesc.length) ?_ ⟨filledTo_zero info _, rfl⟩
    rintro k hk s ⟨hs, hlen⟩
    obtain ⟨s', hrun, hs', hlen'⟩ := fillInGroup_run l hs
      (List.getElem?_eq_getElem (show k < s.aux.bgDesc.length by omega))
    exact ⟨s', hrun, hs', hlen'.trans hlen⟩
  obtain ⟨fs', hrun, -⟩ := hloop
  exact ⟨fs', hrun⟩

theorem ext4FillInSb_meets (info : FsInfo) (fs : Fs) (l : List Ext4Error) :
    Run.Meets bad (ext4FillInSb info) (fun _ fs' l' => l' = l ∧
      FilledTo info { fs with aux := { fs.aux with sb := superBlockOf info fs.aux } }
        fs.aux.groups fs') fs l := by
  rw [ext4FillInSb, Run.meets_bind, Run.meets_update, Run.meets_bind, Run.meets_read]
  refine Run.meets_each_range (fun k s l' => l' = l ∧
    FilledTo info { fs with aux := { fs.aux with sb := superBlockOf info fs.aux } } k s) ?_ ?_
  · rintro i hi s l' ⟨rfl, hs⟩
    exact fillInGroup_meets bad l' hs
  · exact ⟨rfl, filledTo_zero info _⟩

end Fill

end MakeExt4fs

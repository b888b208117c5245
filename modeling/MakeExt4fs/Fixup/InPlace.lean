import MakeExt4fs.Fixup.SanityPass
import MakeExt4fs.Fixup.Writes
import MakeExt4fs.Layout.Header
import MakeExt4fs.Utils.Reread

namespace MakeExt4fs

open ErrorLog Interrupt Words

-- Where the chunks that ext4_fill_in_sb and ext4_queue_sb queue put the superblock of a group. In
-- the block of the first one there is room for a boot sector.
def SbQueued (info : FsInfo) (chunks : List Chunk) (i pos : Nat) : Prop :=
  if i = 0 then
    (.data .sbBlock info.blockSize.val 0 ∈ chunks ∧ pos = 1024) ∨
      (.data .sb 1024 1 ∈ chunks ∧ pos = info.blockSize.val)
  else ∃ b, .data (.backupSb i) info.blockSize.val b ∈ chunks ∧ pos = b * info.blockSize.val

structure ImageLaidOut (info : FsInfo) (aux : FsAuxInfo) (chunks : List Chunk) (v : Volume) (d : Disk)
    (descs : Buffer) : Prop where
  settled : Settled info
  blockSize : info.blockSize.val = 1024 ∨ info.blockSize.val = 2048 ∨ info.blockSize.val = 4096
  init : ext4InitFsAuxInfo info = some aux
  groups_pos : 0 < aux.groups
  inodeTable_pos : 0 < aux.inodeTableBlocks
  header_le : ∀ i < aux.groups, headerLen info aux i ≤ info.blocksPerGroup.val
  lenBlocks_le : aux.lenBlocks ≤ 4294967296
  groups_le : aux.firstDataBlock + aux.groups * info.blocksPerGroup.val ≤ 4294967296
  filled : ∃ fs fs1 fs2 l, fs.aux = aux ∧ fs.sparse = [] ∧
    ext4FillInSb info (fs, l) = .ok ((), (fs1, l)) ∧
    ext4QueueSb info (fs1, l) = .ok ((), (fs2, l)) ∧ fs2.sparse = chunks ∧
    ∀ i < aux.groups, ∃ desc, fs1.aux.bgDesc[i]? = some desc ∧
      (bgInodeBitmap i).get descs = desc.bgInodeBitmap ∧
      (bgInodeTable i).get descs = desc.bgInodeTable
  parsed : ∃ old, ext4ParseSb (superBlockOf info aux) old = some v.info
  parsedAux : ext4InitFsAuxInfo v.info = some { v.aux with sb := .zero }
  inodesCount : sInodesCount.get (d.view 1024 1024) = (superBlockOf info aux).sInodesCount
  inodesPerGroup : sInodesPerGroup.get (d.view 1024 1024) = (superBlockOf info aux).sInodesPerGroup

structure OnlyInPlace (info : FsInfo) (aux : FsAuxInfo) (chunks : List Chunk) (descs : Buffer)
    (written : List (Nat × Buffer)) : Prop where
  nothingElse : ∀ w ∈ written,
    (∃ i < aux.groups, SbQueued info chunks i w.1 ∧ w.2.size = 1024) ∨
    (∃ n b, .data .bgDesc n b ∈ chunks ∧ w.1 = b * info.blockSize.val ∧ w.2.size ≤ n) ∨
    ∃ i < aux.groups, w.1 = (bgInodeBitmap i).get descs * info.blockSize.val ∧
      w.2.size = info.blockSize.val
  spares : ∀ w ∈ written, ∀ i < aux.groups, ∀ b, (bgInodeTable i).get descs ≤ b →
    b < aux.firstDataBlock + (i + 1) * info.blocksPerGroup.val →
      b * info.blockSize.val + info.blockSize.val ≤ w.1 ∨
        w.1 + w.2.size ≤ b * info.blockSize.val

-- Every copy of the superblock and every table is written where it was put.
structure UpdatedInPlace (info : FsInfo) (aux : FsAuxInfo) (chunks : List Chunk) (descs : Buffer)
    (newInodesPerGroup : Nat) (written : List (Nat × Buffer)) : Prop extends
    OnlyInPlace info aux chunks descs written where
  copies : ∀ i < aux.groups, ext4BgHasSuperBlock info i = true → ∀ pos, SbQueued info chunks i pos →
    ∃ sb, (pos, sb) ∈ written ∧ CopyOf newInodesPerGroup i sb
  tables : ∀ n b, .data .bgDesc n b ∈ chunks →
    ∃ table, (b * info.blockSize.val, table) ∈ written

section Geometry

variable {info : FsInfo} {aux : FsAuxInfo} {chunks : List Chunk} {v : Volume} {d : Disk}
  {descs : Buffer}

theorem ImageLaidOut.blockSize_pos (h : ImageLaidOut info aux chunks v d descs) :
    1024 ≤ info.blockSize.val ∧ info.blockSize.val ≤ 4096 := by
  have := h.blockSize
  omega

theorem ImageLaidOut.blocksPerGroup_ge (h : ImageLaidOut info aux chunks v d descs) :
    4 ≤ info.blocksPerGroup.val := by
  have hzero : ext4BgHasSuperBlock info 0 = true := by
    unfold ext4BgHasSuperBlock
    split <;> rfl
  have hpos := h.inodeTable_pos
  have hle := h.header_le 0 h.groups_pos
  rw [headerLen, if_pos hzero, superblockBlocks] at hle
  omega

theorem ImageLaidOut.recovered (h : ImageLaidOut info aux chunks v d descs) :
    Recovered info aux.lenBlocks v.info := by
  obtain ⟨old, hparse⟩ := h.parsed
  have hbpg := h.settled.blocksPerGroup
  have hlen : aux.lenBlocks ≤ info.lenBlocks := by
    rw [lenBlocks_of_init hbpg h.init]
    split
    · exact Nat.div_mul_le_self _ _
    · exact le_rfl
  obtain ⟨info', hparse', hrec⟩ := ext4ParseSb_superBlockOf h.settled h.blockSize hlen old
  obtain rfl : v.info = info' := Option.some.inj (hparse.symm.trans hparse')
  exact hrec

theorem ImageLaidOut.hasSuperBlock (h : ImageLaidOut info aux chunks v d descs) (i : Nat) :
    ext4BgHasSuperBlock v.info i = ext4BgHasSuperBlock info i := by
  simp only [ext4BgHasSuperBlock, h.recovered.featRoCompat]

theorem ImageLaidOut.firstDataBlock (h : ImageLaidOut info aux chunks v d descs) :
    v.aux.firstDataBlock = aux.firstDataBlock ∧
      aux.firstDataBlock = if info.blockSize.val > 1024 then 0 else 1 := by
  obtain ⟨hf, -⟩ := ext4InitFsAuxInfo_some h.init
  obtain ⟨hf', -⟩ := ext4InitFsAuxInfo_some h.parsedAux
  have hsame := h.recovered.geometry.1
  exact ⟨hf'.trans (hsame.trans hf.symm), hf⟩

theorem ImageLaidOut.counted_whole (h : ImageLaidOut info aux chunks v d descs)
    (hlong : ¬ info.lastGroupShort = true) :
    v.aux.groups = aux.groups ∧ numBlockGroups v = aux.groups ∧
      v.aux.bgDescBlocks = aux.bgDescBlocks := by
  have hbpg := h.blocksPerGroup_ge
  have hmul := info.blocksPerGroup.isLt
  have hf := info.firstDataBlock_le
  have hlt := info.lenBlocks_lt
  have hrec := h.recovered
  have hpos := h.groups_pos
  obtain ⟨-, -, hgroups, htable, hdesc⟩ := ext4InitFsAuxInfo_some h.init
  obtain ⟨-, hlen', hgroups', -, hdesc'⟩ := ext4InitFsAuxInfo_some h.parsedAux
  have hlen := lenBlocks_of_init (by omega) h.init
  rw [if_neg hlong] at hgroups hlen
  rw [hlen] at hrec
  obtain ⟨hall, hdescs, hkeeps⟩ := hrec.unchanged
  rw [hkeeps, if_neg hlong] at hgroups' hlen'
  have hL : 1 ≤ info.lenBlocks := by
    rcases Nat.eq_zero_or_pos info.lenBlocks with hzero | hL
    · have := allGroups_whole (q := 0) (by omega) (hzero.trans (Nat.zero_mul _).symm)
      rw [hgroups, this] at hpos
      exact absurd hpos (lt_irrefl 0)
    · exact hL
  -- A last group of one block would have been dropped.
  have hone : info.firstDataBlock = 1 → info.lenBlocks % info.blocksPerGroup.val ≠ 1 := by
    intro _ hr
    have hlast := h.header_le (aux.groups - 1) (by omega)
    have hindex : sub32 info.allGroups 1 = aux.groups - 1 := by
      rw [← hgroups]
      exact sub32_of_le (by rw [hgroups]; exact u32_lt _) hpos
    have hheader : info.lastHeaderSize = headerLen info aux (aux.groups - 1) := by
      rw [FsInfo.lastHeaderSize, hindex, FsInfo.headerSize, ← htable, ← hdesc]
      exact u32_of_lt (hlast.trans_lt hmul)
    refine hlong (decide_eq_true ⟨?_, ?_⟩) <;> rw [FsInfo.lastGroupSize_eq (by omega), hr]
    · decide
    · rw [hheader, headerLen]
      omega
  have hceil : divRoundUp (info.lenBlocks - info.firstDataBlock) info.blocksPerGroup.val =
      divRoundUp info.lenBlocks info.blocksPerGroup.val := by
    have hdiv := Nat.div_add_mod' info.lenBlocks info.blocksPerGroup.val
    have hmod := Nat.mod_lt info.lenBlocks (show 0 < info.blocksPerGroup.val by omega)
    have hup := le_divRoundUp_mul info.lenBlocks (show 0 < info.blocksPerGroup.val by omega)
    have hdown := divRoundUp_mul_lt info.lenBlocks (show 0 < info.blocksPerGroup.val by omega)
    rcases Nat.le_one_iff_eq_zero_or_eq_one.mp hf with hf | hf
    · rw [hf, Nat.sub_zero]
    · have hne := hone hf
      refine divRoundUp_eq_of (by omega) (by omega) ?_
      by_contra hcon
      have heq : divRoundUp info.lenBlocks info.blocksPerGroup.val * info.blocksPerGroup.val =
        info.lenBlocks - 1 + info.blocksPerGroup.val := by omega
      refine hne ?_
      have hL1 : info.lenBlocks =
          1 + (divRoundUp info.lenBlocks info.blocksPerGroup.val - 1) * info.blocksPerGroup.val := by
        rw [Nat.sub_mul]
        omega
      rw [hL1, Nat.add_mul_mod_self_right, Nat.mod_eq_of_lt (by omega)]
  have hneeded : info.allGroups = u32 (divRoundUp info.lenBlocks info.blocksPerGroup.val) := by
    rw [FsInfo.allGroups_eq (by omega), FsInfo.neededGroups, hceil]
  refine ⟨hgroups'.trans (hall.trans hgroups.symm), ?_, hdesc'.trans (hdescs.trans hdesc.symm)⟩
  rw [numBlockGroups, hgroups, hneeded, show v.aux.lenBlocks = info.lenBlocks from
    hlen'.trans hrec.lenBlocks, hrec.blocksPerGroup, divRoundUp64_eq (by omega)]

theorem ImageLaidOut.counted_dropped (h : ImageLaidOut info aux chunks v d descs)
    (hshort : info.lastGroupShort = true) :
    (v.aux.groups = aux.groups ∧ numBlockGroups v = aux.groups ∨
      v.aux.groups = aux.groups + 1 ∧ numBlockGroups v = aux.groups + 1 ∧
        info.blockSize.val = 1024) ∧ v.aux.bgDescBlocks ≤ aux.bgDescBlocks := by
  have hbpg := h.blocksPerGroup_ge
  have hmul := info.blocksPerGroup.isLt
  have hf := info.firstDataBlock_le
  have hlt := info.lenBlocks_lt
  have hrec := h.recovered
  have hbs := h.blockSize_pos
  have hpos := lastGroupShort_pos (by omega) hshort
  have hmod := Nat.mod_lt info.lenBlocks (show 0 < info.blocksPerGroup.val by omega)
  have hdiv := Nat.div_add_mod' info.lenBlocks info.blocksPerGroup.val
  obtain ⟨-, -, hgroups, htable, hdesc⟩ := ext4InitFsAuxInfo_some h.init
  obtain ⟨-, hlen', hgroups', -, hdesc'⟩ := ext4InitFsAuxInfo_some h.parsedAux
  have hlen := lenBlocks_of_init (by omega) h.init
  have hle := h.lenBlocks_le
  have hgle := h.groups_le
  rw [if_pos hshort] at hgroups hlen
  generalize hq : info.lenBlocks / info.blocksPerGroup.val = q at *
  have hq32 : q < 4294967296 := by
    have := Nat.mul_le_mul_left q hbpg
    omega
  have hwhole : v.info.lenBlocks = q * v.info.blocksPerGroup.val := by
    rw [hrec.lenBlocks, hlen, hrec.blocksPerGroup]
  have hall : v.info.allGroups = q :=
    (allGroups_whole (by rw [hrec.blocksPerGroup]; omega) hwhole).trans (u32_of_lt hq32)
  have hlong : ¬ v.info.lastGroupShort = true := by
    intro hs
    have := lastGroupShort_pos (by rw [hrec.blocksPerGroup]; omega) hs
    rw [hwhole, Nat.mul_mod_left] at this
    exact absurd this (lt_irrefl 0)
  rw [if_neg hlong] at hgroups' hlen'
  have hv : v.aux.groups = q := hgroups'.trans hall
  have hnum : numBlockGroups v = q := by
    rw [numBlockGroups, show v.aux.lenBlocks = q * v.info.blocksPerGroup.val from
      hlen'.trans hwhole, divRoundUp64_eq, divRoundUp_mul_self _ (by rw [hrec.blocksPerGroup]; omega),
      u32_of_lt hq32]
    rw [hrec.blocksPerGroup]
    omega
  have hdescs (hqle : q ≤ info.allGroups) : v.aux.bgDescBlocks ≤ aux.bgDescBlocks := by
    rw [hdesc, show v.aux.bgDescBlocks = v.info.bgDescBlocks from hdesc',
      bgDescBlocks_eq (by rw [hrec.blockSize]; exact hbs.1), bgDescBlocks_eq hbs.1, hall,
      FsInfo.descBlocksFor, FsInfo.descBlocksFor, hrec.blockSize]
    exact divRoundUp_mono _ (Nat.mul_le_mul_right _ hqle)
  by_cases hr : info.lenBlocks % info.blocksPerGroup.val = info.firstDataBlock
  · have hone : info.firstDataBlock = 1 := by omega
    have hallw : info.allGroups = q := by
      rw [FsInfo.allGroups_eq (by omega), FsInfo.neededGroups, ← hr,
        divRoundUp_eq_of (n := q) (by omega) (by omega) (by omega), u32_of_lt hq32]
    have hqpos : 0 < q := by
      by_contra hzero
      obtain rfl : q = 0 := by omega
      rw [hgroups, hallw] at hgle
      have hbig := Nat.mul_le_mul_left (sub32 0 1) hbpg
      simp only [sub32, u32] at hbig hgle
      omega
    rw [hallw, sub32_of_le hq32 hqpos] at hgroups
    refine ⟨.inr ⟨by omega, by omega, ?_⟩, hdescs hallw.ge⟩
    have h1 := h.blockSize
    unfold FsInfo.firstDataBlock at hone
    split at hone
    · omega
    · omega
  · have hpart : info.allGroups = u32 (q + 1) := by
      rw [← hq]
      exact allGroups_part (by omega) (by omega)
    rw [hpart, sub32_u32_succ, u32_of_lt hq32] at hgroups
    refine ⟨.inl ⟨by omega, by omega⟩, hdescs ?_⟩
    rw [hpart, u32_of_lt]
    · omega
    · have := Nat.mul_le_mul_left q hbpg
      omega

theorem ImageLaidOut.counted (h : ImageLaidOut info aux chunks v d descs) :
    (v.aux.groups = aux.groups ∧ numBlockGroups v = aux.groups ∨
      v.aux.groups = aux.groups + 1 ∧ numBlockGroups v = aux.groups + 1 ∧
        info.blockSize.val = 1024) ∧ v.aux.bgDescBlocks ≤ aux.bgDescBlocks := by
  by_cases hshort : info.lastGroupShort = true
  · exact h.counted_dropped hshort
  · obtain ⟨h1, h2, h3⟩ := h.counted_whole hshort
    exact ⟨.inl ⟨h1, h2⟩, h3.le⟩

theorem ImageLaidOut.startBlock (h : ImageLaidOut info aux chunks v d descs) {i : Nat}
    (hi : i < aux.groups) :
    groupStartBlock info aux i = aux.firstDataBlock + i * info.blocksPerGroup.val ∧
      aux.firstDataBlock + (i + 1) * info.blocksPerGroup.val ≤ 4294967296 := by
  have hle := h.groups_le
  have hmul := Nat.mul_le_mul_right info.blocksPerGroup.val (show i + 1 ≤ aux.groups from hi)
  have hbpg := h.blocksPerGroup_ge
  have hend : aux.firstDataBlock + (i + 1) * info.blocksPerGroup.val ≤ 4294967296 := by omega
  refine ⟨?_, hend⟩
  rw [Nat.succ_mul] at hend
  rw [groupStartBlock, u32_of_lt (show i * info.blocksPerGroup.val < 4294967296 by omega),
    u32_of_lt (by omega)]

theorem ImageLaidOut.headerSize (h : ImageLaidOut info aux chunks v d descs) {i : Nat}
    (hi : i < aux.groups) :
    groupHeaderSize info aux i + 2 + aux.inodeTableBlocks ≤ info.blocksPerGroup.val ∧
      (ext4BgHasSuperBlock info i = true →
        1 + aux.bgDescBlocks + info.bgDescReserveBlocks.val = groupHeaderSize info aux i) := by
  have hle := h.header_le i hi
  have hlt := info.blocksPerGroup.isLt
  unfold headerLen superblockBlocks at hle
  unfold groupHeaderSize
  split
  · rename_i hsb
    rw [if_pos hsb] at hle
    rw [u32_of_lt (by omega)]
    exact ⟨by omega, fun _ => rfl⟩
  · rename_i hsb
    rw [if_neg hsb] at hle
    exact ⟨by omega, fun hsb' => absurd hsb' hsb⟩

theorem ImageLaidOut.descsSize_le (h : ImageLaidOut info aux chunks v d descs) :
    aux.bgDescBlocks * info.blockSize.val < 4294967296 := by
  have hbs := h.blockSize_pos
  have hgle := h.groups_le
  have hzero : ext4BgHasSuperBlock info 0 = true := by
    unfold ext4BgHasSuperBlock
    split <;> rfl
  obtain ⟨hheader, hsize⟩ := h.headerSize h.groups_pos
  have hsize := hsize hzero
  obtain ⟨-, -, hgroups, -, hdesc⟩ := ext4InitFsAuxInfo_some h.init
  have hall : info.allGroups ≤ aux.groups + 1 := by
    have hlt : info.allGroups < 4294967296 := u32_lt _
    rw [hgroups]
    split
    · simp only [sub32, u32]
      omega
    · omega
  have hmul := divRoundUp_mul_lt (info.allGroups * 32) (show 0 < info.blockSize.val by omega)
  rw [← show aux.bgDescBlocks = divRoundUp (info.allGroups * 32) info.blockSize.val from
    hdesc.trans (bgDescBlocks_eq hbs.1)] at hmul
  -- Many groups are short ones, and their tables are no longer than they are.
  rcases Nat.lt_or_ge aux.groups 67108864 with hfew | hmany
  · omega
  · have hshort : info.blocksPerGroup.val ≤ 64 := by
      by_contra hcon
      have := Nat.mul_le_mul hmany (show 65 ≤ info.blocksPerGroup.val by omega)
      omega
    have := Nat.mul_le_mul (show aux.bgDescBlocks ≤ 64 by omega) hbs.2
    omega

theorem ImageLaidOut.chunks_eq (h : ImageLaidOut info aux chunks v d descs) :
    chunks = (List.range aux.groups).flatMap (groupChunks info aux) ++
      [if info.blockSize.val > 1024 then .data .sbBlock info.blockSize.val 0
        else .data .sb 1024 1] := by
  obtain ⟨fs, fs1, fs2, l, rfl, hsparse, hfill, hqueue, rfl, -⟩ := h.filled
  obtain ⟨-, hfilled⟩ := (ext4FillInSb_meets (fun _ => False) info fs l).ok hfill
  have hsparse1 : fs1.sparse = (List.range fs.aux.groups).flatMap (groupChunks info fs.aux) := by
    rw [hfilled.sparse, hsparse, List.nil_append]
    rfl
  rw [← hsparse1]
  unfold ext4QueueSb at hqueue
  by_cases hbig : info.blockSize.val > 1024
  · rw [if_pos hbig] at hqueue ⊢
    cases hqueue
    rfl
  · rw [if_neg hbig] at hqueue ⊢
    cases hqueue
    rfl

theorem ImageLaidOut.descs_eq (h : ImageLaidOut info aux chunks v d descs) {i : Nat}
    (hi : i < aux.groups) :
    (bgInodeBitmap i).get descs = aux.firstDataBlock + i * info.blocksPerGroup.val +
        groupHeaderSize info aux i + 1 ∧
      (bgInodeTable i).get descs = aux.firstDataBlock + i * info.blocksPerGroup.val +
        groupHeaderSize info aux i + 2 := by
  obtain ⟨hstart, hend⟩ := h.startBlock hi
  obtain ⟨hheader, -⟩ := h.headerSize hi
  have hpos := h.inodeTable_pos
  obtain ⟨fs, fs1, fs2, l, rfl, -, hfill, -, -, hdescs⟩ := h.filled
  obtain ⟨-, hfilled⟩ := (ext4FillInSb_meets (fun _ => False) info fs l).ok hfill
  obtain ⟨desc, hdesc, hbitmap, htable⟩ := hdescs i hi
  obtain ⟨desc', hdesc'⟩ := hfilled.descs i hi
  obtain rfl := Option.some.inj (hdesc.symm.trans hdesc')
  rw [Nat.succ_mul] at hend
  have hsame : groupStartBlock info { fs.aux with sb := superBlockOf info fs.aux } i =
    groupStartBlock info fs.aux i := rfl
  have hsame' : groupHeaderSize info { fs.aux with sb := superBlockOf info fs.aux } i =
    groupHeaderSize info fs.aux i := rfl
  rw [hbitmap, htable]
  simp only [descOf, hsame, hsame', hstart]
  exact ⟨u32_of_lt (by omega), u32_of_lt (by omega)⟩

theorem ImageLaidOut.sbQueued_iff (h : ImageLaidOut info aux chunks v d descs) {i pos : Nat} :
    SbQueued info chunks i pos ↔ i = 0 ∧ pos = 1024 ∨ i ≠ 0 ∧ i < aux.groups ∧
      ext4BgHasSuperBlock info i = true ∧
      pos = (aux.firstDataBlock + i * info.blocksPerGroup.val) * info.blockSize.val := by
  have hbs := h.blockSize
  have hmem {c : Chunk} : c ∈ chunks ↔ (∃ j < aux.groups, c ∈ groupChunks info aux j) ∨
      c = if info.blockSize.val > 1024 then .data .sbBlock info.blockSize.val 0
        else .data .sb 1024 1 := by
    rw [h.chunks_eq, List.mem_append, List.mem_flatMap, List.mem_singleton]
    simp only [List.mem_range]
  have hgroup {n b j : Nat} {src : Source} (hin : .data src n b ∈ groupChunks info aux j) :
      src = .bgDesc ∨ src = .backupSb j ∧ j ≠ 0 ∧ ext4BgHasSuperBlock info j = true ∧
        b = groupStartBlock info aux j := by
    unfold groupChunks at hin
    split at hin
    · rename_i hsb
      rcases List.mem_append.mp hin with hin | hin
      · split at hin
        · rename_i hj
          cases List.mem_singleton.mp hin
          exact .inr ⟨rfl, hj, hsb, rfl⟩
        · cases hin
      · cases List.mem_singleton.mp hin
        exact .inl rfl
    · cases hin
  unfold SbQueued
  split
  · rename_i hi
    subst hi
    simp only [true_and, ne_eq, not_true_eq_false, false_and, or_false]
    constructor
    · rintro (⟨-, rfl⟩ | ⟨hin, rfl⟩)
      · rfl
      · rcases hmem.mp hin with ⟨j, -, hin⟩ | hin
        · rcases hgroup hin with h1 | ⟨h1, -⟩ <;> cases h1
        · split at hin
          · cases hin
          · omega
    · rintro rfl
      by_cases hbig : info.blockSize.val > 1024
      · exact .inl ⟨hmem.mpr (.inr (if_pos hbig).symm), rfl⟩
      · exact .inr ⟨hmem.mpr (.inr (if_neg hbig).symm), by omega⟩
  · rename_i hi
    simp only [hi, false_and, false_or, ne_eq, not_false_eq_true, true_and]
    constructor
    · rintro ⟨b, hin, rfl⟩
      rcases hmem.mp hin with ⟨j, hj, hin⟩ | hin
      · rcases hgroup hin with h1 | ⟨h1, -, hsb, rfl⟩
        · cases h1
        · obtain rfl := Source.backupSb.inj h1
          exact ⟨hj, hsb, by rw [(h.startBlock hj).1]⟩
      · split at hin <;> cases hin
    · rintro ⟨hlt, hsb, rfl⟩
      refine ⟨_, hmem.mpr (.inl ⟨i, hlt, ?_⟩), rfl⟩
      rw [groupChunks, if_pos hsb, if_pos hi, (h.startBlock hlt).1]
      exact List.mem_append_left _ List.mem_cons_self

theorem ImageLaidOut.tableQueued_iff (h : ImageLaidOut info aux chunks v d descs) {n b : Nat} :
    .data .bgDesc n b ∈ chunks ↔ ∃ i < aux.groups, ext4BgHasSuperBlock info i = true ∧
      n = aux.bgDescBlocks * info.blockSize.val ∧
      b = aux.firstDataBlock + i * info.blocksPerGroup.val + 1 := by
  have hsize := h.descsSize_le
  have hbpg := h.blocksPerGroup_ge
  rw [h.chunks_eq, List.mem_append, List.mem_flatMap, List.mem_singleton]
  simp only [List.mem_range]
  have hnext {i : Nat} (hi : i < aux.groups) : u32 (groupStartBlock info aux i + 1) =
      aux.firstDataBlock + i * info.blocksPerGroup.val + 1 := by
    obtain ⟨hstart, hend⟩ := h.startBlock hi
    rw [Nat.succ_mul] at hend
    rw [hstart, u32_of_lt (by omega)]
  constructor
  · rintro (⟨i, hi, hin⟩ | hin)
    · unfold groupChunks at hin
      split at hin
      · rename_i hsb
        rcases List.mem_append.mp hin with hin | hin
        · split at hin
          · cases List.mem_singleton.mp hin
          · cases hin
        · cases List.mem_singleton.mp hin
          exact ⟨i, hi, hsb, u32_of_lt hsize, hnext hi⟩
      · cases hin
    · split at hin <;> cases hin
  · rintro ⟨i, hi, hsb, rfl, rfl⟩
    refine .inl ⟨i, hi, ?_⟩
    rw [groupChunks, if_pos hsb, u32_of_lt hsize, hnext hi]
    exact List.mem_append_right _ List.mem_cons_self

theorem ImageLaidOut.offsets (h : ImageLaidOut info aux chunks v d descs) {i : Nat}
    (hi : i ≤ aux.groups) :
    sbOffset v i = i * info.blocksPerGroup.val * info.blockSize.val + (if i = 0 then 1024 else 0) ∧
      tableOffset v i = (i * info.blocksPerGroup.val + aux.firstDataBlock + 1) *
        info.blockSize.val := by
  obtain ⟨hbs, hbs'⟩ := h.blockSize_pos
  have hgle := h.groups_le
  have hrec := h.recovered
  have hf := info.firstDataBlock_le
  rw [← (ext4InitFsAuxInfo_some h.init).1] at hf
  have hmul : i * info.blocksPerGroup.val * info.blockSize.val ≤ 4294967296 * 4096 :=
    Nat.mul_le_mul ((Nat.mul_le_mul_right _ hi).trans (by omega)) hbs'
  have hfirst : info.blockSize.val * (aux.firstDataBlock + 1) ≤ 4096 * 2 :=
    Nat.mul_le_mul hbs' (by omega)
  have hgroup : groupOffset v i = i * info.blocksPerGroup.val * info.blockSize.val := by
    rw [groupOffset, hrec.blocksPerGroup, hrec.blockSize, u64_of_lt (by omega)]
  constructor
  · rw [sbOffset, hgroup, u64_of_lt]
    split <;> omega
  · rw [tableOffset, hgroup, h.firstDataBlock.1, hrec.blockSize, u32_of_lt
      (show aux.firstDataBlock + 1 < 4294967296 by omega), u32_of_lt (by omega), u64_of_lt (by omega),
      Nat.add_assoc, Nat.add_mul _ (aux.firstDataBlock + 1), Nat.mul_comm info.blockSize.val]

theorem ImageLaidOut.bitmapOffset (h : ImageLaidOut info aux chunks v d descs) {i : Nat}
    (hi : i < aux.groups) :
    bitmapOffset v descs i = (bgInodeBitmap i).get descs * info.blockSize.val := by
  obtain ⟨hstart, hend⟩ := h.startBlock hi
  obtain ⟨hheader, -⟩ := h.headerSize hi
  have hbs := h.blockSize_pos.2
  rw [MakeExt4fs.bitmapOffset, h.recovered.blockSize, u64_of_lt]
  rw [(h.descs_eq hi).1]
  rw [Nat.succ_mul] at hend
  have := Nat.mul_le_mul (show aux.firstDataBlock + i * info.blocksPerGroup.val +
    groupHeaderSize info aux i + 1 ≤ 4294967296 by omega) hbs
  omega

theorem ImageLaidOut.inodesPerGroup_pos (h : ImageLaidOut info aux chunks v d descs) :
    0 < info.inodesPerGroup.val := by
  have hpos := h.inodeTable_pos
  have hbs := h.blockSize_pos
  rw [(ext4InitFsAuxInfo_some h.init).2.2.2.1, FsInfo.inodeTableBlocks] at hpos
  by_contra hzero
  rw [show info.inodesPerGroup.val = 0 by omega, Nat.zero_mul, divRoundUp32_eq
    (by simp only [u32]; omega)] at hpos
  have hdiv : divRoundUp (u32 0) info.blockSize.val = 0 := Nat.div_eq_of_lt (by simp only [u32]; omega)
  omega

theorem eq_zero_of_added {old new added groups : Nat} (hlt : old < 4294967296)
    (hadded : added + old ≡ new [MOD 4294967296])
    (h : u32 (u32 (old * groups) + u32 ((groups + 1) * added)) = u32 (new * (groups + 1))) :
    old = 0 := by
  have hleft : u32 (old * groups) + u32 ((groups + 1) * added) ≡
      old * groups + (groups + 1) * added [MOD 4294967296] := (u32_modEq _).add (u32_modEq _)
  have hright : old * groups + (groups + 1) * added + old ≡
      new * (groups + 1) [MOD 4294967296] := by
    have hmul := hadded.mul_right (groups + 1)
    have hsum : (added + old) * (groups + 1) = old * groups + (groups + 1) * added + old := by ring
    rwa [hsum] at hmul
  have hzero : old * groups + (groups + 1) * added + old ≡
      old * groups + (groups + 1) * added + 0 [MOD 4294967296] :=
    hright.trans ((modEq_of_u32 h).symm.trans hleft)
  have hold := Nat.ModEq.add_left_cancel' _ hzero
  rw [Nat.ModEq, Nat.zero_mod, Nat.mod_eq_of_lt hlt] at hold
  exact hold

theorem ImageLaidOut.counted_of_added (h : ImageLaidOut info aux chunks v d descs)
    {newInodesPerGroup : Nat} (hadd : InodesAdded v newInodesPerGroup (d.view 1024 1024)) :
    v.aux.groups = aux.groups ∧ numBlockGroups v = aux.groups := by
  rcases h.counted.1 with hsame | ⟨-, hnum, -⟩
  · exact hsame
  · have hpos := h.inodesPerGroup_pos
    rw [InodesAdded, h.inodesCount, h.inodesPerGroup, hnum] at hadd
    have hzero := eq_zero_of_added info.inodesPerGroup.isLt (sub32_add_modEq _ _) hadd
    omega

theorem ImageLaidOut.header_spares (h : ImageLaidOut info aux chunks v d descs) {i pos size : Nat}
    (hi : i < aux.groups)
    (hstart : (aux.firstDataBlock + i * info.blocksPerGroup.val) * info.blockSize.val ≤ pos)
    (hend : pos + size ≤ (aux.firstDataBlock + i * info.blocksPerGroup.val +
      groupHeaderSize info aux i + 2) * info.blockSize.val)
    {j b : Nat} (hj : j < aux.groups) (hb : (bgInodeTable j).get descs ≤ b)
    (hb' : b < aux.firstDataBlock + (j + 1) * info.blocksPerGroup.val) :
    b * info.blockSize.val + info.blockSize.val ≤ pos ∨ pos + size ≤ b * info.blockSize.val := by
  obtain ⟨hheader, -⟩ := h.headerSize hi
  rw [(h.descs_eq hj).2] at hb
  rcases Nat.lt_trichotomy i j with hlt | rfl | hlt
  · refine .inr (hend.trans (Nat.mul_le_mul_right _ ?_))
    have := Nat.mul_le_mul_right info.blocksPerGroup.val (show i + 1 ≤ j from hlt)
    rw [Nat.succ_mul] at this
    omega
  · exact .inr (hend.trans (Nat.mul_le_mul_right _ hb))
  · refine .inl (le_trans ?_ hstart)
    rw [← Nat.succ_mul]
    refine Nat.mul_le_mul_right _ ?_
    have := Nat.mul_le_mul_right info.blocksPerGroup.val (show j + 1 ≤ i from hlt)
    omega

end Geometry

section Update

variable {info : FsInfo} {aux : FsAuxInfo} {chunks : List Chunk} {v : Volume} {d : Disk}
  {descs : Buffer} {newInodesPerGroup : Nat} {written : List (Nat × Buffer)}

theorem ImageLaidOut.site (h : ImageLaidOut info aux chunks v d descs)
    (hgroups : v.aux.groups = aux.groups) (hnum : numBlockGroups v = aux.groups)
    (hplace : 1024 < info.blockSize.val ∨ aux.groups ≤ 1) {w : Nat × Buffer}
    (hsite : Site v descs w) :
    ((∃ i < aux.groups, SbQueued info chunks i w.1 ∧ w.2.size = 1024) ∨
      (∃ n b, .data .bgDesc n b ∈ chunks ∧ w.1 = b * info.blockSize.val ∧ w.2.size ≤ n) ∨
      ∃ i < aux.groups, w.1 = (bgInodeBitmap i).get descs * info.blockSize.val ∧
        w.2.size = info.blockSize.val) ∧
    ∃ i < aux.groups,
      (aux.firstDataBlock + i * info.blocksPerGroup.val) * info.blockSize.val ≤ w.1 ∧
        w.1 + w.2.size ≤ (aux.firstDataBlock + i * info.blocksPerGroup.val +
          groupHeaderSize info aux i + 2) * info.blockSize.val := by
  have hbs := h.blockSize
  have hfirst := h.firstDataBlock.2
  rcases hsite with ⟨i, hi, hpos, hsize⟩ | ⟨i, hi, hsb, ⟨hpos, hsize⟩ | ⟨hpos, hsize⟩⟩
  · rw [hnum] at hi
    rw [h.bitmapOffset hi] at hpos
    rw [h.recovered.blockSize] at hsize
    refine ⟨.inr (.inr ⟨i, hi, hpos, hsize⟩), i, hi, ?_, ?_⟩
    · rw [hpos, (h.descs_eq hi).1]
      exact Nat.mul_le_mul_right _ (by omega)
    · rw [hpos, hsize, (h.descs_eq hi).1, ← Nat.succ_mul]
  · rw [hgroups] at hi
    rw [h.hasSuperBlock] at hsb
    rw [(h.offsets hi.le).1] at hpos
    have hlong := (h.headerSize hi).2 hsb
    have hroom : (aux.firstDataBlock + i * info.blocksPerGroup.val + 3) * info.blockSize.val ≤
        (aux.firstDataBlock + i * info.blocksPerGroup.val + groupHeaderSize info aux i + 2) *
          info.blockSize.val := Nat.mul_le_mul_right _ (by omega)
    by_cases hi0 : i = 0
    · subst hi0
      rw [if_pos rfl, Nat.zero_mul, Nat.zero_mul, Nat.zero_add] at hpos
      refine ⟨.inl ⟨0, hi, h.sbQueued_iff.mpr (.inl ⟨rfl, hpos⟩), hsize⟩, 0, hi, ?_,
        le_trans ?_ hroom⟩ <;> rw [hpos, hfirst, Nat.zero_mul, Nat.add_zero]
      · split <;> omega
      · rw [hsize]
        split <;> omega
    · have hzero : aux.firstDataBlock = 0 := by rw [hfirst, if_pos (by omega)]
      rw [if_neg hi0, Nat.add_zero] at hpos
      have hat : w.1 = (aux.firstDataBlock + i * info.blocksPerGroup.val) * info.blockSize.val := by
        rw [hpos, hzero, Nat.zero_add]
      refine ⟨.inl ⟨i, hi, h.sbQueued_iff.mpr (.inr ⟨hi0, hi, hsb, hat⟩), hsize⟩, i, hi, hat.ge,
        le_trans ?_ hroom⟩
      rw [hat, hsize, Nat.add_mul _ 3]
      omega
  · rw [hgroups] at hi
    rw [h.hasSuperBlock] at hsb
    have hlong := (h.headerSize hi).2 hsb
    have hat : w.1 = (aux.firstDataBlock + i * info.blocksPerGroup.val + 1) *
        info.blockSize.val := by
      rw [hpos, (h.offsets hi.le).2, Nat.add_comm aux.firstDataBlock]
    have hlen : w.2.size ≤ aux.bgDescBlocks * info.blockSize.val := by
      rw [hsize, descsSize, h.recovered.blockSize, Nat.mul_comm]
      exact (u32_le _).trans (Nat.mul_le_mul_right _ h.counted.2)
    refine ⟨.inr (.inl ⟨_, _, h.tableQueued_iff.mpr ⟨i, hi, hsb, rfl, rfl⟩, hat, hlen⟩), i, hi,
      ?_, ?_⟩
    · rw [hat]
      exact Nat.mul_le_mul_right _ (by omega)
    · rw [hat]
      refine (Nat.add_le_add_left hlen _).trans ?_
      rw [← Nat.add_mul]
      exact Nat.mul_le_mul_right _ (by omega)

theorem ImageLaidOut.onlyInPlace (h : ImageLaidOut info aux chunks v d descs)
    (hgroups : v.aux.groups = aux.groups) (hnum : numBlockGroups v = aux.groups)
    (hplace : 1024 < info.blockSize.val ∨ aux.groups ≤ 1)
    (hsites : ∀ w ∈ written, Site v descs w) : OnlyInPlace info aux chunks descs written := by
  refine ⟨fun w hw => (h.site hgroups hnum hplace (hsites w hw)).1, fun w hw j hj b hb hb' => ?_⟩
  obtain ⟨-, i, hi, hstart, hend⟩ := h.site hgroups hnum hplace (hsites w hw)
  exact h.header_spares hi hstart hend hj hb hb'

theorem ImageLaidOut.copy_astray (h : ImageLaidOut info aux chunks v d descs)
    (hmany : 2 ≤ aux.groups) (hbs : info.blockSize.val = 1024) {sb : Buffer}
    (hmem : (sbOffset v 1, sb) ∈ written) : ¬ OnlyInPlace info aux chunks descs written := by
  intro honly
  have hbpg := h.blocksPerGroup_ge
  have hone : aux.firstDataBlock = 1 := by
    rw [h.firstDataBlock.2, if_neg (by omega)]
  have hoff : sbOffset v 1 = info.blocksPerGroup.val * 1024 := by
    rw [(h.offsets (by omega)).1, if_neg (by omega), Nat.one_mul, Nat.add_zero, hbs]
  have hgroup0 : 0 < aux.groups := h.groups_pos
  rcases honly.nothingElse _ hmem with ⟨i, hi, hat, -⟩ | ⟨n, b, hat, hpos, -⟩ | ⟨i, hi, hpos, -⟩
  · rw [hoff] at hat
    rcases h.sbQueued_iff.mp hat with ⟨-, hpos⟩ | ⟨hi0, -, -, hpos⟩
    · omega
    · rw [hbs, hone] at hpos
      have := Nat.le_mul_of_pos_left info.blocksPerGroup.val (Nat.pos_of_ne_zero hi0)
      omega
  · obtain ⟨i, hi, -, -, rfl⟩ := h.tableQueued_iff.mp hat
    simp only [hoff, hbs, hone] at hpos
    rcases Nat.eq_zero_or_pos i with rfl | hi0
    · omega
    · have := Nat.le_mul_of_pos_left info.blocksPerGroup.val hi0
      omega
  · obtain ⟨hheader, -⟩ := h.headerSize hi
    have htable := h.inodeTable_pos
    rw [(h.descs_eq hi).1] at hpos
    simp only [hoff, hbs, hone] at hpos
    rcases Nat.eq_zero_or_pos i with rfl | hi0
    · omega
    · have := Nat.le_mul_of_pos_left info.blocksPerGroup.val hi0
      omega

theorem updatedInPlace_iff {m : Machine} (h : ImageLaidOut info aux chunks v m.device m.bgDesc)
    (hnone : m.written = []) (state : FixupState) :
    (1024 < info.blockSize.val ∨ v.aux.groups ≤ 1 → OnlyInPlace info aux chunks m.bgDesc
      (updateSuperblocksAndBgDesc v false state newInodesPerGroup m).2.written) ∧
    ∀ m', updateSuperblocksAndBgDesc v false state newInodesPerGroup m = (.ok (), m') →
      (UpdatedInPlace info aux chunks m.bgDesc newInodesPerGroup m'.written ↔
        1024 < info.blockSize.val ∨ v.aux.groups ≤ 1) := by
  have hbs := h.blockSize
  have hpos := h.groups_pos
  have hends := @updateSuperblocksAndBgDesc_written v m newInodesPerGroup state hnone
  have honly (hplace : 1024 < info.blockSize.val ∨ v.aux.groups ≤ 1) {written : List (Nat × Buffer)}
      (hsites : ∀ w ∈ written, Site v m.bgDesc w) :
      OnlyInPlace info aux chunks m.bgDesc written := by
    rcases h.counted.1 with ⟨hgroups, hnum⟩ | ⟨hgroups, -, hsmall⟩
    · exact h.onlyInPlace hgroups hnum (by omega) hsites
    · omega
  constructor
  · intro hplace
    refine honly hplace ?_
    unfold Act.Ends at hends
    rcases hrun : updateSuperblocksAndBgDesc v false state newInodesPerGroup m with ⟨e | a, m'⟩ <;>
      rw [hrun] at hends
    · exact hends
    · obtain ⟨-, sb, hplacing⟩ := hends
      exact hplacing.site le_rfl
  · intro m' hrun
    obtain ⟨hadd, sb, hplacing⟩ := hends.ok hrun
    obtain ⟨hgroups, hnum⟩ := h.counted_of_added hadd
    constructor
    · intro hall
      by_contra hcon
      have hsb : ext4BgHasSuperBlock v.info 1 = true := by
        unfold ext4BgHasSuperBlock
        split
        · rfl
        · rw [if_pos (.inr rfl)]
      obtain ⟨copy, hmem, -⟩ := hplacing.copies 1 (by omega) hsb
      exact h.copy_astray (by omega) (by omega) hmem hall.toOnlyInPlace
    · intro hplace
      refine ⟨honly hplace (hplacing.site le_rfl), fun i hi hsb pos hat => ?_, fun n b hat => ?_⟩
      · obtain ⟨copy, hmem, hcopy⟩ := hplacing.copies i (by omega) (by rw [h.hasSuperBlock, hsb])
        rw [(h.offsets hi.le).1] at hmem
        rcases h.sbQueued_iff.mp hat with ⟨rfl, rfl⟩ | ⟨hi0, -, -, rfl⟩
        · rw [if_pos rfl, Nat.zero_mul, Nat.zero_mul, Nat.zero_add] at hmem
          exact ⟨copy, hmem, hcopy⟩
        · have hzero : aux.firstDataBlock = 0 := by
            rw [h.firstDataBlock.2, if_pos (by omega)]
          rw [if_neg hi0, Nat.add_zero] at hmem
          rw [hzero, Nat.zero_add]
          exact ⟨copy, hmem, hcopy⟩
      · obtain ⟨i, hi, hsb, -, rfl⟩ := h.tableQueued_iff.mp hat
        obtain ⟨table, hmem, -⟩ := hplacing.tables i (by omega) (by rw [h.hasSuperBlock, hsb])
        rw [(h.offsets hi.le).2, Nat.add_comm (i * _)] at hmem
        exact ⟨table, hmem⟩

end Update

section Example

-- make_ext4fs -b 1024 -g 128 -i 32 -J on 229 blocks: two groups.
def smallBlocksRequest : FsRequest :=
  ⟨234496, 1024, 128, 32, 0, 0, 0, [], true, List.replicate 16 0⟩

def smallBlocksInfo : FsInfo :=
  ⟨234496, 1024, 128, 16, 256, 32, 0, 19, 24, 66, 63, 0, [], true, List.replicate 16 0⟩

def smallBlocksAux : FsAuxInfo :=
  ⟨.zero, [none, none], List.replicate 32 .zero, [], [], 1, 229, 4, 2, 1, 128, 256, 65536, 0⟩

def smallBlocksImage : Disk := imageOf 234496
  [(1024, 4, 32), (1064, 4, 16), (2052, 4, 67), (2056, 4, 68), (2084, 4, 195), (2088, 4, 196)]

def largeBlocksRequest : FsRequest :=
  ⟨468992, 2048, 128, 32, 0, 0, 0, [], true, List.replicate 16 0⟩

def largeBlocksInfo : FsInfo :=
  ⟨468992, 2048, 128, 16, 256, 32, 0, 19, 24, 66, 31, 0, [], true, List.replicate 16 0⟩

def largeBlocksAux : FsAuxInfo :=
  ⟨.zero, [none, none], List.replicate 64 .zero, [], [], 0, 229, 2, 2, 1, 128, 512, 262144, 0⟩

def largeBlocksImage : Disk := imageOf 468992
  [(1024, 4, 32), (1064, 4, 16), (2052, 4, 34), (2056, 4, 35), (2084, 4, 162), (2088, 4, 163)]

def volumeOf (info : FsInfo) (aux : FsAuxInfo) : Volume :=
  ⟨{ info with label := List.replicate 16 0 }, aux⟩

def loaded (image : Disk) : Machine :=
  { Machine.start image none with bgDesc := image.view 2048 1024 }

theorem smallBlocks_laidOut : ∃ chunks, ImageLaidOut smallBlocksInfo smallBlocksAux chunks
    (volumeOf smallBlocksInfo smallBlocksAux) smallBlocksImage (loaded smallBlocksImage).bgDesc := by
  refine ⟨_, settleInfo_settled (rfl : settleInfo smallBlocksRequest none = .ok smallBlocksInfo),
    .inl rfl, rfl, by decide, by decide, by decide, by decide, by decide,
    ⟨⟨smallBlocksAux, [], [], []⟩, _, _, [], rfl, rfl, rfl, rfl, rfl, fun i hi => ?_⟩,
    ⟨smallBlocksInfo, rfl⟩, rfl, by decide +kernel, by decide +kernel⟩
  rcases (show i = 0 ∨ i = 1 from Nat.le_one_iff_eq_zero_or_eq_one.mp (Nat.le_of_lt_succ hi))
    with rfl | rfl <;> exact ⟨_, rfl, by decide +kernel, by decide +kernel⟩

theorem largeBlocks_laidOut : ∃ chunks, ImageLaidOut largeBlocksInfo largeBlocksAux chunks
    (volumeOf largeBlocksInfo largeBlocksAux) largeBlocksImage (loaded largeBlocksImage).bgDesc := by
  refine ⟨_, settleInfo_settled (rfl : settleInfo largeBlocksRequest none = .ok largeBlocksInfo),
    .inr (.inl rfl), rfl, by decide, by decide, by decide, by decide, by decide,
    ⟨⟨largeBlocksAux, [], [], []⟩, _, _, [], rfl, rfl, rfl, rfl, rfl, fun i hi => ?_⟩,
    ⟨largeBlocksInfo, rfl⟩, rfl, by decide +kernel, by decide +kernel⟩
  rcases (show i = 0 ∨ i = 1 from Nat.le_one_iff_eq_zero_or_eq_one.mp (Nat.le_of_lt_succ hi))
    with rfl | rfl <;> exact ⟨_, rfl, by decide +kernel, by decide +kernel⟩

theorem updatedInPlace_largeBlocks : ∃ chunks m',
    updateSuperblocksAndBgDesc (volumeOf largeBlocksInfo largeBlocksAux) false .updatingSb 24
      (loaded largeBlocksImage) = (.ok (), m') ∧
    UpdatedInPlace largeBlocksInfo largeBlocksAux chunks (loaded largeBlocksImage).bgDesc 24
      m'.written := by
  obtain ⟨chunks, h⟩ := largeBlocks_laidOut
  have hok : (match updateSuperblocksAndBgDesc (volumeOf largeBlocksInfo largeBlocksAux) false
      .updatingSb 24 (loaded largeBlocksImage) with
      | (.ok _, _) => true
      | _ => false) = true := by decide +kernel
  split at hok
  · rename_i m' hrun
    have hiff := (updatedInPlace_iff (m := loaded largeBlocksImage) h rfl .updatingSb).2 m' hrun
    exact ⟨chunks, m', hrun, hiff.mpr (.inl (by decide))⟩
  · cases hok

-- Group 1 begins at block 129; its superblock is written at block 128, which is a data block of
-- group 0.
theorem copy_in_data_block : ∃ chunks m',
    ImageLaidOut smallBlocksInfo smallBlocksAux chunks (volumeOf smallBlocksInfo smallBlocksAux)
      smallBlocksImage (loaded smallBlocksImage).bgDesc ∧
    updateSuperblocksAndBgDesc (volumeOf smallBlocksInfo smallBlocksAux) false .updatingSb 20
      (loaded smallBlocksImage) = (.ok (), m') ∧
    (∃ w ∈ m'.written, w.1 = 128 * 1024 ∧ w.2.size = 1024) ∧
    ¬ UpdatedInPlace smallBlocksInfo smallBlocksAux chunks (loaded smallBlocksImage).bgDesc 20
      m'.written := by
  obtain ⟨chunks, h⟩ := smallBlocks_laidOut
  have hok : (match updateSuperblocksAndBgDesc (volumeOf smallBlocksInfo smallBlocksAux) false
      .updatingSb 20 (loaded smallBlocksImage) with
      | (.ok _, m) => decide (∃ w ∈ m.written, w.1 = 128 * 1024 ∧ w.2.size = 1024)
      | _ => false) = true := by decide +kernel
  split at hok
  · rename_i m' hrun
    obtain ⟨w, hw, hpos, hsize⟩ := of_decide_eq_true hok
    refine ⟨chunks, m', h, hrun, ⟨w, hw, hpos, hsize⟩, fun hall => ?_⟩
    have htable : (bgInodeTable 0).get (loaded smallBlocksImage).bgDesc ≤ 128 := by decide +kernel
    rcases hall.spares w hw 0 (by decide) 128 htable (by decide) with hfar | hfar
    · rw [hpos] at hfar
      exact absurd hfar (by decide)
    · rw [hpos, hsize] at hfar
      exact absurd hfar (by decide)
  · cases hok

end Example

end MakeExt4fs

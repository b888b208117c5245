import MakeExt4fs.Allocate.Init

namespace MakeExt4fs

open ErrorLog Words

-- The filesystem that ext4_init_fs_aux_info and block_allocator_init leave, nothing reported.
structure LaidOut (info : FsInfo) (force : Bool) (aux : FsAuxInfo) (fs : Fs) : Prop where
  geometry : ext4InitFsAuxInfo info = some aux
  init : blockAllocatorInit info force (⟨aux, [], [], []⟩, []) = .ok ((), (fs, []))

def FsAuxInfo.groupStart (aux : FsAuxInfo) (info : FsInfo) (i : Nat) : Nat :=
  aux.firstDataBlock + i * info.blocksPerGroup.val

def FsAuxInfo.blocksBelow (aux : FsAuxInfo) (info : FsInfo) (i : Nat) : Nat :=
  min info.blocksPerGroup.val (aux.lenBlocks - aux.groupStart info i)

structure GroupFits (info : FsInfo) (aux : FsAuxInfo) (i : Nat) (bg : BlockGroupInfo) : Prop where
  header : bg.headerBlocks ≤ aux.blocksBelow info i
  free : bg.freeBlocks = aux.blocksBelow info i - bg.headerBlocks
  inside : ∀ k < info.blocksPerGroup.val, bg.blockBitmap.testBit k = false →
    aux.groupStart info i + k < aux.lenBlocks

structure GroupsFit (info : FsInfo) (aux : FsAuxInfo) : Prop where
  some_group : 1 ≤ aux.groups
  last_starts : aux.groupStart info (aux.groups - 1) < aux.lenBlocks
  last_ends : aux.lenBlocks ≤ aux.groupStart info aux.groups
  each_group : ∀ i < aux.groups, ∃ bg, aux.bgs[i]? = some bg ∧ GroupFits info aux i bg

def FsInfo.PartialFits (info : FsInfo) (groups size : Nat) : Prop :=
  info.headerSize (groups - 1) ≤ size ∧
    info.firstDataBlock + groups * info.blocksPerGroup.val < 4294967296

def FsInfo.TailFits (info : FsInfo) : Prop :=
  if info.lastGroupShort then
    2 ≤ info.neededGroups ∧ info.neededGroups ≤ 4294967296 ∧
      info.lenBlocks % info.blocksPerGroup.val ≠ info.firstDataBlock ∧
      (info.firstDataBlock = 0 ∨
        info.PartialFits (info.neededGroups - 1) (info.blocksPerGroup.val - 1))
  else
    1 ≤ info.neededGroups ∧ info.neededGroups < 4294967296 ∧
      ((info.lenBlocks - info.firstDataBlock) % info.blocksPerGroup.val = 0 ∨
        info.PartialFits info.neededGroups
          ((info.lenBlocks - info.firstDataBlock) % info.blocksPerGroup.val))

section Tail

variable {info : FsInfo} {aux : FsAuxInfo} {fs : Fs} {force : Bool}

theorem headerBlocks_eq (h : ext4InitFsAuxInfo info = some aux) (i : Nat) :
    headerBlocks info aux i = info.headerSize i := by
  obtain ⟨-, -, -, htable, hdesc⟩ := ext4InitFsAuxInfo_some h
  simp only [headerBlocks, superblockBlocks, FsInfo.headerSize, htable, hdesc]

theorem LaidOut.exists (force : Bool) (hgeo : ext4InitFsAuxInfo info = some aux)
    (hhdr : ∀ i < aux.groups, headerBlocks info aux i ≤ info.blocksPerGroup.val) :
    ∃ fs, LaidOut info force aux fs := by
  obtain ⟨fs, hrun, -⟩ := blockAllocatorInit_run info force ⟨aux, [], [], []⟩ [] hhdr
  exact ⟨fs, hgeo, hrun⟩

theorem groupEnd_full {bpg hdr start len : Nat} (h : start + bpg ≤ len) :
    groupEnd bpg hdr (u32 start) len = bpg := by
  have := u32_le (u32 start + bpg)
  have := u32_le start
  rw [groupEnd, if_neg (by omega)]

theorem groupEnd_of_overrun {bpg hdr start len : Nat} (hbpg : bpg ≤ 2147483648) (hstart : start < len)
    (hpart : len < start + bpg) (hhdr : hdr ≤ len - start) :
    groupEnd bpg hdr (u32 start) len = if start + bpg < 4294967296 then len - start else bpg := by
  have hstop : u32 (u32 start + bpg) = (start + bpg) % 4294967296 := by
    simp only [u32]
    omega
  split
  · rw [groupEnd, hstop, if_pos (by omega)]
    omega
  · rw [groupEnd, hstop, if_neg (by omega)]

theorem groupFits_iff {i : Nat} {bg : BlockGroupInfo} (hbpg : info.blocksPerGroup.val ≤ 2147483648)
    (hbg : SetUp info aux i bg) (hhdr : headerBlocks info aux i ≤ info.blocksPerGroup.val)
    (hstart : aux.groupStart info i < aux.lenBlocks) :
    GroupFits info aux i bg ↔ aux.groupStart info (i + 1) ≤ aux.lenBlocks ∨
      headerBlocks info aux i ≤ aux.lenBlocks - aux.groupStart info i ∧
        aux.groupStart info (i + 1) < 4294967296 := by
  have hheader : bg.headerBlocks = headerBlocks info aux i :=
    BlockGroupInfo.headerBlocks_of_frame hbg.frame
  have hnext : aux.groupStart info (i + 1) = aux.groupStart info i + info.blocksPerGroup.val := by
    simp only [FsAuxInfo.groupStart]
    ring
  have hfree := hbg.free
  have hlimit : groupLimit info aux i = groupEnd info.blocksPerGroup.val (headerBlocks info aux i)
    (u32 (aux.groupStart info i)) aux.lenBlocks := rfl
  rw [hnext]
  by_cases hfull : aux.groupStart info i + info.blocksPerGroup.val ≤ aux.lenBlocks
  · rw [groupEnd_full hfull] at hlimit
    refine iff_of_true ⟨?_, ?_, ?_⟩ (Or.inl hfull)
    · rw [hheader, FsAuxInfo.blocksBelow]
      omega
    · rw [hheader, hfree, hlimit, FsAuxInfo.blocksBelow]
      omega
    · intro k hk _
      omega
  · have hbelow : aux.blocksBelow info i = aux.lenBlocks - aux.groupStart info i := by
      rw [FsAuxInfo.blocksBelow]
      omega
    rw [or_iff_right hfull]
    constructor
    · rintro ⟨h1, h2, -⟩
      rw [hbelow, hheader] at h1 h2
      refine ⟨h1, ?_⟩
      rw [groupEnd_of_overrun hbpg hstart (by omega) h1] at hlimit
      by_contra hword
      rw [if_neg hword] at hlimit
      omega
    · rintro ⟨h1, h2⟩
      rw [groupEnd_of_overrun hbpg hstart (by omega) h1, if_pos h2] at hlimit
      refine ⟨by omega, by omega, ?_⟩
      intro k hk hclear
      rw [hbg.sound.bits k, decide_eq_false_iff_not] at hclear
      omega

theorem groupsFit_iff_last (hbpg : info.blocksPerGroup.val ≤ 2147483648)
    (hset : ∀ i < aux.groups, ∃ bg, aux.bgs[i]? = some bg ∧ SetUp info aux i bg)
    (hhdr : ∀ i < aux.groups, headerBlocks info aux i ≤ info.blocksPerGroup.val) :
    GroupsFit info aux ↔ 1 ≤ aux.groups ∧ aux.groupStart info (aux.groups - 1) < aux.lenBlocks ∧
      aux.lenBlocks ≤ aux.groupStart info aux.groups ∧
      (aux.groupStart info aux.groups ≤ aux.lenBlocks ∨
        headerBlocks info aux (aux.groups - 1) ≤
            aux.lenBlocks - aux.groupStart info (aux.groups - 1) ∧
          aux.groupStart info aux.groups < 4294967296) := by
  have hmono : ∀ {i j : Nat}, i ≤ j → aux.groupStart info i ≤ aux.groupStart info j :=
    fun h => Nat.add_le_add_left (Nat.mul_le_mul_right _ h) _
  constructor
  · rintro ⟨h1, h2, h3, h4⟩
    obtain ⟨bg, hbg, hfits⟩ := h4 (aux.groups - 1) (by omega)
    obtain ⟨bg', hbg', hsetup⟩ := hset (aux.groups - 1) (by omega)
    obtain rfl : bg = bg' := Option.some.inj (hbg.symm.trans hbg')
    have hlast := (groupFits_iff hbpg hsetup (hhdr _ (by omega)) h2).mp hfits
    rw [Nat.sub_add_cancel h1] at hlast
    exact ⟨h1, h2, h3, hlast⟩
  · rintro ⟨h1, h2, h3, h4⟩
    refine ⟨h1, h2, h3, fun i hi => ?_⟩
    obtain ⟨bg, hbg, hsetup⟩ := hset i hi
    refine ⟨bg, hbg, ?_⟩
    have hstart := hmono (show i ≤ aux.groups - 1 by omega)
    rw [groupFits_iff hbpg hsetup (hhdr i hi) (by omega)]
    by_cases hlast : i + 1 = aux.groups
    · have hi' : i = aux.groups - 1 := by omega
      rw [hlast, hi']
      exact h4
    · have hnext := hmono (show i + 1 ≤ aux.groups - 1 by omega)
      exact Or.inl (by omega)

theorem tail_arith {b n f g G len h : Nat} (hb : b = 8192 ∨ b = 16384 ∨ b = 32768) (hf : f ≤ 1)
    (hn : f ≤ n) (hlarge : n < 9223372036854775808) (hg : g = divRoundUp (n - f) b) (short : Prop)
    [Decidable short] (hshort : short → 0 < n % b)
    (hG : G = if short then sub32 (u32 g) 1 else u32 g)
    (hlen : len = if short then n - n % b else n) (header : Nat → Nat) (hh : h = header (G - 1)) :
    (1 ≤ G ∧ f + (G - 1) * b < len ∧ len ≤ f + G * b ∧
      (f + G * b ≤ len ∨ h ≤ len - (f + (G - 1) * b) ∧ f + G * b < 4294967296)) ↔
    if short then
      2 ≤ g ∧ g ≤ 4294967296 ∧ n % b ≠ f ∧
        (f = 0 ∨ header (g - 1 - 1) ≤ b - 1 ∧ f + (g - 1) * b < 4294967296)
    else
      1 ≤ g ∧ g < 4294967296 ∧ ((n - f) % b = 0 ∨
        header (g - 1) ≤ (n - f) % b ∧ f + g * b < 4294967296) := by
  subst hh
  by_cases hs : short
  · have hpos := hshort hs
    simp only [if_pos hs] at hG hlen ⊢
    have hcount : (1 ≤ G ∧ f + (G - 1) * b < len ∧ len ≤ f + G * b) ↔
        2 ≤ g ∧ g ≤ 4294967296 ∧ n % b ≠ f ∧ G = g - 1 := by
      simp only [divRoundUp, sub32, u32] at hg hG
      rcases hb with rfl | rfl | rfl <;> omega
    constructor
    · rintro ⟨h1, h2, h3, h4⟩
      obtain ⟨c1, c2, c3, rfl⟩ := hcount.mp ⟨h1, h2, h3⟩
      refine ⟨c1, c2, c3, ?_⟩
      generalize header (g - 1 - 1) = x at h4 ⊢
      simp only [divRoundUp] at hg
      rcases hb with rfl | rfl | rfl <;> omega
    · rintro ⟨c1, c2, c3, c4⟩
      have hGg : G = g - 1 := by
        simp only [sub32, u32] at hG
        omega
      obtain ⟨h1, h2, h3⟩ := hcount.mpr ⟨c1, c2, c3, hGg⟩
      refine ⟨h1, h2, h3, ?_⟩
      subst hGg
      generalize header (g - 1 - 1) = x at c4 ⊢
      simp only [divRoundUp] at hg
      rcases hb with rfl | rfl | rfl <;> omega
  · simp only [if_neg hs] at hG hlen ⊢
    rw [hlen]
    have hcount : (1 ≤ G ∧ f + (G - 1) * b < n ∧ n ≤ f + G * b) ↔
        1 ≤ g ∧ g < 4294967296 ∧ G = g := by
      simp only [divRoundUp, u32] at hg hG
      rcases hb with rfl | rfl | rfl <;> omega
    constructor
    · rintro ⟨h1, h2, h3, h4⟩
      obtain ⟨c1, c2, rfl⟩ := hcount.mp ⟨h1, h2, h3⟩
      refine ⟨c1, c2, ?_⟩
      generalize header (G - 1) = x at h4 ⊢
      simp only [divRoundUp] at hg
      rcases hb with rfl | rfl | rfl <;> omega
    · rintro ⟨c1, c2, c4⟩
      have hGg : G = g := by rw [hG, u32_of_lt c2]
      obtain ⟨h1, h2, h3⟩ := hcount.mpr ⟨c1, c2, hGg⟩
      refine ⟨h1, h2, h3, ?_⟩
      subst hGg
      generalize header (G - 1) = x at c4 ⊢
      simp only [divRoundUp] at hg
      rcases hb with rfl | rfl | rfl <;> omega

theorem groupsFit_iff_tailFits (hbs : info.blockSize.val = 1024 ∨ info.blockSize.val = 2048 ∨
      info.blockSize.val = 4096) (hbpg : info.blocksPerGroup.val = 8 * info.blockSize.val)
    (h : LaidOut info force aux fs) : GroupsFit info fs.aux ↔ info.TailFits := by
  obtain ⟨hgeo, hrun⟩ := h
  obtain ⟨hfdb, hlen, hgroups, -, -⟩ := ext4InitFsAuxInfo_some hgeo
  obtain ⟨hhdr, hinit⟩ := blockAllocatorInit_ok hrun
  have haux := hinit.aux
  have hhdr' : ∀ i < fs.aux.groups, headerBlocks info fs.aux i ≤ info.blocksPerGroup.val := by
    rw [haux]
    exact hhdr
  have hset : ∀ i < fs.aux.groups, ∃ bg, fs.aux.bgs[i]? = some bg ∧ SetUp info fs.aux i bg := by
    intro i hi
    rw [haux] at hi
    exact hinit.setUp hi (hhdr i hi)
  have hcases : info.blocksPerGroup.val = 8192 ∨ info.blocksPerGroup.val = 16384 ∨
      info.blocksPerGroup.val = 32768 := by omega
  have hf : info.firstDataBlock ≤ 1 := by
    unfold FsInfo.firstDataBlock
    split <;> omega
  have hlarge : info.lenBlocks < 9223372036854775808 :=
    lt_of_le_of_lt (Nat.div_le_self _ _) info.len.isLt
  have hsize : info.lastGroupSize = info.lenBlocks % info.blocksPerGroup.val :=
    u32_of_lt ((Nat.mod_lt _ (by omega)).trans info.blocksPerGroup.isLt)
  have hshort : info.lastGroupShort = true → 0 < info.lenBlocks % info.blocksPerGroup.val := by
    intro hs
    rw [← hsize]
    exact (of_decide_eq_true hs).1
  rw [groupsFit_iff_last (by omega) hset hhdr']
  have hheader : headerBlocks info fs.aux (fs.aux.groups - 1) =
      info.headerSize (fs.aux.groups - 1) := by
    rw [haux]
    exact headerBlocks_eq hgeo _
  rw [hheader]
  have hgroups' : fs.aux.groups =
      if info.lastGroupShort then sub32 info.allGroups 1 else info.allGroups := by
    rw [haux]
    exact hgroups
  have hlen' : fs.aux.lenBlocks = if info.lastGroupShort then
      info.lenBlocks - info.lenBlocks % info.blocksPerGroup.val else info.lenBlocks := by
    rw [haux, ← hsize, ← sub64_of_le (by omega) (hsize ▸ Nat.mod_le _ _)]
    exact hlen
  have hstart : ∀ i, fs.aux.groupStart info i =
      info.firstDataBlock + i * info.blocksPerGroup.val := by
    intro i
    rw [FsAuxInfo.groupStart, haux, hfdb]
  simp only [hstart]
  by_cases hn : info.firstDataBlock ≤ info.lenBlocks
  · rw [FsInfo.allGroups_eq hn] at hgroups'
    exact tail_arith hcases hf hn hlarge rfl (info.lastGroupShort = true) hshort hgroups' hlen'
      info.headerSize rfl
  · have hzero : info.lenBlocks = 0 ∧ info.firstDataBlock = 1 := by omega
    have hnot : ¬ info.lastGroupShort = true := by
      intro hs
      have := hshort hs
      rw [hzero.1, Nat.zero_mod] at this
      exact absurd this (by decide)
    have hnone : info.allGroups = 0 := by
      rw [FsInfo.allGroups, hzero.1, hzero.2]
      rcases hcases with h | h | h <;> rw [h] <;> decide
    rw [if_neg hnot, hnone] at hgroups'
    have hneed : info.neededGroups = 0 := by
      rw [FsInfo.neededGroups, hzero.1, hzero.2]
      rcases hcases with h | h | h <;> rw [h] <;> decide
    refine iff_of_false (fun h => by omega) ?_
    rw [FsInfo.TailFits, if_neg hnot, hneed]
    omega

end Tail

-- make_ext4fs -b 1024 -l 8193k: one full group after block 0, and not a block more.
def oneGroupRequest : FsRequest :=
  ⟨8193 * 1024, 1024, 0, 0, 0, 0, 0, [], false, List.replicate 16 0⟩

def oneGroupInfo : FsInfo :=
  ⟨8193 * 1024, 1024, 8192, 1024, 256, 2048, 1024, 19, 28, 66, 63, 0, [], false,
    List.replicate 16 0⟩

-- The last group's size counts block 0, so the only group looks one block long and is dropped.
theorem one_full_group_is_dropped :
    settleInfo oneGroupRequest none = .ok oneGroupInfo ∧ oneGroupInfo.blockSize.val = 1024 ∧
      oneGroupInfo.blocksPerGroup.val = 8 * oneGroupInfo.blockSize.val ∧
      ∃ aux fs, LaidOut oneGroupInfo false aux fs ∧ ¬ GroupsFit oneGroupInfo fs.aux := by
  refine ⟨rfl, rfl, rfl, ?_⟩
  obtain ⟨aux, haux, hgroups⟩ : ∃ aux, ext4InitFsAuxInfo oneGroupInfo = some aux ∧
      aux.groups = 0 := ⟨_, rfl, by decide⟩
  obtain ⟨fs, hfs⟩ := LaidOut.exists false haux (by omega)
  refine ⟨aux, fs, hfs, fun hfits => ?_⟩
  have hpos := hfits.some_group
  rw [(blockAllocatorInit_ok hfs.init).2.aux] at hpos
  exact absurd hpos (by simp [hgroups])

theorem groupsFit_iff_tailFits_of_small :
    ∃ aux fs, LaidOut smallInfo false aux fs ∧
      (GroupsFit smallInfo fs.aux ↔ smallInfo.TailFits) := by
  obtain ⟨aux, haux, hhdr⟩ : ∃ aux, ext4InitFsAuxInfo smallInfo = some aux ∧
      ∀ i < aux.groups, headerBlocks smallInfo aux i ≤ smallInfo.blocksPerGroup.val :=
    ⟨_, rfl, by decide⟩
  obtain ⟨fs, hfs⟩ := LaidOut.exists false haux hhdr
  exact ⟨aux, fs, hfs, groupsFit_iff_tailFits (Or.inr (Or.inr rfl)) rfl hfs⟩

end MakeExt4fs

import MakeExt4fs.Allocate.Blocks
import MakeExt4fs.Utils.Fs

namespace MakeExt4fs

open ErrorLog Words

def superblockBlocks (info : FsInfo) (aux : FsAuxInfo) : Nat :=
  1 + aux.bgDescBlocks + info.bgDescReserveBlocks.val

def headerBlocks (info : FsInfo) (aux : FsAuxInfo) (i : Nat) : Nat :=
  u32 (2 + aux.inodeTableBlocks +
    if ext4BgHasSuperBlock info i then superblockBlocks info aux else 0)

def firstBlock (info : FsInfo) (aux : FsAuxInfo) (i : Nat) : Nat :=
  u32 (aux.firstDataBlock + i * info.blocksPerGroup.val)

def bitmapsBlock (info : FsInfo) (aux : FsAuxInfo) (i : Nat) : Nat :=
  u32 (firstBlock info aux i +
    if ext4BgHasSuperBlock info i then superblockBlocks info aux else 0)

def freshBg (info : FsInfo) (aux : FsAuxInfo) (i : Nat) : BlockGroupInfo where
  firstBlock := firstBlock info aux i
  headerBlocks := headerBlocks info aux i
  dataBlocksUsed := 0
  hasSuperblock := ext4BgHasSuperBlock info i
  blockBitmap := 0
  inodeBitmap := 0
  inodeTable := none
  freeBlocks := info.blocksPerGroup.val
  firstFreeBlock := 0
  freeInodes := info.inodesPerGroup.val
  firstFreeInode := 1
  flags := ext4BgInodeUninit
  usedDirs := 0

def reserveOverrun (force : Bool) (blocksPerGroup lenBlocks : Nat) :
    Run Ext4Error BlockGroupInfo Unit := do
  let bg ← Run.read
  let stop := u32 (bg.firstBlock + blocksPerGroup)
  if stop > lenBlocks then
    let overrun := u32 (stop - lenBlocks)
    -- The source drops the result of this call.
    let _ ← BlockGroupInfo.reserveBlocks force (sub32 blocksPerGroup overrun) overrun

-- The two reservations of init_bg: the header, then what overruns the end of the filesystem.
def reserveHeader (force : Bool) (blocksPerGroup lenBlocks i : Nat) :
    Run Ext4Error BlockGroupInfo Unit := do
  let bg ← Run.read
  let r ← BlockGroupInfo.reserveBlocks force bg.firstFreeBlock bg.headerBlocks
  if r < 0 then
    Run.raise force (.failedToReserve bg.headerBlocks i)
  reserveOverrun force blocksPerGroup lenBlocks

def initBg (info : FsInfo) (force : Bool) (i : Nat) : Build Unit := do
  let fs ← Run.read
  sparseFileAddData (.bitmaps i) (u32 (2 * info.blockSize.val)) (bitmapsBlock info fs.aux i)
  onAux <| onGroup i do
    Run.write (freshBg info fs.aux i)
    reserveHeader force info.blocksPerGroup.val fs.aux.lenBlocks i

def blockAllocatorInit (info : FsInfo) (force : Bool) : Build Unit := do
  Run.update fun fs =>
    { fs with aux := { fs.aux with bgs := List.replicate fs.aux.groups .zero } }
  let fs ← Run.read
  Run.each (List.range fs.aux.groups) (initBg info force)

section Reserve

variable {bpg hdr lim len i : Nat} {bg : BlockGroupInfo}

-- Where the blocks that init_bg leaves free end: at the end of the filesystem when it sees an
-- overrun that does not reach into the header, else at the end of the group.
def groupEnd (bpg hdr first lenBlocks : Nat) : Nat :=
  if lenBlocks < u32 (first + bpg) ∧ u32 (first + bpg) - lenBlocks ≤ bpg - hdr then
    bpg - (u32 (first + bpg) - lenBlocks)
  else bpg

def BlockGroupInfo.Fresh (bpg : Nat) (bg : BlockGroupInfo) : Prop :=
  bg.blockBitmap = 0 ∧ bg.freeBlocks = bpg ∧ bg.firstFreeBlock = 0

theorem BlockGroupInfo.Fresh.sound (h : bg.Fresh bpg) : bg.Sound bpg 0 bpg := by
  obtain ⟨hbits, hfree, hfirst⟩ := h
  refine ⟨?_, by omega, by omega, le_rfl, by omega⟩
  intro k
  simp only [hbits, hfirst, Nat.zero_testBit]
  rw [eq_comm, decide_eq_false_iff_not]
  omega

theorem BlockGroupInfo.Sound.reserveTail (h : bg.Sound bpg hdr bpg) (force : Bool) {n : Nat}
    (l : List Ext4Error) (hpos : 0 < n) (hn : n ≤ bg.freeBlocks) (hbpg : bpg < 4294967296) :
    ∃ bg', BlockGroupInfo.reserveBlocks force (sub32 bpg n) n (bg, l) = .ok (0, (bg', l)) ∧
      bg'.Sound bpg hdr (bpg - n) ∧ bg'.freeBlocks = bg.freeBlocks - n ∧
      bg'.frame = bg.frame := by
  have hfree := h.free
  have hhdr := h.hdr_le
  have hfirst := h.first_le
  have hle : n ≤ bpg := by omega
  rw [sub32_of_le hbpg hle, reserveBlocks_run force l hn]
  · refine ⟨_, rfl, ⟨?_, ?_, ?_, by omega, ?_⟩, rfl, rfl⟩
    · intro k
      simp only [Nat.testBit_or, h.bits k, testBit_spanMask]
      rw [← Bool.decide_or]
      congr 1
      apply propext
      split <;> omega
    · simp only
      split <;> omega
    · simp only
      split <;> omega
    · simp only
      split <;> omega
  · intro k h1 h2
    rw [h.bits k, decide_eq_false_iff_not]
    omega

theorem reserveOverrun_run (len : Nat) (h : bg.Sound bpg hdr bpg) (force : Bool)
    (l : List Ext4Error)
    (hbpg : bpg < 4294967296) (hfirst : bg.firstFreeBlock = hdr) :
    ∃ bg', reserveOverrun force bpg len (bg, l) = .ok ((), (bg', l)) ∧
      bg'.Sound bpg hdr (groupEnd bpg hdr bg.firstBlock len) ∧
      bg'.freeBlocks = groupEnd bpg hdr bg.firstBlock len - hdr ∧ bg'.frame = bg.frame := by
  have hfree := h.free
  rw [hfirst] at hfree
  simp only [reserveOverrun, Run.bind_run, Run.read_run]
  by_cases hover : len < u32 (bg.firstBlock + bpg)
  · have hstop := u32_lt (bg.firstBlock + bpg)
    have hword : u32 (u32 (bg.firstBlock + bpg) - len) = u32 (bg.firstBlock + bpg) - len :=
      u32_of_lt (by omega)
    rw [if_pos hover, hword, Run.bind_run]
    by_cases hfit : u32 (bg.firstBlock + bpg) - len ≤ bpg - hdr
    · obtain ⟨bg', hrun, hs, hleft, hf⟩ := h.reserveTail (n := u32 (bg.firstBlock + bpg) - len)
        force l (by omega) (by omega) hbpg
      rw [hrun, groupEnd, if_pos ⟨hover, hfit⟩]
      exact ⟨bg', rfl, hs, by omega, hf⟩
    · rw [BlockGroupInfo.reserveBlocks_refused force l (by omega), groupEnd,
        if_neg fun hc => hfit hc.2]
      exact ⟨bg, rfl, h, hfree, rfl⟩
  · have hend : groupEnd bpg hdr bg.firstBlock len = bpg := if_neg fun hc => hover hc.1
    rw [hend, if_neg hover]
    exact ⟨bg, rfl, h, hfree, rfl⟩

theorem reserveHeader_run (len i : Nat) (hfresh : bg.Fresh bpg) (force : Bool)
    (l : List Ext4Error) (hbpg : bpg < 4294967296) (hhdr : bg.headerBlocks ≤ bpg) :
    ∃ bg', reserveHeader force bpg len i (bg, l) = .ok ((), (bg', l)) ∧
      bg'.Sound bpg bg.headerBlocks (groupEnd bpg bg.headerBlocks bg.firstBlock len) ∧
      bg'.freeBlocks = groupEnd bpg bg.headerBlocks bg.firstBlock len - bg.headerBlocks ∧
      bg'.frame = bg.frame := by
  have hsound := hfresh.sound
  have hfree : bg.headerBlocks ≤ bg.freeBlocks := hfresh.2.1 ▸ hhdr
  have htaken : (bg.take bg.headerBlocks).Sound bpg bg.headerBlocks bpg :=
    (hsound.take hfree).raise (Nat.le_add_left _ _)
  obtain ⟨bg', hrun, hs, hleft, hf⟩ := reserveOverrun_run len htaken force l hbpg
    (by rw [BlockGroupInfo.take, hfresh.2.2, Nat.zero_add])
  refine ⟨bg', ?_, hs, hleft, hf⟩
  have hneg : ¬(0 : Int) < 0 := by decide
  simp only [reserveHeader, Run.bind_run, Run.read_run, hsound.reserve force l hfree,
    if_neg hneg]
  exact hrun

theorem reserveOverrun_quiet (force : Bool) :
    Run.Quiet (fun _ => False) (reserveOverrun force bpg len) (fun _ _ => False) := by
  apply Run.Quiet.read_bind
  intro bg
  simp only
  split
  · exact (Run.Quiet.bind (BlockGroupInfo.reserveBlocks_quiet force _ _) (R := fun _ _ => True)
      fun _ => Run.Quiet.pure fun _ _ => trivial).absurd.pre fun _ h => h.2
  · exact Run.Quiet.pure fun _ h => h.2

theorem reserveHeader_quiet (force : Bool) :
    Run.Quiet (fun b => b.freeBlocks < b.headerBlocks) (reserveHeader force bpg len i)
      (fun _ _ => False) := by
  apply Run.Quiet.read_bind
  intro bg
  refine Run.Quiet.bind ((BlockGroupInfo.reserveBlocks_quiet force _ _).pre ?_) fun r => ?_
  · rintro s ⟨rfl, h⟩
    exact h
  · simp only
    split
    · exact Run.Quiet.bind (Q := fun _ _ => False) Run.Quiet.raise fun _ =>
        reserveOverrun_quiet force
    · rename_i hr
      refine (reserveOverrun_quiet force).pre ?_
      rintro s ⟨rfl, -⟩
      exact hr (by decide)

end Reserve

def bitmapsChunk (info : FsInfo) (aux : FsAuxInfo) (i : Nat) : Chunk :=
  .data (.bitmaps i) (u32 (2 * info.blockSize.val)) (bitmapsBlock info aux i)

def groupLimit (info : FsInfo) (aux : FsAuxInfo) (i : Nat) : Nat :=
  groupEnd info.blocksPerGroup.val (headerBlocks info aux i) (firstBlock info aux i) aux.lenBlocks

structure SetUp (info : FsInfo) (aux : FsAuxInfo) (i : Nat) (bg : BlockGroupInfo) : Prop where
  sound : bg.Sound info.blocksPerGroup.val (headerBlocks info aux i) (groupLimit info aux i)
  free : bg.freeBlocks = groupLimit info aux i - headerBlocks info aux i
  frame : bg.frame = (freshBg info aux i).frame

structure Made (info : FsInfo) (aux : FsAuxInfo) (i : Nat) (bg : BlockGroupInfo) : Prop where
  setUp : headerBlocks info aux i ≤ info.blocksPerGroup.val → SetUp info aux i bg
  frame : bg.frame = (freshBg info aux i).frame

theorem SetUp.made {info : FsInfo} {aux : FsAuxInfo} {i : Nat} {bg : BlockGroupInfo}
    (h : SetUp info aux i bg) : Made info aux i bg := ⟨fun _ => h, h.frame⟩

theorem initBg_run (info : FsInfo) (force : Bool) {i : Nat} {fs : Fs} (l : List Ext4Error)
    (hi : i < fs.aux.bgs.length)
    (hhdr : headerBlocks info fs.aux i ≤ info.blocksPerGroup.val) :
    ∃ bg, SetUp info fs.aux i bg ∧ initBg info force i (fs, l) = .ok ((), ({ fs with
      aux := fs.aux.setBg i bg
      sparse := fs.sparse ++ [bitmapsChunk info fs.aux i] }, l)) := by
  obtain ⟨bg, hrun, hs, hleft, hf⟩ := reserveHeader_run fs.aux.lenBlocks i
    (show (freshBg info fs.aux i).Fresh info.blocksPerGroup.val from ⟨rfl, rfl, rfl⟩) force l
    info.blocksPerGroup.isLt hhdr
  refine ⟨bg, ⟨hs, hleft, hf⟩, ?_⟩
  simp only [initBg, Run.bind_run, Run.read_run, sparseFileAddData, sparseFileAdd,
    Run.update_run, onAux, onGroup, Run.zoom, List.getElem?_eq_getElem hi, Run.write_run, hrun]
  rfl

structure InitTo (info : FsInfo) (fs0 : Fs) (k : Nat) (fs : Fs) : Prop where
  aux : fs.aux = { fs0.aux with bgs := fs.aux.bgs }
  length : fs.aux.bgs.length = fs0.aux.groups
  sparse : fs.sparse = fs0.sparse ++ (List.range k).map (bitmapsChunk info fs0.aux)
  heap : fs.heap = fs0.heap
  dirs : fs.dirs = fs0.dirs
  groups : ∀ i < k, ∃ bg, fs.aux.bgs[i]? = some bg ∧ Made info fs0.aux i bg

theorem InitTo.step {info : FsInfo} {fs0 fs : Fs} {k : Nat} (h : InitTo info fs0 k fs)
    (hk : k < fs0.aux.groups) {bg : BlockGroupInfo} (hbg : Made info fs.aux k bg) :
    InitTo info fs0 (k + 1) { fs with
      aux := fs.aux.setBg k bg
      sparse := fs.sparse ++ [bitmapsChunk info fs.aux k] } := by
  have hlen := h.length
  refine ⟨?_, ?_, ?_, h.heap, h.dirs, ?_⟩
  · rw [FsAuxInfo.setBg, h.aux]
  · change (fs.aux.bgs.set k bg).length = _
    rw [List.length_set, hlen]
  · rw [h.sparse, List.range_succ, List.map_append, List.append_assoc, h.aux]
    rfl
  · intro i hi
    change ∃ bg', (fs.aux.bgs.set k bg)[i]? = some bg' ∧ Made info fs0.aux i bg'
    by_cases hik : i = k
    · subst hik
      refine ⟨bg, List.getElem?_set_self (by omega), ?_⟩
      rw [h.aux] at hbg
      exact ⟨fun h => ⟨(hbg.setUp h).sound, (hbg.setUp h).free, hbg.frame⟩, hbg.frame⟩
    · rw [List.getElem?_set_ne (by omega)]
      exact h.groups i (by omega)

theorem blockAllocatorInit_run (info : FsInfo) (force : Bool) (fs : Fs) (l : List Ext4Error)
    (hhdr : ∀ i < fs.aux.groups, headerBlocks info fs.aux i ≤ info.blocksPerGroup.val) :
    ∃ fs', blockAllocatorInit info force (fs, l) = .ok ((), (fs', l)) ∧
      InitTo info fs fs.aux.groups fs' := by
  simp only [blockAllocatorInit, Run.bind_run, Run.update_run, Run.read_run]
  change ∃ fs', Run.each (List.range fs.aux.groups) (initBg info force)
    ({ fs with aux := { fs.aux with bgs := List.replicate fs.aux.groups .zero } }, l) = _ ∧ _
  refine Run.each_range_run (InitTo info fs) (fun i hi s hs => ?_) ?_
  · have hlen := hs.length
    have hi' : i < s.aux.bgs.length := by omega
    obtain ⟨bg, hbg, hrun⟩ := initBg_run info force l hi' (by rw [hs.aux]; exact hhdr i hi)
    exact ⟨_, hrun, hs.step hi hbg.made⟩
  · exact ⟨rfl, by simp, by simp, rfl, rfl, by omega⟩

theorem reserveBlocks_frame (force : Bool) (start num : Nat) (bg : BlockGroupInfo)
    (l : List Ext4Error) : Run.Meets (fun _ => False)
      (BlockGroupInfo.reserveBlocks force start num) (fun _ b _ => b.frame = bg.frame) bg l := by
  rw [BlockGroupInfo.reserveBlocks, Run.meets_bind, Run.meets_read]
  split
  · rfl
  · split
    · simp only [Run.meets_bind, Run.meets_write]
      exact Run.meets_raise id rfl
    · simp only [Run.meets_bind, Run.meets_write]
      rfl

theorem reserveHeader_frame (force : Bool) (bpg len i : Nat) (bg : BlockGroupInfo)
    (l : List Ext4Error) : Run.Meets (fun _ => False) (reserveHeader force bpg len i)
      (fun _ b _ => b.frame = bg.frame) bg l := by
  have hoverrun (b : BlockGroupInfo) (l : List Ext4Error) (hb : b.frame = bg.frame) :
      Run.Meets (fun _ => False) (reserveOverrun force bpg len)
        (fun _ b _ => b.frame = bg.frame) b l := by
    rw [reserveOverrun, Run.meets_bind, Run.meets_read]
    simp only
    split
    · rw [Run.meets_bind]
      exact (reserveBlocks_frame force _ _ b l).mono fun _ _ _ h => h.trans hb
    · exact hb
  rw [reserveHeader, Run.meets_bind, Run.meets_read, Run.meets_bind]
  refine (reserveBlocks_frame force _ _ bg l).mono fun r b l h => ?_
  simp only
  split
  · rw [Run.meets_bind]
    exact Run.meets_raise id (hoverrun b _ h)
  · exact hoverrun b l h

theorem initBg_meets (info : FsInfo) (force : Bool) (i : Nat) (fs : Fs) (l : List Ext4Error) :
    Run.Meets (fun _ => False) (initBg info force i)
      (fun _ fs' _ => ∃ bg, Made info fs.aux i bg ∧ fs' = { fs with
        aux := fs.aux.setBg i bg
        sparse := fs.sparse ++ [bitmapsChunk info fs.aux i] }) fs l := by
  by_cases hi : i < fs.aux.bgs.length
  · by_cases hhdr : headerBlocks info fs.aux i ≤ info.blocksPerGroup.val
    · obtain ⟨bg, hbg, hrun⟩ := initBg_run info force l hi hhdr
      rw [Run.Meets, hrun]
      exact ⟨bg, hbg.made, rfl⟩
    · simp only [initBg, Run.meets_bind, Run.meets_read, sparseFileAddData_meets, onAux_meets,
        onGroup_meets, Run.meets_write]
      intro bg _
      refine (reserveHeader_frame force _ _ _ _ _).mono fun _ b _ h => ?_
      exact ⟨b, ⟨fun hle => absurd hle hhdr, h⟩, rfl⟩
  · simp only [initBg, Run.meets_bind, Run.meets_read, sparseFileAddData_meets, onAux_meets,
      onGroup_meets, List.getElem?_eq_none (not_lt.mp hi)]
    intro bg hbg
    cases hbg

theorem blockAllocatorInit_meets (info : FsInfo) (force : Bool) (fs : Fs) (l : List Ext4Error) :
    Run.Meets (fun _ => False) (blockAllocatorInit info force)
      (fun _ fs' _ => InitTo info fs fs.aux.groups fs') fs l := by
  rw [blockAllocatorInit, Run.meets_bind, Run.meets_update, Run.meets_bind, Run.meets_read]
  refine Run.meets_each_range (fun k s _ => InitTo info fs k s) ?_ ?_
  · intro i hi s l' hs
    refine (initBg_meets info force i s l').mono fun _ s' _ h => ?_
    obtain ⟨bg, hbg, rfl⟩ := h
    exact hs.step hi hbg
  · exact ⟨rfl, by simp, by simp, rfl, rfl, by omega⟩

theorem initBg_quiet (info : FsInfo) (force : Bool) (aux : FsAuxInfo) (n i : Nat) :
    Run.Quiet (fun fs => fs.aux = { aux with bgs := fs.aux.bgs } ∧ fs.aux.bgs.length = n)
      (initBg info force i)
      (fun _ fs => (fs.aux = { aux with bgs := fs.aux.bgs } ∧ fs.aux.bgs.length = n) ∧
        headerBlocks info aux i ≤ info.blocksPerGroup.val) := by
  apply Run.Quiet.read_bind
  intro fs
  refine Run.Quiet.bind (sparseFileAddData_quiet (Q := fun _ fs' => fs'.aux = fs.aux ∧
    fs.aux = { aux with bgs := fs.aux.bgs } ∧ fs.aux.bgs.length = n) ?_) fun _ => ?_
  · rintro s ⟨rfl, h⟩
    exact ⟨rfl, h⟩
  refine onAux_quiet fun s0 => Run.Quiet.zoom fun a0 => ?_
  refine Run.Quiet.bind (Run.Quiet.write (Q := fun _ b => b = freshBg info fs.aux i ∧
    a0 = fs.aux ∧ fs.aux = { aux with bgs := fs.aux.bgs } ∧ fs.aux.bgs.length = n) ?_) fun _ => ?_
  · rintro b ⟨-, ha, hs, h⟩
    exact ⟨rfl, ha.trans hs, h⟩
  intro b l r b' hm
  obtain ⟨hl, hshort⟩ := reserveHeader_quiet force b l r b' hm
  refine ⟨hl, ?_⟩
  rintro ⟨rfl, rfl, hfs, hlen⟩
  refine ⟨⟨?_, by simpa using hlen⟩, ?_⟩
  · simp only [FsAuxInfo.setBg]
    rw [hfs]
  · have hhdr : headerBlocks info fs.aux i = headerBlocks info aux i := by rw [hfs]; rfl
    by_contra hlt
    rw [← hhdr] at hlt
    exact hshort (by simpa [freshBg] using hlt)

theorem blockAllocatorInit_ok {info : FsInfo} {force : Bool} {fs fs' : Fs}
    (h : blockAllocatorInit info force (fs, []) = .ok ((), (fs', []))) :
    (∀ i < fs.aux.groups, headerBlocks info fs.aux i ≤ info.blocksPerGroup.val) ∧
      InitTo info fs fs.aux.groups fs' := by
  have hall : ∀ i < fs.aux.groups, headerBlocks info fs.aux i ≤ info.blocksPerGroup.val := by
    have hr := h
    simp only [blockAllocatorInit, Run.bind_run, Run.update_run, Run.read_run] at hr
    have hq := Run.Quiet.each_all fun i (_ : i ∈ List.range fs.aux.groups) =>
      initBg_quiet info force fs.aux fs.aux.groups i
    intro i hi
    exact ((hq _ _ _ _ hr).2 ⟨rfl, by simp⟩).2 i (List.mem_range.mpr hi)
  obtain ⟨fs1, hrun, hinit⟩ := blockAllocatorInit_run info force fs [] hall
  rw [hrun] at h
  simp only [Except.ok.injEq, Prod.mk.injEq, true_and, and_true] at h
  exact ⟨hall, h ▸ hinit⟩

theorem InitTo.setUp {info : FsInfo} {fs0 fs : Fs} {k i : Nat} (h : InitTo info fs0 k fs)
    (hi : i < k) (hhdr : headerBlocks info fs0.aux i ≤ info.blocksPerGroup.val) :
    ∃ bg, fs.aux.bgs[i]? = some bg ∧ SetUp info fs.aux i bg := by
  obtain ⟨bg, hbg, hmade⟩ := h.groups i hi
  refine ⟨bg, hbg, ?_⟩
  rw [h.aux]
  have hs := hmade.setUp hhdr
  exact ⟨hs.sound, hs.free, hs.frame⟩

end MakeExt4fs

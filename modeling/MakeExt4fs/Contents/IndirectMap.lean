import MakeExt4fs.Contents.FirstRegion
import MakeExt4fs.Contents.MakesLinks
import MakeExt4fs.Contents.RegionRuns

namespace MakeExt4fs

open ErrorLog Words

def inodeAllocateIndirect (info : FsInfo) (force : Bool) (inode : InodeRef) (len : Nat) :
    Build Unit := do
  let blockLen := u32 (divRoundUp64 len info.blockSize.val)
  let indirectLen ← onAux (indirectBlocksNeeded blockLen)
  match ← onAux (doInodeAllocateIndirect force blockLen) with
  | none =>
    Run.raise force (.failedExtents len)
  | some alloc =>
    let alloc ← reserveAllIndirectBlocks force alloc blockLen
    let (_, _, r) ← doInodeAttachIndirect info force inode (rewindAlloc alloc) blockLen
    if r ≠ 0 then
      Run.raise force (.failedToAttach "blocks to indirect inode")
    setField inode iFlags 0
    setField inode iBlocksLo (u32 ((blockLen + indirectLen) * info.blockSize.val) / 512)
    setField inode iSizeLo (u32 len)

def PointerAt (new : List Chunk) (heap : List Buffer) (b i v : Nat) : Prop :=
  ∃ id size buf, .data (.heap id 0) size b ∈ new ∧ heap[id]? = some buf ∧ 4 * i + 4 ≤ size ∧
    buf.getLE (4 * i) 4 = v

def Leads (new : List Chunk) (heap : List Buffer) : List Nat → Nat → List Nat → Nat → Prop
  | [], b, path, v => path = [] ∧ v = b
  | i :: rest, b, path, v => ∃ next below, PointerAt new heap b i next ∧
      Leads new heap rest next below v ∧ path = b :: below

def slotOf (n x : Nat) : Nat × List Nat :=
  if x < ext4NdirBlocks then (x, [])
  else
    let x := x - ext4NdirBlocks
    if x < n then (ext4IndBlock, [x])
    else
      let x := x - n
      if x < n * n then (ext4DindBlock, [x / n, x % n])
      else
        let x := x - n * n
        (ext4TindBlock, [x / (n * n), x / n % n, x % n])

def Maps (new : List Chunk) (fs : Fs) (r : InodeRef) (n x : Nat) (path : List Nat) (b : Nat) :
    Prop :=
  Leads new fs.heap (slotOf n x).2 (fs.field r (iBlock (slotOf n x).1)) path b

def Layout.Given (L : Layout) (aux aux' : FsAuxInfo) (b : Nat) : Prop :=
  L.Free aux b ∧ ¬ L.Free aux' b

structure MapsWell (L : Layout) (new : List Chunk) (fs fs' : Fs) (r : InodeRef) (n len : Nat) :
    Prop where
  total : ∀ x < len, ∃ path b, Maps new fs' r n x path b
  distinct : ∀ x < len, ∀ y < len, ∀ path path' b, Maps new fs' r n x path b →
    Maps new fs' r n y path' b → x = y
  inside : ∀ x < len, ∀ path b, Maps new fs' r n x path b → L.Given fs.aux fs'.aux b
  apart : ∀ x < len, ∀ y < len, ∀ path path' b b', Maps new fs' r n x path b →
    Maps new fs' r n y path' b' → b ∉ path'
  used : ∀ b, L.Given fs.aux fs'.aux b →
    ∃ x < len, ∃ path b', Maps new fs' r n x path b' ∧ (b = b' ∨ b ∈ path)

structure TablesOnly (fs fs' : Fs) : Prop where
  same : fs' = { fs with aux := { fs.aux with bgs := fs'.aux.bgs } }
  blocks : fs'.aux.blocks = fs.aux.blocks

namespace TablesOnly

variable {fs fs' : Fs}

theorem heap (h : TablesOnly fs fs') : fs'.heap = fs.heap := by rw [h.same]

theorem sparse (h : TablesOnly fs fs') : fs'.sparse = fs.sparse := by rw [h.same]

theorem xattrs (h : TablesOnly fs fs') : fs'.aux.xattrs = fs.aux.xattrs := by rw [h.same]

theorem blocksPerInd (h : TablesOnly fs fs') : fs'.aux.blocksPerInd = fs.aux.blocksPerInd := by
  rw [h.same]

end TablesOnly

instance : IsPreorder Fs TablesOnly where
  refl _ := ⟨rfl, rfl⟩
  trans _ _ _ h h' := ⟨by rw [h'.same, h.same], h'.blocks.trans h.blocks⟩

section Blocks

variable {L : Layout} {aux aux' : FsAuxInfo} {len left i b : Nat} {bg : BlockGroupInfo}
  {ps : List Piece}

theorem free_congr (h : aux'.blocks = aux.blocks) : L.Free aux' b ↔ L.Free aux b := by
  have hgroup (i : Nat) : (aux'.bgs[i]?).map BlockGroupInfo.blocks =
      (aux.bgs[i]?).map BlockGroupInfo.blocks := by
    have := congrArg (fun l => l[i]?) h
    simpa only [FsAuxInfo.blocks, List.getElem?_map] using this
  have hone {aux aux' : FsAuxInfo} (hgroup : ∀ i : Nat, (aux'.bgs[i]?).map BlockGroupInfo.blocks =
      (aux.bgs[i]?).map BlockGroupInfo.blocks) (hfree : L.Free aux' b) : L.Free aux b := by
    obtain ⟨i, bg, hbg, hge, hlt, hbit⟩ := hfree
    have hsome := hgroup i
    rw [hbg, Option.map_some] at hsome
    obtain ⟨bg', hbg', heq⟩ := Option.map_eq_some_iff.mp hsome.symm
    refine ⟨i, bg', hbg', hge, hlt, ?_⟩
    have hbits := congrArg BlockGroupInfo.blockBitmap heq
    simp only [BlockGroupInfo.blocks] at hbits
    rw [hbits]
    exact hbit
  exact ⟨hone hgroup, hone fun i => (hgroup i).symm⟩

theorem Layout.Keeps.gives (hk : L.Keeps aux) (hbg : aux.bgs[i]? = some bg)
    (hfit : len ≤ bg.freeBlocks) (hlen : 0 < len) :
    L.Free (aux.setBg i (bg.give len)) b ↔
      L.Free aux b ∧ b ∉ Piece.blocks ⟨L.first i + bg.firstFreeBlock, len, i⟩ := by
  have hkeeps := hk.setBg ((hk.group hbg).give hfit)
  have hself := aux.setBg_self (bg.give len) hbg
  have hfree := (hk.group hbg).sound.free
  have hword := L.word i (hk.lt hbg)
  constructor
  · intro hb
    refine ⟨?_, fun hmem => (hk.takes hbg hfit hlen).after b hmem hb⟩
    obtain ⟨j, bg', hbg', hge, hlt⟩ := (L.free_iff hkeeps).mp hb
    refine (L.free_iff hk).mpr ?_
    by_cases hji : j = i
    · subst hji
      obtain rfl := Option.some.inj (hself.symm.trans hbg')
      rw [BlockGroupInfo.give_firstFreeBlock] at hge
      exact ⟨j, bg, hbg, by omega, hlt⟩
    · rw [aux.setBg_ne _ hji] at hbg'
      exact ⟨j, bg', hbg', hge, hlt⟩
  · rintro ⟨hb, hnot⟩
    rw [mem_blocks_iff (by simp only; omega), not_and, not_lt] at hnot
    obtain ⟨j, bg', hbg', hge, hlt⟩ := (L.free_iff hk).mp hb
    refine (L.free_iff hkeeps).mpr ?_
    by_cases hji : j = i
    · subst hji
      obtain rfl := Option.some.inj (hbg.symm.trans hbg')
      have := hnot hge
      exact ⟨j, _, hself, by rw [BlockGroupInfo.give_firstFreeBlock]; simp only at this; omega, hlt⟩
    · exact ⟨j, bg', by rw [aux.setBg_ne _ hji]; exact hbg', hge, hlt⟩

theorem Draws.takes (h : Draws L aux len ps aux' left) (hk : L.Keeps aux) :
    (ps.flatMap Piece.blocks).Nodup ∧ (∀ b ∈ ps.flatMap Piece.blocks, L.Free aux b) ∧
      ∀ b, L.Free aux' b ↔ L.Free aux b ∧ b ∉ ps.flatMap Piece.blocks := by
  induction h with
  | stop aux len => exact ⟨List.nodup_nil, by simp, by simp⟩
  | @draw aux aux' len left i bg ps hbg best free hlen rest ih =>
    have hfit : min len bg.freeBlocks ≤ bg.freeBlocks := Nat.min_le_right _ _
    have hpos : 0 < min len bg.freeBlocks := by omega
    have hgives (b : Nat) := hk.gives (b := b) hbg hfit hpos
    have htakes := hk.takes hbg hfit hpos
    obtain ⟨hnodup, hbefore, hafter⟩ := ih (hk.setBg ((hk.group hbg).give hfit))
    refine ⟨?_, ?_, ?_⟩
    · rw [List.flatMap_cons]
      refine htakes.once.append hnodup ?_
      intro b hb hb'
      exact ((hgives b).mp (hbefore b hb')).2 hb
    · intro b hb
      rw [List.flatMap_cons, List.mem_append] at hb
      exact hb.elim (htakes.before b) fun hb => ((hgives b).mp (hbefore b hb)).1
    · intro b
      rw [hafter, hgives, List.flatMap_cons, List.mem_append, not_or, and_assoc]

theorem getElem?_blocks {p : Piece} {x : Nat} (hx : x < p.len) :
    p.blocks[x]? = some (u32 (p.block + x)) := by
  rw [Piece.blocks, List.getElem?_map, List.getElem?_range hx, Option.map_some]

theorem Piece.length_blocks (p : Piece) : p.blocks.length = p.len := by
  rw [Piece.blocks, List.length_map, List.length_range]

theorem getElem?_pieces {x : Nat} (hx : x < (ps.map Piece.len).sum) :
    (ps.flatMap Piece.blocks)[x]? = some (blockAt ps x) := by
  induction ps generalizing x with
  | nil => cases hx
  | cons p rest ih =>
    rw [List.map_cons, List.sum_cons] at hx
    rw [List.flatMap_cons, blockAt, pieceBlock]
    split
    · rename_i hlt
      rw [List.getElem?_append_left (by rw [Piece.length_blocks]; exact hlt), getElem?_blocks hlt]
      rfl
    · rename_i hge
      rw [List.getElem?_append_right (by rw [Piece.length_blocks]; omega), Piece.length_blocks,
        ih (by omega), blockAt]

end Blocks

section Direct

variable {info : FsInfo} {force : Bool} {r : InodeRef} {alloc alloc' : BlockAllocation}
  {fs fs' : Fs} {l l' : List Ext4Error}

theorem setField_tablesOnly (f : Field) (v : Nat) :
    Run.Advances TablesOnly (setField r f v) := by
  intro fs l a fs' l' hm
  obtain ⟨rfl, b, t, hb, -, -, rfl⟩ := setField_ok.mp hm
  exact ⟨⟨rfl, blocks_withTable hb _⟩, List.prefix_refl _⟩

theorem iBlock_apart {i j : Nat} (h : i ≠ j) : (iBlock j).off + (iBlock j).size ≤ (iBlock i).off ∨
    (iBlock i).off + (iBlock i).size ≤ (iBlock j).off := by
  simp only [iBlock]
  omega

theorem attachBlocks_ok {m : Nat}
    (h : Run.each (List.range m) (fun i => do
      let block ← Run.expect (getBlock alloc i)
      setField r (iBlock i) block) (fs, l) = .ok ((), (fs', l'))) :
    l' = l ∧ TablesOnly fs fs' ∧
      ∀ i < m, ∃ b, getBlock alloc i = some b ∧ fs'.field r (iBlock i) = u32 b := by
  induction m generalizing fs' l' with
  | zero =>
    cases h
    exact ⟨rfl, refl_of TablesOnly fs, fun i hi => absurd hi (Nat.not_lt_zero i)⟩
  | succ m ih =>
    rw [List.range_succ, Run.each_append] at h
    obtain ⟨⟨⟩, ⟨fs1, l1⟩, hbefore, hlast⟩ := Run.bind_ok.mp h
    obtain ⟨rfl, htables, hset⟩ := ih hbefore
    obtain ⟨⟨⟩, ⟨fs2, l2⟩, hone, hend⟩ := Run.bind_ok.mp hlast
    cases hend
    obtain ⟨b, ⟨fs3, l3⟩, hget, hfield⟩ := Run.bind_ok.mp hone
    obtain ⟨hblock, rfl, rfl⟩ := Run.expect_ok hget
    obtain ⟨rfl, -⟩ := setField_ok.mp hfield
    refine ⟨rfl, trans_of TablesOnly htables (setField_tablesOnly _ _ _ _ _ _ _ hfield).1, ?_⟩
    intro i hi
    by_cases him : i = m
    · subst him
      exact ⟨b, hblock, field_setField hfield⟩
    · obtain ⟨c, hc, hold⟩ := hset i (by omega)
      exact ⟨c, hc, by rw [setField_keeps (iBlock_apart him) hfield, hold]⟩

theorem attachDirect_quiet (n : Nat) : Run.Quiet (fun s => s = fs)
    (inodeAttachDirectBlocks force r alloc n) (fun res s => TablesOnly fs s ∧
      res.2.1 = n - min n ext4NdirBlocks ∧
      advanceBlocks alloc (min n ext4NdirBlocks : Nat) = some (res.1, 0) ∧
      ∀ i < min n ext4NdirBlocks, ∃ b, getBlock alloc i = some b ∧
        s.field r (iBlock i) = u32 b) := by
  refine Run.Quiet.bind (Q := fun _ s => TablesOnly fs s ∧ ∀ i < min n ext4NdirBlocks,
    ∃ b, getBlock alloc i = some b ∧ s.field r (iBlock i) = u32 b) ?_ fun _ => ?_
  · intro s l a s' hm
    obtain ⟨hl, htables, hset⟩ := attachBlocks_ok hm
    refine ⟨hl.symm, ?_⟩
    rintro rfl
    exact ⟨htables, hset⟩
  · refine (Run.Quiet.expect _).bind ?_
    rintro ⟨next, res⟩
    refine Run.Quiet.orRaise fun hres => Run.Quiet.pure ?_
    rintro s ⟨hadvance, htables, hset⟩
    rw [not_not.mp hres] at hadvance
    exact ⟨htables, rfl, hadvance, hset⟩

theorem attachStep_quiet {P : Fs → Prop} {Q : Attached → Fs → Prop} {what : String}
    {attach : BlockAllocation → Nat → Build Attached} {count : Nat}
    (h : Run.Quiet P (attach alloc count) Q) :
    Run.Quiet P (attachStep force what attach alloc count)
      (fun res s => res.2.2 = 0 ∧ ∃ r, Q (res.1, res.2.1, r) s) := by
  refine h.bind ?_
  rintro ⟨alloc, count, res⟩
  exact Run.Quiet.orRaise fun _ => Run.Quiet.pure fun s hq => ⟨rfl, res, hq⟩

theorem attachSteps_zero (steps : List (String × (BlockAllocation → Nat → Build Attached)))
    (alloc : BlockAllocation) :
    attachSteps force steps alloc 0 = pure (rewindAlloc alloc, 0, 0) := by
  induction steps with
  | nil => rfl
  | cons step rest ih => rw [attachSteps, if_pos rfl, ih]

end Direct

section Allocating

variable {L : Layout} {info : FsInfo} {force : Bool} {r : InodeRef} {aux : FsAuxInfo}
  {alloc : BlockAllocation} {fs : Fs}

theorem allocateBlocks_quiet (hk : L.Keeps aux) (len : Nat) : Run.Quiet (fun s => s = aux)
    (allocateBlocks force len) (fun found s => ∃ ps, Draws L aux len ps s 0 ∧
      found = if len = 0 then none else some (freshAlloc ps)) := by
  intro s l found s' hm
  refine ⟨((allocateBlocks_blocksOnly len).quiet hm).1, ?_⟩
  rintro rfl
  obtain ⟨ps, aux', left, hdraws, ⟨rfl, -, hrun⟩ | ⟨-, e, -, hrun⟩⟩ :=
    allocateBlocks_run force len l hk
  · rw [hrun] at hm
    cases hm
    exact ⟨ps, hdraws, rfl⟩
  · rw [hrun] at hm
    obtain ⟨⟨⟩, st, hraise, hend⟩ := Run.bind_ok.mp hm
    cases hend
    exact absurd hraise raise_ok_nil

theorem indirectBlocksNeeded_quiet (len : Nat) : Run.Quiet (fun s => s = aux)
    (indirectBlocksNeeded len)
    (fun v s => s = aux ∧ indirectBlocksNeeded len (aux, []) = .ok (v, (aux, []))) := by
  intro s l v s' hm
  obtain ⟨hl, rfl⟩ := (indirectBlocksNeeded_advances (R := Eq) len).quiet hm
  refine ⟨hl, ?_⟩
  rintro rfl
  exact ⟨rfl, hl ▸ hm⟩

theorem indirectBlocksNeeded_short {len : Nat} (h : len ≤ ext4NdirBlocks) :
    indirectBlocksNeeded len (aux, []) = .ok (0, (aux, [])) := by
  rw [indirectBlocksNeeded, Run.bind_run, Run.read_run]
  dsimp only
  rw [if_pos h]
  rfl

theorem doInodeAllocateIndirect_quiet (hk : L.Keeps aux) (len : Nat) :
    Run.Quiet (fun s => s = aux) (doInodeAllocateIndirect force len) (fun found s =>
      ∃ v ps, indirectBlocksNeeded len (aux, []) = .ok (v, (aux, [])) ∧
        Draws L aux (u32 (len + v)) ps s 0 ∧ u32 (len + v) ≠ 0 ∧ found = some (freshAlloc ps)) := by
  refine (indirectBlocksNeeded_quiet len).bind fun v => ?_
  refine Run.Quiet.bind (Q := fun found s => indirectBlocksNeeded len (aux, []) =
      .ok (v, (aux, [])) ∧ ∃ ps, Draws L aux (u32 (len + v)) ps s 0 ∧
        found = if u32 (len + v) = 0 then none else some (freshAlloc ps)) ?_ fun found => ?_
  · intro s l found s' hm
    obtain ⟨hl, hdraws⟩ := allocateBlocks_quiet hk _ s l found s' hm
    exact ⟨hl, fun ⟨hs, hneeded⟩ => ⟨hneeded, hdraws hs⟩⟩
  · cases found with
    | none =>
      exact Run.Quiet.bind (Q := fun _ _ => False) Run.Quiet.raise fun _ =>
        Run.Quiet.pure fun _ => False.elim
    | some alloc =>
      refine Run.Quiet.pure ?_
      rintro s ⟨hneeded, ps, hdraws, hfound⟩
      split at hfound
      · cases hfound
      · rename_i hpos
        exact ⟨v, ps, hneeded, hdraws, hpos, hfound⟩

theorem Draws.positive {aux' : FsAuxInfo} {len left : Nat} {ps : List Piece}
    (h : Draws L aux len ps aux' left) {p : Piece} (hp : p ∈ ps) : 0 < p.len := by
  induction h with
  | stop aux len => cases hp
  | draw hbg best free hlen rest ih =>
    rcases List.mem_cons.mp hp with rfl | hp
    · exact lt_min hlen free
    · exact ih hp

structure FsAuxInfo.Levels (aux : FsAuxInfo) (n : Nat) : Prop where
  some : 0 < n
  few : n ≤ 1024
  ind : aux.blocksPerInd = n
  dind : aux.blocksPerDind = n * n
  tind : aux.blocksPerTind = 0

theorem FsAuxInfo.Levels.square {n : Nat} (h : aux.Levels n) : 0 < n * n ∧ n * n ≤ 1048576 :=
  ⟨Nat.mul_pos h.some h.some, Nat.mul_le_mul h.few h.few⟩

theorem FsAuxInfo.Levels.same {aux' : FsAuxInfo} {n : Nat} (h : aux.Levels n)
    (hb : BlocksOnly aux aux') : aux'.Levels n := by
  refine ⟨h.some, h.few, ?_, ?_, ?_⟩
  all_goals rw [hb.same]
  · exact h.ind
  · exact h.dind
  · exact h.tind

theorem FsAuxInfo.Levels.few_blocks {n len : Nat} {l : List Ext4Error}
    {res : Nat × (FsAuxInfo × List Ext4Error)} (h : aux.Levels n)
    (hres : indirectBlocksNeeded len (aux, l) = .ok res) :
    len ≤ ext4NdirBlocks + n + n * n := by
  by_contra hlen
  rw [indirectBlocksNeeded_crash h.ind h.dind h.tind (not_le.mp hlen)] at hres
  cases hres

theorem reserveAllIndirectBlocks_ok {n len : Nat} {fs' : Fs} {l : List Ext4Error}
    {alloc' : BlockAllocation} (hlevels : fs.aux.Levels n)
    (hfew : len ≤ ext4NdirBlocks + n + n * n)
    (h : reserveAllIndirectBlocks force alloc len (fs, l) = .ok (alloc', (fs', []))) :
    fs' = fs ∧ l = [] ∧ ∃ next, passDirect alloc len = some next ∧
      Performs (allRequests fs.aux len) next alloc' := by
  have hsquare := hlevels.square
  have hsmall := hlevels.few
  have hind := hlevels.ind
  have hdind := hlevels.dind
  have htind := hlevels.tind
  have hsome := hlevels.some
  obtain rfl : fs' = fs := reserveAllIndirectBlocks_keeps (by omega) (by omega) (by omega)
    (by omega) (by omega) (by omega) h
  exact ⟨rfl, (reserveAllIndirectBlocks_quiet (by omega) (by omega) (by omega) (by omega) (by omega)
    (by omega)).mp h⟩

-- The blocks are taken, and those that the indirect blocks need are moved to the other list,
-- before the inode is written to.
structure SetAside (L : Layout) (aux : FsAuxInfo) (len : Nat) (aux' : FsAuxInfo)
    (alloc : BlockAllocation) : Prop where
  blocks : BlocksOnly aux aux'
  keeps : L.Keeps aux'
  short : len ≤ ext4NdirBlocks → ∃ ps, Draws L aux len ps aux' 0 ∧ alloc = freshAlloc ps
  long : ext4NdirBlocks < len → FirstShort alloc

theorem setAside_of_draws {len v : Nat} {ps : List Piece} {aux' : FsAuxInfo}
    {next : BlockAllocation} (hk : L.Keeps aux) (hblocks : BlocksOnly aux aux')
    (hneeded : indirectBlocksNeeded len (aux, []) = .ok (v, (aux, [])))
    (hdraws : Draws L aux (u32 (len + v)) ps aux' 0) (hpos : u32 (len + v) ≠ 0)
    (hpass : passDirect (freshAlloc ps) len = some next)
    (hperforms : Performs (allRequests aux' len) next alloc) : SetAside L aux len aux' alloc := by
  have howns : L.Owns aux' (ps ++ []) := hdraws.owns ⟨hk, by simp, List.Pairwise.nil⟩
  refine ⟨hblocks, howns.keeps, fun hshort => ?_, fun hlong => ?_⟩
  · rw [indirectBlocksNeeded_short hshort] at hneeded
    cases hneeded
    rw [passDirect, if_pos hshort] at hpass
    cases hpass
    rw [allRequests, if_pos hshort] at hperforms
    cases hperforms
    refine ⟨ps, ?_, rfl⟩
    unfold ext4NdirBlocks at hshort
    rwa [Nat.add_zero, u32_of_lt (by omega)] at hdraws
  · cases ps with
    | nil => exact absurd (by simpa using hdraws.sum.symm) hpos
    | cons p rest =>
      exact firstShort_of_reserved (hdraws.positive List.mem_cons_self) hlong hpass hperforms

def BlockBytes (r : InodeRef) (bg i : Nat) : Prop := bg = r.bg ∧ r.off + 40 ≤ i ∧ i < r.off + 100

theorem setField_blockBytes {f : Field} {fs' : Fs} {l l' : List Ext4Error} {v : Nat}
    (hf : f.off + f.size ≤ 40) (h : setField r f v (fs, l) = .ok ((), (fs', l'))) :
    l' = l ∧ TablesOnly fs fs' ∧ KeepsBytes (BlockBytes r) fs fs' := by
  refine ⟨(setField_ok.mp h).1, (setField_tablesOnly _ _ _ _ _ _ _ h).1, ?_⟩
  refine setField_keepsBytes ?_ v _ _ _ _ _ h
  rintro i hge hlt ⟨-, hstart, -⟩
  omega

theorem finishInode_ok {fs' : Fs} {l l' : List Ext4Error} {blocks size : Nat}
    (h : (do
      setField r iFlags 0
      setField r iBlocksLo blocks
      setField r iSizeLo size : Build Unit) (fs, l) = .ok ((), (fs', l'))) :
    l' = l ∧ TablesOnly fs fs' ∧ KeepsBytes (BlockBytes r) fs fs' := by
  obtain ⟨⟨⟩, ⟨fs1, l1⟩, h1, h⟩ := Run.bind_ok.mp h
  obtain ⟨⟨⟩, ⟨fs2, l2⟩, h2, h3⟩ := Run.bind_ok.mp h
  obtain ⟨rfl, htables1, hbytes1⟩ := setField_blockBytes (by decide) h1
  obtain ⟨rfl, htables2, hbytes2⟩ := setField_blockBytes (by decide) h2
  obtain ⟨rfl, htables3, hbytes3⟩ := setField_blockBytes (by decide) h3
  exact ⟨rfl, trans_of TablesOnly htables1 (trans_of TablesOnly htables2 htables3),
    trans_of (KeepsBytes (BlockBytes r)) hbytes1
      (trans_of (KeepsBytes (BlockBytes r)) hbytes2 hbytes3)⟩

theorem inodeAllocateIndirect_ok {n len : Nat} {fs' : Fs} (hk : L.Keeps fs.aux)
    (hlevels : fs.aux.Levels n)
    (h : inodeAllocateIndirect info force r len (fs, []) = .ok ((), (fs', []))) :
    u32 (divRoundUp64 len info.blockSize.val) ≤ ext4NdirBlocks + n + n * n ∧
    ∃ aux' alloc res fs1, SetAside L fs.aux (u32 (divRoundUp64 len info.blockSize.val)) aux' alloc ∧
      doInodeAttachIndirect info force r (rewindAlloc alloc)
        (u32 (divRoundUp64 len info.blockSize.val)) ({ fs with aux := aux' }, []) =
          .ok (res, (fs1, [])) ∧ res.2.2 = 0 ∧
      TablesOnly fs1 fs' ∧ KeepsBytes (BlockBytes r) fs1 fs' := by
  obtain ⟨v, ⟨fs1, l1⟩, hneeded, h⟩ := Run.bind_ok.mp h
  obtain ⟨found, ⟨fs2, l2⟩, hfound, h⟩ := Run.bind_ok.mp h
  obtain ⟨aux1, hcount, rfl⟩ := onAux_ok.mp hneeded
  obtain ⟨aux2, htake, rfl⟩ := onAux_ok.mp hfound
  cases found with
  | none => exact absurd h raise_ok_nil
  | some alloc =>
    obtain ⟨reserved, ⟨fs3, l3⟩, hreserved, h⟩ := Run.bind_ok.mp h
    obtain ⟨⟨a, c, res⟩, ⟨fs4, l4⟩, hattach, h⟩ := Run.bind_ok.mp h
    dsimp only at h
    split at h
    · obtain ⟨⟨⟩, ⟨fs5, l5⟩, hraise, h⟩ := Run.bind_ok.mp h
      obtain ⟨rfl, -⟩ := finishInode_ok h
      exact absurd hraise raise_ok_nil
    · rename_i hres
      obtain ⟨rfl, htables, hbytes⟩ := finishInode_ok h
      -- nothing is in the log at the end, so nothing was in it before
      have hnone : ∀ i < 15, Off (fun _ _ => False) r (iBlock i) := fun _ _ _ _ _ h => h
      obtain ⟨rfl, -⟩ := (doInodeAttachIndirect_fills (L := L) (D := fun _ => True) hnone _ _).quiet
        hattach
      obtain rfl : fs.aux = aux1 :=
        (indirectBlocksNeeded_advances (R := Eq) _).evolves _ _ _ _ _ hcount
      have hblocks := ((doInodeAllocateIndirect_account (L := L) _) _ _ _ _ _ htake).1.blocks
      obtain ⟨rfl, rfl, next, hpass, hperforms⟩ :=
        reserveAllIndirectBlocks_ok (hlevels.same hblocks) (hlevels.few_blocks hcount) hreserved
      obtain ⟨rfl, hdrawn⟩ := doInodeAllocateIndirect_quiet hk _ _ _ _ _ htake
      obtain ⟨w, ps, hneeded, hdraws, hpos, hsome⟩ := hdrawn rfl
      obtain rfl := Option.some.inj hsome
      have haside := setAside_of_draws hk hblocks hneeded hdraws hpos hpass hperforms
      exact ⟨hlevels.few_blocks hcount, aux2, reserved, _, fs4, haside, hattach, not_not.mp hres,
        htables, hbytes⟩

end Allocating

section Short

variable {L : Layout} {info : FsInfo} {force : Bool} {r : InodeRef} {alloc : BlockAllocation}
  {fs fs' : Fs} {ps : List Piece} {n len : Nat}

def indirectSteps (info : FsInfo) (force : Bool) (r : InodeRef) :
    List (String × (BlockAllocation → Nat → Build Attached)) :=
  [("indirect blocks to inode", inodeAttachIndirectBlocks info force r),
    ("dindirect blocks to inode", inodeAttachDindirectBlocks info force r),
    ("tindirect blocks to inode", inodeAttachTindirectBlocks info force r)]

theorem indirectSteps_fills {P : Nat → Nat → Prop} {D : Nat → Prop}
    (hoff : ∀ slot, ext4NdirBlocks ≤ slot → slot < 15 → Off P r (iBlock slot)) :
    ∀ s ∈ indirectSteps info force r, ∀ alloc count,
      Run.Advances (Fills L P D) (s.2 alloc count) := by
  intro s hs
  simp only [indirectSteps, List.mem_cons, List.not_mem_nil, or_false] at hs
  obtain rfl | rfl | rfl := hs
  · exact inodeAttachIndirectBlocks_fills (hoff _ (by decide) (by decide))
  · exact inodeAttachDindirectBlocks_fills (hoff _ (by decide) (by decide))
  · exact inodeAttachTindirectBlocks_fills (hoff _ (by decide) (by decide))

theorem doInodeAttachIndirect_ok {res : Attached} (hk : L.Keeps fs.aux)
    (h : doInodeAttachIndirect info force r alloc len (fs, []) = .ok (res, (fs', [])))
    (hres : res.2.2 = 0) : ∃ alloc1 fs1, L.Keeps fs1.aux ∧ TablesOnly fs fs1 ∧
      advanceBlocks alloc (min len ext4NdirBlocks : Nat) = some (alloc1, 0) ∧
      (∀ i < min len ext4NdirBlocks, ∃ b, getBlock alloc i = some b ∧
        fs1.field r (iBlock i) = u32 b) ∧
      attachSteps force (indirectSteps info force r) alloc1 (len - min len ext4NdirBlocks)
        (fs1, []) = .ok (res, (fs', [])) := by
  have hnone : ∀ i < 15, Off (fun _ _ => False) r (iBlock i) := fun _ _ _ _ _ h => h
  obtain ⟨⟨alloc1, count, r1⟩, ⟨fs1, l1⟩, hdirect, hrest⟩ := Run.bind_ok.mp h
  dsimp only at hrest
  split at hrest
  · cases hrest
    cases hres
  · have hfills : Run.Advances (Fills L (fun _ _ => False) fun _ => True)
        (attachStep force "direct blocks to inode" (inodeAttachDirectBlocks force r) alloc len) :=
      attachStep_fills (inodeAttachDirectBlocks_fills hnone) _ _ _
    have hkeeps := ((hfills _ _ _ _ _ hdirect).1 hk).keeps
    have hsteps : Run.Advances (Fills L (fun _ _ => False) fun _ => True)
        (attachSteps force (indirectSteps info force r) alloc1 count) :=
      attachSteps_fills (indirectSteps_fills fun i _ h15 => hnone i h15) _ _
    obtain ⟨rfl, -⟩ := hsteps.quiet hrest
    obtain ⟨-, hdone⟩ := attachStep_quiet (attachDirect_quiet len) _ _ _ _ hdirect
    obtain ⟨-, r2, htables, rfl, hadvance, hset⟩ := hdone rfl
    exact ⟨alloc1, fs1, hkeeps, htables, hadvance, hset, hrest⟩

theorem doInodeAttachIndirect_short {res : Attached} (hk : L.Keeps fs.aux)
    (hlen : len ≤ ext4NdirBlocks)
    (h : doInodeAttachIndirect info force r alloc len (fs, []) = .ok (res, (fs', [])))
    (hres : res.2.2 = 0) : TablesOnly fs fs' ∧
      ∀ i < len, ∃ b, getBlock alloc i = some b ∧ fs'.field r (iBlock i) = u32 b := by
  obtain ⟨alloc1, fs1, -, htables, -, hset, hrest⟩ := doInodeAttachIndirect_ok hk h hres
  rw [min_eq_left hlen] at hset hrest
  rw [Nat.sub_self, attachSteps_zero] at hrest
  cases hrest
  exact ⟨htables, hset⟩

theorem getBlock_freshAlloc {i : Nat} (hi : i < (ps.map Piece.len).sum) :
    getBlock (freshAlloc ps) i = some (blockAt ps (u32 i)) := by
  have hchain := chain_linkPieces [] none ps []
  rw [List.nil_append, List.append_nil] at hchain
  have hhead : headOf ([] : Arena Region).length ps = (freshAlloc ps).list.iter := by
    cases ps with
    | nil => cases hi
    | cons p rest => rfl
  have hpieces : piecesOf (linkedCells ([] : Arena Region).length none ps) = ps :=
    (linkedCells_map Region.piece id (fun _ _ _ => rfl) 0 none ps).trans (List.map_id ps)
  rw [hhead] at hchain
  have hget := getBlockFrom_of_chain hchain i
  rw [hpieces] at hget
  exact hget

theorem maps_direct {new : List Chunk} {x b : Nat} {path : List Nat} (hx : x < ext4NdirBlocks) :
    Maps new fs r n x path b ↔ path = [] ∧ b = fs.field r (iBlock x) := by
  rw [Maps, slotOf, if_pos hx, Leads]

theorem blockAt_word (ps : List Piece) (x : Nat) : blockAt ps x < 4294967296 := by
  rw [blockAt]
  cases pieceBlock ps x with
  | none => decide
  | some b => exact u32_lt b

theorem mapsWell_of_direct {new : List Chunk} {aux' : FsAuxInfo} (hk : L.Keeps fs.aux)
    (hlen : len ≤ ext4NdirBlocks) (hdraws : Draws L fs.aux len ps aux' 0)
    (hblocks : fs'.aux.blocks = aux'.blocks)
    (hset : ∀ i < len, fs'.field r (iBlock i) = blockAt ps i) :
    MapsWell L new fs fs' r n len := by
  obtain ⟨hnodup, hbefore, hafter⟩ := hdraws.takes hk
  have hsum : (ps.map Piece.len).sum = len := by simpa using hdraws.sum
  have hgiven (b : Nat) : L.Given fs.aux fs'.aux b ↔ b ∈ ps.flatMap Piece.blocks := by
    rw [Layout.Given, free_congr hblocks, hafter]
    constructor
    · rintro ⟨hfree, hgone⟩
      by_contra hb
      exact hgone ⟨hfree, hb⟩
    · exact fun hb => ⟨hbefore b hb, fun h => h.2 hb⟩
  have hat {x : Nat} (hx : x < len) : (ps.flatMap Piece.blocks)[x]? = some (blockAt ps x) :=
    getElem?_pieces (by omega)
  have hmaps {x b : Nat} {path : List Nat} (hx : x < len) :
      Maps new fs' r n x path b ↔ path = [] ∧ b = blockAt ps x := by
    rw [maps_direct (by omega), hset x hx]
  constructor
  · exact fun x hx => ⟨[], blockAt ps x, (hmaps hx).mpr ⟨rfl, rfl⟩⟩
  · intro x hx y hy path path' b hxb hyb
    obtain ⟨-, rfl⟩ := (hmaps hx).mp hxb
    obtain ⟨-, hsame⟩ := (hmaps hy).mp hyb
    refine (List.getElem?_inj ?_ hnodup).mp ((hat hx).trans (hsame ▸ (hat hy).symm))
    rw [length_blocks, hsum]
    exact hx
  · intro x hx path b hxb
    obtain ⟨-, rfl⟩ := (hmaps hx).mp hxb
    exact (hgiven _).mpr (List.mem_of_getElem? (hat hx))
  · intro x hx y hy path path' b b' _ hyb
    obtain ⟨rfl, -⟩ := (hmaps hy).mp hyb
    exact List.not_mem_nil
  · intro b hb
    obtain ⟨x, hx⟩ := List.mem_iff_getElem?.mp ((hgiven b).mp hb)
    have hlt : x < len := by
      have := (List.getElem?_eq_some_iff.mp hx).1
      rwa [length_blocks, hsum] at this
    refine ⟨x, hlt, [], b, (hmaps hlt).mpr ⟨rfl, ?_⟩, Or.inl rfl⟩
    exact Option.some.inj (hx.symm.trans (hat hlt))

theorem BlockBytes.of_field {i bg k : Nat} (hi : i < 15) (h : Field.Bytes r (iBlock i) bg k) :
    BlockBytes r bg k := by
  obtain ⟨rfl, hge, hlt⟩ := h
  simp only [iBlock] at hge hlt
  exact ⟨rfl, by omega, by omega⟩

theorem mapsWell_short {new : List Chunk} (hk : L.Keeps fs.aux) (hlevels : fs.aux.Levels n)
    (h : inodeAllocateIndirect info force r len (fs, []) = .ok ((), (fs', [])))
    (hlen : u32 (divRoundUp64 len info.blockSize.val) ≤ ext4NdirBlocks) :
    MapsWell L new fs fs' r n (u32 (divRoundUp64 len info.blockSize.val)) := by
  obtain ⟨-, aux', alloc, res, fs1, haside, hattach, hres, htables, hbytes⟩ :=
    inodeAllocateIndirect_ok hk hlevels h
  obtain ⟨ps, hdraws, rfl⟩ := haside.short hlen
  obtain ⟨htables1, hset⟩ := doInodeAttachIndirect_short haside.keeps hlen hattach hres
  have hsum : (ps.map Piece.len).sum = u32 (divRoundUp64 len info.blockSize.val) := by
    simpa using hdraws.sum
  refine mapsWell_of_direct hk hlen hdraws (htables.blocks.trans htables1.blocks) fun i hi => ?_
  have hfew : i < 15 := by
    unfold ext4NdirBlocks at hlen
    omega
  obtain ⟨b, hb, hfield⟩ := hset i hi
  have hget : getBlock (freshAlloc ps) i = some b := hb
  rw [getBlock_freshAlloc (by omega), u32_of_lt (by omega)] at hget
  obtain rfl := Option.some.inj hget
  rw [hbytes.field fun bg k => BlockBytes.of_field hfew, hfield, u32_of_lt (blockAt_word ps i)]

end Short

section Long

variable {L : Layout} {info : FsInfo} {force : Bool} {r : InodeRef} {alloc alloc' : BlockAllocation}
  {fs fs' : Fs} {l l' : List Ext4Error} {n len d : Nat}

theorem fillIndirectBlock_ok {m : Nat}
    (h : fillIndirectBlock d m alloc (fs, l) = .ok ((), (fs', l'))) :
    l' = l ∧ ∃ heap, fs' = { fs with heap } ∧ heap.length = fs.heap.length ∧
      ∀ i < m, ∃ b buf, getBlock alloc i = some b ∧ heap[d]? = some buf ∧
        buf.getLE (4 * i) 4 = u32 b := by
  unfold fillIndirectBlock at h
  induction m generalizing fs' l' with
  | zero =>
    cases h
    exact ⟨rfl, fs.heap, rfl, rfl, fun i hi => absurd hi (Nat.not_lt_zero i)⟩
  | succ m ih =>
    rw [List.range_succ, Run.each_append] at h
    obtain ⟨⟨⟩, ⟨fs1, l1⟩, hbefore, hlast⟩ := Run.bind_ok.mp h
    obtain ⟨rfl, heap, rfl, hlength, hset⟩ := ih hbefore
    obtain ⟨⟨⟩, ⟨fs2, l2⟩, hone, hend⟩ := Run.bind_ok.mp hlast
    cases hend
    obtain ⟨b, ⟨fs3, l3⟩, hget, hfield⟩ := Run.bind_ok.mp hone
    obtain ⟨hblock, rfl, rfl⟩ := Run.expect_ok hget
    obtain ⟨buf, buf', hbuf, hpoke, rfl⟩ := onHeap_ok.mp hfield
    obtain ⟨hle, rfl, rfl⟩ := pokeAt_ok.mp hpoke
    have hd := (List.getElem?_eq_some_iff.mp hbuf).1
    refine ⟨rfl, _, rfl, List.length_set.trans hlength, ?_⟩
    intro i hi
    by_cases him : i = m
    · subst him
      exact ⟨b, _, hblock, List.getElem?_set_self hd, Buffer.getLE_putLE _ _ _ _ hle⟩
    · obtain ⟨c, old, hc, hold, hword⟩ := hset i (by omega)
      obtain rfl := Option.some.inj (hbuf.symm.trans hold)
      refine ⟨c, _, hc, List.getElem?_set_self hd, ?_⟩
      rw [Buffer.getLE_putLE_of_apart _ _ _ _ _ _ (by omega), hword]

structure FirstPointer (r : InodeRef) (queued d : Nat) (b : Nat) (fs : Fs) : Prop where
  plain : fs.Plain d
  queued : ∃ size, 4 ≤ size ∧
    .data (.heap d 0) size (fs.field r (iBlock ext4IndBlock)) ∈ fs.sparse.drop queued
  word : ∃ buf, fs.heap[d]? = some buf ∧ buf.getLE 0 4 = b

theorem getBlockFrom_lt {a : Arena Region} {list : RegionList} {i b : Nat}
    (h : getBlockFrom a list i = some b) : b < 4294967296 := by
  simp only [getBlockFrom, Option.bind_eq_bind, Option.bind_eq_some_iff] at h
  obtain ⟨⟨q, place⟩, -, h⟩ := h
  cases q with
  | none =>
    cases h
    decide
  | some q =>
    simp only [Option.bind_eq_some_iff] at h
    obtain ⟨c, -, h⟩ := h
    cases h
    exact u32_lt _

theorem advanceOobBlocks_list {n res : Int} (h : advanceOobBlocks alloc n = some (alloc', res)) :
    alloc'.regions = alloc.regions ∧ alloc'.list = alloc.list := by
  simp only [advanceOobBlocks, Option.bind_eq_bind, Option.bind_eq_some_iff] at h
  obtain ⟨⟨list, r⟩, -, hend⟩ := h
  cases hend
  exact ⟨rfl, rfl⟩

theorem inodeAttachIndirectBlocks_quiet {queued : Nat} (hbs : 4 ≤ info.blockSize.val)
    (hlen : 0 < len) (hword : len < 2147483648) :
    Run.Quiet (fun s => 0 < s.aux.blocksPerInd ∧ queued ≤ s.sparse.length ∧
        ∀ e ∈ s.aux.xattrs, e.2 < s.heap.length)
      (inodeAttachIndirectBlocks info force r alloc len)
      (fun _ s => ∃ d b, getBlock alloc 0 = some b ∧ FirstPointer r queued d (u32 b) s) := by
  intro s l res s' hm
  obtain ⟨s0, st0, hread, hm1⟩ := Run.bind_ok.mp hm
  cases hread
  obtain ⟨block, ⟨s1, l1⟩, hoob, hm2⟩ := Run.bind_ok.mp hm1
  obtain ⟨hblock, rfl, rfl⟩ := Run.expect_ok hoob
  obtain ⟨⟨⟩, ⟨s2, l2⟩, hset, hm3⟩ := Run.bind_ok.mp hm2
  obtain ⟨rfl, -⟩ := setField_ok.mp hset
  have htables := (setField_tablesOnly _ _ _ _ _ _ _ hset).1
  have hfield : s2.field r (iBlock ext4IndBlock) = block :=
    (field_setField hset).trans (u32_of_lt (getBlockFrom_lt hblock))
  obtain ⟨⟨alloc1, r1⟩, ⟨s3, l3⟩, hadvance, hm4⟩ := Run.bind_ok.mp hm3
  obtain ⟨hadvanced, rfl, rfl⟩ := Run.expect_ok hadvance
  dsimp only at hm4
  split at hm4
  · obtain ⟨⟨⟩, ⟨s4, l4⟩, hraise, hend⟩ := Run.bind_ok.mp hm4
    cases hend
    exact absurd hraise raise_ok_nil
  · obtain ⟨d, ⟨s4, l4⟩, hcalloc, hm5⟩ := Run.bind_ok.mp hm4
    obtain ⟨rfl, rfl, rfl⟩ := calloc_ok hcalloc
    obtain ⟨⟨⟩, ⟨s5, l5⟩, hadd, hm6⟩ := Run.bind_ok.mp hm5
    cases hadd
    obtain ⟨alloc2, ⟨s6, l6⟩, hfill, hm7⟩ := Run.bind_ok.mp hm6
    obtain ⟨⟨⟩, ⟨s7, l7⟩, hfilled, hend⟩ := Run.bind_ok.mp hfill
    cases hend
    obtain ⟨rfl, heap, rfl, hlength, hwords⟩ := fillIndirectBlock_ok hfilled
    obtain ⟨⟨alloc3, r3⟩, ⟨s8, l8⟩, hexpect, hm8⟩ := Run.bind_ok.mp hm7
    obtain ⟨-, rfl, rfl⟩ := Run.expect_ok hexpect
    dsimp only at hm8
    split at hm8
    · obtain ⟨⟨⟩, ⟨s9, l9⟩, hraise, hend⟩ := Run.bind_ok.mp hm8
      cases hend
      exact absurd hraise raise_ok_nil
    · cases hm8
      refine ⟨rfl, ?_⟩
      rintro ⟨hper, hqueued, hxattrs⟩
      have hsome : 0 < (s32 (min len s1.aux.blocksPerInd)).toNat := by
        rw [s32_of_lt (by omega), Int.toNat_natCast]
        omega
      obtain ⟨b, buf, hb, hbuf, hword⟩ := hwords 0 hsome
      obtain ⟨hregions, hlist⟩ := advanceOobBlocks_list hadvanced
      refine ⟨_, b, ?_, ⟨⟨?_, ?_⟩, ⟨info.blockSize.val, hbs, ?_⟩, buf, hbuf, hword⟩⟩
      · rwa [getBlock, hregions, hlist] at hb
      · rw [hlength, List.length_append, List.length_singleton]
        exact Nat.lt_succ_self _
      · intro e he
        have hold := hxattrs e (htables.xattrs ▸ he)
        rw [← htables.heap] at hold
        exact hold.ne
      · rw [← htables.sparse] at hqueued
        change _ ∈ (s3.sparse ++ [_]).drop queued
        rw [List.drop_append_of_le_length hqueued, List.mem_append]
        exact Or.inr (by rw [List.mem_singleton, ← hfield]; rfl)

def SlotBytes (r : InodeRef) (n bg i : Nat) : Prop :=
  bg = r.bg ∧ r.off + 40 ≤ i ∧ i < r.off + 40 + 4 * n

theorem slotBytes_off {slot : Nat} (h : n ≤ slot) : Off (SlotBytes r n) r (iBlock slot) := by
  rintro i hge hlt ⟨-, -, hend⟩
  simp only [iBlock] at hge
  omega

theorem SlotBytes.of_field {i bg k : Nat} (hi : i < n) (h : Field.Bytes r (iBlock i) bg k) :
    SlotBytes r n bg k := by
  obtain ⟨rfl, hge, hlt⟩ := h
  simp only [iBlock] at hge hlt
  exact ⟨rfl, by omega, by omega⟩

theorem FirstPointer.frame {queued b : Nat} (h : FirstPointer r queued d b fs)
    (hqueued : queued ≤ fs.sparse.length)
    (ha : LeavesAlone (SlotBytes r (ext4NdirBlocks + 1)) (fun _ => False) fs fs') :
    FirstPointer r queued d b fs' := by
  obtain ⟨hplain, hsame⟩ := ha.heap d h.plain id
  obtain ⟨size, hsize, hmem⟩ := h.queued
  obtain ⟨buf, hbuf, hword⟩ := h.word
  refine ⟨hplain, ⟨size, hsize, ?_⟩, buf, hsame.trans hbuf, hword⟩
  obtain ⟨more, hmore⟩ := ha.queue
  have hfield : fs'.field r (iBlock ext4IndBlock) = fs.field r (iBlock ext4IndBlock) :=
    ha.bytes.field fun bg k => SlotBytes.of_field (by decide)
  rw [hfield, ← hmore, List.drop_append_of_le_length hqueued]
  exact List.mem_append_left _ hmem

theorem attachSteps_first {what : String} {attach : BlockAllocation → Nat → Build Attached}
    {rest : List (String × (BlockAllocation → Nat → Build Attached))} {count : Nat} {res : Attached}
    (hcount : count ≠ 0) (hres : res.2.2 = 0)
    (h : attachSteps force ((what, attach) :: rest) alloc count (fs, []) = .ok (res, (fs', []))) :
    ∃ alloc1 count1 r1 fs1 l1,
      attachStep force what attach alloc count (fs, []) = .ok ((alloc1, count1, r1), (fs1, l1)) ∧
      attachSteps force rest alloc1 count1 (fs1, l1) = .ok (res, (fs', [])) := by
  rw [attachSteps, if_neg hcount] at h
  obtain ⟨⟨alloc1, count1, r1⟩, ⟨fs1, l1⟩, hstep, hrest⟩ := Run.bind_ok.mp h
  dsimp only at hrest
  split at hrest
  · cases hrest
    cases hres
  · exact ⟨alloc1, count1, r1, fs1, l1, hstep, hrest⟩

theorem attach_falls_back {res : Attached} (hk : L.Keeps fs.aux) (hlevels : fs.aux.Levels n)
    (hxattrs : ∀ e ∈ fs.aux.xattrs, e.2 < fs.heap.length) (hbs : 4 ≤ info.blockSize.val)
    (hshort : FirstShort alloc) (hlen : ext4NdirBlocks < len) (hword : len < 2147483648)
    (h : doInodeAttachIndirect info force r (rewindAlloc alloc) len (fs, []) = .ok (res, (fs', [])))
    (hres : res.2.2 = 0) : ∃ k < ext4NdirBlocks, ∃ d,
      FirstPointer r fs.sparse.length d (fs'.field r (iBlock k)) fs' := by
  obtain ⟨alloc1, fs1, hkeeps, htables, hadvance, hset, hrest⟩ := doInodeAttachIndirect_ok hk h hres
  rw [min_eq_right hlen.le] at hadvance hset hrest
  obtain ⟨k, hlt, hregions, -, hiter, hpartial⟩ := hshort.falls_back hadvance
  obtain ⟨b, hb, hdirect⟩ := hset k hlt
  obtain ⟨alloc2, count, r2, fs2, l2, hstep, hrest⟩ := attachSteps_first (by omega) hres hrest
  have hfills : Run.Advances (Fills L (SlotBytes r (ext4NdirBlocks + 1)) fun _ => False)
      (attachSteps force (indirectSteps info force r).tail alloc2 count) := by
    refine attachSteps_fills ?_ alloc2 count
    intro s hs
    simp only [indirectSteps, List.tail_cons, List.mem_cons, List.not_mem_nil, or_false] at hs
    obtain rfl | rfl := hs
    · exact inodeAttachDindirectBlocks_fills (slotBytes_off (by decide))
    · exact inodeAttachTindirectBlocks_fills (slotBytes_off (by decide))
  have hfirst : Run.Advances (Fills L (SlotBytes r ext4NdirBlocks) fun _ => False)
      (attachStep force "indirect blocks to inode" (inodeAttachIndirectBlocks info force r) alloc1
        (len - ext4NdirBlocks)) :=
    attachStep_fills (inodeAttachIndirectBlocks_fills (slotBytes_off le_rfl)) _ _ _
  obtain ⟨rfl, hlater⟩ := hfills.quiet hrest
  have hmade := (hfirst _ _ _ _ _ hstep).1 hkeeps
  have hrests := hlater hmade.keeps
  have hcount : 0 < len - ext4NdirBlocks := by omega
  have hpoints := @inodeAttachIndirectBlocks_quiet info force r alloc1 _ fs.sparse.length hbs hcount
    (by omega)
  obtain ⟨-, hquiet⟩ := attachStep_quiet hpoints _ _ _ _ hstep
  have hper : 0 < fs1.aux.blocksPerInd := by
    rw [htables.blocksPerInd, hlevels.ind]
    exact hlevels.some
  obtain ⟨-, -, d, b', hb', hpointer⟩ := hquiet
    ⟨hper, by rw [htables.sparse], by rw [htables.xattrs, htables.heap]; exact hxattrs⟩
  have hsame : getBlock alloc1 0 = getBlock (rewindAlloc alloc) k := by
    rw [getBlock, getBlockFrom, hregions, hiter, hpartial, Nat.zero_add]
    rfl
  obtain rfl := Option.some.inj (hb'.symm.trans (hsame.trans hb))
  refine ⟨k, hlt, d, ?_⟩
  have hkept : fs'.field r (iBlock k) = u32 b' := by
    rw [hrests.bytes.field fun bg i => SlotBytes.of_field (hlt.trans (Nat.lt_succ_self _)),
      hmade.bytes.field fun bg i => SlotBytes.of_field hlt, hdirect]
  rw [hkept]
  refine hpointer.frame ?_ hrests.toLeavesAlone
  rw [← htables.sparse]
  exact hmade.queue.length_le

theorem Maps.first {new : List Chunk} {b d : Nat} {buf : Buffer} (hn : 0 < n) {size : Nat}
    (hmem : .data (.heap d 0) size (fs.field r (iBlock ext4IndBlock)) ∈ new) (hsize : 4 ≤ size)
    (hbuf : fs.heap[d]? = some buf) (hword : buf.getLE 0 4 = b) :
    Maps new fs r n ext4NdirBlocks [fs.field r (iBlock ext4IndBlock)] b := by
  have hslot : slotOf n ext4NdirBlocks = (ext4IndBlock, [0]) := by
    rw [slotOf, if_neg (lt_irrefl _), Nat.sub_self]
    exact if_pos hn
  rw [Maps, hslot]
  exact ⟨b, [], ⟨d, size, buf, hmem, hbuf, by omega, hword⟩, ⟨rfl, rfl⟩, rfl⟩

theorem not_mapsWell_long (hk : L.Keeps fs.aux) (hlevels : fs.aux.Levels n)
    (hxattrs : ∀ e ∈ fs.aux.xattrs, e.2 < fs.heap.length) (hbs : 4 ≤ info.blockSize.val)
    (h : inodeAllocateIndirect info force r len (fs, []) = .ok ((), (fs', [])))
    (hlen : ext4NdirBlocks < u32 (divRoundUp64 len info.blockSize.val)) :
    ¬ MapsWell L (fs'.sparse.drop fs.sparse.length) fs fs' r n
      (u32 (divRoundUp64 len info.blockSize.val)) := by
  obtain ⟨hfew, aux', alloc, res, fs1, haside, hattach, hres, htables, hbytes⟩ :=
    inodeAllocateIndirect_ok hk hlevels h
  have hsquare := hlevels.square
  have hsmall := hlevels.few
  have hxattrs' : ∀ e ∈ aux'.xattrs, e.2 < fs.heap.length := by
    rw [haside.blocks.same]
    exact hxattrs
  have hword : u32 (divRoundUp64 len info.blockSize.val) < 2147483648 := by
    unfold ext4NdirBlocks at hfew
    omega
  obtain ⟨k, hkl, d, hpointer⟩ := attach_falls_back haside.keeps (hlevels.same haside.blocks)
    hxattrs' hbs (haside.long hlen) hlen hword hattach hres
  have hfield {i : Nat} (hi : i < 15) : fs'.field r (iBlock i) = fs1.field r (iBlock i) :=
    hbytes.field fun bg j => BlockBytes.of_field hi
  obtain ⟨size, hsize, hmem⟩ := hpointer.queued
  obtain ⟨buf, hbuf, hfirst⟩ := hpointer.word
  intro hmaps
  have hdirect : k < 15 := by
    unfold ext4NdirBlocks at hkl
    omega
  have hk' : Maps (fs'.sparse.drop fs.sparse.length) fs' r n k [] (fs'.field r (iBlock k)) :=
    (maps_direct hkl).mpr ⟨rfl, rfl⟩
  have hind := @Maps.first r fs' n (fs'.sparse.drop fs.sparse.length)
    (fs'.field r (iBlock k)) d buf hlevels.some size
    (by rw [hfield (by decide), htables.sparse]; exact hmem) hsize
    (by rw [htables.heap]; exact hbuf) (by rw [hfield hdirect]; exact hfirst)
  have hsame := hmaps.distinct k (hkl.trans hlen) ext4NdirBlocks hlen _ _ _ hk' hind
  exact hkl.ne hsame

end Long

theorem levels_of_init {info : FsInfo} {aux : FsAuxInfo}
    (hsize : info.blockSize.val = 1024 ∨ info.blockSize.val = 2048 ∨ info.blockSize.val = 4096)
    (haux : ext4InitFsAuxInfo info = some aux) : aux.Levels (info.blockSize.val / 4) := by
  obtain ⟨hind, hdind, htind⟩ := levels_of_blockSize hsize haux
  exact ⟨by omega, by omega, hind, hdind, htind⟩

theorem mapsWell_iff {L : Layout} {info : FsInfo} {force : Bool} {r : InodeRef} {fs fs' : Fs}
    {len : Nat} (hk : L.Keeps fs.aux) (hlevels : fs.aux.Levels (info.blockSize.val / 4))
    (hxattrs : ∀ e ∈ fs.aux.xattrs, e.2 < fs.heap.length)
    (hlen : divRoundUp len info.blockSize.val ≤ ext4NdirBlocks + info.blockSize.val / 4 +
      (info.blockSize.val / 4) ^ 2 + (info.blockSize.val / 4) ^ 3)
    (h : inodeAllocateIndirect info force r len (fs, []) = .ok ((), (fs', []))) :
    MapsWell L (fs'.sparse.drop fs.sparse.length) fs fs' r (info.blockSize.val / 4)
        (divRoundUp len info.blockSize.val) ↔
      divRoundUp len info.blockSize.val ≤ ext4NdirBlocks := by
  have hsome := hlevels.some
  have hsmall := hlevels.few
  have hbs : 4 ≤ info.blockSize.val := by omega
  have hcube : (info.blockSize.val / 4) ^ 2 ≤ 1024 ^ 2 ∧ (info.blockSize.val / 4) ^ 3 ≤ 1024 ^ 3 :=
    ⟨Nat.pow_le_pow_left hsmall 2, Nat.pow_le_pow_left hsmall 3⟩
  unfold ext4NdirBlocks at hlen
  have hbytes : len ≤ 2147483648 * info.blockSize.val :=
    (divRoundUp_le_iff (by omega)).mp (by omega)
  have hword : u32 (divRoundUp64 len info.blockSize.val) = divRoundUp len info.blockSize.val := by
    rw [divRoundUp64_eq (by omega), u32_of_lt (by omega)]
  rw [← hword]
  constructor
  · intro hmaps
    by_contra hlong
    exact not_mapsWell_long hk hlevels hxattrs hbs h (not_le.mp hlong) hmaps
  · exact mapsWell_short hk hlevels h

section Example

def oneInodeFs : Fs where
  aux := (oneGroupWith 4 0).setBg 0
    ((oneGroupWith 4 0).bgs.headD .zero |>.withTable (.zeros 256))
  sparse := []
  heap := []
  dirs := []

theorem oneInodeFs_keeps : oneGroup.Keeps oneInodeFs.aux :=
  keeps_setBg rfl rfl (oneGroup_keeps 0 (by decide) (by decide))

theorem oneInodeFs_levels : oneInodeFs.aux.Levels (smallInfo.blockSize.val / 4) :=
  ⟨by decide, by decide, rfl, rfl, rfl⟩

def endsQuietly : Except (Stop Ext4Error) (Unit × (Fs × List Ext4Error)) → Bool
  | .ok (_, (_, [])) => true
  | .ok (_, (_, _ :: _)) => false
  | .error _ => false

theorem exists_of_endsQuietly {m : Build Unit} {st : Fs × List Ext4Error}
    (h : endsQuietly (m st) = true) : ∃ fs', m st = .ok ((), (fs', [])) := by
  cases hm : m st with
  | error e =>
    rw [hm] at h
    cases h
  | ok p =>
    obtain ⟨⟨⟩, fs', l⟩ := p
    rw [hm] at h
    cases l with
    | nil => exact ⟨fs', rfl⟩
    | cons e l => cases h

theorem mapsWell_iff_twoBlocks : ∃ fs',
    inodeAllocateIndirect smallInfo false ⟨0, 0⟩ 5000 (oneInodeFs, []) = .ok ((), (fs', [])) ∧
    (MapsWell oneGroup (fs'.sparse.drop oneInodeFs.sparse.length) oneInodeFs fs' ⟨0, 0⟩
        (smallInfo.blockSize.val / 4) (divRoundUp 5000 smallInfo.blockSize.val) ↔
      divRoundUp 5000 smallInfo.blockSize.val ≤ ext4NdirBlocks) := by
  obtain ⟨fs', hrun⟩ := @exists_of_endsQuietly (inodeAllocateIndirect smallInfo false ⟨0, 0⟩ 5000)
    (oneInodeFs, []) (by decide +kernel)
  exact ⟨fs', hrun, mapsWell_iff oneInodeFs_keeps oneInodeFs_levels (fun _ he => by cases he)
    (by decide) hrun⟩

-- With one block more than the inode points to by itself.
theorem indirect_block_repeats : ∃ fs',
    inodeAllocateIndirect smallInfo false ⟨0, 0⟩ 53000 (oneInodeFs, []) = .ok ((), (fs', [])) ∧
    divRoundUp 53000 smallInfo.blockSize.val = 13 ∧
    ¬ MapsWell oneGroup (fs'.sparse.drop oneInodeFs.sparse.length) oneInodeFs fs' ⟨0, 0⟩
      (smallInfo.blockSize.val / 4) (divRoundUp 53000 smallInfo.blockSize.val) := by
  obtain ⟨fs', hrun⟩ := @exists_of_endsQuietly (inodeAllocateIndirect smallInfo false ⟨0, 0⟩ 53000)
    (oneInodeFs, []) (by decide +kernel)
  refine ⟨fs', hrun, by decide, ?_⟩
  exact not_mapsWell_long oneInodeFs_keeps oneInodeFs_levels (fun _ he => by cases he) (by decide)
    hrun (by decide)

end Example

end MakeExt4fs

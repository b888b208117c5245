import MakeExt4fs.Allocate.Pool
import MakeExt4fs.Allocate.Start

namespace MakeExt4fs

open ErrorLog Words

structure Pool where
  aux : FsAuxInfo
  singles : List Nat
  allocs : List BlockAllocation

inductive AllocOp where
  | allocateBlock
  | allocateBlocks (len : Nat)
  | allocateBlocksReduced (len : Nat)
  | reserveOobBlocks (alloc : Nat) (blocks : Int)
  | appendOobAllocation (alloc len : Nat)
  deriving DecidableEq, Repr

namespace Pool

def onAllocator {α : Type} (m : Alloc α) : Run Ext4Error Pool α :=
  Run.zoom (fun pool => some pool.aux) (fun aux pool => { pool with aux }) m

def keep (alloc : Option BlockAllocation) : Run Ext4Error Pool Unit :=
  Run.update fun pool => { pool with allocs := pool.allocs ++ alloc.toList }

def step (force : Bool) : AllocOp → Run Ext4Error Pool Unit
  | .allocateBlock => do
    let b ← onAllocator (MakeExt4fs.allocateBlock force)
    if b ≠ ext4AllocateFailed then
      Run.update fun pool => { pool with singles := b :: pool.singles }
  | .allocateBlocks len => do
    keep (← onAllocator (MakeExt4fs.allocateBlocks force len))
  | .allocateBlocksReduced len => do
    match ← onAllocator (MakeExt4fs.allocateBlocks force len) with
    | none => return ()
    | some alloc => keep (some (← onAllocator (reduceAllocation alloc 1)))
  | .reserveOobBlocks k blocks => do
    let pool ← Run.read
    match pool.allocs[k]? with
    | none => return ()
    | some alloc =>
      let (alloc, _) ← Run.expect (MakeExt4fs.reserveOobBlocks alloc blocks)
      Run.update fun pool => { pool with allocs := pool.allocs.set k alloc }
  | .appendOobAllocation k len => do
    let pool ← Run.read
    match pool.allocs[k]? with
    | none => return ()
    | some alloc =>
      let (alloc, _) ← onAllocator (MakeExt4fs.appendOobAllocation force alloc len)
      Run.update fun pool => { pool with allocs := pool.allocs.set k alloc }

end Pool

def Piece.blocks (p : Piece) : List Nat := (List.range p.len).map fun k => u32 (p.block + k)

def Pool.handedOut (pool : Pool) : List Nat :=
  pool.singles ++ (pool.allocs.flatMap BlockAllocation.pieces).flatMap Piece.blocks

structure Pool.Safe (info : FsInfo) (pool : Pool) : Prop where
  inside : ∀ b ∈ pool.handedOut, pool.aux.firstDataBlock ≤ b ∧ b < pool.aux.lenBlocks
  off_headers : ∀ b ∈ pool.handedOut, ∀ bg ∈ pool.aux.bgs,
    ¬(bg.firstBlock ≤ b ∧ b < bg.firstBlock + bg.headerBlocks)
  once : pool.handedOut.Nodup
  bits : ∀ i bg, pool.aux.bgs[i]? = some bg → ∀ k, bg.blockBitmap.testBit k =
    decide (k < bg.firstFreeBlock ∨
      pool.aux.lenBlocks ≤ pool.aux.groupStart info i + k ∧ k < 8 * info.blockSize.val)

def Pool.AlwaysSafe (info : FsInfo) (force : Bool) (aux : FsAuxInfo) : Prop :=
  ∀ ops : List AllocOp, Run.Meets (fun e => e = .alreadyReserved) (Run.each ops (Pool.step force))
    (fun _ pool l => pool.Safe info ∧ Ext4Error.alreadyReserved ∉ l) ⟨aux, [], []⟩ []

section Steps

variable {L : Layout} {aux : FsAuxInfo} {pool : Pool} {ps : List Piece} {l : List Ext4Error}

theorem bestFitError_ne {e : Ext4Error} (h : BestFitError e) : e ≠ .alreadyReserved := by
  rcases h with ⟨n, rfl⟩ | ⟨n, i, rfl⟩ <;> simp

theorem meets_giveUp {α : Type} {force : Bool} {e : Ext4Error} {a : α}
    {Q : α → FsAuxInfo → List Ext4Error → Prop} (he : e ≠ .alreadyReserved)
    (hq : Q a aux (l ++ [e])) :
    Run.Meets (fun e => e = .alreadyReserved) (Run.raise force e >>= fun _ => pure a : Alloc α)
      Q aux l := by
  rw [Run.meets_bind]
  exact Run.meets_raise he hq

theorem allocateBlocks_meets (force : Bool) (len : Nat) (h : L.Owns aux ps)
    (hl : Ext4Error.alreadyReserved ∉ l) :
    Run.Meets (fun e => e = .alreadyReserved) (allocateBlocks force len)
      (fun r aux' l' => ∃ qs left, Draws L aux len qs aux' left ∧
        (∀ alloc, r = some alloc → qs ≠ [] ∧ alloc = freshAlloc qs) ∧
        Ext4Error.alreadyReserved ∉ l') aux l := by
  obtain ⟨qs, aux', left, hdraws, hend⟩ := allocateBlocks_run force len l h.keeps
  rcases hend with ⟨rfl, -, hrun⟩ | ⟨-, e, he, hrun⟩
  · rw [Run.Meets, hrun]
    refine ⟨qs, 0, hdraws, ?_, hl⟩
    intro alloc ha
    split at ha
    · cases ha
    · rename_i hlen
      cases ha
      refine ⟨?_, rfl⟩
      rintro rfl
      have hsum := hdraws.sum
      simp only [List.map_nil, List.sum_nil] at hsum
      omega
  · rw [Run.meets_congr_run hrun]
    refine meets_giveUp (bestFitError_ne he) ⟨qs, left, hdraws, by simp, ?_⟩
    simpa [hl] using (bestFitError_ne he).symm

theorem bestFit_meets (force : Bool) (len : Nat) (h : L.Owns aux ps)
    (hl : Ext4Error.alreadyReserved ∉ l) :
    Run.Meets (fun e => e = .alreadyReserved) (ext4AllocateBestFit force len)
      (fun r aux' l' => (∃ qs, L.Owns aux' (qs ++ ps) ∧ (r = qs ∨ r = [])) ∧
        Ext4Error.alreadyReserved ∉ l') aux l := by
  obtain ⟨qs, aux', left, hdraws, hend⟩ := bestFitLoop_run force l len le_rfl h.keeps
  rw [ext4AllocateBestFit, Run.meets_bind]
  rcases hend with ⟨-, -, hrun⟩ | ⟨-, e, he, hrun⟩
  · rw [Run.Meets, hrun]
    exact ⟨⟨qs, hdraws.owns h, Or.inl rfl⟩, hl⟩
  · rw [Run.meets_congr_run hrun]
    refine meets_giveUp (bestFitError_ne he) ⟨⟨qs, hdraws.owns h, Or.inr rfl⟩, ?_⟩
    simpa [hl] using (bestFitError_ne he).symm

theorem appendOobAllocation_meets (force : Bool) (alloc : BlockAllocation) (len : Nat)
    (h : L.Owns aux (alloc.pieces ++ ps)) (hl : Ext4Error.alreadyReserved ∉ l) :
    Run.Meets (fun e => e = .alreadyReserved) (appendOobAllocation force alloc len)
      (fun r aux' l' => (∃ qs, L.Owns aux' (r.1.pieces ++ (qs ++ ps))) ∧
        Ext4Error.alreadyReserved ∉ l') aux l := by
  rw [appendOobAllocation, Run.meets_bind]
  refine (bestFit_meets force len h hl).mono ?_
  rintro r aux' l' ⟨⟨qs, howns, hr⟩, hl'⟩
  cases r with
  | nil =>
    refine meets_giveUp (by simp) ⟨⟨qs, howns.perm ?_⟩, by simpa using hl'⟩
    refine List.perm_iff_count.mpr fun p => ?_
    simp only [List.count_append]
    omega
  | cons reg rest =>
    obtain rfl : reg :: rest = qs := by simpa using hr
    simp only [Run.meets_bind, Run.meets_expect]
    intro alloc' happ
    refine ⟨⟨[], ?_⟩, hl'⟩
    have hpieces := appendOobLoop_pieces happ
    have hnew : BlockAllocation.pieces
        ⟨alloc.regions ++ linkPieces alloc.regions.length none (reg :: rest), alloc.list,
          alloc.oobList⟩ = alloc.pieces ++ (reg :: rest) := by
      rw [BlockAllocation.pieces, Arena.live_append, List.map_append, live_linkPieces]
      rfl
    simp only
    rw [hpieces, hnew]
    refine howns.perm (List.perm_iff_count.mpr fun p => ?_)
    simp only [List.count_append, List.count_nil]
    omega

-- Some pieces were given away to nobody: a best fit that fails keeps what it has drawn.
structure Pool.Owned (L : Layout) (pool : Pool) : Prop where
  owns : ∃ lost singles : List Piece, (∀ p ∈ singles, p.len = 1) ∧
    singles.map Piece.block = pool.singles ∧
    L.Owns pool.aux (pool.allocs.flatMap BlockAllocation.pieces ++ (singles ++ lost))

structure Pool.Sound (L : Layout) (pool : Pool) (l : List Ext4Error) : Prop where
  owned : pool.Owned L
  silent : Ext4Error.alreadyReserved ∉ l

theorem Pool.onAllocator_meets {α : Type} {bad : Ext4Error → Prop} {m : Alloc α}
    {Q : α → Pool → List Ext4Error → Prop} :
    Run.Meets bad (Pool.onAllocator m) Q pool l ↔
      Run.Meets bad m (fun a aux l' => Q a { pool with aux } l') pool.aux l :=
  Run.meets_zoom (fun pool : Pool => some pool.aux) rfl

theorem Pool.sound_lost {pool : Pool} {aux : FsAuxInfo} {l : List Ext4Error} {lost singles qs : List Piece}
    (hone : ∀ p ∈ singles, p.len = 1) (hblocks : singles.map Piece.block = pool.singles)
    (h : L.Owns aux (qs ++ (pool.allocs.flatMap BlockAllocation.pieces ++ (singles ++ lost))))
    (hl : Ext4Error.alreadyReserved ∉ l) : Pool.Sound L { pool with aux } l := by
  refine ⟨⟨lost ++ qs, singles, hone, hblocks, h.perm (List.perm_iff_count.mpr fun p => ?_)⟩, hl⟩
  simp only [List.count_append]
  omega

theorem Pool.sound_keep {pool : Pool} {aux : FsAuxInfo} {l : List Ext4Error} {lost singles : List Piece}
    {alloc : BlockAllocation} (hone : ∀ p ∈ singles, p.len = 1)
    (hblocks : singles.map Piece.block = pool.singles)
    (h : L.Owns aux (alloc.pieces ++
      (pool.allocs.flatMap BlockAllocation.pieces ++ (singles ++ lost))))
    (hl : Ext4Error.alreadyReserved ∉ l) :
    Pool.Sound L { pool with aux, allocs := pool.allocs ++ [alloc] } l := by
  refine ⟨⟨lost, singles, hone, hblocks, h.perm (List.perm_iff_count.mpr fun p => ?_)⟩, hl⟩
  simp only [List.flatMap_append, List.flatMap_cons, List.flatMap_nil, List.count_append,
    List.count_nil]
  omega

theorem flatMap_set {α β : Type} (f : α → List β) {xs : List α} {k : Nat} {x : α}
    (h : xs[k]? = some x) : ∃ rest, (xs.flatMap f).Perm (f x ++ rest) ∧
      ∀ y, ((xs.set k y).flatMap f).Perm (f y ++ rest) := by
  obtain ⟨u, v, rfl, rfl⟩ := Arena.split_at h
  have hmove (y : α) : ((u ++ y :: v).flatMap f).Perm (f y ++ (u.flatMap f ++ v.flatMap f)) := by
    rw [List.flatMap_append, List.flatMap_cons]
    exact List.perm_append_comm_assoc _ _ _
  exact ⟨_, hmove x, fun y => by rw [Arena.set_split]; exact hmove y⟩

theorem Pool.sound_set {pool : Pool} {aux : FsAuxInfo} {l : List Ext4Error}
    {lost singles rest : List Piece} (qs : List Piece) {k : Nat} {alloc : BlockAllocation}
    (hone : ∀ p ∈ singles, p.len = 1) (hblocks : singles.map Piece.block = pool.singles)
    (hperm : ((pool.allocs.set k alloc).flatMap BlockAllocation.pieces).Perm
      (alloc.pieces ++ rest))
    (h : L.Owns aux (alloc.pieces ++ (qs ++ (rest ++ (singles ++ lost)))))
    (hl : Ext4Error.alreadyReserved ∉ l) :
    Pool.Sound L { pool with aux, allocs := pool.allocs.set k alloc } l := by
  refine ⟨⟨lost ++ qs, singles, hone, hblocks, h.perm ?_⟩, hl⟩
  refine (List.perm_iff_count.mpr fun p => ?_).trans (hperm.symm.append_right _)
  simp only [List.count_append]
  omega

theorem Pool.step_meets (force : Bool) (op : AllocOp) (h : pool.Sound L l) :
    Run.Meets (fun e => e = .alreadyReserved) (Pool.step force op)
      (fun _ pool' l' => pool'.Sound L l') pool l := by
  obtain ⟨⟨lost, singles, hone, hblocks, howns⟩, hl⟩ := h
  cases op with
  | allocateBlock =>
    obtain ⟨b, aux', qs, hrun, howns', hb⟩ := allocateBlock_run force l howns
    have hlost := Pool.sound_lost hone hblocks howns' hl
    simp only [Pool.step, Run.meets_bind, Pool.onAllocator_meets]
    rw [Run.Meets, hrun]
    simp only
    split
    · rename_i hne
      obtain ⟨i, hi⟩ := hb.resolve_left hne
      obtain ⟨u, v, rfl⟩ := List.append_of_mem hi
      refine ⟨⟨lost ++ (u ++ v), ⟨b, 1, i⟩ :: singles, ?_, by simp [hblocks], ?_⟩, hl⟩
      · intro p hp
        rcases List.mem_cons.mp hp with rfl | hp
        · rfl
        · exact hone p hp
      · refine howns'.perm (List.perm_iff_count.mpr fun p => ?_)
        simp only [List.count_append, List.count_cons]
        omega
    · exact hlost
  | allocateBlocks len =>
    simp only [Pool.step, Run.meets_bind, Pool.onAllocator_meets]
    refine (allocateBlocks_meets force len howns hl).mono ?_
    rintro r aux' l' ⟨qs, left, hdraws, hr, hl'⟩
    have howns' := hdraws.owns howns
    cases r with
    | none =>
      simpa [Pool.keep] using Pool.sound_lost hone hblocks howns' hl'
    | some alloc =>
      obtain ⟨-, rfl⟩ := hr alloc rfl
      rw [← freshAlloc_pieces qs] at howns'
      exact Pool.sound_keep hone hblocks howns' hl'
  | allocateBlocksReduced len =>
    simp only [Pool.step, Run.meets_bind, Pool.onAllocator_meets]
    refine (allocateBlocks_meets force len howns hl).mono ?_
    rintro r aux' l' ⟨qs, left, hdraws, hr, hl'⟩
    have howns' := hdraws.owns howns
    cases r with
    | none => exact Pool.sound_lost hone hblocks howns' hl'
    | some alloc =>
      obtain ⟨hne, rfl⟩ := hr alloc rfl
      obtain ⟨alloc, aux2, hrun, hreduced⟩ := reduceAllocation_run l' hdraws hne howns'
      simp only [Run.meets_bind, Pool.onAllocator_meets]
      rw [Run.Meets, hrun]
      exact Pool.sound_keep hone hblocks hreduced hl'
  | reserveOobBlocks k blocks =>
    simp only [Pool.step, Run.meets_bind, Run.meets_read]
    split
    · exact ⟨⟨lost, singles, hone, hblocks, howns⟩, hl⟩
    · rename_i alloc hk
      simp only [Run.meets_bind, Run.meets_expect, Run.meets_update]
      rintro ⟨alloc', r⟩ hreserve
      obtain ⟨rest, hold, hnew⟩ := flatMap_set BlockAllocation.pieces hk
      have hfront := howns.perm (hold.append_right _)
      rw [List.append_assoc] at hfront
      exact Pool.sound_set [] hone hblocks (hnew alloc')
        (reserveOobBlocks_carves hreserve L _ _ hfront) hl
  | appendOobAllocation k len =>
    simp only [Pool.step, Run.meets_bind, Run.meets_read]
    split
    · exact ⟨⟨lost, singles, hone, hblocks, howns⟩, hl⟩
    · rename_i alloc hk
      obtain ⟨rest, hold, hnew⟩ := flatMap_set BlockAllocation.pieces hk
      have hfront := howns.perm (hold.append_right _)
      rw [List.append_assoc] at hfront
      simp only [Run.meets_bind, Pool.onAllocator_meets]
      refine (appendOobAllocation_meets force alloc len hfront hl).mono ?_
      rintro ⟨alloc', r⟩ aux' l' ⟨⟨qs, howns'⟩, hl'⟩
      exact Pool.sound_set qs hone hblocks (hnew alloc') howns' hl'

theorem Pool.run_meets (force : Bool) (ops : List AllocOp) (h : pool.Sound L l) :
    Run.Meets (fun e => e = .alreadyReserved) (Run.each ops (Pool.step force))
      (fun _ pool' l' => pool'.Sound L l') pool l :=
  Run.meets_each ops (fun op _ _ _ hs => Pool.step_meets force op hs) h

end Steps

section Start

variable {info : FsInfo} {aux : FsAuxInfo} {force : Bool}

theorem Layout.Owns.mem_blocks {L : Layout} {ps : List Piece} {p : Piece} {b : Nat}
    (h : L.Owns aux ps) (hp : p ∈ ps) (hb : b ∈ p.blocks) :
    p.span.Holds b ∧ p.bg < L.groups ∧ L.first p.bg + L.header p.bg ≤ b ∧
      b < L.first p.bg + L.limit p.bg := by
  obtain ⟨bg, hbg, hheld⟩ := h.held p hp
  have hstart := hheld.start
  have hstop := hheld.stop
  have hlt := h.keeps.lt hbg
  have hword := L.word p.bg hlt
  simp only [Layout.top] at hstop
  obtain ⟨k, hk, rfl⟩ := List.mem_map.mp hb
  have hk := List.mem_range.mp hk
  rw [u32_of_lt (by omega)]
  refine ⟨⟨?_, ?_⟩, hlt, by omega, by omega⟩ <;> simp only [Piece.span] <;> omega

theorem Layout.Owns.nodup_blocks {L : Layout} {ps : List Piece} (h : L.Owns aux ps) :
    (ps.flatMap Piece.blocks).Nodup := by
  refine List.nodup_flatMap.mpr ⟨?_, ?_⟩
  · intro p hp
    refine List.Nodup.map_on ?_ List.nodup_range
    intro j hj k hk he
    obtain ⟨bg, hbg, hheld⟩ := h.held p hp
    have hstop := hheld.stop
    have hword := L.word p.bg (h.keeps.lt hbg)
    simp only [Layout.top] at hstop
    have hj := List.mem_range.mp hj
    have hk := List.mem_range.mp hk
    rw [u32_of_lt (by omega), u32_of_lt (by omega)] at he
    omega
  · refine h.apart.imp_of_mem ?_
    intro p q hp hq hap b hbp hbq
    exact hap b (h.mem_blocks hp hbp).1 (h.mem_blocks hq hbq).1

theorem Layout.Owns.blocks_singles {L : Layout} {ps singles : List Piece}
    (h : L.Owns aux ps) (hsub : ∀ p ∈ singles, p ∈ ps) (hone : ∀ p ∈ singles, p.len = 1) :
    singles.flatMap Piece.blocks = singles.map Piece.block := by
  induction singles with
  | nil => rfl
  | cons p rest ih =>
    obtain ⟨bg, hbg, hheld⟩ := h.held p (hsub p (by simp))
    have hstop := hheld.stop
    have hword := L.word p.bg (h.keeps.lt hbg)
    have hlen := hone p (by simp)
    simp only [Layout.top] at hstop
    have hblock : u32 p.block = p.block := u32_of_lt (by omega)
    rw [List.flatMap_cons, List.map_cons, ih (fun q hq => hsub q (by simp [hq]))
      (fun q hq => hone q (by simp [hq]))]
    simp [Piece.blocks, hlen, hblock]

theorem Pool.Sound.safe {hhdr : HeadersFit info aux} {hword : EndsInWord info aux} {pool : Pool}
    {l : List Ext4Error} (hbpg : info.blocksPerGroup.val = 8 * info.blockSize.val)
    (h : pool.Sound (startLayout info aux hhdr hword) l) : pool.Safe info := by
  obtain ⟨⟨lost, singles, hone, hblocks, howns⟩, -⟩ := h
  rw [← List.append_assoc] at howns
  have hhand := howns.subperm (List.sublist_append_left _ _).subperm
  have hperm : pool.handedOut.Perm
      ((pool.allocs.flatMap BlockAllocation.pieces ++ singles).flatMap Piece.blocks) := by
    rw [Pool.handedOut, List.flatMap_append,
      hhand.blocks_singles (fun p hp => List.mem_append_right _ hp) hone, hblocks]
    exact List.perm_append_comm
  have hkeeps := hhand.keeps
  have hfdb := hkeeps.firstDataBlock
  have hlen := hkeeps.lenBlocks
  have hat : ∀ b ∈ pool.handedOut, ∃ i < aux.groups,
      aux.groupStart info i + headerBlocks info aux i ≤ b ∧
        b < aux.groupStart info i + aux.blocksBelow info i := by
    intro b hb
    obtain ⟨p, hp, hbp⟩ := List.mem_flatMap.mp (hperm.mem_iff.mp hb)
    exact ⟨p.bg, (hhand.mem_blocks hp hbp).2⟩
  refine ⟨?_, ?_, hperm.nodup_iff.mpr hhand.nodup_blocks, ?_⟩
  · intro b hb
    obtain ⟨i, hi, hge, hlt⟩ := hat b hb
    have hin := (startLayout info aux hhdr hword).inside i hi
    simp only [startLayout] at hin hfdb hlen
    omega
  · rintro b hb bg hbg ⟨h1, h2⟩
    obtain ⟨i, hi, hge, hlt⟩ := hat b hb
    obtain ⟨j, hj⟩ := List.getElem?_of_mem hbg
    have hgroup := hkeeps.group hj
    have hjlt := hkeeps.lt hj
    have hle := (startLayout info aux hhdr hword).header_le j hjlt
    rw [hgroup.first] at h1 h2
    rw [hgroup.header] at h2
    rcases Nat.lt_trichotomy i j with hij | rfl | hij
    · have := (startLayout info aux hhdr hword).apart i j hij hjlt
      simp only [startLayout] at *
      omega
    · simp only [startLayout] at *
      omega
    · have := (startLayout info aux hhdr hword).apart j i hij hi
      simp only [startLayout] at *
      omega
  · intro i bg hbg k
    have hbits := (hkeeps.group hbg).sound.bits k
    have hstart : pool.aux.groupStart info i = aux.groupStart info i := by
      rw [FsAuxInfo.groupStart, hfdb]
      rfl
    rw [hbits, hstart, hlen]
    congr 1
    apply propext
    simp only [startLayout, FsAuxInfo.blocksBelow]
    omega

theorem alwaysSafe_of_endsInWord {fs : Fs} {l : List Ext4Error}
    (hbpg : info.blocksPerGroup.val = 8 * info.blockSize.val)
    (hgeo : ext4InitFsAuxInfo info = some aux)
    (hinit : blockAllocatorInit info force (⟨aux, [], [], []⟩, []) = .ok ((), (fs, l)))
    (hhdr : HeadersFit info aux) (hword : EndsInWord info aux) :
    Pool.AlwaysSafe info force fs.aux := by
  have hpos : 0 < info.blocksPerGroup.val := by
    unfold ext4InitFsAuxInfo at hgeo
    split at hgeo
    · cases hgeo
    · omega
  obtain ⟨-, haux, howns⟩ := blockAllocatorInit_owns hpos hhdr hword hinit
  intro ops
  have hstart : Pool.Sound (startLayout info aux hhdr hword) ⟨fs.aux, [], []⟩ [] :=
    ⟨⟨[], [], by simp, rfl, howns⟩, by simp⟩
  exact (Pool.run_meets force ops hstart).mono fun _ pool l h => ⟨h.safe hbpg, h.silent⟩

theorem alwaysSafe_of_endsInWord_of_small : ∃ aux fs,
    ext4InitFsAuxInfo smallInfo = some aux ∧
      blockAllocatorInit smallInfo false (⟨aux, [], [], []⟩, []) = .ok ((), (fs, [])) ∧
      Pool.AlwaysSafe smallInfo false fs.aux := by
  obtain ⟨aux, haux, hhdr, hword⟩ : ∃ aux, ext4InitFsAuxInfo smallInfo = some aux ∧
      HeadersFit smallInfo aux ∧ EndsInWord smallInfo aux :=
    ⟨_, rfl, by unfold HeadersFit; decide, Or.inl (by decide)⟩
  obtain ⟨fs, hfs⟩ := LaidOut.exists false haux fun i hi => (hhdr i hi).1
  exact ⟨aux, fs, haux, hfs.init, alwaysSafe_of_endsInWord rfl haux hfs.init hhdr hword⟩

-- make_ext4fs -i 8192 -l 17179999856k: 2^32 + 32668 blocks.
def hugeRequest : FsRequest :=
  ⟨17592319852544, 0, 0, 8192, 0, 0, 0, [], false, List.replicate 16 0⟩

def hugeInfo : FsInfo :=
  ⟨17592319852544, 4096, 32768, 8192, 256, 8192, 32768, 19, 28, 66, 7, 0, [], false,
    List.replicate 16 0⟩

-- The end of the last group is past 2^32, so the 100 blocks it lacks are never reserved.
theorem tail_past_word_stays_free : settleInfo hugeRequest none = .ok hugeInfo ∧
    hugeInfo.blocksPerGroup.val = 8 * hugeInfo.blockSize.val ∧ ∃ aux fs,
      ext4InitFsAuxInfo hugeInfo = some aux ∧ HeadersFit hugeInfo aux ∧
      blockAllocatorInit hugeInfo false (⟨aux, [], [], []⟩, []) = .ok ((), (fs, [])) ∧
      ¬ Pool.AlwaysSafe hugeInfo false fs.aux := by
  refine ⟨rfl, rfl, ?_⟩
  obtain ⟨aux, haux⟩ := ext4InitFsAuxInfo_exists hugeInfo (by decide) (by decide)
  obtain ⟨hfirst, hlen, hgroups, htable, hdesc⟩ := ext4InitFsAuxInfo_some haux
  have hlong : hugeInfo.lastGroupShort = false := by decide
  simp only [hlong, Bool.false_eq_true, if_false] at hlen hgroups
  replace hfirst : aux.firstDataBlock = 0 := hfirst
  replace hlen : aux.lenBlocks = 4294999964 := hlen
  replace hgroups : aux.groups = 131073 := hgroups
  replace htable : aux.inodeTableBlocks = 512 := htable
  replace hdesc : aux.bgDescBlocks = 1025 := hdesc
  have hstart : ∀ i, aux.groupStart hugeInfo i = i * 32768 := by
    intro i
    rw [FsAuxInfo.groupStart, hfirst, Nat.zero_add]
    rfl
  have hsize : ∀ i, headerBlocks hugeInfo aux i ≤ 1547 := by
    intro i
    have hreserve : hugeInfo.bgDescReserveBlocks.val = 7 := rfl
    simp only [headerBlocks, superblockBlocks, htable, hdesc, hreserve]
    split <;> simp [u32]
  have hhdr : HeadersFit hugeInfo aux := by
    intro i hi
    have := hsize i
    have hbpg : hugeInfo.blocksPerGroup.val = 32768 := rfl
    rw [hstart, hlen, hbpg]
    omega
  obtain ⟨fs, hrun, hto⟩ := blockAllocatorInit_run hugeInfo false ⟨aux, [], [], []⟩ []
    fun i hi => (hhdr i hi).1
  refine ⟨aux, fs, haux, hhdr, hrun, fun hsafe => ?_⟩
  have hsafe0 := (hsafe []).1
  obtain ⟨bg, hbg, hset⟩ := hto.setUp (i := 131072) (by rw [hgroups]; decide)
    (hhdr 131072 (by rw [hgroups]; decide)).1
  have hfs := hto.aux
  have hbits := hsafe0.bits 131072 bg hbg 32767
  have hlenfs : fs.aux.lenBlocks = 4294999964 := by rw [hfs]; exact hlen
  have hstartfs : fs.aux.groupStart hugeInfo 131072 = 4294967296 := by
    rw [hfs]
    exact hstart 131072
  have hlimit : groupLimit hugeInfo fs.aux 131072 = 32768 := by
    have hword : firstBlock hugeInfo fs.aux 131072 = 0 := by
      rw [firstBlock, hfs]
      change u32 (aux.groupStart hugeInfo 131072) = 0
      rw [hstart]
      rfl
    rw [groupLimit, hword, hlenfs, groupEnd]
    rfl
  have hheader : headerBlocks hugeInfo fs.aux 131072 ≤ 1547 := by
    rw [hfs]
    exact hsize 131072
  have hfree := hset.sound.free
  have hleft := hset.free
  have hbit := hset.sound.bits 32767
  rw [hlimit] at hfree hleft hbit
  rw [hbit, hlenfs, hstartfs, decide_eq_decide] at hbits
  have hbs : hugeInfo.blockSize.val = 4096 := rfl
  omega

end Start

end MakeExt4fs

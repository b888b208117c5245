import MakeExt4fs.Allocate.Carve
import MakeExt4fs.Contents.RegionViews

namespace MakeExt4fs

open ErrorLog Words

structure Ledger where
  aux : FsAuxInfo
  alloc : BlockAllocation

inductive ListOp where
  | allocateBlocks (len : Nat)
  | elsewhere (len : Nat)
  | appendRegion (p : Piece)
  | reserveOobBlocks (blocks : Nat)
  | appendOobAllocation (len : Nat)
  | reduceAllocation (len : Nat)
  | advanceBlocks (blocks : Nat)
  | rewindAlloc
  | getNextRegion

namespace Ledger

def onAllocator {α : Type} (m : Alloc α) : Run Ext4Error Ledger α :=
  Run.zoom (fun s => some s.aux) (fun aux s => { s with aux }) m

def store (alloc : BlockAllocation) : Run Ext4Error Ledger Unit :=
  Run.update fun s => { s with alloc }

-- A new allocation takes the place of the one before; `elsewhere` is one that somebody else makes.
def step (force : Bool) : ListOp → Run Ext4Error Ledger Int
  | .allocateBlocks len => do
    match ← onAllocator (MakeExt4fs.allocateBlocks force len) with
    | none => return -1
    | some alloc =>
      store alloc
      return 0
  | .elsewhere len => do
    let _ ← onAllocator (MakeExt4fs.allocateBlocks force len)
    return 0
  | .appendRegion p => do
    let s ← Run.read
    store (← Run.expect (MakeExt4fs.appendRegion s.alloc p.block p.len p.bg))
    return 0
  | .reserveOobBlocks blocks => do
    let s ← Run.read
    let (alloc, r) ← Run.expect (MakeExt4fs.reserveOobBlocks s.alloc blocks)
    store alloc
    return r
  | .appendOobAllocation len => do
    let s ← Run.read
    let (alloc, r) ← onAllocator (MakeExt4fs.appendOobAllocation force s.alloc len)
    store alloc
    return r
  | .reduceAllocation len => do
    let s ← Run.read
    store (← onAllocator (MakeExt4fs.reduceAllocation s.alloc len))
    return 0
  | .advanceBlocks blocks => do
    let s ← Run.read
    let (alloc, r) ← Run.expect (MakeExt4fs.advanceBlocks s.alloc blocks)
    store alloc
    return r
  | .rewindAlloc => do
    let s ← Run.read
    store (MakeExt4fs.rewindAlloc s.alloc)
    return 0
  | .getNextRegion => do
    let s ← Run.read
    store (← Run.expect (MakeExt4fs.getNextRegion s.alloc))
    return 0

end Ledger

def Layout.Free (L : Layout) (aux : FsAuxInfo) (b : Nat) : Prop :=
  ∃ i bg, aux.bgs[i]? = some bg ∧ L.first i ≤ b ∧ b < L.first i + L.limit i ∧
    bg.blockBitmap.testBit (b - L.first i) = false

structure Layout.Takes (L : Layout) (aux aux' : FsAuxInfo) (new : List Nat) : Prop where
  once : new.Nodup
  before : ∀ b ∈ new, L.Free aux b
  after : ∀ b ∈ new, ¬ L.Free aux' b

def Layout.Refines (L : Layout) (s s' : Ledger) (r : Int) : ListOp → Prop
  | .allocateBlocks len => ∀ v, Shows s.alloc v →
      (r = 0 → ∃ new, new.length = len ∧ L.Takes s.aux s'.aux new ∧ Shows s'.alloc ⟨new, [], 0⟩) ∧
      (r ≠ 0 → Shows s'.alloc v)
  | .appendRegion p => ∀ v, Shows s.alloc v →
      ∃ c, Shows s'.alloc { v.appendRegion p with cursor := c }
  | .reserveOobBlocks n => ∀ v, Shows s.alloc v → v.cursor + n ≤ v.main.length →
      Shows s'.alloc (v.reserveOob n)
  | .appendOobAllocation len => ∀ v, Shows s.alloc v →
      (r = 0 → ∃ new, new.length = len ∧ L.Takes s.aux s'.aux new ∧
        Shows s'.alloc (v.appendOob new)) ∧
      (r ≠ 0 → Shows s'.alloc v)
  | .reduceAllocation n => ∀ v, Shows s.alloc v → n ≤ v.main.length →
      (∃ c, Shows s'.alloc { v.reduce n with cursor := c }) ∧
      ∀ b, L.Free s'.aux b ↔ L.Free s.aux b ∨ b ∈ v.main.drop (v.main.length - n)
  | .elsewhere _ | .advanceBlocks _ | .rewindAlloc | .getNextRegion => ∀ v, Shows s.alloc v →
      ∃ c, Shows s'.alloc { v with cursor := c }

def FsAuxInfo.InOnePiece (aux : FsAuxInfo) (len : Nat) : Prop :=
  (∃ n ∈ aux.freeList, len ≤ n) ∨ aux.freeList.sum < len

def Layout.Allows (L : Layout) (s : Ledger) : ListOp → Prop
  | .allocateBlocks len | .appendOobAllocation len => s.aux.InOnePiece len
  | .appendRegion p => 0 < p.len
  | .reserveOobBlocks n => n < 2147483648 ∧ s.alloc.list.partialIter = 0 ∧
      ∀ left, chainLen s.alloc.regions Region.len s.alloc.regions.length s.alloc.list.iter =
        some left → n = 0 ∨ left < n
  | .reduceAllocation n => n = 0 ∨ ∃ i r bg, s.alloc.list.last = some i ∧
      s.alloc.regions[i]? = some (some r) ∧ s.aux.bgs[r.bg]? = some bg ∧ L.Held bg r.piece ∧
      r.block + r.len = L.first r.bg + bg.firstFreeBlock ∧
      (n < r.len ∨ n = r.len ∧ s.alloc.list.first = some i)
  | .getNextRegion => s.alloc.list.iter ≠ none
  | .advanceBlocks n => n < 2147483648
  | .elsewhere _ | .rewindAlloc => True

section Drawing

variable {L : Layout} {aux aux' : FsAuxInfo} {len left : Nat} {ps : List Piece}

theorem sum_set (xs : List Nat) {i x : Nat} (hi : xs[i]? = some x) (y : Nat) :
    (xs.set i y).sum + x = xs.sum + y := by
  induction xs generalizing i with
  | nil => simp at hi
  | cons z rest ih =>
    cases i with
    | zero =>
      simp only [List.getElem?_cons_zero, Option.some.injEq] at hi
      subst hi
      simp only [List.set_cons_zero, List.sum_cons]
      omega
    | succ i =>
      have := ih (i := i) (by simpa using hi)
      simp only [List.set_cons_succ, List.sum_cons]
      omega

theorem Draws.sum_le (h : Draws L aux len ps aux' left) (hk : L.Keeps aux) :
    (ps.map Piece.len).sum ≤ aux.freeList.sum := by
  induction h with
  | stop aux len => exact Nat.zero_le _
  | @draw aux aux' len left i bg ps hbg best free hlen rest ih =>
    have hgive := hk.setBg ((hk.group hbg).give (min_le_right len bg.freeBlocks))
    have hrest := ih hgive
    have hat : aux.freeList[i]? = some bg.freeBlocks := by
      rw [hk.freeList_eq, List.getElem?_map, hbg]
      rfl
    have hsum := sum_set aux.freeList hat (bg.freeBlocks - min len bg.freeBlocks)
    rw [freeList_setBg, BlockGroupInfo.give_freeBlocks] at hrest
    simp only [List.map_cons, List.sum_cons]
    omega

theorem Draws.one (h : Draws L aux len ps aux' 0) (hk : L.Keeps aux) (hone : aux.InOnePiece len)
    (hlen : 0 < len) : ∃ i bg, aux.bgs[i]? = some bg ∧ len ≤ bg.freeBlocks ∧
      ps = [⟨L.first i + bg.firstFreeBlock, len, i⟩] ∧ aux' = aux.setBg i (bg.give len) := by
  have hsum := h.sum
  have hle := h.sum_le hk
  rcases hone with ⟨n, hn, hge⟩ | hshort
  · cases h with
    | stop => omega
    | @draw _ _ _ _ i bg rest hbg best free _ hrest =>
      have hfit : len ≤ bg.freeBlocks := by
        by_contra hlt
        have := best.most (by simpa using hlt) n hn
        simp only at this
        omega
      rw [min_eq_left hfit] at hrest ⊢
      rw [Nat.sub_self] at hrest
      cases hrest with
      | stop => exact ⟨i, bg, hbg, hfit, rfl, rfl⟩
      | draw _ _ _ hzero _ => exact absurd hzero (lt_irrefl 0)
  · omega

end Drawing

section Freeing

variable {L : Layout} {aux : FsAuxInfo} {i b len : Nat} {bg : BlockGroupInfo}

theorem Layout.free_iff (hk : L.Keeps aux) : L.Free aux b ↔ ∃ i bg, aux.bgs[i]? = some bg ∧
    L.first i + bg.firstFreeBlock ≤ b ∧ b < L.first i + L.limit i := by
  constructor
  · rintro ⟨i, bg, hbg, hge, hlt, hbit⟩
    rw [(hk.group hbg).sound.bits, decide_eq_false_iff_not, not_or, not_and] at hbit
    exact ⟨i, bg, hbg, by omega, hlt⟩
  · rintro ⟨i, bg, hbg, hge, hlt⟩
    refine ⟨i, bg, hbg, by omega, hlt, ?_⟩
    rw [(hk.group hbg).sound.bits, decide_eq_false_iff_not]
    omega

theorem Layout.group_unique {j : Nat} (hi : i < L.groups) (hj : j < L.groups)
    (hbi : L.first i ≤ b ∧ b < L.first i + L.limit i)
    (hbj : L.first j ≤ b ∧ b < L.first j + L.limit j) : i = j := by
  rcases Nat.lt_trichotomy i j with hlt | rfl | hlt
  · have := L.apart i j hlt hj
    omega
  · rfl
  · have := L.apart j i hlt hi
    omega

theorem mem_blocks_iff {p : Piece} (hword : p.block + p.len ≤ 4294967296) :
    b ∈ p.blocks ↔ p.block ≤ b ∧ b < p.block + p.len := by
  rw [Piece.blocks, List.mem_map]
  constructor
  · rintro ⟨k, hk, rfl⟩
    have := List.mem_range.mp hk
    rw [u32_of_lt (by omega)]
    omega
  · rintro ⟨hge, hlt⟩
    exact ⟨b - p.block, List.mem_range.mpr (by omega), by rw [u32_of_lt (by omega)]; omega⟩

theorem blocks_nodup {p : Piece} (hword : p.block + p.len ≤ 4294967296) : p.blocks.Nodup := by
  refine List.Nodup.map_on ?_ List.nodup_range
  intro x hx y hy hxy
  have := List.mem_range.mp hx
  have := List.mem_range.mp hy
  rw [u32_of_lt (by omega), u32_of_lt (by omega)] at hxy
  omega

theorem Layout.Keeps.takes (hk : L.Keeps aux) (hbg : aux.bgs[i]? = some bg)
    (hfit : len ≤ bg.freeBlocks) (hlen : 0 < len) :
    L.Takes aux (aux.setBg i (bg.give len))
      (Piece.blocks ⟨L.first i + bg.firstFreeBlock, len, i⟩) := by
  have hfree := (hk.group hbg).sound.free
  have hi := hk.lt hbg
  have hword := L.word i hi
  have hkeeps := hk.setBg ((hk.group hbg).give hfit)
  have hself := aux.setBg_self (bg.give len) hbg
  have hend : L.first i + bg.firstFreeBlock + len ≤ 4294967296 := by omega
  refine ⟨blocks_nodup hend, ?_, ?_⟩
  · intro b hb
    rw [mem_blocks_iff hend] at hb
    exact (L.free_iff hk).mpr ⟨i, bg, hbg, hb.1, by simp only at hb; omega⟩
  · intro b hb hfree'
    rw [mem_blocks_iff hend] at hb
    simp only at hb
    obtain ⟨j, bg', hbg', hge, hlt⟩ := (L.free_iff hkeeps).mp hfree'
    have hj : j < L.groups := hkeeps.lt hbg'
    obtain rfl : i = j := L.group_unique hi hj (b := b) (by omega) (by omega)
    obtain rfl := Option.some.inj (hself.symm.trans hbg')
    rw [BlockGroupInfo.give_firstFreeBlock] at hge
    omega

theorem Layout.Keeps.release (hk : L.Keeps aux) (hbg : aux.bgs[i]? = some bg)
    (hheader : L.header i + len ≤ bg.firstFreeBlock) (hlimit : bg.firstFreeBlock ≤ L.limit i) :
    L.Keeps (aux.setBg i (bg.releaseBlocks len)) ∧
      ∀ b, L.Free (aux.setBg i (bg.releaseBlocks len)) b ↔
        L.Free aux b ∨ L.first i + bg.firstFreeBlock - len ≤ b ∧ b < L.first i + bg.firstFreeBlock := by
  have hgroup := hk.group hbg
  obtain ⟨hsound, hfirst⟩ := hgroup.sound.release (n := len) L.bpg_lt hheader hlimit
  have hkeeps : L.Keeps (aux.setBg i (bg.releaseBlocks len)) :=
    hk.setBg ⟨hgroup.first, hgroup.header, hsound⟩
  have hself := aux.setBg_self (bg.releaseBlocks len) hbg
  refine ⟨hkeeps, fun b => ?_⟩
  rw [L.free_iff hkeeps, L.free_iff hk]
  constructor
  · rintro ⟨j, bg', hbg', hge, hlt⟩
    by_cases hji : j = i
    · subst hji
      obtain rfl := Option.some.inj (hself.symm.trans hbg')
      rw [hfirst] at hge
      rcases Nat.lt_or_ge b (L.first j + bg.firstFreeBlock) with hb | hb
      · exact Or.inr ⟨by omega, hb⟩
      · exact Or.inl ⟨j, bg, hbg, hb, hlt⟩
    · rw [aux.setBg_ne _ hji] at hbg'
      exact Or.inl ⟨j, bg', hbg', hge, hlt⟩
  · rintro (⟨j, bg', hbg', hge, hlt⟩ | ⟨hge, hlt⟩)
    · by_cases hji : j = i
      · subst hji
        obtain rfl := Option.some.inj (hbg.symm.trans hbg')
        exact ⟨j, _, hself, by rw [hfirst]; omega, hlt⟩
      · exact ⟨j, bg', by rw [aux.setBg_ne _ hji]; exact hbg', hge, hlt⟩
    · exact ⟨i, _, hself, by rw [hfirst]; omega, by omega⟩

end Freeing

section Steps

variable {L : Layout} {aux : FsAuxInfo} {alloc : BlockAllocation} {v : View} {force : Bool}
  {l : List Ext4Error} {len : Nat}

theorem shows_one (p : Piece) (hpos : 0 < p.len) : Shows (freshAlloc [p]) ⟨p.blocks, [], 0⟩ := by
  refine ⟨[0], [], [p], [], ⟨⟨rfl, List.nodup_singleton 0, by simpa using hpos, ?_, rfl, rfl⟩,
    .empty _, List.disjoint_nil_right _⟩, by simp, rfl, 0, Nat.zero_le _, rfl, rfl⟩
  intro k i q hi hq
  cases k with
  | succ k => simp at hi
  | zero =>
    simp only [List.getElem?_cons_zero, Option.some.injEq] at hi hq
    subst hi hq
    rfl

theorem appendOob_shows (h : Shows alloc v) {p : Piece} (hpos : 0 < p.len) :
    ∃ alloc', appendOobLoop (alloc.regions ++ linkPieces alloc.regions.length none [p]).length
        { alloc with regions := alloc.regions ++ linkPieces alloc.regions.length none [p] }
        (some alloc.regions.length) = some alloc' ∧
      Shows alloc' (v.appendOob p.blocks) := by
  obtain ⟨ids, oobIds, ps, qs, hlisted, hmain, hoob, hcursor⟩ := h
  have hfresh : alloc.regions.length ∉ oobIds := fun hi => lt_irrefl _ (hlisted.oob.lt hi)
  have hgrown := hlisted.grow (linkPieces alloc.regions.length none [p])
  have hcell : (alloc.regions ++ linkPieces alloc.regions.length none [p])[
      alloc.regions.length]? = some (some ⟨p.block, p.len, p.bg, none, none⟩) := by
    simp [linkPieces]
  obtain ⟨a, oobList, hrun, hlinked, hother, -⟩ := hgrown.oob.append hcell hfresh hpos
  refine ⟨{ alloc with regions := a, oobList }, ?_, ?_⟩
  · have hlast : a[alloc.regions.length]? = some (some (regionAt (oobIds ++ [alloc.regions.length])
        oobIds.length p)) := hlinked.cell oobIds.length _ p (by simp) (by simp [hlisted.oob.same,
          Region.piece])
    have hnext : (regionAt (oobIds ++ [alloc.regions.length]) oobIds.length p).next = none := by
      simp [regionAt]
    rw [List.length_append, length_linkPieces, List.length_singleton, appendOobLoop]
    simp only [Option.bind_eq_bind]
    rw [hrun]
    simp only [Option.bind_some, Arena.look_eq_some.mpr hlast, hnext]
    rw [appendOobLoop]
  · refine ⟨ids, oobIds ++ [alloc.regions.length], ps, qs ++ [p], ⟨?_, hlinked, ?_⟩, hmain, ?_,
      hcursor⟩
    · refine hgrown.main.frame (fun i hi => hother i (fun hids => hlisted.apart hi hids) ?_) rfl rfl
      exact (hlisted.main.lt hi).ne
    · intro i hi hoob
      rcases List.mem_append.mp hoob with hoob | hoob
      · exact hlisted.apart hi hoob
      · exact (hlisted.main.lt hi).ne (List.mem_singleton.mp hoob)
    · simp [View.appendOob, hoob]

theorem bestFit_one (hk : L.Keeps aux) (hone : aux.InOnePiece len) (force : Bool)
    (l : List Ext4Error) :
    (∃ aux' l', L.Keeps aux' ∧ ext4AllocateBestFit force len (aux, l) = .ok ([], (aux', l'))) ∨
      (∃ e, ext4AllocateBestFit force len (aux, l) = .error (.error e)) ∨
      ∃ i bg, aux.bgs[i]? = some bg ∧ len ≤ bg.freeBlocks ∧ 0 < len ∧
        ext4AllocateBestFit force len (aux, l) =
          .ok ([⟨L.first i + bg.firstFreeBlock, len, i⟩], (aux.setBg i (bg.give len), l)) := by
  obtain ⟨ps, aux', left, hdraws, hend⟩ := bestFitLoop_run force l len le_rfl hk
  have hkeeps : L.Keeps aux' := by
    have howns : L.Owns aux' (ps ++ []) := hdraws.owns ⟨hk, by simp, List.Pairwise.nil⟩
    exact howns.keeps
  rw [ext4AllocateBestFit, Run.bind_run]
  rcases hend with ⟨rfl, -, hrun⟩ | ⟨-, e, -, hrun⟩
  · rw [hrun]
    rcases Nat.eq_zero_or_pos len with rfl | hpos
    · cases hdraws with
      | stop => exact Or.inl ⟨aux, l, hk, rfl⟩
      | draw _ _ _ hzero _ => exact absurd hzero (lt_irrefl 0)
    · obtain ⟨i, bg, hbg, hfit, rfl, rfl⟩ := hdraws.one hk hone hpos
      exact Or.inr (Or.inr ⟨i, bg, hbg, hfit, hpos, rfl⟩)
  · rw [hrun]
    cases force with
    | false => exact Or.inr (Or.inl ⟨e, rfl⟩)
    | true => exact Or.inl ⟨aux', l ++ [e], hkeeps, rfl⟩

def Layout.Goes (L : Layout) (s : Ledger) (op : ListOp) :
    Except (Stop Ext4Error) (Int × (Ledger × List Ext4Error)) → Prop
  | .ok (r, (s', _)) => L.Refines s s' r op ∧ L.Keeps s'.aux ∧ ∃ v, Shows s'.alloc v
  | .error (.error _) => True
  | .error .crash => False

theorem onAllocator_ok {α : Type} {m : Alloc α} {a : α} {s : Ledger} {aux' : FsAuxInfo}
    {l' : List Ext4Error} (h : m (s.aux, l) = .ok (a, (aux', l'))) :
    Ledger.onAllocator m (s, l) = .ok (a, ({ s with aux := aux' }, l')) := by
  simp only [Ledger.onAllocator, Run.zoom, h]

theorem onAllocator_error {α : Type} {m : Alloc α} {s : Ledger} {e : Stop Ext4Error}
    (h : m (s.aux, l) = .error e) : Ledger.onAllocator m (s, l) = .error e := by
  simp only [Ledger.onAllocator, Run.zoom, h]

variable {s : Ledger}

theorem allocateBlocks_goes (hk : L.Keeps s.aux) (hs : Shows s.alloc v)
    (hone : s.aux.InOnePiece len) :
    L.Goes s (.allocateBlocks len) (Ledger.step force (.allocateBlocks len) (s, l)) := by
  rw [Ledger.step, Run.bind_run]
  obtain ⟨aux', l', hkeeps, hrun⟩ | ⟨e, hrun⟩ | ⟨i, bg, hbg, hfit, hpos, hrun⟩ :=
    bestFit_one hk hone force l
  · have hnone : allocateBlocks force len (s.aux, l) = .ok (none, (aux', l')) := by
      rw [allocateBlocks, Run.bind_run, hrun]
      rfl
    rw [onAllocator_ok hnone]
    exact ⟨fun w hw => ⟨fun hr => by simp at hr, fun _ => hw⟩, hkeeps, v, hs⟩
  · have herror : allocateBlocks force len (s.aux, l) = .error (.error e) := by
      rw [allocateBlocks, Run.bind_run, hrun]
    rw [onAllocator_error herror]
    trivial
  · have hsome : allocateBlocks force len (s.aux, l) =
        .ok (some (freshAlloc [⟨L.first i + bg.firstFreeBlock, len, i⟩]),
          (s.aux.setBg i (bg.give len), l)) := by
      rw [allocateBlocks, Run.bind_run, hrun]
      rfl
    have hshows := shows_one ⟨L.first i + bg.firstFreeBlock, len, i⟩ hpos
    rw [onAllocator_ok hsome]
    refine ⟨fun w hw => ⟨fun _ => ⟨_, ?_, hk.takes hbg hfit hpos, hshows⟩, fun hr => ?_⟩,
      hk.setBg ((hk.group hbg).give hfit), _, hshows⟩
    · simp [Piece.blocks]
    · exact absurd rfl hr

theorem elsewhere_goes (hk : L.Keeps s.aux) (hs : Shows s.alloc v) :
    L.Goes s (.elsewhere len) (Ledger.step force (.elsewhere len) (s, l)) := by
  obtain ⟨ps, aux', left, hdraws, hend⟩ := allocateBlocks_run force len l hk
  have hkeeps : L.Keeps aux' := by
    have howns : L.Owns aux' (ps ++ []) := hdraws.owns ⟨hk, by simp, List.Pairwise.nil⟩
    exact howns.keeps
  have hgoes (l' : List Ext4Error) :
      L.Goes s (.elsewhere len) (.ok (0, ({ s with aux := aux' }, l'))) :=
    ⟨fun w hw => ⟨w.cursor, hw⟩, hkeeps, v, hs⟩
  rw [Ledger.step, Run.bind_run]
  rcases hend with ⟨rfl, -, hrun⟩ | ⟨-, e, -, hrun⟩
  · rw [onAllocator_ok hrun]
    exact hgoes l
  · cases force with
    | false =>
      rw [onAllocator_error (e := .error e) hrun]
      trivial
    | true =>
      rw [@onAllocator_ok _ _ _ none _ _ (l ++ [e]) hrun]
      exact hgoes _

theorem appendOobAllocation_goes (hk : L.Keeps s.aux) (hs : Shows s.alloc v)
    (hone : s.aux.InOnePiece len) :
    L.Goes s (.appendOobAllocation len) (Ledger.step force (.appendOobAllocation len) (s, l)) := by
  rw [Ledger.step, Run.bind_run, Run.read_run]
  dsimp only
  rw [Run.bind_run]
  obtain ⟨aux', l', hkeeps, hrun⟩ | ⟨e, hrun⟩ | ⟨i, bg, hbg, hfit, hpos, hrun⟩ :=
    bestFit_one hk hone force l
  · cases force with
    | false =>
      have herror : appendOobAllocation false s.alloc len (s.aux, l) =
          .error (.error (.failedToAllocateOob len)) := by
        rw [appendOobAllocation, Run.bind_run, hrun]
        rfl
      rw [onAllocator_error herror]
      trivial
    | true =>
      have hnone : appendOobAllocation true s.alloc len (s.aux, l) =
          .ok ((s.alloc, -1), (aux', l' ++ [.failedToAllocateOob len])) := by
        rw [appendOobAllocation, Run.bind_run, hrun]
        rfl
      rw [onAllocator_ok hnone]
      exact ⟨fun w hw => ⟨fun hr => by simp at hr, fun _ => hw⟩, hkeeps, v, hs⟩
  · have herror : appendOobAllocation force s.alloc len (s.aux, l) = .error (.error e) := by
      rw [appendOobAllocation, Run.bind_run, hrun]
    rw [onAllocator_error herror]
    trivial
  · have hpiece : 0 < (⟨L.first i + bg.firstFreeBlock, len, i⟩ : Piece).len := hpos
    obtain ⟨alloc', hloop, hshows⟩ := appendOob_shows hs hpiece
    have hsome : appendOobAllocation force s.alloc len (s.aux, l) =
        .ok ((alloc', 0), (s.aux.setBg i (bg.give len), l)) := by
      rw [appendOobAllocation, Run.bind_run, hrun]
      dsimp only
      rw [hloop]
      rfl
    rw [onAllocator_ok hsome]
    refine ⟨fun w hw => ⟨fun _ => ⟨_, ?_, hk.takes hbg hfit hpos, ?_⟩, fun hr => absurd rfl hr⟩,
      hk.setBg ((hk.group hbg).give hfit), _, hshows⟩
    · simp [Piece.blocks]
    · obtain ⟨alloc1, hloop1, hshows1⟩ := appendOob_shows hw hpiece
      obtain rfl := Option.some.inj (hloop.symm.trans hloop1)
      exact hshows1

theorem appendRegion_goes (hk : L.Keeps s.aux) (hs : Shows s.alloc v) {p : Piece}
    (hpos : 0 < p.len) :
    L.Goes s (.appendRegion p) (Ledger.step force (.appendRegion p) (s, l)) := by
  obtain ⟨alloc', hrun, c, hshows⟩ := appendRegion_shows hs hpos
  rw [Ledger.step, Run.bind_run, Run.read_run]
  dsimp only
  rw [hrun]
  refine ⟨fun w hw => ?_, hk, _, hshows⟩
  obtain ⟨alloc1, hrun1, hshows1⟩ := appendRegion_shows hw hpos
  obtain rfl := Option.some.inj (hrun.symm.trans hrun1)
  exact hshows1

theorem length_blocks (ps : List Piece) :
    (ps.flatMap Piece.blocks).length = (ps.map Piece.len).sum := by
  rw [List.length_flatMap]
  congr 1
  refine List.map_congr_left fun p _ => ?_
  rw [Piece.blocks, List.length_map, List.length_range]

theorem reserveOobBlocks_goes (hk : L.Keeps s.aux) (hs : Shows s.alloc v) {n : Nat}
    (hallow : L.Allows s (.reserveOobBlocks n)) :
    L.Goes s (.reserveOobBlocks n) (Ledger.step force (.reserveOobBlocks n) (s, l)) := by
  obtain ⟨hn, hpartial, hask⟩ := hallow
  obtain ⟨cells, hchain, -⟩ := hs.chain
  have hleft := chainLen_of_chain Region.len hchain hchain.length_le
  have hask := hask _ hleft
  obtain ⟨r, hrun⟩ := reserveOobBlocks_stays hs (by omega) hpartial hleft hask
  rw [Ledger.step, Run.bind_run, Run.read_run]
  dsimp only
  rw [hrun]
  refine ⟨fun w hw hroom => ?_, hk, v, hs⟩
  rcases hask with rfl | hmore
  · rw [View.reserveOob_zero]
    exact hw
  · -- the blocks from the cursor's region on are fewer than the claim asks for
    obtain ⟨ids, oobIds, ps, qs, hlisted, hmain, -, k, hk, hiter, hcursor⟩ := hw
    obtain ⟨cells', hchain', hpieces⟩ := hlisted.main.chain hk
    rw [← hiter] at hchain'
    have hsame := hchain.unique hchain'
    have hlens : (cells.map fun c => c.2.len).sum = ((ps.drop k).map Piece.len).sum := by
      rw [hsame, ← hpieces, piecesOf, List.map_map]
      rfl
    have hsum : ((ps.take k).map Piece.len).sum + ((ps.drop k).map Piece.len).sum =
        (ps.map Piece.len).sum := by
      rw [← List.sum_append, ← List.map_append, List.take_append_drop]
    rw [hmain, length_blocks, hcursor, hpartial] at hroom
    omega

theorem advanceBlocks_goes (hk : L.Keeps s.aux) (hs : Shows s.alloc v) (n : Nat) :
    L.Goes s (.advanceBlocks n) (Ledger.step force (.advanceBlocks n) (s, l)) := by
  obtain ⟨alloc', r, hrun, c, hshows⟩ := advanceBlocks_shows hs n
  rw [Ledger.step, Run.bind_run, Run.read_run]
  dsimp only
  rw [hrun]
  refine ⟨fun w hw => ?_, hk, _, hshows⟩
  obtain ⟨alloc1, r1, hrun1, hshows1⟩ := advanceBlocks_shows hw n
  rw [hrun, Option.some.injEq, Prod.mk.injEq] at hrun1
  obtain ⟨rfl, -⟩ := hrun1
  exact hshows1

theorem rewindAlloc_goes (hk : L.Keeps s.aux) (hs : Shows s.alloc v) :
    L.Goes s .rewindAlloc (Ledger.step force .rewindAlloc (s, l)) := by
  obtain ⟨c, hshows⟩ := rewindAlloc_shows hs
  exact ⟨fun w hw => rewindAlloc_shows hw, hk, _, hshows⟩

theorem getNextRegion_goes (hk : L.Keeps s.aux) (hs : Shows s.alloc v)
    (hiter : s.alloc.list.iter ≠ none) :
    L.Goes s .getNextRegion (Ledger.step force .getNextRegion (s, l)) := by
  obtain ⟨alloc', hrun, c, hshows⟩ := getNextRegion_shows hs hiter
  rw [Ledger.step, Run.bind_run, Run.read_run]
  dsimp only
  rw [hrun]
  refine ⟨fun w hw => ?_, hk, _, hshows⟩
  obtain ⟨alloc1, hrun1, hshows1⟩ := getNextRegion_shows hw hiter
  obtain rfl := Option.some.inj (hrun.symm.trans hrun1)
  exact hshows1

theorem blocks_take {p : Piece} {n : Nat} (hn : n ≤ p.len) :
    p.blocks.take n = Piece.blocks { p with len := n } := by
  rw [Piece.blocks, Piece.blocks, ← List.map_take, List.take_range, min_eq_left hn]

theorem blocks_drop (p : Piece) (n : Nat) :
    p.blocks.drop n = Piece.blocks ⟨p.block + n, p.len - n, p.bg⟩ := by
  apply List.ext_getElem
  · simp [Piece.blocks]
  · intro k hk hk'
    simp [Piece.blocks, Nat.add_assoc]

theorem split_back (xs : List Nat) {p : Piece} {n : Nat} (hn : n ≤ p.len) :
    (xs ++ p.blocks).take ((xs ++ p.blocks).length - n) =
        xs ++ Piece.blocks { p with len := p.len - n } ∧
      (xs ++ p.blocks).drop ((xs ++ p.blocks).length - n) =
        Piece.blocks ⟨p.block + (p.len - n), p.len - (p.len - n), p.bg⟩ := by
  have hlen : (xs ++ p.blocks).length - n = xs.length + (p.len - n) := by
    have hblocks : p.blocks.length = p.len := by simp [Piece.blocks]
    rw [List.length_append, hblocks]
    omega
  rw [hlen, List.take_length_add_append, List.drop_length_add_append, blocks_drop,
    blocks_take (Nat.sub_le _ _)]
  exact ⟨rfl, rfl⟩

theorem Linked.last_split {a : Arena Region} {list : RegionList} {ids : List Nat} {ps : List Piece}
    {i : Nat} {r : Region} (h : Linked a list ids ps) (hlast : list.last = some i)
    (hr : a[i]? = some (some r)) :
    ∃ ids' ps', ids = ids' ++ [i] ∧ ps = ps' ++ [r.piece] ∧ (ids' = [] → r.prev = none) := by
  rw [h.last] at hlast
  obtain ⟨ids', rfl⟩ := List.getLast?_eq_some_iff.mp hlast
  have hsame := h.same
  rw [List.length_append, List.length_singleton] at hsame
  have hlt : ids'.length < ps.length := by omega
  have hcell := h.cell ids'.length i ps[ids'.length] (by simp) (List.getElem?_eq_getElem hlt)
  rw [hr, Option.some.injEq, Option.some.injEq] at hcell
  subst hcell
  refine ⟨ids', ps.take ids'.length, rfl, ?_, ?_⟩
  · have hsplit := List.take_append_drop ids'.length ps
    rw [List.drop_eq_getElem_cons hlt, List.drop_eq_nil_of_le (by omega)] at hsplit
    exact hsplit.symm
  · rintro rfl
    rfl

theorem Linked.only {a : Arena Region} {list : RegionList} {ids : List Nat} {ps : List Piece}
    {i : Nat} {r : Region} (h : Linked a list ids ps) (hlast : list.last = some i)
    (hfirst : list.first = some i) (hr : a[i]? = some (some r)) :
    ids = [i] ∧ ps = [r.piece] ∧ r.prev = none := by
  obtain ⟨ids', ps', rfl, rfl, hprev⟩ := h.last_split hlast hr
  have hids : ids' = [] := by
    cases ids' with
    | nil => rfl
    | cons f rest =>
      have hf : f = i := by simpa using h.first.symm.trans hfirst
      have hnodup := h.nodup
      rw [hf] at hnodup
      simp at hnodup
  subst hids
  obtain rfl : ps' = [] := List.eq_nil_of_length_eq_zero (by simpa using h.same.symm)
  exact ⟨rfl, rfl, hprev rfl⟩

section Reducing

variable {i n : Nat} {r : Region} {bg : BlockGroupInfo} {aux : FsAuxInfo}

theorem Shows.mem_back (h : Shows alloc v) (hlast : alloc.list.last = some i)
    (hr : alloc.regions[i]? = some (some r)) (hn : n ≤ r.len)
    (hword : r.block + r.len ≤ 4294967296) (b : Nat) : b ∈ v.main.drop (v.main.length - n) ↔
      r.block + r.len - n ≤ b ∧ b < r.block + r.len := by
  obtain ⟨ids, oobIds, ps, qs, hlisted, hmain, -⟩ := h
  obtain ⟨ids', ps', rfl, rfl, -⟩ := hlisted.main.last_split hlast hr
  rw [hmain, List.flatMap_append, List.flatMap_singleton,
    (split_back _ (show n ≤ r.piece.len from hn)).2,
    mem_blocks_iff (by simp only [Region.piece]; omega)]
  simp only [Region.piece]
  omega

theorem Shows.shorten (h : Shows alloc v) (hlast : alloc.list.last = some i)
    (hr : alloc.regions[i]? = some (some r)) (hn : n < r.len) :
    ∃ c, Shows { alloc with regions := alloc.regions.set i (some { r with len := r.len - n }) }
      { v.reduce n with cursor := c } := by
  obtain ⟨ids, oobIds, ps, qs, hlisted, hmain, hoob, k, hk, hiter, -⟩ := h
  obtain ⟨ids', ps', rfl, rfl, -⟩ := hlisted.main.last_split hlast hr
  refine ⟨((ps' ++ [{ r.piece with len := r.len - n }]).take k |>.map Piece.len).sum +
    alloc.list.partialIter, ids' ++ [i], oobIds, ps' ++ [{ r.piece with len := r.len - n }], qs,
    ⟨hlisted.main.resize (by omega) hr, ?_, hlisted.apart⟩, ?_, hoob, k, hk, hiter, rfl⟩
  · refine hlisted.oob.frame (fun j hj => List.getElem?_set_ne ?_) rfl rfl
    rintro rfl
    exact hlisted.apart (by simp) hj
  · rw [View.reduce, hmain, List.flatMap_append, List.flatMap_singleton,
      (split_back _ (show n ≤ r.piece.len from hn.le)).1, List.flatMap_append,
      List.flatMap_singleton]
    rfl

theorem Shows.clear (h : Shows alloc v) (hlast : alloc.list.last = some i)
    (hfirst : alloc.list.first = some i) (hr : alloc.regions[i]? = some (some r)) :
    ∃ c, Shows ⟨alloc.regions.set i none, .empty, alloc.oobList⟩
      { v.reduce r.len with cursor := c } := by
  obtain ⟨ids, oobIds, ps, qs, hlisted, hmain, hoob, -⟩ := h
  obtain ⟨rfl, rfl, -⟩ := hlisted.main.only hlast hfirst hr
  refine ⟨0, [], oobIds, [], qs, ⟨.empty _, ?_, List.disjoint_nil_left _⟩, ?_, hoob, 0, le_rfl,
    rfl, rfl⟩
  · refine hlisted.oob.frame (fun j hj => List.getElem?_set_ne ?_) rfl rfl
    rintro rfl
    exact hlisted.apart (by simp) hj
  · have hlen : (r.piece.blocks).length = r.len := by simp [Piece.blocks, Region.piece]
    rw [View.reduce, hmain, List.flatMap_singleton, hlen, Nat.sub_self, List.take_zero]
    rfl

theorem onGroup_release (hbg : aux.bgs[r.bg]? = some bg) :
    onGroup r.bg (Run.update fun b => b.releaseBlocks n) (aux, l) =
      .ok ((), (aux.setBg r.bg (bg.releaseBlocks n), l)) := by
  simp only [onGroup, Run.zoom, hbg, Run.update_run]

theorem reduceAllocation_shorten (hlast : alloc.list.last = some i)
    (hr : alloc.regions[i]? = some (some r)) (hbg : aux.bgs[r.bg]? = some bg) (hpos : 0 < n)
    (hn : n < r.len) : reduceAllocation alloc n (aux, l) =
      .ok ({ alloc with regions := alloc.regions.set i (some { r with len := r.len - n }) },
        (aux.setBg r.bg (bg.releaseBlocks n), l)) := by
  have hlook : alloc.regions.look (some i) = some r := Arena.look_eq_some.mpr hr
  obtain ⟨m, rfl⟩ : ∃ m, n = m + 1 := Nat.exists_eq_add_of_le' hpos
  simp only [reduceAllocation, reduceLoop, hlast, hlook, Run.expect, Run.bind_run, Run.pure_run,
    if_pos hn, onGroup_release hbg, Arena.modify_of_look _ hr]

theorem reduceAllocation_clear (hlast : alloc.list.last = some i)
    (hr : alloc.regions[i]? = some (some r)) (hbg : aux.bgs[r.bg]? = some bg) (hpos : 0 < r.len)
    (hprev : r.prev = none) : reduceAllocation alloc r.len (aux, l) =
      .ok (⟨alloc.regions.set i none, .empty, alloc.oobList⟩,
        (aux.setBg r.bg (bg.releaseBlocks r.len), l)) := by
  have hlook : alloc.regions.look (some i) = some r := Arena.look_eq_some.mpr hr
  have hfreed : alloc.regions.free (some i) = some (alloc.regions.set i none) := by
    simp only [Arena.free, hlook]
  obtain ⟨m, hm⟩ : ∃ m, r.len = m + 1 := Nat.exists_eq_add_of_le' hpos
  simp only [reduceAllocation, hm, reduceLoop, hlast, hlook, Run.expect, Run.bind_run, Run.pure_run,
    gt_iff_lt, lt_irrefl, if_false, onGroup_release hbg, hprev, hfreed, Nat.sub_self]

end Reducing

theorem reduceAllocation_goes (hk : L.Keeps s.aux) (hs : Shows s.alloc v) {n : Nat}
    (hallow : L.Allows s (.reduceAllocation n)) :
    L.Goes s (.reduceAllocation n) (Ledger.step force (.reduceAllocation n) (s, l)) := by
  rw [Ledger.step, Run.bind_run, Run.read_run]
  dsimp only
  rw [Run.bind_run]
  rcases Nat.eq_zero_or_pos n with rfl | hpos
  · have hrun : reduceAllocation s.alloc 0 (s.aux, l) = .ok (s.alloc, (s.aux, l)) := rfl
    rw [onAllocator_ok hrun]
    refine ⟨fun w hw _ => ⟨⟨w.cursor, ?_⟩, fun b => ?_⟩, hk, v, hs⟩
    · rw [View.reduce, Nat.sub_zero, List.take_length]
      exact hw
    · simp
  · obtain hzero | ⟨i, r, bg, hlast, hr, hbg, hheld, htop, hshort⟩ := hallow
    · omega
    have hstop := hheld.stop
    have hstart := hheld.start
    simp only [Layout.top, Region.piece] at hstop hstart
    have hword := L.word r.bg (hk.lt hbg)
    obtain ⟨hkeeps, hfree⟩ := @hk.release _ _ _ n _ hbg (by omega) (by omega)
    have hback (w : View) (hw : Shows s.alloc w) (b : Nat) :=
      hw.mem_back hlast hr (show n ≤ r.len by omega) (by omega) b
    rcases hshort with hlt | ⟨rfl, hfirst⟩
    · rw [onAllocator_ok (reduceAllocation_shorten hlast hr hbg hpos hlt)]
      refine ⟨fun w hw _ => ⟨hw.shorten hlast hr hlt, fun b => ?_⟩, hkeeps, ?_⟩
      · rw [hfree b, hback w hw b, htop]
      · obtain ⟨c, hc⟩ := hs.shorten hlast hr hlt
        exact ⟨_, hc⟩
    · have hprev : r.prev = none := by
        obtain ⟨ids, oobIds, ps, qs, hlisted, -⟩ := hs
        exact (hlisted.main.only hlast hfirst hr).2.2
      rw [onAllocator_ok (reduceAllocation_clear hlast hr hbg hpos hprev)]
      refine ⟨fun w hw _ => ⟨hw.clear hlast hfirst hr, fun b => ?_⟩, hkeeps, ?_⟩
      · rw [hfree b, hback w hw b, htop]
      · obtain ⟨c, hc⟩ := hs.clear hlast hfirst hr
        exact ⟨_, hc⟩

end Steps

def Layout.AllowsRun (L : Layout) (force : Bool) :
    List ListOp → Ledger × List Ext4Error → Prop
  | [], _ => True
  | op :: rest, st => L.Allows st.1 op ∧
      ∀ r st', Ledger.step force op st = .ok (r, st') → L.AllowsRun force rest st'

def Layout.RefinesRun (L : Layout) (force : Bool) :
    List ListOp → Ledger × List Ext4Error → Prop
  | [], st => ∃ v, Shows st.1.alloc v
  | op :: rest, st => (∃ v, Shows st.1.alloc v) ∧ Ledger.step force op st ≠ .error .crash ∧
      ∀ r st', Ledger.step force op st = .ok (r, st') →
        L.Refines st.1 st'.1 r op ∧ L.RefinesRun force rest st'

section Runs

variable {L : Layout} {force : Bool}

theorem step_goes {s : Ledger} {l : List Ext4Error} {v : View} (hk : L.Keeps s.aux)
    (hs : Shows s.alloc v) {op : ListOp} (hallow : L.Allows s op) :
    L.Goes s op (Ledger.step force op (s, l)) := by
  cases op with
  | allocateBlocks len => exact allocateBlocks_goes hk hs hallow
  | elsewhere len => exact elsewhere_goes hk hs
  | appendRegion p => exact appendRegion_goes hk hs hallow
  | reserveOobBlocks n => exact reserveOobBlocks_goes hk hs hallow
  | appendOobAllocation len => exact appendOobAllocation_goes hk hs hallow
  | reduceAllocation n => exact reduceAllocation_goes hk hs hallow
  | advanceBlocks n => exact advanceBlocks_goes hk hs n
  | rewindAlloc => exact rewindAlloc_goes hk hs
  | getNextRegion => exact getNextRegion_goes hk hs hallow

theorem refinesRun_of_shows (ops : List ListOp) {st : Ledger × List Ext4Error} {v : View}
    (hk : L.Keeps st.1.aux) (hs : Shows st.1.alloc v) (hallow : L.AllowsRun force ops st) :
    L.RefinesRun force ops st := by
  induction ops generalizing st v with
  | nil => exact ⟨v, hs⟩
  | cons op rest ih =>
    obtain ⟨hop, hrest⟩ := hallow
    have hgoes := @step_goes _ force _ st.2 _ hk hs _ hop
    refine ⟨⟨v, hs⟩, ?_, ?_⟩
    · intro hcrash
      rw [show (st.1, st.2) = st from rfl, hcrash] at hgoes
      exact hgoes
    · intro r st' hrun
      rw [show (st.1, st.2) = st from rfl, hrun] at hgoes
      obtain ⟨hrefines, hkeeps, w, hw⟩ := hgoes
      exact ⟨hrefines, ih hkeeps hw (hrest r st' hrun)⟩

end Runs

theorem regionLists_refine {L : Layout} {aux : FsAuxInfo} (hk : L.Keeps aux) (force : Bool)
    (ops : List ListOp) (l : List Ext4Error)
    (hallow : L.AllowsRun force ops (⟨aux, createAllocation⟩, l)) :
    L.RefinesRun force ops (⟨aux, createAllocation⟩, l) :=
  refinesRun_of_shows ops hk shows_create hallow

section Example

def oneGroup : Layout where
  groups := 1
  bpg := 64
  firstDataBlock := 0
  lenBlocks := 64
  first _ := 0
  header _ := 4
  limit _ := 64
  bpg_lt := by decide
  word _ _ := by decide
  inside _ _ := by decide
  header_le _ _ := by decide
  apart i j hi hj := by omega

def oneGroupWith (used given : Nat) : FsAuxInfo :=
  { smallAux with
    lenBlocks := 64
    bgs := [{ BlockGroupInfo.zero with
      headerBlocks := 4
      dataBlocksUsed := given
      blockBitmap := 2 ^ used - 1
      freeBlocks := 64 - used
      firstFreeBlock := used }] }

theorem oneGroup_keeps {used : Nat} (given : Nat) (hge : 4 ≤ used) (hle : used ≤ 64) :
    oneGroup.Keeps (oneGroupWith used given) where
  groups := rfl
  firstDataBlock := rfl
  lenBlocks := rfl
  length := rfl
  group := by
    intro i bg hbg
    cases i with
    | succ i => cases hbg
    | zero =>
      cases hbg
      refine ⟨rfl, rfl, fun k => ?_, rfl, hge, le_rfl, Or.inl hle⟩
      rw [Nat.testBit_two_pow_sub_one]
      congr 1
      simp [oneGroup]

theorem Layout.AllowsRun.cons {L : Layout} {force : Bool} {op : ListOp} {rest : List ListOp}
    {st : Ledger × List Ext4Error} {r : Int} (t : Ledger × List Ext4Error)
    (hrun : Ledger.step force op st = .ok (r, t)) (hop : L.Allows st.1 op)
    (hrest : L.AllowsRun force rest t) : L.AllowsRun force (op :: rest) st := by
  refine ⟨hop, fun r1 st1 h => ?_⟩
  rw [hrun] at h
  cases h
  exact hrest

theorem regionLists_refine_oneGroup : oneGroup.RefinesRun true
    [.allocateBlocks 3, .reduceAllocation 1, .appendOobAllocation 2, .reserveOobBlocks 0]
    (⟨oneGroupWith 4 0, createAllocation⟩, []) := by
  refine regionLists_refine (oneGroup_keeps 0 (by decide) (by decide)) true _ [] ?_
  refine .cons (⟨oneGroupWith 7 3, freshAlloc [⟨4, 3, 0⟩]⟩, []) rfl
    (Or.inl ⟨60, by decide, by decide⟩) ?_
  refine .cons (⟨oneGroupWith 6 3, freshAlloc [⟨4, 2, 0⟩]⟩, []) rfl
    (Or.inr ⟨0, ⟨4, 3, 0, none, none⟩, _, rfl, rfl, rfl, ⟨by decide, by decide, by decide⟩, rfl,
      Or.inl (by decide)⟩) ?_
  refine .cons (⟨oneGroupWith 8 5, ⟨[some ⟨4, 2, 0, none, none⟩, some ⟨6, 2, 0, none, none⟩],
    ⟨some 0, some 0, some 0, 0⟩, ⟨some 1, some 1, some 1, 0⟩⟩⟩, []) rfl
    (Or.inl ⟨58, by decide, by decide⟩) ?_
  exact .cons (⟨oneGroupWith 8 5, ⟨[some ⟨4, 2, 0, none, none⟩, some ⟨6, 2, 0, none, none⟩],
    ⟨some 0, some 0, some 0, 0⟩, ⟨some 1, some 1, some 1, 0⟩⟩⟩, []) rfl
    ⟨by decide, rfl, fun _ _ => Or.inl rfl⟩ trivial

-- One block of three is set aside, and list.last is lost.
theorem reserved_block_loses_last :
    ¬ oneGroup.RefinesRun true [.appendRegion ⟨4, 3, 0⟩, .reserveOobBlocks 1]
      (⟨oneGroupWith 7 3, createAllocation⟩, []) := by
  rintro ⟨-, -, hfirst⟩
  have hrun : Ledger.step true (.appendRegion ⟨4, 3, 0⟩) (⟨oneGroupWith 7 3, createAllocation⟩, []) =
      .ok (0, (⟨oneGroupWith 7 3, linkedAlloc [⟨4, 3, 0⟩]⟩, [])) := rfl
  obtain ⟨-, -, -, hsecond⟩ := hfirst _ _ hrun
  have hreserve : Ledger.step true (.reserveOobBlocks 1)
      (⟨oneGroupWith 7 3, linkedAlloc [⟨4, 3, 0⟩]⟩, []) = .ok (0, (⟨oneGroupWith 7 3,
        { regions := [some ⟨4, 1, 0, none, none⟩, some ⟨5, 2, 0, none, none⟩]
          list := ⟨some 1, none, some 1, 0⟩
          oobList := ⟨some 0, some 0, some 0, 0⟩ }⟩, [])) := rfl
  obtain ⟨-, v, ids, oobIds, ps, qs, hlisted, -⟩ := hsecond _ _ hreserve
  have hids : (1 : Nat) ∈ ids := List.mem_of_getElem? hlisted.main.first.symm
  have hlast : ids = [] := List.getLast?_eq_none_iff.mp hlisted.main.last.symm
  rw [hlast] at hids
  cases hids

end Example

end MakeExt4fs

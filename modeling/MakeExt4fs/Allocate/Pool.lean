import MakeExt4fs.Allocate.BestFit
import MakeExt4fs.Allocate.LastGroup

namespace MakeExt4fs

open ErrorLog Words

section Allocations

variable {L : Layout} {aux aux' : FsAuxInfo} {len left : Nat} {ps qs : List Piece}

def freshAlloc (ps : List Piece) : BlockAllocation :=
  ⟨linkPieces 0 none ps, ⟨some 0, some 0, some 0, 0⟩, .empty⟩

@[simp] theorem freshAlloc_pieces (ps : List Piece) : (freshAlloc ps).pieces = ps := by
  simp [freshAlloc, BlockAllocation.pieces, live_linkPieces]

theorem allocateBlocks_eq (force : Bool) (len : Nat) :
    allocateBlocks force len = (bestFitLoop force len len >>= fun r =>
      match r.getD [] with
      | [] => pure none
      | reg :: rest => pure (some (freshAlloc (reg :: rest)))) := by
  simp only [allocateBlocks, ext4AllocateBestFit, bind_assoc, pure_bind]
  rfl

theorem allocateBlocks_run (force : Bool) (len : Nat) (l : List Ext4Error) (h : L.Keeps aux) :
    ∃ ps aux' left, Draws L aux len ps aux' left ∧
      (left = 0 ∧ (∀ p ∈ ps, p.block ≠ ext4AllocateFailed) ∧ allocateBlocks force len (aux, l) =
          .ok (if len = 0 then none else some (freshAlloc ps), (aux', l)) ∨
        OutOfBlocks aux' left ps ∧ ∃ e, BestFitError e ∧ allocateBlocks force len (aux, l) =
          (Run.raise force e >>= fun _ => pure none) (aux', l)) := by
  obtain ⟨ps, aux', left, hdraws, hend⟩ := bestFitLoop_run force l len le_rfl h
  refine ⟨ps, aux', left, hdraws, ?_⟩
  rw [allocateBlocks_eq]
  rcases hend with ⟨rfl, hok, hrun⟩ | ⟨hout, e, he, hrun⟩
  · refine Or.inl ⟨rfl, hok, ?_⟩
    rw [Run.bind_run, hrun]
    have hsum := hdraws.sum
    cases ps with
    | nil =>
      have hlen : len = 0 := by simpa using hsum.symm
      rw [if_pos hlen]
      rfl
    | cons p rest =>
      cases hdraws with
      | draw hbg best free hlen _ =>
        rw [if_neg (by omega)]
        rfl
  · refine Or.inr ⟨hout, e, he, ?_⟩
    rw [Run.bind_congr_run hrun, bind_assoc]
    rfl

theorem allocateBlockFrom_run (force : Bool) (l : List Ext4Error) (is : List Nat)
    (his : ∀ i ∈ is, i < L.groups) (h : L.Owns aux ps) :
    ∃ b aux' qs, allocateBlockFrom force is (aux, l) = .ok (b, (aux', l)) ∧
      L.Owns aux' (qs ++ ps) ∧ (b = ext4AllocateFailed ∨ ∃ i, ⟨b, 1, i⟩ ∈ qs) := by
  induction is generalizing aux ps with
  | nil => exact ⟨_, aux, [], rfl, h, Or.inl rfl⟩
  | cons i rest ih =>
    obtain ⟨bg, hbg⟩ : ∃ bg, aux.bgs[i]? = some bg :=
      ⟨_, List.getElem?_eq_getElem (by rw [h.keeps.length]; exact his i (by simp))⟩
    have hrest : ∀ j ∈ rest, j < L.groups := fun j hj => his j (by simp [hj])
    rcases Nat.lt_or_ge bg.freeBlocks 1 with hfull | hfree
    · obtain ⟨b, aux', qs, hrun, howns⟩ := ih hrest h
      refine ⟨b, aux', qs, ?_, howns⟩
      rw [allocateBlockFrom, Run.bind_run, Layout.Keeps.fromGroup_full hbg force l hfull]
      exact hrun
    · have hdraw := h.draw hbg Nat.one_pos hfree
      by_cases hfail : L.first i + bg.firstFreeBlock = ext4AllocateFailed
      · -- The block is taken, but its number is the one that says there was none.
        obtain ⟨b, aux', qs, hrun, howns, hb⟩ := ih hrest hdraw
        refine ⟨b, aux', qs ++ [⟨L.first i + bg.firstFreeBlock, 1, i⟩], ?_, by simpa using howns, ?_⟩
        · rw [allocateBlockFrom, Run.bind_run,
            h.keeps.fromGroup_run hbg force l Nat.one_pos hfree]
          simp only [hfail, ne_eq, not_true, if_false]
          exact hrun
        · rcases hb with hb | ⟨j, hj⟩
          · exact Or.inl hb
          · exact Or.inr ⟨j, List.mem_append_left _ hj⟩
      · refine ⟨_, _, [⟨L.first i + bg.firstFreeBlock, 1, i⟩], ?_, hdraw,
          Or.inr ⟨i, List.mem_singleton_self _⟩⟩
        rw [allocateBlockFrom, Run.bind_run, h.keeps.fromGroup_run hbg force l Nat.one_pos hfree]
        simp only [ne_eq, hfail, not_false_iff, if_true]
        rfl

theorem allocateBlock_run (force : Bool) (l : List Ext4Error) (h : L.Owns aux ps) :
    ∃ b aux' qs, allocateBlock force (aux, l) = .ok (b, (aux', l)) ∧
      L.Owns aux' (qs ++ ps) ∧ (b = ext4AllocateFailed ∨ ∃ i, ⟨b, 1, i⟩ ∈ qs) := by
  rw [allocateBlock, Run.bind_run]
  refine allocateBlockFrom_run force l _ ?_ h
  intro i hi
  rw [← h.keeps.groups]
  exact List.mem_range.mp hi

theorem reduceAllocation_run (l : List Ext4Error) (hdraws : Draws L aux len ps aux' left)
    (hps : ps ≠ []) (h : L.Owns aux' (ps ++ qs)) :
    ∃ alloc aux2, reduceAllocation (freshAlloc ps) 1 (aux', l) = .ok (alloc, (aux2, l)) ∧
      L.Owns aux2 (alloc.pieces ++ qs) := by
  cases ps with
  | nil => exact absurd rfl hps
  | cons p rest =>
    obtain ⟨bg, hbg, htop⟩ := hdraws.head_top
    have hpos := (h.held p (by simp)).choose_spec.2.pos
    have hback := Layout.Owns.giveBack (n := 1) h hbg htop hpos
    let r : Region := ⟨p.block, p.len, p.bg, if rest.isEmpty then none else some 1, none⟩
    have hcells : (freshAlloc (p :: rest)).regions = some r :: linkPieces 1 (some 0) rest := rfl
    have hlast : (freshAlloc (p :: rest)).list.last = some 0 := rfl
    have hlook : (freshAlloc (p :: rest)).regions.look (some 0) = some r := rfl
    have hlive := live_linkPieces 1 (some 0) rest
    have hgroup (n : Nat) : onGroup r.bg (Run.update fun b => b.releaseBlocks n) (aux', l) =
        .ok ((), (aux'.setBg p.bg (bg.releaseBlocks n), l)) := by
      simp only [onGroup, Run.zoom, r, hbg, Run.update_run]
    by_cases hone : 1 < p.len
    · rw [if_pos hone] at hback
      refine ⟨{ freshAlloc (p :: rest) with
        regions := some { r with len := p.len - 1 } :: linkPieces 1 (some 0) rest },
        aux'.setBg p.bg (bg.releaseBlocks 1), ?_, ?_⟩
      · have hlen : r.len > 1 := hone
        simp only [reduceAllocation, reduceLoop, hlast, hlook, Run.expect, Run.bind_run,
          Run.pure_run, if_pos hlen, hgroup]
        rfl
      · simpa [BlockAllocation.pieces, r, Region.piece, hlive] using hback
    · have hlen : p.len = 1 := by omega
      rw [if_neg hone] at hback
      refine ⟨⟨none :: linkPieces 1 (some 0) rest, .empty, .empty⟩,
        aux'.setBg p.bg (bg.releaseBlocks 1), ?_, ?_⟩
      · have hrlen : r.len = 1 := hlen
        simp only [reduceAllocation, reduceLoop, hlast, hlook, Run.expect, Run.bind_run,
          Run.pure_run, hrlen, gt_iff_lt, lt_irrefl, if_false, hgroup]
        rfl
      · have hpieces : BlockAllocation.pieces ⟨none :: linkPieces 1 (some 0) rest, .empty, .empty⟩ =
            rest := hlive
        rw [hpieces]
        exact hback

def Carves (ps qs : List Piece) : Prop :=
  ∀ (L : Layout) (aux : FsAuxInfo) (rest : List Piece),
    L.Owns aux (ps ++ rest) → L.Owns aux (qs ++ rest)

theorem Carves.of_eq {ps qs : List Piece} (h : qs = ps) : Carves ps qs := fun _ _ _ ho => h ▸ ho

theorem Carves.trans {ps qs rs : List Piece} (h1 : Carves ps qs) (h2 : Carves qs rs) :
    Carves ps rs := fun L aux rest ho => h2 L aux rest (h1 L aux rest ho)

theorem seek_some {a : Arena Region} {fuel block i k : Nat} {p : Option Nat}
    (h : seek a fuel p block = some (some i, k)) : ∃ r, a[i]? = some (some r) ∧ k < r.len := by
  induction fuel generalizing p block with
  | zero => cases p <;> simp [seek] at h
  | succ fuel ih =>
    cases p with
    | none => simp [seek] at h
    | some j =>
      rw [seek, Option.bind_eq_bind, Option.bind_eq_some_iff] at h
      obtain ⟨r, hr, h⟩ := h
      split at h
      · rename_i hlt
        simp only [Option.some.injEq, Prod.mk.injEq] at h
        obtain ⟨rfl, rfl⟩ := h
        exact ⟨r, Arena.look_eq_some.mp hr, hlt⟩
      · exact ih h

theorem doSplitAllocation_carves {alloc alloc' : BlockAllocation} {len : Nat} {m : Option Nat}
    (h : doSplitAllocation alloc len = some (alloc', m)) : Carves alloc.pieces alloc'.pieces := by
  rw [doSplitAllocation, Option.bind_eq_bind, Option.bind_eq_some_iff] at h
  obtain ⟨⟨found, place⟩, hseek, h⟩ := h
  split at h
  · cases h
    exact Carves.of_eq rfl
  · cases h
    exact Carves.of_eq rfl
  · rename_i i k hk heq
    obtain ⟨rfl, rfl⟩ := heq
    obtain ⟨r, hr, hlt⟩ := seek_some hseek
    simp only [Option.bind_eq_bind, Arena.look_eq_some.mpr hr, Option.bind_some] at h
    rw [Option.bind_eq_some_iff] at h
    obtain ⟨b, hb, h⟩ := h
    cases h
    obtain ⟨j, x, hj, hx, rfl⟩ := Arena.modify_some hb
    cases hj
    obtain ⟨u, v, hcells, hu⟩ := Arena.split_at hr
    have hpos : 0 < place := Nat.pos_of_ne_zero hk
    rw [hcells, ← hu, List.append_assoc, List.getElem?_append_right le_rfl, Nat.sub_self] at hx
    simp only [List.cons_append, List.getElem?_cons_zero, Option.some.injEq] at hx
    subst hx
    intro L aux rest ho
    have hold : alloc.pieces = (Arena.live u).map Region.piece ++ r.piece ::
        (Arena.live v).map Region.piece := by
      simp [BlockAllocation.pieces, hcells]
    rw [hold] at ho
    have hfront : L.Owns aux (r.piece :: ((Arena.live u).map Region.piece ++
        (Arena.live v).map Region.piece ++ rest)) := by
      refine ho.perm ?_
      simp
    obtain ⟨bg, hbg, hheld⟩ := hfront.held r.piece (by simp)
    have hstop := hheld.stop
    have hword := L.word _ (ho.keeps.lt hbg)
    have hblock : u32 (r.block + place) = r.block + place := by
      apply u32_of_lt
      simp only [Layout.top, Region.piece] at hstop hword
      omega
    refine (hfront.cut hpos hlt).perm ?_
    have hnew : BlockAllocation.pieces { alloc with
          regions := (alloc.regions ++ [some (⟨u32 (r.block + place), r.len - place, r.bg, r.next,
            some i⟩ : Region)]).set i (some { r with next := some alloc.regions.length, len := place })
          list := { alloc.list with iter := some alloc.regions.length } } =
        (Arena.live u).map Region.piece ++ ⟨r.block, place, r.bg⟩ ::
          ((Arena.live v).map Region.piece ++ [⟨r.block + place, r.len - place, r.bg⟩]) := by
      simp only [BlockAllocation.pieces]
      rw [hcells, ← hu, List.append_assoc, List.cons_append, Arena.set_split]
      simp [Region.piece, hblock, Arena.live]
    rw [hnew]
    refine List.perm_iff_count.mpr fun p => ?_
    simp only [List.count_append, List.count_cons, List.count_nil, Region.piece]
    omega

theorem relink_pieces {β : Type} {a : Arena Region} {p q : Option Nat} {f : Region → Region}
    {g : Arena Region → Option β} {y : β} (hf : ∀ x, (f x).piece = x.piece)
    (h : (if q.isSome then (a.modify p f).bind g else (some a).bind g) = some y) :
    ∃ b : Arena Region, b.live.map Region.piece = a.live.map Region.piece ∧ g b = some y := by
  split at h
  · obtain ⟨b, hb, h⟩ := Option.bind_eq_some_iff.mp h
    exact ⟨b, Arena.live_map_modify hb hf, h⟩
  · exact ⟨a, rfl, h⟩

theorem regionListRemove_pieces {a b : Arena Region} {list list' : RegionList} {reg : Nat}
    (h : regionListRemove a list reg = some (b, list')) :
    b.live.map Region.piece = a.live.map Region.piece := by
  simp only [regionListRemove, Option.bind_eq_bind] at h
  obtain ⟨r, -, h⟩ := Option.bind_eq_some_iff.mp h
  obtain ⟨c, hc, h⟩ := relink_pieces (fun _ => by rfl) h
  obtain ⟨d, hd, h⟩ := relink_pieces (fun _ => by rfl) h
  obtain ⟨e, he, h⟩ := Option.bind_eq_some_iff.mp h
  simp only [Option.some.injEq, Prod.mk.injEq] at h
  obtain ⟨rfl, -⟩ := h
  rw [Arena.live_map_modify he fun _ => rfl, hd, hc]

theorem regionListAppend_pieces {a b : Arena Region} {list list' : RegionList} {reg : Nat}
    (h : regionListAppend a list reg = some (b, list')) :
    b.live.map Region.piece = a.live.map Region.piece := by
  unfold regionListAppend at h
  split at h <;> simp only [Option.bind_eq_bind, Option.bind_eq_some_iff] at h
  · obtain ⟨c, hc, h⟩ := h
    cases h
    exact Arena.live_map_modify hc fun _ => rfl
  · obtain ⟨c, hc, d, hd, h⟩ := h
    cases h
    rw [Arena.live_map_modify hd fun _ => rfl, Arena.live_map_modify hc fun _ => rfl]

theorem moveToOob_pieces {fuel : Nat} {alloc alloc' : BlockAllocation} {oob : Option Nat}
    (h : moveToOob fuel alloc oob = some alloc') : alloc'.pieces = alloc.pieces := by
  induction fuel generalizing alloc oob with
  | zero =>
    cases oob with
    | none => cases h; rfl
    | some i =>
      rw [moveToOob] at h
      split at h <;> cases h
      rfl
  | succ fuel ih =>
    cases oob with
    | none => cases h; rfl
    | some i =>
      rw [moveToOob] at h
      split at h
      · cases h
        rfl
      · simp only [Option.bind_eq_bind, Option.bind_eq_some_iff] at h
        obtain ⟨r, -, ⟨a, list⟩, hrem, ⟨b, oobList⟩, happ, h⟩ := h
        rw [ih h]
        exact (regionListAppend_pieces happ).trans (regionListRemove_pieces hrem)

theorem reserveOobBlocks_carves {alloc alloc' : BlockAllocation} {blocks r : Int}
    (h : reserveOobBlocks alloc blocks = some (alloc', r)) : Carves alloc.pieces alloc'.pieces := by
  simp only [reserveOobBlocks, splitAllocation, Option.bind_eq_bind, Option.bind_eq_some_iff] at h
  obtain ⟨⟨split, oob⟩, ⟨⟨a1, m1⟩, h1, ⟨a2, m2⟩, h2, h3⟩, h⟩ := h
  have hcarves := (doSplitAllocation_carves h1).trans (doSplitAllocation_carves h2)
  cases h3
  cases m2 with
  | none =>
    cases h
    exact hcarves
  | some i =>
    simp only [Option.bind_eq_some_iff] at h
    obtain ⟨moved, hmove, h⟩ := h
    cases h
    rw [moveToOob_pieces hmove]
    exact hcarves

theorem appendOobLoop_pieces {fuel : Nat} {alloc alloc' : BlockAllocation} {p : Option Nat}
    (h : appendOobLoop fuel alloc p = some alloc') : alloc'.pieces = alloc.pieces := by
  induction fuel generalizing alloc p with
  | zero =>
    cases p <;> cases h
    rfl
  | succ fuel ih =>
    cases p with
    | none => cases h; rfl
    | some i =>
      simp only [appendOobLoop, Option.bind_eq_bind, Option.bind_eq_some_iff] at h
      obtain ⟨⟨a, oobList⟩, happ, r, -, h⟩ := h
      rw [ih h]
      exact regionListAppend_pieces happ

end Allocations

end MakeExt4fs

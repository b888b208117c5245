import MakeExt4fs.Allocate.Safety
import MakeExt4fs.Contents.Advance
import MakeExt4fs.Contents.Linked

namespace MakeExt4fs

open ErrorLog Words

-- What an allocation stands for: the blocks of the main list, those out of band, and how many of
-- the main list's are before the cursor.
structure View where
  main : List Nat
  oob : List Nat
  cursor : Nat

namespace View

def reserveOob (v : View) (n : Nat) : View :=
  { v with
    main := v.main.take v.cursor ++ v.main.drop (v.cursor + n)
    oob := v.oob ++ (v.main.drop v.cursor).take n }

def appendOob (v : View) (new : List Nat) : View := { v with oob := v.oob ++ new }

def appendRegion (v : View) (p : Piece) : View := { v with main := v.main ++ p.blocks }

def reduce (v : View) (n : Nat) : View := { v with main := v.main.take (v.main.length - n) }

theorem reserveOob_zero (v : View) : v.reserveOob 0 = v := by
  rw [reserveOob, Nat.add_zero, List.take_append_drop, List.take_zero, List.append_nil]

end View

def CursorAt (list : RegionList) (ids : List Nat) (ps : List Piece) (c : Nat) : Prop :=
  ∃ k ≤ ids.length, list.iter = ids[k]? ∧ c = ((ps.take k).map Piece.len).sum + list.partialIter

structure Listed (alloc : BlockAllocation) (ids oobIds : List Nat) (ps qs : List Piece) : Prop where
  main : Linked alloc.regions alloc.list ids ps
  oob : Linked alloc.regions alloc.oobList oobIds qs
  apart : ids.Disjoint oobIds

def Shows (alloc : BlockAllocation) (v : View) : Prop :=
  ∃ ids oobIds ps qs, Listed alloc ids oobIds ps qs ∧ v.main = ps.flatMap Piece.blocks ∧
    v.oob = qs.flatMap Piece.blocks ∧ CursorAt alloc.list ids ps v.cursor

section Pure

variable {alloc : BlockAllocation} {v : View} {ids oobIds : List Nat} {ps qs : List Piece}

theorem shows_create : Shows createAllocation ⟨[], [], 0⟩ :=
  ⟨[], [], [], [], ⟨.empty _, .empty _, List.disjoint_nil_left _⟩, rfl, rfl, 0, le_rfl, rfl, rfl⟩

theorem Listed.grow (h : Listed alloc ids oobIds ps qs) (cells : Arena Region) :
    Listed { alloc with regions := alloc.regions ++ cells } ids oobIds ps qs where
  main := h.main.frame (fun _ hi => List.getElem?_append_left (h.main.lt hi)) rfl rfl
  oob := h.oob.frame (fun _ hi => List.getElem?_append_left (h.oob.lt hi)) rfl rfl
  apart := h.apart

theorem CursorAt.append {list list' : RegionList} {c j : Nat} {p : Piece}
    (h : CursorAt list ids ps c) (hsame : ids.length = ps.length)
    (hiter : list'.iter = if ids = [] then some j else list.iter)
    (hhalf : list'.partialIter = if ids = [] then 0 else list.partialIter) :
    ∃ c', CursorAt list' (ids ++ [j]) (ps ++ [p]) c' := by
  obtain ⟨k, hk, hold, -⟩ := h
  rcases Nat.eq_zero_or_pos ids.length with hzero | hpos
  · obtain rfl := List.eq_nil_of_length_eq_zero hzero
    exact ⟨_, 0, Nat.zero_le _, hiter, rfl⟩
  · have hne : ids ≠ [] := List.ne_nil_of_length_pos hpos
    rw [if_neg hne] at hiter
    rcases Nat.lt_or_ge k ids.length with hlt | hge
    · refine ⟨_, k, by simp; omega, ?_, rfl⟩
      rw [hiter, hold, List.getElem?_append_left hlt]
    · refine ⟨_, ids.length + 1, by simp, ?_, rfl⟩
      rw [hiter, hold, List.getElem?_eq_none hge, List.getElem?_eq_none (by simp)]

theorem appendRegion_shows (h : Shows alloc v) {p : Piece} (hpos : 0 < p.len) :
    ∃ alloc', appendRegion alloc p.block p.len p.bg = some alloc' ∧
      ∃ c, Shows alloc' { v.appendRegion p with cursor := c } := by
  obtain ⟨ids, oobIds, ps, qs, hlisted, hmain, hoob, hcursor⟩ := h
  have hfresh : alloc.regions.length ∉ ids := fun hi => lt_irrefl _ (hlisted.main.lt hi)
  have hgrown := hlisted.grow [some ⟨p.block, p.len, p.bg, none, none⟩]
  have hcell : (alloc.regions ++ [some (⟨p.block, p.len, p.bg, none, none⟩ : Region)])[
      alloc.regions.length]? = some (some ⟨p.block, p.len, p.bg, none, none⟩) := by simp
  obtain ⟨a, list, hrun, hlinked, hother, hiter, hhalf⟩ := hgrown.main.append hcell hfresh hpos
  refine ⟨{ alloc with regions := a, list }, ?_, ?_⟩
  · simp only [appendRegion, Option.bind_eq_bind]
    rw [hrun]
    rfl
  · obtain ⟨c, hc⟩ := hcursor.append (p := p) hlisted.main.same hiter hhalf
    refine ⟨c, ids ++ [alloc.regions.length], oobIds, ps ++ [p], qs, ⟨hlinked, ?_, ?_⟩, ?_, hoob, hc⟩
    · refine hgrown.oob.frame (fun i hi => hother i (fun hids => hlisted.apart hids hi) ?_) rfl rfl
      exact (hlisted.oob.lt hi).ne
    · intro i hi hoob
      rcases List.mem_append.mp hi with hi | hi
      · exact hlisted.apart hi hoob
      · exact (hlisted.oob.lt hoob).ne (List.mem_singleton.mp hi)
    · simp [View.appendRegion, hmain]

theorem Shows.moveCursor (h : Shows alloc v) {list : RegionList}
    (hfirst : list.first = alloc.list.first) (hlast : list.last = alloc.list.last)
    (hiter : ∀ ids ps, Linked alloc.regions alloc.list ids ps → ∀ k ≤ ids.length,
      alloc.list.iter = ids[k]? → ∃ k' ≤ ids.length, list.iter = ids[k']?) :
    ∃ c, Shows { alloc with list } { v with cursor := c } := by
  obtain ⟨ids, oobIds, ps, qs, hlisted, hmain, hoob, k, hk, hold, -⟩ := h
  obtain ⟨k', hk', hnew⟩ := hiter ids ps hlisted.main k hk hold
  exact ⟨((ps.take k').map Piece.len).sum + list.partialIter, ids, oobIds, ps, qs,
    ⟨hlisted.main.frame (fun _ _ => rfl) hfirst hlast, hlisted.oob, hlisted.apart⟩, hmain, hoob,
    k', hk', hnew, rfl⟩

theorem advanceFrom_exists {a : Arena Region} {list : RegionList} {cells : List (Nat × Region)}
    {p : Option Nat} {fuel : Nat} {n : Int} (h : Chain a p cells) (hfuel : cells.length ≤ fuel) :
    ∃ k r, advanceFrom a fuel list p n = some ({ list with partialIter := k }, r) := by
  induction cells generalizing p fuel n list with
  | nil =>
    obtain rfl : p = none := h
    exact ⟨list.partialIter, _, by rw [advanceFrom]⟩
  | cons c rest ih =>
    obtain ⟨rfl, hcell, hrest⟩ := h
    cases fuel with
    | zero => simp at hfuel
    | succ fuel =>
      rw [advanceFrom]
      simp only [Arena.look_eq_some.mpr hcell, Option.bind_eq_bind, Option.bind_some]
      split
      · split
        · exact ⟨_, _, rfl⟩
        · obtain ⟨k, r, hrun⟩ := @ih { list with partialIter := 0 } _ _ _ hrest
            (by simpa using hfuel)
          exact ⟨k, r, hrun⟩
      · exact ⟨list.partialIter, 0, rfl⟩

theorem Shows.chain (h : Shows alloc v) : ∃ cells, Chain alloc.regions alloc.list.iter cells ∧
    (∀ c ∈ cells, 0 < c.2.len) := by
  obtain ⟨ids, oobIds, ps, qs, hlisted, -, -, k, hk, hiter, -⟩ := h
  obtain ⟨cells, hchain, hpieces⟩ := hlisted.main.chain hk
  refine ⟨cells, hiter ▸ hchain, fun c hc => ?_⟩
  have hmem : c.2.piece ∈ ps.drop k := hpieces ▸ List.mem_map_of_mem hc
  exact hlisted.main.positive _ (List.mem_of_mem_drop hmem)

theorem advanceBlocks_shows (h : Shows alloc v) (n : Int) :
    ∃ alloc' r, advanceBlocks alloc n = some (alloc', r) ∧
      ∃ c, Shows alloc' { v with cursor := c } := by
  obtain ⟨cells, hchain, -⟩ := h.chain
  obtain ⟨k, r, hrun⟩ := @advanceFrom_exists _ alloc.list _ _ _ n hchain hchain.length_le
  refine ⟨{ alloc with list := { alloc.list with partialIter := k } }, r, ?_, ?_⟩
  · rw [advanceBlocks, advanceListPtr, hrun]
    rfl
  · exact h.moveCursor rfl rfl fun ids ps _ k hk hiter => ⟨k, hk, hiter⟩

theorem rewindAlloc_shows (h : Shows alloc v) :
    ∃ c, Shows (rewindAlloc alloc) { v with cursor := c } :=
  h.moveCursor rfl rfl fun _ _ hlinked _ _ _ => ⟨0, Nat.zero_le _, hlinked.first⟩

theorem getNextRegion_shows (h : Shows alloc v) (hiter : alloc.list.iter ≠ none) :
    ∃ alloc', getNextRegion alloc = some alloc' ∧ ∃ c, Shows alloc' { v with cursor := c } := by
  have hshows := h
  obtain ⟨ids, oobIds, ps, qs, hlisted, -, -, k, hk, hat, -⟩ := h
  obtain ⟨i, hi⟩ := Option.ne_none_iff_exists'.mp hiter
  have hki : ids[k]? = some i := hat ▸ hi
  have hlt : k < ids.length := (List.getElem?_eq_some_iff.mp hki).1
  have hcell := hlisted.main.cell k i _ hki
    (List.getElem?_eq_getElem (hlisted.main.same ▸ hlt : k < ps.length))
  refine ⟨{ alloc with list := { alloc.list with iter := ids[k + 1]?, partialIter := 0 } }, ?_, ?_⟩
  · rw [getNextRegion, hi, Arena.look_eq_some.mpr hcell]
    rfl
  · refine hshows.moveCursor rfl rfl fun ids' ps' hlinked k' hk' hiter' => ?_
    have hki' : ids'[k']? = some i := hiter' ▸ hi
    have hlt' : k' < ids'.length := (List.getElem?_eq_some_iff.mp hki').1
    have hcell' := hlinked.cell k' i _ hki'
      (List.getElem?_eq_getElem (hlinked.same ▸ hlt' : k' < ps'.length))
    rw [hcell, Option.some.injEq, Option.some.injEq] at hcell'
    exact ⟨k' + 1, hlt', congrArg Region.next hcell'⟩

theorem reserveOobBlocks_stays (h : Shows alloc v) {n left : Nat} (hn : n < 4294967296)
    (hhalf : alloc.list.partialIter = 0)
    (hleft : chainLen alloc.regions Region.len alloc.regions.length alloc.list.iter = some left)
    (hask : n = 0 ∨ left < n) : ∃ r, reserveOobBlocks alloc n = some (alloc, r) := by
  obtain ⟨cells, hchain, hpos⟩ := h.chain
  have hsum := chainLen_of_chain Region.len hchain hchain.length_le
  rw [hleft, Option.some.injEq] at hsum
  -- Neither of the two splits cuts anything.
  have hnone (len : Nat) (hlen : (cells.map fun c => c.2.len).sum ≤ len) :
      doSplitAllocation alloc len = some (alloc, none) := by
    have hseek : seek alloc.regions alloc.regions.length alloc.list.iter len =
        some (locate cells len) := seek_of_chain hchain hchain.length_le
    obtain ⟨⟨k, hlocate⟩, -⟩ | ⟨i, r, place, -, -, hblock⟩ := locate_cases cells len
    · rw [doSplitAllocation, hseek, hlocate]
      rfl
    · have hlens : (piecesOf cells).map Piece.len = cells.map fun c => c.2.len := by
        rw [piecesOf, List.map_map]
        rfl
      rw [pieceBlock_none (hlens ▸ hlen)] at hblock
      cases hblock
  have hword : ofInt32 (n : Int) = n := by rw [ofInt32_natCast, u32_of_lt hn]
  have hsame : ({ alloc with list := { alloc.list with partialIter := 0 } } : BlockAllocation) =
      alloc := by rw [← hhalf]
  cases cells with
  | nil =>
    have hempty (len : Nat) := hnone len (Nat.zero_le len)
    refine ⟨-1, ?_⟩
    rw [reserveOobBlocks, splitAllocation, hhalf, hempty]
    simp only [Option.bind_eq_bind, Option.bind_some, hempty, hsame]
  | cons c rest =>
    have hfirst : doSplitAllocation alloc 0 = some (alloc, alloc.list.iter) := by
      have hseek : seek alloc.regions alloc.regions.length alloc.list.iter 0 =
          some (locate (c :: rest) 0) := seek_of_chain hchain hchain.length_le
      rw [doSplitAllocation, hseek, locate, if_pos (hpos c List.mem_cons_self), hchain.1]
      rfl
    rcases hask with rfl | hmore
    · refine ⟨0, ?_⟩
      rw [reserveOobBlocks, splitAllocation, hhalf, hfirst]
      simp only [Option.bind_eq_bind, Option.bind_some, hword, hfirst, hsame]
      rw [hchain.1]
      have hmove : moveToOob alloc.regions.length alloc (some c.1) = some alloc := by
        cases alloc.regions.length with
        | zero => rw [moveToOob, if_pos hchain.1]
        | succ fuel => rw [moveToOob, if_pos hchain.1]
      simp only [hmove, Option.bind_some]
    · refine ⟨-1, ?_⟩
      rw [reserveOobBlocks, splitAllocation, hhalf, hfirst]
      simp only [Option.bind_eq_bind, Option.bind_some, hword,
        hnone n (hsum ▸ hmore.le), hsame]

end Pure

end MakeExt4fs

import MakeExt4fs.Allocate.Frames
import MakeExt4fs.Allocate.Pool

namespace MakeExt4fs

open ErrorLog Words

def carve : Nat → Nat → List Nat → List Nat
  | 0, _, _ => []
  | fuel + 1, len, free =>
    if len = 0 then []
    else
      let found := findBg len 0 free (0, 0)
      min len found.2 :: carve fuel (len - min len found.2)
        (free.set found.1 (found.2 - min len found.2))

section Carving

variable {force : Bool} {aux aux' : FsAuxInfo} {l l' : List Ext4Error} {len i : Nat}

theorem reserveBlocks_ok {b b' : BlockGroupInfo} {start num : Nat} {res : Int}
    (h : BlockGroupInfo.reserveBlocks force start num (b, l) = .ok (res, (b', l'))) :
    res < 0 ∨ b'.freeBlocks = b.freeBlocks - num := by
  rw [BlockGroupInfo.reserveBlocks, Run.bind_run, Run.read_run] at h
  dsimp only at h
  split at h
  · cases h
    exact Or.inl (by decide)
  · rcases hbits : BlockGroupInfo.setBits start num b.blockBitmap with ⟨_ | _, bm⟩
    · simp only [hbits] at h
      obtain ⟨⟨⟩, st, -, h1⟩ := Run.bind_ok.mp h
      obtain ⟨⟨⟩, st1, -, h2⟩ := Run.bind_ok.mp h1
      cases h2
      exact Or.inl (by decide)
    · simp only [hbits] at h
      cases h
      exact Or.inr rfl

theorem fromGroup_ok {block : Nat}
    (h : ext4AllocateBlocksFromBlockGroup force len i (aux, l) = .ok (block, (aux', l')))
    (hblock : block ≠ ext4AllocateFailed) : ∃ b b', aux.bgs[i]? = some b ∧
      b'.freeBlocks = b.freeBlocks - len ∧ aux' = aux.setBg i b' := by
  unfold ext4AllocateBlocksFromBlockGroup onGroup Run.zoom at h
  cases hb : aux.bgs[i]? with
  | none => simp [hb] at h
  | some b =>
    simp only [hb] at h
    split at h
    · rename_i a b' l1 hrun
      cases h
      refine ⟨b, b', rfl, ?_, rfl⟩
      obtain ⟨bg, st, hread, h1⟩ := Run.bind_ok.mp hrun
      cases hread
      split at h1
      · cases h1
        exact absurd rfl hblock
      · obtain ⟨res, ⟨b1, l2⟩, hreserve, h2⟩ := Run.bind_ok.mp h1
        split at h2
        · obtain ⟨⟨⟩, st, -, h3⟩ := Run.bind_ok.mp h2
          cases h3
          exact absurd rfl hblock
        · rename_i hres
          cases h2
          exact (reserveBlocks_ok hreserve).resolve_left hres
    · cases h

theorem freeList_setBg (aux : FsAuxInfo) (i : Nat) (b : BlockGroupInfo) :
    (aux.setBg i b).freeList = aux.freeList.set i b.freeBlocks := by
  simp only [FsAuxInfo.freeList, FsAuxInfo.setBg, List.take_set, List.map_set]

theorem freeList_get {n : Nat} (h : aux.freeList[i]? = some n) :
    ∃ b, aux.bgs[i]? = some b ∧ b.freeBlocks = n := by
  rw [FsAuxInfo.freeList, List.getElem?_map, Option.map_eq_some_iff] at h
  obtain ⟨b, hb, hfree⟩ := h
  rw [List.getElem?_take] at hb
  split at hb
  · exact ⟨b, hb, hfree⟩
  · cases hb

theorem bestFitPartial_ok {p : Piece} (hlen : 0 < len)
    (h : ext4AllocateBestFitPartial force len (aux, l) = .ok (some p, (aux', l'))) :
    let found := findBg len 0 aux.freeList (0, 0)
    0 < found.2 ∧ p.len = min len found.2 ∧
      aux'.freeList = aux.freeList.set found.1 (found.2 - min len found.2) := by
  have hbest : Best len aux.freeList (findBg len 0 aux.freeList (0, 0)) := by
    simpa using findBg_best hlen aux.freeList
      (show Best len [] (0, 0) from ⟨by simp, by simp, by simp, by simp⟩)
  obtain ⟨a, st, hread, h1⟩ := Run.bind_ok.mp h
  cases hread
  dsimp only at h1 ⊢
  split at h1
  · obtain ⟨⟨⟩, st, -, h2⟩ := Run.bind_ok.mp h1
    cases h2
  · rename_i hfound
    obtain ⟨block, ⟨aux1, l1⟩, hgroup, h2⟩ := Run.bind_ok.mp h1
    split at h2
    · obtain ⟨⟨⟩, st, -, h3⟩ := Run.bind_ok.mp h2
      cases h3
    · rename_i hblock
      cases h2
      obtain ⟨b, b', hb, hfree, rfl⟩ := fromGroup_ok hgroup hblock
      obtain ⟨b1, hb1, hsame⟩ := freeList_get (hbest.place hfound)
      obtain rfl := Option.some.inj (hb.symm.trans hb1)
      exact ⟨Nat.pos_of_ne_zero hfound, rfl, by rw [freeList_setBg, hfree, hsame]⟩

theorem bestFitLoop_carve {fuel : Nat} {ps : List Piece}
    (h : bestFitLoop force fuel len (aux, l) = .ok (some ps, (aux', l'))) :
    ps.map Piece.len = carve fuel len aux.freeList ∧ (ps.map Piece.len).sum = len := by
  induction fuel generalizing len aux l ps with
  | zero =>
    rw [bestFitLoop] at h
    split at h
    · rename_i hlen
      cases h
      exact ⟨rfl, hlen.symm⟩
    · cases h
  | succ fuel ih =>
    rw [bestFitLoop] at h
    rw [carve]
    split at h
    · rename_i hlen
      cases h
      rw [if_pos hlen]
      exact ⟨rfl, hlen.symm⟩
    · rename_i hlen
      obtain ⟨reg, ⟨aux1, l1⟩, hreg, h1⟩ := Run.bind_ok.mp h
      cases reg with
      | none => cases h1
      | some reg =>
        obtain ⟨rest, ⟨aux2, l2⟩, hrest, h2⟩ := Run.bind_ok.mp h1
        cases rest with
        | none => cases h2
        | some rest =>
          cases h2
          obtain ⟨-, hmin, hfree⟩ := bestFitPartial_ok (Nat.pos_of_ne_zero hlen) hreg
          obtain ⟨hcarve, hsum⟩ := ih hrest
          rw [if_neg hlen, List.map_cons, List.sum_cons, hsum, hcarve, hfree, hmin]
          exact ⟨rfl, by omega⟩

theorem allocateBlocks_carve {alloc : BlockAllocation}
    (h : allocateBlocks force len (aux, l) = .ok (some alloc, (aux', l'))) :
    ∃ ps, ps ≠ [] ∧ alloc = freshAlloc ps ∧ ps.map Piece.len = carve len len aux.freeList ∧
      (ps.map Piece.len).sum = len := by
  obtain ⟨ps, ⟨aux1, l1⟩, hfit, h1⟩ := Run.bind_ok.mp h
  cases ps with
  | nil => cases h1
  | cons p rest =>
    cases h1
    obtain ⟨found, ⟨aux2, l2⟩, hloop, h2⟩ := Run.bind_ok.mp hfit
    cases found with
    | none => cases h2
    | some ps =>
      cases h2
      exact ⟨_, List.cons_ne_nil _ _, rfl, bestFitLoop_carve hloop⟩

end Carving

end MakeExt4fs

import MakeExt4fs.Allocate.Chains
import MakeExt4fs.Allocate.Ownership

namespace MakeExt4fs

open ErrorLog Words

structure Best (len : Nat) (seen : List Nat) (found : Nat × Nat) : Prop where
  place : found.2 ≠ 0 → seen[found.1]? = some found.2
  most : found.2 < len → ∀ n ∈ seen, n ≤ found.2
  least : len ≤ found.2 → ∀ n ∈ seen, len ≤ n → found.2 ≤ n
  first : found.2 ≠ 0 → ∀ j < found.1, seen[j]? ≠ some found.2

theorem Best.take {len n : Nat} {seen : List Nat} {found : Nat × Nat} (h : Best len seen found)
    (hlen : 0 < len) (hn : (len ≤ n ∧ (found.2 = 0 ∨ n < found.2)) ∨ (found.2 < len ∧ found.2 < n)) :
    Best len (seen ++ [n]) (seen.length, n) := by
  refine ⟨fun _ => by simp, ?_, ?_, ?_⟩
  · intro hlt m hm
    rcases List.mem_append.mp hm with hm | hm
    · have := h.most (by omega) m hm
      simp only
      omega
    · exact (List.mem_singleton.mp hm).le
  · intro hle m hm hmlen
    rcases List.mem_append.mp hm with hm | hm
    · have hle : len ≤ n := hle
      rcases Nat.lt_or_ge found.2 len with hlt | hge
      · have := h.most hlt m hm
        omega
      · have := h.least hge m hm hmlen
        simp only
        omega
    · exact (List.mem_singleton.mp hm).ge
  · intro _ j hj heq
    rw [List.getElem?_append_left hj] at heq
    have hmem := List.mem_of_getElem? heq
    rcases Nat.lt_or_ge found.2 len with hlt | hge
    · have := h.most hlt n hmem
      omega
    · have := h.least hge n hmem (by omega)
      omega

theorem Best.skip {len n : Nat} {seen : List Nat} {found : Nat × Nat} (h : Best len seen found)
    (hn : ¬((len ≤ n ∧ (found.2 = 0 ∨ n < found.2)) ∨ (found.2 < len ∧ found.2 < n))) :
    Best len (seen ++ [n]) found := by
  have hinside (hne : found.2 ≠ 0) : found.1 < seen.length :=
    (List.getElem?_eq_some_iff.mp (h.place hne)).1
  refine ⟨?_, ?_, ?_, ?_⟩
  · intro hne
    rw [List.getElem?_append_left (hinside hne)]
    exact h.place hne
  · intro hlt m hm
    rcases List.mem_append.mp hm with hm | hm
    · exact h.most hlt m hm
    · have := List.mem_singleton.mp hm
      omega
  · intro hle m hm hmlen
    rcases List.mem_append.mp hm with hm | hm
    · exact h.least hle m hm hmlen
    · have := List.mem_singleton.mp hm
      omega
  · intro hne j hj
    rw [List.getElem?_append_left (hj.trans (hinside hne))]
    exact h.first hne j hj

theorem findBg_best {len : Nat} (hlen : 0 < len) (rest : List Nat) {seen : List Nat}
    {found : Nat × Nat} (h : Best len seen found) :
    Best len (seen ++ rest) (findBg len seen.length rest found) := by
  induction rest generalizing seen found with
  | nil => simpa [findBg] using h
  | cons n rest ih =>
    rw [findBg]
    split
    · rename_i hn
      simpa using ih (h.take hlen hn)
    · rename_i hn
      simpa using ih (h.skip hn)

section Draws

variable {L : Layout} {aux aux' : FsAuxInfo} {len left i : Nat} {bg : BlockGroupInfo}
  {ps qs : List Piece}

theorem Layout.Keeps.freeList_eq (h : L.Keeps aux) :
    aux.freeList = aux.bgs.map BlockGroupInfo.freeBlocks := by
  rw [FsAuxInfo.freeList, List.take_of_length_le (by rw [h.length, h.groups])]

theorem Layout.Keeps.mem_freeList (h : L.Keeps aux) (hbg : aux.bgs[i]? = some bg) :
    bg.freeBlocks ∈ aux.freeList := by
  rw [h.freeList_eq]
  exact List.mem_map_of_mem (List.mem_of_getElem? hbg)

theorem Layout.Keeps.bg_of_freeList {n : Nat} (h : L.Keeps aux)
    (hn : aux.freeList[i]? = some n) : ∃ bg, aux.bgs[i]? = some bg ∧ bg.freeBlocks = n := by
  rw [h.freeList_eq, List.getElem?_map, Option.map_eq_some_iff] at hn
  exact hn

inductive Draws (L : Layout) : FsAuxInfo → Nat → List Piece → FsAuxInfo → Nat → Prop
  | stop (aux : FsAuxInfo) (len : Nat) : Draws L aux len [] aux len
  | draw {aux aux' : FsAuxInfo} {len left i : Nat} {bg : BlockGroupInfo} {ps : List Piece}
      (hbg : aux.bgs[i]? = some bg) (best : Best len aux.freeList (i, bg.freeBlocks))
      (free : 0 < bg.freeBlocks) (hlen : 0 < len)
      (rest : Draws L (aux.setBg i (bg.give (min len bg.freeBlocks)))
        (len - min len bg.freeBlocks) ps aux' left) :
      Draws L aux len (⟨L.first i + bg.firstFreeBlock, min len bg.freeBlocks, i⟩ :: ps) aux' left

theorem Draws.owns (h : Draws L aux len ps aux' left) (ho : L.Owns aux qs) :
    L.Owns aux' (ps ++ qs) := by
  induction h generalizing qs with
  | stop aux len => exact ho
  | draw hbg best free hlen rest ih =>
    refine (ih (ho.draw hbg (by omega) (min_le_right _ _))).perm ?_
    exact List.perm_middle

theorem Draws.sum (h : Draws L aux len ps aux' left) :
    (ps.map Piece.len).sum + left = len := by
  induction h with
  | stop aux len => simp
  | draw hbg best free hlen rest ih =>
    rw [List.map_cons, List.sum_cons]
    simp only
    omega

theorem Draws.full (h : Draws L aux len ps aux' left) {j : Nat} {b : BlockGroupInfo}
    (hb : aux.bgs[j]? = some b) (hfull : b.freeBlocks = 0) : aux'.bgs[j]? = some b := by
  induction h with
  | stop aux len => exact hb
  | @draw aux aux' len left i bg ps hbg best free hlen rest ih =>
    have hne : j ≠ i := by
      rintro rfl
      obtain rfl : b = bg := Option.some.inj (hb.symm.trans hbg)
      omega
    exact ih (by rw [aux.setBg_ne _ hne]; exact hb)

theorem Draws.head_top {p : Piece} (h : Draws L aux len (p :: ps) aux' left) :
    ∃ bg, aux'.bgs[p.bg]? = some bg ∧ p.block + p.len = L.first p.bg + bg.firstFreeBlock := by
  cases h with
  | @draw _ _ _ _ i bg _ hbg best free hlen rest =>
    have hself := aux.setBg_self (bg.give (min len bg.freeBlocks)) hbg
    rcases Nat.lt_or_ge bg.freeBlocks len with hlt | hge
    · refine ⟨_, rest.full hself ?_, ?_⟩
      · simp only [BlockGroupInfo.give_freeBlocks]
        omega
      · simp only [BlockGroupInfo.give_firstFreeBlock]
        omega
    · have hdone : len - min len bg.freeBlocks = 0 := by omega
      rw [hdone] at rest
      cases rest with
      | stop =>
        refine ⟨_, hself, ?_⟩
        simp only [BlockGroupInfo.give_firstFreeBlock]
        omega
      | draw _ _ _ hpos _ => omega

def BestFitError (e : Ext4Error) : Prop :=
  (∃ n, e = .outOfSpace n) ∨ ∃ n i, e = .failedToAllocateInGroup n i

def OutOfBlocks (aux : FsAuxInfo) (left : Nat) (ps : List Piece) : Prop :=
  (0 < left ∧ ∀ b ∈ aux.bgs, b.freeBlocks = 0) ∨ ∃ p ∈ ps, p.block = ext4AllocateFailed

theorem bestFitPartial_run (h : L.Keeps aux) (hlen : 0 < len) (force : Bool) (l : List Ext4Error) :
    (∃ n, (∀ b ∈ aux.bgs, b.freeBlocks = 0) ∧ ext4AllocateBestFitPartial force len (aux, l) =
      (Run.raise force (.outOfSpace n) >>= fun _ => pure none) (aux, l)) ∨
    ∃ i bg, aux.bgs[i]? = some bg ∧ Best len aux.freeList (i, bg.freeBlocks) ∧
      0 < bg.freeBlocks ∧ ext4AllocateBestFitPartial force len (aux, l) =
        (if L.first i + bg.firstFreeBlock = ext4AllocateFailed then
          Run.raise force (.failedToAllocateInGroup (min len bg.freeBlocks) i) >>= fun _ => pure none
        else pure (some ⟨L.first i + bg.firstFreeBlock, min len bg.freeBlocks, i⟩))
        (aux.setBg i (bg.give (min len bg.freeBlocks)), l) := by
  have hbest : Best len aux.freeList (findBg len 0 aux.freeList (0, 0)) := by
    simpa using findBg_best hlen aux.freeList
      (show Best len [] (0, 0) from ⟨by simp, by simp, by simp, by simp⟩)
  revert hbest
  rcases hfound : findBg len 0 aux.freeList (0, 0) with ⟨i, n⟩
  intro hbest
  simp only [ext4AllocateBestFitPartial, Run.bind_run, Run.read_run, hfound]
  by_cases hn : n = 0
  · refine Or.inl ⟨len, ?_, by rw [if_pos hn, Run.bind_run]⟩
    intro b hb
    obtain ⟨j, hj⟩ := List.getElem?_of_mem hb
    exact Nat.le_zero.mp (hn ▸ hbest.most (by simp only; omega) _ (h.mem_freeList hj))
  · obtain ⟨bg, hbg, rfl⟩ := h.bg_of_freeList (hbest.place hn)
    refine Or.inr ⟨i, bg, hbg, hbest, by omega, ?_⟩
    rw [if_neg hn, Run.bind_run, h.fromGroup_run hbg force l (by omega) (min_le_right _ _)]

theorem bestFitLoop_run (force : Bool) (l : List Ext4Error) (fuel : Nat) {len : Nat}
    (hfuel : len ≤ fuel) {aux : FsAuxInfo} (h : L.Keeps aux) :
    ∃ ps aux' left, Draws L aux len ps aux' left ∧
      (left = 0 ∧ (∀ p ∈ ps, p.block ≠ ext4AllocateFailed) ∧
          bestFitLoop force fuel len (aux, l) = .ok (some ps, (aux', l)) ∨
        OutOfBlocks aux' left ps ∧ ∃ e, BestFitError e ∧ bestFitLoop force fuel len (aux, l) =
          (Run.raise force e >>= fun _ => pure none) (aux', l)) := by
  induction fuel generalizing len aux with
  | zero =>
    obtain rfl : len = 0 := by omega
    exact ⟨[], aux, 0, .stop aux 0, Or.inl ⟨rfl, by simp, rfl⟩⟩
  | succ fuel ih =>
    rcases Nat.eq_zero_or_pos len with rfl | hlen
    · exact ⟨[], aux, 0, .stop aux 0, Or.inl ⟨rfl, by simp, rfl⟩⟩
    · have hne : len ≠ 0 := by omega
      simp only [bestFitLoop, if_neg hne]
      obtain ⟨n, hfull, hrun⟩ | ⟨i, bg, hbg, hbest, hfree, hrun⟩ := bestFitPartial_run h hlen force l
      · refine ⟨[], aux, len, .stop aux len, Or.inr ⟨Or.inl ⟨hlen, hfull⟩, _, Or.inl ⟨n, rfl⟩, ?_⟩⟩
        rw [Run.bind_congr_run hrun, bind_assoc]
        rfl
      · by_cases hfail : L.first i + bg.firstFreeBlock = ext4AllocateFailed
        · rw [if_pos hfail] at hrun
          refine ⟨_, _, _, .draw hbg hbest hfree hlen (.stop _ _),
            Or.inr ⟨Or.inr ⟨_, List.mem_singleton_self _, hfail⟩,
              .failedToAllocateInGroup (min len bg.freeBlocks) i, Or.inr ⟨_, _, rfl⟩, ?_⟩⟩
          rw [Run.bind_congr_run hrun, bind_assoc]
          rfl
        · rw [if_neg hfail] at hrun
          have hkeeps : L.Keeps (aux.setBg i (bg.give (min len bg.freeBlocks))) :=
            h.setBg ((h.group hbg).give (min_le_right _ _))
          obtain ⟨ps, aux', left, hdraws, hend⟩ := ih
            (show len - min len bg.freeBlocks ≤ fuel by omega) hkeeps
          refine ⟨_, aux', left, .draw hbg hbest hfree hlen hdraws, ?_⟩
          rw [Run.bind_congr_run hrun, pure_bind]
          rcases hend with ⟨hleft, hok, hend⟩ | ⟨hout, e, he, hend⟩
          · refine Or.inl ⟨hleft, ?_, ?_⟩
            · intro p hp
              rcases List.mem_cons.mp hp with rfl | hp
              · exact hfail
              · exact hok p hp
            · simp only [Run.bind_run, hend]
              rfl
          · refine Or.inr ⟨?_, e, he, ?_⟩
            · rcases hout with hout | ⟨p, hp, hpb⟩
              · exact Or.inl hout
              · exact Or.inr ⟨p, List.mem_cons_of_mem _ hp, hpb⟩
            · simp only
              rw [Run.bind_congr_run hend, bind_assoc]
              rfl

end Draws

end MakeExt4fs

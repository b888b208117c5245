import MakeExt4fs.Allocate.Carve

namespace MakeExt4fs

open ErrorLog Words

namespace FsAuxInfo

def freeOf (aux : FsAuxInfo) (i : Nat) : Nat := aux.freeList.getD i 0

def freeTotal (aux : FsAuxInfo) : Nat := aux.freeList.sum

theorem freeOf_of_get {aux : FsAuxInfo} {i n : Nat} (h : aux.freeList[i]? = some n) :
    aux.freeOf i = n := by rw [freeOf, List.getD_eq_getElem?_getD, h, Option.getD_some]

theorem freeOf_le_freeTotal (aux : FsAuxInfo) (i : Nat) : aux.freeOf i ≤ aux.freeTotal := by
  rw [freeOf, List.getD_eq_getElem?_getD]
  cases h : aux.freeList[i]? with
  | none => exact Nat.zero_le _
  | some n => exact List.single_le_sum (fun _ _ => Nat.zero_le _) n (List.mem_of_getElem? h)

end FsAuxInfo

structure Chosen (aux aux' : FsAuxInfo) (len : Nat) (ps : List Piece) : Prop where
  sum : (ps.map Piece.len).sum = len
  apart : (ps.map Piece.bg).Nodup
  last : ∃ init p, ps = init ++ [p] ∧
    (∀ q ∈ init, q.len = aux.freeOf q.bg ∧ aux'.freeOf q.bg = 0) ∧
    p.len ≤ aux.freeOf p.bg ∧
    ∀ j, j ∉ init.map Piece.bg → p.len ≤ aux.freeOf j → aux.freeOf p.bg ≤ aux.freeOf j
  fewest : ∀ groups : Finset Nat, groups.card < ps.length → ∑ j ∈ groups, aux.freeOf j < len

section Choice

variable {L : Layout} {aux aux' : FsAuxInfo} {len left i n : Nat} {bg : BlockGroupInfo}
  {ps : List Piece}

theorem Best.get (h : Best len aux.freeList (i, bg.freeBlocks)) (hfree : 0 < bg.freeBlocks) :
    aux.freeList[i]? = some bg.freeBlocks := h.place hfree.ne'

theorem Best.freeOf_le (h : Best len aux.freeList (i, bg.freeBlocks)) (hlt : bg.freeBlocks < len)
    (j : Nat) : aux.freeOf j ≤ bg.freeBlocks := by
  rw [FsAuxInfo.freeOf, List.getD_eq_getElem?_getD]
  cases hj : aux.freeList[j]? with
  | none => exact Nat.zero_le _
  | some m => exact h.most hlt m (List.mem_of_getElem? hj)

theorem Best.le_freeOf (h : Best len aux.freeList (i, bg.freeBlocks)) (hle : len ≤ bg.freeBlocks)
    (hlen : 0 < len) {j : Nat} (hj : len ≤ aux.freeOf j) : bg.freeBlocks ≤ aux.freeOf j := by
  rw [FsAuxInfo.freeOf, List.getD_eq_getElem?_getD] at hj ⊢
  cases hget : aux.freeList[j]? with
  | none =>
    rw [hget] at hj
    simp only [Option.getD_none] at hj
    omega
  | some m =>
    rw [hget] at hj
    exact h.least hle m (List.mem_of_getElem? hget) hj

theorem Best.lt_of_freeOf (h : Best len aux.freeList (i, bg.freeBlocks)) (hfree : 0 < bg.freeBlocks)
    {x : Nat} (hx : aux.freeOf x = bg.freeBlocks) (hne : x ≠ i) : i < x := by
  rw [FsAuxInfo.freeOf, List.getD_eq_getElem?_getD] at hx
  cases hget : aux.freeList[x]? with
  | none =>
    rw [hget, Option.getD_none] at hx
    omega
  | some n =>
    rw [hget, Option.getD_some] at hx
    by_contra hle
    exact h.first hfree.ne' x (show x < i by omega) (by rw [hget, hx])

theorem freeOf_give (hget : aux.freeList[i]? = some bg.freeBlocks) (n j : Nat) :
    (aux.setBg i (bg.give n)).freeOf j =
      if j = i then bg.freeBlocks - n else aux.freeOf j := by
  rw [FsAuxInfo.freeOf, freeList_setBg, List.getD_eq_getElem?_getD]
  split
  · next h =>
    rw [h, List.getElem?_set_self (List.getElem?_eq_some_iff.mp hget).1, Option.getD_some,
      BlockGroupInfo.give_freeBlocks]
  · next h =>
    rw [List.getElem?_set_ne (Ne.symm h), FsAuxInfo.freeOf, List.getD_eq_getElem?_getD]

theorem freeTotal_give (hget : aux.freeList[i]? = some bg.freeBlocks) (hn : n ≤ bg.freeBlocks) :
    (aux.setBg i (bg.give n)).freeTotal + n = aux.freeTotal := by
  obtain ⟨hlt, hval⟩ := List.getElem?_eq_some_iff.mp hget
  have hsame : aux.freeList.set i bg.freeBlocks = aux.freeList := by
    rw [← hval, List.set_getElem_self]
  have hsplit := List.sum_set aux.freeList i bg.freeBlocks
  rw [hsame] at hsplit
  rw [FsAuxInfo.freeTotal, freeList_setBg, List.sum_set, if_pos hlt,
    BlockGroupInfo.give_freeBlocks, FsAuxInfo.freeTotal, hsplit, if_pos hlt]
  omega

theorem Draws.total (h : Draws L aux len ps aux' left) :
    aux'.freeTotal + (ps.map Piece.len).sum = aux.freeTotal := by
  induction h with
  | stop aux len => simp
  | @draw aux aux' len left i bg ps hbg best free hlen rest ih =>
    have hgive := freeTotal_give (best.get free) (min_le_right len bg.freeBlocks)
    rw [List.map_cons, List.sum_cons]
    simp only
    omega

theorem Draws.within (h : Draws L aux len ps aux' left) {p : Piece} (hp : p ∈ ps) :
    0 < p.len ∧ p.len ≤ aux.freeOf p.bg := by
  induction h with
  | stop aux len => cases hp
  | @draw aux aux' len left i bg ps hbg best free hlen rest ih =>
    have hi := FsAuxInfo.freeOf_of_get (best.get free)
    rcases List.mem_cons.mp hp with rfl | hp
    · simp only [hi]
      omega
    · obtain ⟨hpos, hle⟩ := ih hp
      have hget := best.get free
      rw [freeOf_give hget] at hle
      refine ⟨hpos, ?_⟩
      split at hle
      · next heq =>
        rw [heq, hi]
        omega
      · exact hle

theorem Draws.freeOf_le (h : Draws L aux len ps aux' left) (j : Nat) :
    aux'.freeOf j ≤ aux.freeOf j := by
  induction h with
  | stop aux len => exact le_rfl
  | @draw aux aux' len left i bg ps hbg best free hlen rest ih =>
    rw [freeOf_give (best.get free)] at ih
    split at ih
    · next heq =>
      rw [heq] at ih ⊢
      rw [FsAuxInfo.freeOf_of_get (best.get free)]
      omega
    · exact ih

theorem Best.chosen (h : Best len aux.freeList (i, bg.freeBlocks)) (hlen : 0 < len)
    (hle : len ≤ bg.freeBlocks) (block : Nat) : Chosen aux aux' len [⟨block, len, i⟩] := by
  have hi := FsAuxInfo.freeOf_of_get (h.get (by omega))
  refine ⟨by simp, by simp, ⟨[], ⟨block, len, i⟩, rfl, by simp, hi.symm ▸ hle, ?_⟩, ?_⟩
  · intro j _ hj
    rw [hi]
    exact h.le_freeOf hle hlen hj
  · intro groups hcard
    have hnone : groups = ∅ := Finset.card_eq_zero.mp (by simpa using hcard)
    rw [hnone, Finset.sum_empty]
    exact hlen

theorem sum_freeOf_lt {bound count : Nat} (hget : aux.freeList[i]? = some bg.freeBlocks)
    (hmost : ∀ j, aux.freeOf j ≤ bg.freeBlocks) (hlt : bg.freeBlocks < bound)
    (hrest : ∀ groups : Finset Nat, groups.card < count →
      ∑ j ∈ groups, (aux.setBg i (bg.give bg.freeBlocks)).freeOf j < bound - bg.freeBlocks)
    (groups : Finset Nat) (hcard : groups.card < count + 1) :
    ∑ j ∈ groups, aux.freeOf j < bound := by
  have hgive := freeOf_give hget bg.freeBlocks
  have hsplit (k : Nat) (hk : k ∈ groups) (hi : i ∉ groups.erase k) :
      ∑ j ∈ groups, aux.freeOf j < bound := by
    have hsame : ∑ j ∈ groups.erase k, aux.freeOf j =
        ∑ j ∈ groups.erase k, (aux.setBg i (bg.give bg.freeBlocks)).freeOf j := by
      apply Finset.sum_congr rfl
      intro j hj
      have hne : j ≠ i := fun heq => hi (heq ▸ hj)
      rw [hgive, if_neg hne]
    have hsome : 0 < groups.card := Finset.card_pos.mpr ⟨k, hk⟩
    have hfew := hrest (groups.erase k) (by rw [Finset.card_erase_of_mem hk]; omega)
    have hk' := hmost k
    rw [← Finset.sum_erase_add groups _ hk, hsame]
    omega
  by_cases hi : i ∈ groups
  · exact hsplit i hi (Finset.notMem_erase i groups)
  · rcases groups.eq_empty_or_nonempty with rfl | ⟨k, hk⟩
    · rw [Finset.sum_empty]
      omega
    · exact hsplit k hk fun hmem => hi (Finset.mem_of_mem_erase hmem)

theorem Draws.chosen (h : Draws L aux len ps aux' left) (hleft : left = 0) (hlen : 0 < len) :
    Chosen aux aux' len ps := by
  induction h with
  | stop aux len => omega
  | @draw aux aux' len left i bg ps hbg best free hpos rest ih =>
    have hget := best.get free
    rcases Nat.lt_or_ge bg.freeBlocks len with hlt | hge
    · rw [min_eq_right hlt.le] at rest ih ⊢
      have hgive := freeOf_give hget bg.freeBlocks
      obtain ⟨hsum, hapart, ⟨init, p, hps, hinit, hp, hfits⟩, hfewest⟩ := ih hleft (by omega)
      have hother : ∀ q ∈ ps, q.bg ≠ i := by
        intro q hq heq
        have hwithin := rest.within hq
        rw [hgive, if_pos heq] at hwithin
        omega
      have hkept : ∀ q ∈ ps, (aux.setBg i (bg.give bg.freeBlocks)).freeOf q.bg =
          aux.freeOf q.bg := fun q hq => by rw [hgive, if_neg (hother q hq)]
      have hpmem : p ∈ ps := hps ▸ List.mem_append_right init (List.mem_singleton_self p)
      refine ⟨?_, ?_, ⟨⟨L.first i + bg.firstFreeBlock, bg.freeBlocks, i⟩ :: init, p, ?_, ?_, ?_, ?_⟩,
        sum_freeOf_lt hget (best.freeOf_le hlt) hlt hfewest⟩
      · rw [List.map_cons, List.sum_cons, hsum]
        dsimp only
        omega
      · rw [List.map_cons, List.nodup_cons]
        refine ⟨fun hmem => ?_, hapart⟩
        obtain ⟨q, hq, heq⟩ := List.mem_map.mp hmem
        exact hother q hq heq
      · rw [hps, List.cons_append]
      · intro q hq
        rcases List.mem_cons.mp hq with rfl | hq
        · have hgone := rest.freeOf_le i
          rw [hgive, if_pos rfl] at hgone
          exact ⟨(FsAuxInfo.freeOf_of_get hget).symm, by dsimp only; omega⟩
        · rw [← hkept q (hps ▸ List.mem_append_left _ hq)]
          exact hinit q hq
      · rwa [← hkept p hpmem]
      · intro j hj hle
        rw [List.map_cons, List.mem_cons, not_or] at hj
        have hsame : (aux.setBg i (bg.give bg.freeBlocks)).freeOf j = aux.freeOf j := by
          rw [hgive, if_neg hj.1]
        rw [← hkept p hpmem, ← hsame]
        exact hfits j hj.2 (hsame ▸ hle)
    · rw [min_eq_left hge] at rest ⊢
      have hdone : len - len = 0 := Nat.sub_self len
      rw [hdone] at rest
      cases rest with
      | stop => exact best.chosen hpos hge _
      | draw _ _ _ hpos' _ => omega

theorem Draws.start (h : Draws L aux len ps aux' left) {p : Piece} (hp : p ∈ ps) :
    ∃ bg, aux.bgs[p.bg]? = some bg ∧ 0 < bg.freeBlocks ∧
      p.block = L.first p.bg + bg.firstFreeBlock := by
  induction h with
  | stop aux len => cases hp
  | @draw aux aux' len left i bg ps hbg best free hlen rest ih =>
    rcases List.mem_cons.mp hp with rfl | hp
    · exact ⟨bg, hbg, free, rfl⟩
    · obtain ⟨b, hb, hfree, hstart⟩ := ih hp
      by_cases heq : p.bg = i
      · rw [heq, aux.setBg_self _ hbg] at hb
        cases hb
        rw [BlockGroupInfo.give_freeBlocks] at hfree
        have hdone : len - min len bg.freeBlocks = 0 := by omega
        rw [hdone] at rest
        cases rest with
        | stop => cases hp
        | draw _ _ _ hpos _ => omega
      · rw [aux.setBg_ne _ heq] at hb
        exact ⟨b, hb, hfree, hstart⟩

theorem Layout.Keeps.freeTotal_eq_zero (h : L.Keeps aux) (hfull : ∀ b ∈ aux.bgs, b.freeBlocks = 0) :
    aux.freeTotal = 0 := by
  rw [FsAuxInfo.freeTotal, h.freeList_eq, List.sum_eq_zero_iff]
  intro n hn
  obtain ⟨b, hb, rfl⟩ := List.mem_map.mp hn
  exact hfull b hb

theorem Draws.keeps (h : Draws L aux len ps aux' left) (hk : L.Keeps aux) : L.Keeps aux' := by
  have howns : L.Owns aux' (ps ++ []) := h.owns ⟨hk, by simp, List.Pairwise.nil⟩
  exact howns.keeps

def Layout.Nameable (L : Layout) (aux : FsAuxInfo) : Prop :=
  ∀ i bg, aux.bgs[i]? = some bg → 0 < bg.freeBlocks →
    L.first i + bg.firstFreeBlock ≠ ext4AllocateFailed

theorem OutOfBlocks.short (h : OutOfBlocks aux' left ps) (hdraws : Draws L aux len ps aux' left)
    (hk : L.Keeps aux) (hname : L.Nameable aux) :
    0 < left ∧ aux'.freeTotal = 0 ∧ aux.freeTotal < len := by
  rcases h with ⟨hleft, hfull⟩ | ⟨p, hp, hfail⟩
  · have hzero := (hdraws.keeps hk).freeTotal_eq_zero hfull
    have htotal := hdraws.total
    have hsum := hdraws.sum
    omega
  · obtain ⟨bg, hbg, hfree, hstart⟩ := hdraws.start hp
    exact absurd (hstart ▸ hfail) (hname _ bg hbg hfree)

theorem allocateBlocks_chooses (L : Layout) (aux : FsAuxInfo) (hk : L.Keeps aux)
    (hname : L.Nameable aux) (force : Bool) (len : Nat) (hlen : 0 < len) (l : List Ext4Error) :
    ((∃ alloc st, allocateBlocks force len (aux, l) = .ok (some alloc, st)) ↔
        len ≤ aux.freeTotal) ∧
      ∀ alloc aux' l', allocateBlocks force len (aux, l) = .ok (some alloc, (aux', l')) →
        ∃ ps, alloc = freshAlloc ps ∧ Chosen aux aux' len ps := by
  obtain ⟨ps, aux', left, hdraws, hend⟩ := allocateBlocks_run force len l hk
  have htotal := hdraws.total
  have hsum := hdraws.sum
  rcases hend with ⟨rfl, -, hrun⟩ | ⟨hout, e, -, hrun⟩
  · rw [if_neg hlen.ne'] at hrun
    refine ⟨iff_of_true ⟨_, _, hrun⟩ (by omega), fun alloc aux1 l1 h => ?_⟩
    rw [hrun] at h
    cases h
    exact ⟨ps, rfl, hdraws.chosen rfl hlen⟩
  · obtain ⟨hleft, hzero, hshort⟩ := hout.short hdraws hk hname
    have hnone : ∀ alloc st, allocateBlocks force len (aux, l) ≠ .ok (some alloc, st) := by
      intro alloc st h
      rw [hrun] at h
      obtain ⟨⟨⟩, st1, -, hend⟩ := Run.bind_ok.mp h
      cases hend
    refine ⟨iff_of_false ?_ (by omega), fun alloc aux1 l1 h => absurd h (hnone _ _)⟩
    rintro ⟨alloc, st, h⟩
    exact hnone alloc st h

-- Group x has one free block, and a search for len blocks comes to it: once it has emptied the
-- groups in D, the fullest, either one block is left to find or no other group has more than one.
def FsAuxInfo.Reached (aux : FsAuxInfo) (len x : Nat) : Prop :=
  aux.freeOf x = 1 ∧ ∃ D : Finset Nat, ∑ j ∈ D, aux.freeOf j < len ∧
    (∀ i ∈ D, ∀ j ∉ D, aux.freeOf j ≤ aux.freeOf i) ∧
    (∀ j < x, aux.freeOf j = 1 → j ∈ D) ∧
    (∑ j ∈ D, aux.freeOf j + 1 = len ∨ ∀ j ∉ D, aux.freeOf j ≤ 1)

theorem Best.reached (h : Best len aux.freeList (i, bg.freeBlocks)) (hlen : 0 < len)
    (hfree : bg.freeBlocks = 1) : aux.Reached len i := by
  refine ⟨hfree ▸ FsAuxInfo.freeOf_of_get (h.get (by omega)), ∅, ?_⟩
  rw [Finset.sum_empty]
  refine ⟨hlen, by simp, fun j hj hone => ?_, ?_⟩
  · have := h.lt_of_freeOf (by omega) (hone.trans hfree.symm) hj.ne
    omega
  · rcases Nat.lt_or_ge bg.freeBlocks len with hlt | hge
    · exact Or.inr fun j _ => hfree ▸ h.freeOf_le hlt j
    · exact Or.inl (by omega)

theorem Best.not_reached {x : Nat} (h : Best len aux.freeList (i, bg.freeBlocks)) (hlen : 0 < len)
    (hge : len ≤ bg.freeBlocks) (hne : x ≠ i) : ¬ aux.Reached len x := by
  rintro ⟨hx, D, hsum, hfull, hbefore, hlast⟩
  have hi := FsAuxInfo.freeOf_of_get (h.get (by omega))
  have hout : i ∉ D := fun hmem => by
    have := Finset.single_le_sum (f := aux.freeOf) (fun j _ => Nat.zero_le _) hmem
    omega
  rcases Nat.lt_or_ge 1 len with hmany | hone
  · have hrest : ∑ j ∈ D, aux.freeOf j + 1 = len := by
      rcases hlast with hlast | hlast
      · exact hlast
      · have := hlast i hout
        omega
    obtain ⟨a, ha⟩ : D.Nonempty := by
      rw [Finset.nonempty_iff_ne_empty]
      rintro rfl
      rw [Finset.sum_empty] at hrest
      omega
    have := hfull a ha i hout
    have := Finset.single_le_sum (f := aux.freeOf) (fun j _ => Nat.zero_le _) ha
    omega
  · have hle := h.le_freeOf hge hlen (j := x) (by omega)
    have hlt := h.lt_of_freeOf (by omega) (show aux.freeOf x = bg.freeBlocks by omega) hne
    exact hout (hbefore i hlt (by omega))

theorem sum_freeOf_give (hget : aux.freeList[i]? = some bg.freeBlocks) {D : Finset Nat}
    (hi : i ∉ D) : ∑ j ∈ D, (aux.setBg i (bg.give bg.freeBlocks)).freeOf j =
      ∑ j ∈ D, aux.freeOf j := by
  apply Finset.sum_congr rfl
  intro j hj
  have hne : j ≠ i := fun heq => hi (heq ▸ hj)
  rw [freeOf_give hget, if_neg hne]

theorem sum_freeOf_insert (hget : aux.freeList[i]? = some bg.freeBlocks) (D : Finset Nat) :
    ∑ j ∈ insert i D, aux.freeOf j =
      bg.freeBlocks + ∑ j ∈ D, (aux.setBg i (bg.give bg.freeBlocks)).freeOf j := by
  have hgone : (aux.setBg i (bg.give bg.freeBlocks)).freeOf i = 0 := by
    rw [freeOf_give hget, if_pos rfl, Nat.sub_self]
  have hsame : ∑ j ∈ D.erase i, (aux.setBg i (bg.give bg.freeBlocks)).freeOf j =
      ∑ j ∈ D, (aux.setBg i (bg.give bg.freeBlocks)).freeOf j :=
    Finset.sum_erase D hgone
  rw [← Finset.insert_erase (Finset.mem_insert_self i D), Finset.erase_insert_eq_erase,
    Finset.sum_insert (Finset.notMem_erase i D), FsAuxInfo.freeOf_of_get hget,
    ← sum_freeOf_give hget (Finset.notMem_erase i D), hsame]

theorem FsAuxInfo.Reached.of_drained {x : Nat} (h : Best len aux.freeList (i, bg.freeBlocks))
    (hfree : 0 < bg.freeBlocks) (hlt : bg.freeBlocks < len) (hne : x ≠ i)
    (hreached : (aux.setBg i (bg.give bg.freeBlocks)).Reached (len - bg.freeBlocks) x) :
    aux.Reached len x := by
  obtain ⟨hx, D, hsum, hfull, hbefore, hlast⟩ := hreached
  have hgive := freeOf_give (h.get hfree) bg.freeBlocks
  have hother {j : Nat} (hj : j ≠ i) :
      (aux.setBg i (bg.give bg.freeBlocks)).freeOf j = aux.freeOf j := by rw [hgive, if_neg hj]
  rw [hother hne] at hx
  refine ⟨hx, insert i D, ?_⟩
  rw [sum_freeOf_insert (h.get hfree)]
  refine ⟨by omega, ?_, ?_, ?_⟩
  · intro k hk j hj
    rw [Finset.mem_insert, not_or] at hj
    rcases Finset.mem_insert.mp hk with rfl | hk
    · rw [FsAuxInfo.freeOf_of_get (h.get hfree)]
      exact h.freeOf_le hlt j
    · have hle := hfull k hk j hj.2
      rw [hother hj.1, hgive] at hle
      split at hle <;> omega
  · intro j hj hone
    by_cases heq : j = i
    · exact heq ▸ Finset.mem_insert_self i D
    · exact Finset.mem_insert_of_mem (hbefore j hj ((hother heq).trans hone))
  · rcases hlast with hlast | hlast
    · exact Or.inl (by omega)
    · refine Or.inr fun j hj => ?_
      rw [Finset.mem_insert, not_or] at hj
      exact hother hj.1 ▸ hlast j hj.2

theorem Best.emptied {x : Nat} {D : Finset Nat} (h : Best len aux.freeList (i, bg.freeBlocks))
    (hfree : 0 < bg.freeBlocks) (hlt : bg.freeBlocks < len) (hne : x ≠ i) (hx : aux.freeOf x = 1)
    (hfull : ∀ i ∈ D, ∀ j ∉ D, aux.freeOf j ≤ aux.freeOf i)
    (hbefore : ∀ j < x, aux.freeOf j = 1 → j ∈ D)
    (hlast : ∑ j ∈ D, aux.freeOf j + 1 = len ∨ ∀ j ∉ D, aux.freeOf j ≤ 1) :
    ∃ a ∈ D, aux.freeOf a = bg.freeBlocks ∧ (a = i ∨ i ∉ D ∧ 1 < bg.freeBlocks) := by
  have hi := FsAuxInfo.freeOf_of_get (h.get hfree)
  by_cases hmem : i ∈ D
  · exact ⟨i, hmem, hi, Or.inl rfl⟩
  have hmany : 1 < bg.freeBlocks := by
    by_contra hfew
    have := h.lt_of_freeOf hfree (show aux.freeOf x = bg.freeBlocks by omega) hne
    exact hmem (hbefore i this (by omega))
  obtain ⟨a, ha⟩ : D.Nonempty := by
    rw [Finset.nonempty_iff_ne_empty]
    rintro rfl
    rw [Finset.sum_empty] at hlast
    rcases hlast with hlast | hlast
    · omega
    · have := hlast i hmem
      omega
  exact ⟨a, ha, le_antisymm (h.freeOf_le hlt a) (hi ▸ hfull a ha i hmem), Or.inr ⟨hmem, hmany⟩⟩

theorem FsAuxInfo.Reached.drained {x : Nat} (h : Best len aux.freeList (i, bg.freeBlocks))
    (hfree : 0 < bg.freeBlocks) (hlt : bg.freeBlocks < len) (hne : x ≠ i)
    (hreached : aux.Reached len x) :
    (aux.setBg i (bg.give bg.freeBlocks)).Reached (len - bg.freeBlocks) x := by
  obtain ⟨hx, D, hsum, hfull, hbefore, hlast⟩ := hreached
  obtain ⟨a, ha, hsame, hplace⟩ := h.emptied hfree hlt hne hx hfull hbefore hlast
  have hgive := freeOf_give (h.get hfree) bg.freeBlocks
  have hi := FsAuxInfo.freeOf_of_get (h.get hfree)
  have hother {j : Nat} (hj : j ≠ i) :
      (aux.setBg i (bg.give bg.freeBlocks)).freeOf j = aux.freeOf j := by rw [hgive, if_neg hj]
  have hle (j : Nat) : (aux.setBg i (bg.give bg.freeBlocks)).freeOf j ≤ aux.freeOf j := by
    rw [hgive]
    split <;> omega
  have hiout : i ∉ D.erase a := by
    rw [Finset.mem_erase]
    rcases hplace with rfl | ⟨hmem, -⟩
    · exact fun h => h.1 rfl
    · exact fun h => hmem h.2
  have hrest := Finset.add_sum_erase D aux.freeOf ha
  refine ⟨(hother hne).trans hx, D.erase a, ?_⟩
  rw [sum_freeOf_give (h.get hfree) hiout]
  refine ⟨by omega, ?_, ?_, ?_⟩
  · intro k hk j hj
    rw [hother fun heq => hiout (heq ▸ hk)]
    have hkD := Finset.mem_of_mem_erase hk
    by_cases hja : j = a
    · rcases hplace with rfl | ⟨hmem, -⟩
      · rw [hja, hgive, if_pos rfl]
        omega
      · have := hfull k hkD i hmem
        have := hle a
        rw [hja]
        omega
    · exact (hle j).trans (hfull k hkD j fun hmem => hj (Finset.mem_erase.mpr ⟨hja, hmem⟩))
  · intro j hj hone
    have hji : j ≠ i := by
      rintro rfl
      rw [hgive, if_pos rfl] at hone
      omega
    rw [hother hji] at hone
    refine Finset.mem_erase.mpr ⟨?_, hbefore j hj hone⟩
    rintro rfl
    rcases hplace with heq | ⟨-, hmany⟩
    · exact hji heq
    · omega
  · rcases hlast with hlast | hlast
    · exact Or.inl (by omega)
    · refine Or.inr fun j hj => ?_
      by_cases hja : j = a
      · rcases hplace with rfl | ⟨hmem, hmany⟩
        · rw [hja, hgive, if_pos rfl]
          omega
        · have := hlast i hmem
          omega
      · exact (hle j).trans (hlast j fun hmem => hj (Finset.mem_erase.mpr ⟨hja, hmem⟩))

theorem Draws.reached (h : Draws L aux len ps aux' left) {p : Piece} (hp : p ∈ ps)
    (hone : aux.freeOf p.bg = 1) : aux.Reached len p.bg := by
  induction h with
  | stop aux len => cases hp
  | @draw aux aux' len left i bg ps hbg best free hlen rest ih =>
    have hget := best.get free
    rcases List.mem_cons.mp hp with rfl | hp
    · exact best.reached hlen ((FsAuxInfo.freeOf_of_get hget).symm.trans hone)
    rcases Nat.lt_or_ge bg.freeBlocks len with hlt | hge
    · rw [min_eq_right hlt.le] at rest ih
      have hgive := freeOf_give hget bg.freeBlocks p.bg
      have hne : p.bg ≠ i := by
        intro heq
        have := (rest.within hp).1.trans_le (rest.within hp).2
        rw [hgive, if_pos heq] at this
        omega
      rw [if_neg hne] at hgive
      exact .of_drained best free hlt hne (ih hp (hgive.trans hone))
    · rw [min_eq_left hge, Nat.sub_self] at rest
      cases rest with
      | stop => cases hp
      | draw _ _ _ hpos _ => omega

theorem Draws.of_reached (h : Draws L aux len ps aux' left) (hleft : left = 0) {x : Nat}
    (hreached : aux.Reached len x) : ∃ p ∈ ps, p.bg = x := by
  induction h with
  | stop aux len =>
    obtain ⟨-, D, hsum, -⟩ := hreached
    omega
  | @draw aux aux' len left i bg ps hbg best free hlen rest ih =>
    by_cases hne : x = i
    · exact ⟨_, List.mem_cons_self, hne.symm⟩
    rcases Nat.lt_or_ge bg.freeBlocks len with hlt | hge
    · rw [min_eq_right hlt.le] at ih
      obtain ⟨p, hp, hx⟩ := ih hleft (hreached.drained best free hlt hne)
      exact ⟨p, List.mem_cons_of_mem _ hp, hx⟩
    · exact absurd hreached (best.not_reached hlen hge hne)

end Choice

def BlockGroupInfo.blockAccount (bg : BlockGroupInfo) : Nat × Nat × Nat :=
  (bg.blockBitmap, bg.freeBlocks, bg.firstFreeBlock)

def BlocksUntouched (aux aux' : FsAuxInfo) : Prop :=
  aux'.bgs.map BlockGroupInfo.blockAccount = aux.bgs.map BlockGroupInfo.blockAccount

-- With force an allocation of len blocks that fails has taken none.
def FailsClean (aux : FsAuxInfo) (len : Nat) : Prop :=
  (∀ l aux' l', allocateBlocks true len (aux, l) = .ok (none, (aux', l')) →
    BlocksUntouched aux aux') ∧
  ∀ alloc l alloc' aux' l', appendOobAllocation true alloc len (aux, l) =
    .ok ((alloc', -1), (aux', l')) → BlocksUntouched aux aux'

section Failing

variable {L : Layout} {aux aux' : FsAuxInfo} {len left : Nat} {ps : List Piece}

theorem bestFit_forced (hk : L.Keeps aux) (len : Nat) (l : List Ext4Error) :
    ∃ ps aux' left, Draws L aux len ps aux' left ∧
      (left = 0 ∧ (∀ p ∈ ps, p.block ≠ ext4AllocateFailed) ∧
          ext4AllocateBestFit true len (aux, l) = .ok (ps, (aux', l)) ∨
        OutOfBlocks aux' left ps ∧
          ∃ e, ext4AllocateBestFit true len (aux, l) = .ok ([], (aux', l ++ [e]))) := by
  obtain ⟨ps, aux', left, hdraws, hend⟩ := bestFitLoop_run true l len le_rfl hk
  refine ⟨ps, aux', left, hdraws, ?_⟩
  rw [ext4AllocateBestFit, Run.bind_run]
  rcases hend with ⟨hleft, hnamed, hrun⟩ | ⟨hout, e, -, hrun⟩
  · rw [hrun]
    exact Or.inl ⟨hleft, hnamed, rfl⟩
  · rw [hrun]
    exact Or.inr ⟨hout, e, rfl⟩

theorem failsClean_iff_bestFit : FailsClean aux len ↔ ∀ l aux' l',
    ext4AllocateBestFit true len (aux, l) = .ok ([], (aux', l')) → BlocksUntouched aux aux' := by
  constructor
  · intro h l aux' l' hrun
    apply h.1 l aux' l'
    rw [allocateBlocks, Run.bind_run, hrun]
    rfl
  · intro h
    constructor
    · intro l aux' l' hrun
      obtain ⟨found, ⟨aux1, l1⟩, hfit, hend⟩ := Run.bind_ok.mp hrun
      cases found with
      | nil =>
        cases hend
        exact h l _ _ hfit
      | cons p rest => cases hend
    · intro alloc l alloc' aux' l' hrun
      obtain ⟨found, ⟨aux1, l1⟩, hfit, hend⟩ := Run.bind_ok.mp hrun
      cases found with
      | nil =>
        obtain ⟨⟨⟩, ⟨aux2, l2⟩, hraise, hend⟩ := Run.bind_ok.mp hend
        cases hraise
        cases hend
        exact h l _ _ hfit
      | cons p rest =>
        obtain ⟨alloc1, st, -, hend⟩ := Run.bind_ok.mp hend
        cases hend

theorem BlocksUntouched.freeTotal (h : BlocksUntouched aux aux') (hk : L.Keeps aux)
    (hk' : L.Keeps aux') : aux'.freeTotal = aux.freeTotal := by
  have hfree := congrArg (List.map fun account => account.2.1) h
  simp only [List.map_map] at hfree
  rw [FsAuxInfo.freeTotal, FsAuxInfo.freeTotal, hk.freeList_eq, hk'.freeList_eq]
  exact congrArg List.sum hfree

theorem Draws.nothing (h : Draws L aux len ps aux' left) (hnone : len = 0 ∨ aux.freeTotal = 0) :
    aux' = aux := by
  cases h with
  | stop => rfl
  | @draw _ _ _ _ i bg _ hbg best free hlen rest =>
    have hfree := aux.freeOf_le_freeTotal i
    rw [FsAuxInfo.freeOf_of_get (best.get free)] at hfree
    omega

def Layout.Unnamed (L : Layout) (aux : FsAuxInfo) (x : Nat) : Prop :=
  ∃ bg, aux.bgs[x]? = some bg ∧ 0 < bg.freeBlocks ∧
    L.first x + bg.firstFreeBlock = ext4AllocateFailed

theorem Layout.Unnamed.freeOf (hk : L.Keeps aux) {x : Nat} (h : L.Unnamed aux x) :
    aux.freeOf x = 1 := by
  obtain ⟨bg, hbg, hfree, hfail⟩ := h
  have hget : aux.freeList[x]? = some bg.freeBlocks := by
    rw [hk.freeList_eq, List.getElem?_map, hbg, Option.map_some]
  have hword := L.word x (hk.length ▸ (List.getElem?_eq_some_iff.mp hbg).1)
  have hsound := (hk.group hbg).sound.free
  rw [FsAuxInfo.freeOf_of_get hget]
  rw [ext4AllocateFailed] at hfail
  omega

theorem bestFit_fails (hk : L.Keeps aux) (hsome : 0 < aux.freeTotal)
    (hdraws : Draws L aux len ps aux' left) (hout : OutOfBlocks aux' left ps) :
    ¬ BlocksUntouched aux aux' := by
  intro h
  have hsame := h.freeTotal hk (hdraws.keeps hk)
  have htotal := hdraws.total
  rcases hout with ⟨-, hfull⟩ | ⟨p, hp, -⟩
  · have hzero := (hdraws.keeps hk).freeTotal_eq_zero hfull
    omega
  · have hpos := (hdraws.within hp).1
    have hle := List.single_le_sum (fun _ _ => Nat.zero_le _) p.len (List.mem_map_of_mem hp)
    omega

theorem failsClean_iff (L : Layout) (aux : FsAuxInfo) (hk : L.Keeps aux) (len : Nat) :
    FailsClean aux len ↔ len = 0 ∨ aux.freeTotal = 0 ∨
      len ≤ aux.freeTotal ∧ ∀ x, L.Unnamed aux x → ¬ aux.Reached len x := by
  rw [failsClean_iff_bestFit]
  constructor
  · intro h
    by_contra hno
    rw [not_or, not_or] at hno
    obtain ⟨hlen, hsome, hno⟩ := hno
    obtain ⟨ps, aux', left, hdraws, ⟨rfl, hnamed, -⟩ | ⟨hout, e, hrun⟩⟩ := bestFit_forced hk len []
    · have htotal := hdraws.total
      have hsum := hdraws.sum
      refine hno ⟨by omega, fun x hx hreached => ?_⟩
      obtain ⟨p, hp, rfl⟩ := hdraws.of_reached rfl hreached
      obtain ⟨bg, hbg, -, hstart⟩ := hdraws.start hp
      obtain ⟨bg', hbg', -, hfail⟩ := hx
      obtain rfl := Option.some.inj (hbg.symm.trans hbg')
      exact hnamed p hp (hstart.trans hfail)
    · exact bestFit_fails hk (Nat.pos_of_ne_zero hsome) hdraws hout (h [] _ _ hrun)
  · intro h l aux' l' hrun
    obtain ⟨ps, aux1, left, hdraws, hend⟩ := bestFit_forced hk len l
    have hclean : aux1 = aux := by
      rcases h with h | h | ⟨hle, hfree⟩
      · exact hdraws.nothing (Or.inl h)
      · exact hdraws.nothing (Or.inr h)
      rcases hend with ⟨rfl, -, hfit⟩ | ⟨⟨hleft, hfull⟩ | ⟨p, hp, hfail⟩, -⟩
      · rw [hfit] at hrun
        cases hrun
        have hsum := hdraws.sum
        exact hdraws.nothing (Or.inl (by simpa using hsum.symm))
      · have hzero := (hdraws.keeps hk).freeTotal_eq_zero hfull
        have htotal := hdraws.total
        have hsum := hdraws.sum
        omega
      · obtain ⟨bg, hbg, hpos, hstart⟩ := hdraws.start hp
        have hx : L.Unnamed aux p.bg := ⟨bg, hbg, hpos, hstart ▸ hfail⟩
        exact absurd (hdraws.reached hp (hx.freeOf hk)) (hfree p.bg hx)
    rcases hend with ⟨-, -, hfit⟩ | ⟨-, e, hfit⟩
    · rw [hfit] at hrun
      cases hrun
      exact hclean ▸ rfl
    · rw [hfit] at hrun
      cases hrun
      exact hclean ▸ rfl

end Failing

section LastBlock

def wholeDisk : Layout where
  groups := 131072
  bpg := 32768
  firstDataBlock := 0
  lenBlocks := 4294967296
  first i := i * 32768
  header _ := 1
  limit _ := 32768
  bpg_lt := by decide
  word i hi := by omega
  inside i hi := by omega
  header_le _ _ := by decide
  apart i j hi hj := by omega

def diskGroup (i used : Nat) : BlockGroupInfo :=
  { BlockGroupInfo.zero with
    firstBlock := i * 32768
    headerBlocks := 1
    blockBitmap := 2 ^ used - 1
    freeBlocks := 32768 - used
    firstFreeBlock := used }

def diskWith (used : Nat → Nat) : FsAuxInfo :=
  { smallAux with
    lenBlocks := 4294967296
    groups := 131072
    bgs := (List.range 131072).map fun i => diskGroup i (used i) }

theorem get_map_range {α : Type} {f : Nat → α} {k i : Nat} {a : α}
    (h : ((List.range k).map f)[i]? = some a) : i < k ∧ a = f i := by
  rw [List.getElem?_map, Option.map_eq_some_iff] at h
  obtain ⟨j, hj, rfl⟩ := h
  obtain ⟨hlt, hval⟩ := List.getElem?_eq_some_iff.mp hj
  rw [List.getElem_range] at hval
  rw [List.length_range] at hlt
  exact ⟨hlt, by rw [hval]⟩

theorem diskGroup_group {i used : Nat} (hge : 1 ≤ used) (hle : used ≤ 32768) :
    wholeDisk.Group i (diskGroup i used) := by
  refine ⟨rfl, rfl, fun k => ?_, rfl, hge, le_rfl, Or.inl hle⟩
  rw [diskGroup, Nat.testBit_two_pow_sub_one]
  congr 1
  simp [wholeDisk]

theorem diskWith_get {used : Nat → Nat} {i : Nat} {bg : BlockGroupInfo}
    (h : (diskWith used).bgs[i]? = some bg) : i < 131072 ∧ bg = diskGroup i (used i) := by
  simp only [diskWith] at h
  exact get_map_range h

theorem diskWith_keeps {used : Nat → Nat} (h : ∀ i, 1 ≤ used i ∧ used i ≤ 32768) :
    wholeDisk.Keeps (diskWith used) where
  groups := rfl
  firstDataBlock := rfl
  lenBlocks := rfl
  length := by rw [diskWith, List.length_map, List.length_range, wholeDisk]
  group := by
    intro i bg hbg
    obtain ⟨-, rfl⟩ := diskWith_get hbg
    exact diskGroup_group (h i).1 (h i).2

theorem diskWith_nameable {used : Nat → Nat} (h : used 131071 ≠ 32767) (hle : ∀ i, used i ≤ 32768) :
    wholeDisk.Nameable (diskWith used) := by
  intro i bg hbg hfree
  obtain ⟨hi, rfl⟩ := diskWith_get hbg
  have hused := hle i
  rw [diskGroup] at hfree
  rw [ext4AllocateFailed, wholeDisk, diskGroup]
  dsimp only at hfree ⊢
  intro heq
  obtain rfl : i = 131071 := by omega
  omega

theorem allocateBlocks_chooses_wholeDisk :
    (∃ alloc st, allocateBlocks true 40000 (diskWith fun _ => 1, []) = .ok (some alloc, st)) ↔
      40000 ≤ (diskWith fun _ => 1).freeTotal := by
  exact (allocateBlocks_chooses wholeDisk _ (diskWith_keeps fun _ => by omega)
    (diskWith_nameable (by decide) fun _ => by decide) true 40000 (by decide) []).1

def oneBlockFree : FsAuxInfo := diskWith fun i => if i = 0 then 32767 else 32768

theorem oneBlockFree_keeps : wholeDisk.Keeps oneBlockFree := by
  apply diskWith_keeps
  intro i
  split <;> omega

theorem oneBlockFree_nameable : wholeDisk.Nameable oneBlockFree := by
  apply diskWith_nameable
  · rw [if_neg (by omega)]
    omega
  · intro i
    split <;> omega

theorem sum_map_range {f : Nat → Nat} {k : Nat} (hk : 0 < k) (h : ∀ i, f (i + 1) = 0) :
    ((List.range k).map f).sum = f 0 := by
  obtain ⟨k, rfl⟩ := Nat.exists_eq_succ_of_ne_zero hk.ne'
  rw [List.range_succ_eq_map, List.map_cons, List.sum_cons, List.map_map, List.sum_eq_zero]
  · rfl
  · intro n hn
    obtain ⟨i, -, rfl⟩ := List.mem_map.mp hn
    exact h i

theorem oneBlockFree_freeTotal : oneBlockFree.freeTotal = 1 := by
  rw [FsAuxInfo.freeTotal, oneBlockFree_keeps.freeList_eq, oneBlockFree, diskWith, List.map_map,
    sum_map_range (by omega)]
  · rw [Function.comp_apply, if_pos rfl, diskGroup]
  · intro i
    rw [Function.comp_apply, if_neg (Nat.succ_ne_zero i), diskGroup]

theorem drained_and_refused : wholeDisk.Keeps oneBlockFree ∧ ¬ FailsClean oneBlockFree 2 := by
  have hk := oneBlockFree_keeps
  refine ⟨hk, fun h => ?_⟩
  obtain ⟨ps, aux', left, hdraws, ⟨rfl, -⟩ | ⟨hout, e, hrun⟩⟩ := bestFit_forced hk 2 []
  · have htotal := hdraws.total
    have hsum := hdraws.sum
    rw [oneBlockFree_freeTotal] at htotal
    omega
  · refine bestFit_fails hk ?_ hdraws hout (failsClean_iff_bestFit.mp h [] _ _ hrun)
    rw [oneBlockFree_freeTotal]
    decide

theorem failsClean_iff_oneBlockFree : FailsClean oneBlockFree 1 := by
  refine (failsClean_iff wholeDisk oneBlockFree oneBlockFree_keeps 1).2 (Or.inr (Or.inr ⟨?_, ?_⟩))
  · rw [oneBlockFree_freeTotal]
  · rintro x ⟨bg, hbg, hfree, hfail⟩
    exact absurd hfail (oneBlockFree_nameable x bg hbg hfree)

def lastBlockFree : FsAuxInfo := diskWith fun i => if i = 131071 then 32767 else 32768

theorem lastBlockFree_keeps : wholeDisk.Keeps lastBlockFree := by
  apply diskWith_keeps
  intro i
  split <;> omega

theorem last_block_is_refused : wholeDisk.Keeps lastBlockFree ∧ 1 ≤ lastBlockFree.freeTotal ∧
    ¬ ∃ alloc st, allocateBlocks true 1 (lastBlockFree, []) = .ok (some alloc, st) := by
  have hk := lastBlockFree_keeps
  refine ⟨hk, ?_, ?_⟩
  · have hfree : lastBlockFree.freeOf 131071 = 1 := by
      apply FsAuxInfo.freeOf_of_get
      rw [hk.freeList_eq, lastBlockFree, diskWith, List.getElem?_map, List.getElem?_map,
        List.getElem?_range (show 131071 < 131072 by omega), Option.map_some, Option.map_some,
        if_pos rfl]
      rfl
    exact hfree ▸ lastBlockFree.freeOf_le_freeTotal 131071
  · rintro ⟨alloc, ⟨aux', l'⟩, h⟩
    obtain ⟨ps, aux1, left, hdraws, ⟨rfl, hfine, -⟩ | ⟨-, e, -, hrun⟩⟩ :=
      allocateBlocks_run true 1 [] hk
    · obtain ⟨p, hp⟩ : ∃ p, p ∈ ps := by
        apply List.exists_mem_of_ne_nil
        rintro rfl
        cases hdraws.sum
      obtain ⟨bg, hbg, hfree, hstart⟩ := hdraws.start hp
      obtain ⟨-, rfl⟩ := diskWith_get hbg
      apply hfine p hp
      rw [hstart]
      by_cases hlast : p.bg = 131071
      · rw [if_pos hlast, hlast]
        exact Nat.add_comm (131071 * 32768) 32767
      · rw [if_neg hlast] at hfree
        cases hfree
    · rw [hrun] at h
      obtain ⟨⟨⟩, st, -, hend⟩ := Run.bind_ok.mp h
      cases hend

end LastBlock

end MakeExt4fs

import MakeExt4fs.Contents.Mapping

namespace MakeExt4fs

def regionAt (ids : List Nat) (k : Nat) (p : Piece) : Region :=
  ⟨p.block, p.len, p.bg, ids[k + 1]?, if k = 0 then none else ids[k - 1]?⟩

theorem regionAt_append {ids : List Nat} (xs : List Nat) {k : Nat} (p : Piece)
    (hk : k + 1 < ids.length) : regionAt (ids ++ xs) k p = regionAt ids k p := by
  rw [regionAt, regionAt, List.getElem?_append_left hk, List.getElem?_append_left (by omega)]

-- A region list as its pointers should have it: the regions ids in this order, with these pieces.
structure Linked (a : Arena Region) (list : RegionList) (ids : List Nat) (ps : List Piece) :
    Prop where
  same : ids.length = ps.length
  nodup : ids.Nodup
  positive : ∀ p ∈ ps, 0 < p.len
  cell : ∀ k i p, ids[k]? = some i → ps[k]? = some p →
    a[i]? = some (some (regionAt ids k p))
  first : list.first = ids[0]?
  last : list.last = ids.getLast?

namespace Linked

variable {a a' : Arena Region} {list list' : RegionList} {ids : List Nat} {ps : List Piece}
  {i : Nat} {p : Piece}

theorem empty (a : Arena Region) : Linked a .empty [] [] where
  same := rfl
  nodup := List.nodup_nil
  positive := by simp
  cell := by simp
  first := rfl
  last := rfl

theorem frame (h : Linked a list ids ps) (ha : ∀ i ∈ ids, a'[i]? = a[i]?)
    (hfirst : list'.first = list.first) (hlast : list'.last = list.last) :
    Linked a' list' ids ps where
  same := h.same
  nodup := h.nodup
  positive := h.positive
  cell k i p hi hp := by rw [ha i (List.mem_of_getElem? hi), h.cell k i p hi hp]
  first := hfirst.trans h.first
  last := hlast.trans h.last

theorem lt (h : Linked a list ids ps) {i : Nat} (hi : i ∈ ids) : i < a.length := by
  obtain ⟨k, hk⟩ := List.getElem?_of_mem hi
  have hlt : k < ps.length := h.same ▸ (List.getElem?_eq_some_iff.mp hk).1
  exact (List.getElem?_eq_some_iff.mp (h.cell k i _ hk (List.getElem?_eq_getElem hlt))).1

theorem chain (h : Linked a list ids ps) {k : Nat} (hk : k ≤ ids.length) :
    ∃ cells, Chain a ids[k]? cells ∧ piecesOf cells = ps.drop k := by
  obtain ⟨n, hn⟩ := Nat.exists_eq_add_of_le hk
  induction n generalizing k with
  | zero =>
    refine ⟨[], List.getElem?_eq_none (by omega), ?_⟩
    rw [List.drop_eq_nil_of_le (by rw [← h.same]; omega)]
    rfl
  | succ n ih =>
    obtain ⟨cells, hchain, hpieces⟩ := ih (k := k + 1) (by omega) (by omega)
    have hlt : k < ids.length := by omega
    have hlt' : k < ps.length := h.same ▸ hlt
    have hcell := h.cell k ids[k] ps[k] (List.getElem?_eq_getElem hlt)
      (List.getElem?_eq_getElem hlt')
    refine ⟨(ids[k], _) :: cells, ⟨List.getElem?_eq_getElem hlt, hcell, hchain⟩, ?_⟩
    rw [List.drop_eq_getElem_cons hlt', ← hpieces]
    rfl

section Append

variable {j : Nat} {r : Region}

theorem appendFirst (hj : a[j]? = some (some r)) (hpos : 0 < r.len) :
    Linked (a.set j (some { r with prev := none, next := none })) ⟨some j, some j, some j, 0⟩ [j]
      [r.piece] := by
  have hjlt : j < a.length := (List.getElem?_eq_some_iff.mp hj).1
  refine ⟨rfl, List.nodup_singleton j, List.forall_mem_singleton.mpr hpos, ?_, rfl, rfl⟩
  intro k i p hi hp
  cases k with
  | succ k => simp at hi
  | zero =>
    simp only [List.getElem?_cons_zero, Option.some.injEq] at hi hp
    subst hi hp
    rw [List.getElem?_set_self hjlt]
    rfl

def linkedWith (a : Arena Region) (before : List Nat) (q j : Nat) (p : Piece) (r : Region) :
    Arena Region :=
  (a.set q (some { regionAt (before ++ [q]) before.length p with next := some j })).set j
    (some { r with prev := some q, next := none })

variable {before : List Nat} {q : Nat} {ps' : List Piece}

theorem linkedWith_other (hiq : i ≠ q) (hij : i ≠ j) :
    (linkedWith a before q j p r)[i]? = a[i]? := by
  rw [linkedWith, List.getElem?_set_ne (Ne.symm hij), List.getElem?_set_ne (Ne.symm hiq)]

theorem linkedWith_before (hqlt : q < a.length) (hjq : j ≠ q) :
    (linkedWith a before q j p r)[q]? =
      some (some (regionAt (before ++ [q] ++ [j]) before.length p)) := by
  have hnext : (before ++ [q] ++ [j])[before.length + 1]? = some j := by simp
  have hprev : (before ++ [q] ++ [j])[before.length - 1]? =
      (before ++ [q])[before.length - 1]? := List.getElem?_append_left (by simp)
  rw [linkedWith, List.getElem?_set_ne hjq, List.getElem?_set_self hqlt]
  simp only [regionAt, hnext, hprev]

theorem linkedWith_new (hjlt : j < a.length) : (linkedWith a before q j p r)[j]? =
    some (some (regionAt (before ++ [q] ++ [j]) (before.length + 1) r.piece)) := by
  rw [linkedWith, List.getElem?_set_self (by simpa using hjlt)]
  simp [regionAt, Region.piece]

theorem appendLast (h : Linked a list (before ++ [q]) (ps' ++ [p])) (hj : a[j]? = some (some r))
    (hnot : j ∉ before ++ [q]) (hpos : 0 < r.len) :
    Linked (linkedWith a before q j p r) { list with last := some j } (before ++ [q] ++ [j])
      (ps' ++ [p] ++ [r.piece]) := by
  have hjlt : j < a.length := (List.getElem?_eq_some_iff.mp hj).1
  have hjq : j ≠ q := by
    rintro rfl
    exact hnot (by simp)
  have hsame : before.length = ps'.length := by simpa using h.same
  refine ⟨by simp [hsame], ?_, ?_, ?_, ?_, by simp⟩
  · rw [List.nodup_append]
    refine ⟨h.nodup, List.nodup_singleton j, ?_⟩
    rintro i hi _ hj rfl
    exact hnot (List.mem_singleton.mp hj ▸ hi)
  · intro p' hp'
    rcases List.mem_append.mp hp' with hp' | hp'
    · exact h.positive p' hp'
    · obtain rfl := List.mem_singleton.mp hp'
      exact hpos
  · intro k i p' hi hp'
    rcases Nat.lt_trichotomy k before.length with hk | rfl | hk
    · rw [List.getElem?_append_left (by simp; omega)] at hi
      rw [List.getElem?_append_left (by simp; omega)] at hp'
      have hiq : i ≠ q := by
        rintro rfl
        have hq : (before ++ [i])[before.length]? = some i := by simp
        have := (List.getElem?_inj (by simp; omega) h.nodup).mp (hi.trans hq.symm)
        omega
      have hij : i ≠ j := by
        rintro rfl
        exact hnot (List.mem_of_getElem? hi)
      rw [linkedWith_other hiq hij, h.cell k i p' hi hp',
        regionAt_append [j] p' (show k + 1 < (before ++ [q]).length by simpa using hk)]
    · simp only [List.append_assoc, List.getElem?_append_right le_rfl, Nat.sub_self,
        List.singleton_append, List.getElem?_cons_zero, Option.some.injEq] at hi
      rw [hsame] at hp'
      simp only [List.append_assoc, List.getElem?_append_right le_rfl, Nat.sub_self,
        List.singleton_append, List.getElem?_cons_zero, Option.some.injEq] at hp'
      subst hi hp'
      exact linkedWith_before (h.lt (by simp)) hjq
    · obtain rfl : k = before.length + 1 := by
        have := (List.getElem?_eq_some_iff.mp hi).1
        simp only [List.length_append, List.length_singleton] at this
        omega
      rw [List.getElem?_append_right (by simp)] at hi
      rw [List.getElem?_append_right (by simp [hsame])] at hp'
      simp only [List.length_append, List.length_singleton, hsame, Nat.sub_self,
        List.getElem?_cons_zero, Option.some.injEq] at hi hp'
      subst hi hp'
      exact linkedWith_new hjlt
  · rw [List.getElem?_append_left (by simp), ← h.first]

theorem append (h : Linked a list ids ps) (hj : a[j]? = some (some r)) (hnot : j ∉ ids)
    (hpos : 0 < r.len) :
    ∃ a' list', regionListAppend a list j = some (a', list') ∧
      Linked a' list' (ids ++ [j]) (ps ++ [r.piece]) ∧ (∀ i, i ∉ ids → i ≠ j → a'[i]? = a[i]?) ∧
      list'.iter = (if ids = [] then some j else list.iter) ∧
      list'.partialIter = (if ids = [] then 0 else list.partialIter) := by
  rcases List.eq_nil_or_concat' ids with rfl | ⟨before, q, rfl⟩
  · obtain rfl : ps = [] := List.eq_nil_of_length_eq_zero h.same.symm
    refine ⟨_, _, ?_, appendFirst hj hpos, fun i _ hij => List.getElem?_set_ne (Ne.symm hij), rfl,
      rfl⟩
    have hfirst : list.first = none := h.first
    rw [regionListAppend, hfirst]
    simp only [Arena.modify_of_look _ hj, Option.bind_eq_bind, Option.bind_some]
  · obtain ⟨ps', p, rfl⟩ : ∃ ps' p, ps = ps' ++ [p] := by
      rcases List.eq_nil_or_concat' ps with rfl | ⟨ps', p, rfl⟩
      · simpa using h.same
      · exact ⟨ps', p, rfl⟩
    have hsame : before.length = ps'.length := by simpa using h.same
    have hcell := h.cell before.length q p (by simp) (by simp [hsame])
    have hjq : j ≠ q := by
      rintro rfl
      exact hnot (by simp)
    obtain ⟨f, hfirst⟩ : ∃ f, list.first = some f := by
      rw [h.first]
      exact ⟨_, List.getElem?_eq_getElem (by simp)⟩
    have hlast : list.last = some q := by rw [h.last, List.getLast?_concat]
    refine ⟨linkedWith a before q j p r, { list with last := some j }, ?_,
      h.appendLast hj hnot hpos, fun i hi hij => linkedWith_other ?_ hij, by simp, by simp⟩
    · have hj' : (a.set q (some { regionAt (before ++ [q]) before.length p with
          next := some j }))[j]? = some (some r) := by
        rw [List.getElem?_set_ne (Ne.symm hjq), hj]
      rw [regionListAppend, hfirst, hlast]
      simp only [Arena.modify_of_look _ hcell, Option.bind_eq_bind, Option.bind_some]
      rw [Arena.modify_of_look _ hj']
      rfl
    · rintro rfl
      exact hi (by simp)

end Append

theorem resize (h : Linked a list (ids ++ [i]) (ps ++ [p])) {n : Nat} (hn : 0 < n) {r : Region}
    (hr : a[i]? = some (some r)) :
    Linked (a.set i (some { r with len := n })) list (ids ++ [i])
      (ps ++ [{ p with len := n }]) := by
  have hsame : ids.length = ps.length := by
    have := h.same
    simpa using this
  have hi : (ids ++ [i])[ids.length]? = some i := by simp
  have hp : (ps ++ [p])[ids.length]? = some p := by simp [hsame]
  have hcell := h.cell ids.length i p hi hp
  rw [hr, Option.some.injEq, Option.some.injEq] at hcell
  refine ⟨by simp [hsame], h.nodup, ?_, ?_, h.first, h.last⟩
  · intro q hq
    rcases List.mem_append.mp hq with hq | hq
    · exact h.positive q (List.mem_append_left _ hq)
    · obtain rfl := List.mem_singleton.mp hq
      exact hn
  · intro k j q hj hq
    rcases Nat.lt_or_ge k ids.length with hk | hk
    · have hji : j ≠ i := by
        rintro rfl
        have := (List.getElem?_inj (by simp; omega) h.nodup).mp (hj.trans hi.symm)
        omega
      rw [List.getElem?_append_left (hsame ▸ hk)] at hq
      rw [List.getElem?_set_ne (Ne.symm hji)]
      exact h.cell k j q hj (by rw [List.getElem?_append_left (hsame ▸ hk), hq])
    · obtain rfl : k = ids.length := by
        have := (List.getElem?_eq_some_iff.mp hj).1
        simp only [List.length_append, List.length_singleton] at this
        omega
      rw [hi, Option.some.injEq] at hj
      rw [List.getElem?_append_right hsame.ge, hsame, Nat.sub_self, List.getElem?_cons_zero,
        Option.some.injEq] at hq
      subst hj hq hcell
      rw [List.getElem?_set_self (h.lt (by simp))]
      rfl

end Linked

end MakeExt4fs

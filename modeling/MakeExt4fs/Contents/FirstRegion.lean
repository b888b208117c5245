import MakeExt4fs.Allocate.Pool
import MakeExt4fs.Contents.IndirectBlocks

namespace MakeExt4fs

open Words

def Onward (n f : Nat) (p : Option Nat) : Prop := ∀ k, p = some k → k < n ∧ k ≠ f

theorem onward_none (n f : Nat) : Onward n f none := fun _ h => by cases h

theorem onward_some {n f k : Nat} (hlt : k < n) (hne : k ≠ f) : Onward n f (some k) := by
  rintro _ ⟨⟩
  exact ⟨hlt, hne⟩

theorem Onward.ne {n f : Nat} {p : Option Nat} (h : Onward n f p) : p ≠ some f :=
  fun heq => (h f heq).2 rfl

structure Heads (a : Arena Region) (list : RegionList) (f : Nat) (r : Region) : Prop where
  first : list.first = some f
  cell : a[f]? = some (some r)
  start : r.prev = none
  positive : 0 < r.len
  entry : ∀ (i : Nat) (c : Region), a[i]? = some (some c) → Onward a.length f c.next

namespace Heads

variable {a a' : Arena Region} {list list' oob oob' : RegionList} {f s : Nat} {r : Region}

theorem anyList (h : Heads a list f r) (hfirst : list'.first = list.first) :
    Heads a list' f r :=
  ⟨hfirst.trans h.first, h.cell, h.start, h.positive, h.entry⟩

theorem modify (h : Heads a list f r) {p : Option Nat} {g : Region → Region}
    (hm : a.modify p g = some a')
    (hnext : ∀ c, Onward a.length f c.next → Onward a.length f (g c).next)
    (hlen : (g r).len = r.len) (hprev : p = some f → (g r).prev = none) :
    (∃ r', Heads a' list f r' ∧ r'.len = r.len) ∧ a'.length = a.length := by
  obtain ⟨i, c, rfl, hc, rfl⟩ := Arena.modify_some hm
  have hi := (List.getElem?_eq_some_iff.mp hc).1
  have hlength : (a.set i (some (g c))).length = a.length := List.length_set
  refine ⟨?_, hlength⟩
  have hentry (j : Nat) (d : Region) (hd : (a.set i (some (g c)))[j]? = some (some d)) :
      Onward (a.set i (some (g c))).length f d.next := by
    rw [hlength]
    rw [List.getElem?_set] at hd
    split at hd
    · cases hd
      exact hnext c (h.entry i c hc)
    · exact h.entry j d hd
  by_cases hif : i = f
  · subst hif
    obtain rfl : c = r := by
      rw [h.cell] at hc
      cases hc
      rfl
    refine ⟨g c, ⟨h.first, ?_, hprev rfl, hlen ▸ h.positive, hentry⟩, hlen⟩
    rw [List.getElem?_set_self hi]
  · refine ⟨r, ⟨h.first, ?_, h.start, h.positive, hentry⟩, rfl⟩
    rw [List.getElem?_set_ne hif]
    exact h.cell

theorem relink (h : Heads a list f r) {β : Type} {p q : Option Nat} {g : Region → Region}
    {k : Arena Region → Option β} {y : β}
    (hm : (if q.isSome then (a.modify p g).bind k else (some a).bind k) = some y)
    (hnext : ∀ c, Onward a.length f c.next → Onward a.length f (g c).next)
    (hlen : (g r).len = r.len) (hprev : p = some f → (g r).prev = none) :
    ∃ a' r', Heads a' list f r' ∧ r'.len = r.len ∧ a'.length = a.length ∧ k a' = some y := by
  split at hm
  · obtain ⟨a', hmodify, hk⟩ := Option.bind_eq_some_iff.mp hm
    obtain ⟨⟨r', hheads, hsame⟩, hlength⟩ := h.modify hmodify hnext hlen hprev
    exact ⟨a', r', hheads, hsame, hlength, hk⟩
  · exact ⟨a, r, h, rfl, rfl, hm⟩

theorem remove (h : Heads a list f r) (hs : s ≠ f)
    (hm : regionListRemove a list s = some (a', list')) :
    ∃ r', Heads a' list' f r' ∧ r'.len = r.len ∧ list'.iter = list.iter := by
  simp only [regionListRemove, Option.bind_eq_bind] at hm
  obtain ⟨c, hc, hm⟩ := Option.bind_eq_some_iff.mp hm
  have hcell := h.entry s c (Arena.look_eq_some.mp hc)
  obtain ⟨a1, r1, h1, hlen1, -, hm⟩ := h.relink hm (fun _ _ => hcell) rfl fun _ => h.start
  obtain ⟨a2, r2, h2, hlen2, -, hm⟩ := h1.relink hm (fun _ hd => hd) rfl
    fun heq => absurd heq hcell.ne
  obtain ⟨a3, hmodify, hend⟩ := Option.bind_eq_some_iff.mp hm
  obtain ⟨⟨r3, h3, hlen3⟩, -⟩ := h2.modify hmodify (fun _ _ => onward_none _ _) rfl
    fun heq => absurd (Option.some.inj heq) hs
  have hne : list.first ≠ some s := by
    rw [h.first]
    exact fun heq => hs (Option.some.inj heq).symm
  rw [if_neg hne, Option.some.injEq, Prod.mk.injEq] at hend
  obtain ⟨rfl, rfl⟩ := hend
  refine ⟨r3, h3.anyList ?_, by rw [hlen3, hlen2, hlen1], ?_⟩ <;> split <;> rfl

theorem append (h : Heads a list f r) (hs : s ≠ f)
    (hm : regionListAppend a oob s = some (a', oob')) :
    ∃ r', Heads a' list f r' ∧ r'.len = r.len := by
  rw [regionListAppend] at hm
  split at hm
  · simp only [Option.bind_eq_bind, Option.bind_eq_some_iff] at hm
    obtain ⟨a1, h1, hend⟩ := hm
    cases hend
    exact (h.modify h1 (fun _ _ => onward_none _ _) rfl
      fun heq => absurd (Option.some.inj heq) hs).1
  · simp only [Option.bind_eq_bind, Option.bind_eq_some_iff] at hm
    obtain ⟨a1, h1, a2, h2, hend⟩ := hm
    cases hend
    have hlt : s < a.length := by
      obtain ⟨i, c, -, -, rfl⟩ := Arena.modify_some h1
      obtain ⟨k, d, heq, hd, -⟩ := Arena.modify_some h2
      cases heq
      exact List.length_set ▸ (List.getElem?_eq_some_iff.mp hd).1
    obtain ⟨⟨r1, hheads1, hlen1⟩, -⟩ := h.modify h1 (fun _ _ => onward_some hlt hs) rfl
      fun _ => h.start
    obtain ⟨⟨r2, hheads2, hlen2⟩, -⟩ := hheads1.modify h2 (fun _ _ => onward_none _ _) rfl
      fun heq => absurd (Option.some.inj heq) hs
    exact ⟨r2, hheads2, hlen2.trans hlen1⟩

theorem moveToOob {alloc alloc' : BlockAllocation} (h : Heads alloc.regions alloc.list f r)
    {fuel : Nat} {p : Option Nat} (hp : p ≠ some f) (hm : moveToOob fuel alloc p = some alloc') :
    ∃ r', Heads alloc'.regions alloc'.list f r' ∧ r'.len = r.len := by
  induction fuel generalizing alloc p r with
  | zero =>
    cases p with
    | none =>
      cases hm
      exact ⟨r, h, rfl⟩
    | some s =>
      rw [MakeExt4fs.moveToOob] at hm
      split at hm <;> cases hm
      exact ⟨r, h, rfl⟩
  | succ fuel ih =>
    cases p with
    | none =>
      cases hm
      exact ⟨r, h, rfl⟩
    | some s =>
      rw [MakeExt4fs.moveToOob] at hm
      split at hm
      · cases hm
        exact ⟨r, h, rfl⟩
      · simp only [Option.bind_eq_bind, Option.bind_eq_some_iff] at hm
        obtain ⟨c, hc, ⟨a1, list1⟩, hremove, ⟨a2, oob2⟩, happend, hrest⟩ := hm
        have hs : s ≠ f := fun heq => hp (congrArg some heq)
        obtain ⟨r1, h1, hlen1, -⟩ := h.remove hs hremove
        obtain ⟨r2, h2, hlen2⟩ := h1.append hs happend
        obtain ⟨r3, h3, hlen3⟩ := ih h2 (h.entry s c (Arena.look_eq_some.mp hc)).ne hrest
        exact ⟨r3, h3, by rw [hlen3, hlen2, hlen1]⟩

end Heads

section Splitting

variable {alloc alloc' : BlockAllocation} {a : Arena Region} {m p : Option Nat} {f i : Nat}
  {r : Region}

theorem seek_found {fuel x place : Nat} (h : seek a fuel p x = some (some i, place)) :
    ∃ c, a[i]? = some (some c) ∧ place < c.len ∧ (p = some i ∧ place = x ∨
      (∃ j d, p = some j ∧ a[j]? = some (some d) ∧ d.len + place ≤ x) ∧
        ∃ (j : Nat) (d : Region), a[j]? = some (some d) ∧ d.next = some i) := by
  induction fuel generalizing p x with
  | zero => cases p <;> cases h
  | succ fuel ih =>
    cases p with
    | none => cases h
    | some k =>
      simp only [seek, Option.bind_eq_bind, Option.bind_eq_some_iff] at h
      obtain ⟨d, hd, h⟩ := h
      have hcell := Arena.look_eq_some.mp hd
      split at h
      · rename_i hlt
        cases h
        exact ⟨d, hcell, hlt, Or.inl ⟨rfl, rfl⟩⟩
      · rename_i hge
        obtain ⟨c, hc, hlt, hcase⟩ := ih h
        obtain ⟨hnext, rfl⟩ | ⟨⟨j, e, -, -, hle⟩, hnext⟩ := hcase
        · exact ⟨c, hc, hlt, Or.inr ⟨⟨k, d, rfl, hcell, by omega⟩, k, d, hcell, hnext⟩⟩
        · exact ⟨c, hc, hlt, Or.inr ⟨⟨k, d, rfl, hcell, by omega⟩, hnext⟩⟩

def cutCells (a : Arena Region) (i n : Nat) (c : Region) : Arena Region :=
  List.set (a ++ [some ⟨u32 (c.block + n), c.len - n, c.bg, c.next, some i⟩]) i
    (some { c with next := some a.length, len := n })

theorem doSplitAllocation_cases {len : Nat} (h : doSplitAllocation alloc len = some (alloc', m)) :
    alloc' = alloc ∧ (∃ n, seek alloc.regions alloc.regions.length alloc.list.iter len =
        some (m, n) ∧ (m = none ∨ n = 0)) ∨
      ∃ i n c, seek alloc.regions alloc.regions.length alloc.list.iter len = some (some i, n) ∧
        0 < n ∧ alloc.regions[i]? = some (some c) ∧ m = alloc.list.iter ∧
        alloc' = ⟨cutCells alloc.regions i n c,
          { alloc.list with iter := some alloc.regions.length }, alloc.oobList⟩ := by
  simp only [doSplitAllocation, Option.bind_eq_bind, Option.bind_eq_some_iff] at h
  obtain ⟨⟨q, n⟩, hseek, h⟩ := h
  cases q with
  | none =>
    cases h
    exact Or.inl ⟨rfl, n, hseek, Or.inl rfl⟩
  | some i =>
    cases n with
    | zero =>
      cases h
      exact Or.inl ⟨rfl, 0, hseek, Or.inr rfl⟩
    | succ n =>
      simp only [Option.bind_eq_some_iff] at h
      obtain ⟨c, hc, a1, hmodify, hend⟩ := h
      have hcell := Arena.look_eq_some.mp hc
      have hlt := (List.getElem?_eq_some_iff.mp hcell).1
      rw [Arena.modify_of_look _ (by rw [List.getElem?_append_left hlt]; exact hcell)] at hmodify
      cases hmodify
      cases hend
      exact Or.inr ⟨i, n + 1, c, hseek, Nat.succ_pos n, hcell, rfl, rfl⟩

theorem Heads.lt {list : RegionList} (h : Heads a list f r) : f < a.length :=
  (List.getElem?_eq_some_iff.mp h.cell).1

theorem cutCells_length (a : Arena Region) (i n : Nat) (c : Region) :
    (cutCells a i n c).length = a.length + 1 := by
  rw [cutCells, List.length_set, List.length_append, List.length_singleton]

theorem cutCells_cell {c d : Region} {n j : Nat}
    (h : (cutCells a i n c)[j]? = some (some d)) :
    j = i ∧ d = { c with next := some a.length, len := n } ∨
      j = a.length ∧ d = ⟨u32 (c.block + n), c.len - n, c.bg, c.next, some i⟩ ∨
      j ≠ i ∧ a[j]? = some (some d) := by
  rw [cutCells, List.getElem?_set] at h
  split at h
  · rename_i heq
    split at h <;> cases h
    exact Or.inl ⟨heq.symm, rfl⟩
  · rename_i hne
    rcases Nat.lt_trichotomy j a.length with hlt | heq | hgt
    · rw [List.getElem?_append_left hlt] at h
      exact Or.inr (Or.inr ⟨Ne.symm hne, h⟩)
    · subst heq
      rw [List.getElem?_concat_length] at h
      cases h
      exact Or.inr (Or.inl ⟨rfl, rfl⟩)
    · rw [List.getElem?_append_right hgt.le, List.getElem?_eq_none (by simp; omega)] at h
      cases h

theorem Heads.cut {list list' : RegionList} (h : Heads a list f r) {c : Region} {n : Nat}
    (hc : a[i]? = some (some c)) (hn : 0 < n) (hlt : n < c.len)
    (hfirst : list'.first = list.first) :
    ∃ r', Heads (cutCells a i n c) list' f r' ∧ r'.len ≤ r.len ∧ (i = f → r'.len = n) := by
  have hi := (List.getElem?_eq_some_iff.mp hc).1
  have hf := h.lt
  have hnext : ∀ (j : Nat) (d : Region), (cutCells a i n c)[j]? = some (some d) →
      Onward (cutCells a i n c).length f d.next := by
    intro j d hd
    rw [cutCells_length]
    obtain ⟨-, rfl⟩ | ⟨-, rfl⟩ | ⟨-, hold⟩ := cutCells_cell hd
    · exact onward_some (Nat.lt_succ_self _) hf.ne'
    · exact fun k hk => ⟨((h.entry i c hc) k hk).1.trans (Nat.lt_succ_self _),
        ((h.entry i c hc) k hk).2⟩
    · exact fun k hk => ⟨((h.entry j d hold) k hk).1.trans (Nat.lt_succ_self _),
        ((h.entry j d hold) k hk).2⟩
  by_cases hif : i = f
  · subst hif
    obtain rfl : c = r := Option.some.inj (Option.some.inj (hc.symm.trans h.cell))
    refine ⟨{ c with next := some a.length, len := n },
      ⟨hfirst.trans h.first, ?_, h.start, hn, hnext⟩, hlt.le, fun _ => rfl⟩
    rw [cutCells, List.getElem?_set_self (by simp; omega)]
  · refine ⟨r, ⟨hfirst.trans h.first, ?_, h.start, h.positive, hnext⟩, le_rfl,
      fun heq => absurd heq hif⟩
    rw [cutCells, List.getElem?_set_ne hif, List.getElem?_append_left hf]
    exact h.cell

theorem removeFront_heads {list list' : RegionList} {a' : Arena Region} {n : Nat}
    (h : Heads a list f r) (hlt : n < r.len)
    (hm : regionListRemove (cutCells a f n r) list f = some (a', list')) :
    ∃ r', Heads a' list' a.length r' ∧ r'.len ≤ r.len ∧ list'.iter = list.iter := by
  have hf := h.lt
  have hlength := cutCells_length a f n r
  have hfront : (cutCells a f n r)[f]? =
      some (some { r with next := some a.length, len := n }) := by
    rw [cutCells, List.getElem?_set_self (by simp; omega)]
  have hback : (cutCells a f n r)[a.length]? =
      some (some ⟨u32 (r.block + n), r.len - n, r.bg, r.next, some f⟩) := by
    rw [cutCells, List.getElem?_set_ne hf.ne, List.getElem?_concat_length]
  simp only [regionListRemove, Option.bind_eq_bind] at hm
  obtain ⟨c, hc, hm⟩ := Option.bind_eq_some_iff.mp hm
  obtain rfl := Option.some.inj (Option.some.inj ((Arena.look_eq_some.mp hc).symm.trans hfront))
  simp only [h.start, Option.isSome_none, Bool.false_eq_true, ↓reduceIte, Option.bind_some,
    Option.isSome_some, Arena.modify_of_look _ hback] at hm
  obtain ⟨a1, hmodify, hend⟩ := Option.bind_eq_some_iff.mp hm
  rw [Arena.modify_of_look _ (by rw [List.getElem?_set_ne hf.ne']; exact hfront)] at hmodify
  obtain rfl := Option.some.inj hmodify
  rw [if_pos h.first, Option.some.injEq, Prod.mk.injEq] at hend
  obtain ⟨rfl, rfl⟩ := hend
  refine ⟨⟨u32 (r.block + n), r.len - n, r.bg, r.next, none⟩, ⟨?_, ?_, rfl, ?_, ?_⟩, ?_, ?_⟩
  · split <;> rfl
  · rw [List.getElem?_set_ne hf.ne, List.getElem?_set_self (by omega)]
  · exact Nat.sub_pos_of_lt hlt
  · intro j d hd
    rw [List.length_set, List.length_set, hlength]
    -- the cells from before the cut lead to cells from before the cut
    have hold : ∀ (k : Nat) (e : Region), a[k]? = some (some e) →
        Onward (a.length + 1) a.length e.next := by
      intro k e he q hq
      have hlt := (h.entry k e he q hq).1
      exact ⟨by omega, hlt.ne⟩
    rw [List.getElem?_set] at hd
    split at hd
    · split at hd <;> cases hd
      exact onward_none _ _
    · rename_i hjf
      rw [List.getElem?_set] at hd
      split at hd
      · split at hd <;> cases hd
        exact hold f r h.cell
      · rename_i hjn
        obtain ⟨rfl, -⟩ | ⟨rfl, -⟩ | ⟨-, hcell⟩ := cutCells_cell hd
        · exact absurd rfl hjf
        · exact absurd rfl hjn
        · exact hold j d hcell
  · exact Nat.sub_le _ _
  · split <;> rfl

theorem moveFront_heads {list oobList : RegionList} {fuel n : Nat} (h : Heads a list f r)
    (hlt : n < r.len) (hiter : list.iter = some a.length)
    (hm : moveToOob fuel ⟨cutCells a f n r, list, oobList⟩ (some f) = some alloc') :
    ∃ r', Heads alloc'.regions alloc'.list a.length r' ∧ r'.len ≤ r.len := by
  have hf := h.lt
  have hne : list.iter ≠ some f := by
    rw [hiter]
    exact fun heq => hf.ne' (Option.some.inj heq)
  cases fuel with
  | zero =>
    rw [moveToOob, if_neg hne] at hm
    cases hm
  | succ fuel =>
    rw [moveToOob, if_neg hne] at hm
    simp only [Option.bind_eq_bind, Option.bind_eq_some_iff] at hm
    obtain ⟨c, hc, ⟨a1, list1⟩, hremove, ⟨a2, oob2⟩, happend, hrest⟩ := hm
    have hnext : c.next = some a.length := by
      rw [cutCells, Arena.look_eq_some, List.getElem?_set_self (by simp; omega)] at hc
      cases hc
      rfl
    obtain ⟨r1, h1, hlen1, hsame⟩ := removeFront_heads h hlt hremove
    obtain ⟨r2, h2, hlen2⟩ := h1.append hf.ne happend
    have hstop : moveToOob fuel ⟨a2, list1, oob2⟩ (some a.length) = some ⟨a2, list1, oob2⟩ := by
      cases fuel <;> rw [moveToOob, if_pos (hsame.trans hiter)]
    rw [hnext, hstop] at hrest
    cases hrest
    exact ⟨r2, h2, hlen2.trans_le hlen1⟩

def FirstShort (alloc : BlockAllocation) : Prop :=
  ∃ f r, Heads alloc.regions alloc.list f r ∧ r.len ≤ ext4NdirBlocks

def BehindDirect (alloc : BlockAllocation) : Prop :=
  ∃ f r, Heads alloc.regions alloc.list f r ∧ (r.len ≤ ext4NdirBlocks ∨
    alloc.list.iter = some f ∧ alloc.list.partialIter = ext4NdirBlocks)

theorem FirstShort.behindDirect (h : FirstShort alloc) : BehindDirect alloc := by
  obtain ⟨f, r, hheads, hshort⟩ := h
  exact ⟨f, r, hheads, Or.inl hshort⟩

theorem seek_here {n x : Nat} (hr : a[f]? = some (some r)) (hx : x < r.len) (hn : 0 < n) :
    seek a n (some f) x = some (some f, x) := by
  obtain ⟨k, rfl⟩ := Nat.exists_eq_succ_of_ne_zero hn.ne'
  rw [seek, Arena.look_eq_some.mpr hr]
  exact if_pos hx

theorem BehindDirect.split (h : BehindDirect alloc)
    (hm : doSplitAllocation alloc alloc.list.partialIter = some (alloc', m)) :
    FirstShort alloc' := by
  obtain ⟨f, r, hheads, hshort⟩ := h
  have hcut (hlong : ext4NdirBlocks < r.len) : seek alloc.regions alloc.regions.length
      alloc.list.iter alloc.list.partialIter = some (some f, ext4NdirBlocks) := by
    obtain ⟨hiter, hpartial⟩ := hshort.resolve_left (not_le.mpr hlong)
    rw [hiter, hpartial]
    exact seek_here hheads.cell hlong (Nat.zero_lt_of_lt hheads.lt)
  obtain ⟨rfl, n, hseek, hstop⟩ | ⟨i, n, c, hseek, hn, hc, -, rfl⟩ := doSplitAllocation_cases hm
  · refine ⟨f, r, hheads, not_lt.mp fun hlong => ?_⟩
    rw [hcut hlong] at hseek
    cases hseek
    rcases hstop with hstop | hstop <;> cases hstop
  · obtain ⟨d, hd, hlt, -⟩ := seek_found hseek
    obtain rfl := Option.some.inj (Option.some.inj (hc.symm.trans hd))
    obtain ⟨r', hheads', hle, hsame⟩ := @hheads.cut _ _ _ _ _
      { alloc.list with iter := some alloc.regions.length } _ _ hc hn hlt rfl
    refine ⟨f, r', hheads', ?_⟩
    rcases Nat.lt_or_ge ext4NdirBlocks r.len with hlong | hshort
    · rw [hcut hlong] at hseek
      cases hseek
      exact (hsame rfl).le
    · exact hle.trans hshort

theorem FirstShort.moveOne (h : FirstShort alloc) {alloc1 : BlockAllocation} {fuel : Nat}
    (hm : doSplitAllocation alloc 1 = some (alloc1, m))
    (hmove : moveToOob fuel { alloc1 with list := { alloc1.list with partialIter := 0 } } m =
      some alloc') : FirstShort alloc' := by
  obtain ⟨f, r, hheads, hshort⟩ := h
  have hstays (g : Nat) (q : Region) (hq : q.len ≤ r.len)
      (hg : ∃ r', Heads alloc'.regions alloc'.list g r' ∧ r'.len ≤ q.len) : FirstShort alloc' := by
    obtain ⟨r', hheads', hle⟩ := hg
    exact ⟨g, r', hheads', (hle.trans hq).trans hshort⟩
  obtain ⟨rfl, n, hseek, hstop⟩ | ⟨i, n, c, hseek, hn, hc, rfl, rfl⟩ := doSplitAllocation_cases hm
  · have hne : m ≠ some f := by
      rintro rfl
      obtain rfl : n = 0 := hstop.resolve_left (by simp)
      obtain ⟨c, -, -, ⟨-, hzero⟩ | ⟨-, j, d, hd, hnext⟩⟩ := seek_found hseek
      · cases hzero
      · exact (hheads.entry j d hd).ne hnext
    obtain ⟨r', hheads', hsame⟩ := Heads.moveToOob (by exact hheads.anyList rfl) hne hmove
    exact hstays f r le_rfl ⟨r', hheads', hsame.le⟩
  · obtain ⟨d, hd, hlt, hfound⟩ := seek_found hseek
    obtain rfl := Option.some.inj (Option.some.inj (hc.symm.trans hd))
    by_cases hiter : alloc.list.iter = some f
    · -- the cursor's own region is cut, as the first one has at least one block
      obtain ⟨hi, rfl⟩ : alloc.list.iter = some i ∧ n = 1 := by
        obtain hhere | ⟨⟨j, e, hj, he, hle⟩, -⟩ := hfound
        · exact hhere
        · obtain rfl : f = j := Option.some.inj (hiter.symm.trans hj)
          obtain rfl := Option.some.inj (Option.some.inj (he.symm.trans hheads.cell))
          have := hheads.positive
          omega
      obtain rfl : f = i := Option.some.inj (hiter.symm.trans hi)
      obtain rfl := Option.some.inj (Option.some.inj (hc.symm.trans hheads.cell))
      rw [hiter] at hmove
      exact hstays _ c le_rfl (moveFront_heads (by exact hheads.anyList rfl) hlt (by rfl) hmove)
    · obtain ⟨r1, hheads1, hle, -⟩ := @hheads.cut _ _ _ _ _
        { alloc.list with iter := some alloc.regions.length, partialIter := 0 } _ _ hc hn hlt rfl
      obtain ⟨r', hheads', hsame⟩ := Heads.moveToOob hheads1 hiter hmove
      exact hstays f r1 hle ⟨r', hheads', hsame.le⟩

theorem BehindDirect.reserve (h : BehindDirect alloc)
    (hm : reserveOobBlocks alloc 1 = some (alloc', 0)) : FirstShort alloc' := by
  simp only [reserveOobBlocks, splitAllocation, Option.bind_eq_bind, Option.bind_eq_some_iff] at hm
  obtain ⟨⟨split, oob⟩, ⟨⟨a1, m1⟩, h1, ⟨a2, m2⟩, h2, h3⟩, hm⟩ := hm
  cases h3
  cases m2 with
  | none => cases hm
  | some s =>
    simp only [Option.bind_eq_some_iff] at hm
    obtain ⟨moved, hmove, hend⟩ := hm
    cases hend
    exact (h.split h1).moveOne h2 hmove

end Splitting

section Advancing

variable {alloc alloc' : BlockAllocation} {a : Arena Region} {list list' : RegionList} {f : Nat}
  {r : Region}

theorem advanceFrom_same {fuel : Nat} {p : Option Nat} {blocks res : Int}
    (h : advanceFrom a fuel list p blocks = some (list', res)) :
    ∃ k, list' = { list with partialIter := k } := by
  induction fuel generalizing p blocks list with
  | zero =>
    cases p with
    | none =>
      cases h
      exact ⟨_, rfl⟩
    | some i =>
      rw [advanceFrom] at h
      split at h <;> cases h
      exact ⟨_, rfl⟩
  | succ fuel ih =>
    cases p with
    | none =>
      cases h
      exact ⟨_, rfl⟩
    | some i =>
      rw [advanceFrom] at h
      split at h
      · simp only [Option.bind_eq_bind, Option.bind_eq_some_iff] at h
        obtain ⟨c, -, h⟩ := h
        split at h
        · cases h
          exact ⟨_, rfl⟩
        · obtain ⟨k, hk⟩ := ih h
          exact ⟨k, hk⟩
      · cases h
        exact ⟨_, rfl⟩

theorem advanceFrom_le {fuel n : Nat} {p : Option Nat} {res : Int} (hn : n < 2147483648)
    (hzero : list.partialIter = 0) (h : advanceFrom a fuel list p n = some (list', res)) :
    list'.partialIter ≤ n := by
  induction fuel generalizing p n list with
  | zero =>
    cases p with
    | none =>
      cases h
      omega
    | some i =>
      rw [advanceFrom] at h
      split at h <;> cases h
      omega
  | succ fuel ih =>
    cases p with
    | none =>
      cases h
      omega
    | some i =>
      rw [advanceFrom] at h
      split at h
      · simp only [Option.bind_eq_bind, Option.bind_eq_some_iff] at h
        obtain ⟨c, -, h⟩ := h
        rw [ofInt32_natCast, u32_of_lt (by omega : n < 4294967296), hzero, Nat.zero_add,
          u32_of_lt (by omega : n < 4294967296)] at h
        split at h
        · cases h
          exact le_rfl
        · have hleft : s32 (sub32 n (sub32 c.len 0)) = ((n - c.len : Nat) : Int) := by
            rw [sub32_of_le (by omega) (Nat.zero_le _), Nat.sub_zero,
              sub32_of_le (by omega) (by omega), s32_of_lt (by omega)]
          rw [hleft] at h
          exact (ih (by omega) rfl h).trans (Nat.sub_le _ _)
      · cases h
        omega

theorem advanceBlocks_same {n res : Int} (h : advanceBlocks alloc n = some (alloc', res)) :
    ∃ k, alloc' = { alloc with list := { alloc.list with partialIter := k } } := by
  simp only [advanceBlocks, Option.bind_eq_bind, Option.bind_eq_some_iff] at h
  obtain ⟨⟨list', r⟩, hfrom, hend⟩ := h
  obtain ⟨k, rfl⟩ := advanceFrom_same hfrom
  cases hend
  exact ⟨k, rfl⟩

theorem Heads.passDirect {res : Int} (h : Heads alloc.regions alloc.list f r)
    (hiter : alloc.list.iter = some f) (hzero : alloc.list.partialIter = 0)
    (hm : advanceBlocks alloc ext4NdirBlocks = some (alloc', res)) :
    ∃ k, alloc' = { alloc with list := { alloc.list with partialIter := k } } ∧
      (ext4NdirBlocks < r.len ∧ k = ext4NdirBlocks ∨
        r.len ≤ ext4NdirBlocks ∧ k < ext4NdirBlocks) := by
  obtain ⟨k, rfl⟩ := advanceBlocks_same hm
  refine ⟨k, rfl, ?_⟩
  simp only [advanceBlocks, advanceListPtr, Option.bind_eq_bind, Option.bind_eq_some_iff] at hm
  obtain ⟨⟨list', r'⟩, hfrom, hend⟩ := hm
  obtain rfl : list' = { alloc.list with partialIter := k } := by
    cases hend
    rfl
  obtain ⟨n, hn⟩ := Nat.exists_eq_succ_of_ne_zero (Nat.zero_lt_of_lt h.lt).ne'
  have hpositive := h.positive
  rw [hn, hiter, advanceFrom, if_pos (by decide), Arena.look_eq_some.mpr h.cell] at hfrom
  simp only [Option.bind_eq_bind, Option.bind_some] at hfrom
  have htwelve : u32 ext4NdirBlocks = ext4NdirBlocks := by decide
  rw [hzero, ofInt32_natCast, Nat.zero_add, htwelve, htwelve] at hfrom
  split at hfrom
  · rename_i hlong
    cases hfrom
    exact Or.inl ⟨hlong, rfl⟩
  · rename_i hshort
    have hleft : s32 (sub32 ext4NdirBlocks (sub32 r.len 0)) =
        ((ext4NdirBlocks - r.len : Nat) : Int) := by
      unfold ext4NdirBlocks at hshort ⊢
      rw [sub32_of_le (by omega) (Nat.zero_le _), Nat.sub_zero,
        sub32_of_le (by omega) (by omega), s32_of_lt (by omega)]
    rw [hleft] at hfrom
    have hle := advanceFrom_le (by unfold ext4NdirBlocks; omega) rfl hfrom
    dsimp only at hle
    unfold ext4NdirBlocks at hle hshort ⊢
    exact Or.inr ⟨by omega, by omega⟩

theorem heads_freshAlloc {p : Piece} (ps : List Piece) (hp : 0 < p.len) :
    ∃ r, Heads (freshAlloc (p :: ps)).regions (freshAlloc (p :: ps)).list 0 r := by
  refine ⟨_, ⟨rfl, rfl, rfl, hp, ?_⟩⟩
  intro i c hc k hk
  have hlink := getElem?_linkPieces 0 none (p :: ps) i
  obtain ⟨q, -, heq⟩ := Option.map_eq_some_iff.mp (hlink.symm.trans hc)
  obtain rfl := Option.some.inj heq
  simp only [linkedRegion, nextOf, Nat.zero_add] at hk
  split at hk
  · rename_i hlt
    cases hk
    exact ⟨by rw [freshAlloc, length_linkPieces]; exact hlt, Nat.succ_ne_zero i⟩
  · cases hk

theorem FirstShort.performs {reqs : List Request} (h : FirstShort alloc)
    (hm : Performs reqs alloc alloc') : FirstShort alloc' := by
  induction reqs generalizing alloc with
  | nil =>
    cases hm
    exact h
  | cons q rest ih =>
    obtain ⟨next, hq, hrest⟩ := hm
    refine ih ?_ hrest
    cases q with
    | reserve => exact h.behindDirect.reserve hq
    | advance n =>
      obtain ⟨f, r, hheads, hshort⟩ := h
      obtain ⟨k, rfl⟩ := advanceBlocks_same hq
      exact ⟨f, r, hheads.anyList rfl, hshort⟩

theorem allRequests_reserve {aux : FsAuxInfo} {len : Nat} (hlen : ext4NdirBlocks < len) :
    ∃ rest, allRequests aux len = .reserve :: rest := by
  rw [allRequests, if_neg (not_le.mpr hlen), levelRequests, indirectRequests]
  exact ⟨_, rfl⟩

theorem firstShort_of_reserved {aux : FsAuxInfo} {p : Piece} {ps : List Piece} {len : Nat}
    {next : BlockAllocation} (hp : 0 < p.len) (hlen : ext4NdirBlocks < len)
    (hpass : passDirect (freshAlloc (p :: ps)) len = some next)
    (hm : Performs (allRequests aux len) next alloc') : FirstShort alloc' := by
  obtain ⟨r, hheads⟩ := heads_freshAlloc ps hp
  rw [passDirect, if_neg (not_le.mpr hlen)] at hpass
  obtain ⟨⟨next', res⟩, hadvance, rfl⟩ := Option.map_eq_some_iff.mp hpass
  obtain ⟨k, rfl, hcase⟩ := hheads.passDirect rfl rfl hadvance
  obtain ⟨rest, hrequests⟩ := @allRequests_reserve aux _ hlen
  rw [hrequests] at hm
  obtain ⟨reserved, hreserve, hrest⟩ := hm
  have hbehind : BehindDirect { freshAlloc (p :: ps) with
      list := { (freshAlloc (p :: ps)).list with partialIter := k } } := by
    refine ⟨0, r, hheads.anyList rfl, ?_⟩
    obtain ⟨-, rfl⟩ | ⟨hshort, -⟩ := hcase
    · exact Or.inr ⟨rfl, rfl⟩
    · exact Or.inl hshort
  exact (hbehind.reserve hreserve).performs hrest

theorem FirstShort.falls_back {res : Int} (h : FirstShort alloc)
    (hm : advanceBlocks (rewindAlloc alloc) ext4NdirBlocks = some (alloc', res)) :
    ∃ k < ext4NdirBlocks, alloc'.regions = alloc.regions ∧ alloc'.oobList = alloc.oobList ∧
      alloc'.list.iter = (rewindAlloc alloc).list.iter ∧ alloc'.list.partialIter = k := by
  obtain ⟨f, r, hheads, hshort⟩ := h
  have hrewound : Heads (rewindAlloc alloc).regions (rewindAlloc alloc).list f r :=
    hheads.anyList rfl
  obtain ⟨k, rfl, ⟨hlong, -⟩ | ⟨-, hk⟩⟩ := hrewound.passDirect hheads.first rfl hm
  · exact absurd hshort (not_le.mpr hlong)
  · exact ⟨k, hk, rfl, rfl, rfl, rfl⟩

end Advancing

end MakeExt4fs

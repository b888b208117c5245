import MakeExt4fs.Allocate.Regions

namespace MakeExt4fs

open Words

def Chain (a : Arena Region) : Option Nat → List (Nat × Region) → Prop
  | p, [] => p = none
  | p, (i, r) :: rest => p = some i ∧ a[i]? = some (some r) ∧ Chain a r.next rest

def locate : List (Nat × Region) → Nat → Option Nat × Nat
  | [], block => (none, block)
  | (i, r) :: rest, block => if block < r.len then (some i, block) else locate rest (block - r.len)

theorem chainLen_of_chain {a : Arena Region} (weight : Region → Nat) {xs : List (Nat × Region)}
    {p : Option Nat} {fuel : Nat} (h : Chain a p xs) (hfuel : xs.length ≤ fuel) :
    chainLen a weight fuel p = some ((xs.map fun x => weight x.2).sum) := by
  induction xs generalizing p fuel with
  | nil =>
    obtain rfl : p = none := h
    cases fuel <;> rfl
  | cons x rest ih =>
    obtain ⟨rfl, hx, hrest⟩ := h
    cases fuel with
    | zero => simp at hfuel
    | succ fuel =>
      simp only [chainLen, Arena.look_eq_some.mpr hx, Option.bind_eq_bind, Option.bind_some,
        ih hrest (by simpa using hfuel), List.map_cons, List.sum_cons]

theorem seek_of_chain {a : Arena Region} {xs : List (Nat × Region)} {p : Option Nat}
    {fuel block : Nat} (h : Chain a p xs) (hfuel : xs.length ≤ fuel) :
    seek a fuel p block = some (locate xs block) := by
  induction xs generalizing p fuel block with
  | nil =>
    obtain rfl : p = none := h
    cases fuel <;> rfl
  | cons x rest ih =>
    obtain ⟨rfl, hx, hrest⟩ := h
    cases fuel with
    | zero => simp at hfuel
    | succ fuel =>
      simp only [seek, Arena.look_eq_some.mpr hx, Option.bind_eq_bind, Option.bind_some, locate]
      split
      · rfl
      · exact ih hrest (by simpa using hfuel)

def nextOf (n k len : Nat) : Option Nat := if k + 1 < len then some (n + k + 1) else none

def prevOf (n k : Nat) (prev : Option Nat) : Option Nat :=
  if k = 0 then prev else some (n + k - 1)

def linkedRegion (n : Nat) (prev : Option Nat) (ps : List Piece) (k : Nat) (p : Piece) : Region :=
  ⟨p.block, p.len, p.bg, nextOf n k ps.length, prevOf n k prev⟩

@[simp] theorem length_linkPieces (n : Nat) (prev : Option Nat) (ps : List Piece) :
    (linkPieces n prev ps).length = ps.length := by
  induction ps generalizing n prev with
  | nil => rfl
  | cons p rest ih => simp [linkPieces, ih]

theorem getElem?_linkPieces (n : Nat) (prev : Option Nat) (ps : List Piece) (k : Nat) :
    (linkPieces n prev ps)[k]? = ps[k]?.map fun p => some (linkedRegion n prev ps k p) := by
  induction ps generalizing n prev k with
  | nil => rfl
  | cons p rest ih =>
    cases k with
    | zero =>
      cases rest with
      | nil => rfl
      | cons q rest => simp [linkPieces, linkedRegion, nextOf, prevOf]
    | succ k =>
      simp only [linkPieces, List.getElem?_cons_succ, ih]
      congr 1
      funext q
      have hnext : nextOf (n + 1) k rest.length = nextOf n (k + 1) (p :: rest).length := by
        simp only [nextOf, List.length_cons, Nat.add_lt_add_iff_right]
        rw [show n + 1 + k = n + (k + 1) by omega]
      have hprev : prevOf (n + 1) k (some n) = prevOf n (k + 1) prev := by
        simp only [prevOf]
        split
        · subst_vars
          rfl
        · congr 1
          omega
      simp only [linkedRegion, hnext, hprev]

theorem live_linkPieces (n : Nat) (prev : Option Nat) (ps : List Piece) :
    (linkPieces n prev ps).live.map Region.piece = ps := by
  induction ps generalizing n prev with
  | nil => rfl
  | cons p rest ih =>
    rw [linkPieces, Arena.live_cons_some, List.map_cons, ih]
    rfl

def linkedCells (n : Nat) : Option Nat → List Piece → List (Nat × Region)
  | _, [] => []
  | prev, p :: rest =>
    (n, ⟨p.block, p.len, p.bg, if rest.isEmpty then none else some (n + 1), prev⟩) ::
      linkedCells (n + 1) (some n) rest

def headOf (n : Nat) (ps : List Piece) : Option Nat := if ps.isEmpty then none else some n

theorem linkedCells_map {β : Type} (f : Region → β) (g : Piece → β)
    (hfg : ∀ p next prev, f ⟨p.block, p.len, p.bg, next, prev⟩ = g p) (n : Nat)
    (prev : Option Nat) (ps : List Piece) :
    (linkedCells n prev ps).map (fun x => f x.2) = ps.map g := by
  induction ps generalizing n prev with
  | nil => rfl
  | cons p rest ih => simp [linkedCells, hfg, ih]

@[simp] theorem length_linkedCells (n : Nat) (prev : Option Nat) (ps : List Piece) :
    (linkedCells n prev ps).length = ps.length := by
  induction ps generalizing n prev with
  | nil => rfl
  | cons p rest ih => simp [linkedCells, ih]

theorem chain_linkPieces (a : Arena Region) (prev : Option Nat) (ps : List Piece)
    (b : Arena Region) :
    Chain (a ++ linkPieces a.length prev ps ++ b) (headOf a.length ps)
      (linkedCells a.length prev ps) := by
  induction ps generalizing a prev with
  | nil => rfl
  | cons p rest ih =>
    refine ⟨rfl, ?_, ?_⟩
    · simp [linkPieces]
    · have hrest := ih (a ++ [some ⟨p.block, p.len, p.bg,
        if rest.isEmpty then none else some (a.length + 1), prev⟩]) (some a.length)
      simpa [linkPieces, headOf] using hrest

def pieceBlock : List Piece → Nat → Option Nat
  | [], _ => none
  | p :: rest, block => if block < p.len then some (p.block + block) else pieceBlock rest (block - p.len)

def linkedAlloc (ps : List Piece) : BlockAllocation :=
  ⟨linkPieces 0 none ps, ⟨headOf 0 ps, if ps.isEmpty then none else some (ps.length - 1),
    headOf 0 ps, 0⟩, .empty⟩

theorem linkPieces_snoc (ps : List Piece) (p : Piece) (hps : 0 < ps.length) {r : Region}
    (hr : (linkPieces 0 none ps)[ps.length - 1]? = some (some r)) :
    linkPieces 0 none (ps ++ [p]) =
      (linkPieces 0 none ps).set (ps.length - 1) (some { r with next := some ps.length }) ++
        [some ⟨p.block, p.len, p.bg, none, some (ps.length - 1)⟩] := by
  apply List.ext_getElem?
  intro k
  rw [getElem?_linkPieces]
  rw [getElem?_linkPieces, Option.map_eq_some_iff] at hr
  obtain ⟨q, hq, hr⟩ := hr
  simp only [Option.some.injEq] at hr
  rcases Nat.lt_trichotomy k (ps.length - 1) with hk | hk | hk
  · rw [List.getElem?_append_left (by omega), List.getElem?_append_left (by simp; omega),
      List.getElem?_set_ne (by omega), getElem?_linkPieces]
    congr 1
    funext q'
    simp only [linkedRegion, nextOf, List.length_append, List.length_singleton,
      if_pos (show k + 1 < ps.length + 1 by omega), if_pos (show k + 1 < ps.length by omega)]
  · subst hk
    rw [List.getElem?_append_left (by omega), List.getElem?_append_left (by simp; omega),
      List.getElem?_set_self (by simp; omega), hq, ← hr]
    simp only [Option.map_some, linkedRegion, nextOf, List.length_append, List.length_singleton,
      if_pos (show ps.length - 1 + 1 < ps.length + 1 by omega)]
    congr 4
    omega
  · by_cases hlast : k = ps.length
    · subst hlast
      rw [List.getElem?_append_right le_rfl, List.getElem?_append_right (by simp)]
      simp only [List.length_set, length_linkPieces, Nat.sub_self, List.getElem?_cons_zero,
        Option.map_some, linkedRegion, nextOf, prevOf, List.length_append, List.length_singleton,
        if_neg (show ¬ ps.length + 1 < ps.length + 1 by omega),
        if_neg (show ¬ ps.length = 0 by omega)]
      congr 4
      omega
    · rw [List.getElem?_eq_none (by simp; omega), List.getElem?_eq_none (by simp; omega)]
      rfl

theorem appendRegion_linkedAlloc (ps : List Piece) (p : Piece) :
    appendRegion (linkedAlloc ps) p.block p.len p.bg = some (linkedAlloc (ps ++ [p])) := by
  rcases Nat.eq_zero_or_pos ps.length with hzero | hpos
  · obtain rfl := List.eq_nil_of_length_eq_zero hzero
    rfl
  · have hne : ps.isEmpty = false := by
      cases ps with
      | nil => simp at hpos
      | cons q rest => rfl
    obtain ⟨r, hr⟩ : ∃ r, (linkPieces 0 none ps)[ps.length - 1]? = some (some r) := by
      rw [getElem?_linkPieces, List.getElem?_eq_getElem (by omega)]
      exact ⟨_, rfl⟩
    have hlast := Arena.modify_of_look (fun r => { r with next := some ps.length })
      (show (linkPieces 0 none ps ++ [some ⟨p.block, p.len, p.bg, none, none⟩])[ps.length - 1]? =
        some (some r) by rw [List.getElem?_append_left (by simp; omega), hr])
    have hnew := Arena.modify_of_look
      (fun r : Region => { r with next := none, prev := some (ps.length - 1) })
      (show ((linkPieces 0 none ps ++
        [some (⟨p.block, p.len, p.bg, none, none⟩ : Region)]).set (ps.length - 1)
        (some { r with next := some ps.length }))[ps.length]? =
        some (some (⟨p.block, p.len, p.bg, none, none⟩ : Region)) by
          rw [List.getElem?_set_ne (by omega), List.getElem?_append_right (by simp)]
          simp)
    simp only [appendRegion, linkedAlloc, regionListAppend, headOf, hne, length_linkPieces,
      Bool.false_eq_true, if_false, hlast, Option.bind_eq_bind, Option.bind_some]
    rw [hnew, Option.bind_some, Option.bind_some, linkPieces_snoc ps p hpos hr,
      List.set_append_left _ _ (by simp; omega), List.set_append_right _ _ (by simp)]
    simp

end MakeExt4fs

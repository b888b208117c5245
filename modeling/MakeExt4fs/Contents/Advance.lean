import MakeExt4fs.Contents.Indirect
import MakeExt4fs.Contents.Mapping

namespace MakeExt4fs

open Words

def blockAt (ps : List Piece) (x : Nat) : Nat := ((pieceBlock ps x).map u32).getD ext4AllocateFailed

structure AtCursor (a : Arena Region) (list : RegionList) (cells : List (Nat × Region)) : Prop where
  chain : Chain a list.iter cells
  inside : list.partialIter ≤ (cells.map fun c => c.2.len).headD 0
  positive : ∀ c ∈ cells, 0 < c.2.len
  word : ((piecesOf cells).map Piece.len).sum < 4294967296
  named : ∀ c ∈ cells, c.2.block + c.2.len ≤ ext4AllocateFailed

section Reading

variable {a : Arena Region} {list : RegionList} {cells : List (Nat × Region)}

theorem locate_cases (cells : List (Nat × Region)) (x : Nat) :
    (∃ k, locate cells x = (none, k)) ∧ pieceBlock (piecesOf cells) x = none ∨
      ∃ i r place, (i, r) ∈ cells ∧ locate cells x = (some i, place) ∧
        pieceBlock (piecesOf cells) x = some (r.block + place) := by
  induction cells generalizing x with
  | nil => exact Or.inl ⟨⟨x, rfl⟩, rfl⟩
  | cons c rest ih =>
    have hpieces : pieceBlock (piecesOf (c :: rest)) x =
        if x < c.2.len then some (c.2.block + x) else pieceBlock (piecesOf rest) (x - c.2.len) := rfl
    rw [locate, hpieces]
    split
    · exact Or.inr ⟨c.1, c.2, x, List.mem_cons_self, rfl, rfl⟩
    · obtain h | ⟨i, r, place, hmem, h⟩ := ih (x - c.2.len)
      · exact Or.inl h
      · exact Or.inr ⟨i, r, place, List.mem_cons_of_mem c hmem, h⟩

theorem chain_cell {p : Option Nat} (h : Chain a p cells) {i : Nat} {r : Region}
    (hmem : (i, r) ∈ cells) : a[i]? = some (some r) := by
  induction cells generalizing p with
  | nil => cases hmem
  | cons c rest ih =>
    obtain ⟨-, hcell, hrest⟩ := h
    rcases List.mem_cons.mp hmem with rfl | hmem
    · exact hcell
    · exact ih hrest hmem

theorem getBlockFrom_of_chain (h : Chain a list.iter cells) (i : Nat) :
    getBlockFrom a list i = some (blockAt (piecesOf cells) (u32 (i + list.partialIter))) := by
  have hseek : seek a a.length list.iter (u32 (i + list.partialIter)) =
      some (locate cells (u32 (i + list.partialIter))) := seek_of_chain h h.length_le
  rw [getBlockFrom, hseek, blockAt]
  obtain ⟨⟨k, hnone⟩, hblock⟩ | ⟨j, r, place, hmem, hsome, hblock⟩ :=
    locate_cases cells (u32 (i + list.partialIter))
  · rw [hnone, hblock]
    rfl
  · rw [hsome, hblock]
    simp only [Option.bind_eq_bind, Option.bind_some, Arena.look_eq_some.mpr (chain_cell h hmem),
      Option.map_some, Option.getD_some]

theorem pieceBlock_none {ps : List Piece} {x : Nat} (h : (ps.map Piece.len).sum ≤ x) :
    pieceBlock ps x = none := by
  induction ps generalizing x with
  | nil => rfl
  | cons p rest ih =>
    rw [List.map_cons, List.sum_cons] at h
    rw [pieceBlock, if_neg (by omega), ih (by omega)]

theorem AtCursor.blockAt_lt (h : AtCursor a list cells) {x : Nat}
    (hx : x < ((piecesOf cells).map Piece.len).sum) :
    blockAt (piecesOf cells) x < ext4AllocateFailed := by
  have hnamed := h.named
  clear h
  induction cells generalizing x with
  | nil => cases hx
  | cons c rest ih =>
    have hpieces : blockAt (piecesOf (c :: rest)) x = if x < c.2.len then u32 (c.2.block + x)
        else blockAt (piecesOf rest) (x - c.2.len) := by
      simp only [blockAt, piecesOf, List.map_cons, pieceBlock, Region.piece]
      split <;> rfl
    rw [hpieces]
    split
    · have := hnamed c List.mem_cons_self
      have := u32_le (c.2.block + x)
      omega
    · have hsum : ((piecesOf (c :: rest)).map Piece.len).sum =
          c.2.len + ((piecesOf rest).map Piece.len).sum := rfl
      exact ih (by omega) fun d hd => hnamed d (List.mem_cons_of_mem c hd)

theorem blockAt_past {ps : List Piece} {x : Nat} (h : (ps.map Piece.len).sum ≤ x) :
    blockAt ps x = ext4AllocateFailed := by
  rw [blockAt, pieceBlock_none h]
  rfl

end Reading

section Walking

variable {a : Arena Region} {list : RegionList} {cells : List (Nat × Region)}

def walkRest : List Nat → Nat → Nat × Int
  | [], n => (0, if 0 < n then -1 else 0)
  | len :: rest, n => if n = 0 then (0, 0) else if n < len then (n, 0) else walkRest rest (n - len)

theorem walkRest_result (lens : List Nat) (n : Nat) : (walkRest lens n).2 = 0 ↔ n ≤ lens.sum := by
  induction lens generalizing n with
  | nil =>
    rw [walkRest, List.sum_nil]
    split <;> simp <;> omega
  | cons len rest ih =>
    rw [walkRest, List.sum_cons]
    split
    · simp
      omega
    · split
      · simp
        omega
      · rw [ih]
        omega

theorem walkRest_le (lens : List Nat) (n : Nat) : (walkRest lens n).1 ≤ n := by
  induction lens generalizing n with
  | nil => exact Nat.zero_le n
  | cons len rest ih =>
    rw [walkRest]
    split
    · exact Nat.zero_le n
    · split
      · exact le_rfl
      · exact (ih _).trans (Nat.sub_le _ _)

theorem walkRest_failed {lens : List Nat} {n : Nat} (h : lens.sum < n) :
    walkRest lens n = (0, -1) := by
  induction lens generalizing n with
  | nil =>
    rw [List.sum_nil] at h
    rw [walkRest, if_pos h]
  | cons len rest ih =>
    rw [List.sum_cons] at h
    rw [walkRest, if_neg (by omega), if_neg (by omega), ih (by omega)]

theorem advanceFrom_rest {p : Option Nat} {fuel n : Nat} (h : Chain a p cells)
    (hfuel : cells.length ≤ fuel) (hzero : list.partialIter = 0) (hn : n < 2147483648) :
    advanceFrom a fuel list p n =
      some ({ list with partialIter := (walkRest (cells.map fun c => c.2.len) n).1 },
        (walkRest (cells.map fun c => c.2.len) n).2) := by
  have hlist : ({ list with partialIter := 0 } : RegionList) = list := by rw [← hzero]
  induction cells generalizing p fuel n with
  | nil =>
    obtain rfl : p = none := h
    rw [advanceFrom, List.map_nil, walkRest]
    simp only [hlist, gt_iff_lt, Int.natCast_pos]
  | cons c rest ih =>
    obtain ⟨rfl, hcell, hrest⟩ := h
    obtain ⟨fuel, rfl⟩ : ∃ m, fuel = m + 1 := Nat.exists_eq_add_of_le' (by simp at hfuel; omega)
    rw [List.map_cons, walkRest, advanceFrom]
    rcases Nat.eq_zero_or_pos n with rfl | hpos
    · rw [if_neg (by simp), if_pos rfl, hlist]
    · rw [if_pos (by omega), if_neg (by omega)]
      simp only [Arena.look_eq_some.mpr hcell, Option.bind_eq_bind, Option.bind_some, hzero,
        ofInt32_natCast, Nat.zero_add]
      rw [u32_of_lt (show n < 4294967296 by omega), u32_of_lt (show n < 4294967296 by omega)]
      by_cases hlong : n < c.2.len
      · rw [if_pos hlong, if_pos hlong]
      · rw [if_neg hlong, if_neg hlong, hlist]
        have hleft : s32 (sub32 n (sub32 c.2.len 0)) = ((n - c.2.len : Nat) : Int) := by
          rw [sub32_of_le (by omega) (Nat.zero_le _), Nat.sub_zero, sub32_of_le (by omega) (by omega),
            s32, u32_of_lt (by omega), if_pos (by omega)]
        rw [hleft]
        exact ih hrest (by simpa using hfuel) (by omega)

def Stays (list : RegionList) (cells : List (Nat × Region)) (n : Nat) : Prop :=
  n = 0 ∨ cells = [] ∨ list.partialIter + n < (cells.map fun c => c.2.len).headD 0 ∨
    ((piecesOf cells).map Piece.len).sum < list.partialIter + n ∧
      list.partialIter + n < 4294967296

def blocksLeft (list : RegionList) (cells : List (Nat × Region)) : Nat :=
  ((piecesOf cells).map Piece.len).sum - list.partialIter

-- Where the loop leaves partial_iter and its result, from anywhere in the first region. A sum that
-- does not fit in a word ends it at once.
def walk (entry n : Nat) : List Nat → Nat × Int
  | [] => (entry, if 0 < n then -1 else 0)
  | len :: rest =>
    if n = 0 then (entry, 0)
    else if entry + n < len then (entry + n, 0)
    else if 4294967296 ≤ entry + n then (u32 (entry + n), 0)
    else walkRest rest (n - (len - entry))

theorem AtCursor.lens (h : AtCursor a list cells) :
    (cells.map fun c => c.2.len).sum < 4294967296 ∧
      ((piecesOf cells).map Piece.len).sum = (cells.map fun c => c.2.len).sum := by
  have hsum : ((piecesOf cells).map Piece.len).sum = (cells.map fun c => c.2.len).sum := by
    rw [piecesOf, List.map_map]
    rfl
  exact ⟨hsum ▸ h.word, hsum⟩

theorem advanceFrom_walk {p : Option Nat} {n : Nat} (h : Chain a p cells)
    (hinside : list.partialIter ≤ (cells.map fun c => c.2.len).headD 0)
    (hlens : (cells.map fun c => c.2.len).sum < 4294967296) (hn : n < 2147483648) :
    advanceFrom a a.length list p n =
      some ({ list with partialIter := (walk list.partialIter n (cells.map fun c => c.2.len)).1 },
        (walk list.partialIter n (cells.map fun c => c.2.len)).2) := by
  have hfuel := h.length_le
  cases cells with
  | nil =>
    obtain rfl : p = none := h
    rw [advanceFrom, List.map_nil, walk]
    simp only [gt_iff_lt, Int.natCast_pos]
  | cons c rest =>
    obtain ⟨rfl, hcell, hrest⟩ := h
    rw [List.map_cons, List.headD_cons] at hinside
    rw [List.map_cons, List.sum_cons] at hlens
    obtain ⟨fuel, hlength⟩ : ∃ m, a.length = m + 1 :=
      Nat.exists_eq_add_of_le' (by simp at hfuel; omega)
    rw [hlength, List.length_cons] at hfuel
    rw [hlength, advanceFrom, List.map_cons, walk]
    rcases Nat.eq_zero_or_pos n with rfl | hpos
    · rw [if_neg (by simp), if_pos rfl]
    · rw [if_pos (by omega), if_neg (by omega)]
      simp only [Arena.look_eq_some.mpr hcell, Option.bind_eq_bind, Option.bind_some,
        ofInt32_natCast]
      rw [u32_of_lt (show n < 4294967296 by omega)]
      by_cases hlong : list.partialIter + n < c.2.len
      · rw [if_pos hlong, u32_of_lt (by omega), if_pos hlong]
      · rw [if_neg hlong]
        by_cases hwrap : 4294967296 ≤ list.partialIter + n
        · have hback : u32 (list.partialIter + n) < c.2.len := by
            rw [u32]
            omega
          rw [if_pos hback, if_pos hwrap]
        · have hleft : s32 (sub32 n (sub32 c.2.len list.partialIter)) =
              ((n - (c.2.len - list.partialIter) : Nat) : Int) := by
            rw [sub32_of_le (by omega) hinside, sub32_of_le (by omega) (by omega), s32,
              u32_of_lt (by omega), if_pos (by omega)]
          rw [u32_of_lt (show list.partialIter + n < 4294967296 by omega), if_neg hlong,
            if_neg hwrap, hleft]
          exact advanceFrom_rest hrest (by omega) rfl (by omega)

theorem walk_past {entry n len : Nat} {rest : List Nat} (hentry : entry ≤ len)
    (hpast : (len :: rest).sum < entry + n) (hword : entry + n < 4294967296) :
    walk entry n (len :: rest) = (0, -1) := by
  rw [List.sum_cons] at hpast
  rw [walk, if_neg (by omega), if_neg (by omega), if_neg (by omega), walkRest_failed (by omega)]

theorem walk_across {entry n len : Nat} {rest : List Nat} (hentry : entry ≤ len) (hpos : n ≠ 0)
    (hlong : len ≤ entry + n) (hle : entry + n ≤ (len :: rest).sum)
    (hword : entry + n < 4294967296) :
    ∃ k ≤ entry + n - len, walk entry n (len :: rest) = (k, 0) := by
  rw [List.sum_cons] at hle
  have hzero : (walkRest rest (n - (len - entry))).2 = 0 :=
    (walkRest_result _ _).mpr (by omega)
  have hbound := walkRest_le rest (n - (len - entry))
  have hwalk : walk entry n (len :: rest) = walkRest rest (n - (len - entry)) := by
    rw [walk, if_neg hpos, if_neg (by omega), if_neg (by omega)]
  exact ⟨(walkRest rest (n - (len - entry))).1, by omega, by rw [hwalk, ← hzero]⟩

theorem walk_add {entry m n len : Nat} {rest : List Nat} (h : entry + m < len) :
    walk (entry + m) n (len :: rest) = walk entry (m + n) (len :: rest) := by
  rw [walk, walk, ← Nat.add_assoc]
  rcases Nat.eq_zero_or_pos n with rfl | hn
  · rw [if_pos rfl, Nat.add_zero, Nat.add_zero, if_pos h]
    split
    · obtain rfl : m = 0 := by assumption
      rfl
    · rfl
  · have hleft : m + n - (len - entry) = n - (len - (entry + m)) := by omega
    rw [if_neg (show n ≠ 0 by omega), if_neg (show m + n ≠ 0 by omega), hleft]

end Walking

def Advances {State : Type} (adv : State → Int → Option (State × Int))
    (get : State → Nat → Option Nat) (left : Nat) (s : State) (n : Nat) : Prop :=
  ∃ s' r, adv s n = some (s', r) ∧ (r = 0 ↔ n ≤ left) ∧
    (r = 0 → ∀ i < 4294967296, get s' i = get s (u32 (i + n)))

def advanceTwice {State : Type} (adv : State → Int → Option (State × Int)) (s : State)
    (m n : Nat) : Option (State × Int) := do
  let (s, r) ← adv s m
  if r ≠ 0 then some (s, r) else adv s n

def AdvanceLaw {State : Type} (adv : State → Int → Option (State × Int))
    (get : State → Nat → Option Nat) (left : Nat) (s : State) (m n : Nat) : Prop :=
  Advances adv get left s m ∧ Advances adv get left s (m + n) ∧
    advanceTwice adv s m n = adv s ((m + n : Nat) : Int)

structure OneList {State : Type} (a : Arena Region)
    (adv : State → Int → Option (State × Int)) (get : State → Nat → Option Nat)
    (put : RegionList → State) : Prop where
  adv : ∀ l n, adv (put l) n = (advanceListPtr a l n).map fun x => (put x.1, x.2)
  get : ∀ l i, get (put l) i = getBlockFrom a l i

section Laws

variable {a : Arena Region} {list : RegionList} {cells : List (Nat × Region)} {State : Type}
variable {adv : State → Int → Option (State × Int)} {get : State → Nat → Option Nat}
variable {put : RegionList → State}

theorem AtCursor.adv_eq (h : AtCursor a list cells) (hlist : OneList a adv get put) {n : Nat}
    (hn : n < 2147483648) :
    adv (put list) n = some
      (put { list with partialIter := (walk list.partialIter n (cells.map fun c => c.2.len)).1 },
        (walk list.partialIter n (cells.map fun c => c.2.len)).2) := by
  rw [hlist.adv, advanceListPtr, advanceFrom_walk h.chain h.inside h.lens.1 hn]
  rfl

theorem AtCursor.get_eq (h : AtCursor a list cells) (hlist : OneList a adv get put)
    (entry i : Nat) :
    get (put { list with partialIter := entry }) i =
      some (blockAt (piecesOf cells) (u32 (i + entry))) := by
  rw [hlist.get]
  exact @getBlockFrom_of_chain _ { list with partialIter := entry } _ h.chain i

theorem AtCursor.inside_sum (h : AtCursor a list cells) :
    list.partialIter ≤ ((piecesOf cells).map Piece.len).sum := by
  have hinside := h.inside
  rw [h.lens.2]
  cases cells with
  | nil => exact hinside
  | cons c rest =>
    rw [List.map_cons, List.headD_cons] at hinside
    rw [List.map_cons, List.sum_cons]
    omega

theorem AtCursor.advances_iff (h : AtCursor a list cells) (hlist : OneList a adv get put) {n : Nat}
    (hn : n < 2147483648) {w : Nat × Int}
    (hw : walk list.partialIter n (cells.map fun c => c.2.len) = w) :
    Advances adv get (blocksLeft list cells) (put list) n ↔
      (w.2 = 0 ↔ list.partialIter + n ≤ ((piecesOf cells).map Piece.len).sum) ∧
      (w.2 = 0 → ∀ i < 4294967296, blockAt (piecesOf cells) (u32 (i + w.1)) =
        blockAt (piecesOf cells) (u32 (i + (list.partialIter + n)))) := by
  have hinside := h.inside_sum
  have hleft : n ≤ blocksLeft list cells ↔
      list.partialIter + n ≤ ((piecesOf cells).map Piece.len).sum := by
    rw [blocksLeft]
    omega
  have hplace (i : Nat) :
      u32 (u32 (i + n) + list.partialIter) = u32 (i + (list.partialIter + n)) := by
    simp only [u32]
    omega
  have hbefore (i : Nat) : get (put list) (u32 (i + n)) =
      some (blockAt (piecesOf cells) (u32 (i + (list.partialIter + n)))) := by
    rw [← hplace i]
    exact h.get_eq hlist list.partialIter (u32 (i + n))
  have hrun := h.adv_eq hlist hn
  rw [hw] at hrun
  constructor
  · rintro ⟨s', r, hadv, hzero, hget⟩
    rw [hrun, Option.some.injEq, Prod.mk.injEq] at hadv
    obtain ⟨rfl, rfl⟩ := hadv
    refine ⟨hzero.trans hleft, fun hr i hi => ?_⟩
    have hi := hget hr i hi
    rwa [h.get_eq hlist, hbefore, Option.some.injEq] at hi
  · rintro ⟨hzero, hget⟩
    refine ⟨_, _, hrun, hzero.trans hleft.symm, fun hr i hi => ?_⟩
    rw [h.get_eq hlist, hbefore, hget hr i hi]

theorem AtCursor.advances (h : AtCursor a list cells) (hlist : OneList a adv get put) {n : Nat}
    (hn : n < 2147483648) (hstays : Stays list cells n) :
    Advances adv get (blocksLeft list cells) (put list) n := by
  have hlens := h.lens.2
  have hinside := h.inside
  have hsum := h.inside_sum
  rcases Nat.eq_zero_or_pos n with rfl | hpos
  · have hw : walk list.partialIter 0 (cells.map fun c => c.2.len) = (list.partialIter, 0) := by
      cases cells <;> rfl
    exact (h.advances_iff hlist hn hw).mpr ⟨by simpa using hsum, fun _ _ _ => rfl⟩
  · cases cells with
    | nil =>
      have hw : walk list.partialIter n [] = (list.partialIter, -1) := by rw [walk, if_pos hpos]
      refine (h.advances_iff hlist hn hw).mpr ⟨⟨fun h => by simp at h, fun hle => ?_⟩,
        fun h => by simp at h⟩
      have : ((piecesOf []).map Piece.len).sum = 0 := rfl
      omega
    | cons c rest =>
      rw [List.map_cons, List.headD_cons] at hinside
      rw [List.map_cons, List.sum_cons] at hlens
      rcases hstays with rfl | hnil | hshort | ⟨hpast, hword⟩
      · omega
      · cases hnil
      · rw [List.map_cons, List.headD_cons] at hshort
        have hw : walk list.partialIter n ((c :: rest).map fun c => c.2.len) =
            (list.partialIter + n, 0) := by
          rw [List.map_cons, walk, if_neg (by omega), if_pos hshort]
        exact (h.advances_iff hlist hn hw).mpr ⟨iff_of_true rfl (by omega), fun _ _ _ => rfl⟩
      · have hw : walk list.partialIter n ((c :: rest).map fun c => c.2.len) = (0, -1) :=
          walk_past hinside (by rw [List.sum_cons, ← hlens]; exact hpast) hword
        exact (h.advances_iff hlist hn hw).mpr
          ⟨⟨fun h => by simp at h, fun hle => by omega⟩, fun h => by simp at h⟩

theorem AtCursor.stays (h : AtCursor a list cells) (hlist : OneList a adv get put) {n : Nat}
    (hn : n < 2147483648) (hadv : Advances adv get (blocksLeft list cells) (put list) n) :
    Stays list cells n := by
  by_contra hstays
  simp only [Stays, not_or, not_and, not_lt] at hstays
  obtain ⟨hpos, hsome, hlong, hlast⟩ := hstays
  have hlens := h.lens.2
  have hword := h.word
  have hinside := h.inside
  cases cells with
  | nil => exact hsome rfl
  | cons c rest =>
    rw [List.map_cons, List.headD_cons] at hinside hlong
    rw [List.map_cons, List.sum_cons] at hlens
    by_cases hwrap : 4294967296 ≤ list.partialIter + n
    · -- the sum has come round: the result is zero, with too few blocks
      have hw : walk list.partialIter n ((c :: rest).map fun c => c.2.len) =
          (u32 (list.partialIter + n), 0) := by
        rw [List.map_cons, walk, if_neg hpos, if_neg (by omega), if_pos hwrap]
      have hle := ((h.advances_iff hlist hn hw).mp hadv).1.mp rfl
      omega
    · -- the step ends behind this region, and the cursor falls back into it
      have hle : list.partialIter + n ≤ ((piecesOf (c :: rest)).map Piece.len).sum := by
        by_contra hgt
        have := hlast (by omega)
        omega
      obtain ⟨k, hk, hw⟩ := @walk_across _ _ _ (rest.map fun c => c.2.len) hinside hpos hlong
        (by rw [List.sum_cons]; omega) (by omega)
      have hcell := h.positive c List.mem_cons_self
      have hget := ((h.advances_iff hlist hn hw).mp hadv).2 rfl
        (((piecesOf (c :: rest)).map Piece.len).sum - (list.partialIter + n)) (by omega)
      rw [u32_of_lt (by omega), u32_of_lt (by omega)] at hget
      have hreal := h.blockAt_lt (x := ((piecesOf (c :: rest)).map Piece.len).sum -
        (list.partialIter + n) + k) (by omega)
      rw [hget, blockAt_past (by omega)] at hreal
      exact lt_irrefl _ hreal

theorem AtCursor.twice (h : AtCursor a list cells) (hlist : OneList a adv get put) {m n : Nat}
    (hmn : m + n < 2147483648) (hm : Stays list cells m) (hsum : Stays list cells (m + n)) :
    advanceTwice adv (put list) m n = adv (put list) ((m + n : Nat) : Int) := by
  have hinside := h.inside
  have hlens := h.lens.2
  have hfirst := h.adv_eq hlist (show m < 2147483648 by omega)
  have hboth := h.adv_eq hlist hmn
  rcases Nat.eq_zero_or_pos m with rfl | hpos
  · have hw : walk list.partialIter 0 (cells.map fun c => c.2.len) = (list.partialIter, 0) := by
      cases cells <;> rfl
    rw [hw] at hfirst
    rw [advanceTwice, hfirst, Nat.zero_add]
    rfl
  · cases cells with
    | nil =>
      rw [List.map_nil, walk, if_pos hpos] at hfirst
      rw [List.map_nil, walk, if_pos (show 0 < m + n by omega)] at hboth
      rw [advanceTwice, hfirst, hboth]
      rfl
    | cons c rest =>
      rw [List.map_cons, List.headD_cons] at hinside
      rw [List.map_cons, List.sum_cons] at hlens
      rw [List.map_cons] at hfirst hboth
      rcases hm with rfl | hnil | hshort | ⟨hpast, hword⟩
      · omega
      · cases hnil
      · rw [List.map_cons, List.headD_cons] at hshort
        have hw : walk list.partialIter m (c.2.len :: rest.map fun c => c.2.len) =
            (list.partialIter + m, 0) := by
          rw [walk, if_neg (by omega), if_pos hshort]
        have hnext : AtCursor a { list with partialIter := list.partialIter + m } (c :: rest) :=
          { h with inside := hshort.le }
        have hsecond := hnext.adv_eq hlist (show n < 2147483648 by omega)
        rw [List.map_cons, walk_add hshort] at hsecond
        rw [hw] at hfirst
        rw [advanceTwice, hfirst, hboth]
        exact hsecond
      · have hend : walk list.partialIter (m + n) (c.2.len :: rest.map fun c => c.2.len) =
            (0, -1) := by
          rcases hsum with hzero | hnil | hshort | ⟨hpast', hword'⟩
          · omega
          · cases hnil
          · rw [List.map_cons, List.headD_cons] at hshort
            omega
          · exact walk_past hinside (by rw [List.sum_cons]; omega) (by omega)
        rw [walk_past hinside (by rw [List.sum_cons]; omega) hword] at hfirst
        rw [hend] at hboth
        rw [advanceTwice, hfirst, hboth]
        rfl

theorem AtCursor.advanceLaw_iff (h : AtCursor a list cells) (hlist : OneList a adv get put)
    {m n : Nat} (hmn : m + n < 2147483648) :
    AdvanceLaw adv get (blocksLeft list cells) (put list) m n ↔
      Stays list cells m ∧ Stays list cells (m + n) := by
  constructor
  · rintro ⟨hm, hsum, -⟩
    exact ⟨h.stays hlist (by omega) hm, h.stays hlist hmn hsum⟩
  · rintro ⟨hm, hsum⟩
    exact ⟨h.advances hlist (by omega) hm, h.advances hlist hmn hsum, h.twice hlist hmn hm hsum⟩

end Laws

theorem mainList (alloc : BlockAllocation) :
    OneList alloc.regions advanceBlocks getBlock fun l => { alloc with list := l } where
  adv l n := by
    rw [advanceBlocks]
    cases advanceListPtr alloc.regions l n <;> rfl
  get _ _ := rfl

theorem outOfBandList (alloc : BlockAllocation) :
    OneList alloc.regions advanceOobBlocks getOobBlock fun l => { alloc with oobList := l } where
  adv l n := by
    rw [advanceOobBlocks]
    cases advanceListPtr alloc.regions l n <;> rfl
  get _ _ := rfl

theorem advanceLaw_iff_stays {alloc : BlockAllocation} {cells oob : List (Nat × Region)}
    (h : AtCursor alloc.regions alloc.list cells) (hoob : AtCursor alloc.regions alloc.oobList oob)
    {m n : Nat} (hmn : m + n < 2147483648) :
    (AdvanceLaw advanceBlocks getBlock (blocksLeft alloc.list cells) alloc m n ↔
        Stays alloc.list cells m ∧ Stays alloc.list cells (m + n)) ∧
      (AdvanceLaw advanceOobBlocks getOobBlock (blocksLeft alloc.oobList oob) alloc m n ↔
        Stays alloc.oobList oob m ∧ Stays alloc.oobList oob (m + n)) :=
  ⟨h.advanceLaw_iff (mainList alloc) hmn, hoob.advanceLaw_iff (outOfBandList alloc) hmn⟩

def threeThenTwo : BlockAllocation where
  regions := [some { block := 10, len := 3, bg := 0, next := some 1, prev := none },
    some { block := 20, len := 2, bg := 0, next := none, prev := some 0 }]
  list := { first := some 0, last := some 1, iter := some 0, partialIter := 0 }
  oobList := .empty

def threeThenTwoCells : List (Nat × Region) :=
  [(0, { block := 10, len := 3, bg := 0, next := some 1, prev := none }),
    (1, { block := 20, len := 2, bg := 0, next := none, prev := some 0 })]

theorem atCursor_threeThenTwo :
    AtCursor threeThenTwo.regions threeThenTwo.list threeThenTwoCells where
  chain := ⟨rfl, rfl, rfl, rfl, rfl⟩
  inside := by decide
  positive := by decide
  word := by decide
  named := by decide

theorem atCursor_noneOutOfBand : AtCursor threeThenTwo.regions threeThenTwo.oobList [] where
  chain := rfl
  inside := by decide
  positive := by decide
  word := by decide
  named := by decide

theorem advanceLaw_iff_stays_threeThenTwo :
    (AdvanceLaw advanceBlocks getBlock 5 threeThenTwo 1 1 ↔
        Stays threeThenTwo.list threeThenTwoCells 1 ∧
          Stays threeThenTwo.list threeThenTwoCells 2) ∧
      (AdvanceLaw advanceOobBlocks getOobBlock 0 threeThenTwo 1 1 ↔
        Stays threeThenTwo.oobList [] 1 ∧ Stays threeThenTwo.oobList [] 2) :=
  advanceLaw_iff_stays atCursor_threeThenTwo atCursor_noneOutOfBand (m := 1) (n := 1) (by decide)

-- Three steps on, the first block is block 10 again and not block 20.
theorem advance_falls_back :
    AtCursor threeThenTwo.regions threeThenTwo.list threeThenTwoCells ∧
      ¬ AdvanceLaw advanceBlocks getBlock (blocksLeft threeThenTwo.list threeThenTwoCells)
        threeThenTwo 3 0 := by
  refine ⟨atCursor_threeThenTwo, ?_⟩
  rintro ⟨⟨s', r, hadv, -, hget⟩, -⟩
  have hrun : advanceBlocks threeThenTwo 3 = some (threeThenTwo, 0) := by decide
  rw [show ((3 : Nat) : Int) = 3 from rfl, hrun, Option.some.injEq, Prod.mk.injEq] at hadv
  obtain ⟨rfl, rfl⟩ := hadv
  have hblock := hget rfl 0 (by decide)
  have hafter : getBlock threeThenTwo 0 = some 10 := by decide
  have hbefore : getBlock threeThenTwo (u32 (0 + 3)) = some 20 := by decide
  rw [hafter, hbefore] at hblock
  cases hblock

end MakeExt4fs

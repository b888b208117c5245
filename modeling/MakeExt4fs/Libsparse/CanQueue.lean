import MakeExt4fs.Libsparse.Queue

namespace MakeExt4fs

open Words

-- What queue_bb takes for granted of a list that has blocks before the new one.
structure CanQueue (bbl : BackedBlockList) (new : BackedBlock) : Prop where
  free : ∀ bb ∈ bbl.dataBlocks, bb.block ≠ new.block
  search : (∃ bb ∈ bbl.dataBlocks, bb.block < new.block) →
    ∀ addr, bbl.lastUsed = some addr → ∃ bb ∈ bbl.dataBlocks, bb.addr = addr
  divides : bbl.blockSize = 0 → ∀ lo a hi, bbl.dataBlocks = lo ++ a :: hi →
    a.block < new.block → (∀ bb ∈ hi, new.block < bb.block) →
      ∀ bb ∈ a :: hi.take 1, sameType bb.backing new.backing = false

section Merge

variable {bs : Nat} {a b new bb : BackedBlock} {lo hi l post rest t : List BackedBlock}

theorem sameType_comm (s t : Backing (Nat × List UInt8)) : sameType s t = sameType t s := by
  cases s <;> cases t <;> rfl

theorem mergeBb_isSome_iff : (mergeBb bs a (b :: l)).isSome = true ↔
    a.block < b.block ∧ (bs = 0 → sameType a.backing b.backing = false) := by
  rw [mergeBb]
  by_cases hlt : a.block < b.block
  · rw [if_neg (not_le.mpr hlt)]
    by_cases htype : sameType a.backing b.backing = true
    · rw [if_neg (not_not.mpr htype), htype]
      by_cases hbs : bs = 0
      · simp [hbs]
      · rw [if_neg hbs]
        split_ifs <;> simp [hlt, hbs]
    · rw [if_pos htype]
      simp [hlt, htype]
  · rw [if_pos (not_lt.mp hlt)]
    simp [hlt]

theorem mergeBb_sorted (h : mergeBb bs a l = some t) (hs : SortedBlocks l) :
    SortedBlocks t ∧ ∃ len tail, t = { a with len } :: tail := by
  cases l with
  | nil =>
    obtain rfl := Option.some.inj h
    exact ⟨List.pairwise_singleton _ _, a.len, [], rfl⟩
  | cons b rest =>
    obtain ⟨hhead, htail⟩ := List.pairwise_cons.mp hs
    have hlt := (mergeBb_isSome_iff.mp (Option.isSome_of_mem h)).1
    have hkept : t = a :: b :: rest → SortedBlocks t ∧ ∃ len tail, t = { a with len } :: tail := by
      rintro rfl
      refine ⟨List.pairwise_cons.mpr ⟨?_, hs⟩, a.len, _, rfl⟩
      exact List.forall_mem_cons.mpr ⟨hlt, fun x hx => hlt.trans (hhead x hx)⟩
    rw [mergeBb, if_neg (not_le.mpr hlt)] at h
    split at h
    · exact hkept (Option.some.inj h).symm
    split at h
    · cases h
    split at h
    · exact hkept (Option.some.inj h).symm
    split at h
    · obtain rfl := Option.some.inj h
      exact ⟨List.pairwise_cons.mpr ⟨fun x hx => hlt.trans (hhead x hx), htail⟩, _, rest, rfl⟩
    · exact hkept (Option.some.inj h).symm

theorem merges_isSome_iff (hs : SortedBlocks hi) (ha : a.block < new.block)
    (hhi : ∀ x ∈ hi, new.block < x.block) :
    ((mergeBb bs new hi).bind (mergeBb bs a)).isSome = true ↔
      (bs = 0 → ∀ bb ∈ a :: hi.take 1, sameType bb.backing new.backing = false) := by
  have hlast {t : List BackedBlock} (ht : mergeBb bs new hi = some t) :
      (mergeBb bs a t).isSome = true ↔ (bs = 0 → sameType a.backing new.backing = false) := by
    obtain ⟨-, len, tail, rfl⟩ := mergeBb_sorted ht hs
    rw [mergeBb_isSome_iff]
    exact ⟨fun h => h.2, fun h => ⟨ha, h⟩⟩
  cases hi with
  | nil =>
    rw [show mergeBb bs new [] = some [new] from rfl, Option.bind_some, hlast rfl]
    simp
  | cons b rest =>
    have hb := hhi b List.mem_cons_self
    cases hmerge : mergeBb bs new (b :: rest) with
    | none =>
      have hnone : ¬ (mergeBb bs new (b :: rest)).isSome = true := by simp [hmerge]
      rw [mergeBb_isSome_iff] at hnone
      simp only [Option.bind_none, Option.isSome_none, Bool.false_eq_true, false_iff]
      intro hall
      refine hnone ⟨hb, fun hbs => ?_⟩
      rw [sameType_comm]
      exact hall hbs b (by simp)
    | some t =>
      have hsome := (mergeBb_isSome_iff.mp (Option.isSome_of_mem hmerge)).2
      rw [sameType_comm] at hsome
      rw [Option.bind_some, hlast hmerge]
      simp only [List.take_succ_cons, List.take_zero, List.mem_cons, List.not_mem_nil, or_false,
        forall_eq_or_imp, forall_eq]
      exact ⟨fun h hbs => ⟨h hbs, hsome hbs⟩, fun h hbs => (h hbs).1⟩

theorem merges_none_of_taken (hs : SortedBlocks hi) {x : BackedBlock} (hx : x ∈ hi)
    (hblock : x.block = new.block) : mergeBb bs new hi = none := by
  cases hi with
  | nil => cases hx
  | cons b rest =>
    have hle : b.block ≤ new.block := by
      rcases List.mem_cons.mp hx with rfl | hx
      · exact hblock.le
      · exact hblock ▸ (List.rel_of_pairwise_cons hs hx).le
    rw [mergeBb, if_pos hle]

theorem merges_none_of_le (hs : SortedBlocks hi) (hle : new.block ≤ a.block) :
    (mergeBb bs new hi).bind (mergeBb bs a) = none := by
  cases hmerge : mergeBb bs new hi with
  | none => rfl
  | some t =>
    obtain ⟨-, len, tail, rfl⟩ := mergeBb_sorted hmerge hs
    rw [Option.bind_some, mergeBb, if_pos hle]

end Merge

section Place

variable {bs : Nat} {a new bb first x : BackedBlock} {lo hi post rest : List BackedBlock}

theorem insertFrom_between (hs : SortedBlocks (first :: rest)) (heq : first :: rest = lo ++ a :: hi)
    (ha : a.block < new.block) (hhi : ∀ x ∈ hi, new.block ≤ x.block) :
    insertFrom bs new first rest =
      ((mergeBb bs new hi).bind (mergeBb bs a)).map (lo ++ ·) := by
  rw [insertFrom_append hs heq ha]
  cases hi with
  | nil => rfl
  | cons next hi =>
    rw [insertFrom, if_neg (not_lt.mpr (hhi next List.mem_cons_self))]
    rfl

theorem insertFrom_taken (hs : SortedBlocks (bb :: post)) (hle : bb.block ≤ new.block)
    (hx : x ∈ bb :: post) (hblock : x.block = new.block) : insertFrom bs new bb post = none := by
  rcases hle.lt_or_eq with hlt | htaken
  · obtain ⟨lo, a, hi, heq, hlo, ha, hhi, -⟩ := insertFrom_spec bs new hs hlt
    have hmem : x ∈ hi := by
      rcases List.mem_append.mp (heq ▸ hx) with h | h
      · exact absurd hblock (hlo x h).ne
      rcases List.mem_cons.mp h with rfl | h
      · exact absurd hblock ha.ne
      · exact h
    have hsorted : SortedBlocks hi :=
      ((List.pairwise_append.mp (heq ▸ hs)).2.1).of_cons
    rw [insertFrom_between hs heq ha hhi, merges_none_of_taken hsorted hmem hblock]
    rfl
  · have hpost : SortedBlocks post := hs.of_cons
    have hnone := @merges_none_of_le bs bb new post hpost htaken.ge
    cases post with
    | nil => exact hnone
    | cons next rest =>
      have hnext := List.rel_of_pairwise_cons hs List.mem_cons_self
      rw [insertFrom, if_neg (by omega)]
      exact hnone

end Place

section Queueing

variable {bbl bbl' : BackedBlockList} {new first : BackedBlock} {rest : List BackedBlock}
  {cs : List AddCall}

theorem splitAt_freed {l : List BackedBlock} {addr : Nat} (h : ∀ x ∈ l, x.addr ≠ addr) :
    splitAt addr l = none := by
  induction l with
  | nil => rfl
  | cons x l ih =>
    rw [splitAt, if_neg (h x List.mem_cons_self), ih fun y hy => h y (List.mem_cons_of_mem x hy)]
    rfl

theorem queueBb_freed {addr : Nat} (hblocks : bbl.dataBlocks = first :: rest)
    (hlast : bbl.lastUsed = some addr) (hfreed : ∀ x ∈ first :: rest, x.addr ≠ addr)
    (hle : first.block ≤ new.block) : queueBb bbl new = none := by
  rw [queueBb, hblocks]
  simp only [if_neg (not_lt.mpr hle), searchStart, hlast, splitAt_freed hfreed, Option.bind_eq_bind,
    Option.bind_none]

theorem canQueue_of_before (hs : SortedBlocks bbl.dataBlocks)
    (hblocks : bbl.dataBlocks = first :: rest) (hlt : new.block < first.block) :
    CanQueue bbl new := by
  have hall : ∀ bb ∈ bbl.dataBlocks, new.block < bb.block := by
    rw [hblocks] at hs ⊢
    exact List.forall_mem_cons.mpr ⟨hlt, fun x hx => hlt.trans (List.rel_of_pairwise_cons hs hx)⟩
  constructor
  case free => exact fun bb hbb => (hall bb hbb).ne'
  case search =>
    rintro ⟨bb, hbb, hbefore⟩
    exact absurd hbefore (hall bb hbb).asymm
  case divides =>
    intro _ lo a hi heq ha
    exact absurd ha (hall a (heq ▸ List.mem_append_right lo List.mem_cons_self)).asymm

theorem queueBb_isSome_of_kept (hs : SortedBlocks bbl.dataBlocks)
    (hblocks : bbl.dataBlocks = first :: rest) (hle : first.block ≤ new.block)
    (hlast : ∀ addr, bbl.lastUsed = some addr → ∃ bb ∈ bbl.dataBlocks, bb.addr = addr) :
    (queueBb bbl new).isSome = true ↔ CanQueue bbl new := by
  have hsorted : SortedBlocks (first :: rest) := hblocks ▸ hs
  rw [queueBb_fromHead bbl new hs hblocks (not_lt.mpr hle) hlast, Option.isSome_map]
  by_cases hfree : ∀ bb ∈ bbl.dataBlocks, bb.block ≠ new.block
  · have hlt : first.block < new.block := hle.lt_of_ne (hfree first (hblocks ▸ List.mem_cons_self))
    have hmerges {lo hi : List BackedBlock} {a : BackedBlock}
        (heq : bbl.dataBlocks = lo ++ a :: hi) (ha : a.block < new.block)
        (hhi : ∀ x ∈ hi, new.block < x.block) :
        (insertFrom bbl.blockSize new first rest).isSome = true ↔
          (bbl.blockSize = 0 → ∀ bb ∈ a :: hi.take 1, sameType bb.backing new.backing = false) := by
      have hparts : SortedBlocks (a :: hi) := (List.pairwise_append.mp (heq ▸ hs)).2.1
      rw [insertFrom_between hsorted (hblocks ▸ heq) ha fun x hx => (hhi x hx).le,
        Option.isSome_map, merges_isSome_iff hparts.of_cons ha hhi]
    constructor
    · intro hsome
      exact ⟨hfree, fun _ => hlast, fun hbs lo a hi heq ha hhi => (hmerges heq ha hhi).mp hsome hbs⟩
    · intro hcan
      obtain ⟨lo, a, hi, heq, -, ha, hhi, -⟩ := insertFrom_spec bbl.blockSize new hsorted hlt
      have hbehind : ∀ x ∈ hi, new.block < x.block := by
        intro x hx
        have hmem : x ∈ bbl.dataBlocks :=
          hblocks ▸ heq ▸ List.mem_append_right lo (List.mem_cons_of_mem a hx)
        exact (hhi x hx).lt_of_ne (hfree x hmem).symm
      have hdata : bbl.dataBlocks = lo ++ a :: hi := hblocks.trans heq
      exact (hmerges hdata ha hbehind).mpr fun hbs =>
        hcan.divides hbs lo a hi hdata ha hbehind
  · obtain ⟨x, hx, hblock⟩ : ∃ x ∈ bbl.dataBlocks, x.block = new.block := by
      simpa using hfree
    rw [insertFrom_taken hsorted hle (hblocks ▸ hx) hblock]
    exact ⟨fun h => (by cases h), fun hcan => absurd hcan.free hfree⟩

theorem queueBb_isSome_iff (hs : SortedBlocks bbl.dataBlocks) :
    (queueBb bbl new).isSome = true ↔ CanQueue bbl new := by
  cases hblocks : bbl.dataBlocks with
  | nil =>
    rw [queueBb, hblocks]
    refine ⟨fun _ => ⟨?_, ?_, ?_⟩, fun _ => rfl⟩ <;> simp [hblocks]
  | cons first rest =>
    rcases Nat.lt_or_ge new.block first.block with hlt | hle
    · rw [queueBb_first bbl hblocks hlt]
      exact ⟨fun _ => canQueue_of_before hs hblocks hlt, fun _ => rfl⟩
    by_cases hlast : ∀ addr, bbl.lastUsed = some addr → ∃ bb ∈ bbl.dataBlocks, bb.addr = addr
    · exact queueBb_isSome_of_kept hs hblocks hle hlast
    · push Not at hlast
      obtain ⟨addr, haddr, hfreed⟩ := hlast
      rw [queueBb_freed hblocks haddr (hblocks ▸ hfreed) hle]
      refine ⟨fun h => (by cases h), fun hcan => ?_⟩
      have hfirst : first ∈ bbl.dataBlocks := hblocks ▸ List.mem_cons_self
      obtain ⟨bb, hbb, heq⟩ :=
        hcan.search ⟨first, hfirst, hle.lt_of_ne (hcan.free first hfirst)⟩ addr haddr
      exact absurd heq (hfreed bb hbb)

end Queueing

end MakeExt4fs

import MakeExt4fs.Libsparse.Merging

namespace MakeExt4fs

section Runs

variable {bs : Nat} {bbl : BackedBlockList} {calls done : List AddCall}

theorem ListInv.queued (h : ListInv bbl calls) : Queued bbl calls :=
  ⟨h.sorted, h.lastUsed, h.search, h.image⟩

theorem ListInv.new (hbs : 0 < bs) : ListInv (backedBlockListNew bs) [] where
  size := hbs
  apart := .nil
  fits := by simp [backedBlockListNew]
  lastUsed := by simp [backedBlockListNew]
  image := by simp [backedBlockListNew]

def KeepsAll (bbl : BackedBlockList) : List AddCall → Prop
  | [] => True
  | c :: rest => KeepsNew bbl (c.newBlock bbl) ∧
    ∀ bbl', c.run bbl = some bbl' → KeepsAll bbl' rest

def AlwaysQueued (bbl : BackedBlockList) (done : List AddCall) : List AddCall → Prop
  | [] => Queued bbl done
  | c :: rest => Queued bbl done ∧
    ∃ bbl', c.run bbl = some bbl' ∧ AlwaysQueued bbl' (done ++ [c]) rest

theorem ListInv.run (h : ListInv bbl done) (hfits : ∀ c ∈ calls, c.Fits bbl.blockSize)
    (hapart : (done ++ calls).Pairwise (AddCall.Apart bbl.blockSize))
    (hk : KeepsAll bbl calls) : AlwaysQueued bbl done calls := by
  induction calls generalizing bbl done with
  | nil => exact h.queued
  | cons c rest ih =>
    have hdone : ∀ d ∈ done, d.Apart bbl.blockSize c := fun d hd =>
      (List.pairwise_append.mp hapart).2.2 d hd c (by simp)
    obtain ⟨bbl', hrun, hsize, hinv⟩ := h.step (hfits c (by simp)) hdone hk.1
    refine ⟨h.queued, bbl', hrun, ih hinv ?_ ?_ (hk.2 bbl' hrun)⟩
    · rw [hsize]
      exact fun d hd => hfits d (by simp [hd])
    · rw [hsize]
      simpa using hapart

theorem ListInv.keepsNew (h : ListInv bbl done) {c : AddCall} (hc : c.Fits bbl.blockSize)
    (hapart : ∀ d ∈ done, d.Apart bbl.blockSize c) {bbl' : BackedBlockList}
    (hrun : c.run bbl = some bbl') (hq : Queued bbl' (done ++ [c])) :
    KeepsNew bbl (c.newBlock bbl) where
  before _ ha := h.before_of_queued hc hapart hrun hq ha
  after _ hb hm := fun ⟨_, ha, hlt⟩ => h.after_of_queued hc hapart hrun hq hb hm ha hlt

theorem AlwaysQueued.head (h : AlwaysQueued bbl done calls) : Queued bbl done := by
  cases calls with
  | nil => exact h
  | cons c rest => exact h.1

theorem ListInv.keepsAll (h : ListInv bbl done) (hfits : ∀ c ∈ calls, c.Fits bbl.blockSize)
    (hapart : (done ++ calls).Pairwise (AddCall.Apart bbl.blockSize))
    (hq : AlwaysQueued bbl done calls) : KeepsAll bbl calls := by
  induction calls generalizing bbl done with
  | nil => exact trivial
  | cons c rest ih =>
    have hdone : ∀ d ∈ done, d.Apart bbl.blockSize c := fun d hd =>
      (List.pairwise_append.mp hapart).2.2 d hd c (by simp)
    obtain ⟨-, bbl', hrun, hrest⟩ := hq
    have hk := h.keepsNew (hfits c (by simp)) hdone hrun hrest.head
    obtain ⟨bbl'', hrun', hsize, hinv⟩ := h.step (hfits c (by simp)) hdone hk
    obtain rfl : bbl' = bbl'' := Option.some.inj (hrun.symm.trans hrun')
    refine ⟨hk, fun bbl'' hrun' => ?_⟩
    obtain rfl : bbl' = bbl'' := Option.some.inj (hrun.symm.trans hrun')
    refine ih hinv ?_ ?_ hrest
    · rw [hsize]
      exact fun d hd => hfits d (by simp [hd])
    · rw [hsize]
      simpa using hapart

theorem alwaysQueued_iff (hbs : 0 < bs) (hfits : ∀ c ∈ calls, c.Fits bs)
    (hapart : calls.Pairwise (AddCall.Apart bs)) :
    AlwaysQueued (backedBlockListNew bs) [] calls ↔ KeepsAll (backedBlockListNew bs) calls :=
  ⟨(ListInv.new hbs).keepsAll hfits (by simpa [backedBlockListNew] using hapart),
    (ListInv.new hbs).run hfits (by simpa [backedBlockListNew] using hapart)⟩

def gapCalls : List AddCall :=
  [.data 7 4096 0, .file [65] 0 8192 4, .data 9 4096 1, .fill 0 4096 6]

theorem alwaysQueued_gapCalls :
    (0 < 4096 ∧ (∀ c ∈ gapCalls, c.Fits 4096) ∧ gapCalls.Pairwise (AddCall.Apart 4096)) ∧
      (AlwaysQueued (backedBlockListNew 4096) [] gapCalls ↔
        KeepsAll (backedBlockListNew 4096) gapCalls) := by
  have hfits : ∀ c ∈ gapCalls, c.Fits 4096 := by decide
  have hapart : gapCalls.Pairwise (AddCall.Apart 4096) := by decide
  exact ⟨⟨by decide, hfits, hapart⟩, alwaysQueued_iff (by decide) hfits hapart⟩

-- Two zero blocks next to each other: the second is merged into the first and last_used is freed.
def twoZeroBlocks : List AddCall := [.fill 0 4096 0, .fill 0 4096 1]

theorem twoZeroBlocks_dangling :
    (0 < 4096 ∧ (∀ c ∈ twoZeroBlocks, c.Fits 4096) ∧
      twoZeroBlocks.Pairwise (AddCall.Apart 4096)) ∧
      ¬ AlwaysQueued (backedBlockListNew 4096) [] twoZeroBlocks := by
  refine ⟨⟨by decide, by decide, by decide⟩, ?_⟩
  rintro ⟨-, bbl, hfirst, -, bbl', hsecond, hq⟩
  have hstate : (AddCall.run (backedBlockListNew 4096) (.fill 0 4096 0)).bind
      (AddCall.run · (.fill 0 4096 1)) =
        some ⟨[⟨0, 0, 8192, .fill 0⟩], some 1, 4096, 2⟩ := by decide
  rw [hfirst, Option.bind_some, hsecond] at hstate
  obtain rfl := Option.some.inj hstate
  obtain ⟨bb, hbb, haddr⟩ := hq.lastUsed 1 rfl
  simp only [List.mem_singleton] at hbb
  subst hbb
  exact absurd haddr (by decide)

end Runs

end MakeExt4fs

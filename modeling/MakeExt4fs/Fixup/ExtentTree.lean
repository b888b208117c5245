import MakeExt4fs.Contents.Mapping
import MakeExt4fs.Fixup.Calm

namespace MakeExt4fs

open ErrorLog Interrupt Words

def Extent.start (e : Extent) : Nat := e.eeStartHi * 4294967296 + e.eeStartLo

def Extent.Assigns (e : Extent) (l p : Nat) : Prop := ∃ j < e.eeLen, l = e.eeBlock + j ∧ p = e.start + j

inductive ExtentTree where
  | leaf (extents : List Extent)
  | index {n : Nat} (place : Fin n → Nat) (child : Fin n → ExtentTree)

namespace ExtentTree

def Assigns : ExtentTree → Nat → Nat → Prop
  | leaf extents, l, p => ∃ e ∈ extents, e.Assigns l p
  | index _ child, l, p => ∃ i, (child i).Assigns l p

def Covers (t : ExtentTree) (l : Nat) : Prop := ∃ p, t.Assigns l p

-- Disjoint ascending extents, and disjoint subtrees; logical block numbers are 32 bits long.
def WellFormed : ExtentTree → Prop
  | leaf extents => extents.Pairwise (fun e e' => e.eeBlock + e.eeLen ≤ e'.eeBlock) ∧
      ∀ e ∈ extents, e.eeBlock + e.eeLen ≤ 4294967296
  | index _ child => (∀ i, (child i).WellFormed) ∧
      ∀ i j, i ≠ j → ∀ l, (child i).Covers l → ¬ (child j).Covers l

def FirstAssigns : ExtentTree → Nat → Nat → Prop
  | leaf extents, l, p => ∃ e ∈ extents, e.Assigns l p
  | index _ child, l, p => ∃ i, i.val = 0 ∧ (child i).FirstAssigns l p

-- No entry of an index but the first leads to an extent, from the root on.
def OnlyFirst : ExtentTree → Prop
  | leaf _ => True
  | index _ child => ∀ i, if i.val = 0 then (child i).OnlyFirst else ∀ l, ¬ (child i).Covers l

def hasEntries : ExtentTree → Bool
  | leaf _ => false
  | @index n _ _ => decide (0 < n)

-- The tree is on the image, in the levels under this one; its header is in the memory b. Every block
-- of it is all there, and no node has more entries than fit.
def Held (v : Volume) (d : Disk) : ExtentTree → Nat → Buffer → Nat → Nat → Prop
  | leaf extents, level, b, hdr, limit =>
    level = 0 ∧ limit ≤ b.size ∧ hdr + 12 + 12 * extents.length ≤ limit ∧
      (ehAt hdr ehMagic).get b = ext4ExtMagic ∧ (ehAt hdr ehDepth).get b = 0 ∧
      (ehAt hdr ehEntries).get b = extents.length ∧
      ∀ i (hi : i < extents.length), (ehAt hdr (eeBlock i)).get b = (extents[i]).eeBlock ∧
        (ehAt hdr (eeLen i)).get b = (extents[i]).eeLen ∧
        (ehAt hdr (eeStartHi i)).get b * 4294967296 + (ehAt hdr (eeStartLo i)).get b =
          (extents[i]).start
  | @index n place child, level, b, hdr, limit =>
    0 < level ∧ limit ≤ b.size ∧ hdr + 12 + 12 * n ≤ limit ∧
      (ehAt hdr ehMagic).get b = ext4ExtMagic ∧ (ehAt hdr ehDepth).get b = level ∧
      (ehAt hdr ehEntries).get b = n ∧
      ∀ i : Fin n, (ehAt hdr ⟨eiLeafHi.off + 12 * i, 2⟩).get b * 4294967296 +
          (ehAt hdr ⟨eiLeafLo.off + 12 * i, 4⟩).get b = place i ∧
        place i * v.info.blockSize.val + v.info.blockSize.val ≤ d.size ∧
        (child i).Held v d (level - 1)
          (d.view (place i * v.info.blockSize.val) v.info.blockSize.val) 0 v.info.blockSize.val

end ExtentTree

structure Stored (assigns : Nat → Nat → Prop) (before after : BlockList) : Prop where
  length : after.length = before.length
  assigned : ∀ l p, assigns l p → after[l]? = some (some p)
  others : ∀ l, (∀ p, ¬ assigns l p) → after[l]? = before[l]?

section Stored

variable {A B : Nat → Nat → Prop} {a b c : BlockList}

theorem Stored.congr (h : Stored A a b) (hiff : ∀ l p, B l p ↔ A l p) : Stored B a b :=
  ⟨h.length, fun l p hb => h.assigned l p ((hiff l p).mp hb),
    fun l hl => h.others l fun p ha => hl p ((hiff l p).mpr ha)⟩

theorem Stored.nothing (h : ∀ l p, ¬ A l p) : Stored A a a :=
  ⟨rfl, fun l p ha => absurd ha (h l p), fun _ _ => rfl⟩

theorem Stored.then (h : Stored A a b) (h' : Stored B b c)
    (hsame : ∀ l p q, A l p → B l q → p = q) : Stored (fun l p => A l p ∨ B l p) a c := by
  refine ⟨h'.length.trans h.length, fun l p hor => ?_, fun l hl => ?_⟩
  · rcases hor with ha | hb
    · by_cases hlater : ∃ q, B l q
      · obtain ⟨q, hb⟩ := hlater
        rw [hsame l p q ha hb]
        exact h'.assigned l q hb
      · rw [h'.others l fun q hb => hlater ⟨q, hb⟩]
        exact h.assigned l p ha
    · exact h'.assigned l p hb
  · rw [h'.others l fun p hb => hl p (.inr hb), h.others l fun p ha => hl p (.inl ha)]

theorem Stored.set {l p : Nat} (hl : l < a.length) :
    Stored (fun l' p' => l' = l ∧ p' = p) a (a.set l (some p)) := by
  refine ⟨List.length_set, ?_, fun l' hother => ?_⟩
  · rintro l' p' ⟨rfl, rfl⟩
    exact List.getElem?_set_self hl
  · exact List.getElem?_set_ne fun heq => hother p ⟨heq.symm, rfl⟩

end Stored

section Leaf

variable {b : Buffer} {blockList : BlockList} {m : Machine} {E : Stop FixupError → Machine → Prop}

theorem storeExtent_ends (e : Extent) (hend : e.eeBlock + e.eeLen ≤ 4294967296)
    (hroom : e.eeBlock + e.eeLen ≤ blockList.length ∨ e.eeLen = 0) :
    (Act.fold (List.range e.eeLen) (fun blockList j =>
        setBlock blockList (u32 (e.eeBlock + j)) (e.start + j)) blockList : Fixup BlockList).Ends
      (fun after m' => Stored e.Assigns blockList after ∧ m' = m) E m := by
  refine (Act.ends_fold_range (fun j after m' =>
    Stored (fun l p => ∃ i < j, l = e.eeBlock + i ∧ p = e.start + i) blockList after ∧ m' = m)
    ?_ ?_).post fun _ _ h => h
  · rintro j hj after m' ⟨hstored, rfl⟩
    have hin : e.eeBlock + j < after.length := by
      rw [hstored.length]
      omega
    rw [u32_of_lt (by omega), setBlock, if_pos hin, Act.ends_pure]
    refine ⟨(hstored.then (Stored.set hin) ?_).congr fun l p => ?_, rfl⟩
    · rintro l p q ⟨i, hi, rfl, rfl⟩ ⟨heq, rfl⟩
      omega
    · constructor
      · rintro ⟨i, hi, hip⟩
        rcases Nat.lt_succ_iff_lt_or_eq.mp hi with hi | rfl
        · exact .inl ⟨i, hi, hip⟩
        · exact .inr hip
      · rintro (⟨i, hi, hip⟩ | hip)
        · exact ⟨i, by omega, hip⟩
        · exact ⟨j, by omega, hip⟩
  · refine ⟨.nothing ?_, rfl⟩
    rintro l p ⟨i, hi, -⟩
    cases hi

theorem getExtentEnts_ends {v : Volume} {d : Disk} {extents : List Extent} {level hdr limit : Nat}
    (h : (ExtentTree.leaf extents).Held v d level b hdr limit)
    (hwf : (ExtentTree.leaf extents).WellFormed)
    (hroom : ∀ l p, (ExtentTree.leaf extents).Assigns l p → l < blockList.length) :
    (getExtentEnts b hdr blockList).Ends
      (fun after m' => Stored (ExtentTree.leaf extents).Assigns blockList after ∧ m' = m) E m := by
  obtain ⟨-, hlimit, hfits, -, hdepth, hentries, hall⟩ := h
  obtain ⟨hordered, hends⟩ := hwf
  have hin (f : Field) (hf : f.off + f.size ≤ 12 + 12 * extents.length) :
      memGet (ehAt hdr f) b = pure ((ehAt hdr f).get b) := memGet_eq (by
    simp only [ehAt]
    omega)
  rw [getExtentEnts, hin ehDepth (by simp only [ehDepth]; omega), pure_bind, hdepth,
    if_neg (by simp), hin ehEntries (by simp only [ehEntries]; omega), pure_bind, hentries]
  refine (Act.ends_fold_range (fun i after m' => Stored (fun l p =>
    ∃ k, ∃ hk : k < extents.length, k < i ∧ (extents[k]).Assigns l p) blockList after ∧ m' = m)
    ?_ ?_).post ?_
  · rintro i hi after m' ⟨hstored, rfl⟩
    obtain ⟨hblock, hlen, hstart⟩ := hall i hi
    rw [hin (eeBlock i) (by simp only [eeBlock]; omega), pure_bind,
      hin (eeLen i) (by simp only [eeLen]; omega), pure_bind,
      hin (eeStartHi i) (by simp only [eeStartHi]; omega), pure_bind,
      hin (eeStartLo i) (by simp only [eeStartLo]; omega), pure_bind, hblock, hlen, hstart]
    have hmem : extents[i] ∈ extents := List.getElem_mem hi
    refine (storeExtent_ends (extents[i]) (hends _ hmem) ?_).post ?_
    · rw [hstored.length]
      by_contra hlong
      have hlast := hroom _ _ ⟨_, hmem, (extents[i]).eeLen - 1, by omega, rfl, rfl⟩
      omega
    · rintro after' m' ⟨hstored', rfl⟩
      refine ⟨(hstored.then hstored' ?_).congr fun l p => ?_, rfl⟩
      · rintro l p q ⟨k, hk, hki, j, hj, rfl, rfl⟩ ⟨j', hj', heq, rfl⟩
        have := List.pairwise_iff_getElem.mp hordered k i hk hi hki
        omega
      · constructor
        · rintro ⟨k, hk, hki, hassign⟩
          rcases Nat.lt_succ_iff_lt_or_eq.mp hki with hki | rfl
          · exact .inl ⟨k, hk, hki, hassign⟩
          · exact .inr hassign
        · rintro (⟨k, hk, hki, hassign⟩ | hassign)
          · exact ⟨k, hk, by omega, hassign⟩
          · exact ⟨i, hi, by omega, hassign⟩
  · refine ⟨.nothing ?_, rfl⟩
    rintro l p ⟨k, -, hk, -⟩
    cases hk
  · rintro after m' ⟨hstored, rfl⟩
    refine ⟨hstored.congr fun l p => ?_, rfl⟩
    constructor
    · rintro ⟨e, he, hassign⟩
      obtain ⟨k, hk, rfl⟩ := List.mem_iff_getElem.mp he
      exact ⟨k, hk, hk, hassign⟩
    · rintro ⟨k, hk, -, hassign⟩
      exact ⟨_, List.getElem_mem hk, hassign⟩

end Leaf

namespace ExtentTree

variable {t : ExtentTree} {l p q : Nat}

theorem FirstAssigns.assigns (h : t.FirstAssigns l p) : t.Assigns l p := by
  induction t with
  | leaf extents => exact h
  | index place child ih =>
    obtain ⟨i, -, h⟩ := h
    exact ⟨i, ih i h⟩

theorem WellFormed.functional (hwf : t.WellFormed) (hp : t.Assigns l p) (hq : t.Assigns l q) :
    p = q := by
  induction t with
  | leaf extents =>
    obtain ⟨e, he, j, hj, rfl, rfl⟩ := hp
    obtain ⟨e', he', j', hj', heq, rfl⟩ := hq
    obtain ⟨k, hk, rfl⟩ := List.mem_iff_getElem.mp he
    obtain ⟨k', hk', rfl⟩ := List.mem_iff_getElem.mp he'
    have hordered := List.pairwise_iff_getElem.mp hwf.1
    rcases lt_trichotomy k k' with hlt | rfl | hlt
    · have := hordered k k' hk hk' hlt
      omega
    · omega
    · have := hordered k' k hk' hk hlt
      omega
  | index place child ih =>
    obtain ⟨i, hp⟩ := hp
    obtain ⟨j, hq⟩ := hq
    by_cases hij : i = j
    · subst hij
      exact ih i (hwf.1 i) hp hq
    · exact absurd ⟨q, hq⟩ (hwf.2 i j hij l ⟨p, hp⟩)

theorem WellFormed.onlyFirst_iff (hwf : t.WellFormed) :
    t.OnlyFirst ↔ ∀ l p, t.Assigns l p → t.FirstAssigns l p := by
  induction t with
  | leaf extents => exact iff_of_true trivial fun _ _ h => h
  | index place child ih =>
    constructor
    · rintro honly l p ⟨i, hassign⟩
      have hi := honly i
      split at hi
      · exact ⟨i, ‹_›, (ih i (hwf.1 i)).mp hi l p hassign⟩
      · exact absurd ⟨p, hassign⟩ (hi l)
    · intro hall i
      split
      · rename_i hzero
        refine (ih i (hwf.1 i)).mpr fun l p hassign => ?_
        obtain ⟨j, hj, hfirst⟩ := hall l p ⟨i, hassign⟩
        obtain rfl : j = i := Fin.ext (hj.trans hzero.symm)
        exact hfirst
      · rename_i hne
        rintro l ⟨p, hassign⟩
        obtain ⟨j, hj, hfirst⟩ := hall l p ⟨i, hassign⟩
        have hij : i ≠ j := fun heq => hne (heq ▸ hj)
        exact hwf.2 i j hij l ⟨p, hassign⟩ ⟨p, hfirst.assigns⟩

def Node : ExtentTree → Nat → Prop
  | leaf _, _ => False
  | index place child, p => ∃ i, place i = p ∨ (child i).Node p

variable {v v' : Volume} {d d' : Disk} {b b' : Buffer} {level hdr limit : Nat}

theorem Held.congr (h : t.Held v d level b hdr limit) (hinfo : v'.info = v.info)
    (hsize : d'.size = d.size)
    (hlimit : limit ≤ b'.size) (hsame : ∀ f : Field, f.off + f.size ≤ limit → f.get b' = f.get b)
    (hnodes : ∀ p, t.Node p → ∀ k < v.info.blockSize.val,
      d'.get (p * v.info.blockSize.val + k) = d.get (p * v.info.blockSize.val + k)) :
    t.Held v' d' level b' hdr limit := by
  induction t generalizing b b' level hdr limit with
  | leaf extents =>
    obtain ⟨hlevel, -, hfits, hmagic, hdepth, hentries, hall⟩ := h
    have hfield (f : Field) (hf : f.off + f.size ≤ 12 + 12 * extents.length) :
        (ehAt hdr f).get b' = (ehAt hdr f).get b := hsame _ (by
      simp only [ehAt]
      omega)
    refine ⟨hlevel, hlimit, hfits, ?_, ?_, ?_, fun i hi => ?_⟩
    · rw [hfield ehMagic (by simp only [ehMagic]; omega), hmagic]
    · rw [hfield ehDepth (by simp only [ehDepth]; omega), hdepth]
    · rw [hfield ehEntries (by simp only [ehEntries]; omega), hentries]
    · rw [hfield (eeBlock i) (by simp only [eeBlock]; omega),
        hfield (eeLen i) (by simp only [eeLen]; omega),
        hfield (eeStartHi i) (by simp only [eeStartHi]; omega),
        hfield (eeStartLo i) (by simp only [eeStartLo]; omega)]
      exact hall i hi
  | @index n place child ih =>
    obtain ⟨hlevel, -, hfits, hmagic, hdepth, hentries, hall⟩ := h
    have hfield (f : Field) (hf : f.off + f.size ≤ 12 + 12 * n) :
        (ehAt hdr f).get b' = (ehAt hdr f).get b := hsame _ (by
      simp only [ehAt]
      omega)
    refine ⟨hlevel, hlimit, hfits, ?_, ?_, ?_, fun i => ?_⟩
    · rw [hfield ehMagic (by simp only [ehMagic]; omega), hmagic]
    · rw [hfield ehDepth (by simp only [ehDepth]; omega), hdepth]
    · rw [hfield ehEntries (by simp only [ehEntries]; omega), hentries]
    · have hi := i.isLt
      obtain ⟨hplace, hthere, hheld⟩ := hall i
      rw [hfield ⟨eiLeafHi.off + 12 * i, 2⟩ (by simp only [eiLeafHi]; omega),
        hfield ⟨eiLeafLo.off + 12 * i, 4⟩ (by simp only [eiLeafLo]; omega), hsize, hinfo]
      refine ⟨hplace, hthere, ih i hheld le_rfl (fun f hf => ?_) fun p hp => hnodes p ⟨i, .inr hp⟩⟩
      refine Buffer.getLE_congr fun k _ hk => ?_
      have hin : k < v.info.blockSize.val := by omega
      rw [Buffer.get_view hin, Buffer.get_view hin]
      exact hnodes _ ⟨i, .inl rfl⟩ k hin

theorem Held.depth (h : t.Held v d level b hdr limit) : (ehAt hdr ehDepth).get b = level := by
  cases t with
  | leaf extents =>
    obtain ⟨rfl, -, -, -, hdepth, -⟩ := h
    exact hdepth
  | index place child =>
    obtain ⟨-, -, -, -, hdepth, -⟩ := h
    exact hdepth

theorem Held.room (h : t.Held v d level b hdr limit) : hdr + 12 ≤ limit ∧ limit ≤ b.size := by
  cases t with
  | leaf extents =>
    obtain ⟨-, hlimit, hfits, -⟩ := h
    exact ⟨by omega, hlimit⟩
  | index place child =>
    obtain ⟨-, hlimit, hfits, -⟩ := h
    exact ⟨by omega, hlimit⟩

end ExtentTree

section Tree

variable {v : Volume} {calm : Prop} {stored : Disk × Buffer} {m : Machine}

theorem firstAssigns_index {n : Nat} {place : Fin n → Nat} {child : Fin n → ExtentTree}
    (hn : 0 < n) (l p : Nat) : (ExtentTree.index place child).FirstAssigns l p ↔
      (child ⟨0, hn⟩).FirstAssigns l p := by
  constructor
  · rintro ⟨j, hj, hassign⟩
    obtain rfl : j = ⟨0, hn⟩ := Fin.ext hj
    exact hassign
  · exact fun hassign => ⟨_, rfl, hassign⟩

-- Every turn of the loop reads the first child again.
theorem Stored.again {n i : Nat} {place : Fin n → Nat} {child : Fin n → ExtentTree}
    {blockList after after' : BlockList} (hn : 0 < n) (hwf : (child ⟨0, hn⟩).WellFormed)
    (hfirst : i = 0 → after = blockList)
    (hlater : 0 < i → Stored (ExtentTree.index place child).FirstAssigns blockList after)
    (h : Stored (child ⟨0, hn⟩).FirstAssigns after after') :
    Stored (ExtentTree.index place child).FirstAssigns blockList after' := by
  rcases Nat.eq_zero_or_pos i with rfl | hpos
  · rw [hfirst rfl] at h
    exact h.congr (firstAssigns_index hn)
  · refine ((hlater hpos).then h fun l p q hp hq => ?_).congr fun l p => ?_
    · exact hwf.functional ((firstAssigns_index hn l p).mp hp).assigns hq.assigns
    · rw [firstAssigns_index hn]
      exact (or_self_iff).symm

theorem getExtentNode_ends (t : ExtentTree) {b : Buffer} {level hdr limit depth : Nat}
    {blockList : BlockList} (hsize : stored.1.size ≤ 9223372036854775808)
    (h : t.Held v stored.1 level b hdr limit) (hwf : t.WellFormed)
    (hbs : t.hasEntries = true → v.info.blockSize.val ≤ maxExt4BlockSize)
    (hdepth : calm → level ≤ depth)
    (hroom : ∀ l p, t.FirstAssigns l p → l < blockList.length) (hm : At calm stored m) :
    (if level = 0 then getExtentEnts b hdr blockList
      else getExtentIdx v depth b hdr blockList).Ends
      (fun after m' => Stored t.FirstAssigns blockList after ∧ At calm stored m')
      (fun _ m' => Halted calm stored m') m := by
  induction t generalizing b level hdr limit depth blockList m with
  | leaf extents =>
    rw [if_pos h.1]
    exact (getExtentEnts_ends h hwf hroom).post fun after m' h' => ⟨h'.1, h'.2 ▸ hm⟩
  | @index n place child ih =>
    obtain ⟨hlevel, hlimit, hfits, -, hdep, hentries, hall⟩ := h
    have hin (f : Field) (hf : f.off + f.size ≤ 12 + 12 * n) :
        memGet (ehAt hdr f) b = pure ((ehAt hdr f).get b) := memGet_eq (by
      simp only [ehAt]
      omega)
    rw [if_neg (by omega)]
    rcases depth with _ | depth
    · exact ⟨hm.stored, fun hc => absurd (hdepth hc) (by omega)⟩
    rw [getExtentIdx, hin ehDepth (by simp only [ehDepth]; omega), pure_bind, hdep,
      if_neg (by omega), hin ehEntries (by simp only [ehEntries]; omega), pure_bind, hentries]
    refine (Act.ends_fold_range (fun i after m' => (i = 0 → after = blockList) ∧
      (0 < i → Stored (ExtentTree.index place child).FirstAssigns blockList after) ∧
        At calm stored m') ?_ ⟨fun _ => rfl, fun hpos => absurd hpos (by omega), hm⟩).post ?_
    · rintro i hi after m1 ⟨hfirst, hlater, hm1⟩
      have hn : 0 < n := by omega
      obtain ⟨hplace, hthere, hheld⟩ := hall ⟨0, hn⟩
      have hpos : 0 < v.info.blockSize.val := by
        have := hheld.room.1
        omega
      rw [hin eiLeafHi (by simp only [eiLeafHi]; omega), pure_bind,
        hin eiLeafLo (by simp only [eiLeafLo]; omega), pure_bind,
        if_neg (not_lt.mpr (hbs (decide_eq_true hn))), Act.ends_bind]
      have hat : (ehAt hdr eiLeafHi).get b * 4294967296 + (ehAt hdr eiLeafLo).get b =
          place ⟨0, hn⟩ := hplace
      rw [hat]
      refine (readBlock_calm hsize hpos hthere hm1).post ?_
      rintro block m2 ⟨rfl, hm2⟩
      have hroom2 := hheld.room
      rw [memGet_eq (show ehDepth.off + ehDepth.size ≤ _ by
        simp only [ehDepth]
        omega), pure_bind]
      have hdep2 : ehDepth.get (stored.1.view (place ⟨0, hn⟩ * v.info.blockSize.val)
          v.info.blockSize.val) = level - 1 := hheld.depth
      rw [hdep2]
      have hlength : after.length = blockList.length := by
        rcases Nat.eq_zero_or_pos i with rfl | hpos
        · rw [hfirst rfl]
        · exact (hlater hpos).length
      refine (ih ⟨0, hn⟩ hheld (hwf.1 _) (fun _ => hbs (decide_eq_true hn))
        (fun hc => Nat.sub_le_of_le_add (hdepth hc))
        (fun l p hassign => hlength ▸ hroom l p ⟨_, rfl, hassign⟩) hm2).post ?_
      rintro after' m3 ⟨hstored, hm3⟩
      exact ⟨fun h => absurd h (by omega), fun _ => .again hn (hwf.1 _) hfirst hlater hstored, hm3⟩
    · rintro after m1 ⟨hfirst, hlater, hm1⟩
      refine ⟨?_, hm1⟩
      rcases Nat.eq_zero_or_pos n with rfl | hpos
      · rw [hfirst rfl]
        refine .nothing ?_
        rintro l p ⟨i, -⟩
        exact i.elim0
      · exact hlater hpos

end Tree

structure InodeTree (v : Volume) (d : Disk) (inode : Buffer) (t : ExtentTree) (level n : Nat) :
    Prop where
  held : t.Held v d level inode (iBlock 0).off ((iBlock 0).off + 60)
  wellFormed : t.WellFormed
  inside : ∀ l, t.Covers l → l < n
  offsets : d.size ≤ 9223372036854775808

section Inode

variable {v : Volume} {inode : Buffer} {t : ExtentTree} {level n depth : Nat} {m : Machine}

def unset (n : Nat) : BlockList := List.replicate n none

theorem getBlockListExtents_node {d : Disk} (h : InodeTree v d inode t level n)
    (blockList : BlockList) : getBlockListExtents v depth inode blockList =
      if level = 0 then getExtentEnts inode (iBlock 0).off blockList
      else getExtentIdx v depth inode (iBlock 0).off blockList := by
  have hmagic : (ehAt (iBlock 0).off ehMagic).get inode = ext4ExtMagic := by
    have hheld := h.held
    cases t with
    | leaf extents =>
      obtain ⟨-, -, -, hmagic, -⟩ := hheld
      exact hmagic
    | index place child =>
      obtain ⟨-, -, -, hmagic, -⟩ := hheld
      exact hmagic
  simp only [getBlockListExtents]
  rw [if_neg (not_not.mpr hmagic), h.held.depth]

theorem getBlockListExtents_crashes {d : Disk} (h : InodeTree v d inode t level n)
    (hdepth : level ≤ depth) (hentries : t.hasEntries = true)
    (hbs : maxExt4BlockSize < v.info.blockSize.val) (blockList : BlockList) :
    (getBlockListExtents v depth inode blockList).Ends (fun _ _ => False) (fun _ _ => True) m := by
  rw [getBlockListExtents_node h]
  have hheld := h.held
  cases t with
  | leaf extents => cases hentries
  | @index k place child =>
    obtain ⟨hlevel, hlimit, hfits, -, hdep, hcount, -⟩ := hheld
    have hin (f : Field) (hf : f.off + f.size ≤ 12 + 12 * k) :
        memGet (ehAt (iBlock 0).off f) inode = pure ((ehAt (iBlock 0).off f).get inode) :=
      memGet_eq (by
        simp only [ehAt]
        omega)
    obtain ⟨depth, rfl⟩ := Nat.exists_eq_succ_of_ne_zero (by omega : depth ≠ 0)
    obtain ⟨k, rfl⟩ := Nat.exists_eq_succ_of_ne_zero
      (Nat.pos_iff_ne_zero.mp (of_decide_eq_true hentries))
    rw [if_neg (by omega), getExtentIdx, hin ehDepth (by simp only [ehDepth]; omega), pure_bind, hdep,
      if_neg (by omega), hin ehEntries (by simp only [ehEntries]; omega), pure_bind, hcount,
      Nat.succ_eq_add_one, List.range_succ_eq_map, Act.fold,
      hin eiLeafHi (by simp only [eiLeafHi]; omega), pure_bind,
      hin eiLeafLo (by simp only [eiLeafLo]; omega), pure_bind, if_pos hbs]
    trivial

theorem getBlockListExtents_ends (h : InodeTree v m.device inode t level n) (hdepth : level ≤ depth)
    (hleft : m.left = none)
    (hbs : t.hasEntries = true → v.info.blockSize.val ≤ maxExt4BlockSize) :
    (getBlockListExtents v depth inode (unset n)).Ends
      (fun after _ => Stored t.FirstAssigns (unset n) after) (fun _ _ => False) m := by
  have hm : At True (m.device, m.bgDesc) m := ⟨rfl, fun _ => hleft⟩
  rw [getBlockListExtents_node h]
  refine (getExtentNode_ends t h.offsets h.held h.wellFormed hbs (fun _ => hdepth) ?_ hm).mono
    (fun _ _ h => h.1) fun _ _ hhalt => hhalt.notCalm trivial
  intro l p hassign
  rw [unset, List.length_replicate]
  exact h.inside l ⟨p, hassign.assigns⟩

theorem getBlockListExtents_iff (h : InodeTree v m.device inode t level n)
    (hdepth : level ≤ depth) (hleft : m.left = none) :
    (getBlockListExtents v depth inode (unset n)).Ends
        (fun after _ => Stored t.Assigns (unset n) after) (fun _ _ => False) m ↔
      t.OnlyFirst ∧ (t.hasEntries = true → v.info.blockSize.val ≤ maxExt4BlockSize) := by
  constructor
  · intro hall
    have hbs : t.hasEntries = true → v.info.blockSize.val ≤ maxExt4BlockSize := fun hentries => by
      by_contra hlarge
      have hcrash := getBlockListExtents_crashes (m := m) h hdepth hentries (not_le.mp hlarge) (unset n)
      exact ((hall.and hcrash).mono (fun _ _ h => h.2) fun _ _ h => h.1).false
    refine ⟨h.wellFormed.onlyFirst_iff.mpr fun l p hassign => ?_, hbs⟩
    by_contra hnot
    refine ((hall.and (getBlockListExtents_ends h hdepth hleft hbs)).mono ?_ fun _ _ h => h.1).false
    rintro after _ ⟨hstored, hfirst⟩
    have hplace := hstored.assigned l p hassign
    have hother : ∀ q, ¬ t.FirstAssigns l q := fun q hq => by
      rw [h.wellFormed.functional hassign hq.assigns] at hnot
      exact hnot hq
    rw [hfirst.others l hother, unset, List.getElem?_replicate] at hplace
    split at hplace <;> cases hplace
  · rintro ⟨honly, hbs⟩
    have hfirst := h.wellFormed.onlyFirst_iff.mp honly
    exact (getBlockListExtents_ends h hdepth hleft hbs).post fun after _ hstored =>
      hstored.congr fun l p => ⟨hfirst l p, ExtentTree.FirstAssigns.assigns⟩

end Inode

section Example

def smallVolume : Volume := { noVolume with info := { noInfo with blockSize := 1024 } }

def twoLeaves : ExtentTree :=
  .index (fun i : Fin 2 => i.val + 1) fun i => .leaf [⟨i.val, 1, 0, 10 + i.val⟩]

def twoLeavesImage : Disk := imageOf 3072
  [(1024, 2, 0xF30A), (1026, 2, 1), (1028, 2, 84), (1040, 2, 1), (1044, 4, 10),
    (2048, 2, 0xF30A), (2050, 2, 1), (2052, 2, 84), (2060, 4, 1), (2064, 2, 1), (2068, 4, 11)]

def twoLeavesInode : Buffer := (imageOf sizeofExt4Inode
  [(40, 2, 0xF30A), (42, 2, 2), (44, 2, 4), (46, 2, 1), (56, 4, 1), (64, 4, 1), (68, 4, 2)]).toBuffer

theorem twoLeaves_tree : InodeTree smallVolume twoLeavesImage twoLeavesInode twoLeaves 1 2 where
  held := by
    refine ⟨by decide, by decide, by decide, by decide +kernel, by decide +kernel,
      by decide +kernel, fun i => ⟨?_, ?_, ?_⟩⟩
    · revert i
      decide +kernel
    · revert i
      decide +kernel
    · refine ⟨rfl, le_rfl, (by decide : 24 ≤ 1024), ?_, ?_, ?_, ?_⟩ <;> revert i <;> decide +kernel
  wellFormed := by
    refine ⟨fun i => ⟨List.pairwise_singleton _ _, ?_⟩, ?_⟩
    · rintro e he
      obtain rfl := List.mem_singleton.mp he
      have := i.isLt
      dsimp only
      omega
    · rintro i j hij l ⟨p, e, he, k, hk, rfl, -⟩ ⟨q, e', he', k', hk', heq, -⟩
      obtain rfl := List.mem_singleton.mp he
      obtain rfl := List.mem_singleton.mp he'
      dsimp only at hk hk' heq
      exact hij (Fin.ext (by omega))
  inside := by
    rintro l ⟨p, i, e, he, k, hk, rfl, -⟩
    obtain rfl := List.mem_singleton.mp he
    have := i.isLt
    dsimp only at hk ⊢
    omega
  offsets := by decide

theorem second_leaf_unset : ¬ ∀ (v : Volume) (inode : Buffer) (t : ExtentTree) (level n depth : Nat)
    (m : Machine), InodeTree v m.device inode t level n → level ≤ depth → m.left = none →
      (getBlockListExtents v depth inode (unset n)).Ends
        (fun after _ => Stored t.Assigns (unset n) after) (fun _ _ => False) m := by
  intro h
  have hall := h smallVolume twoLeavesInode twoLeaves 1 2 1 (.start twoLeavesImage none)
    twoLeaves_tree le_rfl rfl
  have hfirst := getBlockListExtents_ends twoLeaves_tree le_rfl rfl (fun _ => by decide)
    (m := .start twoLeavesImage none)
  refine ((hall.and hfirst).mono ?_ fun _ _ h => h.1).false
  rintro after _ ⟨hstored, hfirst⟩
  have hassigned : twoLeaves.Assigns 1 11 := ⟨1, _, List.mem_singleton_self _, 0, by decide, rfl, rfl⟩
  have hplace := hstored.assigned 1 11 hassigned
  rw [hfirst.others 1] at hplace
  · cases hplace
  · rintro p ⟨i, hi, e, he, j, hj, heq, -⟩
    obtain rfl := List.mem_singleton.mp he
    dsimp only at hj heq
    omega

theorem getBlockListExtents_twoLeaves :
    (getBlockListExtents smallVolume 1 twoLeavesInode (unset 2)).Ends
        (fun after _ => Stored twoLeaves.Assigns (unset 2) after) (fun _ _ => False)
        (.start twoLeavesImage none) ↔
      twoLeaves.OnlyFirst ∧ (twoLeaves.hasEntries = true → (1024 : Nat) ≤ maxExt4BlockSize) :=
  getBlockListExtents_iff (m := .start twoLeavesImage none) twoLeaves_tree le_rfl rfl

end Example

end MakeExt4fs

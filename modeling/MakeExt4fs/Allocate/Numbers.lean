import MakeExt4fs.Allocate.Frames

namespace MakeExt4fs

open ErrorLog Words

structure BlockGroupInfo.InodesTaken (ipg t : Nat) (b : BlockGroupInfo) : Prop where
  free : b.freeInodes = ipg - t
  first : t < ipg → b.firstFreeInode = t + 1
  bits : ∀ i, b.inodeBitmap.testBit i = decide (i < t)

def takenIn (ipg k g : Nat) : Nat := min ipg (k - g * ipg)

structure InodesNumbered (info : FsInfo) (k : Nat) (aux : FsAuxInfo) : Prop where
  length : aux.bgs.length = aux.groups
  taken : ∀ g (b : BlockGroupInfo), aux.bgs[g]? = some b →
    b.InodesTaken info.inodesPerGroup.val (takenIn info.inodesPerGroup.val k g)

def BlockGroupInfo.giveInodes (b : BlockGroupInfo) (num : Nat) : BlockGroupInfo :=
  { b with
    inodeBitmap := setInodeBits (sub32 b.firstFreeInode 1) num b.inodeBitmap
    firstFreeInode := u32 (b.firstFreeInode + num)
    freeInodes := b.freeInodes - num }

section Group

variable {ipg t num : Nat} {b : BlockGroupInfo} {aux : FsAuxInfo} {g : Nat} {l : List Ext4Error}

theorem testBit_setInodeBits (inode n bitmap i : Nat) :
    (setInodeBits inode n bitmap).testBit i =
      (bitmap.testBit i || decide (inode ≤ i ∧ i < inode + n)) := by
  induction n generalizing inode bitmap with
  | zero => simp [setInodeBits]
  | succ n ih =>
    rw [setInodeBits, ih, Nat.testBit_or, testBit_spanMask, Bool.or_assoc, ← Bool.decide_or]
    congr 2
    apply propext
    omega

theorem BlockGroupInfo.InodesTaken.give (h : b.InodesTaken ipg t) (hnum : 0 < num)
    (hroom : t + num ≤ ipg) (hipg : ipg < 4294967296) :
    (b.giveInodes num).InodesTaken ipg (t + num) := by
  have hfirst := h.first (by omega)
  refine ⟨?_, ?_, ?_⟩
  · change b.freeInodes - num = _
    rw [h.free]
    omega
  · intro hlt
    change u32 (b.firstFreeInode + num) = _
    rw [hfirst, u32_of_lt (by omega)]
    omega
  · intro i
    change (setInodeBits (sub32 b.firstFreeInode 1) num b.inodeBitmap).testBit i = _
    rw [hfirst, sub32_of_le (by omega) (by omega), testBit_setInodeBits, h.bits, ← Bool.decide_or]
    congr 1
    apply propext
    omega

theorem setBg_self (hb : aux.bgs[g]? = some b) : aux.setBg g b = aux := by
  obtain ⟨hlt, hget⟩ := List.getElem?_eq_some_iff.mp hb
  rw [FsAuxInfo.setBg, ← hget, List.set_getElem_self]

theorem reserveInodes_run (h : b.InodesTaken ipg t) (hb : aux.bgs[g]? = some b) (hnum : 0 < num)
    (hroom : t + num ≤ ipg) :
    reserveInodes g num (aux, l) = .ok (t + 1, (aux.setBg g (b.giveInodes num), l)) := by
  have hfree : ¬ b.freeInodes < num := by
    rw [h.free]
    omega
  have hfirst := h.first (by omega)
  simp only [reserveInodes, onGroup, Run.zoom, hb, Run.bind_run, Run.read_run, if_neg hfree,
    Run.write_run, Run.pure_run, hfirst]
  simp only [BlockGroupInfo.giveInodes, hfirst]

theorem reserveInodes_full (h : b.InodesTaken ipg t) (hb : aux.bgs[g]? = some b) (hnum : 0 < num)
    (hfull : ipg < t + num) :
    reserveInodes g num (aux, l) = .ok (ext4AllocateFailed, (aux, l)) := by
  have hfree : b.freeInodes < num := by
    rw [h.free]
    omega
  simp only [reserveInodes, onGroup, Run.zoom, hb, Run.bind_run, Run.read_run, if_pos hfree,
    Run.pure_run, setBg_self hb]

end Group

section Groups

variable {info : FsInfo} {k g : Nat} {aux : FsAuxInfo} {l : List Ext4Error}

theorem takenIn_of_full {ipg : Nat} (h : (g + 1) * ipg ≤ k) : takenIn ipg k g = ipg := by
  rw [Nat.succ_mul] at h
  rw [takenIn]
  omega

theorem takenIn_of_empty {ipg : Nat} (h : k ≤ g * ipg) : takenIn ipg k g = 0 := by
  rw [takenIn]
  omega

theorem takenIn_last {ipg : Nat} (hipg : 0 < ipg) : takenIn ipg k (k / ipg) = k % ipg := by
  have hmod := Nat.mod_lt k hipg
  have hdiv := Nat.div_add_mod' k ipg
  rw [takenIn]
  omega

theorem takenIn_succ {ipg : Nat} (hipg : 0 < ipg) :
    takenIn ipg (k + 1) g = if g = k / ipg then takenIn ipg k g + 1 else takenIn ipg k g := by
  have hmod := Nat.mod_lt k hipg
  have hdiv := Nat.div_add_mod' k ipg
  split
  · rename_i hg
    subst hg
    rw [takenIn, takenIn]
    omega
  · rename_i hg
    rcases Nat.lt_or_gt_of_ne hg with hlt | hgt
    · have hle : (g + 1) * ipg ≤ k / ipg * ipg := Nat.mul_le_mul_right ipg hlt
      rw [takenIn_of_full (by omega), takenIn_of_full (by omega)]
    · have hle : (k / ipg + 1) * ipg ≤ g * ipg := Nat.mul_le_mul_right ipg hgt
      rw [Nat.succ_mul] at hle
      rw [takenIn_of_empty (by omega), takenIn_of_empty (by omega)]

def FsAuxInfo.giveInode (info : FsInfo) (k : Nat) (aux : FsAuxInfo) : FsAuxInfo :=
  match aux.bgs[k / info.inodesPerGroup.val]? with
  | none => aux
  | some b => aux.setBg (k / info.inodesPerGroup.val) (b.giveInodes 1)

theorem InodesNumbered.group (h : InodesNumbered info k aux) (hk : k < info.inodesPerGroup.val * aux.groups) :
    ∃ b, aux.bgs[k / info.inodesPerGroup.val]? = some b := by
  have hlt : k / info.inodesPerGroup.val < aux.bgs.length := by
    rw [h.length]
    exact Nat.div_lt_of_lt_mul hk
  exact ⟨_, List.getElem?_eq_getElem hlt⟩

theorem InodesNumbered.give (h : InodesNumbered info k aux) (hpos : 0 < info.inodesPerGroup.val)
    (hk : k < info.inodesPerGroup.val * aux.groups) : InodesNumbered info (k + 1) (aux.giveInode info k) := by
  obtain ⟨b, hb⟩ := h.group hk
  have hlast := takenIn_last (k := k) hpos
  have hmod := Nat.mod_lt k hpos
  rw [FsAuxInfo.giveInode, hb]
  refine ⟨by simp [FsAuxInfo.setBg, h.length], ?_⟩
  intro g b' hb'
  rw [FsAuxInfo.setBg_bgs, List.getElem?_set] at hb'
  rw [takenIn_succ hpos]
  split at hb'
  · rename_i hg
    subst hg
    rw [if_pos rfl]
    split at hb'
    · cases hb'
      exact (h.taken _ b hb).give Nat.one_pos (by omega) info.inodesPerGroup.isLt
    · cases hb'
  · rename_i hg
    rw [if_neg (Ne.symm hg)]
    exact h.taken g b' hb'

theorem allocateInodeFrom_run (h : InodesNumbered info k aux) (hpos : 0 < info.inodesPerGroup.val)
    (hk : k < info.inodesPerGroup.val * aux.groups) (hnumber : k + 1 < ext4AllocateFailed) {m : Nat}
    (hm : g + m = aux.groups) (hg : g ≤ k / info.inodesPerGroup.val) :
    allocateInodeFrom info (List.range' g m) (aux, l) = .ok (k + 1, (aux.giveInode info k, l)) := by
  have hlt : k / info.inodesPerGroup.val < aux.groups := Nat.div_lt_of_lt_mul hk
  unfold ext4AllocateFailed at hnumber
  induction m generalizing g with
  | zero => omega
  | succ m ih =>
    obtain ⟨b, hb⟩ : ∃ b, aux.bgs[g]? = some b :=
      ⟨_, List.getElem?_eq_getElem (by rw [h.length]; omega)⟩
    have htaken := h.taken g b hb
    rw [List.range'_succ, allocateInodeFrom, Run.bind_run]
    rcases Nat.lt_or_eq_of_le hg with hlt' | rfl
    · have hle : (g + 1) * info.inodesPerGroup.val ≤ k :=
        (Nat.mul_le_mul_right _ hlt').trans (Nat.div_mul_le_self _ _)
      rw [takenIn_of_full hle] at htaken
      rw [reserveInodes_full htaken hb Nat.one_pos (Nat.lt_succ_self _)]
      simp only [ne_eq, not_true, if_false]
      exact ih (by omega) (by omega)
    · have hmod := Nat.mod_lt k hpos
      have hdiv := Nat.div_add_mod' k info.inodesPerGroup.val
      rw [takenIn_last hpos] at htaken
      have hne : k % info.inodesPerGroup.val + 1 ≠ ext4AllocateFailed := by
        unfold ext4AllocateFailed
        omega
      rw [reserveInodes_run htaken hb Nat.one_pos (by omega)]
      simp only [ne_eq, hne, not_false_eq_true, if_true, Run.pure_run]
      rw [u32_of_lt (by omega), FsAuxInfo.giveInode, hb, ← Nat.add_assoc, hdiv]

theorem allocateInode_run (h : InodesNumbered info k aux) (hpos : 0 < info.inodesPerGroup.val)
    (hk : k < info.inodesPerGroup.val * aux.groups) (hnumber : k + 1 < ext4AllocateFailed) :
    allocateInode info (aux, l) = .ok (k + 1, (aux.giveInode info k, l)) := by
  have hrun := @allocateInodeFrom_run info k 0 aux l h hpos hk hnumber _ (Nat.zero_add _)
    (Nat.zero_le _)
  rw [← List.range_eq_range'] at hrun
  rw [allocateInode, Run.bind_run, Run.read_run]
  exact hrun

theorem allocateInodeFrom_full (h : InodesNumbered info k aux)
    (hk : info.inodesPerGroup.val * aux.groups ≤ k) {gs : List Nat} (hgs : ∀ g ∈ gs, g < aux.groups) :
    allocateInodeFrom info gs (aux, l) = .ok (ext4AllocateFailed, (aux, l)) := by
  induction gs with
  | nil => rfl
  | cons g rest ih =>
    have hg := hgs g List.mem_cons_self
    obtain ⟨b, hb⟩ : ∃ b, aux.bgs[g]? = some b :=
      ⟨_, List.getElem?_eq_getElem (by rw [h.length]; exact hg)⟩
    have hle : (g + 1) * info.inodesPerGroup.val ≤ k := by
      rw [Nat.mul_comm]
      exact (Nat.mul_le_mul_left _ hg).trans hk
    have htaken := h.taken g b hb
    rw [takenIn_of_full hle] at htaken
    rw [allocateInodeFrom, Run.bind_run, reserveInodes_full htaken hb Nat.one_pos (Nat.lt_succ_self _)]
    simp only [ne_eq, not_true, if_false]
    exact ih fun x hx => hgs x (List.mem_cons_of_mem g hx)

theorem allocateInode_full (h : InodesNumbered info k aux)
    (hk : info.inodesPerGroup.val * aux.groups ≤ k) :
    allocateInode info (aux, l) = .ok (ext4AllocateFailed, (aux, l)) := by
  rw [allocateInode, Run.bind_run, Run.read_run]
  exact allocateInodeFrom_full h hk fun g hg => List.mem_range.mp hg

end Groups

section Frame

variable {info : FsInfo} {aux aux' : FsAuxInfo} {l l' : List Ext4Error}

def BlockGroupInfo.withoutInodes (b : BlockGroupInfo) : BlockGroupInfo :=
  { b with inodeBitmap := 0, freeInodes := 0, firstFreeInode := 0 }

structure InodesOnly (aux aux' : FsAuxInfo) : Prop where
  same : aux' = { aux with bgs := aux'.bgs }
  others : aux'.bgs.map BlockGroupInfo.withoutInodes = aux.bgs.map BlockGroupInfo.withoutInodes

instance : IsPreorder FsAuxInfo InodesOnly where
  refl _ := ⟨rfl, rfl⟩
  trans _ _ _ h h' := ⟨by rw [h'.same, h.same], h'.others.trans h.others⟩

theorem setBg_inodesOnly {g num : Nat} {b : BlockGroupInfo} (hb : aux.bgs[g]? = some b) :
    InodesOnly aux (aux.setBg g (b.giveInodes num)) := by
  refine ⟨rfl, ?_⟩
  rw [FsAuxInfo.setBg_bgs]
  exact map_set_same hb rfl

theorem giveInode_inodesOnly (info : FsInfo) (k : Nat) (aux : FsAuxInfo) :
    InodesOnly aux (aux.giveInode info k) := by
  rw [FsAuxInfo.giveInode]
  split
  · exact refl_of InodesOnly aux
  · rename_i b hb
    exact setBg_inodesOnly hb

theorem InodesOnly.groups (h : InodesOnly aux aux') : aux'.groups = aux.groups := by rw [h.same]

theorem InodesOnly.inodeTable (h : InodesOnly aux aux') (g : Nat) :
    aux'.bgs[g]?.map BlockGroupInfo.inodeTable = aux.bgs[g]?.map BlockGroupInfo.inodeTable := by
  have hmap := congrArg (fun bgs => bgs[g]?.map BlockGroupInfo.inodeTable) h.others
  simp only [List.getElem?_map, Option.map_map] at hmap
  exact hmap

end Frame

section First

variable {info : FsInfo} {num : Nat} {aux : FsAuxInfo} {b : BlockGroupInfo} {l : List Ext4Error}

theorem InodesNumbered.reserve (h : InodesNumbered info 0 aux) (hb : aux.bgs[0]? = some b) (hnum : 0 < num)
    (hroom : num ≤ info.inodesPerGroup.val) : InodesNumbered info num (aux.setBg 0 (b.giveInodes num)) := by
  have hfirst := h.taken 0 b hb
  rw [takenIn_of_empty (Nat.zero_le _)] at hfirst
  refine ⟨by simp [FsAuxInfo.setBg, h.length], ?_⟩
  intro g b' hb'
  rw [FsAuxInfo.setBg_bgs, List.getElem?_set] at hb'
  split at hb'
  · rename_i hg
    subst hg
    have htaken : takenIn info.inodesPerGroup.val num 0 = 0 + num := by
      rw [takenIn]
      omega
    rw [htaken]
    split at hb'
    · cases hb'
      exact hfirst.give hnum (by omega) info.inodesPerGroup.isLt
    · cases hb'
  · rename_i hg
    have hle : 1 * info.inodesPerGroup.val ≤ g * info.inodesPerGroup.val :=
      Nat.mul_le_mul_right _ (by omega)
    have htaken := h.taken g b' hb'
    rw [takenIn_of_empty (Nat.zero_le _)] at htaken
    rwa [takenIn_of_empty (by omega)]

theorem reserveInodes_first (h : InodesNumbered info 0 aux) (hb : aux.bgs[0]? = some b) (hnum : 0 < num)
    (hroom : num ≤ info.inodesPerGroup.val) :
    reserveInodes 0 num (aux, l) = .ok (1, (aux.setBg 0 (b.giveInodes num), l)) := by
  have hfirst := h.taken 0 b hb
  rw [takenIn_of_empty (Nat.zero_le _)] at hfirst
  exact reserveInodes_run hfirst hb hnum (by omega)

end First

def allocateInodes (info : FsInfo) : Nat → Alloc (List Nat)
  | 0 => return []
  | k + 1 => do
    let ns ← allocateInodes info k
    return ns ++ [← allocateInode info]

def takeInodes (info : FsInfo) (k : Nat) : Alloc (Nat × List Nat) := do
  let first ← reserveInodes 0 10
  return (first, ← allocateInodes info k)

section Runs

variable {info : FsInfo} {k c m : Nat} {aux : FsAuxInfo} {l : List Ext4Error}

theorem allocateInodes_run (h : InodesNumbered info c aux) (hpos : 0 < info.inodesPerGroup.val)
    (hk : c + k ≤ info.inodesPerGroup.val * aux.groups) (hnumber : c + k < ext4AllocateFailed) :
    ∃ aux', allocateInodes info k (aux, l) = .ok (List.range' (c + 1) k, (aux', l)) ∧
      InodesNumbered info (c + k) aux' ∧ InodesOnly aux aux' := by
  induction k with
  | zero => exact ⟨aux, rfl, h, refl_of InodesOnly aux⟩
  | succ k ih =>
    obtain ⟨aux1, hrun, hnum, honly⟩ := ih (by omega) (by omega)
    have hroom : c + k < info.inodesPerGroup.val * aux1.groups := by
      rw [honly.groups]
      omega
    refine ⟨aux1.giveInode info (c + k), ?_, hnum.give hpos hroom,
      trans_of InodesOnly honly (giveInode_inodesOnly info _ _)⟩
    have hone := @allocateInode_run info (c + k) aux1 l hnum hpos hroom (by omega)
    simp only [allocateInodes, Run.bind_run, hrun, hone, Run.pure_run]
    rw [List.range'_1_concat, Nat.add_right_comm c 1 k]

theorem allocateInodes_full (h : InodesNumbered info c aux)
    (hfull : info.inodesPerGroup.val * aux.groups ≤ c) (m : Nat) :
    allocateInodes info m (aux, l) = .ok (List.replicate m ext4AllocateFailed, (aux, l)) := by
  induction m with
  | zero => rfl
  | succ m ih =>
    simp only [allocateInodes, Run.bind_run, ih, allocateInode_full h hfull, Run.pure_run]
    rw [List.replicate_succ']

theorem allocateInodes_add (k m : Nat) (st : FsAuxInfo × List Ext4Error) :
    allocateInodes info (k + m) st =
      (do return (← allocateInodes info k) ++ (← allocateInodes info m)) st := by
  induction m with
  | zero => simp [allocateInodes]
  | succ m ih =>
    rw [← Nat.add_assoc, allocateInodes, Run.bind_congr_run ih]
    simp only [allocateInodes, bind_assoc, pure_bind, List.append_assoc]

end Runs

end MakeExt4fs

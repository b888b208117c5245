import MakeExt4fs.Allocate.Numbers
import MakeExt4fs.Allocate.Ownership
import MakeExt4fs.Contents.Journal

namespace MakeExt4fs

open ErrorLog Words

def clearBits (bits n : Nat) : Nat := (List.range n).countP fun i => !bits.testBit i

section Bits

variable {ipg t bpg hdr lim : Nat} {b : BlockGroupInfo}

theorem countP_between (n lo hi : Nat) :
    (List.range n).countP (fun i => decide (lo ≤ i ∧ i < hi)) = min hi n - lo := by
  induction n with
  | zero => simp
  | succ n ih =>
    rw [List.range_succ, List.countP_append, ih, List.countP_singleton]
    by_cases h : lo ≤ n ∧ n < hi
    · rw [if_pos (decide_eq_true h)]
      omega
    · rw [if_neg (by rw [decide_eq_true_eq]; exact h)]
      omega

theorem clearBits_eq {bits n lo hi : Nat} (hhi : hi ≤ n)
    (h : ∀ i < n, (!bits.testBit i) = decide (lo ≤ i ∧ i < hi)) : clearBits bits n = hi - lo := by
  have hcount := countP_between n lo hi
  rw [Nat.min_eq_left hhi] at hcount
  rw [clearBits, ← hcount]
  apply List.countP_congr
  intro i hi
  rw [h i (List.mem_range.mp hi)]

theorem BlockGroupInfo.InodesTaken.clear (h : b.InodesTaken ipg t) :
    clearBits b.inodeBitmap ipg = b.freeInodes := by
  rw [h.free]
  apply clearBits_eq le_rfl
  intro i hi
  rw [h.bits, ← decide_not]
  apply decide_eq_decide.mpr
  omega

theorem BlockGroupInfo.Sound.clear (h : b.Sound bpg hdr lim) :
    clearBits b.blockBitmap bpg = b.freeBlocks := by
  rw [h.free]
  apply clearBits_eq h.lim_le
  intro i hi
  rw [h.bits, ← decide_not]
  apply decide_eq_decide.mpr
  omega

end Bits

section Sums

variable {info : FsInfo} {k : Nat} {aux : FsAuxInfo}

theorem free_sum (ipg k n : Nat) :
    ((List.range n).map fun g => ipg - takenIn ipg k g).sum = ipg * n - k := by
  induction n with
  | zero => simp
  | succ n ih =>
    have hcomm := Nat.mul_comm n ipg
    rw [List.range_succ, List.map_append, List.sum_append, ih, List.map_singleton,
      List.sum_singleton, takenIn, Nat.mul_succ]
    omega

theorem InodesNumbered.free_sum (h : InodesNumbered info k aux) :
    (aux.bgs.map BlockGroupInfo.freeInodes).sum = info.inodesPerGroup.val * aux.groups - k := by
  rw [← MakeExt4fs.free_sum]
  refine congrArg List.sum (List.ext_getElem? fun g => ?_)
  rw [List.getElem?_map, List.getElem?_map]
  cases hb : aux.bgs[g]? with
  | none =>
    have hge := List.getElem?_eq_none_iff.mp hb
    rw [h.length] at hge
    rw [List.getElem?_eq_none (by rw [List.length_range]; exact hge)]
    rfl
  | some b =>
    have hlt := (List.getElem?_eq_some_iff.mp hb).1
    rw [h.length] at hlt
    rw [List.getElem?_range hlt]
    exact congrArg some (h.taken g b hb).free

end Sums

structure UpdatedTo (aux0 : FsAuxInfo) (k : Nat) (aux : FsAuxInfo) : Prop where
  same : aux = { aux0 with
    bgDesc := aux.bgDesc
    sb := { aux0.sb with
      sFreeBlocksCountLo := aux.sb.sFreeBlocksCountLo
      sFreeInodesCount := aux.sb.sFreeInodesCount } }
  blocks : aux.sb.sFreeBlocksCountLo = u32 ((aux0.bgs.take k).map BlockGroupInfo.freeBlocks).sum
  inodes : aux.sb.sFreeInodesCount = u32 ((aux0.bgs.take k).map BlockGroupInfo.freeInodes).sum
  descs : ∀ i < k, ∃ b desc, aux0.bgs[i]? = some b ∧ aux0.bgDesc[i]? = some desc ∧
    aux.bgDesc[i]? = some (updatedDesc aux0.sb.sUuid i b desc)
  later : ∀ i, k ≤ i → aux.bgDesc[i]? = aux0.bgDesc[i]?

section Updating

variable {aux aux' aux0 : FsAuxInfo} {k : Nat} {l l' : List Ext4Error}

theorem u32_add_sum {xs : List Nat} {x : Nat} :
    u32 (u32 xs.sum + x) = u32 (xs ++ [x]).sum := by
  rw [List.sum_append, List.sum_singleton]
  exact Nat.mod_add_mod _ _ _

theorem UpdatedTo.step (h : UpdatedTo aux0 k aux) {b : BlockGroupInfo} {desc : Ext2GroupDesc}
    (hb : aux.bgs[k]? = some b) (hdesc : aux.bgDesc[k]? = some desc) :
    UpdatedTo aux0 (k + 1) { aux with
      bgDesc := aux.bgDesc.set k (updatedDesc aux.sb.sUuid k b desc)
      sb := { aux.sb with
        sFreeBlocksCountLo := u32 (aux.sb.sFreeBlocksCountLo + b.freeBlocks)
        sFreeInodesCount := u32 (aux.sb.sFreeInodesCount + b.freeInodes) } } := by
  have hsame := h.same
  have hbgs : aux.bgs = aux0.bgs := by rw [hsame]
  have huuid : aux.sb.sUuid = aux0.sb.sUuid := by rw [hsame]
  rw [hbgs] at hb
  obtain ⟨hlt, -⟩ := List.getElem?_eq_some_iff.mp hdesc
  have htake : aux0.bgs.take (k + 1) = aux0.bgs.take k ++ [b] := by
    rw [List.take_add_one, hb]
    rfl
  refine ⟨?_, ?_, ?_, ?_, ?_⟩
  · rw [hsame]
  · rw [htake, List.map_append, h.blocks]
    exact u32_add_sum
  · rw [htake, List.map_append, h.inodes]
    exact u32_add_sum
  · intro i hi
    rcases Nat.lt_succ_iff_lt_or_eq.mp hi with hi | rfl
    · obtain ⟨c, d, hc, hd, hset⟩ := h.descs i hi
      exact ⟨c, d, hc, hd, (List.getElem?_set_ne (by omega)).trans hset⟩
    · refine ⟨b, desc, hb, (h.later i le_rfl).symm.trans hdesc, ?_⟩
      rw [← huuid]
      exact List.getElem?_set_self hlt
  · intro i hi
    exact (List.getElem?_set_ne (by omega)).trans (h.later i (by omega))

theorem updateFreeGroup_meets (h : UpdatedTo aux0 k aux) : Run.Meets (fun _ => False)
    (updateFreeGroup k) (fun _ aux' l' => l' = l ∧ UpdatedTo aux0 (k + 1) aux') aux l := by
  rw [updateFreeGroup, Run.meets_bind, Run.meets_read, Run.meets_bind, Run.meets_expect]
  intro b hb
  rw [Run.meets_bind, Run.meets_expect]
  intro desc hdesc
  exact ⟨rfl, h.step hb hdesc⟩

theorem ext4UpdateFree_ok (hblocks : aux.sb.sFreeBlocksCountLo = 0)
    (hinodes : aux.sb.sFreeInodesCount = 0)
    (h : ext4UpdateFree (aux, l) = .ok ((), (aux', l'))) :
    l' = l ∧ UpdatedTo aux aux.groups aux' := by
  have hmeets : Run.Meets (fun _ => False) ext4UpdateFree
      (fun _ aux' l' => l' = l ∧ UpdatedTo aux aux.groups aux') aux l := by
    rw [ext4UpdateFree, Run.meets_bind, Run.meets_read]
    refine Run.meets_each_range (fun k s l' => l' = l ∧ UpdatedTo aux k s) ?_ ?_
    · rintro i - s l' ⟨rfl, hs⟩
      exact updateFreeGroup_meets hs
    · refine ⟨rfl, rfl, ?_, ?_, by simp, fun _ _ => rfl⟩
      · rw [hblocks]
        rfl
      · rw [hinodes]
        rfl
  exact hmeets.ok h

end Updating

end MakeExt4fs

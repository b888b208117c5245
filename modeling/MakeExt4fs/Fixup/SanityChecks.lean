import MakeExt4fs.Fixup.Calm
import MakeExt4fs.Fixup.Untouched

namespace MakeExt4fs

open ErrorLog Interrupt Words

section Checks

variable (v : Volume) (newInodesPerGroup : Nat) (d : Disk) (descs : Buffer)

structure ChecksOut : Prop where
  blockSize_le : v.info.blockSize.val ≤ maxExt4BlockSize
  descThere : ∀ i < numBlockGroups v, 32 * i + 8 ≤ descs.size
  bitmapThere : ∀ i < numBlockGroups v,
    (bgInodeBitmap i).get descs * v.info.blockSize.val + v.info.blockSize.val ≤ d.size
  bitmapFits : newInodesPerGroup ≤ 8 * v.info.blockSize.val
  inodeCount : u32 (sInodesCount.get (d.view 1024 1024) + u32 (numBlockGroups v *
      sub32 newInodesPerGroup (sInodesPerGroup.get (d.view 1024 1024)))) =
    u32 (newInodesPerGroup * numBlockGroups v)
  perBlock : v.info.inodeSize.val ≠ 0 ∧ v.info.blockSize.val / v.info.inodeSize.val ≠ 0
  aligned : newInodesPerGroup % (v.info.blockSize.val / v.info.inodeSize.val) = 0
  copies : ∀ i < v.aux.groups, ext4BgHasSuperBlock v.info i = true →
    u64 (groupOffset v i + u32 (v.info.blockSize.val * u32 (v.aux.firstDataBlock + 1))) <
      9223372036854775808

instance : Decidable (ChecksOut v newInodesPerGroup d descs) :=
  decidable_of_iff (v.info.blockSize.val ≤ maxExt4BlockSize ∧
      (∀ i < numBlockGroups v, 32 * i + 8 ≤ descs.size) ∧
      (∀ i < numBlockGroups v,
        (bgInodeBitmap i).get descs * v.info.blockSize.val + v.info.blockSize.val ≤ d.size) ∧
      newInodesPerGroup ≤ 8 * v.info.blockSize.val ∧
      u32 (sInodesCount.get (d.view 1024 1024) + u32 (numBlockGroups v *
        sub32 newInodesPerGroup (sInodesPerGroup.get (d.view 1024 1024)))) =
          u32 (newInodesPerGroup * numBlockGroups v) ∧
      (v.info.inodeSize.val ≠ 0 ∧ v.info.blockSize.val / v.info.inodeSize.val ≠ 0) ∧
      newInodesPerGroup % (v.info.blockSize.val / v.info.inodeSize.val) = 0 ∧
      ∀ i < v.aux.groups, ext4BgHasSuperBlock v.info i = true →
        u64 (groupOffset v i + u32 (v.info.blockSize.val * u32 (v.aux.firstDataBlock + 1))) <
          9223372036854775808)
    ⟨fun ⟨h1, h2, h3, h4, h5, h6, h7, h8⟩ => ⟨h1, h2, h3, h4, h5, h6, h7, h8⟩,
      fun ⟨h1, h2, h3, h4, h5, h6, h7, h8⟩ => ⟨h1, h2, h3, h4, h5, h6, h7, h8⟩⟩

variable {v newInodesPerGroup d descs} {calm : Prop} {m : Machine}

theorem checkInodeBitmap_calm (hchecks : ChecksOut v newInodesPerGroup d descs)
    (hsize : d.size ≤ 9223372036854775808) (hbs : 0 < v.info.blockSize.val) {i : Nat}
    (hi : i < numBlockGroups v) (h : At calm (d, descs) m) :
    (checkInodeBitmap v true i newInodesPerGroup).Ends (fun _ m' => At calm (d, descs) m')
      (fun _ m' => Halted calm (d, descs) m') m := by
  have hdesc : (bgInodeBitmap i).off + (bgInodeBitmap i).size ≤ (d, descs).2.size :=
    hchecks.descThere i hi
  have hfits := hchecks.bitmapFits
  rw [checkInodeBitmap, Act.ends_bind]
  refine (getDesc_calm h hdesc).post ?_
  rintro _ m1 ⟨rfl, h1⟩
  rw [if_neg (not_lt.mpr hchecks.blockSize_le), Act.ends_bind]
  refine (readBlock_calm (by exact hsize) hbs (by exact hchecks.bitmapThere i hi) h1).post ?_
  rintro block m2 ⟨rfl, h2⟩
  rw [Act.ends_bind]
  refine (Act.ends_fold (P := fun b m' => b.1.size = v.info.blockSize.val ∧ At calm (d, descs) m') _
    ?_ ⟨rfl, h2⟩).post ?_
  · rintro bit hbit ⟨b, updated⟩ m3 ⟨hb, h3⟩
    rw [List.mem_range'_1] at hbit
    dsimp only at hb ⊢
    rw [if_pos (by omega)]
    refine .ite (fun _ => ⟨?_, h3⟩) fun _ => ⟨hb, h3⟩
    exact hb
  · rintro ⟨b, updated⟩ m3 ⟨-, h3⟩
    exact .ite (fun _ => h3) fun _ => h3

theorem updateSuperblock_calm (hchecks : ChecksOut v newInodesPerGroup d descs) {sb : Buffer} {i : Nat}
    (hi : i < v.aux.groups) {E : Stop FixupError → Machine → Prop} (h : At calm (d, descs) m) :
    (updateSuperblock v true sb i).Ends (fun _ m' => At calm (d, descs) m') E m := by
  refine .ite (fun hcopy => ?_) fun _ => h
  rw [if_neg (by simp), Act.ends_bind]
  refine (lseekOr_calm _ (hchecks.copies i hi hcopy) h).post fun _ m1 h1 => ?_
  exact h1.2

theorem updateSuperblocksAndBgDesc_calm (hchecks : calm → ChecksOut v newInodesPerGroup d descs)
    (hthere : 2048 ≤ d.size) (hsize : d.size ≤ 9223372036854775808) (hbs : 0 < v.info.blockSize.val)
    (h : At calm (d, descs) m) :
    (updateSuperblocksAndBgDesc v true .unset newInodesPerGroup).Ends
      (fun _ m' => At calm (d, descs) m') (fun _ m' => Halted calm (d, descs) m') m := by
  by_cases hcalm : calm
  · have hchecks := hchecks hcalm
    rw [updateSuperblocksAndBgDesc, Act.ends_bind]
    refine (readSb_calm h hthere).post ?_
    rintro sb m1 ⟨rfl, h1⟩
    dsimp only
    rw [Act.ends_bind]
    refine (Act.ends_each (P := fun m' => At calm (d, descs) m') _ ?_ h1).post ?_
    · intro i hi m2 h2
      exact checkInodeBitmap_calm hchecks hsize hbs (List.mem_range.mp hi) h2
    · intro _ m2 h2
      rw [if_neg (not_not.mpr hchecks.inodeCount), if_neg (not_or.mpr hchecks.perBlock),
        if_neg (not_not.mpr hchecks.aligned), Act.ends_bind]
      refine (Act.ends_fold (P := fun _ m' => At calm (d, descs) m') _ ?_ h2).post fun _ _ h => h
      exact fun i hi sb m3 h3 => updateSuperblock_calm hchecks (List.mem_range.mp hi) h3
  · refine (updateSuperblocksAndBgDesc_reads v newInodesPerGroup).ends ?_ ?_
    · exact fun _ m' _ h' => ⟨h'.trans h.stored, fun hc => absurd hc hcalm⟩
    · exact fun _ m' h' => ⟨h'.trans h.stored, hcalm⟩

end Checks

end MakeExt4fs

import MakeExt4fs.Utils.Geometry

namespace MakeExt4fs

open Words

def backupGroups (info : FsInfo) (groups : Nat) : List Nat :=
  (List.range groups).filter (ext4BgHasSuperBlock info)

def FsInfo.SparseSuper (info : FsInfo) : Prop :=
  info.featRoCompat.val &&& ext4FeatureRoCompatSparseSuper ≠ 0

theorem isPowerOfLoop_pow {fuel : Nat} {a : Int} {b : Nat}
    (h : isPowerOfLoop fuel a b = true) : ∃ k, a = b ^ (k + 1) := by
  induction fuel generalizing a with
  | zero => simp [isPowerOfLoop] at h
  | succ fuel ih =>
    rw [isPowerOfLoop] at h
    split at h
    · rw [Bool.and_eq_true, beq_iff_eq] at h
      obtain ⟨k, hk⟩ := ih h.2
      refine ⟨k + 1, ?_⟩
      rw [← Int.mul_ediv_cancel_of_emod_eq_zero h.1, hk, pow_succ' _ (k + 1)]
    · exact ⟨0, by simpa using h⟩

theorem s32_eq_natCast {i n : Nat} (hi : i < 4294967296) (h : s32 i = n) : i = n := by
  simp only [s32, u32_of_lt hi] at h
  split at h <;> omega

theorem s32_lt (i : Nat) : s32 i < 2147483648 := by
  have := u32_lt i
  unfold s32
  split <;> omega

theorem power_of_superblock {i b : Nat} (hi : i < 4294967296)
    (h : isPowerOf (s32 i) b = true) : ∃ k, i = b ^ (k + 1) ∧ b ^ (k + 1) < 2147483648 := by
  obtain ⟨k, hk⟩ := isPowerOfLoop_pow h
  have hlt := s32_lt i
  rw [hk] at hlt
  exact ⟨k, s32_eq_natCast hi (by rw [hk]; push_cast; rfl), by exact_mod_cast hlt⟩

theorem superblock_cases {info : FsInfo} {i : Nat} (hsparse : info.SparseSuper)
    (hi : i < 4294967296) (h : ext4BgHasSuperBlock info i = true) :
    i = 0 ∨ i = 1 ∨ ∃ b k, (b = 3 ∨ b = 5 ∨ b = 7) ∧ i = b ^ (k + 1) ∧
      b ^ (k + 1) < 2147483648 := by
  unfold ext4BgHasSuperBlock at h
  rw [if_neg hsparse] at h
  split at h
  · rename_i hlow
    rcases hlow with h0 | h1
    · exact Or.inl (s32_eq_natCast hi h0)
    · exact Or.inr (Or.inl (s32_eq_natCast hi h1))
  · simp only [Bool.or_eq_true] at h
    rcases h with (h | h) | h
    · obtain ⟨k, hk⟩ := power_of_superblock (b := 3) hi h
      exact Or.inr (Or.inr ⟨3, k, Or.inl rfl, hk⟩)
    · obtain ⟨k, hk⟩ := power_of_superblock (b := 5) hi h
      exact Or.inr (Or.inr ⟨5, k, Or.inr (Or.inl rfl), hk⟩)
    · obtain ⟨k, hk⟩ := power_of_superblock (b := 7) hi h
      exact Or.inr (Or.inr ⟨7, k, Or.inr (Or.inr rfl), hk⟩)

def sparseGroups : List Nat :=
  [0, 1] ++ (List.range 19).map (fun k => 3 ^ (k + 1)) ++
    (List.range 13).map (fun k => 5 ^ (k + 1)) ++ (List.range 11).map (fun k => 7 ^ (k + 1))

theorem exponent_lt {b k n : Nat} (hb : 0 < b) (hlt : b ^ (k + 1) < 2147483648)
    (hn : 2147483648 ≤ b ^ (n + 1)) : k < n := by
  by_contra hge
  have := Nat.pow_le_pow_right hb (show n + 1 ≤ k + 1 by omega)
  omega

theorem mem_sparseGroups {info : FsInfo} {i : Nat} (hsparse : info.SparseSuper)
    (hi : i < 4294967296) (h : ext4BgHasSuperBlock info i = true) : i ∈ sparseGroups := by
  simp only [sparseGroups, List.mem_append, List.mem_map, List.mem_range]
  rcases superblock_cases hsparse hi h with rfl | rfl | ⟨b, k, hb, rfl, hlt⟩
  · simp
  · simp
  · rcases hb with rfl | rfl | rfl
    · exact Or.inl (Or.inl (Or.inr ⟨k, exponent_lt (by decide) hlt (by decide), rfl⟩))
    · exact Or.inl (Or.inr ⟨k, exponent_lt (by decide) hlt (by decide), rfl⟩)
    · exact Or.inr ⟨k, exponent_lt (by decide) hlt (by decide), rfl⟩

theorem length_backupGroups_le {info : FsInfo} {groups : Nat} (hsparse : info.SparseSuper)
    (hgroups : groups ≤ 4294967296) : (backupGroups info groups).length ≤ 45 := by
  have hsub : backupGroups info groups ⊆ sparseGroups := by
    intro i hi
    obtain ⟨hrange, hsb⟩ := List.mem_filter.mp hi
    exact mem_sparseGroups hsparse (by have := List.mem_range.mp hrange; omega) hsb
  have hnodup : (backupGroups info groups).Nodup := List.nodup_range.filter _
  exact (hnodup.subperm hsub).length_le

theorem backupGroups_head {info : FsInfo} {groups : Nat} (hpos : 0 < groups) :
    (backupGroups info groups)[0]? = some 0 := by
  obtain ⟨n, rfl⟩ : ∃ n, groups = n + 1 := ⟨groups - 1, by omega⟩
  have hzero : ext4BgHasSuperBlock info 0 = true := by
    unfold ext4BgHasSuperBlock
    split
    · rfl
    · rfl
  rw [backupGroups, List.range_succ_eq_map, List.filter_cons_of_pos hzero]
  rfl

end MakeExt4fs

import MakeExt4fs.Fixup.Prepare
import MakeExt4fs.Fixup.Recurse
import MakeExt4fs.Fixup.Untouched

namespace MakeExt4fs

open ErrorLog Interrupt Words

def numberingPhases (depth : Nat) (p : Prepared) : Fixup Unit := do
  let checked ← sanityIfUnset depth false p
  if checked then
    setFsFixupState false .markingInums
  inUpdatePhase false .markingInums
    (markPhase p.volume depth false p.rootInode p.dirsize p.newInodesPerGroup)
  inUpdatePhase false .updatingInums
    (updatePhase p.volume depth false p.rootInode p.dirsize p.newInodesPerGroup)

theorem ext4fixupInternal_eq (depth : Nat) (old : FsInfo) (force : Bool) :
    ext4fixupInternal depth old force false = (do
      let p ← prepare old force
      numberingPhases depth p
      inUpdatePhase false .updatingSb (superblockPhase p.volume false p.newInodesPerGroup)) := by
  simp only [ext4fixupInternal, untilMarking, numberingPhases, writingPhases, bind_assoc, pure_bind]
  refine bind_congr fun p => bind_congr fun checked => ?_
  split <;> simp only [bind_assoc]

def renumber (depth : Nat) (old : FsInfo) (force : Bool) (newInodesPerGroup : Nat) : Fixup Unit := do
  let p ← prepare old force
  numberingPhases depth { p with newInodesPerGroup }

@[irreducible] def stateOf (d : Disk) : FixupState := .ofMagic (d.getLE 0 8)

-- The images that any number of runs leads to, each of which may be stopped before any of its reads
-- and writes.
inductive Restarted (depth : Nat) (old : FsInfo) (force : Bool) (newInodesPerGroup : Nat) (d0 : Disk) :
    Disk → Prop
  | first : Restarted depth old force newInodesPerGroup d0 d0
  | again {d : Disk} (h : Restarted depth old force newInodesPerGroup d0 d) (left : Option Nat) :
    Restarted depth old force newInodesPerGroup d0
      (renumber depth old force newInodesPerGroup (.start d left)).2.device

section State

structure StateChanged (d d' : Disk) : Prop where
  size : d'.size = d.size
  same : ∀ a, 8 ≤ a → a < 1278 ∨ 1280 ≤ a → d'.get a = d.get a
  descSize : d'.getLE 1278 2 &&& 0xfffe = d.getLE 1278 2 &&& 0xfffe

variable {d d' d'' : Disk} {calm : Prop} {descs : Buffer} {m : Machine}

theorem StateChanged.refl (d : Disk) : StateChanged d d := ⟨rfl, fun _ _ _ => rfl, rfl⟩

theorem StateChanged.trans (h : StateChanged d d') (h' : StateChanged d' d'') :
    StateChanged d d'' :=
  ⟨h'.size.trans h.size, fun a h1 h2 => (h'.same a h1 h2).trans (h.same a h1 h2),
    h'.descSize.trans h.descSize⟩

theorem StateChanged.changedIn (h : StateChanged d d') {bs : Nat} {blocks : List Nat} {off : Nat}
    (hbs : 0 < bs) (hbehind : ∀ b ∈ blocks, 2048 ≤ b * bs) (hoff : off < blocks.length * bs) :
    d'.get (dirAddr bs blocks off) = d.get (dirAddr bs blocks off) := by
  obtain ⟨i, k, hi, hk, rfl⟩ := exists_block hbs hoff
  have := hbehind _ (getD_mem hi)
  rw [dirAddr_block hk]
  exact h.same _ (by omega) (by omega)

theorem setUnmountable_get {sb : Buffer} {unmountable : Bool} {i : Nat} (h : i < 254 ∨ 256 ≤ i) :
    (setUnmountable sb unmountable).get i = sb.get i :=
  Buffer.get_putLE_of_apart _ _ _ _ _ (by simpa only [sDescSize] using h)

theorem setUnmountable_descSize {sb : Buffer} {unmountable : Bool} (hsize : 256 ≤ sb.size) :
    sDescSize.get (setUnmountable sb unmountable) &&& 0xfffe = sDescSize.get sb &&& 0xfffe := by
  have hput (x : Nat) : sDescSize.get (sDescSize.put sb x) = x % 65536 :=
    Buffer.getLE_putLE sb 254 2 x hsize
  have hmask : (0xfffe : Nat) % 65536 = 0xfffe := rfl
  rw [setUnmountable, hput]
  apply Nat.eq_of_testBit_eq
  intro k
  have hmod (x : Nat) : (x % 65536).testBit k = (decide (k < 16) && x.testBit k) :=
    Nat.testBit_mod_two_pow x 16 k
  have h1 : Nat.testBit 1 k = decide (k < 1) := by
    have hspan := testBit_spanMask 0 1 k
    have heq : spanMask 0 1 = 1 := rfl
    rw [heq] at hspan
    simpa using hspan
  have hfe : Nat.testBit 0xfffe k = (decide (0 < k) && decide (k < 16)) := by
    have hspan := testBit_spanMask 1 15 k
    have heq : spanMask 1 15 = 0xfffe := rfl
    rw [heq] at hspan
    rw [hspan, Bool.decide_and]
    rfl
  cases unmountable
  · simp only [Nat.testBit_and, hmod, hfe, Bool.false_eq_true, if_false]
    cases hk : decide (k < 16) <;> simp
  · simp only [Nat.testBit_and, Nat.testBit_or, hmod, hfe, h1, if_true]
    rcases Nat.eq_zero_or_pos k with rfl | hk
    · simp
    · cases hlt : decide (k < 16) <;> simp [hk, hk.ne']

theorem setFsFixupState_calm {state : FixupState} (hsize : 2048 ≤ d.size) (h : At calm (d, descs) m) :
    (setFsFixupState false state).Ends
      (fun _ m' => ∃ d', StateChanged d d' ∧ stateOf d' = state ∧ At calm (d', descs) m')
      (fun _ m' => ∃ d', StateChanged d d' ∧ (d' = d ∨ stateOf d' = state) ∧
        Halted calm (d', descs) m') m := by
  rw [setFsFixupState, if_neg (by decide), Act.ends_bind]
  refine (lseek_calm (by norm_num) h).post fun _ m1 ⟨_, hpos, h1⟩ => ?_
  rw [Act.ends_bind]
  refine (writeHere_calm _ hpos h1).mono ?_ fun _ m' h' => ⟨d, .refl d, .inl rfl, h'⟩
  intro _ m2 h2
  dsimp only at h2
  have hword : StateChanged d (d.writeAt 0 ((Buffer.zeros 8).putLE 0 8 state.magic)) := by
    refine ⟨?_, fun a ha _ => Disk.get_writeAt_of_not_mem (by simpa using ha), ?_⟩
    · rw [Disk.size_writeAt]
      simp
      omega
    · rw [Disk.getLE_writeAt_of_apart (by simp)]
  have hstate : stateOf (d.writeAt 0 ((Buffer.zeros 8).putLE 0 8 state.magic)) = state := by
    have hlt : state.magic % 256 ^ 8 = state.magic := Nat.mod_eq_of_lt state.magic_lt
    rw [stateOf, Disk.getLE_writeAt_within (Nat.zero_le _) (by simp), Nat.sub_zero,
      Buffer.getLE_putLE _ _ _ _ (by simp), hlt, FixupState.ofMagic_magic]
  generalize d.writeAt 0 ((Buffer.zeros 8).putLE 0 8 state.magic) = d1 at h2 hword hstate
  have hsize1 : 2048 ≤ d1.size := by rw [hword.size]; exact hsize
  rw [Act.ends_bind]
  refine (readSb_calm h2 hsize1).mono ?_ fun _ m' h' => ⟨d1, hword, .inr hstate, h'⟩
  rintro sb m3 ⟨rfl, h3⟩
  rw [writeSb, Act.ends_bind]
  refine (lseekOr_calm _ (by norm_num) h3).post fun _ m4 ⟨hpos, h4⟩ => ?_
  refine (writeHere_calm _ hpos h4).mono (fun _ m5 h5 => ?_) fun _ m' h' => ⟨d1, hword, .inr hstate, h'⟩
  dsimp only at h5
  have hput (u : Bool) : (setUnmountable (d1.view 1024 1024) u).size = 1024 := rfl
  refine ⟨_, ?_, ?_, h5⟩
  · refine hword.trans ⟨?_, fun a _ ha => ?_, ?_⟩
    · rw [Disk.size_writeAt, hput]
      omega
    · by_cases hin : 1024 ≤ a ∧ a < 2048
      · rw [Disk.get_writeAt_of_mem (by rw [hput]; omega), setUnmountable_get (by omega),
          Buffer.get_view (by omega), Nat.add_sub_cancel' hin.1]
      · exact Disk.get_writeAt_of_not_mem (by rw [hput]; omega)
    · have hview : sDescSize.get (d1.view 1024 1024) = d1.getLE 1278 2 :=
        Buffer.getLE_view (by decide)
      rw [Disk.getLE_writeAt_within (by norm_num) (by rw [hput]; norm_num), ← hview]
      exact setUnmountable_descSize (show 256 ≤ 1024 by decide)
  · rw [← hstate, stateOf, stateOf, Disk.getLE_writeAt_of_apart (.inl (by norm_num))]

end State

end MakeExt4fs

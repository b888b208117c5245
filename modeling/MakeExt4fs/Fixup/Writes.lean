import MakeExt4fs.Fixup.Reads

namespace MakeExt4fs

open ErrorLog Interrupt Words

section Sites

variable (v : Volume) (descs : Buffer)

def sbOffset (i : Nat) : Nat := u64 (groupOffset v i + if i = 0 then 1024 else 0)

def tableOffset (i : Nat) : Nat :=
  u64 (groupOffset v i + u32 (v.info.blockSize.val * u32 (v.aux.firstDataBlock + 1)))

def bitmapOffset (i : Nat) : Nat := u64 ((bgInodeBitmap i).get descs * v.info.blockSize.val)

def BitmapSite (w : Nat × Buffer) : Prop :=
  ∃ i < numBlockGroups v, w.1 = bitmapOffset v descs i ∧ w.2.size = v.info.blockSize.val

def GroupSite (k : Nat) (w : Nat × Buffer) : Prop :=
  ∃ i < k, ext4BgHasSuperBlock v.info i = true ∧
    (w.1 = sbOffset v i ∧ w.2.size = 1024 ∨ w.1 = tableOffset v i ∧ w.2.size = descsSize v)

def Site (w : Nat × Buffer) : Prop := BitmapSite v descs w ∨ GroupSite v v.aux.groups w

structure Checking (m : Machine) : Prop where
  bitmaps : ∀ i, (bgInodeBitmap i).get m.bgDesc = (bgInodeBitmap i).get descs
  sites : ∀ w ∈ m.written, BitmapSite v descs w

structure CopyOf (newInodesPerGroup i : Nat) (sb : Buffer) : Prop where
  size : sb.size = 1024
  blockGroupNr : sBlockGroupNr.get sb = u16 i
  inodesPerGroup : sInodesPerGroup.get sb = u32 newInodesPerGroup

structure Placing (newInodesPerGroup k : Nat) (sb : Buffer) (m : Machine) : Prop where
  size : sb.size = 1024
  inodesPerGroup : sInodesPerGroup.get sb = u32 newInodesPerGroup
  sites : ∀ w ∈ m.written, BitmapSite v descs w ∨ GroupSite v k w
  copies : ∀ i < k, ext4BgHasSuperBlock v.info i = true →
    ∃ sb, (sbOffset v i, sb) ∈ m.written ∧ CopyOf newInodesPerGroup i sb
  tables : ∀ i < k, ext4BgHasSuperBlock v.info i = true →
    ∃ table, (tableOffset v i, table) ∈ m.written ∧ table.size = descsSize v

end Sites

section Loops

variable {v : Volume} {descs : Buffer} {m : Machine} {newInodesPerGroup : Nat}

theorem GroupSite.mono {k k' : Nat} {w : Nat × Buffer} (h : GroupSite v k w) (hk : k ≤ k') :
    GroupSite v k' w := by
  obtain ⟨i, hi, hw⟩ := h
  exact ⟨i, hi.trans_le hk, hw⟩

theorem Checking.site (h : Checking v descs m) : ∀ w ∈ m.written, Site v descs w :=
  fun w hw => .inl (h.sites w hw)

theorem Placing.site {k : Nat} {sb : Buffer} (h : Placing v descs newInodesPerGroup k sb m)
    (hk : k ≤ v.aux.groups) : ∀ w ∈ m.written, Site v descs w :=
  fun w hw => (h.sites w hw).imp_right fun hw => hw.mono hk

theorem getDesc_keeps {f : Field} {E : Stop FixupError → Machine → Prop} (he : ∀ e, E e m) :
    (getDesc f).Ends (fun n m' => n = f.get m.bgDesc ∧ m' = m) E m := by
  rw [getDesc, Act.ends_bind, Act.ends_read]
  split
  · exact ⟨rfl, rfl⟩
  · exact he _

theorem setDesc_checking {i n : Nat} (h : Checking v descs m) :
    (setDesc (bgFreeInodesCount i) n).Ends (fun _ m' => Checking v descs m')
      (fun _ m' => Checking v descs m') m := by
  rw [setDesc, Act.ends_bind, Act.ends_read]
  split
  · refine ⟨fun j => ?_, h.sites⟩
    rw [← h.bitmaps j]
    refine Buffer.getLE_putLE_of_apart _ _ _ _ _ _ ?_
    simp only [bgInodeBitmap, bgFreeInodesCount]
    omega
  · exact h

theorem readBlock_checking {blockNum : Nat} (h : Checking v descs m) :
    (readBlock v blockNum).Ends
      (fun block m' => block.size = v.info.blockSize.val ∧ Checking v descs m')
      (fun _ m' => Checking v descs m') m := by
  rw [readBlock, Act.ends_bind]
  have hread (m1 : Machine) (h1 : Checking v descs m1) :
      (readHere (.readBlock blockNum) (.readBlock blockNum) v.info.blockSize.val).Ends
        (fun block m' => block.size = v.info.blockSize.val ∧ Checking v descs m')
        (fun _ m' => Checking v descs m') m1 :=
    readHere_ends (fun left _ => ⟨rfl, h1.bitmaps, h1.sites⟩) fun e left => ⟨h1.bitmaps, h1.sites⟩
  exact lseek_ends (fun _ => hread _ ⟨h.bitmaps, h.sites⟩) fun _ => hread m h

theorem clearBits_checking {clear : Buffer × Bool → Nat → Fixup (Buffer × Bool)} {bits : List Nat}
    {p : Buffer × Bool} (hsize : p.1.size = v.info.blockSize.val) (h : Checking v descs m)
    (hclear : ∀ p i m, Checking v descs m → (clear p i).Ends
      (fun p' m' => p'.1.size = p.1.size ∧ m' = m) (fun _ m' => m' = m) m) :
    (Act.fold bits clear p).Ends
      (fun p m' => p.1.size = v.info.blockSize.val ∧ Checking v descs m')
      (fun _ m' => Checking v descs m') m := by
  refine Act.ends_fold bits (P := fun (p : Buffer × Bool) m' =>
    p.1.size = v.info.blockSize.val ∧ Checking v descs m') ?_ ⟨hsize, h⟩
  rintro i - p m1 ⟨h1, h2⟩
  refine (hclear p i m1 h2).mono ?_ ?_
  · rintro p' m' ⟨hp, rfl⟩
    exact ⟨hp.trans h1, h2⟩
  · rintro e m' rfl
    exact h2

theorem checkInodeBitmap_checking {i : Nat} (hi : i < numBlockGroups v)
    (h : Checking v descs m) :
    (checkInodeBitmap v false i newInodesPerGroup).Ends (fun _ m' => Checking v descs m')
      (fun _ m' => Checking v descs m') m := by
  rw [checkInodeBitmap, Act.ends_bind]
  refine (getDesc_keeps fun _ => h).post ?_
  rintro blockNum m1 ⟨hblock, rfl⟩
  refine .ite (fun _ => h) fun _ => ?_
  rw [Act.ends_bind]
  refine (readBlock_checking h).post fun block m2 ⟨hsize, h2⟩ => ?_
  rw [Act.ends_bind]
  refine (clearBits_checking (p := (block, false)) hsize h2 ?_).post fun p m3 ⟨hsize3, h3⟩ => ?_
  · rintro ⟨block, updated⟩ j m2 -
    exact .ite (fun _ => .ite (fun _ => ⟨rfl, rfl⟩) fun _ => ⟨rfl, rfl⟩) fun _ => rfl
  refine .ite (fun _ => ?_) fun _ => h3
  rw [writeBlock, if_neg (by decide), Act.ends_bind]
  refine lseekOr_ends (fun _ => ?_) h3
  refine writeHere_ends (fun left => ⟨h3.bitmaps, fun w hw => ?_⟩) ⟨h3.bitmaps, h3.sites⟩
  rcases List.mem_append.mp hw with hw | hw
  · exact h3.sites w hw
  · rw [List.mem_singleton.mp hw]
    exact ⟨i, hi, by rw [hblock, h.bitmaps i]; rfl, hsize3⟩

def copyFor (sb : Buffer) (i : Nat) : Buffer :=
  if i ≠ 0 then setUnmountable (sBlockGroupNr.put sb i) false else sBlockGroupNr.put sb i

theorem copyFor_of {sb : Buffer} (i : Nat) (hsize : sb.size = 1024)
    (hinodes : sInodesPerGroup.get sb = u32 newInodesPerGroup) :
    CopyOf newInodesPerGroup i (copyFor sb i) := by
  have hnumber : sBlockGroupNr.get (sBlockGroupNr.put sb i) = u16 i :=
    Buffer.getLE_putLE _ _ _ _ (by rw [hsize]; decide)
  have hsame : sInodesPerGroup.get (sBlockGroupNr.put sb i) = sInodesPerGroup.get sb :=
    Buffer.getLE_putLE_of_apart _ _ _ _ _ _ (by decide)
  rw [copyFor]
  split
  · refine ⟨hsize, Eq.trans ?_ hnumber, Eq.trans ?_ (hsame.trans hinodes)⟩
    · exact Buffer.getLE_putLE_of_apart _ _ _ _ _ _ (by decide)
    · exact Buffer.getLE_putLE_of_apart _ _ _ _ _ _ (by decide)
  · exact ⟨hsize, hnumber, hsame.trans hinodes⟩

theorem writeHere_written (e : FixupError) (src : Buffer) :
    (writeHere e src).Ends (fun _ m' => m'.written = m.written ++ [(m.pos, src)])
      (fun _ m' => m'.written = m.written) m :=
  writeHere_ends (fun _ => rfl) rfl

theorem updateSuperblock_written (k : Nat) (sb : Buffer) :
    (updateSuperblock v false sb k).Ends
      (fun sb' m' => if ext4BgHasSuperBlock v.info k = true then
          sb' = copyFor sb k ∧ ∃ table, table.size = descsSize v ∧ m'.written =
            m.written ++ [(sbOffset v k, copyFor sb k), (tableOffset v k, table)]
        else sb' = sb ∧ m'.written = m.written)
      (fun _ m' => ext4BgHasSuperBlock v.info k = true ∧ (m'.written = m.written ∨
        m'.written = m.written ++ [(sbOffset v k, copyFor sb k)])) m := by
  by_cases hsb : ext4BgHasSuperBlock v.info k = true
  · have hrun : updateSuperblock v false sb k = (do
        writeSb (sbOffset v k) (copyFor sb k)
        lseekOr .seekDescs (tableOffset v k)
        let m ← Act.read
        writeHere .writeDescs (m.bgDesc.view 0 (descsSize v))
        return copyFor sb k) := if_pos hsb
    simp only [if_pos hsb]
    rw [hrun, Act.ends_bind, writeSb, Act.ends_bind]
    refine lseekOr_ends (fun _ => ?_) ⟨hsb, .inl rfl⟩
    refine (writeHere_written _ _).mono (fun _ m1 h1 => ?_) fun _ _ h1 => ⟨hsb, .inl h1⟩
    rw [Act.ends_bind]
    refine lseekOr_ends (fun _ => ?_) ⟨hsb, .inr h1⟩
    rw [Act.ends_bind, Act.ends_read, Act.ends_bind]
    refine (writeHere_written _ _).mono (fun _ m2 h2 => ?_) fun _ _ h2 => ⟨hsb, .inr (h2.trans h1)⟩
    refine ⟨rfl, m1.bgDesc.view 0 (descsSize v), rfl, h2.trans ?_⟩
    simp only [h1, List.append_assoc, List.cons_append, List.nil_append]
  · have hrun : updateSuperblock v false sb k = (return sb) := if_neg hsb
    simp only [if_neg hsb]
    rw [hrun]
    exact ⟨rfl, rfl⟩

theorem updateSuperblock_placing {k : Nat} {sb : Buffer} (hk : k < v.aux.groups)
    (h : Placing v descs newInodesPerGroup k sb m) :
    (updateSuperblock v false sb k).Ends (Placing v descs newInodesPerGroup (k + 1))
      (fun _ m' => ∀ w ∈ m'.written, Site v descs w) m := by
  have hcopy := copyFor_of k h.size h.inodesPerGroup
  refine (updateSuperblock_written k sb).mono (fun sb' m' hdone => ?_) fun e m' hstop w hw => ?_
  · split at hdone
    · rename_i hsb
      obtain ⟨rfl, table, hsize, hwritten⟩ := hdone
      have hold {w : Nat × Buffer} (hw : w ∈ m.written) : w ∈ m'.written := by
        rw [hwritten]
        exact List.mem_append_left _ hw
      refine ⟨hcopy.size, hcopy.inodesPerGroup, fun w hw => ?_, fun i hi hi' => ?_,
        fun i hi hi' => ?_⟩
      · rw [hwritten] at hw
        rcases List.mem_append.mp hw with hw | hw
        · exact (h.sites w hw).imp_right fun hw => hw.mono (by omega)
        · refine .inr ⟨k, by omega, hsb, ?_⟩
          rcases List.mem_cons.mp hw with rfl | hw
          · exact .inl ⟨rfl, hcopy.size⟩
          · rw [List.mem_singleton.mp hw]
            exact .inr ⟨rfl, hsize⟩
      · rcases Nat.lt_succ_iff_lt_or_eq.mp hi with hi | rfl
        · obtain ⟨copy, hmem, hof⟩ := h.copies i hi hi'
          exact ⟨copy, hold hmem, hof⟩
        · exact ⟨_, by simp [hwritten], hcopy⟩
      · rcases Nat.lt_succ_iff_lt_or_eq.mp hi with hi | rfl
        · obtain ⟨table, hmem, hof⟩ := h.tables i hi hi'
          exact ⟨table, hold hmem, hof⟩
        · exact ⟨table, by simp [hwritten], hsize⟩
    · rename_i hsb
      obtain ⟨rfl, hwritten⟩ := hdone
      have hlast {P : Nat → Prop} (hP : ∀ i < k, ext4BgHasSuperBlock v.info i = true → P i) :
          ∀ i < k + 1, ext4BgHasSuperBlock v.info i = true → P i := fun i hi hi' => by
        rcases Nat.lt_succ_iff_lt_or_eq.mp hi with hi | rfl
        · exact hP i hi hi'
        · exact absurd hi' hsb
      refine ⟨h.size, h.inodesPerGroup, fun w hw => ?_, hlast ?_, hlast ?_⟩
      · rw [hwritten] at hw
        exact (h.sites w hw).imp_right fun hw => hw.mono (by omega)
      · rw [hwritten]
        exact h.copies
      · rw [hwritten]
        exact h.tables
  · obtain ⟨hsb, hwritten | hwritten⟩ := hstop
    · rw [hwritten] at hw
      exact h.site hk.le w hw
    · rw [hwritten] at hw
      rcases List.mem_append.mp hw with hw | hw
      · exact h.site hk.le w hw
      · rw [List.mem_singleton.mp hw]
        exact .inr ⟨k, hk, hsb, .inl ⟨rfl, hcopy.size⟩⟩

theorem readSb_keeps {E : Stop FixupError → Machine → Prop}
    (he : ∀ e m', m'.written = m.written → E e m') :
    readSb.Ends (fun sb m' => sb = m.device.view 1024 1024 ∧ m'.bgDesc = m.bgDesc ∧
      m'.written = m.written) E m := by
  rw [readSb, Act.ends_bind]
  refine lseekOr_ends (fun _ => ?_) (he _ _ rfl)
  exact readHere_ends (fun left _ => ⟨rfl, rfl, rfl⟩) fun e left => he _ _ rfl

def InodesAdded (v : Volume) (newInodesPerGroup : Nat) (sb : Buffer) : Prop :=
  u32 (sInodesCount.get sb +
    u32 (numBlockGroups v * sub32 newInodesPerGroup (sInodesPerGroup.get sb))) =
      u32 (newInodesPerGroup * numBlockGroups v)

theorem updateSuperblocksAndBgDesc_written (state : FixupState) (hnone : m.written = []) :
    (updateSuperblocksAndBgDesc v false state newInodesPerGroup).Ends
      (fun _ m' => InodesAdded v newInodesPerGroup (m.device.view 1024 1024) ∧
        ∃ sb, Placing v m.bgDesc newInodesPerGroup v.aux.groups sb m')
      (fun _ m' => ∀ w ∈ m'.written, Site v m.bgDesc w) m := by
  rw [updateSuperblocksAndBgDesc, Act.ends_bind]
  refine (readSb_keeps ?_).post ?_
  · intro e m' hwritten w hw
    rw [hwritten, hnone] at hw
    cases hw
  rintro sb m1 ⟨rfl, hdesc, hwritten⟩
  have h1 : Checking v m.bgDesc m1 := by
    refine ⟨fun i => by rw [hdesc], fun w hw => ?_⟩
    rw [hwritten, hnone] at hw
    cases hw
  rw [Act.ends_bind]
  have hloop : (Act.each (List.range (numBlockGroups v)) fun i => do
      if state = .updatingSb then
        setDesc (bgFreeInodesCount i) ((← getDesc (bgFreeInodesCount i)) +
          sub32 newInodesPerGroup (sInodesPerGroup.get (m.device.view 1024 1024)))
      checkInodeBitmap v false i newInodesPerGroup).Ends
        (fun _ m' => Checking v m.bgDesc m') (fun _ m' => Checking v m.bgDesc m') m1 := by
    refine Act.ends_each _ (fun i hi m2 h2 => ?_) h1
    have hi := List.mem_range.mp hi
    refine .ite (fun _ => ?_) fun _ => checkInodeBitmap_checking hi h2
    rw [Act.ends_bind]
    refine (getDesc_keeps fun _ => h2).post ?_
    rintro n m3 ⟨-, rfl⟩
    rw [Act.ends_bind]
    exact (setDesc_checking h2).post fun _ m4 h4 => checkInodeBitmap_checking hi h4
  refine hloop.mono (fun _ m2 h2 => ?_) fun _ m2 h2 => h2.site
  refine .ite (fun _ => h2.site) fun hcount => .ite (fun _ => h2.site) fun _ => ?_
  refine .ite (fun _ => h2.site) fun _ => ?_
  have hadded : InodesAdded v newInodesPerGroup (m.device.view 1024 1024) := not_not.mp hcount
  rw [Act.ends_bind]
  refine (Act.ends_fold_range (Placing v m.bgDesc newInodesPerGroup)
    (fun k hk sb m3 h3 => updateSuperblock_placing hk h3) ⟨rfl, ?_, fun w hw => .inl (h2.sites w hw),
      fun i hi => absurd hi (Nat.not_lt_zero i), fun i hi => absurd hi (Nat.not_lt_zero i)⟩).post
    fun sb m3 h3 => ⟨hadded, sb, h3⟩
  exact Buffer.getLE_putLE _ _ _ _ (show 44 ≤ 1024 by norm_num)

end Loops

end MakeExt4fs

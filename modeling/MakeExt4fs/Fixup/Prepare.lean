import MakeExt4fs.Fixup.Calm

namespace MakeExt4fs

open ErrorLog Interrupt Words

def descsAt (v : Volume) : Nat := u32 (v.info.blockSize.val * u32 (v.aux.firstDataBlock + 1))

def descsOf (v : Volume) (d : Disk) : Buffer :=
  (Buffer.zeros (v.info.blockSize.val * v.aux.bgDescBlocks)).blit 0
    (d.view (descsAt v) (descsSize v))

def sbAt (d : Disk) : Ext4SuperBlock := superBlockAt (d.view 1024 sizeofSuperBlock)

structure PreparedFrom (old : FsInfo) (force : Bool) (d : Disk) (p : Prepared) : Prop where
  sbThere : 2048 ≤ d.size
  parsed : ∀ m, ext4ParseSbInfo old force (sbAt d) m = (.ok p.volume, m)
  endThere : (if (ext4ParseSb (sbAt d) old).isSome then lengthOf (sbAt d)
    else p.volume.info.len.val) < 9223372036854775808
  descsThere : descsAt p.volume + descsSize p.volume ≤ d.size
  descsRead : descsSize p.volume ≤ maxRead
  clean : p.volume.info.featIncompat.val &&& ext4FeatureIncompatRecover = 0
  descSize : ¬ (p.volume.aux.sb.sDescSize &&& 0xfffe ≠ sizeofExt2GroupDesc ∧
    p.volume.aux.sb.sDescSize &&& 0xfffe ≠ 0)
  filetype : p.volume.info.featIncompat.val &&& ext4FeatureIncompatFiletype ≠ 0
  perBlock : ¬ (p.volume.info.inodeSize.val = 0 ∨
    p.volume.info.blockSize.val / p.volume.info.inodeSize.val = 0)
  inodesPerGroup_pos : 0 < p.volume.info.inodesPerGroup.val
  rootThere : InodeThere p.volume.info (descsOf p.volume d) d ext4RootIno
  rootDir : sIsdir (iMode.get p.rootInode) = true
  newInodesPerGroup : p.newInodesPerGroup =
    u32 (p.volume.info.blockSize.val / p.volume.info.inodeSize.val *
      divRoundUp32 p.volume.info.inodesPerGroup.val
        (p.volume.info.blockSize.val / p.volume.info.inodeSize.val))
  rootInode : p.rootInode = inodeAt p.volume.info (descsOf p.volume d) d ext4RootIno
  dirsize : p.dirsize = s32 (iBlocksLo.get p.rootInode * inodeBlockSize)

section Parse

theorem ext4ParseSbInfo_run {old : FsInfo} {force : Bool} {sb : Ext4SuperBlock} {v : Volume}
    {m m' : Machine} (h : ext4ParseSbInfo old force sb m = (.ok v, m')) :
    m' = m ∧ ∀ m, ext4ParseSbInfo old force sb m = (.ok v, m) := by
  unfold ext4ParseSbInfo at h ⊢
  by_cases hmagic : sb.sMagic ≠ ext4SuperMagic ∧ (!force) = true
  · rw [if_pos hmagic] at h
    cases h
  · rw [if_neg hmagic] at h ⊢
    by_cases hstate : sb.sState &&& ext4ValidFs ≠ ext4ValidFs ∧ (!force) = true
    · rw [if_pos hstate] at h
      cases h
    · rw [if_neg hstate] at h ⊢
      cases haux : ext4InitFsAuxInfo ((ext4ParseSb sb old).getD old) with
      | none =>
        simp only [haux] at h
        cases h
      | some aux =>
        simp only [haux, Act.expect, pure_bind] at h ⊢
        by_cases hfirst : aux.firstDataBlock ≠ sb.sFirstDataBlock
        · rw [if_pos hfirst] at h
          cases h
        · rw [if_neg hfirst] at h ⊢
          cases h
          exact ⟨rfl, fun _ => rfl⟩

theorem ext4ParseSbInfo_descSize {old : FsInfo} {force : Bool} {sb : Ext4SuperBlock} {v : Volume}
    {m : Machine} (h : ext4ParseSbInfo old force sb m = (.ok v, m)) (x : Nat) :
    ext4ParseSbInfo old force { sb with sDescSize := x } m =
      (.ok ⟨v.info, { v.aux with sb := { sb with sDescSize := x } }⟩, m) ∧ v.aux.sb = sb := by
  have hparse : ext4ParseSb { sb with sDescSize := x } old = ext4ParseSb sb old := rfl
  unfold ext4ParseSbInfo at h ⊢
  simp only [hparse]
  by_cases hmagic : sb.sMagic ≠ ext4SuperMagic ∧ (!force) = true
  · rw [if_pos hmagic] at h
    cases h
  · rw [if_neg hmagic] at h ⊢
    by_cases hstate : sb.sState &&& ext4ValidFs ≠ ext4ValidFs ∧ (!force) = true
    · rw [if_pos hstate] at h
      cases h
    · rw [if_neg hstate] at h ⊢
      cases haux : ext4InitFsAuxInfo ((ext4ParseSb sb old).getD old) with
      | none =>
        simp only [haux] at h
        cases h
      | some aux =>
        simp only [haux, Act.expect, pure_bind] at h ⊢
        by_cases hfirst : aux.firstDataBlock ≠ sb.sFirstDataBlock
        · rw [if_pos hfirst] at h
          cases h
        · rw [if_neg hfirst] at h ⊢
          cases h
          exact ⟨rfl, rfl⟩

theorem superBlockAt_descSize {b c : Buffer} (h : ∀ i, i < 254 ∨ 256 ≤ i → c.get i = b.get i) :
    superBlockAt c = { superBlockAt b with sDescSize := sDescSize.get c } := by
  have hget (off n : Nat) (hoff : off + n ≤ 254 ∨ 256 ≤ off) : c.getLE off n = b.getLE off n :=
    Buffer.getLE_congr fun i _ _ => h i (by omega)
  have hslice (off n : Nat) (hoff : off + n ≤ 254 ∨ 256 ≤ off) : c.slice off n = b.slice off n :=
    Buffer.slice_congr fun i _ _ => h i (by omega)
  unfold superBlockAt
  simp (disch := decide) only [Buffer.get32, Buffer.get16, Field.get, sInodesCount,
    sFreeInodesCount, sInodesPerGroup, sBlockGroupNr, sDescSize, hget, hslice, h]

end Parse

section Prepare

variable {old : FsInfo} {force : Bool} {calm : Prop} {d : Disk} {descs : Buffer} {m : Machine}

theorem readInode_ends {v : Volume} {inum : Nat} {Q : Buffer → Machine → Prop}
    {E : Stop FixupError → Machine → Prop}
    (hq : ∀ m', 0 < v.info.inodesPerGroup.val → InodeThere v.info m.bgDesc m.device inum →
      m'.stored = m.stored → Q (inodeAt v.info m.bgDesc m.device inum) m')
    (he : ∀ e m', E e m') : (readInode v inum).Ends Q E m := by
  rw [readInode]
  refine .ite (fun _ => he _ _) fun hipg => ?_
  rw [Act.ends_bind, getDesc, Act.ends_bind, Act.ends_read]
  refine .ite (fun hdesc => ?_) fun _ => he _ _
  rw [Act.ends_pure, Act.ends_bind]
  refine lseekOr_ends (fun _ => readHere_ends (fun left hlen => ?_) fun _ _ => he _ _) (he _ _)
  simp only [bgInodeTable] at hdesc
  exact hq _ (Nat.pos_of_ne_zero hipg) ⟨by omega, hlen⟩ rfl

theorem preparedFrom_of_run {p : Prepared} {m' : Machine}
    (h : prepare old force m = (.ok p, m')) :
    PreparedFrom old force m.device p ∧ m'.stored = (m.device, descsOf p.volume m.device) := by
  refine Act.Ends.ok (Q := fun p m' => PreparedFrom old force m.device p ∧
    m'.stored = (m.device, descsOf p.volume m.device)) (E := fun _ _ => True) ?_ h
  rw [prepare, Act.ends_bind]
  refine call_ends (fun left => ?_) trivial
  rw [Act.ends_bind, readExt, Act.ends_bind, readSb, Act.ends_bind]
  refine lseekOr_ends (fun _ => readHere_ends (fun left hsb => ?_) fun _ _ => trivial) trivial
  rw [Act.ends_bind]
  refine Act.ends_of_run (fun v m1 hparse => ?_) fun _ _ _ => trivial
  obtain ⟨rfl, hparsed⟩ := ext4ParseSbInfo_run hparse
  rw [Act.ends_bind]
  refine lseekOr_ends (fun hend => ?_) trivial
  rw [Act.ends_bind]
  refine lseekOr_ends (fun _ => ?_) trivial
  rw [Act.ends_bind]
  refine readHere_ends (fun left hdescs => .ite (fun _ => trivial) fun hread => ?_) fun _ _ => trivial
  rw [Act.ends_bind, Act.ends_update, Act.ends_pure]
  refine .ite (fun _ => trivial) fun hclean => .ite (fun _ => trivial) fun hsize => ?_
  refine .ite (fun _ => trivial) fun hfiletype => .ite (fun _ => trivial) fun hper => ?_
  dsimp only
  rw [Act.ends_bind]
  refine readInode_ends (fun m2 hipg hroot hm2 => ?_) fun _ _ => trivial
  refine .ite (fun hdir => ?_) fun _ => trivial
  exact ⟨⟨hsb, hparsed, hend, hdescs, not_lt.mp hread, by simpa using hclean, hsize, hfiletype, hper, hipg, hroot, hdir,
    rfl, rfl, rfl⟩, hm2⟩

theorem readExt_calm {v : Volume} (hsb : 2048 ≤ d.size)
    (hparsed : ∀ m, ext4ParseSbInfo old force (sbAt d) m = (.ok v, m))
    (hend : (if (ext4ParseSb (sbAt d) old).isSome then lengthOf (sbAt d)
      else v.info.len.val) < 9223372036854775808)
    (hdescs : descsAt v + descsSize v ≤ d.size) (hread : descsSize v ≤ maxRead)
    (h : At calm (d, descs) m) :
    (readExt old force).Ends (fun v' m' => v' = v ∧ At calm (d, descsOf v d) m')
      (fun _ m' => Halted calm (d, descs) m') m := by
  rw [readExt, Act.ends_bind]
  refine (readSb_calm h hsb).post fun sb m1 ⟨hsb1, h1⟩ => ?_
  subst hsb1
  have hrun : ext4ParseSbInfo old force (superBlockAt (d.view 1024 1024)) m1 = (.ok v, m1) :=
    hparsed m1
  rw [Act.ends_bind]
  refine Act.ends_of_run (fun v' m2 hrun' => ?_) fun e m2 hrun' => ?_
  · rw [hrun] at hrun'
    cases hrun'
    have hoff : descsAt v < 9223372036854775808 :=
      (u32_lt _).trans (by norm_num)
    rw [Act.ends_bind]
    refine (lseekOr_calm _ hend h1).post fun _ m3 ⟨_, h3⟩ => ?_
    rw [Act.ends_bind]
    refine (lseekOr_calm _ hoff h3).post fun _ m4 ⟨hpos, h4⟩ => ?_
    rw [Act.ends_bind]
    refine (readHere_calm _ _ hpos h4 hdescs).post fun b m5 ⟨hb, h5⟩ => ?_
    subst hb
    rw [if_neg (not_lt.mpr hread), Act.ends_bind, Act.ends_update, Act.ends_pure]
    exact ⟨rfl, congrArg (·, _) h5.device, h5.calm⟩
  · rw [hrun] at hrun'
    cases hrun'

theorem prepare_calm {p : Prepared} (hp : PreparedFrom old force d p)
    (hsize : d.size ≤ 9223372036854775808) (h : At calm (d, descs) m) :
    (prepare old force).Ends (fun p' m' => p' = p ∧ At calm (d, descsOf p.volume d) m')
      (fun _ m' => m'.device = d ∧ ¬ calm) m := by
  have hhalt {descs : Buffer} (m' : Machine) (h' : Halted calm (d, descs) m') :
      m'.device = d ∧ ¬ calm := ⟨congrArg Prod.fst h'.stored, h'.notCalm⟩
  rw [prepare, Act.ends_bind]
  refine (call_calm _ h).mono ?_ fun _ m' h' => hhalt m' h'
  rintro _ m1 ⟨-, h1⟩
  rw [Act.ends_bind]
  refine (readExt_calm hp.sbThere hp.parsed hp.endThere hp.descsThere hp.descsRead h1).mono ?_
    fun _ m' h' => hhalt m' h'
  rintro v m2 ⟨rfl, h2⟩
  rw [if_neg (by simp [hp.clean]), if_neg hp.descSize, if_neg hp.filetype, if_neg hp.perBlock]
  dsimp only
  rw [Act.ends_bind]
  refine (readInode_calm hp.inodesPerGroup_pos hsize hp.rootThere h2).mono ?_ fun _ m' h' => hhalt m' h'
  rintro _ m3 ⟨rfl, h3⟩
  rw [if_pos (by rw [← hp.rootInode]; exact hp.rootDir), Act.ends_pure]
  refine ⟨?_, h3⟩
  rw [← hp.rootInode, ← hp.newInodesPerGroup, ← hp.dirsize]

end Prepare

end MakeExt4fs

import MakeExt4fs.Fixup.Restart
import MakeExt4fs.Fixup.SanityChecks

namespace MakeExt4fs

open ErrorLog Interrupt Words

section Tree

structure TreeOn (info : FsInfo) (newInodesPerGroup : Nat) (descs : Buffer) (d0 : Disk)
    (mapped : Buffer → List Nat → Prop) (blocks : List Nat) (es : DirEntries) : Prop where
  ground : Ground info d0 (blocks ++ es.blocksDeeper)
  nodup : (blocks ++ es.blocksDeeper).Nodup
  behind : ∀ b ∈ blocks ++ es.blocksDeeper, 2048 ≤ b * info.blockSize.val
  shaped : es.Shaped info newInodesPerGroup descs d0 (blocks ++ es.blocksDeeper) mapped blocks 0

instance (info : FsInfo) (newInodesPerGroup : Nat) (descs : Buffer) (d0 : Disk)
    (mapped : Buffer → List Nat → Prop) [∀ inode blocks, Decidable (mapped inode blocks)]
    (blocks : List Nat) (es : DirEntries) :
    Decidable (TreeOn info newInodesPerGroup descs d0 mapped blocks es) :=
  decidable_of_iff (Ground info d0 (blocks ++ es.blocksDeeper) ∧ (blocks ++ es.blocksDeeper).Nodup ∧
      (∀ b ∈ blocks ++ es.blocksDeeper, 2048 ≤ b * info.blockSize.val) ∧
      es.Shaped info newInodesPerGroup descs d0 (blocks ++ es.blocksDeeper) mapped blocks 0)
    ⟨fun ⟨h1, h2, h3, h4⟩ => ⟨h1, h2, h3, h4⟩, fun ⟨h1, h2, h3, h4⟩ => ⟨h1, h2, h3, h4⟩⟩

structure HasTreeOf (mapped : Buffer → List Nat → Prop) (old : FsInfo) (force : Bool)
    (newInodesPerGroup : Nat) (d0 : Disk) (p : Prepared) (blocks : List Nat) (es : DirEntries) :
    Prop where
  prepared : PreparedFrom old force d0 p
  tree : TreeOn p.volume.info newInodesPerGroup (descsOf p.volume d0) d0 mapped blocks es
  descsBehind : 2048 ≤ descsAt p.volume
  descsApart : ∀ b ∈ blocks ++ es.blocksDeeper,
    b * p.volume.info.blockSize.val + p.volume.info.blockSize.val ≤ descsAt p.volume ∨
      descsAt p.volume + descsSize p.volume ≤ b * p.volume.info.blockSize.val
  rootKept : InodeKept p.volume.info (descsOf p.volume d0) d0 (blocks ++ es.blocksDeeper) ext4RootIno
  rootInode : mapped p.rootInode blocks

abbrev HasTree (old : FsInfo) (force : Bool) (newInodesPerGroup : Nat) (d0 : Disk) (p : Prepared)
    (blocks : List Nat) (es : DirEntries) : Prop :=
  HasTreeOf (DirInode p.volume.info) old force newInodesPerGroup d0 p blocks es

abbrev HasDirs (old : FsInfo) (force : Bool) (newInodesPerGroup : Nat) (d0 : Disk) (p : Prepared)
    (blocks : List Nat) (es : DirEntries) : Prop :=
  HasTreeOf (DirectoryAt p.volume d0 (blocks ++ es.blocksDeeper)) old force newInodesPerGroup d0 p
    blocks es

def Prepared.AllDirs (p : Prepared) (d0 : Disk) (P : Buffer → List Nat → Prop) (blocks : List Nat)
    (es : DirEntries) : Prop :=
  P p.rootInode blocks ∧ es.AllBelow p.volume.info (descsOf p.volume d0) d0 P

variable (info : FsInfo) (newInodesPerGroup : Nat) (blocks : List Nat) (es : DirEntries) (d0 : Disk)

structure Kept (d : Disk) : Prop where
  size : d.size = d0.size
  same : ∀ a, 8 ≤ a → a < 1278 ∨ 1280 ≤ a →
    (∀ b ∈ blocks ++ es.blocksDeeper, a < b * info.blockSize.val ∨
      b * info.blockSize.val + info.blockSize.val ≤ a) → d.get a = d0.get a
  descSize : d.getLE 1278 2 &&& 0xfffe = d0.getLE 1278 2 &&& 0xfffe
  framed : Framed info.blockSize.val d0 d (es.dirs blocks)

def InPhase (d : Disk) : FixupState → Prop
  | .unset => DirEntries.Done info.blockSize.val id d (es.dirs blocks)
  | .markingInums => es.Ordered info.blockSize.val (Pass.before .markInodeNums)
      (Pass.after info newInodesPerGroup .markInodeNums) d blocks
  | .updatingInums => es.Ordered info.blockSize.val (Pass.before .updateInodeNums)
      (Pass.after info newInodesPerGroup .updateInodeNums) d blocks
  | .updatingSb => DirEntries.Done info.blockSize.val
      (Pass.after info newInodesPerGroup .updateInodeNums) d (es.dirs blocks)

structure Underway (d : Disk) : Prop extends Kept info blocks es d0 d where
  phase : InPhase info newInodesPerGroup blocks es d (stateOf d)

end Tree

section Keeping

variable {info : FsInfo} {newInodesPerGroup : Nat} {blocks : List Nat} {es : DirEntries}
  {d0 d d' : Disk}

theorem Kept.outside (h : Kept info blocks es d0 d) :
    Outside info.blockSize.val (blocks ++ es.blocksDeeper) d0 d :=
  ⟨h.size, fun a ha hall => h.same a (by omega) (by omega) hall⟩

theorem Kept.refl : Kept info blocks es d0 d0 := ⟨rfl, fun _ _ _ _ => rfl, rfl, .refl _ _ _⟩

theorem ChangedIn.getLE (hbehind : ∀ b ∈ blocks ++ es.blocksDeeper, 2048 ≤ b * info.blockSize.val)
    (h : ChangedIn info.blockSize.val (blocks ++ es.blocksDeeper) d d') {o n : Nat}
    (hn : o + n ≤ 2048) : d'.getLE o n = d.getLE o n := by
  refine Buffer.getLE_congr fun i _ hi => h.same i fun b hb => ?_
  have := hbehind b hb
  omega

theorem Kept.changed (h : Kept info blocks es d0 d)
    (hbehind : ∀ b ∈ blocks ++ es.blocksDeeper, 2048 ≤ b * info.blockSize.val)
    (hchanged : ChangedIn info.blockSize.val (blocks ++ es.blocksDeeper) d d')
    (hframed : Framed info.blockSize.val d0 d' (es.dirs blocks)) : Kept info blocks es d0 d' := by
  refine ⟨hchanged.size.trans h.size, fun a h1 h2 h3 => ?_, ?_, hframed⟩
  · exact (hchanged.same a h3).trans (h.same a h1 h2 h3)
  · rw [hchanged.getLE hbehind (by decide)]
    exact h.descSize

theorem StateChanged.slots (h : StateChanged d d') (hbs : 0 < info.blockSize.val)
    (hbehind : ∀ b ∈ blocks ++ es.blocksDeeper, 2048 ≤ b * info.blockSize.val)
    (hin : SlotsIn info.blockSize.val (es.dirs blocks)) :
    ∀ p ∈ es.dirs blocks, ∀ e ∈ p.2.own,
      slotAt info.blockSize.val d' p.1 e.1 = slotAt info.blockSize.val d p.1 e.1 := by
  intro p hp e he
  obtain ⟨hmod, hend⟩ := hin p hp e he
  refine getLE_shift fun k hk => ?_
  rw [← dirAddr_add (by omega)]
  refine h.changedIn hbs (fun b hb => hbehind b ?_) (by omega)
  rw [← DirEntries.flatMap_dirs]
  exact List.mem_flatMap.mpr ⟨p, hp, hb⟩

theorem Kept.stateChanged (h : Kept info blocks es d0 d) (hbs : 0 < info.blockSize.val)
    (hbehind : ∀ b ∈ blocks ++ es.blocksDeeper, 2048 ≤ b * info.blockSize.val)
    (hstate : StateChanged d d') : Kept info blocks es d0 d' := by
  refine ⟨hstate.size.trans h.size, fun a h1 h2 h3 => ?_, hstate.descSize.trans h.descSize,
    fun p hp off hoff hnone => ?_⟩
  · exact (hstate.same a h1 h2).trans (h.same a h1 h2 h3)
  · refine (hstate.changedIn hbs (fun b hb => hbehind b ?_) hoff).trans (h.framed p hp off hoff hnone)
    rw [← DirEntries.flatMap_dirs]
    exact List.mem_flatMap.mpr ⟨p, hp, hb⟩

theorem InPhase.congr {state : FixupState} (h : InPhase info newInodesPerGroup blocks es d state)
    (hsame : ∀ p ∈ es.dirs blocks, ∀ e ∈ p.2.own,
      slotAt info.blockSize.val d' p.1 e.1 = slotAt info.blockSize.val d p.1 e.1) :
    InPhase info newInodesPerGroup blocks es d' state := by
  cases state with
  | unset => exact DirEntries.Done.congr h hsame
  | markingInums => exact DirEntries.Ordered.congr h hsame
  | updatingInums => exact DirEntries.Ordered.congr h hsame
  | updatingSb => exact DirEntries.Done.congr h hsame

theorem shaped_done {descs : Buffer} {all : List Nat} {mapped : Buffer → List Nat → Prop}
    {off : Nat} (h : es.Shaped info newInodesPerGroup descs d0 all mapped blocks off) :
    DirEntries.Done info.blockSize.val id d0 (es.dirs blocks) := by
  have hslot {blocks : List Nat} {off inum : Nat}
      (hoff : off < blocks.length * info.blockSize.val)
      (hent : DirentAt info newInodesPerGroup (dirData info.blockSize.val d0 blocks) off inum) :
      slotAt info.blockSize.val d0 blocks off = inum := by
    have hin := hent.slotIn hoff
    have hend := hin.2
    rw [← hent.inode]
    exact (slotAt_eq hin fun k hk => (dirData_hasData _ _ _).get _ (by omega)).symm
  induction es generalizing blocks off with
  | nil => simp [DirEntries.Done, DirEntries.dirs, DirEntries.own, DirEntries.dirsDeeper]
  | unused _ _ => simp [DirEntries.Done, DirEntries.dirs, DirEntries.own, DirEntries.dirsDeeper]
  | other _ _ rest ih =>
    obtain ⟨rfl, hoff, hent, -, -, hrest⟩ := h
    obtain ⟨hown, hdeeper⟩ := DirEntries.done_dirs.mp (ih hrest)
    refine DirEntries.done_dirs.mpr ⟨?_, hdeeper⟩
    simp only [DirEntries.own, List.forall_mem_cons]
    exact ⟨hslot hoff hent, hown⟩
  | dir _ _ _ _ rest ihsub ih =>
    obtain ⟨rfl, hoff, hent, -, -, -, hsub, hrest⟩ := h
    obtain ⟨hown, hdeeper⟩ := DirEntries.done_dirs.mp (ih hrest)
    refine DirEntries.done_dirs.mpr ⟨?_, ?_⟩
    · simp only [DirEntries.own, List.forall_mem_cons]
      exact ⟨hslot hoff hent, hown⟩
    · rw [DirEntries.dirsDeeper_dir, DirEntries.done_append]
      exact ⟨ihsub hsub, hdeeper⟩

end Keeping

section Again

variable {old : FsInfo} {force : Bool} {newInodesPerGroup : Nat} {blocks : List Nat}
  {es : DirEntries} {d0 d : Disk} {p : Prepared} {mapped : Buffer → List Nat → Prop}

theorem HasTree.dirs (h : HasTree old force newInodesPerGroup d0 p blocks es) :
    HasDirs old force newInodesPerGroup d0 p blocks es where
  prepared := h.prepared
  tree := ⟨h.tree.ground, h.tree.nodup, h.tree.behind,
    h.tree.shaped.imp fun _ _ hinode => hinode.directoryAt⟩
  descsBehind := h.descsBehind
  descsApart := h.descsApart
  rootKept := h.rootKept
  rootInode := h.rootInode.directoryAt

theorem HasTree.countsData (h : HasTree old force newInodesPerGroup d0 p blocks es) :
    p.AllDirs d0 (CountsData p.volume.info) blocks es :=
  ⟨h.rootInode.countsData, h.tree.shaped.allBelow.imp fun _ _ hinode => hinode.countsData⟩

theorem HasTreeOf.read (h : HasDirs old force newInodesPerGroup d0 p blocks es)
    (hcounted : p.AllDirs d0 (CountsData p.volume.info) blocks es) :
    p.AllDirs d0 (fun inode blks => ¬ Overread p.volume.info inode blks) blocks es := by
  have hbs := h.tree.ground.blockSize_le
  exact ⟨h.rootInode.not_overread hbs hcounted.1,
    (h.tree.shaped.allBelow.and hcounted.2).imp fun _ _ hinode => hinode.1.not_overread hbs hinode.2⟩

theorem blit_congr {b s t : Buffer} {off : Nat} (hsize : s.size = t.size)
    (h : ∀ i < s.size, s.get i = t.get i) : b.blit off s = b.blit off t := by
  unfold Buffer.blit
  rw [← hsize]
  congr 1
  funext i
  split
  · rw [h _ (by omega)]
  · rfl

theorem HasTreeOf.descs_same (h : HasTreeOf mapped old force newInodesPerGroup d0 p blocks es)
    (hkept : Kept p.volume.info blocks es d0 d) : descsOf p.volume d = descsOf p.volume d0 := by
  refine blit_congr rfl fun i hi => ?_
  have hlt : i < descsSize p.volume := hi
  have hbehind := h.descsBehind
  rw [Buffer.get_view hlt, Buffer.get_view hlt]
  refine hkept.same _ (by omega) (by omega) fun b hb => ?_
  have := h.descsApart b hb
  omega

theorem HasTreeOf.sb_same (h : HasTreeOf mapped old force newInodesPerGroup d0 p blocks es)
    (hkept : Kept p.volume.info blocks es d0 d) :
    sbAt d = { sbAt d0 with sDescSize := (sbAt d).sDescSize } ∧
      (sbAt d).sDescSize &&& 0xfffe = (sbAt d0).sDescSize &&& 0xfffe := by
  constructor
  · refine superBlockAt_descSize fun i hi => ?_
    rcases Nat.lt_or_ge i sizeofSuperBlock with hlt | hge
    · have hlt' : i < 1024 := hlt
      rw [Buffer.get_view hlt, Buffer.get_view hlt]
      refine hkept.same _ (by omega) (by omega) fun b hb => ?_
      have := h.tree.behind b hb
      omega
    · rw [Buffer.get_of_le hge, Buffer.get_of_le hge]
  · have hview (d : Disk) : (sbAt d).sDescSize = d.getLE 1278 2 := Buffer.getLE_view (by decide)
    rw [hview, hview]
    exact hkept.descSize

theorem HasTreeOf.prepared_again (h : HasDirs old force newInodesPerGroup d0 p blocks es)
    (hkept : Kept p.volume.info blocks es d0 d) :
    ∃ p', PreparedFrom old force d p' ∧
      p'.volume = ⟨p.volume.info, { p.volume.aux with sb := sbAt d }⟩ ∧
      descsOf p'.volume d = descsOf p.volume d0 ∧ p'.rootInode.size = sizeofExt4Inode ∧
      (∀ f : Field, f.get p'.rootInode = f.get p.rootInode) ∧
      p'.dirsize = s32 (countedBytes p'.rootInode) := by
  have hp := h.prepared
  have hdescs := h.descs_same hkept
  obtain ⟨hsb, hmask⟩ := h.sb_same hkept
  have hinode (f : Field) := hkept.outside.inode h.rootKept f
  have hroot : ∀ f : Field, f.get (inodeAt p.volume.info (descsOf p.volume d0) d ext4RootIno) =
      f.get p.rootInode := fun f => by rw [hinode, hp.rootInode]
  have haux : p.volume.aux.sb = sbAt d0 :=
    (ext4ParseSbInfo_descSize (hp.parsed (.start d0 none)) 0).2
  refine ⟨⟨⟨p.volume.info, { p.volume.aux with sb := sbAt d }⟩, p.newInodesPerGroup,
    inodeAt p.volume.info (descsOf p.volume d0) d ext4RootIno, p.dirsize⟩, ?_, rfl, hdescs, rfl,
    hroot, ?_⟩
  rotate_left
  · dsimp only
    rw [hp.dirsize, countedBytes, hroot]
  refine ⟨?_, fun m => ?_, ?_, ?_, hp.descsRead, hp.clean, ?_, hp.filetype, hp.perBlock,
    hp.inodesPerGroup_pos, ?_, ?_,
    hp.newInodesPerGroup, ?_, ?_⟩
  · rw [hkept.size]
    exact hp.sbThere
  · rw [hsb]
    exact (ext4ParseSbInfo_descSize (hp.parsed m) _).1
  · have hend := hp.endThere
    rw [hsb]
    exact hend
  · rw [hkept.size]
    exact hp.descsThere
  · have hsize := hp.descSize
    rw [haux] at hsize
    dsimp only
    rw [hmask]
    exact hsize
  · exact hdescs.symm ▸ hkept.outside.there h.rootKept
  · rw [hroot]
    exact hp.rootDir
  · exact congrArg (inodeAt _ · d _) hdescs.symm
  · dsimp only
    rw [hroot]
    exact hp.dirsize

end Again

section Phases

variable {v : Volume} {newInodesPerGroup depth : Nat} {pass : Pass} {calm : Prop} {d0 d : Disk}
  {descs inode : Buffer} {blocks : List Nat} {es : DirEntries} {m : Machine}

structure TreeRead (v : Volume) (newInodesPerGroup depth : Nat) (calm : Prop) (d0 : Disk)
    (descs inode : Buffer) (dirsize : Int) (blocks : List Nat) (es : DirEntries) : Prop where
  tree : TreeOn v.info newInodesPerGroup descs d0 (DirectoryAt v d0 (blocks ++ es.blocksDeeper)) blocks
    es
  size : inode.size = sizeofExt4Inode
  directory : DirectoryAt v d0 (blocks ++ es.blocksDeeper) inode blocks
  dirsize : dirsize = s32 (countedBytes inode)
  height : calm → es.height < depth
  read : ¬ Overread v.info inode blocks
  readBelow : es.AllBelow v.info descs d0 fun inode blks => ¬ Overread v.info inode blks
  counted : calm → CountsData v.info inode blocks
  countedBelow : calm → es.AllBelow v.info descs d0 (CountsData v.info)

def AllCounted (v : Volume) (d0 : Disk) (descs inode : Buffer) (blocks : List Nat) (es : DirEntries) :
    Prop :=
  CountsData v.info inode blocks ∧ es.AllBelow v.info descs d0 (CountsData v.info)

theorem pass_calm (pass : Pass) {dirsize : Int}
    (hread : TreeRead v newInodesPerGroup depth calm d0 descs inode dirsize blocks es)
    (hkept : Kept v.info blocks es d0 d)
    (hordered : es.Ordered v.info.blockSize.val pass.before (pass.after v.info newInodesPerGroup) d
      blocks) (h : At calm (d, descs) m) :
    (recurseDir v false pass newInodesPerGroup depth inode dirsize).Ends
      (fun _ m' => (pass ≠ .updateInodeNums → AllCounted v d0 descs inode blocks es) ∧
        ∃ d', Kept v.info blocks es d0 d' ∧ stateOf d' = stateOf d ∧
          DirEntries.Done v.info.blockSize.val (pass.after v.info newInodesPerGroup) d'
            (es.dirs blocks) ∧ At calm (d', descs) m')
      (fun _ m' => ∃ d', Kept v.info blocks es d0 d' ∧ stateOf d' = stateOf d ∧
        es.Ordered v.info.blockSize.val pass.before (pass.after v.info newInodesPerGroup) d' blocks ∧
          Halted calm (d', descs) m') m := by
  have htree := hread.tree
  have hstate {d' : Disk}
      (hchanged : ChangedIn v.info.blockSize.val (blocks ++ es.blocksDeeper) d d') :
      stateOf d' = stateOf d := by
    rw [stateOf, stateOf, hchanged.getLE htree.behind (by decide)]
  have hes : Walkable v newInodesPerGroup calm d0 descs (blocks ++ es.blocksDeeper) depth blocks 0 es :=
    ⟨htree.shaped, htree.nodup, List.subset_append_right _ _, hread.height, hread.readBelow,
      hread.countedBelow⟩
  rw [hread.dirsize]
  refine (recurseDir_calm htree.ground depth hread.size hread.directory hread.read hread.counted
    (List.subset_append_left _ _) hes d m h ⟨hkept.outside, hkept.framed, hordered⟩).mono ?_ ?_
  · rintro _ m' ⟨hcount, d', hdone, h'⟩
    exact ⟨hcount, d', hkept.changed htree.behind hdone.changed hdone.framed, hstate hdone.changed,
      hdone.done, h'⟩
  · rintro e m' ⟨d', hhalted, h'⟩
    exact ⟨d', hkept.changed htree.behind hhalted.changed hhalted.framed, hstate hhalted.changed,
      hhalted.ordered, h'⟩

def StoppedWell (v : Volume) (newInodesPerGroup : Nat) (calm : Prop) (d0 : Disk) (blocks : List Nat)
    (es : DirEntries) (_ : Stop FixupError) (m : Machine) : Prop :=
  Underway v.info newInodesPerGroup blocks es d0 m.device ∧ ¬ calm

theorem setState_calm {state : FixupState} {mapped : Buffer → List Nat → Prop}
    (htree : TreeOn v.info newInodesPerGroup descs d0 mapped blocks es)
    (hsize : 2048 ≤ d0.size) (hkept : Kept v.info blocks es d0 d)
    (hbefore : InPhase v.info newInodesPerGroup blocks es d (stateOf d))
    (hafter : InPhase v.info newInodesPerGroup blocks es d state) (h : At calm (d, descs) m) :
    (setFsFixupState false state).Ends
      (fun _ m' => ∃ d', Underway v.info newInodesPerGroup blocks es d0 d' ∧ stateOf d' = state ∧
        At calm (d', descs) m')
      (StoppedWell v newInodesPerGroup calm d0 blocks es) m := by
  have hbs := htree.ground.blockSize_pos
  have hin := shaped_slotsIn htree.shaped
  have hunderway {d' : Disk} (hchanged : StateChanged d d') (hstate : d' = d ∨ stateOf d' = state) :
      Underway v.info newInodesPerGroup blocks es d0 d' := by
    refine ⟨hkept.stateChanged hbs htree.behind hchanged, ?_⟩
    rcases hstate with rfl | hstate
    · exact hbefore
    · rw [hstate]
      exact hafter.congr (hchanged.slots hbs htree.behind hin)
  refine (setFsFixupState_calm (by rw [hkept.size]; exact hsize) h).mono ?_ ?_
  · rintro _ m' ⟨d', hchanged, hstate, h'⟩
    exact ⟨d', hunderway hchanged (.inr hstate), hstate, h'⟩
  · rintro e m' ⟨d', hchanged, hstate, h'⟩
    have hdev : m'.device = d' := congrArg Prod.fst h'.stored
    exact ⟨by rw [hdev]; exact hunderway hchanged hstate, h'.notCalm⟩

theorem phase_calm (pass : Pass) (next : FixupState) {dirsize : Int}
    (hread : TreeRead v newInodesPerGroup depth calm d0 descs inode dirsize blocks es)
    (hsize : 2048 ≤ d0.size) (hkept : Kept v.info blocks es d0 d)
    (hhere : ∀ d', es.Ordered v.info.blockSize.val pass.before (pass.after v.info newInodesPerGroup) d'
      blocks ↔ InPhase v.info newInodesPerGroup blocks es d' (stateOf d))
    (hnext : ∀ d', DirEntries.Done v.info.blockSize.val (pass.after v.info newInodesPerGroup) d'
      (es.dirs blocks) → InPhase v.info newInodesPerGroup blocks es d' next)
    (hphase : InPhase v.info newInodesPerGroup blocks es d (stateOf d)) (h : At calm (d, descs) m) :
    (recurseDir v false pass newInodesPerGroup depth inode dirsize >>= fun _ =>
      setFsFixupState false next).Ends
      (fun _ m' => (pass ≠ .updateInodeNums → AllCounted v d0 descs inode blocks es) ∧
        ∃ d', Underway v.info newInodesPerGroup blocks es d0 d' ∧ stateOf d' = next ∧
          At calm (d', descs) m')
      (StoppedWell v newInodesPerGroup calm d0 blocks es) m := by
  rw [Act.ends_bind]
  refine (pass_calm pass hread hkept ((hhere d).mpr hphase) h).mono ?_ ?_
  · rintro _ m1 ⟨hcount, d1, hkept1, hstate1, hdone, h1⟩
    refine (setState_calm hread.tree hsize hkept1 ?_ (hnext d1 hdone) h1).post fun _ m2 h2 => ⟨hcount, h2⟩
    rw [hstate1]
    exact (hhere d1).mp hdone.ordered
  · rintro e m1 ⟨d1, hkept1, hstate1, hordered, h1⟩
    have hdev : m1.device = d1 := congrArg Prod.fst h1.stored
    refine ⟨?_, h1.notCalm⟩
    rw [hdev]
    refine ⟨hkept1, ?_⟩
    rw [hstate1]
    exact (hhere d1).mp hordered

theorem inUpdatePhase_calm {state next : FixupState} {phase : Fixup Unit} {counted : Prop}
    (hsize : 2048 ≤ d0.size) (hd : Underway v.info newInodesPerGroup blocks es d0 d)
    (hphase : stateOf d = state → ∀ m, At calm (d, descs) m → phase.Ends
      (fun _ m' => counted ∧ ∃ d', Underway v.info newInodesPerGroup blocks es d0 d' ∧
        stateOf d' = next ∧ At calm (d', descs) m')
      (StoppedWell v newInodesPerGroup calm d0 blocks es) m) (h : At calm (d, descs) m) :
    (inUpdatePhase false state phase).Ends
      (fun _ m' => (stateOf d = state → counted) ∧
        ∃ d', Underway v.info newInodesPerGroup blocks es d0 d' ∧
          stateOf d' = (if stateOf d = state then next else stateOf d) ∧ At calm (d', descs) m')
      (StoppedWell v newInodesPerGroup calm d0 blocks es) m := by
  have hsize' : 8 ≤ d.size := by rw [hd.size]; omega
  rw [inUpdatePhase, Act.ends_bind]
  refine (getFsFixupState_calm h hsize').mono ?_ ?_
  · rintro now m1 ⟨hread, h1⟩
    have hnow : now = stateOf d := by
      rw [stateOf]
      exact hread
    clear hread
    subst hnow
    split
    · rename_i hstate
      exact (hphase hstate m1 h1).post fun _ m2 h2 => ⟨fun _ => h2.1, h2.2⟩
    · rename_i hstate
      exact ⟨fun h => absurd h hstate, d, hd, rfl, h1⟩
  · intro e m1 h1
    have hdev : m1.device = d := congrArg Prod.fst h1.stored
    exact ⟨by rw [hdev]; exact hd, h1.notCalm⟩

theorem ChecksOut.kept {info : FsInfo} (h : ChecksOut v newInodesPerGroup d0 descs)
    (hkept : Kept info blocks es d0 d)
    (hbehind : ∀ b ∈ blocks ++ es.blocksDeeper, 2048 ≤ b * info.blockSize.val) :
    ChecksOut v newInodesPerGroup d descs := by
  have hsame (f : Field) (hf : f.off + f.size ≤ 254) :
      f.get (d.view 1024 1024) = f.get (d0.view 1024 1024) := by
    refine Buffer.getLE_congr fun i _ hi => ?_
    have hin : i < 1024 := by omega
    rw [Buffer.get_view hin, Buffer.get_view hin]
    refine hkept.same _ (by omega) (by omega) fun b hb => ?_
    have := hbehind b hb
    omega
  refine ⟨h.blockSize_le, h.descThere, fun i hi => ?_, h.bitmapFits, ?_, h.perBlock, h.aligned,
    h.copies⟩
  · rw [hkept.size]
    exact h.bitmapThere i hi
  · rw [hsame sInodesCount (by decide), hsame sInodesPerGroup (by decide)]
    exact h.inodeCount

theorem sanityIfUnset_calm {p : Prepared}
    (hread : TreeRead p.volume newInodesPerGroup depth calm d0 descs p.rootInode p.dirsize blocks es)
    (hsize : 2048 ≤ d0.size)
    (hchecks : calm → stateOf d = .unset → ChecksOut p.volume newInodesPerGroup d0 descs)
    (hd : Underway p.volume.info newInodesPerGroup blocks es d0 d) (h : At calm (d, descs) m) :
    (sanityIfUnset depth false { p with newInodesPerGroup }).Ends
      (fun checked m' => (checked = true → AllCounted p.volume d0 descs p.rootInode blocks es) ∧
        ∃ d', Underway p.volume.info newInodesPerGroup blocks es d0 d' ∧
        stateOf d' = stateOf d ∧ (checked = true ↔ stateOf d = .unset) ∧ At calm (d', descs) m')
      (StoppedWell p.volume newInodesPerGroup calm d0 blocks es) m := by
  have hsize' : 8 ≤ d.size := by rw [hd.size]; omega
  have hground := hread.tree.ground
  rw [sanityIfUnset, Act.ends_bind]
  refine (getFsFixupState_calm h hsize').mono ?_ ?_
  · rintro now m1 ⟨hnow, h1⟩
    have hnow : now = stateOf d := by
      rw [stateOf]
      exact hnow
    subst hnow
    refine .ite (fun hstate => ?_) fun hstate => ⟨fun h => absurd h (by decide), d, hd, rfl,
      by simp [hstate], h1⟩
    have hphase := hd.phase
    rw [hstate] at hphase
    have hdone {d' : Disk} (hkept : Kept p.volume.info blocks es d0 d') (hsame : stateOf d' = stateOf d)
        (h' : DirEntries.Done p.volume.info.blockSize.val id d' (es.dirs blocks)) :
        Underway p.volume.info newInodesPerGroup blocks es d0 d' := by
      refine ⟨hkept, ?_⟩
      rw [hsame, hstate]
      exact h'
    rw [Act.ends_bind, sanityPhase, Act.ends_bind]
    refine (pass_calm .sanityCheck hread hd.toKept (DirEntries.Done.ordered hphase) h1).mono ?_ ?_
    · rintro _ m2 ⟨hcount, d2, hkept2, hstate2, hdone2, h2⟩
      have hd2 := hdone hkept2 hstate2 hdone2
      refine (updateSuperblocksAndBgDesc_calm
        (fun hc => (hchecks hc hstate).kept hkept2 hread.tree.behind) ?_ ?_ hground.blockSize_pos
        h2).mono ?_ ?_
      · rw [hkept2.size]
        exact hsize
      · rw [hkept2.size]
        exact hground.size_le
      · exact fun _ m3 h3 => ⟨fun _ => hcount (by decide), d2, hd2, hstate2, by simp [hstate], h3⟩
      · intro e m3 h3
        have hdev : m3.device = d2 := congrArg Prod.fst h3.stored
        exact ⟨by rw [hdev]; exact hd2, h3.notCalm⟩
    · rintro e m2 ⟨d2, hkept2, hstate2, hordered2, h2⟩
      have hdev : m2.device = d2 := congrArg Prod.fst h2.stored
      refine ⟨?_, h2.notCalm⟩
      rw [hdev]
      exact hdone hkept2 hstate2 (DirEntries.done_of_ordered_same hordered2)
  · intro e m1 h1
    have hdev : m1.device = d := congrArg Prod.fst h1.stored
    exact ⟨by rw [hdev]; exact hd, h1.notCalm⟩

theorem markPhase_calm {p : Prepared}
    (hread : TreeRead p.volume newInodesPerGroup depth calm d0 descs p.rootInode p.dirsize blocks es)
    (hsize : 2048 ≤ d0.size) (hd : Underway p.volume.info newInodesPerGroup blocks es d0 d)
    (hstate : stateOf d = .markingInums) (h : At calm (d, descs) m) :
    (markPhase p.volume depth false p.rootInode p.dirsize newInodesPerGroup).Ends
      (fun _ m' => AllCounted p.volume d0 descs p.rootInode blocks es ∧
        ∃ d', Underway p.volume.info newInodesPerGroup blocks es d0 d' ∧
          stateOf d' = .updatingInums ∧ At calm (d', descs) m')
      (StoppedWell p.volume newInodesPerGroup calm d0 blocks es) m := by
  refine (phase_calm .markInodeNums .updatingInums hread hsize hd.toKept (fun d' => ?_)
    (fun d' hdone => DirEntries.ordered_of_before hdone) hd.phase h).post fun _ m' h' => ⟨h'.1 (by decide), h'.2⟩
  rw [hstate]
  rfl

theorem updatePhase_calm {p : Prepared}
    (hread : TreeRead p.volume newInodesPerGroup depth calm d0 descs p.rootInode p.dirsize blocks es)
    (hsize : 2048 ≤ d0.size) (hd : Underway p.volume.info newInodesPerGroup blocks es d0 d)
    (hstate : stateOf d = .updatingInums) (h : At calm (d, descs) m) :
    (updatePhase p.volume depth false p.rootInode p.dirsize newInodesPerGroup).Ends
      (fun _ m' => True ∧ ∃ d', Underway p.volume.info newInodesPerGroup blocks es d0 d' ∧
        stateOf d' = .updatingSb ∧ At calm (d', descs) m')
      (StoppedWell p.volume newInodesPerGroup calm d0 blocks es) m := by
  refine (phase_calm .updateInodeNums .updatingSb hread hsize hd.toKept (fun d' => ?_)
    (fun d' hdone => hdone) hd.phase h).post fun _ m' h' => ⟨trivial, h'.2⟩
  rw [hstate]
  rfl

theorem afterSanity_calm {p : Prepared}
    (hread : TreeRead p.volume newInodesPerGroup depth calm d0 descs p.rootInode p.dirsize blocks es)
    (hsize : 2048 ≤ d0.size) (hd : Underway p.volume.info newInodesPerGroup blocks es d0 d)
    (hstate : stateOf d ≠ .unset) (h : At calm (d, descs) m) :
    (inUpdatePhase false .markingInums
        (markPhase p.volume depth false p.rootInode p.dirsize newInodesPerGroup) >>= fun _ =>
      inUpdatePhase false .updatingInums
        (updatePhase p.volume depth false p.rootInode p.dirsize newInodesPerGroup)).Ends
      (fun _ m' => (stateOf d = .markingInums →
          AllCounted p.volume d0 descs p.rootInode blocks es) ∧
        ∃ d', Underway p.volume.info newInodesPerGroup blocks es d0 d' ∧
          stateOf d' = .updatingSb ∧ At calm (d', descs) m')
      (StoppedWell p.volume newInodesPerGroup calm d0 blocks es) m := by
  rw [Act.ends_bind]
  refine (inUpdatePhase_calm hsize hd (fun hs m h => markPhase_calm hread hsize hd hs h) h).post ?_
  rintro _ m1 ⟨hcount, d1, hd1, hstate1, h1⟩
  refine (inUpdatePhase_calm hsize hd1 (fun hs m h => updatePhase_calm hread hsize hd1 hs h) h1).post ?_
  rintro _ m2 ⟨-, d2, hd2, hstate2, h2⟩
  refine ⟨hcount, d2, hd2, ?_, h2⟩
  rw [hstate2, hstate1]
  cases hs : stateOf d with
  | unset => exact absurd hs hstate
  | markingInums => simp
  | updatingInums => simp
  | updatingSb => simp

theorem numberingPhases_calm {p : Prepared}
    (hread : TreeRead p.volume newInodesPerGroup depth calm d0 descs p.rootInode p.dirsize blocks es)
    (hsize : 2048 ≤ d0.size)
    (hchecks : calm → stateOf d = .unset → ChecksOut p.volume newInodesPerGroup d0 descs)
    (hd : Underway p.volume.info newInodesPerGroup blocks es d0 d) (h : At calm (d, descs) m) :
    (numberingPhases depth { p with newInodesPerGroup }).Ends
      (fun _ m' => (stateOf d = .unset ∨ stateOf d = .markingInums →
          AllCounted p.volume d0 descs p.rootInode blocks es) ∧
        ∃ d', Underway p.volume.info newInodesPerGroup blocks es d0 d' ∧
          stateOf d' = .updatingSb ∧ At calm (d', descs) m')
      (StoppedWell p.volume newInodesPerGroup calm d0 blocks es) m := by
  rw [numberingPhases, Act.ends_bind]
  refine (sanityIfUnset_calm hread hsize hchecks hd h).post ?_
  rintro checked m1 ⟨hcount, d1, hd1, hstate1, hchecked, h1⟩
  cases checked with
  | true =>
    have hunset : stateOf d1 = .unset := hstate1.trans (hchecked.mp rfl)
    have hphase := hd1.phase
    rw [hunset] at hphase
    rw [if_pos rfl, Act.ends_bind]
    have hmarking : InPhase p.volume.info newInodesPerGroup blocks es d1 .markingInums :=
      DirEntries.ordered_of_before hphase
    refine (setState_calm hread.tree hsize hd1.toKept hd1.phase hmarking h1).post ?_
    rintro _ m2 ⟨d2, hd2, hstate2, h2⟩
    exact (afterSanity_calm hread hsize hd2 (by rw [hstate2]; decide) h2).post fun _ m3 h3 =>
      ⟨fun _ => hcount rfl, h3.2⟩
  | false =>
    have hset : stateOf d1 ≠ .unset := by
      rw [hstate1]
      exact fun hs => by simpa using hchecked.mpr hs
    rw [if_neg (by decide)]
    refine (afterSanity_calm hread hsize hd1 hset h1).post fun _ m3 h3 => ⟨fun hfirst => h3.1 ?_, h3.2⟩
    rw [hstate1]
    exact hfirst.resolve_left fun hs => by simpa using hchecked.mpr hs

end Phases

section Runs

variable {old : FsInfo} {force : Bool} {newInodesPerGroup depth : Nat} {calm : Prop} {d0 d d' : Disk}
  {p : Prepared} {blocks : List Nat} {es : DirEntries}

theorem HasTreeOf.sbThere {mapped : Buffer → List Nat → Prop}
    (h : HasTreeOf mapped old force newInodesPerGroup d0 p blocks es) : 2048 ≤ d0.size :=
  h.prepared.sbThere

theorem HasTreeOf.treeRead (h : HasDirs old force newInodesPerGroup d0 p blocks es)
    (hread : p.AllDirs d0 (fun inode blks => ¬ Overread p.volume.info inode blks) blocks es)
    (hcounted : calm → p.AllDirs d0 (CountsData p.volume.info) blocks es)
    (hheight : calm → es.height < depth) {p' : Prepared} {descs : Buffer}
    (hinfo : p'.volume.info = p.volume.info) (hdescs : descs = descsOf p.volume d0)
    (hisize : p'.rootInode.size = sizeofExt4Inode)
    (hroot : ∀ f : Field, f.get p'.rootInode = f.get p.rootInode)
    (hdirsize : p'.dirsize = s32 (countedBytes p'.rootInode)) :
    TreeRead p'.volume newInodesPerGroup depth calm d0 descs p'.rootInode p'.dirsize blocks es := by
  have hsize : p.rootInode.size = sizeofExt4Inode := by
    rw [h.prepared.rootInode]
    rfl
  refine ⟨⟨?_, h.tree.nodup, ?_, ?_⟩, hisize, h.rootInode.congr hinfo (hsize.trans hisize.symm).le hroot,
    hdirsize, hheight, ?_, ?_, fun hc => ?_, fun hc => ?_⟩
  · rw [hinfo]
    exact h.tree.ground
  · rw [hinfo]
    exact h.tree.behind
  · rw [hinfo, hdescs]
    exact h.tree.shaped.imp fun _ _ hinode => hinode.congr hinfo le_rfl fun _ => rfl
  · rw [hinfo]
    exact fun hover => hread.1 ((Overread.congr hroot).mp hover)
  · rw [hinfo, hdescs]
    exact hread.2
  · rw [hinfo]
    exact (CountsData.congr hroot).mpr (hcounted hc).1
  · rw [hinfo, hdescs]
    exact (hcounted hc).2

theorem renumber_calm (h : HasDirs old force newInodesPerGroup d0 p blocks es)
    (hd : Underway p.volume.info newInodesPerGroup blocks es d0 d)
    (hread : p.AllDirs d0 (fun inode blks => ¬ Overread p.volume.info inode blks) blocks es)
    (hcounted : calm → p.AllDirs d0 (CountsData p.volume.info) blocks es)
    (hchecks : calm → stateOf d = .unset →
      ChecksOut p.volume newInodesPerGroup d0 (descsOf p.volume d0))
    (hheight : calm → es.height < depth) {left : Option Nat} (hleft : calm → left = none) :
    (renumber depth old force newInodesPerGroup).Ends
      (fun _ m' => (stateOf d = .unset ∨ stateOf d = .markingInums →
          p.AllDirs d0 (CountsData p.volume.info) blocks es) ∧
        Underway p.volume.info newInodesPerGroup blocks es d0 m'.device ∧
          stateOf m'.device = .updatingSb)
      (fun _ m' => Underway p.volume.info newInodesPerGroup blocks es d0 m'.device ∧ ¬ calm)
      (.start d left) := by
  obtain ⟨p', hp', hvolume, hdescs, hisize, hroot, hdirsize⟩ := h.prepared_again hd.toKept
  have hinfo : p'.volume.info = p.volume.info := by rw [hvolume]
  have hdsize : d.size ≤ 9223372036854775808 := by
    rw [hd.size]
    exact h.tree.ground.size_le
  have hstart : At calm (d, Buffer.zeros 0) (.start d left) := ⟨rfl, hleft⟩
  have htree := h.treeRead hread hcounted hheight hinfo hdescs hisize hroot hdirsize
  have hchecks' : calm → stateOf d = .unset →
      ChecksOut p'.volume newInodesPerGroup d0 (descsOf p'.volume d) := fun hc hs => by
    obtain ⟨h1, h2, h3, h4, h5, h6, h7, h8⟩ := hchecks hc hs
    rw [hdescs, hvolume]
    exact ⟨h1, h2, h3, h4, h5, h6, h7, h8⟩
  rw [renumber, Act.ends_bind]
  refine (prepare_calm hp' hdsize hstart).mono ?_ ?_
  · rintro _ m1 ⟨rfl, h1⟩
    refine (numberingPhases_calm htree h.sbThere hchecks' (hinfo ▸ hd) h1).mono ?_ ?_
    · rintro _ m2 ⟨hcount, d2, hd2, hstate2, h2⟩
      rw [hinfo] at hd2
      have hdev : m2.device = d2 := h2.device
      rw [hdev]
      refine ⟨fun hfirst => ?_, hd2, hstate2⟩
      obtain ⟨hroot', hbelow⟩ := hcount hfirst
      rw [hinfo] at hroot' hbelow
      rw [hdescs] at hbelow
      exact ⟨(CountsData.congr hroot).mp hroot', hbelow⟩
    · intro e m2 hstop
      rw [StoppedWell, hinfo] at hstop
      exact hstop
  · rintro e m1 ⟨hdev, hnot⟩
    rw [hdev]
    exact ⟨hd, hnot⟩

theorem Restarted.underway (h : HasDirs old force newInodesPerGroup d0 p blocks es)
    (hread : p.AllDirs d0 (fun inode blks => ¬ Overread p.volume.info inode blks) blocks es)
    (hfirst : stateOf d0 = .unset ∨ stateOf d0 = .markingInums)
    (hd : Restarted depth old force newInodesPerGroup d0 d) :
    Underway p.volume.info newInodesPerGroup blocks es d0 d := by
  induction hd with
  | first =>
    have hdone := shaped_done h.tree.shaped
    refine ⟨.refl, ?_⟩
    rcases hfirst with hstate | hstate <;> rw [hstate]
    · exact hdone
    · exact DirEntries.ordered_of_before hdone
  | @again d _ left ih =>
    have hends : (renumber depth old force newInodesPerGroup).Ends
        (fun _ m' => Underway p.volume.info newInodesPerGroup blocks es d0 m'.device)
        (fun _ m' => Underway p.volume.info newInodesPerGroup blocks es d0 m'.device)
        (.start d left) :=
      (renumber_calm h ih hread False.elim False.elim (False.elim : False → es.height < depth)
        False.elim).mono
        (fun _ _ h => h.2.1) fun _ _ h => h.1
    unfold Act.Ends at hends
    rcases hrun : renumber depth old force newInodesPerGroup (.start d left) with ⟨e | a, m⟩ <;>
      rw [hrun] at hends <;> exact hends

theorem slot_of_newInum {info : FsInfo} {inum : Nat} (hipg : 0 < info.inodesPerGroup.val)
    (hn : info.inodesPerGroup.val ≤ newInodesPerGroup) :
    (newInum info newInodesPerGroup inum - 1) / newInodesPerGroup =
        (inum - 1) / info.inodesPerGroup.val ∧
      (newInum info newInodesPerGroup inum - 1) % newInodesPerGroup =
        (inum - 1) % info.inodesPerGroup.val := by
  have hlt := Nat.mod_lt (inum - 1) hipg
  rw [newInum, Nat.add_sub_cancel]
  generalize (inum - 1) / info.inodesPerGroup.val = group
  generalize (inum - 1) % info.inodesPerGroup.val = place at hlt ⊢
  rw [Nat.mul_comm, Nat.mul_add_div (by omega), Nat.mul_add_mod, Nat.div_eq_of_lt (by omega),
    Nat.mod_eq_of_lt (by omega)]
  exact ⟨rfl, rfl⟩

-- Every entry has its new number, which names the same place of the same group's inode table, and
-- nothing else in the directories is different.
structure Renumbered (v : Volume) (newInodesPerGroup : Nat) (blocks : List Nat) (es : DirEntries)
    (d0 d : Disk) : Prop where
  number : ∀ dir ∈ es.dirs blocks, ∀ e ∈ dir.2.own, slotAt v.info.blockSize.val d dir.1 e.1 =
    computeNewInum v (slotAt v.info.blockSize.val d0 dir.1 e.1) newInodesPerGroup
  group : ∀ dir ∈ es.dirs blocks, ∀ e ∈ dir.2.own,
    (slotAt v.info.blockSize.val d dir.1 e.1 - 1) / newInodesPerGroup =
      (slotAt v.info.blockSize.val d0 dir.1 e.1 - 1) / v.info.inodesPerGroup.val
  place : ∀ dir ∈ es.dirs blocks, ∀ e ∈ dir.2.own,
    (slotAt v.info.blockSize.val d dir.1 e.1 - 1) % newInodesPerGroup =
      (slotAt v.info.blockSize.val d0 dir.1 e.1 - 1) % v.info.inodesPerGroup.val
  framed : Framed v.info.blockSize.val d0 d (es.dirs blocks)

theorem shaped_numbers {info : FsInfo} {descs : Buffer} {all : List Nat}
    {mapped : Buffer → List Nat → Prop} {off : Nat}
    (h : es.Shaped info newInodesPerGroup descs d0 all mapped blocks off) :
    ∀ dir ∈ es.dirs blocks, ∀ e ∈ dir.2.own, 0 < e.2 ∧ e.2 < pendingBit ∧
      newInum info newInodesPerGroup e.2 < pendingBit := by
  induction es generalizing blocks off with
  | nil => simp [DirEntries.dirs, DirEntries.own, DirEntries.dirsDeeper]
  | unused _ _ => simp [DirEntries.dirs, DirEntries.own, DirEntries.dirsDeeper]
  | other _ _ rest ih =>
    obtain ⟨rfl, -, hent, -, -, hrest⟩ := h
    have hall := ih hrest
    simp only [DirEntries.dirs, DirEntries.dirsDeeper, DirEntries.own, List.forall_mem_cons] at hall ⊢
    exact ⟨⟨⟨hent.pos, hent.old_lt, hent.new_lt⟩, hall.1⟩, hall.2⟩
  | dir _ _ _ _ rest ihsub ih =>
    obtain ⟨rfl, -, hent, -, -, -, hsub, hrest⟩ := h
    have hall := ih hrest
    have hallsub := ihsub hsub
    simp only [DirEntries.dirs, DirEntries.dirsDeeper, DirEntries.own, List.forall_mem_cons,
      List.forall_mem_append, List.cons_append] at hall hallsub ⊢
    exact ⟨⟨⟨hent.pos, hent.old_lt, hent.new_lt⟩, hall.1⟩, hallsub.1, hallsub.2, hall.2⟩

theorem Underway.renumbered (h : HasDirs old force newInodesPerGroup d0 p blocks es)
    (hn : p.volume.info.inodesPerGroup.val ≤ newInodesPerGroup)
    (hd : Underway p.volume.info newInodesPerGroup blocks es d0 d)
    (hstate : stateOf d = .updatingSb) : Renumbered p.volume newInodesPerGroup blocks es d0 d := by
  have hphase := hd.phase
  rw [hstate] at hphase
  have hfirst := shaped_done h.tree.shaped
  have hnumbers := shaped_numbers h.tree.shaped
  have hipg := h.tree.ground.inodesPerGroup_pos
  have hnew (dir : List Nat × DirEntries) (hdir : dir ∈ es.dirs blocks) (e : Nat × Nat)
      (he : e ∈ dir.2.own) : slotAt p.volume.info.blockSize.val d dir.1 e.1 =
        newInum p.volume.info newInodesPerGroup (slotAt p.volume.info.blockSize.val d0 dir.1 e.1) := by
    rw [hphase dir hdir e he, hfirst dir hdir e he]
    rfl
  refine ⟨fun dir hdir e he => ?_, fun dir hdir e he => ?_, fun dir hdir e he => ?_, hd.framed⟩
  · obtain ⟨hpos, hold, hlt⟩ := hnumbers dir hdir e he
    have hslot : slotAt p.volume.info.blockSize.val d0 dir.1 e.1 = e.2 := hfirst dir hdir e he
    rw [hnew dir hdir e he, hslot, computeNewInum_eq hpos hold hlt]
  · rw [hnew dir hdir e he]
    exact (slot_of_newInum hipg hn).1
  · rw [hnew dir hdir e he]
    exact (slot_of_newInum hipg hn).2

theorem get_of_getLE {b c : Buffer} {o o' n : Nat} (h : b.getLE o n = c.getLE o' n) {k : Nat}
    (hk : k < n) : b.get (o + k) = c.get (o' + k) := by
  induction n generalizing o o' k with
  | zero => omega
  | succ n ih =>
    rw [Buffer.getLE, Buffer.getLE] at h
    have hb := b.get_lt o
    have hc := c.get_lt o'
    cases k with
    | zero =>
      rw [Nat.add_zero, Nat.add_zero]
      omega
    | succ k =>
      have hrest : b.getLE (o + 1) n = c.getLE (o' + 1) n := by omega
      have hnext := ih hrest (show k < n by omega)
      rwa [Nat.add_right_comm, Nat.add_right_comm o', Nat.add_assoc, Nat.add_assoc o'] at hnext

theorem Renumbered.same {v : Volume} (h : Renumbered v newInodesPerGroup blocks es d0 d)
    (h' : Renumbered v newInodesPerGroup blocks es d0 d')
    (hin : SlotsIn v.info.blockSize.val (es.dirs blocks)) :
    ∀ dir ∈ es.dirs blocks, ∀ off < dir.1.length * v.info.blockSize.val,
      d'.get (dirAddr v.info.blockSize.val dir.1 off) =
        d.get (dirAddr v.info.blockSize.val dir.1 off) := by
  intro dir hdir off hoff
  by_cases hslot : ∃ e ∈ dir.2.own, e.1 ≤ off ∧ off < e.1 + 4
  · obtain ⟨e, he, h1, h2⟩ := hslot
    obtain ⟨k, rfl⟩ := Nat.exists_eq_add_of_le h1
    have hmod := (hin dir hdir e he).1
    have hsame : slotAt v.info.blockSize.val d' dir.1 e.1 = slotAt v.info.blockSize.val d dir.1 e.1 :=
      (h'.number dir hdir e he).trans (h.number dir hdir e he).symm
    rw [dirAddr_add (by omega)]
    exact get_of_getLE hsame (show k < 4 by omega)
  · have hnone : ∀ e ∈ dir.2.own, off < e.1 ∨ e.1 + 4 ≤ off := fun e he => by
      by_contra hcon
      exact hslot ⟨e, he, by omega, by omega⟩
    rw [h'.framed dir hdir off hoff hnone, h.framed dir hdir off hoff hnone]

theorem renumbering_survives (h : HasTree old force newInodesPerGroup d0 p blocks es)
    (hn : p.volume.info.inodesPerGroup.val ≤ newInodesPerGroup)
    (hfirst : stateOf d0 = .unset ∨ stateOf d0 = .markingInums)
    (hd : Restarted depth old force newInodesPerGroup d0 d) :
    (stateOf d = .updatingSb → Renumbered p.volume newInodesPerGroup blocks es d0 d ∧
      ∀ u, u = (renumber depth old force newInodesPerGroup (.start d0 none)).2.device →
        stateOf u = .updatingSb → ∀ dir ∈ es.dirs blocks,
          ∀ off < dir.1.length * p.volume.info.blockSize.val,
            u.get (dirAddr p.volume.info.blockSize.val dir.1 off) =
              d.get (dirAddr p.volume.info.blockSize.val dir.1 off)) ∧
    (stateOf d ≠ .unset → es.height < depth →
      ∃ m, renumber depth old force newInodesPerGroup (.start d none) = (.ok (), m) ∧
        stateOf m.device = .updatingSb) := by
  have hdirs := h.dirs
  have hread := hdirs.read h.countsData
  have hunder := hd.underway hdirs hread hfirst
  refine ⟨fun hstate => ⟨hunder.renumbered hdirs hn hstate, ?_⟩, fun hset hheight => ?_⟩
  · rintro u rfl hstate'
    have hlast : Restarted depth old force newInodesPerGroup d0
        (renumber depth old force newInodesPerGroup (.start d0 none)).2.device := .again .first none
    exact (hunder.renumbered hdirs hn hstate).same
      ((hlast.underway hdirs hread hfirst).renumbered hdirs hn hstate') (shaped_slotsIn h.tree.shaped)
  · have hends := renumber_calm hdirs hunder hread (fun _ : True => h.countsData)
      (fun _ hs => absurd hs hset) (fun _ => hheight) fun _ => (rfl : none = none)
    obtain ⟨_, m, hrun, -, -, hstate⟩ := (hends.mono (fun _ _ h => h) fun _ _ h => h.2 trivial).exists_run
    exact ⟨m, hrun, hstate⟩

end Runs

section Example

-- Two groups of 16 inodes. The root directory, in block 7, has a file and the directory of the first
-- inode but one of the second group, which is in block 8.
def twoGroupsImage : Disk := imageOf 32768
  [(0, 8, 0x7000151515565512), (1024, 4, 32), (1028, 4, 32), (1044, 4, 1), (1056, 4, 16),
    (1064, 4, 16), (1080, 2, 0xEF53), (1082, 2, 1), (1112, 2, 128), (1120, 4, 0x42), (1278, 2, 32),
    (2052, 4, 4), (2056, 4, 5), (2084, 4, 18), (2088, 4, 20),
    (5248, 2, 0x41ED), (5276, 4, 2), (5280, 4, 0x80000), (5288, 2, 0xF30A), (5290, 2, 1),
    (5304, 2, 1), (5308, 4, 7),
    (20608, 2, 0x41ED), (20636, 4, 2), (20640, 4, 0x80000), (20648, 2, 0xF30A), (20650, 2, 1),
    (20664, 2, 1), (20668, 4, 8),
    (7168, 4, 2), (7172, 2, 12), (7174, 1, 1), (7175, 1, 2), (7176, 1, 46),
    (7180, 4, 18), (7184, 2, 12), (7186, 1, 1), (7187, 1, 2), (7188, 1, 100),
    (7192, 4, 13), (7196, 2, 1000), (7198, 1, 1), (7199, 1, 1), (7200, 1, 102),
    (8192, 4, 18), (8196, 2, 12), (8198, 1, 1), (8199, 1, 2), (8200, 1, 46),
    (8204, 4, 2), (8208, 2, 1012), (8210, 1, 2), (8211, 1, 2), (8212, 2, 0x2E2E)]

def twoGroupsTree : DirEntries :=
  .other 0 2 (.dir 12 18 [8] (.other 0 18 (.other 12 2 .nil)) (.other 24 13 .nil))

def preparedOn (image : Disk) : Option Prepared :=
  match prepare noInfo false (.start image none) with
  | (.ok p, _) => some p
  | (.error _, _) => none

theorem preparedOn_from {image : Disk} {p : Prepared} (h : preparedOn image = some p) :
    PreparedFrom noInfo false image p := by
  unfold preparedOn at h
  split at h
  · rename_i q m hrun
    obtain rfl : q = p := Option.some.inj h
    exact (preparedFrom_of_run hrun).1
  · cases h

section LookedUp

variable (mapped : FsInfo → Buffer → List Nat → Prop)
  [∀ info inode blocks, Decidable (mapped info inode blocks)]

def isTree (image : Disk) (newInodesPerGroup : Nat) (blocks : List Nat) (es : DirEntries)
    (p : Prepared) : Bool :=
  decide (TreeOn p.volume.info newInodesPerGroup (descsOf p.volume image) image
    (mapped p.volume.info) blocks es) &&
    decide (2048 ≤ descsAt p.volume) &&
    decide (∀ b ∈ blocks ++ es.blocksDeeper,
      b * p.volume.info.blockSize.val + p.volume.info.blockSize.val ≤ descsAt p.volume ∨
        descsAt p.volume + descsSize p.volume ≤ b * p.volume.info.blockSize.val) &&
    decide (InodeKept p.volume.info (descsOf p.volume image) image (blocks ++ es.blocksDeeper)
      ext4RootIno) &&
    decide (mapped p.volume.info p.rootInode blocks)

theorem hasTree_of_isTree {image : Disk} {newInodesPerGroup : Nat} {blocks : List Nat}
    {es : DirEntries}
    (h : (preparedOn image).any (isTree mapped image newInodesPerGroup blocks es) = true) :
    ∃ p, preparedOn image = some p ∧
      HasTreeOf (mapped p.volume.info) noInfo false newInodesPerGroup image p blocks es := by
  obtain ⟨p, hp, htree⟩ := (Option.any_eq_true _ _).mp h
  simp only [isTree, Bool.and_eq_true, decide_eq_true_eq] at htree
  obtain ⟨⟨⟨⟨h1, h2⟩, h3⟩, h4⟩, h5⟩ := htree
  exact ⟨p, hp, preparedOn_from hp, h1, h2, h3, h4, h5⟩

end LookedUp

theorem renumbering_survives_twoGroups : ∃ (p : Prepared) (d : Disk),
    Restarted 3 noInfo false 24 twoGroupsImage d ∧ stateOf d = .updatingSb ∧
      Renumbered p.volume 24 [7] twoGroupsTree twoGroupsImage d := by
  have htree : (preparedOn twoGroupsImage).any
      (isTree DirInode twoGroupsImage 24 [7] twoGroupsTree) = true := by decide +kernel
  obtain ⟨p, hp, htree⟩ := hasTree_of_isTree DirInode htree
  have hn : (preparedOn twoGroupsImage).all (fun p => p.volume.info.inodesPerGroup.val ≤ 24) = true := by
    decide +kernel
  rw [hp] at hn
  have hn' : p.volume.info.inodesPerGroup.val ≤ 24 := of_decide_eq_true hn
  have hfirst : stateOf twoGroupsImage = .unset ∨ stateOf twoGroupsImage = .markingInums := by
    decide +kernel
  have hd : Restarted 3 noInfo false 24 twoGroupsImage
      (renumber 3 noInfo false 24 (.start twoGroupsImage (some 10))).2.device := .again .first (some 10)
  have hset : stateOf (renumber 3 noInfo false 24 (.start twoGroupsImage (some 10))).2.device ≠
      .unset := by decide +kernel
  obtain ⟨m, hrun, hstate⟩ := (renumbering_survives htree hn' hfirst hd).2 hset (by decide)
  have hlast : Restarted 3 noInfo false 24 twoGroupsImage m.device := by
    have := hd.again none
    rwa [hrun] at this
  exact ⟨p, m.device, hlast, hstate, ((renumbering_survives htree hn' hfirst hlast).1 hstate).1⟩

end Example

end MakeExt4fs

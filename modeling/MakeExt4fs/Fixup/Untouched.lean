import MakeExt4fs.Fixup.Reads

namespace MakeExt4fs

open ErrorLog Interrupt Words

section NoWrite

variable {α : Type} (v : Volume)

abbrev Spares (m : Fixup α) : Prop := m.Keeps Machine.device

theorem Reads.spares {m : Fixup α} (h : Reads m) : Spares m := h.map Prod.fst

theorem writeBlock_spares (blockNum : Nat) (block : Buffer) :
    Spares (writeBlock v true blockNum block) := Act.keeps_pure ()

theorem setFsFixupState_spares (state : FixupState) : Spares (setFsFixupState true state) :=
  Act.keeps_update fun _ => rfl

end NoWrite

-- What a pass over the directories keeps of the device and the descriptors, where writing a block
-- does.
section Keeps

variable {γ : Type} {f : Disk × Buffer → γ} (v : Volume) {noWrite : Bool}

abbrev KeepsPart {α : Type} (f : Disk × Buffer → γ) (m : Fixup α) : Prop :=
  m.Keeps fun s => f s.stored

theorem visitEntry_keeps {pass : Pass} {newInodesPerGroup : Nat}
    {enter : List UInt8 → Nat → Fixup Unit} (henter : ∀ name inum, KeepsPart f (enter name inum))
    (dirbuf : Buffer) (dirp : Nat) :
    KeepsPart f (visitEntry v pass newInodesPerGroup enter dirbuf dirp) := by
  refine ((memGet_reads _ _).map f).bind fun inum => ?_
  refine ((memGet_reads _ _).map f).bind fun nameLen => ?_
  refine (Act.keeps_expect _).bind fun name => ?_
  refine ((isEntryDir_reads v _ _ _).map f).bind fun isDir => ?_
  exact .ite (fun _ => (henter _ _).bind fun _ => Act.keeps_pure _) fun _ => Act.keeps_pure _

theorem walkDir_keeps {pass : Pass} {newInodesPerGroup : Nat}
    {enter : List UInt8 → Nat → Fixup Unit} (henter : ∀ name inum, KeepsPart f (enter name inum))
    (dirsize : Int) (turns dirp : Nat) (prev : Option Nat) (dirbuf : Buffer) :
    KeepsPart f (walkDir v pass newInodesPerGroup enter dirsize turns dirp prev dirbuf) := by
  induction turns generalizing dirp prev dirbuf with
  | zero => exact Act.keeps_crash
  | succ turns ih =>
    have hnext : KeepsPart f (nextEntry v pass newInodesPerGroup enter
        (fun next => walkDir v pass newInodesPerGroup enter dirsize turns next (some dirp))
        dirp dirbuf) := by
      refine ((memGet_reads _ _).map f).bind fun inum => .ite (fun _ => Act.keeps_pure _) fun _ => ?_
      refine (visitEntry_keeps v henter _ _).bind fun dirbuf => ?_
      exact ((memGet_reads _ _).map f).bind fun recLen => ih _ _ _
    rw [walkDir]
    refine .ite (fun _ => Act.keeps_pure _) fun _ => ?_
    cases shortEntry pass dirsize dirp prev with
    | none => exact hnext
    | some prev => exact Act.keeps_pure _

theorem recurseDir_keeps (hwrite : ∀ blockNum block, KeepsPart f (writeBlock v noWrite blockNum block))
    (pass : Pass) (newInodesPerGroup depth : Nat) (inode : Buffer) (dirsize : Int) :
    KeepsPart f (recurseDir v noWrite pass newInodesPerGroup depth inode dirsize) := by
  induction depth generalizing inode dirsize with
  | zero => exact Act.keeps_crash
  | succ depth ih =>
    rw [recurseDir]
    refine .ite (fun _ => Act.keeps_fail _) fun _ => ?_
    refine ((getBlockList_reads v _ _ _).map f).bind fun blockList => ?_
    refine ((readDirBlocks_reads v _ _ _).map f).bind fun dirbuf => ?_
    refine (walkDir_keeps v ?_ _ _ _ _ _).bind fun dirbuf => ?_
    · intro name inum
      refine ((readInode_reads v _).map f).bind fun tmpInode => .ite (fun _ => ?_) fun _ =>
        Act.keeps_fail _
      exact .ite (fun _ => Act.keeps_fail _) fun _ => ih _ _
    · exact Act.keeps_each (fun i => (Act.keeps_expect _).bind fun _ => hwrite _ _) _

end Keeps

section NoWrite

variable (v : Volume)

theorem recurseDir_spares (pass : Pass) (newInodesPerGroup depth : Nat) (inode : Buffer)
    (dirsize : Int) : Spares (recurseDir v true pass newInodesPerGroup depth inode dirsize) :=
  recurseDir_keeps (f := Prod.fst) v (writeBlock_spares v) _ _ _ _ _

theorem checkInodeBitmap_spares (bgNum newInodesPerGroup : Nat) :
    Spares (checkInodeBitmap v true bgNum newInodesPerGroup) := by
  refine (getDesc_reads _).spares.bind fun blockNum => .ite (fun _ => Act.keeps_crash) fun _ => ?_
  refine (readBlock_reads v _).spares.bind fun block => ?_
  refine (Act.keeps_fold (fun _ _ => .ite (fun _ => ?_) fun _ => Act.keeps_crash) _ _).bind
    fun found => ?_
  · exact .ite (fun _ => Act.keeps_pure _) fun _ => Act.keeps_pure _
  · exact .ite (fun _ => writeBlock_spares v _ _) fun _ => Act.keeps_pure _

theorem updateSuperblock_spares (sb : Buffer) (i : Nat) :
    Spares (updateSuperblock v true sb i) :=
  .ite (fun _ => (lseekOr_reads _ _).spares.bind fun _ => Act.keeps_pure _) fun _ =>
    Act.keeps_pure _

theorem updateSuperblocksAndBgDesc_spares (state : FixupState) (newInodesPerGroup : Nat) :
    Spares (updateSuperblocksAndBgDesc v true state newInodesPerGroup) := by
  refine readSb_reads.spares.bind fun sb => ?_
  refine (Act.keeps_each (fun i => ?_) _).bind fun _ => ?_
  · refine .ite (fun _ => ?_) fun _ => checkInodeBitmap_spares v _ _
    refine (getDesc_reads _).spares.bind fun n => ?_
    refine Act.Keeps.bind ?_ fun _ => checkInodeBitmap_spares v _ _
    exact Act.keeps_read.bind fun _ => .ite (fun _ => Act.keeps_update fun _ => rfl) fun _ =>
      Act.keeps_crash
  · refine .ite (fun _ => Act.keeps_fail _) fun _ => .ite (fun _ => Act.keeps_crash) fun _ => ?_
    refine .ite (fun _ => Act.keeps_fail _) fun _ => ?_
    exact (Act.keeps_fold (updateSuperblock_spares v) _ _).bind fun _ => Act.keeps_pure _

theorem updateSuperblocksAndBgDesc_reads (newInodesPerGroup : Nat) :
    Reads (updateSuperblocksAndBgDesc v true .unset newInodesPerGroup) := by
  have hbitmap (i : Nat) : Reads (checkInodeBitmap v true i newInodesPerGroup) := by
    refine (getDesc_reads _).bind fun blockNum => .ite (fun _ => Act.keeps_crash) fun _ => ?_
    refine (readBlock_reads v _).bind fun block => ?_
    refine (Act.keeps_fold (fun _ _ => .ite (fun _ => ?_) fun _ => Act.keeps_crash) _ _).bind
      fun found => ?_
    · exact .ite (fun _ => Act.keeps_pure _) fun _ => Act.keeps_pure _
    · exact .ite (fun _ => Act.keeps_pure ()) fun _ => Act.keeps_pure _
  have hsuper (sb : Buffer) (i : Nat) : Reads (updateSuperblock v true sb i) :=
    .ite (fun _ => (lseekOr_reads _ _).bind fun _ => Act.keeps_pure _) fun _ => Act.keeps_pure _
  refine readSb_reads.bind fun sb => (Act.keeps_each (fun i => ?_) _).bind fun _ => ?_
  · exact hbitmap i
  · refine .ite (fun _ => Act.keeps_fail _) fun _ => .ite (fun _ => Act.keeps_crash) fun _ => ?_
    refine .ite (fun _ => Act.keeps_fail _) fun _ => ?_
    exact (Act.keeps_fold hsuper _ _).bind fun _ => Act.keeps_pure _

theorem prepare_spares (old : FsInfo) (force : Bool) : Spares (prepare old force) := by
  have hparse (sb : Ext4SuperBlock) : Spares (ext4ParseSbInfo old force sb) := by
    refine .ite (fun _ => Act.keeps_fail _) fun _ => .ite (fun _ => Act.keeps_fail _) fun _ => ?_
    exact (Act.keeps_expect _).bind fun _ => .ite (fun _ => Act.keeps_fail _) fun _ =>
      Act.keeps_pure _
  have hread : Spares (readExt old force) := by
    refine readSb_reads.spares.bind fun sb => (hparse _).bind fun v => ?_
    refine (lseekOr_reads _ _).spares.bind fun _ => (lseekOr_reads _ _).spares.bind fun _ => ?_
    refine (readHere_reads _ _ _).spares.bind fun descs => ?_
    exact .ite (fun _ => Act.keeps_fail _) fun _ =>
      Act.Keeps.bind (Act.keeps_update fun _ => rfl) fun _ => Act.keeps_pure _
  refine (call_reads _).spares.bind fun _ => hread.bind fun v => ?_
  refine .ite (fun _ => Act.keeps_fail _) fun _ => .ite (fun _ => Act.keeps_fail _) fun _ => ?_
  refine .ite (fun _ => Act.keeps_fail _) fun _ => .ite (fun _ => Act.keeps_crash) fun _ => ?_
  exact (readInode_reads _ _).spares.bind fun _ => .ite (fun _ => Act.keeps_pure _) fun _ =>
    Act.keeps_fail _

theorem untilMarking_spares (depth : Nat) (old : FsInfo) (force : Bool) :
    Spares (untilMarking depth old force true) := by
  refine (prepare_spares old force).bind fun p => ?_
  refine Act.Keeps.bind ?_ fun checked => Act.keeps_pure _
  refine (getFsFixupState_reads true).spares.bind fun state => .ite (fun _ => ?_) fun _ =>
    Act.keeps_pure _
  exact ((recurseDir_spares _ _ _ _ _ _).bind fun _ =>
    updateSuperblocksAndBgDesc_spares _ _ _).bind fun _ => Act.keeps_pure _

theorem ext4fixupInternal_spares (depth : Nat) (old : FsInfo) (force : Bool) :
    Spares (ext4fixupInternal depth old force true) := by
  have hphase (state : FixupState) {phase : Fixup Unit} (h : Spares phase) :
      Spares (inUpdatePhase true state phase) :=
    (getFsFixupState_reads true).spares.bind fun _ => .ite (fun _ => h) fun _ => Act.keeps_pure _
  have hpasses (p : Prepared) : Spares (writingPhases depth true p) :=
    (hphase _ ((recurseDir_spares _ _ _ _ _ _).bind fun _ => setFsFixupState_spares _)).bind
      fun _ => (hphase _ ((recurseDir_spares _ _ _ _ _ _).bind fun _ =>
        setFsFixupState_spares _)).bind fun _ => hphase _
          ((updateSuperblocksAndBgDesc_spares _ _ _).bind fun _ => setFsFixupState_spares _)
  refine (untilMarking_spares depth old force).bind fun r => ?_
  exact .ite (fun _ => (setFsFixupState_spares _).bind fun _ => hpasses _) fun _ => hpasses _

end NoWrite

end MakeExt4fs

import MakeExt4fs.Fixup.Passes

namespace MakeExt4fs

open ErrorLog Interrupt Words

section Reading

variable {α : Type} (v : Volume)

def Machine.stored (m : Machine) : Disk × Buffer := (m.device, m.bgDesc)

-- The functions that read keep the device, and the ones that write do not with no_write set.
abbrev Reads (m : Fixup α) : Prop := m.Keeps Machine.stored

theorem setPos_reads (f : Machine → Nat) :
    Reads (Act.update fun m : Machine => { m with pos := f m }) :=
  Act.keeps_update fun _ => rfl

theorem lseek_reads (off : Nat) : Reads (lseek off) :=
  .ite (fun _ => Act.keeps_pure false)
    fun _ => (setPos_reads fun _ => off).bind fun _ => Act.keeps_pure true

theorem lseekOr_reads (e : FixupError) (off : Nat) : Reads (lseekOr e off) :=
  (lseek_reads off).bind fun _ => .ite (fun _ => Act.keeps_pure ()) fun _ => Act.keeps_fail e

theorem call_reads (e : FixupError) : Reads (call e) := by
  refine Act.keeps_read.bind fun m => ?_
  split
  · exact Act.keeps_pure ()
  · exact Act.keeps_fail e
  · exact Act.keeps_update fun _ => rfl

theorem readHere_reads (e short : FixupError) (len : Nat) : Reads (readHere e short len) :=
  (call_reads e).bind fun _ => Act.keeps_read.bind fun _ =>
    .ite (fun _ => (setPos_reads fun m => m.pos + len).bind fun _ => Act.keeps_pure _)
      fun _ => Act.keeps_fail short

theorem readSb_reads : Reads readSb :=
  (lseekOr_reads _ _).bind fun _ => readHere_reads _ _ _

theorem getDesc_reads (f : Field) : Reads (getDesc f) :=
  Act.keeps_read.bind fun _ => .ite (fun _ => Act.keeps_pure _) fun _ => Act.keeps_crash

theorem memGet_reads (f : Field) (b : Buffer) : Reads (memGet f b) :=
  .ite (fun _ => Act.keeps_pure _) fun _ => Act.keeps_crash

theorem readInode_reads (inum : Nat) : Reads (readInode v inum) :=
  .ite (fun _ => Act.keeps_crash) fun _ => (getDesc_reads _).bind fun _ =>
    (lseekOr_reads _ _).bind fun _ => readHere_reads _ _ _

theorem readBlock_reads (blockNum : Nat) : Reads (readBlock v blockNum) :=
  (lseek_reads _).bind fun _ => readHere_reads _ _ _

theorem getFsFixupState_reads (noWrite : Bool) : Reads (getFsFixupState noWrite) :=
  .ite (fun _ => Act.keeps_read.bind fun _ => Act.keeps_pure _)
    fun _ => (lseek_reads 0).bind fun _ => (readHere_reads _ _ _).bind fun _ => Act.keeps_pure _

theorem setBlock_reads (blockList : BlockList) (i blockNum : Nat) :
    Reads (setBlock blockList i blockNum) :=
  .ite (fun _ => Act.keeps_pure _) fun _ => Act.keeps_crash

theorem getBlockListIndirect_reads (inode : Buffer) (blockList : BlockList) :
    Reads (getBlockListIndirect v inode blockList) := by
  have hdirect : Reads (getDirectBlocks v inode blockList) :=
    .ite (fun _ => Act.keeps_crash) fun _ =>
      (Act.keeps_fold (fun _ _ => setBlock_reads _ _ _) _ _).bind fun _ => Act.keeps_pure _
  have hindirect (blockList : BlockList) : Reads (getIndirectBlocks v inode blockList) :=
    (readBlock_reads v _).bind fun _ => Act.keeps_fold (fun _ _ =>
      (memGet_reads _ _).bind fun _ => setBlock_reads _ _ _) _ _
  exact hdirect.bind fun _ => .ite (fun _ => hindirect _) fun _ => Act.keeps_pure _

theorem getExtentEnts_reads (b : Buffer) (hdr : Nat) (blockList : BlockList) :
    Reads (getExtentEnts b hdr blockList) := by
  refine (memGet_reads _ _).bind fun _ => .ite (fun _ => Act.keeps_fail _) fun _ => ?_
  refine (memGet_reads _ _).bind fun _ => Act.keeps_fold (fun _ _ => ?_) _ _
  exact (memGet_reads _ _).bind fun _ => (memGet_reads _ _).bind fun _ =>
    (memGet_reads _ _).bind fun _ => (memGet_reads _ _).bind fun _ =>
      Act.keeps_fold (fun _ _ => setBlock_reads _ _ _) _ _

theorem getExtentIdx_reads (depth : Nat) (b : Buffer) (hdr : Nat) (blockList : BlockList) :
    Reads (getExtentIdx v depth b hdr blockList) := by
  induction depth generalizing b hdr blockList with
  | zero => exact Act.keeps_crash
  | succ depth ih =>
    refine (memGet_reads _ _).bind fun _ => .ite (fun _ => Act.keeps_fail _) fun _ => ?_
    refine (memGet_reads _ _).bind fun _ => Act.keeps_fold (fun _ _ => ?_) _ _
    refine (memGet_reads _ _).bind fun _ => (memGet_reads _ _).bind fun _ => ?_
    refine .ite (fun _ => Act.keeps_crash) fun _ => (readBlock_reads v _).bind fun _ => ?_
    refine (memGet_reads _ _).bind fun _ => .ite (fun _ => getExtentEnts_reads _ _ _) fun _ => ?_
    exact ih _ _ _

theorem getBlockList_reads (depth : Nat) (inode : Buffer) (numBlocks : Nat) :
    Reads (getBlockList v depth inode numBlocks) := by
  have hextents (blockList : BlockList) : Reads (getBlockListExtents v depth inode blockList) :=
    .ite (fun _ => Act.keeps_fail _) fun _ =>
      .ite (fun _ => getExtentEnts_reads _ _ _) fun _ => getExtentIdx_reads v _ _ _ _
  exact .ite (fun _ => hextents _) fun _ =>
    .ite (fun _ => Act.keeps_fail _) fun _ => getBlockListIndirect_reads v _ _

theorem isEntryDir_reads (dirbuf : Buffer) (dirp : Nat) (pass : Pass) :
    Reads (isEntryDir v dirbuf dirp pass) := by
  refine (memGet_reads _ _).bind fun _ => .ite (fun _ => Act.keeps_pure _) fun _ => ?_
  refine .ite (fun _ => ?_) fun _ => Act.keeps_pure _
  refine (memGet_reads _ _).bind fun _ => .ite (fun _ => Act.keeps_pure _) fun _ => ?_
  exact (readInode_reads v _).bind fun _ => Act.keeps_pure _

theorem readDirBlocks_reads (blockList : BlockList) (numBlocks : Nat) (dirbuf : Buffer) :
    Reads (readDirBlocks v blockList numBlocks dirbuf) :=
  Act.keeps_fold (fun _ _ => (Act.keeps_expect _).bind fun _ =>
    (readBlock_reads v _).bind fun _ => Act.keeps_pure _) _ _

theorem Reads.ends {m : Fixup α} (h : Reads m) {s : Machine}
    {Q : α → Machine → Prop} {E : Stop FixupError → Machine → Prop}
    (hq : ∀ a s', m s = (.ok a, s') → s'.stored = s.stored → Q a s')
    (he : ∀ e s', s'.stored = s.stored → E e s') : m.Ends Q E s :=
  Act.ends_of_run (fun a s' hm => hq a s' hm (by simpa [hm] using h s))
    fun e s' hm => he e s' (by simpa [hm] using h s)

end Reading

section Steps

variable {s : Machine} {E : Stop FixupError → Machine → Prop}

theorem lseek_ends {off : Nat} {Q : Bool → Machine → Prop}
    (hq : off < 9223372036854775808 → Q true { s with pos := off })
    (hn : 9223372036854775808 ≤ off → Q false s) : (lseek off).Ends Q E s := by
  unfold lseek
  split
  · exact hn ‹_›
  · exact hq (by omega)

theorem lseekOr_ends {e : FixupError} {off : Nat} {Q : Unit → Machine → Prop}
    (hq : off < 9223372036854775808 → Q () { s with pos := off }) (he : E (.error e) s) :
    (lseekOr e off).Ends Q E s := by
  rw [lseekOr, Act.ends_bind]
  exact lseek_ends hq fun _ => he

theorem call_ends {e : FixupError} {Q : Unit → Machine → Prop}
    (hq : ∀ left, Q () { s with left }) (he : E (.error e) s) : (call e).Ends Q E s := by
  rw [call, Act.ends_bind, Act.ends_read]
  split
  · exact hq s.left
  · exact he
  · exact hq (some _)

theorem readHere_ends {e short : FixupError} {len : Nat} {Q : Buffer → Machine → Prop}
    (hq : ∀ left, s.pos + len ≤ s.device.size →
      Q (s.device.view s.pos len) { s with pos := s.pos + len, left })
    (he : ∀ err left, E (.error err) { s with left }) : (readHere e short len).Ends Q E s := by
  rw [readHere, Act.ends_bind]
  refine call_ends (fun left => ?_) (he e s.left)
  rw [Act.ends_bind, Act.ends_read]
  split
  · exact hq left ‹_›
  · exact he short left

theorem writeHere_ends {e : FixupError} {src : Buffer} {Q : Unit → Machine → Prop}
    (hq : ∀ left, Q () { s with
      device := s.device.writeAt s.pos src, pos := s.pos + src.size, left
      written := s.written ++ [(s.pos, src)] })
    (he : E (.error e) s) : (writeHere e src).Ends Q E s := by
  rw [writeHere, Act.ends_bind]
  exact call_ends hq he

end Steps

end MakeExt4fs

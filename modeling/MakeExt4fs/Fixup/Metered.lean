import MakeExt4fs.Fixup.Untouched

namespace MakeExt4fs

open ErrorLog Interrupt Words

namespace Machine

def withLeft (m : Machine) (left : Option Nat) : Machine := { m with left }

@[simp] theorem withLeft_withLeft (m : Machine) (x y : Option Nat) :
    (m.withLeft x).withLeft y = m.withLeft y := rfl

@[simp] theorem left_withLeft (m : Machine) (x : Option Nat) : (m.withLeft x).left = x := rfl

@[simp] theorem device_withLeft (m : Machine) (x : Option Nat) :
    (m.withLeft x).device = m.device := rfl

@[simp] theorem stored_withLeft (m : Machine) (x : Option Nat) :
    (m.withLeft x).stored = m.stored := rfl

theorem withLeft_start (device : Disk) (x y : Option Nat) :
    (start device x).withLeft y = start device y := rfl

theorem withLeft_self {m : Machine} {x : Option Nat} (h : m.left = x) : m.withLeft x = m := by
  rw [← h]
  rfl

end Machine

-- The calls that are left decide where a run stops and nothing else: what succeeds does so with all
-- calls left, it takes a number of them, and with none left nothing is written any more.
structure Metered {α : Type} (f : Fixup α) : Prop where
  lenient : ∀ {m a m'}, f m = (.ok a, m') → f (m.withLeft none) = (.ok a, m'.withLeft none)
  pays : ∀ {m a m'}, m.left = none → f m = (.ok a, m') → m'.left = none ∧
    ∃ c, ∀ j, f (m.withLeft (some (c + j))) = (.ok a, m'.withLeft (some j))
  stuck : ∀ {m}, m.left = some 0 → (f m).2.left = some 0 ∧ (f m).2.device = m.device

section Combining

variable {α β : Type}

theorem metered_pure (a : α) : Metered (pure a : Fixup α) where
  lenient h := by
    cases h
    rfl
  pays hleft h := by
    cases h
    exact ⟨hleft, 0, fun j => by rw [Nat.zero_add]; rfl⟩
  stuck hleft := ⟨hleft, rfl⟩

theorem metered_fail (e : FixupError) : Metered (Act.fail e : Fixup α) where
  lenient h := by cases h
  pays _ h := by cases h
  stuck hleft := ⟨hleft, rfl⟩

theorem metered_crash : Metered (Act.crash : Fixup α) where
  lenient h := by cases h
  pays _ h := by cases h
  stuck hleft := ⟨hleft, rfl⟩

theorem metered_expect (o : Option α) : Metered (Act.expect o : Fixup α) := by
  cases o with
  | none => exact metered_crash
  | some a => exact metered_pure a

theorem Metered.bind {f : Fixup α} {g : α → Fixup β} (hf : Metered f)
    (hg : ∀ a, Metered (g a)) : Metered (f >>= g) where
  lenient h := by
    obtain ⟨a, m1, h1, h2⟩ := Act.bind_ok.mp h
    exact Act.bind_ok.mpr ⟨a, _, hf.lenient h1, (hg a).lenient h2⟩
  pays hleft h := by
    obtain ⟨a, m1, h1, h2⟩ := Act.bind_ok.mp h
    obtain ⟨hleft1, c1, hc1⟩ := hf.pays hleft h1
    obtain ⟨hleft2, c2, hc2⟩ := (hg a).pays hleft1 h2
    refine ⟨hleft2, c1 + c2, fun j => ?_⟩
    rw [Nat.add_assoc]
    exact Act.bind_ok.mpr ⟨a, _, hc1 (c2 + j), hc2 j⟩
  stuck {m} hleft := by
    have h1 := hf.stuck hleft
    rw [Act.bind_run]
    rcases hm : f m with ⟨e | a, m1⟩ <;> rw [hm] at h1
    · exact h1
    · have h2 := (hg a).stuck h1.1
      exact ⟨h2.1, h2.2.trans h1.2⟩

theorem Metered.ite {c : Prop} [Decidable c] {f g : Fixup α} (hf : Metered f) (hg : Metered g) :
    Metered (if c then f else g) := by
  split
  · exact hf
  · exact hg

theorem metered_each {ι : Type} {f : ι → Fixup Unit} (h : ∀ x, Metered (f x)) (xs : List ι) :
    Metered (Act.each xs f) := by
  induction xs with
  | nil => exact metered_pure ()
  | cons x rest ih => exact (h x).bind fun _ => ih

theorem metered_fold {ι : Type} {f : α → ι → Fixup α} (h : ∀ a x, Metered (f a x)) (xs : List ι)
    (a : α) : Metered (Act.fold xs f a) := by
  induction xs generalizing a with
  | nil => exact metered_pure a
  | cons x rest ih => exact (h a x).bind ih

theorem metered_read {f : Machine → Fixup α} (hf : ∀ m, Metered (f m))
    (hsame : ∀ m x, f (m.withLeft x) = f m) : Metered (Act.read >>= f) where
  lenient {m a m'} h := by
    change f m m = _ at h
    change f (m.withLeft none) (m.withLeft none) = _
    rw [hsame]
    exact (hf m).lenient h
  pays {m a m'} hleft h := by
    change f m m = _ at h
    obtain ⟨hleft', c, hc⟩ := (hf m).pays hleft h
    refine ⟨hleft', c, fun j => ?_⟩
    change f (m.withLeft _) (m.withLeft _) = _
    rw [hsame]
    exact hc j
  stuck {m} hleft := (hf m).stuck hleft

theorem metered_update {g : Machine → Machine} (hleft : ∀ m x, g (m.withLeft x) = (g m).withLeft x)
    (hdev : ∀ m, (g m).device = m.device) : Metered (Act.update g : Fixup Unit) := by
  have hsame (m : Machine) : (g m).left = m.left := by
    have h := congrArg Machine.left (hleft m m.left)
    rwa [Machine.withLeft_self rfl] at h
  constructor
  · rintro m a m' h
    cases h
    exact Prod.ext rfl (hleft m none)
  · rintro m a m' hm h
    cases h
    refine ⟨(hsame m).trans hm, 0, fun j => ?_⟩
    rw [Nat.zero_add]
    exact Prod.ext rfl (hleft m (some j))
  · rintro m hm
    exact ⟨(hsame m).trans hm, hdev m⟩

end Combining

section Device

theorem call_metered (e : FixupError) : Metered (call e) where
  lenient {m a m'} h := by
    obtain ⟨device, pos, left, state, descs, written⟩ := m
    rcases left with _ | _ | n <;> cases h <;> rfl
  pays {m a m'} hleft h := by
    obtain ⟨device, pos, left, state, descs, written⟩ := m
    cases hleft
    cases h
    refine ⟨rfl, 1, fun j => ?_⟩
    rw [Nat.add_comm]
    rfl
  stuck {m} hleft := by
    obtain ⟨device, pos, left, state, descs, written⟩ := m
    cases hleft
    exact ⟨rfl, rfl⟩

theorem lseek_metered (off : Nat) : Metered (lseek off) := by
  refine .ite (metered_pure _) (Metered.bind ?_ fun _ => metered_pure _)
  exact metered_update (fun _ _ => rfl) fun _ => rfl

theorem lseekOr_metered (e : FixupError) (off : Nat) : Metered (lseekOr e off) :=
  (lseek_metered off).bind fun _ => .ite (metered_pure _) (metered_fail _)

theorem readHere_metered (e short : FixupError) (len : Nat) : Metered (readHere e short len) := by
  refine (call_metered e).bind fun _ => metered_read (fun m => ?_) fun _ _ => rfl
  refine .ite (Metered.bind ?_ fun _ => metered_pure _) (metered_fail _)
  exact metered_update (fun _ _ => rfl) fun _ => rfl

theorem writeHere_metered (e : FixupError) (src : Buffer) : Metered (writeHere e src) where
  lenient {m a m'} h := by
    obtain ⟨device, pos, left, state, descs, written⟩ := m
    rcases left with _ | _ | n <;> cases h <;> rfl
  pays {m a m'} hleft h := by
    obtain ⟨device, pos, left, state, descs, written⟩ := m
    cases hleft
    cases h
    refine ⟨rfl, 1, fun j => ?_⟩
    rw [Nat.add_comm]
    rfl
  stuck {m} hleft := by
    obtain ⟨device, pos, left, state, descs, written⟩ := m
    cases hleft
    exact ⟨rfl, rfl⟩

theorem readSb_metered : Metered readSb :=
  (lseekOr_metered _ _).bind fun _ => readHere_metered _ _ _

theorem getFsFixupState_metered (noWrite : Bool) : Metered (getFsFixupState noWrite) :=
  .ite (metered_read (fun _ => metered_pure _) fun _ _ => rfl) <|
    (lseek_metered _).bind fun _ => (readHere_metered _ _ _).bind fun _ => metered_pure _

theorem getDesc_metered (f : Field) : Metered (getDesc f) :=
  metered_read (fun _ => .ite (metered_pure _) metered_crash) fun _ _ => rfl

theorem memGet_metered (f : Field) (b : Buffer) : Metered (memGet f b) :=
  .ite (metered_pure _) metered_crash

theorem setBlock_metered (blockList : BlockList) (i blockNum : Nat) :
    Metered (setBlock blockList i blockNum) := .ite (metered_pure _) metered_crash

end Device

section Directories

variable (v : Volume)

theorem readInode_metered (inum : Nat) : Metered (readInode v inum) :=
  .ite metered_crash <| (getDesc_metered _).bind fun _ =>
    (lseekOr_metered _ _).bind fun _ => readHere_metered _ _ _

theorem readBlock_metered (blockNum : Nat) : Metered (readBlock v blockNum) :=
  (lseek_metered _).bind fun _ => readHere_metered _ _ _

theorem writeBlock_metered (noWrite : Bool) (blockNum : Nat) (block : Buffer) :
    Metered (writeBlock v noWrite blockNum block) :=
  .ite (metered_pure ()) <| (lseekOr_metered _ _).bind fun _ => writeHere_metered _ _

theorem getBlockListIndirect_metered (inode : Buffer) (blockList : BlockList) :
    Metered (getBlockListIndirect v inode blockList) := by
  have hdirect : Metered (getDirectBlocks v inode blockList) :=
    .ite metered_crash <|
      (metered_fold (fun _ _ => setBlock_metered _ _ _) _ _).bind fun _ => metered_pure _
  have hindirect (blockList : BlockList) : Metered (getIndirectBlocks v inode blockList) :=
    (readBlock_metered v _).bind fun _ => metered_fold (fun _ _ =>
      (memGet_metered _ _).bind fun _ => setBlock_metered _ _ _) _ _
  exact hdirect.bind fun _ => .ite (hindirect _) (metered_pure _)

theorem getExtentEnts_metered (b : Buffer) (hdr : Nat) (blockList : BlockList) :
    Metered (getExtentEnts b hdr blockList) := by
  refine (memGet_metered _ _).bind fun _ => .ite (metered_fail _) ?_
  refine (memGet_metered _ _).bind fun _ => metered_fold (fun _ _ => ?_) _ _
  exact (memGet_metered _ _).bind fun _ => (memGet_metered _ _).bind fun _ =>
    (memGet_metered _ _).bind fun _ => (memGet_metered _ _).bind fun _ =>
      metered_fold (fun _ _ => setBlock_metered _ _ _) _ _

theorem getExtentIdx_metered (depth : Nat) (b : Buffer) (hdr : Nat) (blockList : BlockList) :
    Metered (getExtentIdx v depth b hdr blockList) := by
  induction depth generalizing b hdr blockList with
  | zero => exact metered_crash
  | succ depth ih =>
    refine (memGet_metered _ _).bind fun _ => .ite (metered_fail _) ?_
    refine (memGet_metered _ _).bind fun _ => metered_fold (fun _ _ => ?_) _ _
    refine (memGet_metered _ _).bind fun _ => (memGet_metered _ _).bind fun _ => ?_
    refine .ite metered_crash ((readBlock_metered v _).bind fun _ => ?_)
    exact (memGet_metered _ _).bind fun _ => .ite (getExtentEnts_metered _ _ _) (ih _ _ _)

theorem getBlockList_metered (depth : Nat) (inode : Buffer) (numBlocks : Nat) :
    Metered (getBlockList v depth inode numBlocks) := by
  have hextents (blockList : BlockList) : Metered (getBlockListExtents v depth inode blockList) :=
    .ite (metered_fail _) <| .ite (getExtentEnts_metered _ _ _) (getExtentIdx_metered v _ _ _ _)
  exact .ite (hextents _) <| .ite (metered_fail _) (getBlockListIndirect_metered v _ _)

theorem isEntryDir_metered (dirbuf : Buffer) (dirp : Nat) (pass : Pass) :
    Metered (isEntryDir v dirbuf dirp pass) := by
  refine (memGet_metered _ _).bind fun _ => .ite (metered_pure _) (.ite ?_ (metered_pure _))
  refine (memGet_metered _ _).bind fun _ => .ite (metered_pure _) ?_
  exact (readInode_metered v _).bind fun _ => metered_pure _

theorem readDirBlocks_metered (blockList : BlockList) (numBlocks : Nat) (dirbuf : Buffer) :
    Metered (readDirBlocks v blockList numBlocks dirbuf) :=
  metered_fold (fun _ _ => (metered_expect _).bind fun _ =>
    (readBlock_metered v _).bind fun _ => metered_pure _) _ _

variable {noWrite : Bool} {pass : Pass} {newInodesPerGroup : Nat}
  {enter : List UInt8 → Nat → Fixup Unit}

theorem visitEntry_metered (henter : ∀ name inum, Metered (enter name inum)) (dirbuf : Buffer)
    (dirp : Nat) : Metered (visitEntry v pass newInodesPerGroup enter dirbuf dirp) := by
  refine (memGet_metered _ _).bind fun _ => (memGet_metered _ _).bind fun _ => ?_
  refine (metered_expect _).bind fun _ => (isEntryDir_metered v _ _ _).bind fun _ => ?_
  exact .ite ((henter _ _).bind fun _ => metered_pure _) (metered_pure _)

theorem walkDir_metered (henter : ∀ name inum, Metered (enter name inum)) (dirsize : Int)
    (turns dirp : Nat) (prev : Option Nat) (dirbuf : Buffer) :
    Metered (walkDir v pass newInodesPerGroup enter dirsize turns dirp prev dirbuf) := by
  induction turns generalizing dirp prev dirbuf with
  | zero => exact metered_crash
  | succ turns ih =>
    have hnext : Metered (nextEntry v pass newInodesPerGroup enter
        (fun next => walkDir v pass newInodesPerGroup enter dirsize turns next (some dirp))
        dirp dirbuf) := by
      refine (memGet_metered _ _).bind fun _ => .ite (metered_pure _) ?_
      refine (visitEntry_metered v henter _ _).bind fun _ => ?_
      exact (memGet_metered _ _).bind fun _ => ih _ _ _
    rw [walkDir]
    refine .ite (metered_pure _) ?_
    cases shortEntry pass dirsize dirp prev with
    | none => exact hnext
    | some prev => exact metered_pure _

theorem writeDirBlocks_metered (blockList : BlockList) (numBlocks : Nat) (dirbuf : Buffer) :
    Metered (writeDirBlocks v noWrite blockList numBlocks dirbuf) :=
  metered_each (fun _ => (metered_expect _).bind fun _ => writeBlock_metered v _ _ _) _

theorem recurseDir_metered (depth : Nat) (inode : Buffer) (dirsize : Int) :
    Metered (recurseDir v noWrite pass newInodesPerGroup depth inode dirsize) := by
  induction depth generalizing inode dirsize with
  | zero => exact metered_crash
  | succ depth ih =>
    rw [recurseDir]
    refine .ite (metered_fail _) ?_
    refine (getBlockList_metered v _ _ _).bind fun _ => ?_
    refine (readDirBlocks_metered v _ _ _).bind fun _ => ?_
    refine (walkDir_metered v ?_ _ _ _ _ _).bind fun _ => writeDirBlocks_metered v _ _ _
    intro name inum
    refine (readInode_metered v _).bind fun _ => .ite ?_ (metered_fail _)
    exact .ite (metered_fail _) (ih _ _)

theorem updateSuperblocksAndBgDesc_metered (newInodesPerGroup : Nat) :
    Metered (updateSuperblocksAndBgDesc v true .unset newInodesPerGroup) := by
  have hbitmap (i : Nat) : Metered (checkInodeBitmap v true i newInodesPerGroup) := by
    refine (getDesc_metered _).bind fun _ => .ite metered_crash ?_
    refine (readBlock_metered v _).bind fun _ => ?_
    refine (metered_fold (fun _ _ => .ite ?_ metered_crash) _ _).bind fun _ => ?_
    · exact .ite (metered_pure _) (metered_pure _)
    · exact .ite (metered_pure ()) (metered_pure _)
  have hsuper (sb : Buffer) (i : Nat) : Metered (updateSuperblock v true sb i) :=
    .ite ((lseekOr_metered _ _).bind fun _ => metered_pure _) (metered_pure _)
  refine readSb_metered.bind fun _ => (metered_each (fun i => hbitmap i) _).bind fun _ => ?_
  refine .ite (metered_fail _) <| .ite metered_crash <| .ite (metered_fail _) ?_
  exact (metered_fold hsuper _ _).bind fun _ => metered_pure _

end Directories

theorem prepare_metered (old : FsInfo) (force : Bool) : Metered (prepare old force) := by
  have hparse (sb : Ext4SuperBlock) : Metered (ext4ParseSbInfo old force sb) :=
    .ite (metered_fail _) <| .ite (metered_fail _) <| (metered_expect _).bind fun _ =>
      .ite (metered_fail _) (metered_pure _)
  have hread : Metered (readExt old force) := by
    refine readSb_metered.bind fun _ => (hparse _).bind fun _ => ?_
    refine (lseekOr_metered _ _).bind fun _ => (lseekOr_metered _ _).bind fun _ => ?_
    refine (readHere_metered _ _ _).bind fun _ => .ite (metered_fail _) ?_
    refine Metered.bind ?_ fun _ => metered_pure _
    exact metered_update (fun _ _ => rfl) fun _ => rfl
  refine (call_metered _).bind fun _ => hread.bind fun _ => .ite (metered_fail _) ?_
  refine .ite (metered_fail _) (.ite (metered_fail _) (.ite metered_crash ?_))
  exact (readInode_metered _ _).bind fun _ => .ite (metered_pure _) (metered_fail _)

end MakeExt4fs

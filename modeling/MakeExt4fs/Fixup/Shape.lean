import MakeExt4fs.Fixup.DirMapping
import MakeExt4fs.Fixup.DirTree

namespace MakeExt4fs

open Words

theorem getLE_shift {b c : Buffer} {o o' n : Nat} (h : ∀ k < n, b.get (o + k) = c.get (o' + k)) :
    b.getLE o n = c.getLE o' n := by
  induction n generalizing o o' with
  | zero => rfl
  | succ n ih =>
    have hnext : b.getLE (o + 1) n = c.getLE (o' + 1) n := ih fun k hk => by
      have := h (k + 1) (by omega)
      rwa [← Nat.add_assoc, ← Nat.add_assoc, Nat.add_right_comm o, Nat.add_right_comm o'] at this
    have hfirst : b.get o = c.get o' := h 0 (by omega)
    rw [Buffer.getLE, Buffer.getLE, hnext, hfirst]

def dirData (bs : Nat) (d : Disk) (blocks : List Nat) : Buffer :=
  ⟨blocks.length * bs, fun off => UInt8.ofNat (d.get (dirAddr bs blocks off))⟩

theorem dirData_hasData (bs : Nat) (d : Disk) (blocks : List Nat) :
    HasData bs d blocks (dirData bs d blocks) := by
  refine ⟨rfl, fun off hoff => ?_⟩
  rw [Buffer.get, if_pos (by exact hoff)]
  exact Buffer.toNat_ofNat_get _ _

section Shape

variable (info : FsInfo) (newInodesPerGroup : Nat) (descs : Buffer) (d : Disk) (all : List Nat)

structure InodeKept (inum : Nat) : Prop extends InodeThere info descs d inum where
  behind : 2048 ≤ inodeAddr info descs inum
  apart : ∀ b ∈ all, inodeAddr info descs inum + sizeofExt4Inode ≤ b * info.blockSize.val ∨
    b * info.blockSize.val + info.blockSize.val ≤ inodeAddr info descs inum

-- A directory with inline extents, of which i_blocks counts exactly the data blocks.
structure DirInode (inode : Buffer) (blocks : List Nat) : Prop extends
    InlineExtents inode blocks where
  isDir : sIsdir (iMode.get inode) = true
  counted : iBlocksLo.get inode * inodeBlockSize = blocks.length * info.blockSize.val

structure DirentAt (data : Buffer) (off inum : Nat) : Prop where
  inode : (direntInode off).get data = inum
  pos : 0 < inum
  named : 0 < (direntNameLen off).get data
  holdsName : 8 + (direntNameLen off).get data ≤ (direntRecLen off).get data
  inBlock : off % info.blockSize.val + (direntRecLen off).get data ≤ info.blockSize.val
  old_lt : inum < pendingBit
  new_lt : (inum - 1) / info.inodesPerGroup.val * newInodesPerGroup +
    (inum - 1) % info.inodesPerGroup.val + 1 < pendingBit

structure UnusedAt (data : Buffer) (off : Nat) : Prop where
  inode : (direntInode off).get data = 0
  long : 8 < (direntRecLen off).get data
  inBlock : off % info.blockSize.val + (direntRecLen off).get data ≤ info.blockSize.val

def isDotAt (data : Buffer) (off : Nat) : Bool :=
  (nameFrom data (off + 8) ((direntNameLen off).get data)).any isDotName

-- The type in the entry says that it is a directory, or says nothing and its inode does.
def isDirAt (data : Buffer) (off inum : Nat) : Bool :=
  decide ((direntFileType off).get data = ext4FtDir) ||
    (decide ((direntFileType off).get data = ext4FtUnknown) &&
      sIsdir (iMode.get (inodeAt info descs d inum)))

namespace DirEntries

def Shaped (mapped : Buffer → List Nat → Prop) : List Nat → Nat → DirEntries → Prop
  | blocks, off, nil => off = blocks.length * info.blockSize.val
  | blocks, off, unused off' rest =>
    off' = off ∧ off < blocks.length * info.blockSize.val ∧
      UnusedAt info (dirData info.blockSize.val d blocks) off ∧
      rest.Shaped mapped blocks
        (off + (direntRecLen off).get (dirData info.blockSize.val d blocks))
  | blocks, off, other off' inum rest =>
    off' = off ∧ off < blocks.length * info.blockSize.val ∧
      DirentAt info newInodesPerGroup (dirData info.blockSize.val d blocks) off inum ∧
      ((direntFileType off).get (dirData info.blockSize.val d blocks) = ext4FtUnknown →
        InodeKept info descs d all inum) ∧
      (isDirAt info descs d (dirData info.blockSize.val d blocks) off inum &&
        !isDotAt (dirData info.blockSize.val d blocks) off) = false ∧
      rest.Shaped mapped blocks
        (off + (direntRecLen off).get (dirData info.blockSize.val d blocks))
  | blocks, off, dir off' inum blks sub rest =>
    off' = off ∧ off < blocks.length * info.blockSize.val ∧
      DirentAt info newInodesPerGroup (dirData info.blockSize.val d blocks) off inum ∧
      InodeKept info descs d all inum ∧
      (isDirAt info descs d (dirData info.blockSize.val d blocks) off inum &&
        !isDotAt (dirData info.blockSize.val d blocks) off) = true ∧
      mapped (inodeAt info descs d inum) blks ∧
      sub.Shaped mapped blks 0 ∧
      rest.Shaped mapped blocks
        (off + (direntRecLen off).get (dirData info.blockSize.val d blocks))

end DirEntries

end Shape

section Decide

variable (info : FsInfo) (newInodesPerGroup : Nat) (descs : Buffer) (d : Disk) (all : List Nat)

instance (inum : Nat) : Decidable (InodeKept info descs d all inum) :=
  decidable_of_iff ((32 * (sub32 inum 1 / info.inodesPerGroup.val) + 12 ≤ descs.size ∧
      inodeAddr info descs inum + sizeofExt4Inode ≤ d.size) ∧ 2048 ≤ inodeAddr info descs inum ∧
      ∀ b ∈ all, inodeAddr info descs inum + sizeofExt4Inode ≤ b * info.blockSize.val ∨
        b * info.blockSize.val + info.blockSize.val ≤ inodeAddr info descs inum)
    ⟨fun ⟨⟨h1, h2⟩, h3, h4⟩ => ⟨⟨h1, h2⟩, h3, h4⟩, fun ⟨⟨h1, h2⟩, h3, h4⟩ => ⟨⟨h1, h2⟩, h3, h4⟩⟩

instance (inode : Buffer) (blocks : List Nat) : Decidable (DirInode info inode blocks) :=
  decidable_of_iff (InlineExtents inode blocks ∧ sIsdir (iMode.get inode) = true ∧
      iBlocksLo.get inode * inodeBlockSize = blocks.length * info.blockSize.val)
    ⟨fun ⟨h1, h2, h3⟩ => ⟨h1, h2, h3⟩, fun ⟨h1, h2, h3⟩ => ⟨h1, h2, h3⟩⟩

instance (data : Buffer) (off inum : Nat) :
    Decidable (DirentAt info newInodesPerGroup data off inum) :=
  decidable_of_iff ((direntInode off).get data = inum ∧ 0 < inum ∧
      0 < (direntNameLen off).get data ∧
      8 + (direntNameLen off).get data ≤ (direntRecLen off).get data ∧
      off % info.blockSize.val + (direntRecLen off).get data ≤ info.blockSize.val ∧
      inum < pendingBit ∧ (inum - 1) / info.inodesPerGroup.val * newInodesPerGroup +
        (inum - 1) % info.inodesPerGroup.val + 1 < pendingBit)
    ⟨fun ⟨h1, h2, h3, h4, h5, h6, h7⟩ => ⟨h1, h2, h3, h4, h5, h6, h7⟩,
      fun ⟨h1, h2, h3, h4, h5, h6, h7⟩ => ⟨h1, h2, h3, h4, h5, h6, h7⟩⟩

instance (data : Buffer) (off : Nat) : Decidable (UnusedAt info data off) :=
  decidable_of_iff ((direntInode off).get data = 0 ∧ 8 < (direntRecLen off).get data ∧
      off % info.blockSize.val + (direntRecLen off).get data ≤ info.blockSize.val)
    ⟨fun ⟨h1, h2, h3⟩ => ⟨h1, h2, h3⟩, fun ⟨h1, h2, h3⟩ => ⟨h1, h2, h3⟩⟩

def decideShaped (mapped : Buffer → List Nat → Prop) [∀ inode blocks, Decidable (mapped inode blocks)] :
    (blocks : List Nat) → (off : Nat) → (es : DirEntries) →
    Decidable (es.Shaped info newInodesPerGroup descs d all mapped blocks off)
  | blocks, off, .nil => inferInstanceAs (Decidable (off = blocks.length * info.blockSize.val))
  | blocks, off, .unused _ rest =>
    have := decideShaped mapped blocks
      (off + (direntRecLen off).get (dirData info.blockSize.val d blocks)) rest
    inferInstanceAs (Decidable (_ ∧ _ ∧ _ ∧ _))
  | blocks, off, .other _ _ rest =>
    have := decideShaped mapped blocks
      (off + (direntRecLen off).get (dirData info.blockSize.val d blocks)) rest
    inferInstanceAs (Decidable (_ ∧ _ ∧ _ ∧ (_ → _) ∧ _ ∧ _))
  | blocks, off, .dir _ _ blks sub rest =>
    have := decideShaped mapped blocks
      (off + (direntRecLen off).get (dirData info.blockSize.val d blocks)) rest
    have := decideShaped mapped blks 0 sub
    inferInstanceAs (Decidable (_ ∧ _ ∧ _ ∧ _ ∧ _ ∧ _ ∧ _ ∧ _))

instance (mapped : Buffer → List Nat → Prop) [∀ inode blocks, Decidable (mapped inode blocks)]
    (blocks : List Nat) (off : Nat) (es : DirEntries) :
    Decidable (es.Shaped info newInodesPerGroup descs d all mapped blocks off) :=
  decideShaped info newInodesPerGroup descs d all mapped blocks off es

end Decide

structure DirectoryAt (v : Volume) (d : Disk) (all : List Nat) (inode : Buffer)
    (blocks : List Nat) : Prop where
  isDir : sIsdir (iMode.get inode) = true
  mapping : DirMapping v d all inode blocks

section Directory

variable {v v' : Volume} {d : Disk} {all blocks : List Nat} {inode inode' : Buffer}

theorem DirectoryAt.congr (h : DirectoryAt v d all inode blocks) (hinfo : v'.info = v.info)
    (hisize : inode.size ≤ inode'.size) (hsame : ∀ f : Field, f.get inode' = f.get inode) :
    DirectoryAt v' d all inode' blocks :=
  ⟨by rw [hsame]; exact h.isDir,
    h.mapping.congr hinfo hisize hsame rfl fun _ _ _ _ => rfl⟩

theorem DirInode.directoryAt (h : DirInode v.info inode blocks) :
    DirectoryAt v d all inode blocks :=
  ⟨h.isDir, .inline h.toInlineExtents h.counted⟩

theorem DirInode.countsData (h : DirInode v.info inode blocks) : CountsData v.info inode blocks :=
  h.counted

theorem DirectoryAt.dirsize (h : DirectoryAt v d all inode blocks)
    (hbs : v.info.blockSize.val ≤ maxExt4BlockSize) (hcounted : CountsData v.info inode blocks) :
    s32 (countedBytes inode) = (blocks.length * v.info.blockSize.val : Nat) := by
  rw [hcounted, s32_of_lt (h.mapping.size_lt hbs hcounted)]

theorem DirectoryAt.not_overread (h : DirectoryAt v d all inode blocks)
    (hbs : v.info.blockSize.val ≤ maxExt4BlockSize) (hcounted : CountsData v.info inode blocks) :
    ¬ Overread v.info inode blocks := by
  have hlt := h.mapping.size_lt hbs hcounted
  have hcount : countedBytes inode = blocks.length * v.info.blockSize.val := hcounted
  rintro (hwrap | ⟨-, hmore, -⟩)
  · omega
  · exact hmore hcounted

end Directory

namespace DirEntries

section Below

variable (info : FsInfo) (descs : Buffer) (d : Disk)

def AllBelow (P : Buffer → List Nat → Prop) : DirEntries → Prop
  | nil => True
  | unused _ _ => True
  | other _ _ rest => rest.AllBelow P
  | dir _ inum blocks sub rest =>
    (P (inodeAt info descs d inum) blocks ∧ sub.AllBelow P) ∧ rest.AllBelow P

variable {info descs d} {P P' : Buffer → List Nat → Prop} {es : DirEntries}

theorem AllBelow.imp (h : es.AllBelow info descs d P)
    (himp : ∀ inode blocks, P inode blocks → P' inode blocks) :
    es.AllBelow info descs d P' := by
  induction es with
  | nil => trivial
  | unused off rest => trivial
  | other off inum rest ih => exact ih h
  | dir off inum blks sub rest ihsub ih => exact ⟨⟨himp _ _ h.1.1, ihsub h.1.2⟩, ih h.2⟩

theorem AllBelow.and (h : es.AllBelow info descs d P) (h' : es.AllBelow info descs d P') :
    es.AllBelow info descs d fun inode blocks => P inode blocks ∧ P' inode blocks := by
  induction es with
  | nil => trivial
  | unused off rest => trivial
  | other off inum rest ih => exact ih h h'
  | dir off inum blks sub rest ihsub ih =>
    exact ⟨⟨⟨h.1.1, h'.1.1⟩, ihsub h.1.2 h'.1.2⟩, ih h.2 h'.2⟩

variable {newInodesPerGroup off : Nat} {all blocks : List Nat}

theorem Shaped.imp (h : es.Shaped info newInodesPerGroup descs d all P blocks off)
    (himp : ∀ inode blocks, P inode blocks → P' inode blocks) :
    es.Shaped info newInodesPerGroup descs d all P' blocks off := by
  induction es generalizing blocks off with
  | nil => exact h
  | unused off' rest ih => exact ⟨h.1, h.2.1, h.2.2.1, ih h.2.2.2⟩
  | other off' inum rest ih =>
    obtain ⟨h1, h2, h3, h4, h5, hrest⟩ := h
    exact ⟨h1, h2, h3, h4, h5, ih hrest⟩
  | dir off' inum blks sub rest ihsub ih =>
    obtain ⟨h1, h2, h3, h4, h5, hinode, hsub, hrest⟩ := h
    exact ⟨h1, h2, h3, h4, h5, himp _ _ hinode, ihsub hsub, ih hrest⟩

theorem Shaped.allBelow (h : es.Shaped info newInodesPerGroup descs d all P blocks off) :
    es.AllBelow info descs d P := by
  induction es generalizing blocks off with
  | nil => trivial
  | unused off' rest => trivial
  | other off' inum rest ih =>
    obtain ⟨-, -, -, -, -, hrest⟩ := h
    exact ih hrest
  | dir off' inum blks sub rest ihsub ih =>
    obtain ⟨-, -, -, -, -, hinode, hsub, hrest⟩ := h
    exact ⟨⟨hinode, ihsub hsub⟩, ih hrest⟩

end Below

end DirEntries

structure Outside (bs : Nat) (all : List Nat) (d d' : Disk) : Prop where
  size : d'.size = d.size
  same : ∀ a, 2048 ≤ a → (∀ b ∈ all, a < b * bs ∨ b * bs + bs ≤ a) → d'.get a = d.get a

section Outside

variable {info : FsInfo} {descs : Buffer} {all : List Nat} {d d' : Disk}

theorem Outside.changed {bs : Nat} {d'' : Disk} {blocks : List Nat} (h : Outside bs all d d')
    (h' : ChangedIn bs blocks d' d'') (hsub : blocks ⊆ all) : Outside bs all d d'' :=
  ⟨h'.size.trans h.size, fun a ha hall =>
    (h'.same a fun b hb => hall b (hsub hb)).trans (h.same a ha hall)⟩

theorem Outside.inode {inum : Nat} (h : Outside info.blockSize.val all d d')
    (hkept : InodeKept info descs d all inum) (f : Field) :
    f.get (inodeAt info descs d' inum) = f.get (inodeAt info descs d inum) := by
  refine Buffer.getLE_congr fun i _ _ => ?_
  by_cases hi : i < sizeofExt4Inode
  · rw [inodeAt, inodeAt, Buffer.get_view hi, Buffer.get_view hi]
    have hbehind := hkept.behind
    refine h.same _ (by omega) fun b hb => ?_
    have := hkept.apart b hb
    omega
  · rw [Buffer.get_of_le (by exact not_lt.mp hi), Buffer.get_of_le (by exact not_lt.mp hi)]

theorem Outside.there {inum : Nat} (h : Outside info.blockSize.val all d d')
    (hkept : InodeKept info descs d all inum) : InodeThere info descs d' inum :=
  ⟨hkept.descThere, by rw [h.size]; exact hkept.fits⟩

end Outside

def Framed (bs : Nat) (d d' : Disk) (dirs : List (List Nat × DirEntries)) : Prop :=
  ∀ p ∈ dirs, ∀ off < p.1.length * bs, (∀ e ∈ p.2.own, off < e.1 ∨ e.1 + 4 ≤ off) →
    d'.get (dirAddr bs p.1 off) = d.get (dirAddr bs p.1 off)

section Framed

variable {bs : Nat} {d d' d'' : Disk} {dirs dirs' : List (List Nat × DirEntries)}

theorem Framed.refl (bs : Nat) (d : Disk) (dirs : List (List Nat × DirEntries)) :
    Framed bs d d dirs := fun _ _ _ _ _ => rfl

theorem framed_append : Framed bs d d' (dirs ++ dirs') ↔ Framed bs d d' dirs ∧ Framed bs d d' dirs' := by
  simp only [Framed, List.forall_mem_append]

theorem framed_dirs {blocks : List Nat} {es : DirEntries} : Framed bs d d' (es.dirs blocks) ↔
    (∀ off < blocks.length * bs, (∀ e ∈ es.own, off < e.1 ∨ e.1 + 4 ≤ off) →
      d'.get (dirAddr bs blocks off) = d.get (dirAddr bs blocks off)) ∧
    Framed bs d d' es.dirsDeeper := by
  simp only [Framed, DirEntries.dirs, List.forall_mem_cons]

theorem Framed.changed {blocks : List Nat} (h : Framed bs d d' dirs) (hbs : 0 < bs)
    (hchanged : ChangedIn bs blocks d' d'') (hapart : (dirs.flatMap Prod.fst).Disjoint blocks) :
    Framed bs d d'' dirs := by
  intro p hp off hoff hnone
  refine (hchanged.data hbs ?_ hoff).trans (h p hp off hoff hnone)
  exact fun b hb hb' => hapart (List.mem_flatMap.mpr ⟨p, hp, hb⟩) hb'

end Framed

section Slots

variable {bs : Nat} {d d' : Disk} {blocks : List Nat}

theorem dirAddr_add {off k : Nat} (hk : off % bs + k < bs) :
    dirAddr bs blocks (off + k) = dirAddr bs blocks off + k := by
  have hsplit : off + k = off / bs * bs + (off % bs + k) := by
    have := Nat.div_add_mod' off bs
    omega
  rw [hsplit, dirAddr_block hk, dirAddr, Nat.add_assoc]

def SlotIn (bs : Nat) (blocks : List Nat) (off : Nat) : Prop :=
  off % bs + 4 ≤ bs ∧ off + 4 ≤ blocks.length * bs

def SlotsIn (bs : Nat) (dirs : List (List Nat × DirEntries)) : Prop :=
  ∀ p ∈ dirs, ∀ e ∈ p.2.own, SlotIn bs p.1 e.1

theorem slotsIn_append {dirs dirs' : List (List Nat × DirEntries)} :
    SlotsIn bs (dirs ++ dirs') ↔ SlotsIn bs dirs ∧ SlotsIn bs dirs' := by
  simp only [SlotsIn, List.forall_mem_append]

theorem slotsIn_dirs {es : DirEntries} : SlotsIn bs (es.dirs blocks) ↔
    (∀ e ∈ es.own, SlotIn bs blocks e.1) ∧ SlotsIn bs es.dirsDeeper := by
  simp only [SlotsIn, DirEntries.dirs, List.forall_mem_cons]

theorem slotAt_eq {off : Nat} (hin : SlotIn bs blocks off) {b : Buffer}
    (h : ∀ k < 4, b.get (off + k) = d.get (dirAddr bs blocks (off + k))) :
    (direntInode off).get b = slotAt bs d blocks off := by
  refine getLE_shift fun k hk => ?_
  have hmod := hin.1
  have hk' : k < 4 := hk
  rw [← dirAddr_add (by omega)]
  exact h k hk'

theorem slotAt_changed {bl : List Nat} {off : Nat} (hin : SlotIn bs blocks off)
    (h : ChangedIn bs bl d d') (hapart : blocks.Disjoint bl) :
    slotAt bs d' blocks off = slotAt bs d blocks off := by
  obtain ⟨hmod, hend⟩ := hin
  refine getLE_shift fun k hk => ?_
  rw [← dirAddr_add (by omega)]
  exact h.data (by omega) hapart (by omega)

theorem slots_changed {bl : List Nat} {dirs : List (List Nat × DirEntries)}
    (hin : SlotsIn bs dirs) (h : ChangedIn bs bl d d')
    (hapart : (dirs.flatMap Prod.fst).Disjoint bl) :
    ∀ p ∈ dirs, ∀ e ∈ p.2.own, slotAt bs d' p.1 e.1 = slotAt bs d p.1 e.1 := by
  intro p hp e he
  refine slotAt_changed (hin p hp e he) h ?_
  exact fun b hb hb' => hapart (List.mem_flatMap.mpr ⟨p, hp, hb⟩) hb'

end Slots

section Shaped

variable {info : FsInfo} {newInodesPerGroup : Nat} {descs : Buffer} {d : Disk}
  {all blocks : List Nat} {mapped : Buffer → List Nat → Prop} {off : Nat}

theorem end_le_of_inBlock {bs n len : Nat} (hoff : off < n * bs) (h : off % bs + len ≤ bs) :
    off + len ≤ n * bs := by
  have hbs : 0 < bs := Nat.pos_of_ne_zero fun h0 => by simp [h0] at hoff
  have hlt : off / bs < n := (Nat.div_lt_iff_lt_mul hbs).mpr hoff
  have hle : (off / bs + 1) * bs ≤ n * bs := Nat.mul_le_mul_right _ hlt
  have hsplit := Nat.div_add_mod' off bs
  rw [Nat.succ_mul] at hle
  omega

theorem DirentAt.slotIn {data : Buffer} {inum : Nat} (h : DirentAt info newInodesPerGroup data off inum)
    (hoff : off < blocks.length * info.blockSize.val) : SlotIn info.blockSize.val blocks off := by
  have hin := h.inBlock
  have hlong := h.holdsName
  have hend := end_le_of_inBlock hoff h.inBlock
  exact ⟨by omega, by omega⟩

theorem shaped_own_ge {es : DirEntries}
    (h : es.Shaped info newInodesPerGroup descs d all mapped blocks off) : ∀ e ∈ es.own, off ≤ e.1 := by
  induction es generalizing off with
  | nil => simp [DirEntries.own]
  | unused _ _ => simp [DirEntries.own]
  | other _ _ rest ih =>
    obtain ⟨rfl, -, -, -, -, hrest⟩ := h
    simp only [DirEntries.own, List.forall_mem_cons]
    exact ⟨le_rfl, fun e he => (Nat.le_add_right _ _).trans (ih hrest e he)⟩
  | dir _ _ _ _ rest _ ih =>
    obtain ⟨rfl, -, -, -, -, -, -, hrest⟩ := h
    simp only [DirEntries.own, List.forall_mem_cons]
    exact ⟨le_rfl, fun e he => (Nat.le_add_right _ _).trans (ih hrest e he)⟩

theorem shaped_slotsIn {es : DirEntries}
    (h : es.Shaped info newInodesPerGroup descs d all mapped blocks off) :
    SlotsIn info.blockSize.val (es.dirs blocks) := by
  induction es generalizing blocks off with
  | nil => simp [SlotsIn, DirEntries.dirs, DirEntries.own, DirEntries.dirsDeeper]
  | unused _ _ => simp [SlotsIn, DirEntries.dirs, DirEntries.own, DirEntries.dirsDeeper]
  | other _ _ rest ih =>
    obtain ⟨rfl, hoff, hent, -, -, hrest⟩ := h
    obtain ⟨hown, hdeeper⟩ := slotsIn_dirs.mp (ih hrest)
    refine slotsIn_dirs.mpr ⟨?_, hdeeper⟩
    simp only [DirEntries.own, List.forall_mem_cons]
    exact ⟨hent.slotIn hoff, hown⟩
  | dir _ _ _ _ rest ihsub ih =>
    obtain ⟨rfl, hoff, hent, -, -, -, hsub, hrest⟩ := h
    obtain ⟨hown, hdeeper⟩ := slotsIn_dirs.mp (ih hrest)
    refine slotsIn_dirs.mpr ⟨?_, ?_⟩
    · simp only [DirEntries.own, List.forall_mem_cons]
      exact ⟨hent.slotIn hoff, hown⟩
    · rw [DirEntries.dirsDeeper_dir, slotsIn_append]
      exact ⟨ihsub hsub, hdeeper⟩

end Shaped

end MakeExt4fs

import MakeExt4fs.Fixup.Survives

namespace MakeExt4fs

open ErrorLog Interrupt Words

namespace DirEntries

def entries : List Nat → DirEntries → List (List Nat × Nat × Nat)
  | _, nil => []
  | blocks, unused off rest => (blocks, off, 0) :: rest.entries blocks
  | blocks, other off inum rest => (blocks, off, inum) :: rest.entries blocks
  | blocks, dir off inum blks sub rest =>
    (blocks, off, inum) :: sub.entries blks ++ rest.entries blocks

-- Those that a walk does not come by: an unused one, the ones behind it, and all below these.
def behind : List Nat → DirEntries → List (List Nat × Nat × Nat)
  | _, nil => []
  | blocks, unused off rest => (blocks, off, 0) :: rest.entries blocks
  | blocks, other _ _ rest => rest.behind blocks
  | blocks, dir _ _ blks sub rest => sub.behind blks ++ rest.behind blocks

def wholeBlocks : DirEntries → List Nat
  | nil => []
  | unused _ rest => rest.wholeBlocks
  | other _ _ rest => rest.wholeBlocks
  | dir _ _ blocks sub rest => blocks ++ sub.wholeBlocks ++ rest.wholeBlocks

theorem behind_subset (blocks : List Nat) (es : DirEntries) :
    es.behind blocks ⊆ es.entries blocks := by
  induction es generalizing blocks with
  | nil => exact List.Subset.refl _
  | unused off rest => exact List.Subset.refl _
  | other off inum rest ih => exact fun e he => List.mem_cons_of_mem _ (ih blocks he)
  | dir off inum blks sub rest ihsub ih =>
    intro e he
    rcases List.mem_append.mp he with h | h
    · exact List.mem_append_left _ (List.mem_cons_of_mem _ (ihsub blks h))
    · exact List.mem_append_right _ (ih blocks h)

theorem mem_entries {blocks : List Nat} {es : DirEntries} {e : List Nat × Nat × Nat}
    (h : e ∈ es.entries blocks) :
    e ∈ es.behind blocks ∨ ∃ dir ∈ es.dirs blocks, dir.1 = e.1 ∧ e.2 ∈ dir.2.own := by
  induction es generalizing blocks with
  | nil => cases h
  | unused off rest => exact .inl h
  | other off inum rest ih =>
    rcases List.mem_cons.mp h with rfl | h
    · exact .inr ⟨_, List.mem_cons_self, rfl, List.mem_cons_self⟩
    · refine (ih h).imp_right ?_
      rintro ⟨dir, hdir, hblocks, hown⟩
      rcases List.mem_cons.mp hdir with rfl | hdir
      · exact ⟨_, List.mem_cons_self, hblocks, List.mem_cons_of_mem _ hown⟩
      · exact ⟨dir, List.mem_cons_of_mem _ hdir, hblocks, hown⟩
  | dir off inum blks sub rest ihsub ih =>
    rcases List.mem_append.mp h with h | h
    · rcases List.mem_cons.mp h with rfl | h
      · exact .inr ⟨_, List.mem_cons_self, rfl, List.mem_cons_self⟩
      · refine (ihsub h).imp (List.mem_append_left _) ?_
        rintro ⟨dir, hdir, hblocks, hown⟩
        exact ⟨dir, List.mem_cons_of_mem _ (List.mem_append_left _ hdir), hblocks, hown⟩
    · refine (ih h).imp (List.mem_append_right _) ?_
      rintro ⟨dir, hdir, hblocks, hown⟩
      rcases List.mem_cons.mp hdir with rfl | hdir
      · exact ⟨_, List.mem_cons_self, hblocks, List.mem_cons_of_mem _ hown⟩
      · exact ⟨dir, List.mem_cons_of_mem _ (List.mem_append_right _ hdir), hblocks, hown⟩

theorem blocksDeeper_subset (es : DirEntries) : es.blocksDeeper ⊆ es.wholeBlocks := by
  induction es with
  | nil => exact List.Subset.refl _
  | unused off rest => exact List.nil_subset _
  | other off inum rest ih => exact ih
  | dir off inum blks sub rest ihsub ih =>
    rw [blocksDeeper_dir, wholeBlocks]
    intro b hb
    rcases List.mem_append.mp hb with hb | hb
    · rcases List.mem_append.mp hb with hb | hb
      · exact List.mem_append_left _ (List.mem_append_left _ hb)
      · exact List.mem_append_left _ (List.mem_append_right _ (ihsub hb))
    · exact List.mem_append_right _ (ih hb)

variable {off inum : Nat} {blks all : List Nat} {sub rest : DirEntries}

theorem visited_below (hnodup : (dir off inum blks sub rest).wholeBlocks.Nodup)
    (h : ∀ b ∈ (dir off inum blks sub rest).wholeBlocks, b ∈ all →
      b ∈ (dir off inum blks sub rest).blocksDeeper) :
    ∀ b ∈ sub.wholeBlocks, b ∈ all → b ∈ sub.blocksDeeper := by
  intro b hb hall
  rw [wholeBlocks, List.nodup_append'] at hnodup
  rw [wholeBlocks, blocksDeeper_dir] at h
  obtain ⟨hbelow, -, hrest⟩ := hnodup
  obtain ⟨-, -, hblks⟩ := List.nodup_append'.mp hbelow
  rcases List.mem_append.mp (h b (List.mem_append_left _ (List.mem_append_right _ hb)) hall)
    with hin | hin
  · exact (List.mem_append.mp hin).resolve_left fun hin => hblks hin hb
  · exact absurd (blocksDeeper_subset rest hin) (hrest (List.mem_append_right _ hb))

theorem visited_onward (hnodup : (dir off inum blks sub rest).wholeBlocks.Nodup)
    (h : ∀ b ∈ (dir off inum blks sub rest).wholeBlocks, b ∈ all →
      b ∈ (dir off inum blks sub rest).blocksDeeper) :
    ∀ b ∈ rest.wholeBlocks, b ∈ all → b ∈ rest.blocksDeeper := by
  intro b hb hall
  rw [wholeBlocks, List.nodup_append'] at hnodup
  rw [wholeBlocks, blocksDeeper_dir] at h
  refine (List.mem_append.mp (h b (List.mem_append_right _ hb) hall)).resolve_left fun hin => ?_
  refine hnodup.2.2 (?_ : b ∈ blks ++ sub.wholeBlocks) hb
  rcases List.mem_append.mp hin with hin | hin
  · exact List.mem_append_left _ hin
  · exact List.mem_append_right _ (blocksDeeper_subset sub hin)

end DirEntries

section Places

variable {info : FsInfo} {newInodesPerGroup : Nat} {descs : Buffer} {d0 d : Disk}
  {all blocks : List Nat} {mapped : Buffer → List Nat → Prop} {es : DirEntries} {off : Nat}

def recLenAt (bs : Nat) (d0 : Disk) (e : List Nat × Nat × Nat) : Nat :=
  (direntRecLen e.2.1).get (dirData bs d0 e.1)

structure EntryPlaced (info : FsInfo) (newInodesPerGroup : Nat) (d0 : Disk)
    (e : List Nat × Nat × Nat) : Prop where
  slot : SlotIn info.blockSize.val e.1 e.2.1
  long : 4 ≤ recLenAt info.blockSize.val d0 e
  fits : e.2.1 + recLenAt info.blockSize.val d0 e ≤ e.1.length * info.blockSize.val
  number : slotAt info.blockSize.val d0 e.1 e.2.1 = e.2.2
  old_lt : e.2.2 < pendingBit
  new_lt : e.2.2 ≠ 0 → newInum info newInodesPerGroup e.2.2 < pendingBit

theorem DirentAt.entryPlaced {inum : Nat}
    (hent : DirentAt info newInodesPerGroup (dirData info.blockSize.val d0 blocks) off inum)
    (hoff : off < blocks.length * info.blockSize.val) :
    EntryPlaced info newInodesPerGroup d0 (blocks, off, inum) := by
  have hin := hent.slotIn hoff
  have hlong := hent.holdsName
  have hend := hin.2
  refine ⟨hin, ?_, end_le_of_inBlock hoff hent.inBlock, ?_, hent.old_lt, fun _ => hent.new_lt⟩
  · simp only [recLenAt]
    omega
  · refine Eq.trans ?_ hent.inode
    exact (slotAt_eq hin fun k hk => (dirData_hasData _ _ _).get _ (by omega)).symm

theorem UnusedAt.entryPlaced (hent : UnusedAt info (dirData info.blockSize.val d0 blocks) off)
    (hoff : off < blocks.length * info.blockSize.val) :
    EntryPlaced info newInodesPerGroup d0 (blocks, off, 0) := by
  have hlong := hent.long
  have hblock := hent.inBlock
  have hend := end_le_of_inBlock hoff hent.inBlock
  have hin : SlotIn info.blockSize.val blocks off := ⟨by omega, by omega⟩
  refine ⟨hin, ?_, hend, ?_, show 0 < pendingBit by decide, fun h => absurd rfl h⟩
  · simp only [recLenAt]
    omega
  · refine Eq.trans ?_ hent.inode
    exact (slotAt_eq hin fun k hk => (dirData_hasData _ _ _).get _ (by omega)).symm

theorem shaped_entryPlaced (h : es.Shaped info newInodesPerGroup descs d0 all mapped blocks off) :
    ∀ e ∈ es.entries blocks, EntryPlaced info newInodesPerGroup d0 e ∧
      (e.1 = blocks ∧ off ≤ e.2.1 ∨ e.1 ⊆ es.wholeBlocks) := by
  induction es generalizing blocks off with
  | nil => exact fun e he => by cases he
  | unused off' rest ih =>
    obtain ⟨rfl, hoff, hent, hrest⟩ := h
    intro e he
    rcases List.mem_cons.mp he with rfl | he
    · exact ⟨hent.entryPlaced hoff, .inl ⟨rfl, le_rfl⟩⟩
    · refine (ih hrest e he).imp_right (Or.imp_left fun h => ⟨h.1, ?_⟩)
      exact (Nat.le_add_right _ _).trans h.2
  | other off' inum rest ih =>
    obtain ⟨rfl, hoff, hent, -, -, hrest⟩ := h
    intro e he
    rcases List.mem_cons.mp he with rfl | he
    · exact ⟨hent.entryPlaced hoff, .inl ⟨rfl, le_rfl⟩⟩
    · refine (ih hrest e he).imp_right (Or.imp_left fun h => ⟨h.1, ?_⟩)
      exact (Nat.le_add_right _ _).trans h.2
  | dir off' inum blks sub rest ihsub ih =>
    obtain ⟨rfl, hoff, hent, -, -, -, hsub, hrest⟩ := h
    intro e he
    rw [DirEntries.wholeBlocks]
    rcases List.mem_append.mp he with he | he
    · rcases List.mem_cons.mp he with rfl | he
      · exact ⟨hent.entryPlaced hoff, .inl ⟨rfl, le_rfl⟩⟩
      · refine (ihsub hsub e he).imp_right fun h => .inr ?_
        rcases h with ⟨h, -⟩ | h
        · rw [h]
          exact fun b hb => List.mem_append_left _ (List.mem_append_left _ hb)
        · exact fun b hb => List.mem_append_left _ (List.mem_append_right _ (h hb))
    · refine (ih hrest e he).imp_right (Or.imp (fun h => ⟨h.1, ?_⟩) fun h => ?_)
      · exact (Nat.le_add_right _ _).trans h.2
      · exact fun b hb => List.mem_append_right _ (h hb)

theorem passed_entry {own later : List (Nat × Nat)} {len inum : Nat} (hlen : 4 ≤ len)
    (hown : ∀ e ∈ own, e.1 + 4 ≤ off ∨ e ∈ (off, inum) :: later) :
    ∀ e ∈ own, e.1 + 4 ≤ off + len ∨ e ∈ later := by
  intro e he
  rcases hown e he with h | h
  · exact .inl (by omega)
  · rcases List.mem_cons.mp h with rfl | h
    · exact .inl (by omega)
    · exact .inr h

theorem behind_same {own : List (Nat × Nat)}
    (h : es.Shaped info newInodesPerGroup descs d0 all mapped blocks off)
    (hnodup : (blocks ++ es.wholeBlocks).Nodup)
    (hown : ∀ e ∈ own, e.1 + 4 ≤ off ∨ e ∈ es.own)
    (hframe : ∀ off < blocks.length * info.blockSize.val, (∀ e ∈ own, off < e.1 ∨ e.1 + 4 ≤ off) →
      d.get (dirAddr info.blockSize.val blocks off) =
        d0.get (dirAddr info.blockSize.val blocks off))
    (hdeeper : Framed info.blockSize.val d0 d es.dirsDeeper)
    (hwhole : ∀ b ∈ es.wholeBlocks, b ∈ all → b ∈ es.blocksDeeper)
    (hapart : ∀ blks, blks ⊆ es.wholeBlocks → blks.Disjoint all →
      ∀ off < blks.length * info.blockSize.val,
        d.get (dirAddr info.blockSize.val blks off) =
          d0.get (dirAddr info.blockSize.val blks off)) :
    ∀ e ∈ es.behind blocks, ∀ k < recLenAt info.blockSize.val d0 e,
      d.get (dirAddr info.blockSize.val e.1 (e.2.1 + k)) =
        d0.get (dirAddr info.blockSize.val e.1 (e.2.1 + k)) := by
  induction es generalizing blocks off own with
  | nil => exact fun e he => by cases he
  | unused off' rest =>
    have hplaced := shaped_entryPlaced h
    intro e he k hk
    obtain ⟨hat, hwhere⟩ := hplaced e he
    have hfits := hat.fits
    rcases hwhere with ⟨hblocks, hge⟩ | hsub
    · rw [hblocks] at hfits ⊢
      refine hframe _ (by omega) fun x hx => ?_
      rcases hown x hx with h1 | h1
      · exact .inr (by omega)
      · cases h1
    · refine hapart e.1 hsub (fun b hb hb' => ?_) _ (by omega)
      cases hwhole b (hsub hb) hb'
  | other off' inum rest ih =>
    obtain ⟨rfl, hoff, hent, -, -, hrest⟩ := h
    have hlong := hent.holdsName
    exact ih hrest hnodup (passed_entry (by omega) hown) hframe hdeeper hwhole hapart
  | dir off' inum blks sub rest ihsub ih =>
    obtain ⟨rfl, hoff, hent, -, -, -, hsub, hrest⟩ := h
    have hlong := hent.holdsName
    obtain ⟨hblocks, hmid, hdisj⟩ := List.nodup_append'.mp hnodup
    have hbelow := DirEntries.visited_below hmid hwhole
    have honward := DirEntries.visited_onward hmid hwhole
    rw [DirEntries.wholeBlocks] at hmid hdisj hapart
    rw [DirEntries.dirsDeeper_dir, framed_append] at hdeeper
    obtain ⟨hsubnodup, hrestnodup, -⟩ := List.nodup_append'.mp hmid
    obtain ⟨hsubframe, hsubdeeper⟩ := framed_dirs.mp hdeeper.1
    intro e he
    rcases List.mem_append.mp he with he | he
    · exact ihsub hsub hsubnodup (fun x hx => .inr hx) hsubframe hsubdeeper hbelow
        (fun bl hbl => hapart bl fun b hb =>
          List.mem_append_left _ (List.mem_append_right _ (hbl hb))) e he
    · have hrestblocks : (blocks ++ rest.wholeBlocks).Nodup := List.nodup_append'.mpr
        ⟨hblocks, hrestnodup, fun b hb hb' => hdisj hb (List.mem_append_right _ hb')⟩
      exact ih hrest hrestblocks (passed_entry (by omega) hown) hframe hdeeper.2 honward
        (fun bl hbl => hapart bl fun b hb => List.mem_append_right _ (hbl hb)) e he

end Places

section Complete

variable {old : FsInfo} {force : Bool} {newInodesPerGroup depth : Nat} {d0 : Disk} {p : Prepared}
  {blocks : List Nat} {es : DirEntries}

-- The tree of all directories, those too that no walk comes by, with inodes that map their blocks in
-- whichever way.
structure HasWholeTree (old : FsInfo) (force : Bool) (newInodesPerGroup : Nat) (d0 : Disk)
    (p : Prepared) (blocks : List Nat) (es : DirEntries) : Prop extends
    HasTreeOf (DirectoryAt p.volume d0 (blocks ++ es.blocksDeeper)) old force newInodesPerGroup d0 p
      blocks es where
  wholeNodup : (blocks ++ es.wholeBlocks).Nodup
  wholeBehind : ∀ b ∈ es.wholeBlocks, 2048 ≤ b * p.volume.info.blockSize.val

-- What the renumbering is to come to: every used entry has its new number, in whatever directory it
-- is, and an unused one is as it was.
structure AllRenumbered (v : Volume) (newInodesPerGroup : Nat) (blocks : List Nat) (es : DirEntries)
    (d0 d : Disk) : Prop where
  used : ∀ e ∈ es.entries blocks, e.2.2 ≠ 0 → slotAt v.info.blockSize.val d e.1 e.2.1 =
    computeNewInum v (slotAt v.info.blockSize.val d0 e.1 e.2.1) newInodesPerGroup
  unused : ∀ e ∈ es.entries blocks, e.2.2 = 0 → ∀ k < recLenAt v.info.blockSize.val d0 e,
    d.get (dirAddr v.info.blockSize.val e.1 (e.2.1 + k)) =
      d0.get (dirAddr v.info.blockSize.val e.1 (e.2.1 + k))

theorem Kept.behind_same {d : Disk} (h : HasWholeTree old force newInodesPerGroup d0 p blocks es)
    (hkept : Kept p.volume.info blocks es d0 d) :
    ∀ e ∈ es.behind blocks, ∀ k < recLenAt p.volume.info.blockSize.val d0 e,
      d.get (dirAddr p.volume.info.blockSize.val e.1 (e.2.1 + k)) =
        d0.get (dirAddr p.volume.info.blockSize.val e.1 (e.2.1 + k)) := by
  have hbs := h.tree.ground.blockSize_pos
  obtain ⟨hframe, hdeeper⟩ := framed_dirs.mp hkept.framed
  refine MakeExt4fs.behind_same h.tree.shaped h.wholeNodup (fun x hx => .inr hx) hframe hdeeper
    (fun b hb hb' => ?_) fun blks hblks hdisjoint off hoff => ?_
  · rcases List.mem_append.mp hb' with hb' | hb'
    · exact absurd hb (List.disjoint_of_nodup_append h.wholeNodup hb')
    · exact hb'
  · obtain ⟨i, k, hi, hk, rfl⟩ := exists_block hbs hoff
    have hmem := getD_mem hi
    have hbehind := h.wholeBehind _ (hblks hmem)
    rw [dirAddr_block hk]
    refine hkept.same _ (by omega) (by omega) fun b hb => ?_
    exact apart_of_ne (fun heq => hdisjoint hmem (heq ▸ hb)) hk

def Renumbers (depth : Nat) (old : FsInfo) (force : Bool) (newInodesPerGroup : Nat) (d0 : Disk)
    (p : Prepared) (blocks : List Nat) (es : DirEntries) : Prop :=
  ∃ m, renumber depth old force newInodesPerGroup (.start d0 none) = (.ok (), m) ∧
    AllRenumbered p.volume newInodesPerGroup blocks es d0 m.device

def BehindKept (v : Volume) (newInodesPerGroup : Nat) (blocks : List Nat) (es : DirEntries) : Prop :=
  ∀ e ∈ es.behind blocks, e.2.2 ≠ 0 → computeNewInum v e.2.2 newInodesPerGroup = e.2.2

theorem Underway.renumbered_iff_ends {d : Disk}
    (h : HasWholeTree old force newInodesPerGroup d0 p blocks es)
    (hunder : Underway p.volume.info newInodesPerGroup blocks es d0 d)
    (hstate : stateOf d = .updatingSb) :
    AllRenumbered p.volume newInodesPerGroup blocks es d0 d ↔
      BehindKept p.volume newInodesPerGroup blocks es := by
  have hphase := hunder.phase
  rw [hstate] at hphase
  have hplaced := shaped_entryPlaced h.tree.shaped
  have hsame := hunder.toKept.behind_same h
  have hslots : ∀ e ∈ es.behind blocks, slotAt p.volume.info.blockSize.val d e.1 e.2.1 =
      slotAt p.volume.info.blockSize.val d0 e.1 e.2.1 := by
    intro e he
    obtain ⟨hat, -⟩ := hplaced e (DirEntries.behind_subset blocks es he)
    have hmod := hat.slot.1
    refine getLE_shift fun k hk => ?_
    rw [← dirAddr_add (by omega)]
    exact hsame e he k (hk.trans_le hat.long)
  constructor
  · intro hall e he hused
    have hmem := DirEntries.behind_subset blocks es he
    have hnumber := (hplaced e hmem).1.number
    have hnew := hall.used e hmem hused
    rwa [hslots e he, hnumber, eq_comm] at hnew
  · intro hcond
    refine ⟨fun e he hused => ?_, fun e he hzero => ?_⟩
    · have hnumber := (hplaced e he).1.number
      rw [hnumber]
      rcases DirEntries.mem_entries he with hbehind | ⟨dir, hdir, hblocks, hown⟩
      · rw [hslots e hbehind, hnumber, hcond e hbehind hused]
      · have hat := (hplaced e he).1
        rw [computeNewInum_eq (Nat.pos_of_ne_zero hused) hat.old_lt (hat.new_lt hused), ← hblocks]
        exact hphase dir hdir e.2 hown
    · rcases DirEntries.mem_entries he with hbehind | ⟨dir, hdir, hblocks, hown⟩
      · exact hsame e hbehind
      · have hpos := (shaped_numbers h.tree.shaped dir hdir e.2 hown).1
        omega

-- It is enough that i_blocks of each directory on the way counts its data only and that the entries
-- behind unused ones have numbers that stay. Where no directory is read beyond its end, nothing less
-- is enough.
theorem allRenumbered_iff (h : HasWholeTree old force newInodesPerGroup d0 p blocks es)
    (hfirst : stateOf d0 = .unset ∨ stateOf d0 = .markingInums)
    (hchecks : stateOf d0 = .unset → ChecksOut p.volume newInodesPerGroup d0 (descsOf p.volume d0))
    (hheight : es.height < depth) :
    (p.AllDirs d0 (CountsData p.volume.info) blocks es ∧
        BehindKept p.volume newInodesPerGroup blocks es →
      Renumbers depth old force newInodesPerGroup d0 p blocks es) ∧
    (p.AllDirs d0 (fun inode blks => ¬ Overread p.volume.info inode blks) blocks es →
      Renumbers depth old force newInodesPerGroup d0 p blocks es →
      p.AllDirs d0 (CountsData p.volume.info) blocks es ∧
        BehindKept p.volume newInodesPerGroup blocks es) := by
  have hdirs := h.toHasTreeOf
  have hstart : Restarted depth old force newInodesPerGroup d0 d0 := .first
  constructor
  · rintro ⟨hcounted, hbehind⟩
    have hread := hdirs.read hcounted
    have hends := renumber_calm hdirs (hstart.underway hdirs hread hfirst) hread
      (fun _ : True => hcounted) (fun _ => hchecks) (fun _ => hheight) fun _ => (rfl : none = none)
    obtain ⟨_, m, hrun, -, hunder, hstate⟩ :=
      (hends.mono (fun _ _ h => h) fun _ _ h => h.2 trivial).exists_run
    exact ⟨m, hrun, (hunder.renumbered_iff_ends h hstate).mpr hbehind⟩
  · rintro hread ⟨m, hrun, hall⟩
    have hends := renumber_calm hdirs (hstart.underway hdirs hread hfirst) hread False.elim
      False.elim (False.elim : False → es.height < depth)
      (False.elim : False → (none : Option Nat) = none)
    obtain ⟨hcounted, hunder, hstate⟩ := hends.ok hrun
    exact ⟨hcounted hfirst, (hunder.renumbered_iff_ends h hstate).mp hall⟩

end Complete

section Example

def MapsInInode (info : FsInfo) (inode : Buffer) (blocks : List Nat) : Prop :=
  sIsdir (iMode.get inode) = true ∧ CountsData info inode blocks ∧
    (InlineExtents inode blocks ∨ DirectBlocks inode blocks ∧ inodeBlockSize ∣ info.blockSize.val)

instance (info : FsInfo) (inode : Buffer) (blocks : List Nat) :
    Decidable (MapsInInode info inode blocks) := inferInstanceAs (Decidable (_ ∧ _ = _ ∧ (_ ∨ _ ∧ _)))

theorem MapsInInode.directoryAt {v : Volume} {d : Disk} {all blocks : List Nat} {inode : Buffer}
    (h : MapsInInode v.info inode blocks) : DirectoryAt v d all inode blocks := by
  obtain ⟨hdir, hcounted, hinline | ⟨hdirect, hsectors⟩⟩ := h
  · exact ⟨hdir, .inline hinline hcounted⟩
  · exact ⟨hdir, .direct hdirect hsectors hcounted⟩

def isWholeTree (image : Disk) (newInodesPerGroup : Nat) (blocks : List Nat) (es : DirEntries)
    (p : Prepared) : Bool :=
  isTree MapsInInode image newInodesPerGroup blocks es p &&
    decide (∀ b ∈ es.wholeBlocks, 2048 ≤ b * p.volume.info.blockSize.val) &&
    decide (ChecksOut p.volume newInodesPerGroup image (descsOf p.volume image))

theorem hasWholeTree_of {image : Disk} {newInodesPerGroup : Nat} {blocks : List Nat}
    {es : DirEntries} {test : Prepared → Bool} (hnodup : (blocks ++ es.wholeBlocks).Nodup)
    (h : (preparedOn image).any
      (fun p => isWholeTree image newInodesPerGroup blocks es p && test p) = true) :
    ∃ p, HasWholeTree noInfo false newInodesPerGroup image p blocks es ∧
      p.AllDirs image (CountsData p.volume.info) blocks es ∧
      ChecksOut p.volume newInodesPerGroup image (descsOf p.volume image) ∧ test p = true := by
  obtain ⟨p, hp, hall⟩ := (Option.any_eq_true _ _).mp h
  simp only [isWholeTree, Bool.and_eq_true, decide_eq_true_eq] at hall
  obtain ⟨⟨⟨htree, hbehind⟩, hchecks⟩, htest⟩ := hall
  have hany : (preparedOn image).any (isTree MapsInInode image newInodesPerGroup blocks es) =
      true := by
    rw [hp]
    exact htree
  obtain ⟨q, hq, htree'⟩ := hasTree_of_isTree MapsInInode hany
  obtain rfl : q = p := Option.some.inj (hq.symm.trans hp)
  refine ⟨q, ⟨⟨htree'.prepared, ⟨htree'.tree.ground, htree'.tree.nodup, htree'.tree.behind, ?_⟩,
    htree'.descsBehind, htree'.descsApart, htree'.rootKept, htree'.rootInode.directoryAt⟩, hnodup,
    hbehind⟩, ⟨htree'.rootInode.2.1, ?_⟩, hchecks, htest⟩
  · exact htree'.tree.shaped.imp fun _ _ hinode => hinode.directoryAt
  · exact htree'.tree.shaped.allBelow.imp fun _ _ hinode => hinode.2.1

-- Two groups of 12 inodes, for which 16 are to be. The root directory, in block 7, has the directory
-- of the second inode of the second group, in block 8, and behind an entry that is not used the file
-- `inum`. The root's inode has an extent and the other one a direct block.
def deletedImage (inum : Nat) : Disk := imageOf 32768
  [(1024, 4, 24), (1028, 4, 32), (1044, 4, 1), (1056, 4, 16), (1064, 4, 12), (1080, 2, 0xEF53),
    (1082, 2, 1), (1112, 2, 128), (1120, 4, 0x42), (1278, 2, 32), (2052, 4, 4), (2056, 4, 5),
    (2084, 4, 18), (2088, 4, 20), (5248, 2, 0x41ED), (5276, 4, 2), (5280, 4, 0x80000),
    (5288, 2, 0xF30A), (5290, 2, 1), (5304, 2, 1), (5308, 4, 7),
    (20608, 2, 0x41ED), (20636, 4, 2), (20648, 4, 8),
    (7168, 4, 2), (7172, 2, 12), (7174, 1, 1), (7175, 1, 2), (7176, 1, 46),
    (7180, 4, 14), (7184, 2, 12), (7186, 1, 1), (7187, 1, 2), (7188, 1, 100), (7196, 2, 12),
    (7204, 4, inum), (7208, 2, 988), (7210, 1, 1), (7211, 1, 1), (7212, 1, 102),
    (8192, 4, 14), (8196, 2, 12), (8198, 1, 1), (8199, 1, 2), (8200, 1, 46),
    (8204, 4, 2), (8208, 2, 1012), (8210, 1, 2), (8211, 1, 2), (8212, 2, 0x2E2E)]

def deletedTree (inum : Nat) : DirEntries :=
  .other 0 2 (.dir 12 14 [8] (.other 0 14 (.other 12 2 .nil)) (.unused 24 (.other 36 inum .nil)))

theorem allRenumbered_firstGroup :
    ∃ p, Renumbers 3 noInfo false 16 (deletedImage 5) p [7] (deletedTree 5) := by
  have hwhole : (preparedOn (deletedImage 5)).any
      (fun p => isWholeTree (deletedImage 5) 16 [7] (deletedTree 5) p &&
        decide (computeNewInum p.volume 5 16 = 5)) = true := by
    decide +kernel
  obtain ⟨p, htree, hcounted, hchecks, htest⟩ :=
    hasWholeTree_of (by decide : ([7] ++ (deletedTree 5).wholeBlocks).Nodup) hwhole
  have hfirst : stateOf (deletedImage 5) = .unset ∨ stateOf (deletedImage 5) = .markingInums := by
    decide +kernel
  refine ⟨p, (allRenumbered_iff htree hfirst (fun _ => hchecks)
    (by decide : (deletedTree 5).height < 3)).1 ⟨hcounted, fun e he hused => ?_⟩⟩
  simp only [deletedTree, DirEntries.behind, DirEntries.entries, List.nil_append, List.mem_cons,
    List.not_mem_nil, or_false] at he
  rcases he with rfl | rfl
  · cases hused rfl
  · exact of_decide_eq_true htest

theorem deleted_not_allRenumbered : ∃ p : Prepared,
    HasWholeTree noInfo false p.newInodesPerGroup (deletedImage 18) p [7] (deletedTree 18) ∧
      stateOf (deletedImage 18) = .unset ∧
      ChecksOut p.volume p.newInodesPerGroup (deletedImage 18) (descsOf p.volume (deletedImage 18)) ∧
      (deletedTree 18).height < 3 ∧
      ¬ Renumbers 3 noInfo false p.newInodesPerGroup (deletedImage 18) p [7] (deletedTree 18) := by
  have hwhole : (preparedOn (deletedImage 18)).any
      (fun p => isWholeTree (deletedImage 18) 16 [7] (deletedTree 18) p &&
        decide (p.newInodesPerGroup = 16 ∧ p.volume.info.blockSize.val = 1024 ∧
          computeNewInum p.volume 18 16 = 22)) = true := by
    decide +kernel
  obtain ⟨p, htree, -, hchecks, htest⟩ :=
    hasWholeTree_of (by decide : ([7] ++ (deletedTree 18).wholeBlocks).Nodup) hwhole
  obtain ⟨hnew, hbs, hnumber⟩ := of_decide_eq_true htest
  have hok : (match renumber 3 noInfo false 16 (.start (deletedImage 18) none) with
      | (.ok _, m) => decide (slotAt 1024 m.device [7] 36 = 18)
      | _ => false) = true := by decide +kernel
  have hfirst : slotAt 1024 (deletedImage 18) [7] 36 = 18 := by decide +kernel
  refine ⟨p, by rw [hnew]; exact htree, by decide +kernel, by rw [hnew]; exact hchecks, by decide, ?_⟩
  rintro ⟨m, hrun, hall⟩
  rw [hnew] at hrun hall
  rw [hrun] at hok
  have hslot := of_decide_eq_true hok
  have hused := hall.used ([7], 36, 18) (by decide) (by decide)
  rw [hbs] at hused
  dsimp only at hused
  rw [hslot, hfirst, hnumber] at hused
  cases hused

end Example

end MakeExt4fs

import MakeExt4fs.Fixup.Walk

namespace MakeExt4fs

open ErrorLog Interrupt Words

section Written

variable {bs n : Nat} {blocks : List Nat} {dirbuf : Buffer} {d d' : Disk} {off : Nat}

theorem WrittenUpTo.changed (h : WrittenUpTo bs blocks dirbuf n d d') (hn : n ≤ blocks.length) :
    ChangedIn bs blocks d d' :=
  ⟨h.size, fun a ha => h.same a fun _ hi => ha _ (getD_mem (by omega))⟩

theorem WrittenUpTo.unwritten (h : WrittenUpTo bs blocks dirbuf n d d') (hnodup : blocks.Nodup)
    (hn : n ≤ blocks.length) (h1 : n * bs ≤ off) (h2 : off < blocks.length * bs) :
    d'.get (dirAddr bs blocks off) = d.get (dirAddr bs blocks off) := by
  have hbs : 0 < bs := Nat.pos_of_ne_zero fun h0 => by simp [h0] at h2
  obtain ⟨i, k, hi, hk, rfl⟩ := exists_block hbs h2
  have hni : n ≤ i := by
    by_contra hlt
    have hle : (i + 1) * bs ≤ n * bs := Nat.mul_le_mul_right _ (by omega)
    rw [Nat.succ_mul] at hle
    omega
  rw [dirAddr_block hk]
  exact h.same _ fun j hj => apart_of_ne (getD_ne hnodup hi (by omega) (by omega)) hk

theorem WrittenUpTo.slot (h : WrittenUpTo bs blocks dirbuf n d d') (hnodup : blocks.Nodup)
    (hn : n ≤ blocks.length) (hin : SlotIn bs blocks off) :
    (off + 4 ≤ n * bs ∧ slotAt bs d' blocks off = (direntInode off).get dirbuf) ∨
      (n * bs ≤ off ∧ slotAt bs d' blocks off = slotAt bs d blocks off) := by
  obtain ⟨hmod, hend⟩ := hin
  have hbs : 0 < bs := by omega
  have hsplit := Nat.div_add_mod' off bs
  rcases Nat.lt_or_ge (off / bs) n with hlt | hge
  · have hle : (off / bs + 1) * bs ≤ n * bs := Nat.mul_le_mul_right _ hlt
    rw [Nat.succ_mul] at hle
    exact .inl ⟨by omega, (slotAt_eq ⟨hmod, hend⟩ fun k hk => (h.written _ (by omega)).symm).symm⟩
  · have hle : n * bs ≤ off / bs * bs := Nat.mul_le_mul_right _ hge
    refine .inr ⟨by omega, getLE_shift fun k hk => ?_⟩
    rw [← dirAddr_add (by omega)]
    exact h.unwritten hnodup hn (by omega) (by omega)

end Written

section Directory

variable {v : Volume} {newInodesPerGroup : Nat} {pass : Pass} {calm : Prop} {d0 d d1 d2 : Disk}
  {descs dirbuf dirbuf' : Buffer} {all blocks : List Nat} {es : DirEntries} {n : Nat}

theorem PassStart.walkStart (h : PassStart v newInodesPerGroup pass d0 all d blocks es)
    (hin : SlotsIn v.info.blockSize.val (es.dirs blocks))
    (hdata : HasData v.info.blockSize.val d blocks dirbuf) :
    WalkStart v newInodesPerGroup pass d0 all d dirbuf blocks 0 es := by
  obtain ⟨hown, hdeeper⟩ := framed_dirs.mp h.framed
  refine ⟨hdata.size, fun a _ ha hnone => ?_, fun e he => ?_, h.outside, hdeeper, h.ordered⟩
  · rw [hdata.get a ha, (dirData_hasData v.info.blockSize.val d0 blocks).get a ha, hown a ha hnone]
  · have hslot := (slotsIn_dirs.mp hin).1 e he
    have hend := hslot.2
    exact slotAt_eq hslot fun k hk => hdata.get _ (by omega)

theorem WalkHalted.passHalted (hstart : PassStart v newInodesPerGroup pass d0 all d blocks es)
    (hbs : 0 < v.info.blockSize.val) (hin : SlotsIn v.info.blockSize.val (es.dirs blocks))
    (hnodup : (blocks ++ es.blocksDeeper).Nodup)
    (h : WalkHalted v newInodesPerGroup pass d0 d blocks es d1) :
    PassHalted v newInodesPerGroup pass d0 d blocks es d1 := by
  have hapart := List.disjoint_of_nodup_append hnodup
  refine ⟨h.changed.mono (List.subset_append_right _ _), framed_dirs.mpr ⟨?_, h.framed⟩, h.ordered,
    fun hdone => DirEntries.done_dirs.mpr ⟨fun e he => ?_, h.kept (DirEntries.done_dirs.mp hdone).2⟩⟩
  · intro off hoff hnone
    rw [h.changed.data hbs hapart hoff]
    exact (framed_dirs.mp hstart.framed).1 off hoff hnone
  · rw [slotAt_changed ((slotsIn_dirs.mp hin).1 e he) h.changed hapart]
    exact (DirEntries.done_dirs.mp hdone).1 e he

theorem written_slot (hin : SlotsIn v.info.blockSize.val (es.dirs blocks))
    (hnodup : (blocks ++ es.blocksDeeper).Nodup)
    (hwalk : WalkDone v newInodesPerGroup pass d0 d dirbuf es d1 dirbuf') (hn : n ≤ blocks.length)
    (hwritten : WrittenUpTo v.info.blockSize.val blocks dirbuf' n d1 d2) {e : Nat × Nat}
    (he : e ∈ es.own) :
    (e.1 + 4 ≤ n * v.info.blockSize.val ∧ slotAt v.info.blockSize.val d2 blocks e.1 =
        pass.after v.info newInodesPerGroup e.2) ∨
      (n * v.info.blockSize.val ≤ e.1 ∧ slotAt v.info.blockSize.val d2 blocks e.1 =
        slotAt v.info.blockSize.val d blocks e.1) := by
  have hslot := (slotsIn_dirs.mp hin).1 e he
  obtain ⟨hblocks, -, hapart⟩ := List.nodup_append'.mp hnodup
  refine (hwritten.slot hblocks hn hslot).imp (fun h => ⟨h.1, h.2.trans (hwalk.own e he)⟩)
    fun h => ⟨h.1, h.2.trans ?_⟩
  exact slotAt_changed hslot hwalk.changed hapart

theorem written_changed (hwalk : WalkDone v newInodesPerGroup pass d0 d dirbuf es d1 dirbuf')
    (hn : n ≤ blocks.length) (hwritten : WrittenUpTo v.info.blockSize.val blocks dirbuf' n d1 d2) :
    ChangedIn v.info.blockSize.val (blocks ++ es.blocksDeeper) d d2 :=
  (hwalk.changed.mono (List.subset_append_right _ _)).trans
    ((hwritten.changed hn).mono (List.subset_append_left _ _))

theorem written_framed (hstart : PassStart v newInodesPerGroup pass d0 all d blocks es)
    (hbs : 0 < v.info.blockSize.val) (hnodup : (blocks ++ es.blocksDeeper).Nodup)
    (hdata : HasData v.info.blockSize.val d blocks dirbuf)
    (hwalk : WalkDone v newInodesPerGroup pass d0 d dirbuf es d1 dirbuf') (hn : n ≤ blocks.length)
    (hwritten : WrittenUpTo v.info.blockSize.val blocks dirbuf' n d1 d2) :
    Framed v.info.blockSize.val d0 d2 (es.dirs blocks) := by
  obtain ⟨hblocks, -, hapart⟩ := List.nodup_append'.mp hnodup
  refine framed_dirs.mpr ⟨fun off hoff hnone => ?_, hwalk.framed.changed hbs (hwritten.changed hn)
    hapart.symm⟩
  have hframed := (framed_dirs.mp hstart.framed).1 off hoff hnone
  rcases Nat.lt_or_ge off (n * v.info.blockSize.val) with hlt | hge
  · rw [hwritten.written off hlt, hwalk.same off hnone, hdata.get off hoff, hframed]
  · rw [hwritten.unwritten hblocks hn hge hoff, hwalk.changed.data hbs hapart hoff, hframed]

theorem written_deeper (hin : SlotsIn v.info.blockSize.val (es.dirs blocks))
    (hnodup : (blocks ++ es.blocksDeeper).Nodup)
    (hwalk : WalkDone v newInodesPerGroup pass d0 d dirbuf es d1 dirbuf') (hn : n ≤ blocks.length)
    (hwritten : WrittenUpTo v.info.blockSize.val blocks dirbuf' n d1 d2) :
    DirEntries.Done v.info.blockSize.val (pass.after v.info newInodesPerGroup) d2 es.dirsDeeper := by
  obtain ⟨-, -, hapart⟩ := List.nodup_append'.mp hnodup
  exact hwalk.done.congr (slots_changed (slotsIn_dirs.mp hin).2 (hwritten.changed hn) hapart.symm)

theorem written_halted (hstart : PassStart v newInodesPerGroup pass d0 all d blocks es)
    (hbs : 0 < v.info.blockSize.val) (hin : SlotsIn v.info.blockSize.val (es.dirs blocks))
    (hnodup : (blocks ++ es.blocksDeeper).Nodup)
    (hdata : HasData v.info.blockSize.val d blocks dirbuf)
    (hwalk : WalkDone v newInodesPerGroup pass d0 d dirbuf es d1 dirbuf') (hn : n ≤ blocks.length)
    (hwritten : WrittenUpTo v.info.blockSize.val blocks dirbuf' n d1 d2) :
    PassHalted v newInodesPerGroup pass d0 d blocks es d2 := by
  have hslots (e : Nat × Nat) (he : e ∈ es.own) := written_slot hin hnodup hwalk hn hwritten he
  have hdeeper := written_deeper hin hnodup hwalk hn hwritten
  refine ⟨written_changed hwalk hn hwritten,
    written_framed hstart hbs hnodup hdata hwalk hn hwritten, ?_, fun hdone => ?_⟩
  · refine DirEntries.ordered_of_deeper hdeeper fun e he => ?_
    rcases hslots e he with ⟨-, h⟩ | ⟨-, h⟩
    · exact .inr h
    · rw [h]
      exact hstart.ordered.own e he
  · refine DirEntries.done_dirs.mpr ⟨fun e he => ?_, hdeeper⟩
    rcases hslots e he with ⟨-, h⟩ | ⟨-, h⟩
    · exact h
    · rw [h]
      exact (DirEntries.done_dirs.mp hdone).1 e he

theorem written_done (hstart : PassStart v newInodesPerGroup pass d0 all d blocks es)
    (hbs : 0 < v.info.blockSize.val) (hin : SlotsIn v.info.blockSize.val (es.dirs blocks))
    (hnodup : (blocks ++ es.blocksDeeper).Nodup)
    (hdata : HasData v.info.blockSize.val d blocks dirbuf)
    (hwalk : WalkDone v newInodesPerGroup pass d0 d dirbuf es d1 dirbuf')
    (hwritten : WrittenUpTo v.info.blockSize.val blocks dirbuf' blocks.length d1 d2) :
    PassDone v newInodesPerGroup pass d0 d blocks es d2 := by
  refine ⟨written_changed hwalk le_rfl hwritten,
    written_framed hstart hbs hnodup hdata hwalk le_rfl hwritten,
    DirEntries.done_dirs.mpr ⟨fun e he => ?_, written_deeper hin hnodup hwalk le_rfl hwritten⟩⟩
  have hslot := (slotsIn_dirs.mp hin).1 e he
  rcases written_slot hin hnodup hwalk le_rfl hwritten he with ⟨-, h⟩ | ⟨h1, -⟩
  · exact h
  · have := hslot.2
    omega

end Directory

section Recursion

variable {v : Volume} {newInodesPerGroup : Nat} {pass : Pass} {calm : Prop} {d0 d : Disk}
  {descs inode : Buffer} {all blocks : List Nat} {es : DirEntries} {m : Machine}

theorem PassStart.halted (hstart : PassStart v newInodesPerGroup pass d0 all d blocks es)
    (h : Halted calm (d, descs) m) :
    ∃ d', PassHalted v newInodesPerGroup pass d0 d blocks es d' ∧ Halted calm (d', descs) m :=
  ⟨d, ⟨.refl _ _, hstart.framed, hstart.ordered, id⟩, h⟩

theorem Outside.mapping (hout : Outside v.info.blockSize.val all d0 d)
    (h : DirMapping v d0 all inode blocks) : DirMapping v d all inode blocks := by
  refine h.congr rfl le_rfl (fun _ => rfl) hout.size fun p hp k hk => ?_
  refine hout.same _ (hp.2.trans (Nat.le_add_right _ _)) fun b hb => apart_of_ne (fun heq => hp.1 ?_) hk
  rw [heq]
  exact hb

theorem recurseDir_more (noWrite : Bool) (depth : Nat) (hbs : 0 < v.info.blockSize.val)
    (hbsle : v.info.blockSize.val ≤ maxExt4BlockSize) (hmapping : DirMapping v m.device all inode blocks)
    (hmore : ¬ CountsData v.info inode blocks) (hover : ¬ Overread v.info inode blocks) :
    (recurseDir v noWrite pass newInodesPerGroup depth inode (s32 (countedBytes inode))).Ends
      (fun _ _ => False) (fun _ m' => m'.stored = m.stored) m := by
  cases depth with
  | zero => exact rfl
  | succ depth =>
    have hsize : ofInt32 (s32 (countedBytes inode)) = countedBytes inode := by
      rw [ofInt32_s32, u32_of_lt (not_le.mp fun hwrap => hover (.inl hwrap))]
    rw [recurseDir_succ, hsize]
    refine .ite (fun _ => rfl) fun hwhole => ?_
    have hnum := (Nat.div_mul_cancel (Nat.dvd_of_mod_eq_zero (not_not.mp hwhole))).symm
    rw [Act.ends_bind]
    refine (getBlockList_more depth hmapping hbs hbsle hnum hmore hover).post ?_
    rintro blockList m1 ⟨hlonger, hunset, hm1⟩
    rw [Act.ends_bind]
    exact (readDirBlocks_unset hlonger hunset).mono (fun _ _ h => h.elim) fun _ _ h => h.trans hm1

theorem enterDir_calm (hground : Ground v.info d0 all) {depth : Nat}
    {recurse : Buffer → Int → Fixup Unit}
    (hrecurse : ∀ inode blks sub, inode.size = sizeofExt4Inode → DirectoryAt v d0 all inode blks →
      ¬ Overread v.info inode blks → (calm → CountsData v.info inode blks) → blks ⊆ all →
      Walkable v newInodesPerGroup calm d0 descs all depth blks 0 sub →
      DoesPass v newInodesPerGroup pass d0 descs all calm blks sub
        (CountsData v.info inode blks ∧ sub.AllBelow v.info descs d0 (CountsData v.info))
        (recurse inode (s32 (countedBytes inode)))) :
    EntersAll v newInodesPerGroup pass calm d0 descs all depth (enterDir v recurse) := by
  intro name inum blks sub hkept hinode hread hcounted hinside hsub d m h hstart
  have hbsle := hground.blockSize_le
  have hsame (f : Field) := hstart.outside.inode hkept f
  have hthis : DirectoryAt v d0 all (inodeAt v.info descs d inum) blks := hinode.congr rfl le_rfl hsame
  rw [enterDir, Act.ends_bind]
  refine (readInode_calm hground.inodesPerGroup_pos ?_ (hstart.outside.there hkept) h).mono ?_
    fun e m1 h1 => hstart.halted h1
  · rw [hstart.outside.size]
    exact hground.size_le
  · rintro tmpInode m1 ⟨rfl, h1⟩
    rw [if_pos hthis.isDir]
    refine .ite (fun hneg => hstart.halted ⟨h1.stored, fun hc => ?_⟩) fun _ => ?_
    · have hsize : s32 (countedBytes (inodeAt v.info descs d inum)) =
          (blks.length * v.info.blockSize.val : Nat) :=
        hthis.dirsize hbsle ((CountsData.congr hsame).mpr (hcounted hc))
      exact absurd hneg (not_lt.mpr (hsize ▸ Int.natCast_nonneg _))
    · refine (hrecurse _ blks sub rfl hthis (fun hover => hread ((Overread.congr hsame).mp hover))
        (fun hc => (CountsData.congr hsame).mpr (hcounted hc)) hinside hsub d m1 h1 hstart).post ?_
      exact fun _ m2 h2 => ⟨fun hpass => (h2.1 hpass).imp_left (CountsData.congr hsame).mp, h2.2⟩

theorem recurseDir_counted (hground : Ground v.info d0 all) {depth : Nat}
    (henter : EntersAll v newInodesPerGroup pass calm d0 descs all depth
      (enterDir v (recurseDir v false pass newInodesPerGroup depth)))
    (hisize : inode.size = sizeofExt4Inode) (hinode : DirectoryAt v d0 all inode blocks)
    (hcounted : CountsData v.info inode blocks) (hinside : blocks ⊆ all)
    (hes : Walkable v newInodesPerGroup calm d0 descs all (depth + 1) blocks 0 es) :
    DoesPass v newInodesPerGroup pass d0 descs all calm blocks es
      (es.AllBelow v.info descs d0 (CountsData v.info))
      (recurseDir v false pass newInodesPerGroup (depth + 1) inode
        (blocks.length * v.info.blockSize.val : Nat)) := by
  intro d m h hstart
  have hbs := hground.blockSize_pos
  have hlt := hinode.mapping.size_lt hground.blockSize_le hcounted
  have hin := shaped_slotsIn hes.shaped
  have hsize : ofInt32 ((blocks.length * v.info.blockSize.val : Nat) : Int) =
      blocks.length * v.info.blockSize.val := by
    rw [ofInt32_natCast, u32_of_lt (by omega)]
  rw [recurseDir_succ, hsize, if_neg (by rw [Nat.mul_mod_left]; simp), Nat.mul_div_cancel _ hbs,
    Act.ends_bind]
  refine (getBlockList_mapped depth hisize hinode.mapping hbs hcounted).post ?_
  rintro _ m0 ⟨rfl, rfl⟩
  rw [Act.ends_bind]
  refine (readDirBlocks_calm (hground.there hinside hstart.outside.size) h).mono ?_ fun e m1 h1 =>
    hstart.halted h1
  rintro dirbuf m1 ⟨hdata, h1⟩
  rw [Act.ends_bind]
  refine (walkDir_calm hground hlt henter hes (by omega) (hstart.walkStart hin hdata) h1).mono ?_ ?_
  · rintro dirbuf' m2 ⟨hcount, d1, hwalk, h2⟩
    have hsize1 : d1.size = d0.size := hwalk.changed.size.trans hstart.outside.size
    refine (writeDirBlocks_calm (List.nodup_append'.mp hes.nodup).1
      (by exact hground.there hinside hsize1) h2).mono ?_ ?_
    · rintro _ m3 ⟨d2, hwritten, h3⟩
      exact ⟨hcount, d2, written_done hstart hbs hin hes.nodup hdata hwalk hwritten, h3⟩
    · rintro e m3 ⟨n, d2, hn, hwritten, h3⟩
      exact ⟨d2, written_halted hstart hbs hin hes.nodup hdata hwalk hn hwritten, h3⟩
  · rintro e m2 ⟨d1, hwalk, h2⟩
    exact ⟨d1, hwalk.passHalted hstart hbs hin hes.nodup, h2⟩

theorem recurseDir_calm (hground : Ground v.info d0 all) (depth : Nat)
    (hisize : inode.size = sizeofExt4Inode) (hinode : DirectoryAt v d0 all inode blocks)
    (hread : ¬ Overread v.info inode blocks) (hcounted : calm → CountsData v.info inode blocks)
    (hinside : blocks ⊆ all)
    (hes : Walkable v newInodesPerGroup calm d0 descs all depth blocks 0 es) :
    DoesPass v newInodesPerGroup pass d0 descs all calm blocks es
      (CountsData v.info inode blocks ∧ es.AllBelow v.info descs d0 (CountsData v.info))
      (recurseDir v false pass newInodesPerGroup depth inode (s32 (countedBytes inode))) := by
  induction depth generalizing inode blocks es with
  | zero =>
    intro d m h hstart
    exact hstart.halted ⟨h.stored, fun hc => absurd (hes.height hc) (Nat.not_lt_zero _)⟩
  | succ depth ih =>
    intro d m h hstart
    by_cases hdata : CountsData v.info inode blocks
    · have henter : EntersAll v newInodesPerGroup pass calm d0 descs all depth
          (enterDir v (recurseDir v false pass newInodesPerGroup depth)) :=
        enterDir_calm hground fun inode blks sub h1 h2 h3 h4 h5 h6 => ih h1 h2 h3 h4 h5 h6
      rw [hinode.dirsize hground.blockSize_le hdata]
      refine (recurseDir_counted hground henter hisize hinode hdata hinside hes d m h hstart).post ?_
      exact fun _ m' h' => ⟨fun hpass => ⟨hdata, h'.1 hpass⟩, h'.2⟩
    · have hmapping : DirMapping v m.device all inode blocks := by
        rw [h.device]
        exact hstart.outside.mapping hinode.mapping
      refine (recurseDir_more false (depth + 1) hground.blockSize_pos hground.blockSize_le
        hmapping hdata hread).mono (fun _ _ h => h.elim) fun e m' hm' => hstart.halted ?_
      exact ⟨hm'.trans h.stored, fun hc => hdata (hcounted hc)⟩

end Recursion

end MakeExt4fs

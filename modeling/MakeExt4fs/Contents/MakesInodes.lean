import MakeExt4fs.Contents.MakesLinks

namespace MakeExt4fs

open ErrorLog Words

def emptyLayout : Layout where
  groups := 0
  bpg := 0
  firstDataBlock := 0
  lenBlocks := 0
  first _ := 0
  header _ := 0
  limit _ := 0
  bpg_lt := by decide
  word _ h := absurd h (Nat.not_lt_zero _)
  inside _ h := absurd h (Nat.not_lt_zero _)
  header_le _ h := absurd h (Nat.not_lt_zero _)
  apart _ _ _ h := absurd h (Nat.not_lt_zero _)

theorem emptyLayout_positive : emptyLayout.Positive := fun _ h => absurd h (Nat.not_lt_zero _)

def permissionSpans : Stretches := [(0, 4), (8, 20), (24, 26)]

def initSpans : Stretches := [(0, 2), (26, 28), (32, 36)]

def blockSpans : Stretches := [(28, 32), (40, 100)]

def xattrSpans (info : FsInfo) : Stretches := [(28, 32), (104, 108), (128, info.inodeSize.val)]

section Filling

variable {info : FsInfo}

theorem pokeBytes_advances (off : Nat) (xs : List UInt8) :
    Run.Advances Anything (pokeBytes off xs) := by
  apply Run.advances_read.bind
  intro b
  refine Run.Advances.ite (fun _ => ?_) fun _ => Run.advances_crash
  intro t l a t' l' hm
  cases hm
  exact ⟨trivial, List.prefix_refl _⟩

theorem growDentry_advances (pos gap : Nat) : Run.Advances Anything (growDentry pos gap) :=
  Run.advances_read.bind fun _ => pokeAt_advances _ _ _

theorem addDentry_advances (offset : Nat) (prev : Option Nat) (inode : Nat) (name : List UInt8)
    (fileType : Nat) : Run.Advances Anything (addDentry info offset prev inode name fileType) := by
  have hplace (bs recLen : Nat) : Run.Advances Anything (placeDentry bs offset recLen prev) := by
    refine Run.Advances.ite (fun _ => ?_) fun _ => Run.advances_pure _
    cases prev with
    | none => exact (Run.advances_raise false _).bind fun _ => Run.advances_pure _
    | some p => exact (growDentry_advances _ _).bind fun _ => Run.advances_pure _
  apply (hplace _ _).bind
  intro pos
  refine Run.Advances.bind ?_ fun _ => Run.advances_pure _
  refine (pokeAt_advances _ _ _).bind fun _ => (pokeAt_advances _ _ _).bind fun _ => ?_
  refine (pokeAt_advances _ _ _).bind fun _ => (pokeAt_advances _ _ _).bind fun _ => ?_
  exact pokeBytes_advances _ _

theorem addEntries_advances (len : Nat) (dentries : List Dentry) (offset prev : Nat) :
    Run.Advances Anything (addEntries info len dentries offset prev) := by
  induction dentries generalizing offset prev with
  | nil => exact Run.advances_pure _
  | cons d rest ih =>
    apply (addDentry_advances _ _ _ _ _).bind
    rintro ⟨pos, next⟩
    dsimp only
    split
    · exact (Run.advances_raise false _).bind fun _ => (ih _ _).bind fun _ => Run.advances_pure _
    · exact (ih _ _).bind fun _ => Run.advances_pure _

theorem fillDirectory_advances (len inodeNum dirInodeNum : Nat) (dentries : List Dentry) :
    Run.Advances Anything (fillDirectory info len inodeNum dirInodeNum dentries) := by
  apply (addDentry_advances _ _ _ _ _).bind
  rintro ⟨dot, offset⟩
  apply (addDentry_advances _ _ _ _ _).bind
  rintro ⟨dotdot, offset⟩
  apply (addEntries_advances _ _ _ _).bind
  rintro ⟨offset, last, inodes⟩
  exact (growDentry_advances _ _).bind fun _ => Run.advances_pure _

end Filling

section Inodes

variable {L : Layout} {P : Nat → Nat → Prop} {D : Nat → Prop} {info : FsInfo} {force : Bool}
  {r : InodeRef}

theorem initInode_fills (hp : ApartFrom P r initSpans) (mode : Nat) :
    Run.Advances (Fills L P D) (initInode r mode) := by
  apply Run.advances_read.bind
  intro fs
  refine (setField_fills (hp.off (by decide)) _).bind fun _ => ?_
  refine (setField_fills (hp.off (by decide)) _).bind fun _ => ?_
  exact orField_fills (hp.off (by decide)) _

theorem onTable_pokeBytes_fills (hp : ApartFrom P r blockSpans) {xs : List UInt8}
    (hxs : xs.length ≤ 60) :
    Run.Advances (Fills L P D) (onTable r (pokeBytes (r.off + (iBlock 0).off) xs)) := by
  apply onTable_fills
  intro t l a t' l' hm
  obtain ⟨-, rfl, rfl⟩ := pokeBytes_ok.mp hm
  refine ⟨?_, List.prefix_refl _⟩
  intro i hi
  have hoff := hp (40, 100) (by decide) i hi
  apply Buffer.get_put_of_not_mem
  change i < r.off + 40 ∨ r.off + 40 + xs.length ≤ i
  omega

theorem ApartFrom.off_iBlock (hp : ApartFrom P r blockSpans) : ∀ i < 15, Off P r (iBlock i) := by
  intro i hi
  refine hp.off ⟨(40, 100), by decide, ?_⟩
  simp only [iBlock]
  omega

theorem getInode_bind_fills {α : Type} {n : Nat} {f : InodeRef → Build α}
    (h : Run.Advances (Fills L P D) (f (inodeRef info n))) :
    Run.Advances (Fills L P D) (getInode info n >>= f) := by
  intro fs l a fs' l' hm
  obtain ⟨r, ⟨fs1, l1⟩, hget, hrest⟩ := Run.bind_ok.mp hm
  obtain ⟨rfl, rfl, -⟩ := getInode_ok hget
  obtain ⟨hfirst, -⟩ := getInode_fills (L := L) (P := P) (D := D) info n _ _ _ _ _ hget
  obtain ⟨hsecond, hlog⟩ := h _ _ _ _ _ hrest
  exact ⟨trans_of (Fills L P D) hfirst hsecond, hlog⟩

theorem inodeSetPermissions_fills {n : Nat} (hp : ApartFrom P (inodeRef info n) permissionSpans)
    (mode uid gid mtime : Nat) :
    Run.Advances (Fills L P D) (inodeSetPermissions info n mode uid gid mtime) := by
  have hset (f : Field) (hf : f.Within permissionSpans) (v : Nat) :
      Run.Advances (Fills L P D) (setField (inodeRef info n) f v) := setField_fills (hp.off hf) v
  apply getInode_bind_fills
  refine (orField_fills (hp.off (by decide)) _).bind fun _ => (hset _ (by decide) _).bind fun _ => ?_
  refine (hset _ (by decide) _).bind fun _ => (hset _ (by decide) _).bind fun _ => ?_
  refine (hset _ (by decide) _).bind fun _ => (hset _ (by decide) _).bind fun _ => ?_
  exact Run.advances_pure _

end Inodes

section Attributes

variable {L : Layout} {P : Nat → Nat → Prop} {D : Nat → Prop} {info : FsInfo} {force : Bool}
  {r : InodeRef}

theorem xattrAddtoRange_advances (start stop first nameIndex : Nat) (name value : List UInt8) :
    Run.Advances Anything (xattrAddtoRange force start stop first nameIndex name value) := by
  have hpeek (off n : Nat) : Run.Advances Anything (peekAt off n) :=
    (peekAt_advances off n).mono fun _ _ _ => trivial
  have hlast (entry : Nat) : Run.Advances Anything (isLastEntry entry) :=
    (isLastEntry_advances entry).mono fun _ _ _ => trivial
  have hnext (entry : Nat) : Run.Advances Anything (xattrNext entry) :=
    (xattrNext_advances entry).mono fun _ _ _ => trivial
  have hfreeLoop (fuel entry : Nat) (stop : Int) :
      Run.Advances Anything (xattrFreeLoop fuel entry stop) := by
    induction fuel generalizing entry stop with
    | zero => exact Run.advances_crash
    | succ fuel ih =>
      apply (hlast entry).bind
      intro last
      refine Run.Advances.ite (fun _ => ?_) fun _ => Run.advances_pure _
      exact (hpeek _ _).bind fun _ => (hnext _).bind fun _ => ih _ _
  have hlastLoop (fuel entry : Nat) : Run.Advances Anything (xattrLastLoop fuel entry) := by
    induction fuel generalizing entry with
    | zero => exact Run.advances_crash
    | succ fuel ih =>
      apply (hlast entry).bind
      intro last
      refine Run.Advances.ite (fun _ => Run.advances_pure _) fun _ => ?_
      exact (hnext _).bind fun _ => ih _
  have hfree : Run.Advances Anything (xattrFreeSpace force first stop) := by
    apply Run.advances_read.bind
    intro b
    apply (hfreeLoop _ _ _).bind
    rintro ⟨entry, stop⟩
    refine Run.Advances.ite (fun _ => ?_) fun _ => Run.advances_pure _
    exact (Run.advances_raise force _).bind fun _ => Run.advances_pure _
  have hget : Run.Advances Anything (xattrGetLast first) :=
    Run.advances_read.bind fun _ => hlastLoop _ _
  have hsane : Run.Advances Anything (xattrAssertSane force first) :=
    (xattrAssertSane_advances first).mono fun _ _ _ => trivial
  refine Run.Advances.ite (fun _ => Run.advances_pure _) fun _ => ?_
  apply hfree.bind
  intro availableSize
  refine Run.Advances.ite (fun _ => Run.advances_pure _) fun _ => ?_
  apply hget.bind
  intro entry
  refine (pokeBytes_advances _ _).bind fun _ => (pokeAt_advances _ _ _).bind fun _ => ?_
  refine (pokeAt_advances _ _ _).bind fun _ => (pokeBytes_advances _ _).bind fun _ => ?_
  refine (pokeAt_advances _ _ _).bind fun _ => (pokeAt_advances _ _ _).bind fun _ => ?_
  refine (pokeAt_advances _ _ _).bind fun _ => (pokeBytes_advances _ _).bind fun _ => ?_
  exact (pokeBytes_advances _ _).bind fun _ => hsane.bind fun _ => Run.advances_pure _

theorem xattrAddtoInode_fills (hp : ApartFrom P r (xattrSpans info)) (a : XAttr) :
    Run.Advances (Fills L P D) (xattrAddtoInode info force r a.nameIndex a.name a.value) := by
  apply onTable_fills
  intro t l c t' l' hm
  obtain ⟨found, ⟨t1, l1⟩, hadd, hend⟩ := Run.bind_ok.mp hm
  obtain ⟨-, hlog⟩ := xattrAddtoRange_advances _ _ _ _ _ _ _ _ _ _ _ hadd
  have hsize : r.off + info.inodeSize.val < r.off + sizeofExt4Inode + 4 + 4294967296 := by
    have := info.inodeSize.isLt
    omega
  obtain ⟨rfl, rfl, -⟩ | ⟨pos, top, rfl, -, hput, hsame⟩ := xattrAddtoRange_put hsize hadd
  · cases hend
    exact ⟨fun _ _ => rfl, hlog⟩
  · obtain ⟨⟨⟩, ⟨t2, l2⟩, h2, hend2⟩ := Run.bind_ok.mp hend
    obtain ⟨⟨⟩, ⟨t3, l3⟩, h3, hend3⟩ := Run.bind_ok.mp hend2
    cases hend3
    obtain ⟨-, rfl, rfl⟩ := pokeAt_ok.mp h2
    obtain ⟨-, rfl, rfl⟩ := pokeAt_ok.mp h3
    refine ⟨fun i hi => ?_, hlog⟩
    have hroom : r.off + sizeofExt4Inode + 4 ≤ r.off + info.inodeSize.val := by
      have hfirst := hput.first_le
      have hfits := hput.fits
      have hstop := hput.le_stop
      omega
    have hoff := hp (128, info.inodeSize.val) (by simp [xattrSpans]) i hi
    simp only [sizeofExt4Inode] at hroom hoff
    rw [Buffer.get_putLE_of_apart _ _ _ _ _ (by simp only [iExtraIsize]; omega),
      Buffer.get_putLE_of_apart _ _ _ _ _ (by simp only [sizeofExt4Inode]; omega)]
    exact hsame i (by simp only [sizeofExt4Inode]; omega)

theorem fills_addXattr {fs : Fs} {d : Nat} (hd : D d) (hlt : d < fs.heap.length) (n : Nat) :
    Fills L P D fs { fs with aux := { fs.aux with xattrs := (n, d) :: fs.aux.xattrs } } := by
  refine fun hk => ⟨⟨fun _ _ _ => rfl, ?_, le_rfl, List.prefix_refl _, ?_⟩, ?_, rfl, rfl⟩
  · intro id hid hn
    refine ⟨⟨hid.1, ?_⟩, rfl⟩
    intro e he
    rcases List.mem_cons.mp he with rfl | he
    · exact fun heq => hn (heq ▸ hd)
    · exact hid.2 e he
  · intro hknown e he
    rcases List.mem_cons.mp he with rfl | he
    · exact hlt
    · exact hknown e he
  · exact ⟨hk.groups, hk.firstDataBlock, hk.lenBlocks, hk.length, hk.group⟩

theorem getXattrBlockForInode_fills (hp : ApartFrom P r (xattrSpans info)) (n : Nat) :
    Run.Advances (Fills L P D) (getXattrBlockForInode info force r n) := by
  have hfill {α : Type} {d : Nat} {m : Build α}
      (h : Run.Advances (Fills L P fun id => D id ∨ id = d) m) :
      Run.Advances (FillsWith L P (fun id => D id ∨ id = d) d) m := h.mono fun _ _ h _ => h
  have hset (d : Nat) (f : Field) (hf : f.Within (xattrSpans info)) (v : Nat) :
      Run.Advances (FillsWith L P (fun id => D id ∨ id = d) d) (setField r f v) :=
    hfill (setField_fills (hp.off hf) v)
  apply Run.advances_read.bind
  intro fs
  split
  · exact Run.advances_pure _
  · apply allocateBlock_fills.bind
    intro blockNum
    apply calloc_bind_fillsWith
    intro d
    refine (hfill (setHeap_fills (Or.inr rfl) _ _ _)).bind fun _ => ?_
    refine (hfill (setHeap_fills (Or.inr rfl) _ _ _)).bind fun _ => ?_
    refine (hfill (setHeap_fills (Or.inr rfl) _ _ _)).bind fun _ => ?_
    apply (hfill (getField_fills _ _)).bind
    intro blocks
    refine (hset _ _ ⟨(28, 32), by simp [xattrSpans], by decide, by decide⟩ _).bind fun _ => ?_
    refine (hset _ _ ⟨(104, 108), by simp [xattrSpans], by decide, by decide⟩ _).bind fun _ => ?_
    refine (hfill (sparseFileAdd_fills _)).bind fun _ => ?_
    refine Run.Advances.bind ?_ fun _ => Run.advances_pure _
    intro fs l a fs' l' hm
    cases hm
    exact ⟨fun hd => fills_addXattr (Or.inr rfl) hd n, List.prefix_refl _⟩

theorem xattrListFind_mem {aux : FsAuxInfo} {n id : Nat} (h : xattrListFind aux n = some id) :
    ∃ e ∈ aux.xattrs, e.2 = id := by
  obtain ⟨e, he, rfl⟩ := Option.map_eq_some_iff.mp h
  exact ⟨e, List.mem_of_find?_eq_some he, rfl⟩

theorem xattrAddtoBlock_fills (hp : ApartFrom P r (xattrSpans info)) (n : Nat) (a : XAttr) :
    Run.Advances (Fills L P D) (xattrAddtoBlock info force r n a.nameIndex a.name a.value) := by
  intro fs l c fs' l' hm
  obtain ⟨id, ⟨fs1, l1⟩, hget, hrest⟩ := Run.bind_ok.mp hm
  obtain ⟨hfirst, hlog1⟩ := getXattrBlockForInode_fills (L := L) (D := D) hp n _ _ _ _ _ hget
  obtain ⟨b, b', hb, hrun, rfl⟩ := onHeap_ok.mp hrest
  have hlog2 : l1 <+: l' := by
    obtain ⟨found, ⟨t1, l2⟩, hadd, hend⟩ := Run.bind_ok.mp hrun
    obtain ⟨-, hadded⟩ := xattrAddtoRange_advances _ _ _ _ _ _ _ _ _ _ _ hadd
    cases found with
    | none =>
      cases hend
      exact hadded
    | some entry =>
      obtain ⟨⟨⟩, ⟨t2, l3⟩, hhash, hlast⟩ := Run.bind_ok.mp hend
      cases hlast
      exact hadded.trans ((Run.advances_read.bind fun _ => pokeAt_advances _ _ _) _ _ _ _ _ hhash).2
  refine ⟨trans_of (Fills L P D) hfirst fun hk => ?_, hlog1.trans hlog2⟩
  have hlisted : ∃ e ∈ fs1.aux.xattrs, e.2 = id := by
    obtain ⟨hfind, rfl⟩ | ⟨-, num, aux, k, -, -, hnew, -⟩ := getXattrBlockForInode_ok hget
    · exact xattrListFind_mem hfind
    · exact ⟨(n, id), hnew.list ▸ List.mem_cons_self, rfl⟩
  refine ⟨⟨fun _ _ _ => rfl, ?_, by simp, List.prefix_refl _, fun hknown e he => ?_⟩, hk, rfl, rfl⟩
  rotate_left
  · simpa using hknown e he
  intro i hi _
  obtain ⟨e, he, rfl⟩ := hlisted
  exact ⟨⟨by simpa using hi.1, hi.2⟩, List.getElem?_set_ne (hi.2 e he)⟩

theorem inodeSetCapabilities_fills {n : Nat}
    (hp : ApartFrom P (inodeRef info n) (xattrSpans info)) (capabilities : Nat) :
    Run.Advances (Fills L P D) (inodeSetCapabilities info force n capabilities) := by
  refine Run.Advances.ite (fun _ => Run.advances_pure _) fun _ => ?_
  apply getInode_bind_fills
  apply (xattrAddtoInode_fills hp ⟨_, _, _⟩).bind
  intro result
  refine Run.Advances.ite (fun _ => ?_) fun _ => Run.advances_pure _
  exact xattrAddtoBlock_fills hp n ⟨_, _, _⟩

end Attributes

end MakeExt4fs

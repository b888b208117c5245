import MakeExt4fs.Fixup.Renumber

namespace MakeExt4fs

open ErrorLog Interrupt Words

section Walk

variable (v : Volume) (newInodesPerGroup : Nat) (pass : Pass) (d0 : Disk) (descs : Buffer)
  (all : List Nat)

structure PassStart (d : Disk) (blocks : List Nat) (es : DirEntries) : Prop where
  outside : Outside v.info.blockSize.val all d0 d
  framed : Framed v.info.blockSize.val d0 d (es.dirs blocks)
  ordered : es.Ordered v.info.blockSize.val pass.before (pass.after v.info newInodesPerGroup) d blocks

structure PassDone (d : Disk) (blocks : List Nat) (es : DirEntries) (d' : Disk) : Prop where
  changed : ChangedIn v.info.blockSize.val (blocks ++ es.blocksDeeper) d d'
  framed : Framed v.info.blockSize.val d0 d' (es.dirs blocks)
  done : DirEntries.Done v.info.blockSize.val (pass.after v.info newInodesPerGroup) d'
    (es.dirs blocks)

-- What had been done before stays done.
structure PassHalted (d : Disk) (blocks : List Nat) (es : DirEntries) (d' : Disk) : Prop where
  changed : ChangedIn v.info.blockSize.val (blocks ++ es.blocksDeeper) d d'
  framed : Framed v.info.blockSize.val d0 d' (es.dirs blocks)
  ordered : es.Ordered v.info.blockSize.val pass.before (pass.after v.info newInodesPerGroup) d' blocks
  kept : DirEntries.Done v.info.blockSize.val (pass.after v.info newInodesPerGroup) d (es.dirs blocks) →
    DirEntries.Done v.info.blockSize.val (pass.after v.info newInodesPerGroup) d' (es.dirs blocks)

def DoesPass (calm : Prop) (blocks : List Nat) (es : DirEntries) (counted : Prop)
    (work : Fixup Unit) : Prop :=
  ∀ d m, At calm (d, descs) m → PassStart v newInodesPerGroup pass d0 all d blocks es →
    work.Ends
      (fun _ m' => (pass ≠ .updateInodeNums → counted) ∧
        ∃ d', PassDone v newInodesPerGroup pass d0 d blocks es d' ∧ At calm (d', descs) m')
      (fun _ m' => ∃ d', PassHalted v newInodesPerGroup pass d0 d blocks es d' ∧
        Halted calm (d', descs) m') m

structure WalkStart (d : Disk) (dirbuf : Buffer) (blocks : List Nat) (off : Nat) (es : DirEntries) :
    Prop where
  size : dirbuf.size = blocks.length * v.info.blockSize.val
  data : ∀ a, off ≤ a → a < blocks.length * v.info.blockSize.val →
    (∀ e ∈ es.own, a < e.1 ∨ e.1 + 4 ≤ a) →
      dirbuf.get a = (dirData v.info.blockSize.val d0 blocks).get a
  slots : ∀ e ∈ es.own, (direntInode e.1).get dirbuf = slotAt v.info.blockSize.val d blocks e.1
  outside : Outside v.info.blockSize.val all d0 d
  framed : Framed v.info.blockSize.val d0 d es.dirsDeeper
  ordered : es.Ordered v.info.blockSize.val pass.before (pass.after v.info newInodesPerGroup) d blocks

structure WalkDone (d : Disk) (dirbuf : Buffer) (es : DirEntries) (d' : Disk) (dirbuf' : Buffer) :
    Prop where
  changed : ChangedIn v.info.blockSize.val es.blocksDeeper d d'
  framed : Framed v.info.blockSize.val d0 d' es.dirsDeeper
  done : DirEntries.Done v.info.blockSize.val (pass.after v.info newInodesPerGroup) d' es.dirsDeeper
  size : dirbuf'.size = dirbuf.size
  same : ∀ a, (∀ e ∈ es.own, a < e.1 ∨ e.1 + 4 ≤ a) → dirbuf'.get a = dirbuf.get a
  own : ∀ e ∈ es.own, (direntInode e.1).get dirbuf' = pass.after v.info newInodesPerGroup e.2

structure WalkHalted (d : Disk) (blocks : List Nat) (es : DirEntries) (d' : Disk) : Prop where
  changed : ChangedIn v.info.blockSize.val es.blocksDeeper d d'
  framed : Framed v.info.blockSize.val d0 d' es.dirsDeeper
  ordered : es.Ordered v.info.blockSize.val pass.before (pass.after v.info newInodesPerGroup) d' blocks
  kept : DirEntries.Done v.info.blockSize.val (pass.after v.info newInodesPerGroup) d es.dirsDeeper →
    DirEntries.Done v.info.blockSize.val (pass.after v.info newInodesPerGroup) d' es.dirsDeeper

end Walk

section Steps

variable {v : Volume} {newInodesPerGroup : Nat} {pass : Pass} {calm : Prop} {d0 d d1 d' : Disk}
  {descs dirbuf dirbuf' data : Buffer} {all blocks : List Nat} {off inum : Nat}
  {enter : List UInt8 → Nat → Fixup Unit} {m : Machine} {rest : DirEntries}

theorem shortEntry_none {size : Nat} {prev : Option Nat} (hsize : size < 2147483648)
    (hlong : off + 8 < size) : shortEntry pass size off prev = none := by
  have hleft : ofInt32 ((size : Int) - off) = size - off := by
    simp only [ofInt32]
    omega
  rw [shortEntry, hleft, if_neg (by omega)]

theorem walkDir_used {Q : Buffer → Machine → Prop} {E : Stop FixupError → Machine → Prop}
    {turns : Nat} {prev : Option Nat} (hent : DirentAt v.info newInodesPerGroup data off inum)
    (hin : EntryIn data dirbuf off) (hsize : data.size < 2147483648)
    (hslot : (direntInode off).get dirbuf = pass.before inum ∨
      (direntInode off).get dirbuf = pass.after v.info newInodesPerGroup inum)
    (hvisit : (visitEntry v pass newInodesPerGroup enter dirbuf off).Ends
      (fun b m1 => b = passEntry v pass newInodesPerGroup dirbuf off ∧
        (walkDir v pass newInodesPerGroup enter data.size turns
          (off + (direntRecLen off).get data) (some off) b).Ends Q E m1) E m) :
    (walkDir v pass newInodesPerGroup enter data.size (turns + 1) off prev dirbuf).Ends Q E m := by
  have hfits := hin.fits
  have hbsize := hin.size
  have hholds := hent.holdsName
  have hnamed := hent.named
  have hne := pass_pos hent.pos hslot
  rw [walkDir, if_neg (by omega), shortEntry_none hsize (by omega)]
  simp only [nextEntry]
  rw [memGet_eq (by simp only [direntInode]; omega), pure_bind, if_neg hne, Act.ends_bind]
  refine hvisit.post ?_
  rintro b m1 ⟨rfl, hrest⟩
  have hrec : (direntRecLen off).get (passEntry v pass newInodesPerGroup dirbuf off) =
      (direntRecLen off).get data := by
    have hend : off + 4 + 2 ≤ off + (direntRecLen off).get data := by omega
    rw [← hin.field (f := direntRecLen off) le_rfl hend]
    exact Buffer.getLE_congr fun i h1 _ => passEntry_apart (.inr (by
      simp only [direntRecLen] at h1
      omega))
  rw [memGet_eq (by rw [passEntry_size]; simp only [direntRecLen]; omega), pure_bind, hrec]
  exact hrest

theorem walkDir_unused {turns : Nat} {prev : Option Nat} {Q : Buffer → Machine → Prop}
    {E : Stop FixupError → Machine → Prop} {size : Nat} (hsize : size < 2147483648)
    (hlong : off + 8 < size) (hbsize : dirbuf.size = size)
    (hzero : (direntInode off).get dirbuf = 0) (hq : Q dirbuf m) :
    (walkDir v pass newInodesPerGroup enter size (turns + 1) off prev dirbuf).Ends Q E m := by
  rw [walkDir, if_neg (by omega), shortEntry_none hsize (by omega)]
  simp only [nextEntry]
  rw [memGet_eq (by simp only [direntInode]; omega), pure_bind, if_pos hzero]
  exact hq

structure UsedHead (es : DirEntries) (off inum : Nat) (mid : List (List Nat × DirEntries))
    (rest : DirEntries) : Prop where
  own : es.own = (off, inum) :: rest.own
  deeper : es.dirsDeeper = mid ++ rest.dirsDeeper

variable {es : DirEntries} {mid : List (List Nat × DirEntries)}

theorem UsedHead.blocksDeeper (h : UsedHead es off inum mid rest) :
    es.blocksDeeper = mid.flatMap Prod.fst ++ rest.blocksDeeper := by
  rw [DirEntries.blocksDeeper, h.deeper, List.flatMap_append]
  rfl

theorem UsedHead.disjoint (h : UsedHead es off inum mid rest)
    (hnodup : (blocks ++ es.blocksDeeper).Nodup) :
    ((rest.dirs blocks).flatMap Prod.fst).Disjoint (mid.flatMap Prod.fst) := by
  rw [h.blocksDeeper, ← List.append_assoc] at hnodup
  rw [DirEntries.flatMap_dirs]
  have h1 := List.disjoint_of_nodup_append hnodup
  have h2 := List.disjoint_of_nodup_append (List.nodup_append'.mp hnodup).1
  exact List.disjoint_append_left.mpr ⟨h2, fun b hb hb' => h1 (List.mem_append_right _ hb') hb⟩

structure Entered (v : Volume) (newInodesPerGroup : Nat) (pass : Pass) (d0 d d1 : Disk)
    (mid : List (List Nat × DirEntries)) : Prop where
  changed : ChangedIn v.info.blockSize.val (mid.flatMap Prod.fst) d d1
  framed : Framed v.info.blockSize.val d0 d1 mid
  done : DirEntries.Done v.info.blockSize.val (pass.after v.info newInodesPerGroup) d1 mid

theorem WalkStart.entryIn (h : WalkStart v newInodesPerGroup pass d0 all d dirbuf blocks off es)
    (hhead : UsedHead es off inum mid rest)
    (hent : DirentAt v.info newInodesPerGroup (dirData v.info.blockSize.val d0 blocks) off inum)
    (hoff : off < blocks.length * v.info.blockSize.val)
    (hge : ∀ e ∈ rest.own,
      off + (direntRecLen off).get (dirData v.info.blockSize.val d0 blocks) ≤ e.1) :
    EntryIn (dirData v.info.blockSize.val d0 blocks) dirbuf off := by
  have hend := end_le_of_inBlock hoff hent.inBlock
  refine ⟨h.size, hend, fun i h1 h2 => h.data i (by omega) (by omega) ?_⟩
  rw [hhead.own, List.forall_mem_cons]
  refine ⟨.inr h1, fun e he => ?_⟩
  have := hge e he
  omega

theorem WalkStart.next (h : WalkStart v newInodesPerGroup pass d0 all d dirbuf blocks off es)
    (hhead : UsedHead es off inum mid rest) {len : Nat} (hlen : 4 ≤ len)
    (hge : ∀ e ∈ rest.own, off + len ≤ e.1) (hin : SlotsIn v.info.blockSize.val (rest.dirs blocks))
    (hbs : 0 < v.info.blockSize.val)
    (hnodup : (blocks ++ es.blocksDeeper).Nodup) (hsub : mid.flatMap Prod.fst ⊆ all)
    (hentered : Entered v newInodesPerGroup pass d0 d d1 mid)
    (hrest : rest.Ordered v.info.blockSize.val pass.before (pass.after v.info newInodesPerGroup) d
      blocks) :
    WalkStart v newInodesPerGroup pass d0 all d1 (passEntry v pass newInodesPerGroup dirbuf off)
      blocks (off + len) rest := by
  have hapart := hhead.disjoint hnodup
  have hslots := slots_changed hin hentered.changed hapart
  refine ⟨?_, fun a h1 h2 h3 => ?_, fun e he => ?_, ?_, ?_, ?_⟩
  · rw [passEntry_size, h.size]
  · rw [passEntry_apart (by omega)]
    refine h.data a (by omega) h2 ?_
    rw [hhead.own, List.forall_mem_cons]
    exact ⟨by omega, h3⟩
  · have hfar := hge e he
    have hsame : (direntInode e.1).get (passEntry v pass newInodesPerGroup dirbuf off) =
        (direntInode e.1).get dirbuf :=
      Buffer.getLE_congr fun i h1 _ => passEntry_apart (.inr (by
        simp only [direntInode] at h1
        omega))
    rw [hsame, h.slots e (by rw [hhead.own]; exact List.mem_cons_of_mem _ he)]
    exact (hslots (blocks, rest) List.mem_cons_self e he).symm
  · exact h.outside.changed hentered.changed hsub
  · have hframed := h.framed
    rw [hhead.deeper, framed_append] at hframed
    refine hframed.2.changed hbs hentered.changed fun b hb hb' => hapart ?_ hb'
    exact List.mem_append_right _ hb
  · exact hrest.congr hslots

theorem WalkDone.cons (hhead : UsedHead es off inum mid rest) (hbs : 0 < v.info.blockSize.val)
    (hge : ∀ e ∈ rest.own, off + 4 ≤ e.1) (hin : SlotsIn v.info.blockSize.val mid)
    (hnodup : (blocks ++ es.blocksDeeper).Nodup)
    (hentered : Entered v newInodesPerGroup pass d0 d d1 mid)
    (hslot : (direntInode off).get (passEntry v pass newInodesPerGroup dirbuf off) =
      pass.after v.info newInodesPerGroup inum)
    (h : WalkDone v newInodesPerGroup pass d0 d1 (passEntry v pass newInodesPerGroup dirbuf off)
      rest d' dirbuf') :
    WalkDone v newInodesPerGroup pass d0 d dirbuf es d' dirbuf' := by
  have hapart := hhead.disjoint hnodup
  have hmid : (mid.flatMap Prod.fst).Disjoint rest.blocksDeeper := fun b hb hb' =>
    hapart (List.mem_append_right _ hb') hb
  refine ⟨?_, ?_, ?_, ?_, fun a ha => ?_, ?_⟩
  · rw [hhead.blocksDeeper]
    exact (hentered.changed.mono (List.subset_append_left _ _)).trans
      (h.changed.mono (List.subset_append_right _ _))
  · rw [hhead.deeper, framed_append]
    exact ⟨hentered.framed.changed hbs h.changed hmid, h.framed⟩
  · rw [hhead.deeper, DirEntries.done_append]
    exact ⟨hentered.done.congr (slots_changed hin h.changed hmid), h.done⟩
  · rw [h.size, passEntry_size]
  · rw [hhead.own, List.forall_mem_cons] at ha
    rw [h.same a ha.2, passEntry_apart ha.1]
  · rw [hhead.own, List.forall_mem_cons]
    refine ⟨?_, h.own⟩
    rw [← hslot]
    refine Buffer.getLE_congr fun i _ h2 => h.same i fun e he => ?_
    have := hge e he
    simp only [direntInode] at h2
    omega

theorem WalkHalted.cons (hhead : UsedHead es off inum mid rest) (hbs : 0 < v.info.blockSize.val)
    (hin : SlotsIn v.info.blockSize.val (mid ++ rest.dirs blocks))
    (hhere : SlotIn v.info.blockSize.val blocks off)
    (hnodup : (blocks ++ es.blocksDeeper).Nodup)
    (hentered : Entered v newInodesPerGroup pass d0 d d1 mid)
    (hordered : slotAt v.info.blockSize.val d' blocks off = slotAt v.info.blockSize.val d blocks off →
      DirEntries.Done v.info.blockSize.val (pass.after v.info newInodesPerGroup) d' mid →
      rest.Ordered v.info.blockSize.val pass.before (pass.after v.info newInodesPerGroup) d' blocks →
      es.Ordered v.info.blockSize.val pass.before (pass.after v.info newInodesPerGroup) d' blocks)
    (h : WalkHalted v newInodesPerGroup pass d0 d1 blocks rest d') :
    WalkHalted v newInodesPerGroup pass d0 d blocks es d' := by
  obtain ⟨hinmid, hinrest⟩ := slotsIn_append.mp hin
  have hapart := hhead.disjoint hnodup
  have hmid : (mid.flatMap Prod.fst).Disjoint rest.blocksDeeper := fun b hb hb' =>
    hapart (List.mem_append_right _ hb') hb
  have hdone := hentered.done.congr (slots_changed hinmid h.changed hmid)
  have hchanged : ChangedIn v.info.blockSize.val es.blocksDeeper d d' := by
    rw [hhead.blocksDeeper]
    exact (hentered.changed.mono (List.subset_append_left _ _)).trans
      (h.changed.mono (List.subset_append_right _ _))
  refine ⟨hchanged, ?_, ?_, fun hbefore => ?_⟩
  · rw [hhead.deeper, framed_append]
    exact ⟨hentered.framed.changed hbs h.changed hmid, h.framed⟩
  · refine hordered (slotAt_changed hhere hchanged ?_) hdone h.ordered
    exact List.disjoint_of_nodup_append hnodup
  · rw [hhead.deeper, DirEntries.done_append] at hbefore ⊢
    refine ⟨hdone, h.kept ?_⟩
    exact hbefore.2.congr fun p hp e he =>
      slots_changed hinrest hentered.changed hapart p (List.mem_cons_of_mem _ hp) e he

end Steps

section Loop

structure Walkable (v : Volume) (newInodesPerGroup : Nat) (calm : Prop) (d0 : Disk) (descs : Buffer)
    (all : List Nat) (depth : Nat) (blocks : List Nat) (off : Nat) (es : DirEntries) : Prop where
  shaped : es.Shaped v.info newInodesPerGroup descs d0 all (DirectoryAt v d0 all) blocks off
  nodup : (blocks ++ es.blocksDeeper).Nodup
  inside : es.blocksDeeper ⊆ all
  height : calm → es.height < depth
  read : es.AllBelow v.info descs d0 fun inode blks => ¬ Overread v.info inode blks
  counted : calm → es.AllBelow v.info descs d0 (CountsData v.info)

section Entries

variable {v : Volume} {newInodesPerGroup : Nat} {calm : Prop} {d0 : Disk} {descs : Buffer}
  {all blocks blks : List Nat} {depth off off' inum : Nat} {sub rest : DirEntries}

theorem Walkable.behind (h : Walkable v newInodesPerGroup calm d0 descs all depth blocks off
    (.other off' inum rest)) :
    Walkable v newInodesPerGroup calm d0 descs all depth blocks
      (off + (direntRecLen off).get (dirData v.info.blockSize.val d0 blocks)) rest := by
  obtain ⟨-, -, -, -, -, hrest⟩ := h.shaped
  exact ⟨hrest, h.nodup, h.inside, h.height, h.read, h.counted⟩

theorem Walkable.onward (h : Walkable v newInodesPerGroup calm d0 descs all depth blocks off
    (.dir off' inum blks sub rest)) :
    Walkable v newInodesPerGroup calm d0 descs all depth blocks
      (off + (direntRecLen off).get (dirData v.info.blockSize.val d0 blocks)) rest := by
  obtain ⟨-, -, -, -, -, -, -, hrest⟩ := h.shaped
  have hnodup := h.nodup
  have hinside := h.inside
  rw [DirEntries.blocksDeeper_dir] at hnodup hinside
  exact ⟨hrest, hnodup.sublist ((List.sublist_append_right _ _).append_left _),
    fun b hb => hinside (List.mem_append_right _ hb),
    fun hc => (le_max_right _ _).trans_lt (h.height hc), h.read.2, fun hc => (h.counted hc).2⟩

theorem Walkable.below (h : Walkable v newInodesPerGroup calm d0 descs all (depth + 1) blocks off
    (.dir off' inum blks sub rest)) :
    blks ⊆ all ∧ Walkable v newInodesPerGroup calm d0 descs all depth blks 0 sub := by
  obtain ⟨-, -, -, -, -, -, hsub, -⟩ := h.shaped
  have hnodup := h.nodup
  have hinside := h.inside
  rw [DirEntries.blocksDeeper_dir] at hinside
  rw [DirEntries.blocksDeeper_dir, ← List.append_assoc] at hnodup
  refine ⟨fun b hb => hinside (List.mem_append_left _ (List.mem_append_left _ hb)), hsub,
    (List.nodup_append'.mp (List.nodup_append'.mp hnodup).1).2.1,
    fun b hb => hinside (List.mem_append_left _ (List.mem_append_right _ hb)), fun hc => ?_,
    h.read.1.2, fun hc => (h.counted hc).1.2⟩
  exact Nat.lt_of_succ_lt_succ ((le_max_left _ _).trans_lt (h.height hc))

end Entries

variable (v : Volume) (newInodesPerGroup : Nat) (pass : Pass) (calm : Prop) (d0 : Disk)
  (descs : Buffer) (all : List Nat)

def EntersAll (depth : Nat) (enter : List UInt8 → Nat → Fixup Unit) : Prop :=
  ∀ name inum blks sub, InodeKept v.info descs d0 all inum →
    DirectoryAt v d0 all (inodeAt v.info descs d0 inum) blks →
    ¬ Overread v.info (inodeAt v.info descs d0 inum) blks →
    (calm → CountsData v.info (inodeAt v.info descs d0 inum) blks) → blks ⊆ all →
    Walkable v newInodesPerGroup calm d0 descs all depth blks 0 sub →
    DoesPass v newInodesPerGroup pass d0 descs all calm blks sub
      (CountsData v.info (inodeAt v.info descs d0 inum) blks ∧
        sub.AllBelow v.info descs d0 (CountsData v.info)) (enter name inum)

def Walks (blocks : List Nat) (es : DirEntries) (d : Disk) (dirbuf : Buffer) (walk : Fixup Buffer)
    (m : Machine) : Prop :=
  walk.Ends
    (fun b m' => (pass ≠ .updateInodeNums → es.AllBelow v.info descs d0 (CountsData v.info)) ∧
      ∃ d', WalkDone v newInodesPerGroup pass d0 d dirbuf es d' b ∧ At calm (d', descs) m')
    (fun _ m' => ∃ d', WalkHalted v newInodesPerGroup pass d0 d blocks es d' ∧
      Halted calm (d', descs) m') m

variable {v newInodesPerGroup pass calm d0 descs all} {depth : Nat} {blocks : List Nat}

theorem entered_nil (d : Disk) : Entered v newInodesPerGroup pass d0 d d [] :=
  ⟨.refl _ _, by simp [Framed], by simp [DirEntries.Done]⟩

theorem WalkStart.halted {es : DirEntries} {off : Nat} {d : Disk} {dirbuf : Buffer} {m : Machine}
    (hstart : WalkStart v newInodesPerGroup pass d0 all d dirbuf blocks off es)
    (h : Halted calm (d, descs) m) :
    ∃ d', WalkHalted v newInodesPerGroup pass d0 d blocks es d' ∧ Halted calm (d', descs) m :=
  ⟨d, ⟨.refl _ _, hstart.framed, hstart.ordered, id⟩, h⟩

theorem walk_onward {walk : Fixup Buffer} {es rest : DirEntries}
    {mid : List (List Nat × DirEntries)} {off inum : Nat} {d d1 : Disk} {dirbuf : Buffer} {m : Machine}
    (hhead : UsedHead es off inum mid rest) (hbs : 0 < v.info.blockSize.val)
    (hent : DirentAt v.info newInodesPerGroup (dirData v.info.blockSize.val d0 blocks) off inum)
    (hoff : off < blocks.length * v.info.blockSize.val)
    (hrest : rest.Shaped v.info newInodesPerGroup descs d0 all (DirectoryAt v d0 all) blocks
      (off + (direntRecLen off).get (dirData v.info.blockSize.val d0 blocks)))
    (hin : SlotsIn v.info.blockSize.val mid) (hnodup : (blocks ++ es.blocksDeeper).Nodup)
    (hsub : mid.flatMap Prod.fst ⊆ all)
    (hstart : WalkStart v newInodesPerGroup pass d0 all d dirbuf blocks off es)
    (hhere : (direntInode off).get dirbuf = pass.before inum ∨
      (direntInode off).get dirbuf = pass.after v.info newInodesPerGroup inum)
    (hordered : rest.Ordered v.info.blockSize.val pass.before (pass.after v.info newInodesPerGroup) d
      blocks)
    (hback : ∀ d', slotAt v.info.blockSize.val d' blocks off = slotAt v.info.blockSize.val d blocks off →
      DirEntries.Done v.info.blockSize.val (pass.after v.info newInodesPerGroup) d' mid →
      rest.Ordered v.info.blockSize.val pass.before (pass.after v.info newInodesPerGroup) d' blocks →
      es.Ordered v.info.blockSize.val pass.before (pass.after v.info newInodesPerGroup) d' blocks)
    (hcounted : pass ≠ .updateInodeNums → rest.AllBelow v.info descs d0 (CountsData v.info) →
      es.AllBelow v.info descs d0 (CountsData v.info))
    (hentered : Entered v newInodesPerGroup pass d0 d d1 mid)
    (hwalk : WalkStart v newInodesPerGroup pass d0 all d1
        (passEntry v pass newInodesPerGroup dirbuf off) blocks
        (off + (direntRecLen off).get (dirData v.info.blockSize.val d0 blocks)) rest →
      Walks v newInodesPerGroup pass calm d0 descs blocks rest d1
        (passEntry v pass newInodesPerGroup dirbuf off) walk m) :
    Walks v newInodesPerGroup pass calm d0 descs blocks es d dirbuf walk m := by
  have hlong := hent.holdsName
  have hge := shaped_own_ge hrest
  have hslots := shaped_slotsIn hrest
  have hbufend := (hstart.entryIn hhead hent hoff hge).fits
  have hbufsize := (hstart.entryIn hhead hent hoff hge).size
  refine (hwalk (hstart.next hhead (by omega) hge hslots hbs hnodup hsub hentered hordered)).mono
    ?_ ?_
  · rintro b m1 ⟨hcount, d', hdone, h1⟩
    refine ⟨fun hpass => hcounted hpass (hcount hpass), d',
      hdone.cons hhead hbs (fun e he => ?_) hin hnodup hentered ?_, h1⟩
    · have := hge e he
      omega
    · exact passEntry_after (by omega) hent.pos hent.old_lt hent.new_lt hhere
  · rintro e m1 ⟨d', hhalted, h1⟩
    exact ⟨d', hhalted.cons hhead hbs (slotsIn_append.mpr ⟨hin, hslots⟩) (hent.slotIn hoff) hnodup
      hentered (hback d'), h1⟩

theorem walkHalted_below {blks : List Nat} {sub rest : DirEntries} {off inum : Nat}
    {d d' : Disk} {dirbuf : Buffer} (hbs : 0 < v.info.blockSize.val)
    (hin : SlotsIn v.info.blockSize.val (rest.dirs blocks))
    (hhere : SlotIn v.info.blockSize.val blocks off)
    (hnodup : (blocks ++ (DirEntries.dir off inum blks sub rest).blocksDeeper).Nodup)
    (hstart : WalkStart v newInodesPerGroup pass d0 all d dirbuf blocks off
      (.dir off inum blks sub rest))
    (h : PassHalted v newInodesPerGroup pass d0 d blks sub d') :
    WalkHalted v newInodesPerGroup pass d0 d blocks (.dir off inum blks sub rest) d' := by
  have hhead : UsedHead (.dir off inum blks sub rest) off inum (sub.dirs blks) rest := ⟨rfl, rfl⟩
  have hapart := hhead.disjoint hnodup
  have hchanged : ChangedIn v.info.blockSize.val ((sub.dirs blks).flatMap Prod.fst) d d' := h.changed
  have hslots := slots_changed hin hchanged hapart
  have hframed := hstart.framed
  rw [DirEntries.dirsDeeper_dir, framed_append] at hframed
  have hslot : slotAt v.info.blockSize.val d' blocks off = slotAt v.info.blockSize.val d blocks off :=
    slotAt_changed hhere hchanged fun b hb hb' => hapart (List.mem_append_left _ hb) hb'
  refine ⟨?_, ?_, ⟨?_, hstart.ordered.2.congr hslots⟩, fun hbefore => ?_⟩
  · rw [hhead.blocksDeeper]
    exact hchanged.mono (List.subset_append_left _ _)
  · rw [DirEntries.dirsDeeper_dir, framed_append]
    refine ⟨h.framed, hframed.2.changed hbs hchanged fun b hb hb' => hapart ?_ hb'⟩
    exact List.mem_append_right _ hb
  · rw [hslot]
    exact hstart.ordered.1.imp (fun h1 => ⟨h1.1, h.ordered⟩) fun h1 => ⟨h1.1, h.kept h1.2⟩
  · rw [DirEntries.dirsDeeper_dir, DirEntries.done_append] at hbefore ⊢
    exact ⟨h.kept hbefore.1, hbefore.2.congr fun p hp e he =>
      hslots p (List.mem_cons_of_mem _ hp) e he⟩

variable {enter : List UInt8 → Nat → Fixup Unit} {rest : DirEntries} {off inum turns : Nat}
  {prev : Option Nat} {d : Disk} {dirbuf : Buffer} {m : Machine}

theorem walkDir_unused_calm {off' : Nat} (hlt : blocks.length * v.info.blockSize.val < 2147483648)
    (hes : Walkable v newInodesPerGroup calm d0 descs all depth blocks off (.unused off' rest))
    (hstart : WalkStart v newInodesPerGroup pass d0 all d dirbuf blocks off (.unused off' rest))
    (h : At calm (d, descs) m) :
    Walks v newInodesPerGroup pass calm d0 descs blocks (.unused off' rest) d dirbuf
      (walkDir v pass newInodesPerGroup enter (blocks.length * v.info.blockSize.val : Nat) (turns + 1)
        off prev dirbuf) m := by
  obtain ⟨rfl, hoff, hunused, -⟩ := hes.shaped
  have hend := end_le_of_inBlock hoff hunused.inBlock
  have hlong := hunused.long
  have hzero : (direntInode off').get dirbuf = 0 := by
    rw [← hunused.inode]
    refine Buffer.getLE_congr fun i h1 h2 => ?_
    simp only [direntInode] at h1 h2
    exact hstart.data i h1 (by omega) (by simp [DirEntries.own])
  refine walkDir_unused hlt (by omega) hstart.size hzero ⟨fun _ => trivial, d, ?_, h⟩
  exact ⟨.refl _ _, hstart.framed, by simp [DirEntries.Done, DirEntries.dirsDeeper], rfl,
    fun _ _ => rfl, by simp [DirEntries.own]⟩

theorem walkDir_other_calm {off' : Nat} (hground : Ground v.info d0 all)
    (hlt : blocks.length * v.info.blockSize.val < 2147483648)
    (hes : Walkable v newInodesPerGroup calm d0 descs all depth blocks off (.other off' inum rest))
    (hstart : WalkStart v newInodesPerGroup pass d0 all d dirbuf blocks off (.other off' inum rest))
    (h : At calm (d, descs) m)
    (hnext : ∀ d1 m1, At calm (d1, descs) m1 → WalkStart v newInodesPerGroup pass d0 all d1
        (passEntry v pass newInodesPerGroup dirbuf off) blocks
        (off + (direntRecLen off).get (dirData v.info.blockSize.val d0 blocks)) rest →
      Walks v newInodesPerGroup pass calm d0 descs blocks rest d1
        (passEntry v pass newInodesPerGroup dirbuf off)
        (walkDir v pass newInodesPerGroup enter (blocks.length * v.info.blockSize.val : Nat) turns
          (off + (direntRecLen off).get (dirData v.info.blockSize.val d0 blocks)) (some off)
          (passEntry v pass newInodesPerGroup dirbuf off)) m1) :
    Walks v newInodesPerGroup pass calm d0 descs blocks (.other off' inum rest) d dirbuf
      (walkDir v pass newInodesPerGroup enter (blocks.length * v.info.blockSize.val : Nat) (turns + 1)
        off prev dirbuf) m := by
  obtain ⟨rfl, hoff, hent, hkept, hplain, hrest⟩ := hes.shaped
  have hhead : UsedHead (.other off' inum rest) off' inum [] rest := ⟨rfl, rfl⟩
  have hin := hstart.entryIn hhead hent hoff (shaped_own_ge hrest)
  have hslot := hstart.slots (off', inum) List.mem_cons_self
  have hhere := hstart.ordered.1
  rw [← hslot] at hhere
  refine walkDir_used hent hin hlt hhere ?_
  refine visitEntry_calm hground hent hin hkept hstart.outside h hhere ?_ ?_ fun _ _ => hstart.halted
  · refine fun m1 h1 _ => ⟨rfl, ?_⟩
    refine walk_onward hhead hground.blockSize_pos hent hoff hrest (by simp [SlotsIn]) hes.nodup
      (by simp) hstart hhere hstart.ordered.2 (fun d' hsame _ hordered => ⟨?_, hordered⟩)
      (fun _ h => h) (entered_nil d) (hnext d m1 h1)
    rw [hsame, ← hslot]
    exact hhere
  · intro name m1 h1 hdown
    rw [hplain] at hdown
    cases hdown

theorem walkDir_dir_calm {off' : Nat} {blks : List Nat} {sub : DirEntries}
    (hground : Ground v.info d0 all)
    (hlt : blocks.length * v.info.blockSize.val < 2147483648)
    (henter : EntersAll v newInodesPerGroup pass calm d0 descs all depth enter)
    (hes : Walkable v newInodesPerGroup calm d0 descs all (depth + 1) blocks off
      (.dir off' inum blks sub rest))
    (hstart : WalkStart v newInodesPerGroup pass d0 all d dirbuf blocks off
      (.dir off' inum blks sub rest))
    (h : At calm (d, descs) m)
    (hnext : ∀ d1 m1, At calm (d1, descs) m1 → WalkStart v newInodesPerGroup pass d0 all d1
        (passEntry v pass newInodesPerGroup dirbuf off) blocks
        (off + (direntRecLen off).get (dirData v.info.blockSize.val d0 blocks)) rest →
      Walks v newInodesPerGroup pass calm d0 descs blocks rest d1
        (passEntry v pass newInodesPerGroup dirbuf off)
        (walkDir v pass newInodesPerGroup enter (blocks.length * v.info.blockSize.val : Nat) turns
          (off + (direntRecLen off).get (dirData v.info.blockSize.val d0 blocks)) (some off)
          (passEntry v pass newInodesPerGroup dirbuf off)) m1) :
    Walks v newInodesPerGroup pass calm d0 descs blocks (.dir off' inum blks sub rest) d dirbuf
      (walkDir v pass newInodesPerGroup enter (blocks.length * v.info.blockSize.val : Nat) (turns + 1)
        off prev dirbuf) m := by
  obtain ⟨hblks, hsubwalk⟩ := hes.below
  obtain ⟨rfl, hoff, hent, hkept, hdown, hinode, hsubshaped, hrest⟩ := hes.shaped
  have hbs := hground.blockSize_pos
  have hhead : UsedHead (.dir off' inum blks sub rest) off' inum (sub.dirs blks) rest := ⟨rfl, rfl⟩
  have hin := hstart.entryIn hhead hent hoff (shaped_own_ge hrest)
  have hslot := hstart.slots (off', inum) List.mem_cons_self
  have hordered := hstart.ordered.1
  have hframed := hstart.framed
  rw [DirEntries.dirsDeeper_dir, framed_append] at hframed
  have hmid : (sub.dirs blks).flatMap Prod.fst ⊆ all :=
    List.append_subset.mpr ⟨hblks, hsubwalk.inside⟩
  have hhere : (direntInode off').get dirbuf = pass.before inum ∨
      (direntInode off').get dirbuf = pass.after v.info newInodesPerGroup inum := by
    rw [hslot]
    exact hordered.imp And.left And.left
  have honward {d1 : Disk} (hcount : pass ≠ .updateInodeNums →
        CountsData v.info (inodeAt v.info descs d0 inum) blks ∧
          sub.AllBelow v.info descs d0 (CountsData v.info))
      (hentered : Entered v newInodesPerGroup pass d0 d d1 (sub.dirs blks)) {m1 : Machine}
      (h1 : At calm (d1, descs) m1) :=
    walk_onward hhead hbs hent hoff hrest (shaped_slotsIn hsubshaped) hes.nodup hmid hstart hhere
      hstart.ordered.2 (fun d' hsame hdone hordered' => ⟨by
        rw [hsame]
        exact hordered.imp (fun h2 => ⟨h2.1, hdone.ordered⟩) fun h2 => ⟨h2.1, hdone⟩,
        hordered'⟩) (fun hpass h => ⟨hcount hpass, h⟩) hentered (hnext d1 m1 h1)
  refine walkDir_used hent hin hlt hhere ?_
  refine visitEntry_calm hground hent hin (fun _ => hkept) hstart.outside h hhere ?_ ?_ fun _ _ =>
    hstart.halted
  · rintro m1 h1 (hnot | ⟨rfl, hbit⟩)
    · rw [hdown] at hnot
      cases hnot
    · refine ⟨rfl, honward (fun hpass => absurd rfl hpass) ⟨.refl _ _, hframed.1, ?_⟩ h1⟩
      refine (hordered.resolve_left fun h2 => ?_).2
      rw [hslot, h2.1] at hbit
      exact pending_and_pendingBit hent.old_lt hbit
  · intro name m1 h1 _
    refine (henter name inum blks sub hkept hinode hes.read.1.1 (fun hc => (hes.counted hc).1.1) hblks
      hsubwalk d m1 h1 ⟨hstart.outside, hframed.1, ?_⟩).mono ?_ ?_
    · exact hordered.elim And.right fun h2 => h2.2.ordered
    · rintro _ m2 ⟨hcount, d1, hdone, h2⟩
      exact ⟨rfl, honward hcount ⟨hdone.changed, hdone.framed, hdone.done⟩ h2⟩
    · rintro e m2 ⟨d1, hhalted, h2⟩
      exact ⟨d1, walkHalted_below hbs (shaped_slotsIn hrest) (hent.slotIn hoff) hes.nodup hstart
        hhalted, h2⟩

theorem walkDir_calm {es : DirEntries} (hground : Ground v.info d0 all)
    (hlt : blocks.length * v.info.blockSize.val < 2147483648)
    (henter : EntersAll v newInodesPerGroup pass calm d0 descs all depth enter)
    (hes : Walkable v newInodesPerGroup calm d0 descs all (depth + 1) blocks off es)
    (hturns : blocks.length * v.info.blockSize.val < off + turns)
    (hstart : WalkStart v newInodesPerGroup pass d0 all d dirbuf blocks off es)
    (h : At calm (d, descs) m) :
    Walks v newInodesPerGroup pass calm d0 descs blocks es d dirbuf
      (walkDir v pass newInodesPerGroup enter (blocks.length * v.info.blockSize.val : Nat) turns off
        prev dirbuf) m := by
  have hle : off ≤ blocks.length * v.info.blockSize.val := by
    cases es with
    | nil => exact le_of_eq hes.shaped
    | unused off' rest => exact hes.shaped.2.1.le
    | other off' inum rest => exact hes.shaped.2.1.le
    | dir off' inum blks sub rest => exact hes.shaped.2.1.le
  induction es generalizing off turns prev d dirbuf m with
  | nil =>
    obtain rfl : off = blocks.length * v.info.blockSize.val := hes.shaped
    obtain ⟨turns, rfl⟩ : ∃ n, turns = n + 1 := ⟨turns - 1, by omega⟩
    rw [walkDir, if_pos le_rfl]
    exact ⟨fun _ => trivial, d, ⟨.refl _ _, hstart.framed,
      by simp [DirEntries.Done, DirEntries.dirsDeeper], rfl, fun _ _ => rfl, by simp [DirEntries.own]⟩,
      h⟩
  | unused off' rest =>
    obtain ⟨turns, rfl⟩ : ∃ n, turns = n + 1 := ⟨turns - 1, by omega⟩
    exact walkDir_unused_calm hlt hes hstart h
  | other off' inum rest ih =>
    obtain ⟨turns, rfl⟩ : ∃ n, turns = n + 1 := ⟨turns - 1, by omega⟩
    refine walkDir_other_calm hground hlt hes hstart h fun d1 m1 h1 hstart1 => ?_
    obtain ⟨-, hoff, hent, -⟩ := hes.shaped
    have hlong := hent.holdsName
    exact ih hes.behind (by omega) hstart1 h1 (end_le_of_inBlock hoff hent.inBlock)
  | dir off' inum blks sub rest _ ih =>
    obtain ⟨turns, rfl⟩ : ∃ n, turns = n + 1 := ⟨turns - 1, by omega⟩
    refine walkDir_dir_calm hground hlt henter hes hstart h fun d1 m1 h1 hstart1 => ?_
    obtain ⟨-, hoff, hent, -⟩ := hes.shaped
    have hlong := hent.holdsName
    exact ih hes.onward (by omega) hstart1 h1 (end_le_of_inBlock hoff hent.inBlock)

end Loop

end MakeExt4fs

import MakeExt4fs.Contents.FreeCounts
import MakeExt4fs.Tree.WholeImage

namespace MakeExt4fs

open ErrorLog Numbering Words

def sbChunk (info : FsInfo) : Chunk :=
  if info.blockSize.val > 1024 then .data .sbBlock info.blockSize.val 0 else .data .sb 1024 1

structure Counted (info : FsInfo) (aux0 aux : FsAuxInfo) : Prop where
  same : aux = { aux0 with
    sb := { superBlockOf info aux0 with
      sJnlBlocks := aux.sb.sJnlBlocks
      sFreeBlocksCountLo := u32 (aux.bgs.map BlockGroupInfo.freeBlocks).sum
      sFreeInodesCount := u32 (aux.bgs.map BlockGroupInfo.freeInodes).sum }
    bgs := aux.bgs, xattrs := aux.xattrs, bgDesc := aux.bgDesc, backupSb := aux.backupSb }
  descs : ∀ i < aux0.groups, ∃ b d, aux.bgs[i]? = some b ∧ aux.bgDesc[i]? = some
    (updatedDesc aux.sb.sUuid i b (descOf info { aux0 with sb := superBlockOf info aux0 } i d))

structure Finished (L : Layout) (args : MakeArgs) (info : FsInfo) (listing : Option (List HostEntry))
    (aux0 : FsAuxInfo) (fs : Fs) : Prop where
  standing : Standing L info (10 + Rose.sizes (imageForest args info listing)) fs
  room : 10 + Rose.sizes (imageForest args info listing) ≤ info.capacity L
  holds : ∀ p ∈ imagePlaces args info listing, Holds p info 0 fs
  dirs : ∀ g, fs.usedDirs g ≡ inGroup info g (dirNumbers (imagePlaces args info listing))
    [MOD 65536]
  counted : Counted info aux0 fs.aux
  journaled : hasJournal info → Journaled info fs
  queued : preparedChunks info aux0 <+: fs.sparse
  last : fs.sparse.getLast? = some (sbChunk info)

section Finish

variable {L : Layout} {args : MakeArgs} {info : FsInfo} {k n : Nat} {t t' : Tree}
  {fs fs' : Fs} {aux aux0 : FsAuxInfo} {l l' : List Ext4Error} {listing : Option (List HostEntry)}

theorem ext4QueueSb_eq (info : FsInfo) : ext4QueueSb info = sparseFileAdd (sbChunk info) := by
  unfold ext4QueueSb sbChunk
  split <;> rfl

theorem UpdatedTo.alone (h : UpdatedTo fs.aux k fs'.aux) (hheap : fs'.heap = fs.heap)
    (hqueue : fs.sparse <+: fs'.sparse) (P : Nat → Nat → Prop) (D : Nat → Prop) :
    LeavesAlone P D fs fs' := by
  have hbgs : fs'.aux.bgs = fs.aux.bgs := by rw [h.same]
  have hx : fs'.aux.xattrs = fs.aux.xattrs := by rw [h.same]
  refine ⟨?_, ?_, hheap.symm ▸ le_rfl, hqueue, ?_⟩
  · intro bg i _
    rw [FsAuxInfo.table, FsAuxInfo.table, hbgs]
  · intro id hid _
    refine ⟨⟨?_, ?_⟩, ?_⟩
    · rw [hheap]
      exact hid.1
    · rw [hx]
      exact hid.2
    · rw [hheap]
  · intro hknown e he
    rw [hheap]
    exact hknown e (hx ▸ he)

theorem Journaled.updated (h : Journaled info fs) (hto : UpdatedTo fs.aux k fs'.aux)
    (hheap : fs'.heap = fs.heap) (hqueue : fs.sparse <+: fs'.sparse) : Journaled info fs' := by
  have ha := hto.alone hheap hqueue (fun _ _ => True) fun _ => False
  have hall : Names (fun _ _ => True) (inodeRef info ext4JournalIno) heldSpans :=
    fun _ _ _ _ _ => trivial
  have hmap : fs'.aux.sb.sJnlBlocks = fs.aux.sb.sJnlBlocks := by rw [hto.same]
  have hbgs : fs'.aux.bgs = fs.aux.bgs := by rw [hto.same]
  obtain ⟨data, b, hdata, hsets⟩ := h.data
  refine ⟨(ha.inodeSize (hall.within (by decide))).trans h.size,
    (ha.field hall (by decide)).trans h.mode, (ha.field hall (by decide)).trans h.links,
    ⟨data, b, hdata.keep ha id, hsets⟩, ?_⟩
  rw [hmap, h.map, FsAuxInfo.table, FsAuxInfo.table, hbgs]

theorem Described.beside (h : Described info aux0 fs.aux) (hsame : OnGroups fs fs') :
    Described info aux0 fs'.aux := by
  have hbgDesc : fs'.aux.bgDesc = fs.aux.bgDesc := by rw [hsame]
  refine ⟨?_, ?_⟩
  · rw [hsame, h.same]
  · rw [hbgDesc]
    exact h.descs

theorem Described.counted (h : Described info aux0 fs.aux) (hlen : fs.aux.bgs.length = aux0.groups)
    (hto : UpdatedTo fs.aux fs.aux.groups aux) : Counted info aux0 aux := by
  have hgroups : fs.aux.groups = aux0.groups := by rw [h.same]
  have hbgs : aux.bgs = fs.aux.bgs := by rw [hto.same]
  have huuid : aux.sb.sUuid = fs.aux.sb.sUuid := by rw [hto.same]
  have hall : fs.aux.bgs.take fs.aux.groups = aux.bgs := by
    rw [hbgs, List.take_of_length_le (by omega)]
  have hblocks := hto.blocks
  have hinodes := hto.inodes
  rw [hall] at hblocks hinodes
  refine ⟨?_, ?_⟩
  · rw [← hblocks, ← hinodes, hto.same, h.same]
  · intro i hi
    obtain ⟨b, desc, hb, hdesc, hset⟩ := hto.descs i (hgroups ▸ hi)
    obtain ⟨d, hd⟩ := h.descs i hi
    obtain rfl := Option.some.inj (hdesc.symm.trans hd)
    exact ⟨b, d, hbgs ▸ hb, huuid ▸ hset⟩

theorem Described.counts (h : Described info aux0 aux) :
    aux.sb.sFreeBlocksCountLo = 0 ∧ aux.sb.sFreeInodesCount = 0 := by
  rw [h.same]
  exact ⟨rfl, rfl⟩

theorem finishImage_ok (hs : Standing L info k t.fs) (hdesc : Described info aux0 t.fs.aux)
    (h : finishImage args info n (t, []) = .ok ((), (t', []))) :
    ∃ fs1, Contained L (Beside (inodeRef info n) permissionSpans) (fun _ => False) t.fs fs1 ∧
      Owned fs1 (inodeRef info n) 0 0 args.rootMtime ∧
      fs1.field (inodeRef info n) iMode =
        (t.fs.field (inodeRef info n) iMode ||| MakeArgs.rootMode) % 65536 ∧
      UpdatedTo fs1.aux fs1.aux.groups t'.fs.aux ∧ t'.fs.heap = fs1.heap ∧
      t'.fs.sparse = fs1.sparse ++ [sbChunk info] := by
  obtain ⟨hrun, -⟩ := onFs_ok.mp h
  obtain ⟨ret, ⟨fs1, l1⟩, hperm, h1⟩ := Run.bind_ok.mp hrun
  obtain ⟨⟨⟩, ⟨fs2, l2⟩, hfree, hqueue⟩ := Run.bind_ok.mp h1
  obtain ⟨rfl, howned, hmode⟩ := inodeSetPermissions_permits hperm
  obtain ⟨hfills, -⟩ := inodeSetPermissions_fills (L := L) (D := fun _ => False) apartFrom_beside
    _ _ _ _ _ _ _ _ _ hperm
  have hc := hfills hs.keeps
  obtain ⟨hblocks, hinodes⟩ := (hdesc.beside hc.same).counts
  obtain ⟨aux2, hupdate, rfl⟩ := onAux_ok.mp hfree
  obtain ⟨-, hto⟩ := ext4UpdateFree_ok hblocks hinodes hupdate
  rw [ext4QueueSb_eq] at hqueue
  obtain ⟨-, hend⟩ := Prod.mk.inj (Except.ok.inj hqueue)
  obtain ⟨hend, -⟩ := Prod.mk.inj hend
  rw [← hend]
  exact ⟨fs1, hc, howned, hmode, hto, rfl, rfl⟩

theorem updateFreeGroup_advances (i : Nat) : Run.Advances Anything (updateFreeGroup i) := by
  apply Run.advances_read.bind
  intro aux
  apply (Run.advances_expect _).bind
  intro b
  apply (Run.advances_expect _).bind
  intro desc s l u s' l' hm
  cases hm
  exact ⟨trivial, List.prefix_refl l⟩

theorem finishImage_advances (args : MakeArgs) (info : FsInfo) (n : Nat) :
    Run.Advances Anything (finishImage args info n) := by
  apply onFs_advances
  apply (inodeSetPermissions_advances _ _ _ _ _).bind
  intro ret
  refine Run.Advances.bind (Run.Advances.zoom (S := Anything) ?_ fun _ _ _ _ _ => trivial)
    fun _ => ?_
  · exact Run.advances_read.bind fun aux => Run.advances_each updateFreeGroup_advances _
  · rw [ext4QueueSb_eq]
    exact anything_of_fills (P := fun _ _ => False) (D := fun _ => False) (sparseFileAdd_fills _)

theorem buildTree_advances (args : MakeArgs) (info : FsInfo) (listing : Option (List HostEntry)) :
    Run.Advances Anything (buildTree args info listing) := by
  rw [buildTree]
  split
  · exact buildDirectoryStructure_advances _ _ _ _ _
  · refine (onFs_advances (makeDirectory_advances _ _ _)).bind fun p => ?_
    apply (buildEmptyDirectory_advances _ _).bind
    intro inode
    refine Run.Advances.bind (onFs_advances ?_) fun _ => Run.advances_pure _
    apply (patchEntry_advances _ _ _).bind
    intro u
    exact (inodeSetPermissions_advances _ _ _ _ _).bind fun _ => Run.advances_pure _

theorem Journaled.planted {ts : List (Rose Node)} (h : Journaled info fs) (hr : Roomy info L)
    (hp : Planted L args info ts fs fs') : Journaled info fs' := by
  have hroom := hp.room
  refine h.keep hp.alone hp.counts.same (names_offSlots hr ?_ ?_ (by decide) ?_
    (hr.inside (by decide)))
  · rintro m (rfl | ⟨h1, h2⟩)
    · exact ⟨by decide, by omega⟩
    · exact ⟨by omega, by omega⟩
  · rintro (h2 | ⟨h1, -⟩)
    · exact absurd h2 (by decide)
    · exact absurd h1 (by decide)
  · exact Nat.le_trans (by decide) (Nat.le_trans (Nat.le_add_right 10 _) hroom)

theorem buildImage_finished {hhdr : HeadersFit info aux} {hword : EndsInWord info aux}
    (haux : ext4InitFsAuxInfo info = some aux) (hr : Roomy info (startLayout info aux hhdr hword))
    (hbs : SmallBlocks info.blockSize.val) (hfits : ListingFits (scandir listing))
    (h : buildImage args info listing (startTree aux, []) = .ok ((), (t, []))) :
    Finished (startLayout info aux hhdr hword) args info listing aux t.fs := by
  obtain ⟨⟨⟩, ⟨t1, l1⟩, hprepare, h1⟩ := Run.bind_ok.mp h
  obtain ⟨root, ⟨t2, l2⟩, htree, hfinish⟩ := Run.bind_ok.mp h1
  obtain ⟨rfl, -⟩ := (finishImage_advances args info root).quiet hfinish
  obtain ⟨rfl, -⟩ := (buildTree_advances args info listing).quiet htree
  obtain ⟨⟨hstanding, hdesc, hnodirs, hfirst⟩, hjournal⟩ :=
    prepareImage_ready haux hhdr hword hr hprepare
  obtain ⟨rfl, hplanted⟩ := buildTree_planted hr hbs hstanding hfits htree
  have hsame := hplanted.counts.same
  obtain ⟨fs1, hc, howned, hmode, hto, hheap, hqueue⟩ :=
    finishImage_ok hplanted.standing (hdesc.beside hsame) hfinish
  have hroom := hplanted.room
  have hprefix : fs1.sparse <+: t.fs.sparse := hqueue ▸ List.prefix_append _ _
  have halone := hto.alone hheap hprefix
  have hs1 := hplanted.standing.fills hr hc (hr.inside (by decide)) (by decide)
    (Nat.le_trans (by decide) (Nat.le_add_right 10 _))
  have hbgs : t.fs.aux.bgs = fs1.aux.bgs := by rw [hto.same]
  have special (n : Nat) (hn : n ≤ 10) : n ≤ info.capacity (startLayout info aux hhdr hword) :=
    (hn.trans (Nat.le_add_right 10 _)).trans hroom
  have hall (r : InodeRef) (spans : Stretches) : Names (fun _ _ => True) r spans :=
    fun _ _ _ _ _ => trivial
  refine ⟨hs1.described hheap ?_, hroom, ?_, fun g => ?_, ?_, fun hyes => ?_,
    ((hfirst.trans hplanted.alone.queue).trans hc.queue).trans hprefix, ?_⟩
  · rw [hto.same]
  · intro p hp
    refine Holds.keep (P := fun _ _ => True) (D := fun _ => False) ?_ (halone _ _) (hall _ _)
      fun _ => False.elim
    rcases List.mem_cons.mp hp with rfl | hp
    · exact hplanted.built.permit hc.toLeavesAlone (fun _ => False.elim) howned hmode
    · have hnumber := Rose.number_mem hp
      refine (hplanted.holds p hp).keep (hc.toLeavesAlone.slot (hr.inside (by decide)))
        (names_offSlots hr ?_ ?_ (by omega) (by omega) (hr.inside (by decide))) fun _ => False.elim
      · rintro m rfl
        exact ⟨by decide, special 2 (by decide)⟩
      · intro h2
        omega
  · have hdirs : dirNumbers (imagePlaces args info listing) =
        2 :: dirNumbers (Rose.placesAll 2 11 (imageForest args info listing)) := by
      rw [imagePlaces, dirNumbers_cons]
      rfl
    have hcount := hplanted.counts.dirs g
    rw [hnodirs g, Nat.zero_add, ← hc.usedDirs g] at hcount
    rw [Fs.usedDirs, hbgs, hdirs]
    exact hcount
  · refine (hdesc.beside (trans_of OnGroups hsame hc.same)).counted ?_ hto
    rw [hs1.keeps.length]
    rfl
  · exact (((hjournal hyes).planted hr hplanted).beside hr hc (hr.inside (by decide)) (by decide)
      (by decide) (special _ (by decide)) (special _ (by decide))).updated hto hheap hprefix
  · rw [hqueue, List.getLast?_concat]

end Finish

end MakeExt4fs

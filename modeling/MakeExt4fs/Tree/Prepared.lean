import MakeExt4fs.Allocate.Start
import MakeExt4fs.Tree.Special

namespace MakeExt4fs

open ErrorLog Words

structure Described (info : FsInfo) (aux0 aux : FsAuxInfo) : Prop where
  same : aux = { aux0 with
    sb := { superBlockOf info aux0 with sJnlBlocks := aux.sb.sJnlBlocks }
    bgs := aux.bgs, xattrs := aux.xattrs, bgDesc := aux.bgDesc, backupSb := aux.backupSb }
  descs : ∀ i < aux0.groups, ∃ d, aux.bgDesc[i]? =
    some (descOf info { aux0 with sb := superBlockOf info aux0 } i d)

def preparedChunks (info : FsInfo) (aux0 : FsAuxInfo) : List Chunk :=
  (List.range aux0.groups).map (bitmapsChunk info aux0) ++
    (List.range aux0.groups).flatMap (groupChunks info aux0)

structure Ready (L : Layout) (info : FsInfo) (aux0 : FsAuxInfo) (k : Nat) (fs : Fs) : Prop where
  standing : Standing L info k fs
  described : Described info aux0 fs.aux
  dirs : ∀ g, fs.usedDirs g = 0
  queued : preparedChunks info aux0 <+: fs.sparse

section Start

variable {L : Layout} {info : FsInfo} {force : Bool} {k : Nat} {fs fs' : Fs} {l l' : List Ext4Error}

theorem ext4InitFsAuxInfo_start {aux : FsAuxInfo} (h : ext4InitFsAuxInfo info = some aux) :
    0 < info.blocksPerGroup.val ∧ aux.xattrs = [] ∧
      aux.inodeTableBlocks = info.inodeTableBlocks := by
  unfold ext4InitFsAuxInfo at h
  split at h
  · cases h
  · cases h
    exact ⟨by omega, rfl, rfl⟩

theorem usedDirs_zero_of_init (h : InitTo info fs fs.aux.groups fs') (g : Nat) :
    fs'.usedDirs g = 0 := by
  rw [Fs.usedDirs]
  cases hb : fs'.aux.bgs[g]? with
  | none => rfl
  | some b =>
    have hlt := (List.getElem?_eq_some_iff.mp hb).1
    rw [h.length] at hlt
    obtain ⟨b', hb', hmade⟩ := h.groups g hlt
    obtain rfl := Option.some.inj (hb.symm.trans hb')
    exact congrArg BlockGroupInfo.usedDirs hmade.frame

theorem blockAllocatorInit_standing (hbpg : 0 < info.blocksPerGroup.val)
    (hhdr : HeadersFit info fs.aux) (hword : EndsInWord info fs.aux) (hx : fs.aux.xattrs = [])
    (hblocks : fs.aux.inodeTableBlocks = info.inodeTableBlocks)
    (h : blockAllocatorInit info force (fs, []) = .ok ((), (fs', l))) :
    l = [] ∧ Standing (startLayout info fs.aux hhdr hword) info 0 fs' ∧
      InitTo info fs fs.aux.groups fs' := by
  obtain ⟨rfl, haux, howns⟩ := blockAllocatorInit_owns hbpg hhdr hword h
  have hinit := (blockAllocatorInit_meets info force fs []).ok h
  have hnone := noInodes_of_init hinit hblocks
  refine ⟨rfl, ⟨howns.keeps, ?_, hnone.numbered, ?_⟩, hinit⟩
  · intro e he
    rw [haux, hx] at he
    cases he
  · intro n _ _ bg i _
    rw [FsAuxInfo.table]
    cases hb : fs'.aux.bgs[bg]? with
    | none => exact Buffer.get_zeros 0 i
    | some b =>
      rw [Option.bind_some, hnone.tables bg b hb]
      exact Buffer.get_zeros 0 i

theorem Standing.described (hs : Standing L info k fs) (hheap : fs'.heap = fs.heap)
    (h : fs'.aux = { fs.aux with
      sb := fs'.aux.sb, bgDesc := fs'.aux.bgDesc, backupSb := fs'.aux.backupSb }) :
    Standing L info k fs' := by
  have hbgs : fs'.aux.bgs = fs.aux.bgs := by rw [h]
  have hx : fs'.aux.xattrs = fs.aux.xattrs := by rw [h]
  obtain ⟨h1, h2, h3, h4, h5⟩ := hs.keeps
  refine ⟨⟨?_, ?_, ?_, hbgs ▸ h4, hbgs ▸ h5⟩, ?_, ⟨?_, hbgs ▸ hs.numbered.taken⟩, ?_⟩
  · rw [h]
    exact h1
  · rw [h]
    exact h2
  · rw [h]
    exact h3
  · intro e he
    rw [hheap]
    exact hs.known e (hx ▸ he)
  · rw [h]
    exact hs.numbered.length
  · intro n hn hle bg i hi
    rw [FsAuxInfo.table, hbgs]
    exact hs.blank n hn hle bg i hi

theorem ext4FillInSb_ready {aux0 : FsAuxInfo} (hs : Standing L info k fs)
    (hdirs : ∀ g, fs.usedDirs g = 0) (haux : fs.aux = { aux0 with bgs := fs.aux.bgs })
    (hqueued : fs.sparse = (List.range aux0.groups).map (bitmapsChunk info aux0))
    (h : ext4FillInSb info (fs, l) = .ok ((), (fs', l'))) :
    l' = l ∧ Ready L info aux0 k fs' := by
  obtain ⟨rfl, hfilled⟩ := (ext4FillInSb_meets (fun _ => False) info fs l).ok h
  have hbgs : fs'.aux.bgs = fs.aux.bgs := by rw [hfilled.aux]
  have hsparse := hfilled.sparse
  have hdescs := hfilled.descs
  rw [haux] at hdescs
  refine ⟨rfl, hs.described hfilled.heap ?_, ⟨?_, hdescs⟩, fun g => ?_, ?_⟩
  · rw [hfilled.aux]
  · rw [hfilled.aux, haux]
    rfl
  · rw [Fs.usedDirs, hbgs]
    exact hdirs g
  · rw [hsparse]
    change _ <+: fs.sparse ++ _
    rw [hqueued, haux]
    exact List.prefix_refl _

theorem reserveInodes_ready {aux0 : FsAuxInfo} {n : Nat} (hs : Ready L info aux0 0 fs)
    (hr : Roomy info L) (h : onAux (reserveInodes 0 10) (fs, l) = .ok (n, (fs', l'))) :
    n = 1 ∧ l' = l ∧ Ready L info aux0 10 fs' := by
  obtain ⟨hs, hdesc, hdirs, hqueued⟩ := hs
  obtain ⟨b, hb⟩ : ∃ b, fs.aux.bgs[0]? = some b :=
    ⟨_, List.getElem?_eq_getElem (by rw [hs.keeps.length]; exact hr.some_group)⟩
  obtain ⟨aux, hrun, rfl⟩ := onAux_ok.mp h
  rw [reserveInodes_first hs.numbered hb (by decide) hr.special] at hrun
  cases hrun
  refine ⟨rfl, rfl, ⟨hs.keeps.setBg ((hs.keeps.group hb).giveInodes 10), hs.known,
    hs.numbered.reserve hb (by decide) hr.special, ?_⟩, ⟨?_, hdesc.descs⟩, fun g => ?_, hqueued⟩
  · intro m hm hle bg i hi
    change ((fs.aux.setBg 0 (b.giveInodes 10)).table bg).get i = 0
    rw [@table_setBg fs.aux 0 b (b.giveInodes 10) hb rfl bg]
    exact hs.blank m (by omega) hle bg i hi
  · rw [FsAuxInfo.setBg, hdesc.same]
  · rw [usedDirs_setBg hb]
    split
    · have hzero := hdirs 0
      rw [Fs.usedDirs, hb] at hzero
      exact hzero
    · exact hdirs g

theorem Ready.special {aux0 : FsAuxInfo} {n : Nat} (h : Ready L info aux0 k fs) (hr : Roomy info L)
    (hc : Contained L (Beside (inodeRef info n) madeSpans) (fun _ => False) fs fs') (h1 : 1 ≤ n)
    (hn : n ≤ k) : Ready L info aux0 k fs' := by
  have hdesc := h.described
  have hbgDesc : fs'.aux.bgDesc = fs.aux.bgDesc := by rw [hc.same]
  refine ⟨h.standing.fills hr hc (hr.inside (by decide)) h1 hn, ⟨?_, ?_⟩, fun g => ?_,
    h.queued.trans hc.queue⟩
  · rw [hc.same, hdesc.same]
  · rw [hbgDesc]
    exact hdesc.descs
  · exact (hc.usedDirs g).trans (h.dirs g)

theorem Ready.mapped {aux0 : FsAuxInfo} (h : Ready L info aux0 k fs) (blocks : List UInt8) :
    Ready L info aux0 k
      { fs with aux := { fs.aux with sb := { fs.aux.sb with sJnlBlocks := blocks } } } := by
  have hdesc := h.described
  refine ⟨h.standing.described rfl rfl, ⟨?_, hdesc.descs⟩, h.dirs, h.queued⟩
  rw [hdesc.same]

theorem Journaled.beside {n : Nat} {spans : Stretches} (h : Journaled info fs) (hr : Roomy info L)
    (hc : Contained L (Beside (inodeRef info n) spans) (fun _ => False) fs fs')
    (hspans : ∀ s ∈ spans, s.2 ≤ info.inodeSize.val) (hne : ext4JournalIno ≠ n) (h1 : 1 ≤ n)
    (hn : n ≤ info.capacity L) (h8 : ext4JournalIno ≤ info.capacity L) : Journaled info fs' := by
  refine h.keep (hc.toLeavesAlone.slot hspans) hc.same
    (names_offSlots hr ?_ hne (by decide) h8 (hr.inside (by decide)))
  rintro m rfl
  exact ⟨h1, hn⟩

theorem when_ok {ε σ α : Type} {c : Prop} [Decidable c] {m : Run ε σ Unit} {f : Unit → Run ε σ α}
    {st : σ × List ε} {res : α × (σ × List ε)}
    (h : (if c then m >>= f else f ()) st = .ok res) :
    ∃ st', (if c then m else pure ()) st = .ok ((), st') ∧ f () st' = .ok res := by
  split at h
  · rename_i hc
    obtain ⟨⟨⟩, st', hm, hf⟩ := Run.bind_ok.mp h
    exact ⟨st', (if_pos hc).symm ▸ hm, hf⟩
  · rename_i hc
    exact ⟨st, (if_neg hc).symm ▸ rfl, h⟩

def hasJournal (info : FsInfo) : Prop := info.featCompat.val &&& ext4FeatureCompatHasJournal ≠ 0

instance (info : FsInfo) : Decidable (hasJournal info) :=
  inferInstanceAs (Decidable (_ ≠ _))

theorem journal_ready {aux0 : FsAuxInfo} (h : Ready L info aux0 k fs) (hr : Roomy info L)
    (h8 : ext4JournalIno ≤ k)
    (hrun : (if hasJournal info then ext4CreateJournalInode info force else pure ()) (fs, l) =
      .ok ((), (fs', []))) :
    Ready L info aux0 k fs' ∧ (hasJournal info → Journaled info fs') := by
  split at hrun
  · obtain ⟨fs1, blocks, hc, rfl, hjournaled⟩ :=
      ext4CreateJournalInode_journaled hr h.standing hrun
    exact ⟨(h.special hr hc (by decide) h8).mapped blocks, fun _ => hjournaled⟩
  · rename_i hno
    cases hrun
    exact ⟨h, fun hyes => absurd hyes hno⟩

theorem resize_advances {c : Prop} [Decidable c] :
    Run.Advances Anything (if c then ext4CreateResizeInode info force else pure ()) :=
  .ite (fun _ => anything_of_fills (P := fun _ _ => False) (D := fun _ => False)
    (ext4CreateResizeInode_fills fun _ _ _ => False.elim)) fun _ => Run.advances_pure _

theorem resize_ready {c : Prop} [Decidable c] {aux0 : FsAuxInfo} (h : Ready L info aux0 k fs)
    (hr : Roomy info L) (h8 : ext4JournalIno ≤ k) (hk : k ≤ info.capacity L)
    (hrun : (if c then ext4CreateResizeInode info force else pure ()) (fs, []) =
      .ok ((), (fs', []))) :
    Ready L info aux0 k fs' ∧ (Journaled info fs → Journaled info fs') := by
  have h7 : ext4ResizeIno ≤ k := Nat.le_trans (by decide) h8
  split at hrun
  · obtain ⟨-, hfills⟩ := (ext4CreateResizeInode_fills (L := L) (D := fun _ => False)
      apartFrom_beside).quiet hrun
    have hc := hfills h.standing.keeps
    exact ⟨h.special hr hc (by decide) h7, fun hj => hj.beside hr hc
      (hr.inside (by decide)) (by decide) (by decide) (h7.trans hk) (h8.trans hk)⟩
  · cases hrun
    exact ⟨h, id⟩

theorem prepareImage_ready {args : MakeArgs} {aux : FsAuxInfo} {t : Tree}
    (haux : ext4InitFsAuxInfo info = some aux) (hhdr : HeadersFit info aux)
    (hword : EndsInWord info aux) (hr : Roomy info (startLayout info aux hhdr hword))
    (h : prepareImage args info (startTree aux, []) = .ok ((), (t, []))) :
    Ready (startLayout info aux hhdr hword) info aux 10 t.fs ∧
      (hasJournal info → Journaled info t.fs) := by
  obtain ⟨hrun, -⟩ := onFs_ok.mp h
  obtain ⟨⟨⟩, ⟨fs1, l1⟩, hinit, h1⟩ := Run.bind_ok.mp hrun
  obtain ⟨⟨⟩, ⟨fs2, l2⟩, hfill, h2⟩ := Run.bind_ok.mp h1
  obtain ⟨n, ⟨fs3, l3⟩, hreserve, h3⟩ := Run.bind_ok.mp h2
  obtain ⟨hbpg, hx, hblocks⟩ := ext4InitFsAuxInfo_start haux
  obtain ⟨rfl, hs1, hto⟩ := @blockAllocatorInit_standing _ _ ⟨aux, [], [], []⟩ _ _ hbpg hhdr hword
    hx hblocks hinit
  obtain ⟨rfl, hready2⟩ := ext4FillInSb_ready hs1 (usedDirs_zero_of_init hto) hto.aux
    (hto.sparse.trans (List.nil_append _)) hfill
  obtain ⟨rfl, rfl, hready3⟩ := reserveInodes_ready hready2 hr hreserve
  have hk : 10 ≤ info.capacity (startLayout info aux hhdr hword) :=
    hr.special.trans (Nat.le_mul_of_pos_right _ hr.some_group)
  rw [if_neg (by decide)] at h3
  obtain ⟨⟨fs4, l4⟩, hjournal, h4⟩ := when_ok h3
  obtain ⟨rfl, -⟩ := resize_advances.quiet h4
  obtain ⟨hready4, hjournaled⟩ := journal_ready hready3 hr (by decide) hjournal
  obtain ⟨hready5, hkeep⟩ := resize_ready hready4 hr (by decide) hk h4
  exact ⟨hready5, fun hyes => hkeep (hjournaled hyes)⟩

end Start

end MakeExt4fs

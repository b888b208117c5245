import MakeExt4fs.Tree.NewNodes

namespace MakeExt4fs

open ErrorLog Numbering Words

section Plan

variable (args : BuildArgs)

mutual

def nodeOf (d : Dentry) : HostEntry → Rose Node
  | .mk _ _ stat _ _ listing => .node ⟨d, stat⟩
      (if d.fileType = ext4FtDirectory then
        belowOf (d.fullPath.getD [] ++ [47]) (d.path ++ [47]) listing
      else [])

def belowOf (fullPath dirPath : List UInt8) : Option (List HostEntry) → List (Rose Node)
  | none => []
  | some entries => forestOf fullPath dirPath entries

def forestOf (fullPath dirPath : List UInt8) : List HostEntry → List (Rose Node)
  | [] => []
  | e :: rest =>
    match scanEntry args fullPath dirPath e with
    | .ok d => nodeOf d e :: forestOf fullPath dirPath rest
    | .error _ => forestOf fullPath dirPath rest

end

mutual

def HostEntry.Fits : HostEntry → Prop
  | .mk name lstat _ _ _ listing => NameFits name ∧
      (∀ st, lstat = some st → st.size < 18446744073709551616) ∧ ListingFits listing

def ListingFits : Option (List HostEntry) → Prop
  | none => True
  | some entries => EntriesFit entries

def EntriesFit : List HostEntry → Prop
  | [] => True
  | e :: rest => e.Fits ∧ EntriesFit rest

end

end Plan

section Scanned

variable {args : BuildArgs} {fullPath dirPath : List UInt8} {e : HostEntry} {d : Dentry}
  {entries : List HostEntry} {ds : List Dentry}

def Scanned (args : BuildArgs) (fullPath dirPath : List UInt8) (entries : List HostEntry)
    (ds : List Dentry) : Prop :=
  List.Forall₂ (fun e d => scanEntry args fullPath dirPath e = .ok d) entries ds

theorem scanEntry_ok (h : scanEntry args fullPath dirPath e = .ok d) :
    ∃ st fileType, e.lstat = some st ∧ fileTypeOf st = some fileType ∧
      d = makeDentry args fullPath dirPath e st fileType := by
  unfold scanEntry at h
  cases hst : e.lstat with
  | none => simp [hst] at h
  | some st =>
    cases htype : fileTypeOf st with
    | none => simp [hst, htype] at h
    | some fileType =>
      simp only [hst, htype, Except.ok.injEq] at h
      exact ⟨st, fileType, rfl, htype, h.symm⟩

theorem linkText_length {info : FsInfo} (hbs : 0 < info.blockSize.val)
    (readlink : Option (List UInt8)) : (linkText info readlink).length < info.blockSize.val := by
  have h1 := (List.takeWhile_sublist (· ≠ 0) (l := (readlink.getD []).take
    (info.blockSize.val - 1))).length_le
  have h2 := List.length_take_le (info.blockSize.val - 1) (readlink.getD [])
  rw [linkText]
  omega

theorem scanEntry_fits (hbs : 0 < args.info.blockSize.val) (hfits : e.Fits)
    (h : scanEntry args fullPath dirPath e = .ok d) :
    NameFits d.filename ∧ d.size < 18446744073709551616 ∧
      d.link.length < args.info.blockSize.val := by
  obtain ⟨st, fileType, hst, -, rfl⟩ := scanEntry_ok h
  obtain ⟨name, lstat, stat, readlink, contents, listing⟩ := e
  obtain ⟨hname, hsize, -⟩ := hfits
  refine ⟨hname, hsize st hst, ?_⟩
  simp only [makeDentry]
  split
  · exact linkText_length hbs _
  · exact hbs

theorem fileTypeOf_cases {st : HostStat} {fileType : UInt8} (h : fileTypeOf st = some fileType) :
    fileType = ext4FtRegFile ∨ fileType = ext4FtDirectory ∨ fileType = ext4FtSymlink ∨
      (fileType = ext4FtChrdev ∨ fileType = ext4FtBlkdev ∨ fileType = ext4FtSock ∨
        fileType = ext4FtFifo) := by
  unfold fileTypeOf at h
  repeat' split at h
  all_goals simp_all

theorem scanEntries_advances (args : BuildArgs) (fullPath dirPath : List UInt8)
    (entries : List HostEntry) :
    Run.Advances Anything (scanEntries args fullPath dirPath entries) := by
  induction entries with
  | nil => exact Run.advances_pure _
  | cons e rest ih =>
    rw [scanEntries]
    split
    · exact ih.bind fun _ => Run.advances_pure _
    · refine (Run.advances_raise _ _).bind fun _ => .ite (fun _ => Run.advances_pure _) fun _ => ?_
      exact Run.advances_crash

theorem scanEntries_scanned {t t' : Tree}
    (h : scanEntries args fullPath dirPath entries (t, []) = .ok (ds, (t', []))) :
    t' = t ∧ Scanned args fullPath dirPath entries ds := by
  induction entries generalizing ds with
  | nil =>
    cases h
    exact ⟨rfl, .nil⟩
  | cons e rest ih =>
    unfold scanEntries at h
    cases hscan : scanEntry args fullPath dirPath e with
    | ok d =>
      simp only [hscan] at h
      obtain ⟨ds', ⟨t1, l1⟩, hrest, hend⟩ := Run.bind_ok.mp h
      cases hend
      obtain ⟨rfl, hscanned⟩ := ih hrest
      exact ⟨rfl, .cons hscan hscanned⟩
    | error err =>
      simp only [hscan] at h
      obtain ⟨⟨⟩, ⟨t1, l1⟩, hraise, hend⟩ := Run.bind_ok.mp h
      split at hend
      · cases hend
        exact absurd hraise raise_not_quiet
      · cases hend

theorem Scanned.names (hbs : 0 < args.info.blockSize.val)
    (h : Scanned args fullPath dirPath entries ds) (hfits : EntriesFit entries) : NamesFit ds := by
  induction h with
  | nil => simp [NamesFit]
  | @cons e d entries ds hscan _ ih =>
    obtain ⟨he, hrest⟩ := hfits
    intro x hx
    rcases List.mem_cons.mp hx with rfl | hx
    · exact (scanEntry_fits hbs he hscan).1
    · exact ih hrest x hx

theorem Scanned.heads (h : Scanned args fullPath dirPath entries ds) (n : Nat) :
    (Rose.heads n (forestOf args fullPath dirPath entries)).map (fun x => x.2.dentry) = ds := by
  induction h generalizing n with
  | nil => rfl
  | @cons e d entries ds hscan _ ih =>
    rw [forestOf, hscan]
    obtain ⟨name, lstat, stat, readlink, contents, listing⟩ := e
    simp only [Rose.heads, List.map_cons, ih]
    rw [nodeOf, Rose.label]

end Scanned

section Quietly

theorem buildEmptyDirectory_advances (args : BuildArgs) (dirInode : Nat) :
    Run.Advances Anything (buildEmptyDirectory args dirInode) := by
  apply (onFs_advances (makeDirectory_advances dirInode [] 0)).bind
  rintro ⟨inode, slots⟩
  exact Run.advances_pure _

mutual

theorem buildDirectoryStructure_advances (args : BuildArgs) (fullPath dirPath : List UInt8)
    (dirInode : Nat) : ∀ listing, Run.Advances Anything
      (buildDirectoryStructure args fullPath dirPath dirInode listing)
  | none => by
    rw [buildDirectoryStructure]
    exact (Run.advances_raise _ _).bind fun _ => Run.advances_pure _
  | some entries => by
    rw [buildDirectoryStructure]
    apply (scanEntries_advances args fullPath dirPath entries).bind
    intro dentries
    refine .ite (fun _ => ?_) fun _ => ?_
    · apply (onFs_advances (makeDirectory_advances dirInode _ _)).bind
      rintro ⟨inode, slots⟩
      refine (buildEmptyDirectory_advances args inode).bind fun _ => ?_
      refine (onFs_advances (finishEntry_advances args slots _ _ _)).bind fun _ => ?_
      exact (buildEntries_advances args inode slots 1 dentries entries).bind fun _ =>
        Run.advances_pure _
    · apply (onFs_advances (makeDirectory_advances dirInode _ _)).bind
      rintro ⟨inode, slots⟩
      exact (buildEntries_advances args inode slots 0 dentries entries).bind fun _ =>
        Run.advances_pure _

theorem buildEntries_advances (args : BuildArgs) (inode : Nat) (slots : Option InodeSlots) (i : Nat)
    (dentries : List Dentry) : ∀ entries, Run.Advances Anything
      (buildEntries args inode slots i dentries entries)
  | [] => by
    rw [buildEntries]
    exact Run.advances_pure _
  | e :: rest => by
    cases dentries with
    | nil =>
      rw [buildEntries]
      exact Run.advances_pure _
    | cons d ds =>
      rw [buildEntries]
      refine (buildEntry_advances args inode d e).bind fun n => ?_
      refine (onFs_advances (finishEntry_advances args slots i d n)).bind fun _ => ?_
      exact buildEntries_advances args inode slots (i + 1) ds rest

theorem buildEntry_advances (args : BuildArgs) (inode : Nat) (d : Dentry) : ∀ e,
    Run.Advances Anything (buildEntry args inode d e)
  | .mk _ _ stat _ _ listing => by
    rw [buildEntry]
    refine .ite (fun _ => makeFile_advances _ _ _) fun _ => .ite (fun _ => ?_) fun _ =>
      .ite (fun _ => onFs_advances (makeLink_advances _)) fun _ =>
        .ite (fun _ => onFs_advances (makeSpecial_advances _)) fun _ => ?_
    · exact buildDirectoryStructure_advances args _ _ inode listing
    · exact (Run.advances_raise _ _).bind fun _ => Run.advances_pure _

end

end Quietly

section Building

variable {L : Layout} {args : BuildArgs} {k n up : Nat}

theorem Begun.built {info : FsInfo} {lo parent dirs : Nat} {dentries : List Dentry} {fs fs' : Fs}
    {s : InodeSlots} {b b' : Buffer} {ls : List (Nat × Link)} {d : Dentry} {stat : Option HostStat}
    {below : List (Nat × Node)} {P : Nat → Nat → Prop} {D : Nat → Prop} {old : Nat}
    (hbs : SmallBlocks info.blockSize.val) (h : Begun info lo n parent dirs dentries fs s b)
    (htype : d.fileType = ext4FtDirectory) (ha : LeavesAlone P D fs fs')
    (hP : Names P (inodeRef info n) heldSpans) (hsize : b'.size = b.size)
    (hdata : InMemory old fs' s.data b.size b') (hlinks : Links info.blockSize.val b' 0 ls b.size)
    (hlist : ls.map Prod.snd = placeListing ⟨parent, n, ⟨d, stat⟩, below⟩)
    (hdirs : (dirs + 2) % 65536 = (below.countP (fun x => x.2.isDir) + 2) % 65536) :
    Built ⟨parent, n, ⟨d, stat⟩, below⟩ info old fs' := by
  have hbs' := hbs.ge
  refine ⟨.directory s.data b' htype ?_ ?_ ?_, ?_, ?_⟩
  · rw [ha.inodeSize (hP.within (by decide)), hsize]
    exact h.size
  · rw [hsize]
    exact hdata
  · rw [← hsize] at hlinks
    exact (hlinks.read (by omega) b'.size (by omega)).trans (congrArg some hlist)
  · rw [ha.field hP (by decide), h.mode, Node.typeBits, htype]
    rfl
  · rw [ha.field hP (by decide), h.links, linkCount, if_pos (by simpa [Node.isDir] using htype)]
    exact hdirs

structure Awaits (info : FsInfo) (s : InodeSlots) (old size : Nat) (pre : List (Nat × Link))
    (i : Nat) (ds : List Dentry) (fs : Fs) : Prop where
  data : ∃ b, b.size = size ∧ InMemory old fs s.data size b ∧
    Links info.blockSize.val b 0 (pre ++ unnamed (s.offsets.drop i) ds) size
  places : (s.offsets.drop i).length = ds.length

structure Furnished (L : Layout) (info : FsInfo) (s : InodeSlots) (old size up k : Nat)
    (pre : List Link) (ts : List (Rose Node)) (fs fs' : Fs) : Prop where
  added : Added L info (· = s.data) k (Rose.sizes ts) (dirNumbers (Rose.placesAll up (k + 1) ts)) fs
    fs'
  holds : ∀ p ∈ Rose.placesAll up (k + 1) ts, Holds p info fs.heap.length fs'
  listed : ∃ b ls, b.size = size ∧ InMemory old fs' s.data size b ∧
    Links info.blockSize.val b 0 ls size ∧
    ls.map Prod.snd = pre ++ (Rose.heads (k + 1) ts).map fun x => x.2.link x.1

-- One tree has been made, but for the permissions of its first node.
structure Grown (L : Layout) (info : FsInfo) (up k : Nat) (t : Rose Node) (fs fs' : Fs) : Prop where
  added : Added L info (fun _ => False) k t.size (dirNumbers (t.places up (k + 1))) fs fs'
  built : Built ⟨up, k + 1, t.label, Rose.heads (k + 2) t.branches⟩ info fs.heap.length fs'
  below : ∀ p ∈ Rose.placesAll (k + 1) (k + 2) t.branches, Holds p info fs.heap.length fs'

variable {s : InodeSlots} {old size i : Nat} {pre : List (Nat × Link)} {ds : List Dentry}
  {fs fs1 fs' : Fs} {t : Rose Node} {ts : List (Rose Node)}

theorem Awaits.there (h : Awaits args.info s old size pre i ds fs) : s.data < fs.heap.length := by
  obtain ⟨b, -, hdata, -⟩ := h.data
  exact hdata.plain.1

theorem Roomy.word {info : FsInfo} (hr : Roomy info L) (hn : n ≤ info.capacity L) :
    n < 4294967295 := hn.trans_lt hr.numbers

theorem Grown.finish (hr : Roomy args.info L) (h : Grown L args.info up k t fs fs1)
    (hawait : Awaits args.info s old size pre i (t.label.dentry :: ds) fs)
    (hfinish : finishEntry args (some s) i t.label.dentry (k + 1) (fs1, []) =
      .ok ((), (fs', []))) :
    Added L args.info (· = s.data) k t.size (dirNumbers (t.places up (k + 1))) fs fs' ∧
      (∀ p ∈ t.places up (k + 1), Holds p args.info fs.heap.length fs') ∧
      ∃ off, Awaits args.info s old size (pre ++ [(off, k + 1, t.label.dentry.entry)]) (i + 1) ds
        fs' := by
  have hadded := h.added
  have hroom := hadded.room
  have hpos := t.size_pos
  have hout : ¬ False := id
  obtain ⟨b, hb, hdata, hlinks⟩ := hawait.data
  have hdata1 := hdata.keep hadded.alone id
  obtain ⟨hholds, hs', halone, hcount, off, hoff, hin, hdata'⟩ := finishEntry_holds hr hadded.standing
    (p := ⟨up, k + 1, t.label, Rose.heads (k + 2) t.branches⟩) (Nat.le_add_left 1 k)
    (Nat.add_le_add_left hpos k) rfl h.built hawait.there hdata1 hfinish
  have hslots : ∀ m, m = k + 1 → 1 ≤ m ∧ m ≤ args.info.capacity L := by
    rintro m rfl
    exact ⟨Nat.le_add_left 1 k, by omega⟩
  have hcounts := hadded.counts.trans hcount
  rw [List.append_nil] at hcounts
  refine ⟨⟨hs', ?_, hroom, hcounts⟩, ?_, off, ?_⟩
  · have hfirst := hadded.alone.allow (· = s.data)
    refine trans_of (LeavesAlone _ _) hfirst (halone.grow ?_)
    rintro m rfl
    exact ⟨Nat.lt_succ_self k, Nat.add_le_add_left hpos k⟩
  · rw [Rose.places_head]
    intro q hq
    rcases List.mem_cons.mp hq with rfl | hq
    · exact hholds
    · obtain ⟨hge, hlt⟩ := Rose.number_mem hq
      have hsize := t.size_eq
      refine (h.below q hq).keep halone ?_ fun id hid => hid ▸ hawait.there
      refine names_offSlots hr hslots ?_ (by omega) (by omega) (hr.inside (by decide))
      change q.number ≠ k + 1
      omega
  · have hplaces := hawait.places
    obtain ⟨hlt, rfl⟩ := List.getElem?_eq_some_iff.mp hoff
    rw [List.drop_eq_getElem_cons hlt] at hlinks hplaces
    have hpatched := hlinks.patch (v := k + 1) (by rw [hb])
    have hword := hr.word hroom
    rw [Nat.mod_eq_of_lt (by omega)] at hpatched
    refine ⟨⟨b.putLE s.offsets[i] 4 (k + 1), hb, hdata', ?_⟩, Nat.succ.inj hplaces⟩
    rw [List.append_assoc]
    exact hpatched

theorem Awaits.furnished (up : Nat) (hs : Standing L args.info k fs) (hk : k ≤ args.info.capacity L)
    (h : Awaits args.info s old size pre i [] fs) :
    Furnished L args.info s old size up k (pre.map Prod.snd) [] fs fs := by
  obtain ⟨b, hb, hdata, hlinks⟩ := h.data
  refine ⟨⟨hs, refl_of (LeavesAlone _ _) fs, hk, countsDirs_nil (fun _ => rfl) rfl⟩,
    by simp [Rose.placesAll], b, pre, hb, hdata, ?_, ?_⟩
  · simpa [unnamed] using hlinks
  · simp [Rose.heads]

theorem Furnished.cons {before : List Link} (hr : Roomy args.info L)
    (ha : Added L args.info (· = s.data) k t.size (dirNumbers (t.places up (k + 1))) fs fs1)
    (hp : ∀ p ∈ t.places up (k + 1), Holds p args.info fs.heap.length fs1)
    (hthere : s.data < fs.heap.length)
    (h : Furnished L args.info s old size up (k + t.size) (before ++ [t.label.link (k + 1)]) ts fs1
      fs') : Furnished L args.info s old size up k before (t :: ts) fs fs' := by
  have hnext : k + t.size + 1 = k + 1 + t.size := by omega
  have hadded := ha.trans h.added
  rw [hnext, ← dirNumbers_append] at hadded
  refine ⟨hadded, ?_, ?_⟩
  · intro p hmem
    rw [Rose.placesAll] at hmem
    rcases List.mem_append.mp hmem with hmem | hmem
    · obtain ⟨hge, hlt⟩ := Rose.number_mem_places hmem
      refine (hp p hmem).keep h.added.alone ?_ fun id hid => hid ▸ hthere
      exact h.added.names hr (by omega) (by omega) (hr.inside (by decide))
    · rw [← hnext] at hmem
      exact (h.holds p hmem).older ha.alone.longer
  · obtain ⟨b, ls, hb, hdata, hlinks, hlist⟩ := h.listed
    refine ⟨b, ls, hb, hdata, hlinks, hlist.trans ?_⟩
    rw [List.append_assoc, hnext]
    rfl

theorem grown_of_built {d : Dentry} {stat : Option HostStat}
    (hfile : d.fileType ≠ ext4FtDirectory) (ha : Added L args.info (fun _ => False) k 1 [] fs fs')
    (hb : Built ⟨up, k + 1, ⟨d, stat⟩, []⟩ args.info fs.heap.length fs') :
    Grown L args.info up k (.node ⟨d, stat⟩ []) fs fs' := by
  have hnone : dirNumbers ((Rose.node (⟨d, stat⟩ : Node) []).places up (k + 1)) = [] := by
    rw [Rose.places, Rose.placesAll, dirNumbers_cons, if_neg (by simpa [Node.isDir] using hfile)]
    rfl
  rw [← hnone] at ha
  exact ⟨ha, hb, by simp [Rose.branches, Rose.placesAll]⟩

variable {fullPath dirPath : List UInt8}

theorem Begun.grown {dirs : Nat} {dentries : List Dentry} {b : Buffer} {d : Dentry}
    {stat : Option HostStat} (hr : Roomy args.info L) (hbs : SmallBlocks args.info.blockSize.val)
    (htype : d.fileType = ext4FtDirectory)
    (ha : Added L args.info (fun _ => False) k 1 [k + 1] fs fs1)
    (h : Begun args.info fs.heap.length (k + 1) up dirs dentries fs1 s b)
    (hf : Furnished L args.info s fs.heap.length b.size (k + 1) (k + 1)
      [(k + 1, [46], ext4FtDir), (up, [46, 46], ext4FtDir)] ts fs1 fs')
    (hdirs : (dirs + 2) % 65536 =
      ((Rose.heads (k + 2) ts).countP (fun x => x.2.isDir) + 2) % 65536) :
    Grown L args.info up k (.node ⟨d, stat⟩ ts) fs fs' := by
  have hadded := hf.added
  have hroom := hadded.room
  have hsum : k + (Rose.node (⟨d, stat⟩ : Node) ts).size = k + 1 + Rose.sizes ts := by
    rw [Rose.size]
    omega
  have hcounts := ha.counts.trans hadded.counts
  have hdir : (⟨d, stat⟩ : Node).isDir = true := by simpa [Node.isDir] using htype
  obtain ⟨b', ls, hb', hdata, hlinks, hlist⟩ := hf.listed
  refine ⟨⟨?_, ?_, ?_, ?_⟩, ?_, ?_⟩
  · rw [hsum]
    exact hadded.standing
  · rw [hsum]
    refine (ha.alone.grow ?_).trans_new ((hadded.alone.grow ?_).mono (fun _ _ h => h)
      fun id hid => Or.inr hid) h.data.young
    · rintro m ⟨h1, h2⟩
      exact ⟨h1, by omega⟩
    · rintro m ⟨h1, h2⟩
      exact ⟨by omega, h2⟩
  · rw [hsum]
    exact hroom
  · rw [Rose.places, dirNumbers_cons, if_pos hdir]
    exact hcounts
  · exact h.built hbs htype hadded.alone (hadded.names hr (Nat.le_add_left 1 k) le_rfl
      (hr.inside (by decide))) hb' hdata hlinks hlist hdirs
  · exact fun p hp => (hf.holds p hp).older ha.alone.longer

theorem Begun.awaits {dirs m : Nat} {b : Buffer} (hn : n < 4294967296) (hm : m < 4294967296)
    (h : Begun args.info old n m dirs ds fs s b) :
    Awaits args.info s old b.size [(0, n, [46], ext4FtDir), (12, m, [46, 46], ext4FtDir)] 0 ds
      fs := by
  have hentries := h.entries
  rw [newLinks, Nat.mod_eq_of_lt (by omega), Nat.mod_eq_of_lt (by omega)] at hentries
  exact ⟨⟨b, rfl, h.data, hentries⟩, h.places⟩

theorem buildEmptyDirectory_grown {d : Dentry} {tr tr' : Tree} (hr : Roomy args.info L)
    (hbs : SmallBlocks args.info.blockSize.val) (hs : Standing L args.info k tr.fs)
    (hup : up ≤ args.info.capacity L) (hne : up ≠ 0) (htype : d.fileType = ext4FtDirectory)
    (h : buildEmptyDirectory args up (tr, []) = .ok (n, (tr', []))) :
    n = k + 1 ∧ Grown L args.info up k (.node ⟨d, none⟩ []) tr.fs tr'.fs := by
  obtain ⟨⟨inode, slots⟩, ⟨t1, l1⟩, hmake, hend⟩ := Run.bind_ok.mp h
  cases hend
  obtain ⟨rfl, ha, s, b, -, hbegun⟩ := makeDirectory_next hr hbs (by simp [NamesFit]) hs hne
    (onFs_ok.mp hmake).1
  have hword := hr.word hup
  have hroom := hr.word ha.room
  have hawait := hbegun.awaits (by omega) (by omega)
  exact ⟨rfl, hbegun.grown hr hbs htype ha
    (hawait.furnished _ ha.standing ha.room) (by simp [Rose.heads])⟩

theorem countDirs_heads {m : Nat} (h : (Rose.heads m ts).map (fun x => x.2.dentry) = ds) :
    (countDirs ds + 2) % 65536 =
      ((Rose.heads m ts).countP (fun x => x.2.isDir) + 2) % 65536 := by
  have hcount : (Rose.heads m ts).countP (fun x => x.2.isDir) =
      ds.countP fun d => d.fileType = ext4FtDirectory := by
    rw [← h, List.countP_map]
    rfl
  rw [hcount, countDirs, u32, Nat.add_mod, Nat.mod_mod_of_dvd _ (by decide), ← Nat.add_mod]

mutual

theorem buildDirectoryStructure_grown (hr : Roomy args.info L)
    (hbs : SmallBlocks args.info.blockSize.val) {up : Nat} (hup : up ≤ args.info.capacity L)
    (hne : up ≠ 0) (fullPath dirPath : List UInt8) {d : Dentry}
    (htype : d.fileType = ext4FtDirectory) (stat : Option HostStat) :
    ∀ listing, ListingFits listing → ∀ {k n : Nat} {tr tr' : Tree}, Standing L args.info k tr.fs →
      buildDirectoryStructure args fullPath dirPath up listing (tr, []) = .ok (n, (tr', [])) →
      n = k + 1 ∧ Grown L args.info up k
        (.node ⟨d, stat⟩ (belowOf args fullPath dirPath listing)) tr.fs tr'.fs
  | none, _, _, _, _, _, _, h => by
    rw [buildDirectoryStructure] at h
    obtain ⟨⟨⟩, st, hraise, hend⟩ := Run.bind_ok.mp h
    cases hend
    exact absurd hraise raise_not_quiet
  | some entries, hfits, k, n, tr, tr', hs, h => by
    have hbs' := hbs.ge
    rw [buildDirectoryStructure] at h
    obtain ⟨ds, ⟨t1, l1⟩, hscan, h1⟩ := Run.bind_ok.mp h
    rw [needsLostAndFound, if_neg (by simp [hne])] at h1
    obtain ⟨⟨inode, slots⟩, ⟨t2, l2⟩, hmake, h2⟩ := Run.bind_ok.mp h1
    obtain ⟨⟨⟩, ⟨t3, l3⟩, hentries, hend⟩ := Run.bind_ok.mp h2
    cases hend
    obtain ⟨rfl, -⟩ := (buildEntries_advances _ _ _ _ _ _).quiet hentries
    obtain ⟨rfl, -⟩ := (onFs_advances (makeDirectory_advances _ _ _)).quiet hmake
    obtain ⟨rfl, hscanned⟩ := scanEntries_scanned hscan
    obtain ⟨rfl, ha, s, b, rfl, hbegun⟩ := makeDirectory_next hr hbs
      (hscanned.names (by omega) hfits) hs hne (onFs_ok.mp hmake).1
    have hword := hr.word hup
    have hroom := hr.word ha.room
    have hf := buildEntries_furnished hr hbs ha.room (Nat.succ_ne_zero k) fullPath dirPath entries
      hfits hscanned ha.standing ha.room (hbegun.awaits (by omega) (by omega)) hentries
    exact ⟨rfl, hbegun.grown hr hbs htype ha hf (countDirs_heads (hscanned.heads _))⟩

theorem buildEntries_furnished (hr : Roomy args.info L)
    (hbs : SmallBlocks args.info.blockSize.val) {up : Nat} (hup : up ≤ args.info.capacity L)
    (hne : up ≠ 0) {s : InodeSlots} {old size : Nat} (fullPath dirPath : List UInt8) :
    ∀ entries, EntriesFit entries → ∀ {ds : List Dentry} {k i : Nat} {pre : List (Nat × Link)}
      {tr tr' : Tree}, Scanned args fullPath dirPath entries ds → Standing L args.info k tr.fs →
      k ≤ args.info.capacity L → Awaits args.info s old size pre i ds tr.fs →
      buildEntries args up (some s) i ds entries (tr, []) = .ok ((), (tr', [])) →
      Furnished L args.info s old size up k (pre.map Prod.snd)
        (forestOf args fullPath dirPath entries) tr.fs tr'.fs
  | [], _, _, _, _, _, _, _, hscan, hs, hk, hawait, h => by
    cases hscan
    rw [buildEntries] at h
    cases h
    exact hawait.furnished up hs hk
  | e :: rest, hfits, _, k, i, pre, tr, tr', hscan, hs, hk, hawait, h => by
    cases hscan with
    | @cons _ d _ ds hd hrest =>
      rw [buildEntries] at h
      obtain ⟨n, ⟨t1, l1⟩, hentry, h1⟩ := Run.bind_ok.mp h
      obtain ⟨⟨⟩, ⟨t2, l2⟩, hfinish, hmore⟩ := Run.bind_ok.mp h1
      obtain ⟨rfl, -⟩ := (buildEntries_advances _ _ _ _ _ _).quiet hmore
      obtain ⟨rfl, -⟩ := (onFs_advances (finishEntry_advances _ _ _ _ _)).quiet hfinish
      obtain ⟨rfl, hgrown⟩ := buildEntry_grown hr hbs hup hne fullPath dirPath e hfits.1 hd hs
        hentry
      have hlabel : (nodeOf args d e).label.dentry = d := by
        obtain ⟨name, lstat, stat, readlink, contents, listing⟩ := e
        rw [nodeOf, Rose.label]
      rw [← hlabel] at hawait hfinish
      obtain ⟨ha, hp, off, hawait'⟩ := hgrown.finish hr hawait (onFs_ok.mp hfinish).1
      have hf := buildEntries_furnished hr hbs hup hne fullPath dirPath rest hfits.2 hrest
        ha.standing ha.room hawait' hmore
      rw [forestOf, hd]
      rw [List.map_append] at hf
      exact hf.cons hr ha hp hawait.there

theorem buildEntry_grown (hr : Roomy args.info L) (hbs : SmallBlocks args.info.blockSize.val)
    {up : Nat} (hup : up ≤ args.info.capacity L) (hne : up ≠ 0)
    (fullPath dirPath : List UInt8) : ∀ e : HostEntry, e.Fits → ∀ {d : Dentry} {k n : Nat}
      {tr tr' : Tree}, scanEntry args fullPath dirPath e = .ok d → Standing L args.info k tr.fs →
      buildEntry args up d e (tr, []) = .ok (n, (tr', [])) →
      n = k + 1 ∧ Grown L args.info up k (nodeOf args d e) tr.fs tr'.fs
  | .mk name lstat stat readlink contents listing, hfits, d, k, n, tr, tr', hd, hs, h => by
    have hbs' := hbs.ge
    obtain ⟨-, hsize, hlen⟩ := scanEntry_fits (by omega) hfits hd
    obtain ⟨st, fileType, -, htypeOf, hmake⟩ := scanEntry_ok hd
    have htype : d.fileType = fileType := by rw [hmake, makeDentry]
    rw [buildEntry] at h
    rw [nodeOf]
    obtain rfl | rfl | rfl | hspecial := fileTypeOf_cases htypeOf
    · have hfile : d.fileType ≠ ext4FtDirectory := by rw [htype]; decide
      rw [if_pos htype] at h
      rw [if_neg hfile]
      obtain ⟨rfl, ha, hb⟩ := makeFile_built hr hs htype hsize h
      exact ⟨rfl, grown_of_built hfile ha hb⟩
    · rw [if_neg (by rw [htype]; decide), if_pos htype] at h
      rw [if_pos htype]
      obtain ⟨-, -, hlisting⟩ := hfits
      exact buildDirectoryStructure_grown hr hbs hup hne _ _ htype stat listing hlisting hs h
    · have hfile : d.fileType ≠ ext4FtDirectory := by rw [htype]; decide
      rw [if_neg (by rw [htype]; decide), if_neg hfile, if_pos htype] at h
      rw [if_neg hfile]
      obtain ⟨rfl, ha, hb⟩ := makeLink_built hr hs htype hlen (onFs_ok.mp h).1
      exact ⟨rfl, grown_of_built hfile ha hb⟩
    · rw [← htype] at hspecial
      have hnot : d.fileType ≠ ext4FtRegFile ∧ d.fileType ≠ ext4FtDirectory ∧
          d.fileType ≠ ext4FtSymlink := by
        obtain h0 | h0 | h0 | h0 := hspecial <;> rw [h0] <;> decide
      rw [if_neg hnot.1, if_neg hnot.2.1, if_neg hnot.2.2, if_pos hspecial] at h
      rw [if_neg hnot.2.1]
      obtain ⟨rfl, ha, hb⟩ := makeSpecial_built hr hs hspecial (onFs_ok.mp h).1
      exact ⟨rfl, grown_of_built hnot.2.1 ha hb⟩

end

end Building

end MakeExt4fs

import MakeExt4fs.Tree.Planned
import MakeExt4fs.Tree.Prepared

namespace MakeExt4fs

open ErrorLog Numbering Words

section Plan

variable (args : MakeArgs) (info : FsInfo)

def rootNode : Node where
  dentry :=
    { path := [], fullPath := none, filename := [], link := [], size := 0
      fileType := ext4FtDirectory, mode := MakeArgs.rootMode, uid := 0, gid := 0
      mtime := args.rootMtime, capabilities := 0 }
  stat := none

def defaultLostAndFound : Dentry :=
  { lostAndFound [] with mtime := if args.fixedTime ≠ -1 then ofInt32 args.fixedTime else 0 }

def imageForest (listing : Option (List HostEntry)) : List (Rose Node) :=
  match args.directory with
  | none => [.node ⟨defaultLostAndFound args, none⟩ []]
  | some directory =>
    match scandir listing with
    | none => []
    | some entries =>
      (if needsLostAndFound 0 entries then [.node ⟨lostAndFound [], none⟩ []] else []) ++
        forestOf (args.build info) (canonicalizeRelSlashes directory) [] entries

def imagePlaces (listing : Option (List HostEntry)) : List (Place Node) :=
  ⟨2, 2, rootNode args, Rose.heads 11 (imageForest args info listing)⟩ ::
    Rose.placesAll 2 11 (imageForest args info listing)

end Plan

section Root

variable {L : Layout} {args : MakeArgs} {info : FsInfo} {k n : Nat} {t t' : Tree}

structure Planted (L : Layout) (args : MakeArgs) (info : FsInfo) (ts : List (Rose Node))
    (fs fs' : Fs) : Prop where
  standing : Standing L info (10 + Rose.sizes ts) fs'
  alone : LeavesAlone (OffSlots info fun n => n = 2 ∨ 10 < n ∧ n ≤ 10 + Rose.sizes ts)
    (fun _ => False) fs fs'
  room : 10 + Rose.sizes ts ≤ info.capacity L
  counts : CountsDirs info (2 :: dirNumbers (Rose.placesAll 2 11 ts)) fs fs'
  built : Built ⟨2, 2, rootNode args, Rose.heads 11 ts⟩ info 0 fs'
  holds : ∀ p ∈ Rose.placesAll 2 11 ts, Holds p info 0 fs'

variable {fs fs1 fs' : Fs} {s : InodeSlots} {b : Buffer} {ts : List (Rose Node)}
  {ds : List Dentry} {dirs : Nat}

theorem Begun.planted (hr : Roomy info L) (hbs : SmallBlocks info.blockSize.val)
    (ha : LeavesAlone (OffSlots info (· = 2)) (fun _ => False) fs fs1)
    (hc : CountsDirs info [2] fs fs1) (h : Begun info fs.heap.length 2 2 dirs ds fs1 s b)
    (hf : Furnished L info s fs.heap.length b.size 2 10
      [(2, [46], ext4FtDir), (2, [46, 46], ext4FtDir)] ts fs1 fs')
    (hdirs : (dirs + 2) % 65536 =
      ((Rose.heads 11 ts).countP (fun x => x.2.isDir) + 2) % 65536) :
    Planted L args info ts fs fs' := by
  have hadded := hf.added
  have hroom := hadded.room
  obtain ⟨b', ls, hb', hdata, hlinks, hlist⟩ := hf.listed
  refine ⟨hadded.standing, ?_, hroom, hc.trans hadded.counts, ?_, fun p hp =>
    (hf.holds p hp).older (Nat.zero_le _)⟩
  · refine (ha.grow ?_).trans_new ((hadded.alone.grow ?_).mono (fun _ _ h => h)
      fun id hid => Or.inr hid) h.data.young
    · rintro m rfl
      exact Or.inl rfl
    · exact fun m hm => Or.inr hm
  · exact h.built hbs rfl hadded.alone (hadded.names hr (by decide) (by decide)
      (hr.inside (by decide))) hb' (hdata.older (Nat.zero_le _)) hlinks hlist hdirs

theorem finishEntry_of_patched {args : BuildArgs} {slots : Option InodeSlots} {d : Dentry}
    {i : Nat} {l l' : List Ext4Error} (hcap : d.capabilities = 0)
    (h : (do
      patchEntry slots i n
      let _ ← inodeSetPermissions args.info n d.mode d.uid d.gid d.mtime : Build Unit)
        (fs, l) = .ok ((), (fs', l'))) :
    finishEntry args slots i d n (fs, l) = .ok ((), (fs', l')) := by
  obtain ⟨⟨⟩, ⟨fs1, l1⟩, hpatch, h1⟩ := Run.bind_ok.mp h
  obtain ⟨ret, ⟨fs2, l2⟩, hperm, hend⟩ := Run.bind_ok.mp h1
  cases hend
  obtain ⟨rfl, -, -⟩ := inodeSetPermissions_permits hperm
  refine Run.bind_ok.mpr ⟨(), _, hpatch, Run.bind_ok.mpr ⟨0, _, hperm, ?_⟩⟩
  rw [if_neg (by decide), hcap]
  rfl

theorem special_le (hr : Roomy info L) : 10 ≤ info.capacity L :=
  hr.special.trans (Nat.le_mul_of_pos_right _ hr.some_group)

theorem lostAndFound_next {args : BuildArgs} {d : Dentry} {old size : Nat}
    {pre : List (Nat × Link)} (hr : Roomy args.info L) (hbs : SmallBlocks args.info.blockSize.val)
    (hs : Standing L args.info 10 t.fs) (htype : d.fileType = ext4FtDirectory)
    (hawait : Awaits args.info s old size pre 0 (d :: ds) t.fs)
    (hmake : buildEmptyDirectory args 2 (t, []) = .ok (n, (t', [])))
    (hfinish : finishEntry args (some s) 0 d n (t'.fs, []) = .ok ((), (fs', []))) :
    Added L args.info (· = s.data) 10 1
        (dirNumbers ((Rose.node ⟨d, none⟩ []).places 2 11)) t.fs fs' ∧
      (∀ p ∈ (Rose.node ⟨d, none⟩ []).places 2 11, Holds p args.info t.fs.heap.length fs') ∧
      ∃ off, Awaits args.info s old size (pre ++ [(off, 11, d.entry)]) 1 ds fs' := by
  have h2 : 2 ≤ args.info.capacity L := (special_le hr).trans' (by decide)
  obtain ⟨rfl, hgrown⟩ := buildEmptyDirectory_grown hr hbs hs h2 (by decide) htype hmake
  exact hgrown.finish hr hawait hfinish

theorem lostAndFoundName_fits : NameFits lostAndFoundName := ⟨by decide, by decide⟩

theorem buildDefaultDirectoryStructure_planted (hr : Roomy info L)
    (hbs : SmallBlocks info.blockSize.val) (hs : Standing L info 10 t.fs)
    (h : buildDefaultDirectoryStructure (args.build info) (t, []) = .ok (n, (t', []))) :
    n = 2 ∧ Planted L args info [.node ⟨defaultLostAndFound args, none⟩ []] t.fs t'.fs := by
  obtain ⟨⟨root, slots⟩, ⟨t1, l1⟩, hroot, h1⟩ := Run.bind_ok.mp h
  obtain ⟨m, ⟨t2, l2⟩, hempty, h2⟩ := Run.bind_ok.mp h1
  obtain ⟨⟨⟩, ⟨t3, l3⟩, hpatch, hend⟩ := Run.bind_ok.mp h2
  cases hend
  obtain ⟨hpatch, -⟩ := onFs_ok.mp hpatch
  have hfinish : finishEntry (args.build info) slots 0 (defaultLostAndFound args) m (t2.fs, l2) =
      .ok ((), (t'.fs, [])) := finishEntry_of_patched rfl hpatch
  obtain ⟨rfl, -⟩ := (finishEntry_advances _ _ _ _ _).quiet hfinish
  obtain ⟨rfl, -⟩ := (buildEmptyDirectory_advances _ _).quiet hempty
  have hnames : NamesFit [defaultLostAndFound args] :=
    List.forall_mem_singleton.mpr lostAndFoundName_fits
  obtain ⟨rfl, hs2, ha, hc, s, b, rfl, hbegun⟩ := makeDirectory_root hr hbs hnames hs (by decide)
    (onFs_ok.mp hroot).1
  obtain ⟨hadded, hheld, off, hawait⟩ := lostAndFound_next hr hbs hs2 rfl
    (hbegun.awaits (by decide) (by decide)) hempty hfinish
  have hnothing := hawait.furnished 2 hadded.standing hadded.room
  have hall : Furnished L info s t.fs.heap.length b.size 2 10
      [(2, [46], ext4FtDir), (2, [46, 46], ext4FtDir)] [.node ⟨defaultLostAndFound args, none⟩ []]
      t1.fs t'.fs := hnothing.cons hr hadded hheld hbegun.data.plain.1
  exact ⟨rfl, hbegun.planted hr hbs ha hc hall rfl⟩

section Listing

variable {fullPath : List UInt8} {entries : List HostEntry}

theorem buildDirectoryStructure_plantedLost (hr : Roomy info L)
    (hbs : SmallBlocks info.blockSize.val) (hs : Standing L info 10 t.fs)
    (hfits : ListingFits (some entries)) (hlost : needsLostAndFound 0 entries = true)
    (h : buildDirectoryStructure (args.build info) fullPath [] 0 (some entries) (t, []) =
      .ok (n, (t', []))) :
    n = 2 ∧ Planted L args info
      (.node ⟨lostAndFound [], none⟩ [] :: forestOf (args.build info) fullPath [] entries)
      t.fs t'.fs := by
  have hpos : 0 < (args.build info).info.blockSize.val := hbs.ge.trans' (by decide)
  rw [buildDirectoryStructure] at h
  obtain ⟨ds, ⟨t1, l1⟩, hscan, h1⟩ := Run.bind_ok.mp h
  rw [if_pos hlost] at h1
  obtain ⟨⟨root, slots⟩, ⟨t2, l2⟩, hroot, h2⟩ := Run.bind_ok.mp h1
  obtain ⟨m, ⟨t3, l3⟩, hempty, h3⟩ := Run.bind_ok.mp h2
  obtain ⟨⟨⟩, ⟨t4, l4⟩, hfinish, h4⟩ := Run.bind_ok.mp h3
  obtain ⟨⟨⟩, ⟨t5, l5⟩, hentries, hend⟩ := Run.bind_ok.mp h4
  cases hend
  obtain ⟨rfl, -⟩ := (buildEntries_advances _ _ _ _ _ _).quiet hentries
  obtain ⟨rfl, -⟩ := (onFs_advances (finishEntry_advances _ _ _ _ _)).quiet hfinish
  obtain ⟨rfl, -⟩ := (buildEmptyDirectory_advances _ _).quiet hempty
  obtain ⟨rfl, -⟩ := (onFs_advances (makeDirectory_advances _ _ _)).quiet hroot
  obtain ⟨rfl, hscanned⟩ := scanEntries_scanned hscan
  have hnames : NamesFit (lostAndFound [] :: ds) :=
    List.forall_mem_cons.mpr ⟨lostAndFoundName_fits, hscanned.names hpos hfits⟩
  obtain ⟨rfl, hs2, ha, hc, s, b, rfl, hbegun⟩ := makeDirectory_root hr hbs hnames hs (by decide)
    (onFs_ok.mp hroot).1
  obtain ⟨hadded, hheld, off, hawait⟩ := lostAndFound_next hr hbs hs2 rfl
    (hbegun.awaits (by decide) (by decide)) hempty (onFs_ok.mp hfinish).1
  have hf := buildEntries_furnished hr hbs ((special_le hr).trans' (by decide)) (by decide) _ _
    entries hfits hscanned hadded.standing hadded.room hawait hentries
  have hall : Furnished L info s t1.fs.heap.length b.size 2 10
      [(2, [46], ext4FtDir), (2, [46, 46], ext4FtDir)]
      (.node ⟨lostAndFound [], none⟩ [] :: forestOf (args.build info) fullPath [] entries)
      t2.fs t'.fs := hf.cons hr hadded hheld hbegun.data.plain.1
  refine ⟨rfl, hbegun.planted hr hbs ha hc hall (countDirs_heads ?_)⟩
  exact congrArg (lostAndFound [] :: ·) (hscanned.heads 12)

theorem buildDirectoryStructure_planted (hr : Roomy info L)
    (hbs : SmallBlocks info.blockSize.val) (hs : Standing L info 10 t.fs)
    (hfits : ListingFits (some entries)) (hlost : needsLostAndFound 0 entries = false)
    (h : buildDirectoryStructure (args.build info) fullPath [] 0 (some entries) (t, []) =
      .ok (n, (t', []))) :
    n = 2 ∧ Planted L args info (forestOf (args.build info) fullPath [] entries) t.fs t'.fs := by
  have hpos : 0 < (args.build info).info.blockSize.val := hbs.ge.trans' (by decide)
  have h10 := special_le hr
  rw [buildDirectoryStructure] at h
  obtain ⟨ds, ⟨t1, l1⟩, hscan, h1⟩ := Run.bind_ok.mp h
  rw [if_neg (ne_true_of_eq_false hlost)] at h1
  obtain ⟨⟨root, slots⟩, ⟨t2, l2⟩, hroot, h2⟩ := Run.bind_ok.mp h1
  obtain ⟨⟨⟩, ⟨t3, l3⟩, hentries, hend⟩ := Run.bind_ok.mp h2
  cases hend
  obtain ⟨rfl, -⟩ := (buildEntries_advances _ _ _ _ _ _).quiet hentries
  obtain ⟨rfl, -⟩ := (onFs_advances (makeDirectory_advances _ _ _)).quiet hroot
  obtain ⟨rfl, hscanned⟩ := scanEntries_scanned hscan
  obtain ⟨rfl, hs2, ha, hc, s, b, rfl, hbegun⟩ := makeDirectory_root hr hbs
    (hscanned.names hpos hfits) hs (by decide) (onFs_ok.mp hroot).1
  have hf := buildEntries_furnished hr hbs (h10.trans' (by decide)) (by decide) _ _ entries hfits
    hscanned hs2 h10 (hbegun.awaits (by decide) (by decide)) hentries
  exact ⟨rfl, hbegun.planted hr hbs ha hc hf (countDirs_heads (hscanned.heads _))⟩

end Listing

theorem buildTree_planted {listing : Option (List HostEntry)} (hr : Roomy info L)
    (hbs : SmallBlocks info.blockSize.val) (hs : Standing L info 10 t.fs)
    (hfits : ListingFits (scandir listing))
    (h : buildTree args info listing (t, []) = .ok (n, (t', []))) :
    n = 2 ∧ Planted L args info (imageForest args info listing) t.fs t'.fs := by
  cases hdir : args.directory with
  | none =>
    rw [buildTree, hdir] at h
    rw [imageForest, hdir]
    exact buildDefaultDirectoryStructure_planted hr hbs hs h
  | some directory =>
    rw [buildTree, hdir] at h
    rw [imageForest, hdir]
    dsimp only at h ⊢
    cases hlisting : scandir listing with
    | none =>
      rw [hlisting, buildDirectoryStructure] at h
      obtain ⟨⟨⟩, st, hraise, hend⟩ := Run.bind_ok.mp h
      cases hend
      exact absurd hraise raise_not_quiet
    | some entries =>
      rw [hlisting] at h hfits
      dsimp only
      by_cases hlost : needsLostAndFound 0 entries = true
      · rw [if_pos hlost, List.singleton_append]
        exact buildDirectoryStructure_plantedLost hr hbs hs hfits hlost h
      · rw [if_neg hlost, List.nil_append]
        exact buildDirectoryStructure_planted hr hbs hs hfits (eq_false_of_ne_true hlost) h

end Root

end MakeExt4fs

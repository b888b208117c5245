import MakeExt4fs.Tree.Finished

namespace MakeExt4fs

open ErrorLog Numbering Words

def Leaf (p : Place Node) : Prop := p.label.isDir = false → p.below = []

section Leaves

variable {args : BuildArgs}

mutual

theorem nodeOf_leaf (d : Dentry) (up n : Nat) : ∀ e, ∀ p ∈ (nodeOf args d e).places up n, Leaf p
  | .mk _ _ stat _ _ listing => by
    rw [nodeOf, Rose.places]
    intro p hp
    split at hp
    · rename_i hdir
      rcases List.mem_cons.mp hp with rfl | hp
      · intro hno
        exact absurd (decide_eq_true hdir) (ne_true_of_eq_false hno)
      · exact belowOf_leaf _ _ n (n + 1) listing p hp
    · rcases List.mem_cons.mp hp with rfl | hp
      · exact fun _ => rfl
      · cases hp

theorem belowOf_leaf (fullPath dirPath : List UInt8) (up n : Nat) : ∀ listing,
    ∀ p ∈ Rose.placesAll up n (belowOf args fullPath dirPath listing), Leaf p
  | none => by
    rw [belowOf]
    intro p hp
    cases hp
  | some entries => by
    rw [belowOf]
    exact forestOf_leaf fullPath dirPath up n entries

theorem forestOf_leaf (fullPath dirPath : List UInt8) (up n : Nat) : ∀ entries,
    ∀ p ∈ Rose.placesAll up n (forestOf args fullPath dirPath entries), Leaf p
  | [] => by
    rw [forestOf]
    intro p hp
    cases hp
  | e :: rest => by
    rw [forestOf]
    split
    · rename_i d hd
      rw [Rose.placesAll]
      intro p hp
      rcases List.mem_append.mp hp with hp | hp
      · exact nodeOf_leaf d up n e p hp
      · exact forestOf_leaf fullPath dirPath up _ rest p hp
    · exact forestOf_leaf fullPath dirPath up n rest

end

theorem directory_leaf (d : Dentry) (up n : Nat) (h : d.fileType = ext4FtDirectory) :
    ∀ p ∈ (Rose.node (⟨d, none⟩ : Node) []).places up n, Leaf p := by
  intro p hp
  obtain rfl := List.mem_singleton.mp hp
  intro hno
  exact absurd (decide_eq_true h) (ne_true_of_eq_false hno)

end Leaves

section Names

variable {ps : List (Place Node)} {root : Node} {ts : List (Rose Node)} {q : Place Node} {n : Nat}

def namings (ps : List (Place Node)) (n : Nat) : Nat :=
  ((ps.filter (·.label.isDir)).flatMap placeListing).countP fun x => x.1 = n

theorem countP_listing (p : Place Node) (n : Nat) :
    (placeListing p).countP (fun x => x.1 = n) =
      (if p.number = n then 1 else 0) + (if p.up = n then 1 else 0) +
        p.below.countP fun x => x.1 = n := by
  have hlinks : (placeLinks p).countP (fun x => x.1 = n) = p.below.countP fun x => x.1 = n := by
    rw [placeLinks, List.countP_map]
    rfl
  rw [placeListing, List.countP_cons, List.countP_cons, hlinks]
  simp only [decide_eq_true_eq]
  omega

theorem namings_eq (ps : List (Place Node)) (n : Nat) (hleaf : ∀ p ∈ ps, Leaf p) :
    namings ps n = ps.countP (fun p => decide (p.number = n) && p.label.isDir) +
      ps.countP (fun p => decide (p.up = n) && p.label.isDir) +
      (ps.flatMap fun p => p.below.map Prod.fst).count n := by
  induction ps with
  | nil => rfl
  | cons p rest ih =>
    have hbelow : (p.below.map Prod.fst).count n = p.below.countP fun x => x.1 = n := by
      rw [List.count, List.countP_map]
      apply List.countP_congr
      intro x _
      simp
    have hrest := ih fun r hr => hleaf r (List.mem_cons_of_mem p hr)
    rw [namings] at hrest ⊢
    rw [List.filter_cons, List.countP_cons, List.countP_cons, List.flatMap_cons, List.count_append,
      hbelow]
    cases hdir : p.label.isDir with
    | true =>
      rw [if_pos rfl, List.flatMap_cons, List.countP_append, countP_listing, hrest]
      simp only [Bool.and_true, decide_eq_true_eq]
      omega
    | false =>
      rw [if_neg (by decide), hrest, hleaf p List.mem_cons_self hdir]
      simp

def rooted (root : Node) (ts : List (Rose Node)) : List (Place Node) :=
  ⟨2, 2, root, Rose.heads 11 ts⟩ :: Rose.placesAll 2 11 ts

theorem numbers_rooted (root : Node) (ts : List (Rose Node)) :
    (rooted root ts).map Place.number = 2 :: List.range' 11 (Rose.sizes ts) := by
  rw [rooted, List.map_cons, Rose.numbers_placesAll]

theorem nodup_rooted (root : Node) (ts : List (Rose Node)) :
    ((rooted root ts).map Place.number).Nodup := by
  rw [numbers_rooted, List.nodup_cons]
  refine ⟨fun hmem => ?_, List.nodup_range'⟩
  have := (List.mem_range'_1.mp hmem).1
  omega

theorem edges_rooted (root : Node) (ts : List (Rose Node)) :
    ((Rose.placesAll 2 11 ts).map Place.edge).Perm ((rooted root ts).flatMap Place.edges) :=
  Rose.edges_placesAll 2 11 ts

theorem countP_number (hnodup : (ps.map Place.number).Nodup) (hq : q ∈ ps) (f : Node → Bool) :
    ps.countP (fun p => decide (p.number = q.number) && f p.label) = if f q.label then 1 else 0 := by
  induction ps with
  | nil => cases hq
  | cons p rest ih =>
    rw [List.map_cons, List.nodup_cons] at hnodup
    rw [List.countP_cons]
    rcases List.mem_cons.mp hq with rfl | hq
    · have hnone : rest.countP (fun p => decide (p.number = q.number) && f p.label) = 0 := by
        rw [List.countP_eq_zero]
        intro p hp
        have hne : p.number ≠ q.number := fun heq => hnodup.1 (heq ▸ List.mem_map_of_mem hp)
        simp [hne]
      simp [hnone]
    · have hne : p.number ≠ q.number := fun heq => hnodup.1 (heq ▸ List.mem_map_of_mem hq)
      rw [ih hnodup.2 hq]
      simp [hne]

theorem countP_up (hq : q ∈ rooted root ts) :
    (Rose.placesAll 2 11 ts).countP (fun p => decide (p.up = q.number) && p.label.isDir) =
      q.below.countP fun x => x.2.isDir := by
  rw [← Rose.countP_edges (nodup_rooted root ts) hq Node.isDir,
    ← (edges_rooted root ts).countP_eq, List.countP_map]
  rfl

theorem count_listed (root : Node) (ts : List (Rose Node)) (n : Nat) :
    ((rooted root ts).flatMap fun p => p.below.map Prod.fst).count n =
      if 11 ≤ n ∧ n < 11 + Rose.sizes ts then 1 else 0 := by
  have hperm : ((rooted root ts).flatMap fun p => p.below.map Prod.fst).Perm
      (List.range' 11 (Rose.sizes ts)) := Rose.listed_placesAll 2 11 ts
  rw [hperm.count_eq, List.Nodup.count List.nodup_range']
  exact if_congr List.mem_range'_1 rfl rfl

theorem namings_rooted (hroot : root.isDir = true) (hleaf : ∀ p ∈ rooted root ts, Leaf p)
    (hq : q ∈ rooted root ts) : namings (rooted root ts) q.number = linkCount q := by
  have hup := countP_up hq
  rw [namings_eq _ _ hleaf, countP_number (nodup_rooted root ts) hq, count_listed]
  rw [rooted, List.countP_cons, hup, hroot, linkCount]
  rcases List.mem_cons.mp hq with rfl | hmem
  · simp [hroot]
    omega
  · have hnumber := Rose.number_mem hmem
    have hne : (decide (2 = q.number) && true) ≠ true := by
      rw [Bool.and_true, ne_eq, decide_eq_true_eq]
      omega
    rw [if_pos hnumber, if_neg hne]
    cases hdir : q.label.isDir with
    | true =>
      simp
      omega
    | false =>
      rw [hleaf q hq hdir]
      simp

end Names

structure QuietRun (args : MakeArgs) (info : FsInfo) (listing : Option (List HostEntry))
    (aux : FsAuxInfo) (t : Tree) : Prop where
  start : ext4InitFsAuxInfo info = some aux
  headers : HeadersFit info aux
  word : EndsInWord info aux
  roomy : Roomy info (startLayout info aux headers word)
  blocks : SmallBlocks info.blockSize.val
  names : ListingFits (scandir listing)
  run : buildImage args info listing (startTree aux, []) = .ok ((), (t, []))

def inodeUsed (info : FsInfo) (fs : Fs) (n : Nat) : Bool :=
  (fs.aux.bgs[(inodeRef info n).bg]?.map fun b =>
    b.inodeBitmap.testBit (sub32 n 1 % info.inodesPerGroup.val)).getD false

structure TrueDesc (info : FsInfo) (dirs : List Nat) (uuid : List UInt8) (queue : List Chunk)
    (g : Nat) (b : BlockGroupInfo) (desc : Ext2GroupDesc) : Prop where
  bitmaps : .data (.bitmaps g) (u32 (2 * info.blockSize.val)) desc.bgBlockBitmap ∈ queue
  inodeBitmap : desc.bgInodeBitmap = u32 (desc.bgBlockBitmap + 1)
  inodeTable : desc.bgInodeTable = u32 (desc.bgBlockBitmap + 2)
  freeBlocks : desc.bgFreeBlocksCount = u16 (clearBits b.blockBitmap info.blocksPerGroup.val)
  freeInodes : desc.bgFreeInodesCount = u16 (clearBits b.inodeBitmap info.inodesPerGroup.val)
  usedDirs : desc.bgUsedDirsCount = u16 (inGroup info g dirs)
  flags : desc.bgFlags = b.flags
  checksum : desc.bgChecksum = groupChecksum uuid g desc

section Example

def reportsNothing {α : Type} : Except (Stop Ext4Error) (α × (Tree × List Ext4Error)) → Bool
  | .ok (_, (_, log)) => log.isEmpty
  | .error _ => false

def hostDir (name : List UInt8) (entries : List HostEntry) : HostEntry :=
  .mk name (some ⟨0o040755, 4096, 77, 0, 0⟩) (some ⟨0o040755, 4096, 77, 0, 0⟩) none []
    (some entries)

def hostFile (name contents : List UInt8) : HostEntry :=
  .mk name (some ⟨0o100644, contents.length, 77, 0, 0⟩)
    (some ⟨0o100644, contents.length, 77, 0, 0⟩) none contents none

def hostLink (name target : List UInt8) : HostEntry :=
  .mk name (some ⟨0o120777, target.length, 77, 0, 0⟩) none (some target) [] none

def smallListing : Option (List HostEntry) :=
  some [hostDir [100] [hostFile [97] [65, 65, 65], hostDir [101] []], hostLink [108] [100, 47, 97]]

def smallArgs : MakeArgs where
  req := ⟨16777216, 0, 0, 0, 0, 0, 0, [], false, []⟩
  force := false
  directory := some [115]
  fsConfigFunc := none
  gzip := false
  sparse := false
  crc := false
  fixedTime := -1
  blockListFile := false

theorem small_built : ∃ t,
    buildImage smallArgs smallInfo smallListing (startTree smallAux, []) = .ok ((), (t, [])) := by
  have hends : reportsNothing
      (buildImage smallArgs smallInfo smallListing (startTree smallAux, [])) = true := by
    decide +kernel
  cases hrun : buildImage smallArgs smallInfo smallListing (startTree smallAux, []) with
  | error e =>
    rw [hrun] at hends
    cases hends
  | ok r =>
    obtain ⟨⟨⟩, t, log⟩ := r
    rw [hrun] at hends
    obtain rfl : log = [] := List.isEmpty_iff.mp hends
    exact ⟨t, rfl⟩

theorem small_quiet : ∃ t, QuietRun smallArgs smallInfo smallListing smallAux t := by
  obtain ⟨t, hrun⟩ := small_built
  have hheaders : HeadersFit smallInfo smallAux := by
    unfold HeadersFit
    decide
  have hword : EndsInWord smallInfo smallAux := Or.inl (by decide)
  have hpositive : ∀ i < smallAux.groups,
      0 < smallAux.groupStart smallInfo i + headerBlocks smallInfo smallAux i := by decide
  have hnumbers : smallInfo.inodesPerGroup.val * smallAux.groups < ext4AllocateFailed := by decide
  refine ⟨t, rfl, hheaders, hword, ⟨⟨Nat.one_pos, hnumbers, by decide⟩, hpositive, by decide,
    by decide⟩, SmallBlocks.of_pow (show 10 ≤ 12 by decide) (by decide), ?_, hrun⟩
  have hscan : scandir smallListing = smallListing := rfl
  rw [hscan]
  simp [smallListing, ListingFits, EntriesFit, HostEntry.Fits, NameFits, hostDir, hostFile,
    hostLink]

end Example

theorem Carries.listed {p : Place Node} {info : FsInfo} {lo : Nat} {fs : Fs}
    (h : Carries p info lo fs) (hdir : p.label.dentry.fileType = ext4FtDirectory) : ∃ data b,
      fs.inodeSize (inodeRef info p.number) = b.size ∧ InMemory lo fs data b.size b ∧
        listDirectory info.blockSize.val b = some (placeListing p) := by
  cases h with
  | directory data b htype hsize hdata hlist => exact ⟨data, b, hsize, hdata, hlist⟩
  | file htype => exact absurd (hdir.symm.trans htype) (by decide)
  | shortLink htype => exact absurd (hdir.symm.trans htype) (by decide)
  | longLink data b htype => exact absurd (hdir.symm.trans htype) (by decide)
  | special s htype =>
    rw [hdir] at htype
    exact absurd htype (by decide)

section Results

variable {L : Layout} {args : MakeArgs} {info : FsInfo} {listing : Option (List HostEntry)}
  {aux : FsAuxInfo} {t : Tree} {k n g : Nat} {fs : Fs}

theorem QuietRun.finished (h : QuietRun args info listing aux t) :
    Finished (startLayout info aux h.headers h.word) args info listing aux t.fs :=
  buildImage_finished h.start h.roomy h.blocks h.names h.run

theorem imagePlaces_eq (args : MakeArgs) (info : FsInfo) (listing : Option (List HostEntry)) :
    imagePlaces args info listing = rooted (rootNode args) (imageForest args info listing) := rfl

theorem imagePlaces_leaf (args : MakeArgs) (info : FsInfo) (listing : Option (List HostEntry)) :
    ∀ p ∈ imagePlaces args info listing, Leaf p := by
  intro p hp
  rcases List.mem_cons.mp hp with rfl | hp
  · intro hno
    exact absurd (rfl : (rootNode args).isDir = true) (ne_true_of_eq_false hno)
  · rw [imageForest] at hp
    split at hp
    · rw [Rose.placesAll, Rose.placesAll, List.append_nil] at hp
      exact directory_leaf _ _ _ rfl p hp
    · split at hp
      · cases hp
      · split at hp
        · rw [List.singleton_append, Rose.placesAll] at hp
          rcases List.mem_append.mp hp with hp | hp
          · exact directory_leaf _ _ _ rfl p hp
          · exact forestOf_leaf _ _ _ _ _ p hp
        · exact forestOf_leaf _ _ _ _ _ p hp

theorem InodesNumbered.inodeUsed (h : InodesNumbered info k fs.aux)
    (hpos : 0 < info.inodesPerGroup.val) (h1 : 1 ≤ n)
    (hn : n ≤ info.inodesPerGroup.val * fs.aux.groups) (hword : n < 4294967296) :
    inodeUsed info fs n = decide (n ≤ k) := by
  have hsub : sub32 n 1 = n - 1 := sub32_of_le hword h1
  have hg : (n - 1) / info.inodesPerGroup.val < fs.aux.bgs.length := by
    rw [h.length]
    exact Nat.div_lt_of_lt_mul (by omega)
  have hb := List.getElem?_eq_getElem hg
  have hbits := (h.taken _ _ hb).bits ((n - 1) % info.inodesPerGroup.val)
  have hdiv := Nat.div_add_mod (n - 1) info.inodesPerGroup.val
  have hmod := Nat.mod_lt (n - 1) hpos
  have hbg : (inodeRef info n).bg = (n - 1) / info.inodesPerGroup.val := by rw [← hsub]; rfl
  rw [MakeExt4fs.inodeUsed, hbg, hsub, hb, Option.map_some, Option.getD_some, hbits]
  apply decide_eq_decide.mpr
  rw [takenIn, Nat.mul_comm]
  omega

theorem checksum_updatedDesc (uuid : List UInt8) (i : Nat) (b : BlockGroupInfo)
    (d : Ext2GroupDesc) : (updatedDesc uuid i b d).bgChecksum =
      groupChecksum uuid i (updatedDesc uuid i b d) := by
  have hsame (e : Ext2GroupDesc) (c : Nat) : groupChecksum uuid i e =
      groupChecksum uuid i { e with bgChecksum := c } := rfl
  exact hsame _ _

theorem bitmapsBlock_eq (info : FsInfo) (aux : FsAuxInfo) (g : Nat) :
    u32 (groupStartBlock info aux g + groupHeaderSize info aux g) = bitmapsBlock info aux g := by
  rw [groupStartBlock, groupHeaderSize, bitmapsBlock, firstBlock, superblockBlocks]
  unfold u32
  split <;> omega

theorem QuietRun.capacity_lt (h : QuietRun args info listing aux t) :
    info.inodesPerGroup.val * aux.groups < 4294967296 :=
  h.roomy.numbers.trans (by decide)

theorem QuietRun.groups (h : QuietRun args info listing aux t) : t.fs.aux.groups = aux.groups := by
  rw [h.finished.counted.same]

theorem QuietRun.used (h : QuietRun args info listing aux t) (h1 : 1 ≤ n)
    (hn : n ≤ info.inodesPerGroup.val * aux.groups) : inodeUsed info t.fs n =
      decide (n ≤ 10 + Rose.sizes (imageForest args info listing)) := by
  have hlt := h.capacity_lt
  have hspecial := h.roomy.special
  refine h.finished.standing.numbered.inodeUsed (by omega) h1 ?_ (by omega)
  rw [h.groups]
  exact hn

theorem mem_imagePlaces (args : MakeArgs) (info : FsInfo) (listing : Option (List HostEntry))
    (n : Nat) : (∃ p ∈ imagePlaces args info listing, p.number = n) ↔
      n = 2 ∨ 11 ≤ n ∧ n < 11 + Rose.sizes (imageForest args info listing) := by
  have hnumbers := numbers_rooted (rootNode args) (imageForest args info listing)
  rw [← List.mem_map, imagePlaces_eq, hnumbers, List.mem_cons, List.mem_range'_1]

theorem QuietRun.number_le (h : QuietRun args info listing aux t) {p : Place Node}
    (hp : p ∈ imagePlaces args info listing) :
    1 ≤ p.number ∧ p.number ≤ 10 + Rose.sizes (imageForest args info listing) ∧
      p.number ≤ info.inodesPerGroup.val * aux.groups := by
  have hroom := h.finished.room
  change _ ≤ info.inodesPerGroup.val * aux.groups at hroom
  have hnumber := (mem_imagePlaces args info listing p.number).mp ⟨p, hp, rfl⟩
  omega

theorem quietRun_holds (h : QuietRun args info listing aux t) :
    ((imagePlaces args info listing).map Place.number).Nodup ∧
      ∀ p ∈ imagePlaces args info listing,
        inodeUsed info t.fs p.number = true ∧ Holds p info 0 t.fs := by
  refine ⟨nodup_rooted (rootNode args) (imageForest args info listing), fun p hp => ⟨?_, ?_⟩⟩
  · obtain ⟨h1, hle, hn⟩ := h.number_le hp
    rw [h.used h1 hn]
    exact decide_eq_true hle
  · exact h.finished.holds p hp

example : ∃ t : Tree, ∀ p ∈ imagePlaces smallArgs smallInfo smallListing,
    inodeUsed smallInfo t.fs p.number = true ∧ Holds p smallInfo 0 t.fs := by
  obtain ⟨t, h⟩ := small_quiet
  exact ⟨t, (quietRun_holds h).2⟩

theorem quietRun_inodes (h : QuietRun args info listing aux t) (h1 : 1 ≤ n)
    (hn : n ≤ info.inodesPerGroup.val * aux.groups) :
    (inodeUsed info t.fs n = true ↔ n ≤ 10 ∨ ∃ p ∈ imagePlaces args info listing, p.number = n) ∧
      (inodeUsed info t.fs n = false → Blank info n t.fs) := by
  rw [h.used h1 hn, mem_imagePlaces, decide_eq_true_eq, decide_eq_false_iff_not]
  refine ⟨by omega, fun hfree => ?_⟩
  exact h.finished.standing.blank n (by omega) hn

theorem quietRun_links (h : QuietRun args info listing aux t) :
    ∃ listed : Place Node → List Link,
      (∀ p ∈ imagePlaces args info listing, p.label.isDir = true → ∃ data b,
        t.fs.inodeSize (inodeRef info p.number) = b.size ∧ InMemory 0 t.fs data b.size b ∧
          listDirectory info.blockSize.val b = some (listed p)) ∧
      ∀ p ∈ imagePlaces args info listing, t.fs.field (inodeRef info p.number) iLinksCount =
        (((imagePlaces args info listing).filter (·.label.isDir)).flatMap listed).countP
          (fun x => x.1 = p.number) % 65536 := by
  refine ⟨placeListing, fun p hp hdir => ?_, fun p hp => ?_⟩
  · exact (h.finished.holds p hp).carries.listed (of_decide_eq_true hdir)
  · have hnamings := namings_rooted rfl (imagePlaces_leaf args info listing) hp
    rw [(h.finished.holds p hp).links, ← hnamings]
    rfl

theorem quietRun_descs (h : QuietRun args info listing aux t) (hg : g < aux.groups) :
    ∃ b desc, t.fs.aux.bgs[g]? = some b ∧ t.fs.aux.bgDesc[g]? = some desc ∧
      TrueDesc info (dirNumbers (imagePlaces args info listing)) t.fs.aux.sb.sUuid t.fs.sparse g b
        desc := by
  have hdone := h.finished
  obtain ⟨b, d, hb, hdesc⟩ := hdone.counted.descs g hg
  have hbitmaps : bitmapsChunk info aux g ∈ t.fs.sparse :=
    hdone.queued.subset (List.mem_append_left _ (List.mem_map_of_mem (List.mem_range.mpr hg)))
  have hdirs := hdone.dirs g
  rw [Fs.usedDirs, hb] at hdirs
  refine ⟨b, _, hb, hdesc, ⟨?_, ?_, ?_, ?_, ?_, ?_, rfl,
    checksum_updatedDesc _ g b _⟩⟩
  · have hsame := bitmapsBlock_eq info aux g
    rw [bitmapsChunk, ← hsame] at hbitmaps
    exact hbitmaps
  · exact (Nat.mod_add_mod _ _ _).symm
  · exact (Nat.mod_add_mod _ _ _).symm
  · have hclear := (hdone.standing.keeps.group hb).sound.clear
    change clearBits b.blockBitmap info.blocksPerGroup.val = b.freeBlocks at hclear
    rw [hclear]
    rfl
  · rw [(hdone.standing.numbered.taken g b hb).clear]
    rfl
  · change u16 (0 + b.usedDirs) = _
    rw [Nat.zero_add]
    exact hdirs

theorem clear_sums (h : QuietRun args info listing aux t) :
    t.fs.aux.bgs.map BlockGroupInfo.freeBlocks =
        t.fs.aux.bgs.map (fun b => clearBits b.blockBitmap info.blocksPerGroup.val) ∧
      t.fs.aux.bgs.map BlockGroupInfo.freeInodes =
        t.fs.aux.bgs.map fun b => clearBits b.inodeBitmap info.inodesPerGroup.val := by
  have hdone := h.finished
  refine ⟨List.map_congr_left fun b hb => ?_, List.map_congr_left fun b hb => ?_⟩ <;>
    obtain ⟨g, hg⟩ := List.mem_iff_getElem?.mp hb
  · exact (hdone.standing.keeps.group hg).sound.clear.symm
  · exact (hdone.standing.numbered.taken g b hg).clear.symm

theorem quietRun_superblock (h : QuietRun args info listing aux t) :
    t.fs.aux.sb.sFreeBlocksCountLo = u32 (t.fs.aux.bgs.map fun b =>
        clearBits b.blockBitmap info.blocksPerGroup.val).sum ∧
      t.fs.aux.sb.sFreeInodesCount = (t.fs.aux.bgs.map fun b =>
        clearBits b.inodeBitmap info.inodesPerGroup.val).sum ∧
      t.fs.aux.sb.sFreeInodesCount + 9 + (imagePlaces args info listing).length =
        t.fs.aux.sb.sInodesCount ∧
      t.fs.sparse.getLast? = some (sbChunk info) := by
  have hdone := h.finished
  have hlt := h.capacity_lt
  have hroom := hdone.room
  change _ ≤ info.inodesPerGroup.val * aux.groups at hroom
  obtain ⟨hblocks, hinodes⟩ := clear_sums h
  have hsum := hdone.standing.numbered.free_sum
  rw [h.groups] at hsum
  have hsame := hdone.counted.same
  have hfree : t.fs.aux.sb.sFreeInodesCount =
      (t.fs.aux.bgs.map BlockGroupInfo.freeInodes).sum := by
    have hword : (t.fs.aux.bgs.map BlockGroupInfo.freeInodes).sum < 4294967296 := by omega
    rw [hsame]
    exact u32_of_lt hword
  have htotal : t.fs.aux.sb.sInodesCount = info.inodesPerGroup.val * aux.groups := by
    rw [hsame]
    exact u32_of_lt hlt
  refine ⟨?_, by rw [hfree, hinodes], ?_, hdone.last⟩
  · rw [← hblocks, hsame]
  · have hlength := congrArg List.length
      (numbers_rooted (rootNode args) (imageForest args info listing))
    rw [List.length_map, List.length_cons, List.length_range', ← imagePlaces_eq] at hlength
    rw [htotal, hfree, hsum, hlength]
    omega

example : ∃ t : Tree, t.fs.aux.sb.sFreeInodesCount + 9 +
    (imagePlaces smallArgs smallInfo smallListing).length = t.fs.aux.sb.sInodesCount := by
  obtain ⟨t, h⟩ := small_quiet
  exact ⟨t, (quietRun_superblock h).2.2.1⟩

theorem quietRun_journal (h : QuietRun args info listing aux t) (hj : hasJournal info) :
    Journaled info t.fs := h.finished.journaled hj

end Results

end MakeExt4fs

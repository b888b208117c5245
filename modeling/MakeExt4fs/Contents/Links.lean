import MakeExt4fs.Allocate.Frames
import MakeExt4fs.Contents.Directory
import MakeExt4fs.Contents.XattrRange

namespace MakeExt4fs

open ErrorLog Words

abbrev Link := Nat × (List UInt8 × Nat)

def readLinks (bs : Nat) (data : Buffer) : Nat → Nat → Option (List Link)
  | fuel, pos =>
    if pos = data.size then some []
    else
      match fuel with
      | 0 => none
      | fuel + 1 =>
        let recLen := data.get16 (pos + 4)
        let nameLen := data.get (pos + 6)
        if recLen % 4 = 0 ∧ 8 + nameLen ≤ recLen ∧ pos % bs + recLen ≤ bs then do
          let rest ← readLinks bs data fuel (pos + recLen)
          some ((data.getLE pos 4, data.slice (pos + 8) nameLen, data.get (pos + 7)) :: rest)
        else none

def listDirectory (bs : Nat) (data : Buffer) : Option (List Link) := readLinks bs data data.size 0

inductive Links (bs : Nat) (data : Buffer) : Nat → List (Nat × Link) → Nat → Prop
  | nil (pos : Nat) : Links bs data pos [] pos
  | cons {pos recLen stop n : Nat} {e : List UInt8 × Nat} {ls : List (Nat × Link)}
      (head : IsDentry bs data pos recLen e) (inode : data.getLE pos 4 = n)
      (tail : Links bs data (pos + recLen) ls stop) : Links bs data pos ((pos, n, e) :: ls) stop

section Walking

variable {bs : Nat} {data data' : Buffer} {pos recLen start stop stop' n v : Nat}
  {e : List UInt8 × Nat} {es : List (List UInt8 × Nat)} {ls ls' : List (Nat × Link)}

theorem Links.le (h : Links bs data start ls stop) : start ≤ stop := by
  induction h with
  | nil pos => exact le_rfl
  | cons head inode tail ih => omega

theorem Links.congr (h : Links bs data start ls stop)
    (hsame : ∀ i, start ≤ i → i < stop → data'.get i = data.get i) :
    Links bs data' start ls stop := by
  induction h with
  | nil pos => exact .nil pos
  | @cons pos recLen stop n e ls head inode tail ih =>
    have hle := tail.le
    have hholds := head.holds
    refine .cons (head.congr fun i h1 h2 => hsame i h1 (by omega)) ?_
      (ih fun i h1 h2 => hsame i (by omega) h2)
    rw [← inode]
    exact Buffer.getLE_congr fun i h1 h2 => hsame i h1 (by omega)

theorem Links.snoc (h : Links bs data start ls pos) (hlast : IsDentry bs data pos recLen e)
    (hinode : data.getLE pos 4 = n) :
    Links bs data start (ls ++ [(pos, n, e)]) (pos + recLen) := by
  induction h with
  | nil pos => exact .cons hlast hinode (.nil _)
  | cons head inode tail ih => exact .cons head inode (ih hlast hinode)

theorem Links.split {ls ms : List (Nat × Link)} (h : Links bs data start (ls ++ ms) stop) :
    ∃ mid, Links bs data start ls mid ∧ Links bs data mid ms stop := by
  induction ls generalizing start with
  | nil => exact ⟨start, .nil start, h⟩
  | cons x ls ih =>
    cases h with
    | cons head inode tail =>
      obtain ⟨mid, h1, h2⟩ := ih tail
      exact ⟨mid, .cons head inode h1, h2⟩

theorem Links.append {mid : Nat} {ls ms : List (Nat × Link)} (h : Links bs data start ls mid)
    (h' : Links bs data mid ms stop) : Links bs data start (ls ++ ms) stop := by
  induction h with
  | nil pos => exact h'
  | cons head inode tail ih => exact .cons head inode (ih h')

theorem Links.read (hbs : 0 < bs) (h : Links bs data pos ls data.size) (fuel : Nat)
    (hfuel : data.size ≤ pos + fuel) : readLinks bs data fuel pos = some (ls.map Prod.snd) := by
  generalize hstop : data.size = stop at h
  induction h generalizing fuel with
  | nil pos =>
    unfold readLinks
    rw [if_pos hstop.symm]
    rfl
  | @cons pos recLen stop n e ls head inode tail ih =>
    have hle := tail.le
    have hholds := head.holds
    have hin := head.in_block
    have hm := Nat.mod_lt pos hbs
    have hne : pos ≠ data.size := by omega
    obtain ⟨fuel, rfl⟩ : ∃ k, fuel = k + 1 := ⟨fuel - 1, by omega⟩
    unfold room at hin
    unfold readLinks
    rw [if_neg hne]
    simp only [head.recLen_eq, head.nameLen, head.fileType, head.name, head.aligned, inode,
      ih fuel (by omega) hstop]
    rw [if_pos ⟨trivial, hholds, by omega⟩]
    rfl

theorem Walk.functional (h : Walk bs data start es stop) (h' : Walk bs data start es stop') :
    stop' = stop := by
  induction h with
  | nil pos =>
    cases h'
    rfl
  | cons head tail ih =>
    cases h' with
    | cons head' tail' =>
      have hrec := head.recLen_eq.symm.trans head'.recLen_eq
      subst hrec
      exact ih tail'

theorem Walk.last (h : Walk bs data start (es ++ [e]) stop) :
    ∃ mid, Walk bs data start es mid ∧ mid ≤ stop ∧ IsDentry bs data mid (stop - mid) e := by
  induction es generalizing start with
  | nil =>
    cases h with
    | cons head tail =>
      cases tail with
      | nil =>
        refine ⟨start, .nil start, Nat.le_add_right _ _, ?_⟩
        rwa [Nat.add_sub_cancel_left]
  | cons x es ih =>
    cases h with
    | cons head tail =>
      obtain ⟨mid, h1, h2, h3⟩ := ih tail
      exact ⟨mid, .cons head h1, h2, h3⟩

theorem Links.walk (h : Links bs data start ls stop) :
    Walk bs data start (ls.map fun x => x.2.2) stop := by
  induction h with
  | nil pos => exact .nil pos
  | cons head inode tail ih => exact .cons head ih

theorem IsDentry.named (h : IsDentry bs data pos recLen e) (v : Nat) :
    IsDentry bs (data.putLE pos 4 v) pos recLen e := by
  refine ⟨?_, ?_, ?_, ?_, h.aligned, h.holds, h.in_block⟩
  · rw [← h.recLen_eq]
    exact Buffer.getLE_congr fun i h1 h2 => Buffer.get_putLE_of_apart _ _ _ _ _ (by omega)
  · rw [← h.nameLen]
    exact Buffer.get_putLE_of_apart _ _ _ _ _ (by omega)
  · rw [← h.fileType]
    exact Buffer.get_putLE_of_apart _ _ _ _ _ (by omega)
  · conv_rhs => rw [← h.name]
    exact Buffer.slice_congr fun i h1 h2 => Buffer.get_putLE_of_apart _ _ _ _ _ (by omega)

theorem Links.patch {ms : List (Nat × Link)}
    (h : Links bs data start (ls ++ (pos, n, e) :: ms) stop) (hsize : stop ≤ data.size) :
    Links bs (data.putLE pos 4 v) start (ls ++ (pos, v % 256 ^ 4, e) :: ms) stop := by
  obtain ⟨mid, hfront, hback⟩ := h.split
  cases hback with
  | cons head inode tail =>
    have hholds := head.holds
    have hle := tail.le
    refine .append (hfront.congr fun i _ hi => ?_) (.cons (head.named v) ?_ (tail.congr ?_))
    · exact Buffer.get_putLE_of_apart _ _ _ _ _ (by omega)
    · exact Buffer.getLE_putLE data pos 4 v (by omega)
    · exact fun i hi _ => Buffer.get_putLE_of_apart _ _ _ _ _ (by omega)

end Walking

section Filling

variable {info : FsInfo} {data data' : Buffer} {l l' : List Ext4Error} {bs offset prev pos next : Nat}
  {inode fileType n : Nat} {name : List UInt8} {e : List UInt8 × Nat} {ls : List (Nat × Link)}

theorem writeDentry_ok {recLen : Nat}
    (h : writeDentry pos inode recLen name fileType (data, l) = .ok ((), (data', l'))) :
    (∀ i < pos, data'.get i = data.get i) ∧ data'.getLE pos 4 = inode % 256 ^ 4 := by
  obtain ⟨⟨⟩, ⟨d1, l1⟩, h1, hrest⟩ := Run.bind_ok.mp h
  obtain ⟨⟨⟩, ⟨d2, l2⟩, h2, hrest⟩ := Run.bind_ok.mp hrest
  obtain ⟨⟨⟩, ⟨d3, l3⟩, h3, hrest⟩ := Run.bind_ok.mp hrest
  obtain ⟨⟨⟩, ⟨d4, l4⟩, h4, h5⟩ := Run.bind_ok.mp hrest
  obtain ⟨hsize, rfl, -⟩ := pokeAt_ok.mp h1
  obtain ⟨-, rfl, -⟩ := pokeAt_ok.mp h2
  obtain ⟨-, rfl, -⟩ := pokeAt_ok.mp h3
  obtain ⟨-, rfl, -⟩ := pokeAt_ok.mp h4
  obtain ⟨-, rfl, -⟩ := pokeBytes_ok.mp h5
  constructor
  · intro i hi
    rw [Buffer.get_put_of_not_mem _ _ _ _ (by omega),
      Buffer.get_putLE_of_apart _ _ _ _ _ (by omega),
      Buffer.get_putLE_of_apart _ _ _ _ _ (by omega),
      Buffer.get_putLE_of_apart _ _ _ _ _ (by omega),
      Buffer.get_putLE_of_apart _ _ _ _ _ (by omega)]
  · rw [Buffer.getLE_put_of_apart _ _ _ _ _ (by omega),
      Buffer.getLE_putLE_of_apart _ _ _ _ _ _ (by omega),
      Buffer.getLE_putLE_of_apart _ _ _ _ _ _ (by omega),
      Buffer.getLE_putLE_of_apart _ _ _ _ _ _ (by omega)]
    exact Buffer.getLE_putLE data pos 4 inode hsize

theorem addDentry_ok
    (h : addDentry info offset (some prev) inode name fileType (data, l) =
      .ok ((pos, next), (data', l'))) :
    (∀ i < pos, i < prev + 4 ∨ prev + 6 ≤ i → data'.get i = data.get i) ∧
      data'.getLE pos 4 = inode % 256 ^ 4 := by
  obtain ⟨at0, ⟨d1, l1⟩, hplace, hrest⟩ := Run.bind_ok.mp h
  obtain ⟨⟨⟩, ⟨d2, l2⟩, hwrite, hend⟩ := Run.bind_ok.mp hrest
  cases hend
  obtain ⟨hsame, hinode⟩ := writeDentry_ok hwrite
  refine ⟨?_, hinode⟩
  intro i hi hout
  rw [hsame i hi]
  unfold placeDentry at hplace
  dsimp only at hplace
  split at hplace
  · obtain ⟨⟨⟩, ⟨d3, l3⟩, hgrow, hend⟩ := Run.bind_ok.mp hplace
    cases hend
    obtain ⟨_, st, hread, hpoke⟩ := Run.bind_ok.mp hgrow
    cases hread
    obtain ⟨-, rfl, -⟩ := pokeAt_ok.mp hpoke
    exact Buffer.get_putLE_of_apart _ _ _ _ _ (by omega)
  · cases hplace
    rfl

theorem growDentry_ok {gap : Nat} (h : growDentry prev gap (data, l) = .ok ((), (data', l'))) :
    ∀ i, i < prev + 4 ∨ prev + 6 ≤ i → data'.get i = data.get i := by
  obtain ⟨_, st, hread, hpoke⟩ := Run.bind_ok.mp h
  cases hread
  obtain ⟨-, rfl, -⟩ := pokeAt_ok.mp hpoke
  exact fun i hi => Buffer.get_putLE_of_apart _ _ _ _ _ (by omega)

structure OpenDir (bs : Nat) (data : Buffer) (ls : List (Nat × Link)) (link : Link)
    (prev offset : Nat) : Prop where
  links : Links bs data 0 ls prev
  inode : data.getLE prev 4 = link.1
  filled : Filled bs data (ls.map fun x => x.2.2) link.2 prev offset

theorem OpenDir.keep (h : OpenDir bs data ls (n, e) prev offset)
    (hsame : ∀ i < prev + 4, data'.get i = data.get i) :
    Links bs data' 0 ls prev ∧ data'.getLE prev 4 = n := by
  refine ⟨h.links.congr fun i _ hi => hsame i (by omega), Eq.trans ?_ h.inode⟩
  exact Buffer.getLE_congr fun i _ hi => hsame i hi

theorem OpenDir.grow (h : OpenDir bs data ls (n, e) prev offset) (hbs : SmallBlocks bs) {gap : Nat}
    (hgap : gap = 0 ∨ offset % bs ≠ 0 ∧ gap = room bs offset) (hin : offset + gap ≤ data.size) :
    ∃ data', growDentry prev gap (data, l) = .ok ((), (data', l)) ∧ data'.size = data.size ∧
      OpenDir bs data' ls (n, e) prev (offset + gap) := by
  obtain ⟨data', hrun, hsize, hfilled⟩ := h.filled.grow (l := l) hbs hgap hin
  obtain ⟨hlinks, hinode⟩ := h.keep fun i hi => growDentry_ok hrun i (Or.inl hi)
  exact ⟨data', hrun, hsize, hlinks, hinode, hfilled⟩

theorem addDentry_openDir (h : OpenDir info.blockSize.val data ls (n, e) prev offset)
    (hbs : SmallBlocks info.blockSize.val) (inode : Nat) (hname : NameFits name)
    (htype : fileType < 256) (hword : data.size < 4294967296)
    (hin : placeOf info.blockSize.val offset (dentryLen name.length) + dentryLen name.length ≤
      data.size) :
    ∃ data' pos, addDentry info offset (some prev) inode name fileType (data, l) =
        .ok ((pos, pos + dentryLen name.length), (data', l)) ∧
      pos = placeOf info.blockSize.val offset (dentryLen name.length) ∧
      data'.size = data.size ∧ OpenDir info.blockSize.val data' (ls ++ [(prev, n, e)])
        (inode % 256 ^ 4, name, fileType) pos (pos + dentryLen name.length) := by
  obtain ⟨data', pos, hrun, hpos, hsize, hfilled⟩ :=
    addDentry_run (l := l) h.filled hbs inode hname htype hword hin
  obtain ⟨hsame, hinode⟩ := addDentry_ok hrun
  have hholds := h.filled.last.holds
  have hge := le_placeOf info.blockSize.val offset (dentryLen name.length)
  have hbefore : ∀ i < prev + 4, data'.get i = data.get i :=
    fun i hi => hsame i (by omega) (Or.inl hi)
  obtain ⟨hlinks, hn⟩ := h.keep hbefore
  -- the entry before now ends where the new one begins
  obtain ⟨mid, hwalk, hmid, hlast⟩ := hfilled.walk.last
  obtain rfl := hlinks.walk.functional hwalk
  have hsnoc := hlinks.snoc hlast hn
  rw [Nat.add_sub_cancel' hmid] at hsnoc
  refine ⟨data', pos, hrun, hpos, hsize, hsnoc, hinode, ?_⟩
  rw [List.map_append]
  exact hfilled

def unnamed (places : List Nat) (dentries : List Dentry) : List (Nat × Link) :=
  List.zipWith (fun pos d => (pos, 0, d.entry)) places dentries

theorem addEntries_openDir (hbs : SmallBlocks info.blockSize.val) (dentries : List Dentry)
    (hnames : NamesFit dentries) (h : OpenDir info.blockSize.val data ls (n, e) prev offset)
    (hword : data.size < 4294967296) (hend : endOf info.blockSize.val offset dentries ≤ data.size) :
    ∃ data' ms link last places, addEntries info data.size dentries offset prev (data, l) =
        .ok ((endOf info.blockSize.val offset dentries, last, places), (data', l)) ∧
      data'.size = data.size ∧ places.length = dentries.length ∧
      ms ++ [(last, link)] = ls ++ (prev, n, e) :: unnamed places dentries ∧
      OpenDir info.blockSize.val data' ms link last (endOf info.blockSize.val offset dentries) := by
  induction dentries generalizing data ls n e prev offset with
  | nil => exact ⟨data, ls, (n, e), prev, [], rfl, rfl, rfl, rfl, h⟩
  | cons d rest ih =>
    rw [endOf] at hend ⊢
    have hrest := endOf_ge info.blockSize.val
      (placeOf info.blockSize.val offset (dentryLen d.filename.length) +
        dentryLen d.filename.length) rest
    obtain ⟨d1, pos, hadd, rfl, hsize, hlinked⟩ := addDentry_openDir (l := l) h hbs 0
      (hnames d List.mem_cons_self) d.fileType.toNat_lt hword (by omega)
    obtain ⟨d2, ms, link, last, places, hrun, hsize2, hlength, hlist, hlinked2⟩ :=
      ih (fun x hx => hnames x (List.mem_cons_of_mem d hx)) hlinked (by omega) (by omega)
    rw [hsize] at hrun
    refine ⟨d2, ms, link, last, placeOf info.blockSize.val offset (dentryLen d.filename.length) ::
      places, ?_, by omega, by simpa using hlength, ?_, hlinked2⟩
    · have hcheck : ¬(placeOf info.blockSize.val offset (dentryLen d.filename.length) +
          dentryLen d.filename.length > data.size ∨
          (placeOf info.blockSize.val offset (dentryLen d.filename.length) +
            dentryLen d.filename.length = data.size ∧ rest ≠ [])) := by
        rintro (hgt | ⟨heq, hne⟩)
        · omega
        · have := List.length_pos_iff.mpr hne
          omega
      simp only [addEntries, Run.bind_run, hadd, if_neg hcheck, hrun, Run.pure_run]
    · rw [hlist, List.append_assoc]
      rfl

def newLinks (inodeNum dirInodeNum : Nat) (places : List Nat) (dentries : List Dentry) :
    List (Nat × Link) :=
  (0, inodeNum % 256 ^ 4, [46], ext4FtDir) :: (12, dirInodeNum % 256 ^ 4, [46, 46], ext4FtDir) ::
    unnamed places dentries

theorem fillDirectory_openDir (hbs : SmallBlocks info.blockSize.val) (inodeNum dirInodeNum : Nat)
    (dentries : List Dentry) (hnames : NamesFit dentries)
    (hword : directoryBytes info dentries < 4294967296)
    (hsize : data.size = directoryBytes info dentries) :
    ∃ data' places, fillDirectory info data.size inodeNum dirInodeNum dentries (data, l) =
        .ok ((endOf info.blockSize.val 24 dentries, places), (data', l)) ∧
      data'.size = data.size ∧ places.length = dentries.length ∧ Links info.blockSize.val data' 0
        (newLinks inodeNum dirInodeNum places dentries) data'.size := by
  have hge := hbs.ge
  have hpos : 0 < info.blockSize.val := by omega
  have hend := endOf_ge info.blockSize.val 24 dentries
  have hle := le_divRoundUp_mul (endOf info.blockSize.val 24 dentries) hpos
  have hround := roundUp_eq hpos (endOf info.blockSize.val 24 dentries)
  rw [directoryBytes] at hword hsize
  have hmany : 1024 ≤ data.size := by
    have hone := divRoundUp_pos (show 0 < endOf info.blockSize.val 24 dentries by omega) hpos
    have := Nat.le_mul_of_pos_left info.blockSize.val hone
    omega
  obtain ⟨d1, h1, hs1, hf1⟩ := addDentry_first (l := l) hbs inodeNum hmany
  have hinode : d1.getLE 0 4 = inodeNum % 256 ^ 4 := by
    obtain ⟨at0, ⟨d0, l0⟩, hplace, hrest⟩ := Run.bind_ok.mp h1
    obtain ⟨⟨⟩, ⟨d2, l2⟩, hwrite, hend⟩ := Run.bind_ok.mp hrest
    cases hend
    exact (writeDentry_ok hwrite).2
  have hdotdot : dentryLen ([46, 46] : List UInt8).length = 12 := by decide
  have hplace : placeOf info.blockSize.val 12 12 = 12 := by
    rw [placeOf, if_pos]
    rw [room, Nat.mod_eq_of_lt (by omega)]
    omega
  have hl1 : OpenDir info.blockSize.val d1 [] (inodeNum % 256 ^ 4, [46], ext4FtDir) 0 12 :=
    ⟨.nil 0, hinode, hf1⟩
  obtain ⟨d2, pos2, h2, rfl, hs2, hl2⟩ := addDentry_openDir (l := l) hl1 hbs dirInodeNum
    (show NameFits [46, 46] from ⟨by decide, by decide⟩) (show ext4FtDir < 256 by decide) (by omega)
    (by rw [hdotdot, hplace]; omega)
  rw [hdotdot, hplace, show 12 + 12 = 24 by rfl] at h2 hl2
  obtain ⟨d3, ms, link, last, places, h3, hs3, hlength, hlist, hl3⟩ := addEntries_openDir (l := l) hbs
    dentries hnames hl2 (by omega) (by omega)
  have hgap : sub32 data.size (endOf info.blockSize.val 24 dentries) =
      data.size - endOf info.blockSize.val 24 dentries := sub32_of_le (by omega) (by omega)
  have hpad : data.size - endOf info.blockSize.val 24 dentries = 0 ∨
      endOf info.blockSize.val 24 dentries % info.blockSize.val ≠ 0 ∧
        data.size - endOf info.blockSize.val 24 dentries =
          room info.blockSize.val (endOf info.blockSize.val 24 dentries) := by
    split at hround
    · exact Or.inl (by omega)
    · exact Or.inr ⟨by assumption, by omega⟩
  obtain ⟨d4, h4, hs4, hl4⟩ := hl3.grow (l := l) hbs hpad (by omega)
  have hsz : d2.size = data.size := by omega
  rw [hsz] at h3
  refine ⟨d4, places, ?_, by omega, hlength, ?_⟩
  · simp only [fillDirectory, Run.bind_run, h1, h2, h3, hgap, h4, Run.pure_run]
  · have hall := hl4.links.snoc hl4.filled.last hl4.inode
    rw [Nat.add_sub_cancel' hl4.filled.le, hlist, show endOf info.blockSize.val 24 dentries +
      (data.size - endOf info.blockSize.val 24 dentries) = d4.size by omega] at hall
    exact hall

theorem fillDirectory_links (hbs : SmallBlocks info.blockSize.val) {inodeNum dirInodeNum off : Nat}
    {dentries : List Dentry} {places : List Nat} (hnames : NamesFit dentries)
    (hdata : data.size = directoryLen info dentries)
    (h : fillDirectory info (directoryLen info dentries) inodeNum dirInodeNum dentries (data, l) =
      .ok ((off, places), (data', l'))) :
    l' = l ∧ data'.size = data.size ∧ places.length = dentries.length ∧
      Links info.blockSize.val data' 0 (newLinks inodeNum dirInodeNum places dentries) data'.size := by
  have hge := hbs.ge
  have hlt : directoryLen info dentries < 4294967296 := u32_lt _
  have hdvd : info.blockSize.val ∣ directoryLen info dentries :=
    (Nat.dvd_mod_iff hbs.dvd).mpr (Nat.dvd_mul_left _ _)
  have hend := (fillDirectory_meets (l := l) hbs inodeNum dirInodeNum hdvd hlt dentries hnames
    hdata).ok h
  have hword : directoryBytes info dentries < 4294967296 := by
    obtain ⟨q, hq⟩ := hdvd
    rw [hq, Nat.mul_comm] at hend hlt
    exact lt_of_le_of_lt (Nat.mul_le_mul_right _
      ((divRoundUp_le_iff (show 0 < info.blockSize.val by omega)).mpr hend)) hlt
  obtain ⟨-, hlen⟩ := directoryLen_eq hbs hnames hword
  obtain ⟨d, ps, hrun, hsize, hlength, hlinks⟩ := fillDirectory_openDir (l := l) hbs inodeNum
    dirInodeNum dentries hnames hword (hdata.trans hlen)
  rw [hdata] at hrun
  rw [hrun] at h
  cases h
  exact ⟨rfl, hsize, hlength, hlinks⟩

end Filling

end MakeExt4fs

import MakeExt4fs.Contents.Dentries

namespace MakeExt4fs

open ErrorLog Words

section Fill

variable {info : FsInfo} {data : Buffer} {l : List Ext4Error} {bs offset prev : Nat}
  {es : List (List UInt8 × Nat)} {e : List UInt8 × Nat}

-- The block sizes at which a rec_len and the distance to a block's end are 16-bit numbers.
structure SmallBlocks (bs : Nat) : Prop where
  ge : 1024 ≤ bs
  le : bs ≤ 32768
  dvd : bs ∣ 4294967296
  aligned : bs % 4 = 0

theorem SmallBlocks.of_pow {k : Nat} (h1 : 10 ≤ k) (h2 : k ≤ 15) : SmallBlocks (2 ^ k) := by
  interval_cases k <;> exact ⟨by decide, by decide, by decide, by decide⟩

theorem SmallBlocks.room_aligned (h : SmallBlocks bs) (ho : offset % 4 = 0) :
    room bs offset % 4 = 0 := by
  have h4 : 4 ∣ bs := Nat.dvd_of_mod_eq_zero h.aligned
  have hmod := Nat.mod_mod_of_dvd offset h4
  have := h.aligned
  have hle := room_le bs offset
  unfold room at *
  omega

structure Filled (bs : Nat) (data : Buffer) (es : List (List UInt8 × Nat)) (e : List UInt8 × Nat)
    (prev offset : Nat) : Prop where
  walk : Walk bs data 0 es prev
  last : IsDentry bs data prev (offset - prev) e
  le : prev ≤ offset
  aligned : offset % 4 = 0
  inside : offset ≤ data.size

theorem Filled.grow (h : Filled bs data es e prev offset) (hbs : SmallBlocks bs) {gap : Nat}
    (hgap : gap = 0 ∨ offset % bs ≠ 0 ∧ gap = room bs offset) (hin : offset + gap ≤ data.size) :
    ∃ data', growDentry prev gap (data, l) = .ok ((), (data', l)) ∧ data'.size = data.size ∧
      Filled bs data' es e prev (offset + gap) := by
  have hlast := h.last
  have hle := h.le
  have hal := h.aligned
  have hroom := hlast.in_block
  have hlal := hlast.aligned
  have hpos : 0 < bs := by have := hbs.ge; omega
  have hsmall := hbs.le
  have hgal : gap % 4 = 0 := by
    rcases hgap with rfl | ⟨-, rfl⟩
    · rfl
    · exact hbs.room_aligned hal
  have hfit : offset - prev + gap ≤ room bs prev := by
    rcases hgap with rfl | ⟨hmid, rfl⟩
    · exact hroom
    · rcases Nat.lt_or_ge (offset - prev) (room bs prev) with hlt | hge
      · have hsum := room_add hpos hlt
        rw [Nat.add_sub_cancel' hle] at hsum
        omega
      · have heq : offset = prev + room bs prev := by omega
        exact absurd (Nat.mod_eq_zero_of_dvd (heq ▸ dvd_add_room hpos prev)) hmid
  have hmax := room_le bs prev
  obtain ⟨data', hrun, hsize, hnew, hsame⟩ := growDentry_run (l := l) gap hlast
    (by have := h.inside; omega) (by omega) (by omega) hfit
  refine ⟨data', hrun, hsize, ?_, ?_, by omega, by omega, by omega⟩
  · exact h.walk.congr fun i _ hi => hsame i (Or.inl hi)
  · rw [show offset + gap - prev = offset - prev + gap by omega]
    exact hnew

theorem placeDentry_run (h : Filled bs data es e prev offset) (hbs : SmallBlocks bs) {n : Nat}
    (hn : 0 < n) (hle : n ≤ bs) (hword : data.size < 4294967296)
    (hin : placeOf bs offset n + n ≤ data.size) :
    ∃ data', placeDentry bs offset n (some prev) (data, l) =
        .ok (placeOf bs offset n, (data', l)) ∧ data'.size = data.size ∧
      Filled bs data' es e prev (placeOf bs offset n) := by
  have hpos : 0 < bs := by omega
  have hge := le_placeOf bs offset n
  have hend : u32 (offset + n - 1) / bs = if n ≤ room bs offset then offset / bs
      else offset / bs + 1 := by
    rw [u32_of_lt (by omega), endBlock_eq hn hle]
  by_cases hfits : n ≤ room bs offset
  · have hplace : placeOf bs offset n = offset := if_pos hfits
    rw [if_pos hfits] at hend
    refine ⟨data, ?_, rfl, hplace.symm ▸ h⟩
    simp only [placeDentry, hend, ne_eq, not_true, if_false, hplace]
    rfl
  · have hplace : placeOf bs offset n = offset + room bs offset := if_neg hfits
    rw [if_neg hfits] at hend
    have hmid : offset % bs ≠ 0 := by
      intro h0
      rw [room, h0] at hfits
      omega
    obtain ⟨data', hrun, hsize, hfilled⟩ := h.grow (l := l) hbs (Or.inr ⟨hmid, rfl⟩) (by omega)
    have hgap : sub32 ((offset / bs + 1) * bs) offset = room bs offset := by
      rw [← add_room hpos, sub32_of_le (by omega) (by omega)]
      omega
    have hat : u32 ((offset / bs + 1) * bs) = offset + room bs offset := by
      rw [← add_room hpos, u32_of_lt (by omega)]
    have hne : offset / bs ≠ offset / bs + 1 := by omega
    refine ⟨data', ?_, hsize, hplace ▸ hfilled⟩
    simp only [placeDentry, hend, if_pos hne, hgap, hat, Run.bind_run, hrun, hplace, Run.pure_run]

def NameFits (name : List UInt8) : Prop := 1 ≤ name.length ∧ name.length ≤ 255

theorem dentryLen_bounds {name : List UInt8} (h : NameFits name) :
    8 + name.length ≤ dentryLen name.length ∧ dentryLen name.length ≤ 264 ∧
      dentryLen name.length % 4 = 0 := by
  obtain ⟨h1, h2, h3⟩ := ext4Align_spec name.length
  have := h.2
  unfold dentryLen
  omega

theorem addDentry_run (h : Filled info.blockSize.val data es e prev offset)
    (hbs : SmallBlocks info.blockSize.val) (inode : Nat) {name : List UInt8} {fileType : Nat}
    (hname : NameFits name) (htype : fileType < 256) (hword : data.size < 4294967296)
    (hin : placeOf info.blockSize.val offset (dentryLen name.length) + dentryLen name.length ≤
      data.size) :
    ∃ data' pos, addDentry info offset (some prev) inode name fileType (data, l) =
        .ok ((pos, pos + dentryLen name.length), (data', l)) ∧
      pos = placeOf info.blockSize.val offset (dentryLen name.length) ∧
      data'.size = data.size ∧ Filled info.blockSize.val data' (es ++ [e]) (name, fileType) pos
        (pos + dentryLen name.length) := by
  obtain ⟨hhold, hmax, hal⟩ := dentryLen_bounds hname
  have hshort : name.length % 256 = name.length := Nat.mod_eq_of_lt (by have := hname.2; omega)
  have hrec : u16 (dentryLen name.length) = dentryLen name.length := u16_of_lt (by omega)
  have hge := hbs.ge
  obtain ⟨d1, hplace, hsize1, hfilled⟩ := placeDentry_run (l := l) h hbs
    (show 0 < dentryLen name.length by omega) (by omega) hword hin
  have hroom := placeOf_le (show 0 < info.blockSize.val by omega)
    (show dentryLen name.length ≤ info.blockSize.val by omega) offset
  have hin1 : placeOf info.blockSize.val offset (dentryLen name.length) + dentryLen name.length ≤
      d1.size := by omega
  obtain ⟨d2, hwrite, hsize2, hnew, hsame⟩ := writeDentry_run (l := l) inode name hin1 (by omega)
    (by have := hname.2; omega) htype hal hhold hroom
  refine ⟨d2, _, ?_, rfl, by omega, ⟨?_, ?_, by omega, ?_, by omega⟩⟩
  · simp only [addDentry, hshort, hrec, Run.bind_run, hplace, List.take_length, hwrite,
      Run.pure_run]
    rw [u32_of_lt (by omega)]
  · have hwalk := hfilled.walk.snoc hfilled.last
    rw [Nat.add_sub_cancel' hfilled.le] at hwalk
    exact hwalk.congr fun i _ hi => hsame i (Or.inl hi)
  · rw [Nat.add_sub_cancel_left]
    exact hnew
  · have := hfilled.aligned
    omega

def Dentry.entry (d : Dentry) : List UInt8 × Nat := (d.filename, d.fileType.toNat)

def directoryEntries (dentries : List Dentry) : List (List UInt8 × Nat) :=
  ([46], ext4FtDir) :: ([46, 46], ext4FtDir) :: dentries.map Dentry.entry

def NamesFit (dentries : List Dentry) : Prop := ∀ d ∈ dentries, NameFits d.filename

theorem addEntries_run (hbs : SmallBlocks info.blockSize.val) (dentries : List Dentry)
    (hnames : NamesFit dentries) (h : Filled info.blockSize.val data es e prev offset)
    (hword : data.size < 4294967296) (hend : endOf info.blockSize.val offset dentries ≤ data.size) :
    ∃ data' es' e' last inodes, addEntries info data.size dentries offset prev (data, l) =
        .ok ((endOf info.blockSize.val offset dentries, last, inodes), (data', l)) ∧
      es' ++ [e'] = es ++ [e] ++ dentries.map Dentry.entry ∧ data'.size = data.size ∧
      Filled info.blockSize.val data' es' e' last (endOf info.blockSize.val offset dentries) := by
  induction dentries generalizing data es e prev offset with
  | nil => exact ⟨data, es, e, prev, [], rfl, by simp, rfl, h⟩
  | cons d rest ih =>
    rw [endOf] at hend ⊢
    have hrest := endOf_ge info.blockSize.val
      (placeOf info.blockSize.val offset (dentryLen d.filename.length) +
        dentryLen d.filename.length) rest
    obtain ⟨d1, pos, hadd, rfl, hsize, hfilled⟩ := addDentry_run (l := l) h hbs 0
      (hnames d (by simp)) d.fileType.toNat_lt hword (by omega)
    obtain ⟨d2, es', e', last, inodes, hrun, hes, hsize2, hfilled2⟩ :=
      ih (fun x hx => hnames x (by simp [hx])) hfilled (by omega) (by omega)
    rw [hsize] at hrun
    refine ⟨d2, es', e', last, placeOf info.blockSize.val offset (dentryLen d.filename.length) ::
      inodes, ?_, ?_, by omega, hfilled2⟩
    · have hcheck : ¬(placeOf info.blockSize.val offset (dentryLen d.filename.length) +
          dentryLen d.filename.length > data.size ∨
          (placeOf info.blockSize.val offset (dentryLen d.filename.length) +
            dentryLen d.filename.length = data.size ∧ rest ≠ [])) := by
        rintro (hgt | ⟨heq, hne⟩)
        · omega
        · have := List.length_pos_iff.mpr hne
          omega
      simp only [addEntries, Run.bind_run, hadd, if_neg hcheck, hrun, Run.pure_run]
    · rw [hes]
      simp [Dentry.entry]

theorem addDentry_first (hbs : SmallBlocks info.blockSize.val) (inode : Nat)
    (hsize : 1024 ≤ data.size) : ∃ data', addDentry info 0 none inode [46] ext4FtDir (data, l) =
        .ok ((0, 12), (data', l)) ∧ data'.size = data.size ∧
      Filled info.blockSize.val data' [] ([46], ext4FtDir) 0 12 := by
  have hge := hbs.ge
  have hroom : room info.blockSize.val 0 = info.blockSize.val := by simp [room]
  have hlen : dentryLen ([46] : List UInt8).length = 12 := by decide
  obtain ⟨data', hwrite, hsize', hnew, -⟩ := writeDentry_run (l := l) inode ([46] : List UInt8)
    (show 0 + 12 ≤ data.size by omega) (by decide) (by decide) (show ext4FtDir < 256 by decide)
    (by decide) (by decide) (show 12 ≤ room info.blockSize.val 0 by omega)
  have hplace : placeDentry info.blockSize.val 0 12 none (data, l) = .ok (0, (data, l)) := by
    have hend : u32 (0 + 12 - 1) / info.blockSize.val = 0 := Nat.div_eq_of_lt (by
      rw [u32_of_lt (by decide)]
      omega)
    simp only [placeDentry, hend, Nat.zero_div, ne_eq, not_true, if_false, Run.pure_run]
  refine ⟨data', ?_, hsize', .nil 0, hnew, by omega, by decide, by omega⟩
  simp only [addDentry, Run.bind_run]
  rw [show u16 (dentryLen (([46] : List UInt8).length % 256)) = 12 by decide, hplace]
  simp only [hwrite, List.length_singleton, Nat.one_mod, List.take_succ_cons, List.take_zero,
    Run.pure_run]
  rfl

theorem roundUp_eq (hpos : 0 < bs) (n : Nat) : divRoundUp n bs * bs =
    if n % bs = 0 then n else n + room bs n := by
  have h := Nat.div_add_mod n bs
  have hm := Nat.mod_lt n hpos
  have hcomm : n / bs * bs = bs * (n / bs) := Nat.mul_comm _ _
  split
  · rw [divRoundUp_eq_of hpos (n := n / bs) (by omega) (by omega)]
    omega
  · rw [add_room hpos, divRoundUp_eq_of hpos (n := n / bs + 1)] <;> rw [Nat.succ_mul] <;> omega

theorem fillDirectory_run (hbs : SmallBlocks info.blockSize.val) (inodeNum dirInodeNum : Nat)
    (dentries : List Dentry) (hnames : NamesFit dentries)
    (hword : divRoundUp (endOf info.blockSize.val 24 dentries) info.blockSize.val *
      info.blockSize.val < 4294967296)
    (hsize : data.size = divRoundUp (endOf info.blockSize.val 24 dentries) info.blockSize.val *
      info.blockSize.val) :
    ∃ data' inodes, fillDirectory info data.size inodeNum dirInodeNum dentries (data, l) =
        .ok ((endOf info.blockSize.val 24 dentries, inodes), (data', l)) ∧
      data'.size = data.size ∧ readDirectory info.blockSize.val data' = some (directoryEntries dentries) := by
  have hge := hbs.ge
  have hpos : 0 < info.blockSize.val := by omega
  have hend := endOf_ge info.blockSize.val 24 dentries
  have hle := le_divRoundUp_mul (endOf info.blockSize.val 24 dentries) hpos
  have hround := roundUp_eq hpos (endOf info.blockSize.val 24 dentries)
  have hmany : 1024 ≤ data.size := by
    have hone := divRoundUp_pos (show 0 < endOf info.blockSize.val 24 dentries by omega) hpos
    have := Nat.le_mul_of_pos_left info.blockSize.val hone
    omega
  obtain ⟨d1, h1, hs1, hf1⟩ := addDentry_first (l := l) hbs inodeNum hmany
  have hdotdot : dentryLen ([46, 46] : List UInt8).length = 12 := by decide
  have hplace : placeOf info.blockSize.val 12 12 = 12 := by
    rw [placeOf, if_pos]
    rw [room, Nat.mod_eq_of_lt (by omega)]
    omega
  obtain ⟨d2, pos2, h2, rfl, hs2, hf2⟩ := addDentry_run (l := l) hf1 hbs dirInodeNum
    (show NameFits [46, 46] from ⟨by decide, by decide⟩) (show ext4FtDir < 256 by decide) (by omega)
    (by rw [hdotdot, hplace]; omega)
  rw [hdotdot, hplace, show 12 + 12 = 24 by rfl] at h2 hf2
  obtain ⟨d3, es, e, last, inodes, h3, hes, hs3, hf3⟩ := addEntries_run (l := l) hbs dentries
    hnames hf2 (by omega) (by omega)
  have hgap : sub32 data.size (endOf info.blockSize.val 24 dentries) =
      data.size - endOf info.blockSize.val 24 dentries := sub32_of_le (by omega) (by omega)
  have hpad : data.size - endOf info.blockSize.val 24 dentries = 0 ∨
      endOf info.blockSize.val 24 dentries % info.blockSize.val ≠ 0 ∧
        data.size - endOf info.blockSize.val 24 dentries =
          room info.blockSize.val (endOf info.blockSize.val 24 dentries) := by
    split at hround
    · exact Or.inl (by omega)
    · exact Or.inr ⟨by assumption, by omega⟩
  obtain ⟨d4, h4, hs4, hf4⟩ := hf3.grow (l := l) hbs hpad (by omega)
  have hsz : d2.size = data.size := by omega
  rw [hsz] at h3
  refine ⟨d4, inodes, ?_, by omega, ?_⟩
  · simp only [fillDirectory, Run.bind_run, h1, h2, h3, hgap, h4, Run.pure_run]
  · have hwalk := hf4.walk.snoc hf4.last
    rw [Nat.add_sub_cancel' hf4.le, hes, show endOf info.blockSize.val 24 dentries +
      (data.size - endOf info.blockSize.val 24 dentries) = d4.size by omega] at hwalk
    exact hwalk.read hpos d4.size (by omega)

end Fill

section Overrun

variable {info : FsInfo} {data : Buffer} {l : List Ext4Error} {bs offset len n : Nat}
  {bad : Ext4Error → Prop}

theorem pokeAt_meets {off v : Nat} {Q : Unit → Buffer → List Ext4Error → Prop} :
    Run.Meets bad (pokeAt off n v) Q data l ↔
      (off + n ≤ data.size → Q () (data.putLE off n v) l) := by
  rw [pokeAt, Run.meets_bind, Run.meets_read, pokeBuffer]
  by_cases h : off + n ≤ data.size
  · simp [h]
  · simp [h]

theorem pokeBytes_meets {off : Nat} {xs : List UInt8} {Q : Unit → Buffer → List Ext4Error → Prop} :
    Run.Meets bad (pokeBytes off xs) Q data l ↔
      (off + xs.length ≤ data.size → Q () (data.put off xs) l) := by
  rw [pokeBytes, Run.meets_bind, Run.meets_read]
  by_cases h : off + xs.length ≤ data.size
  · simp [h]
  · simp [h]

theorem placeDentry_meets (hpos : 0 < n) (hn : n ≤ bs) (prev : Option Nat)
    (hword : offset + n - 1 < 4294967296)
    (hnext : placeOf bs offset n < 4294967296) :
    Run.Meets (fun _ => False) (placeDentry bs offset n prev)
      (fun r data' _ => r = placeOf bs offset n ∧ data'.size = data.size) data l := by
  have hend : u32 (offset + n - 1) / bs = if n ≤ room bs offset then offset / bs
      else offset / bs + 1 := by
    rw [u32_of_lt hword, endBlock_eq hpos hn]
  by_cases hfits : n ≤ room bs offset
  · rw [if_pos hfits] at hend
    simp only [placeDentry, hend, ne_eq, not_true, if_false, Run.meets_pure, placeOf, if_pos hfits,
      and_self]
  · have hplace : placeOf bs offset n = offset + room bs offset := if_neg hfits
    have hne : offset / bs ≠ offset / bs + 1 := by omega
    rw [if_neg hfits] at hend
    have hat : u32 ((offset / bs + 1) * bs) = offset + room bs offset := by
      rw [← add_room (by omega), u32_of_lt (by omega)]
    simp only [placeDentry, hend, if_pos hne, hat]
    cases prev with
    | none =>
      rw [Run.meets_bind]
      exact Run.meets_raise id ⟨hplace.symm, rfl⟩
    | some p =>
      simp only [growDentry, Run.meets_bind, Run.meets_read, pokeAt_meets, Run.meets_pure]
      exact fun _ => ⟨hplace.symm, rfl⟩

theorem add_le_of_dvd {a b c : Nat} (hb : a ∣ b) (hc : a ∣ c) (h : b < c) : b + a ≤ c := by
  have := Nat.le_of_dvd (by omega) (Nat.dvd_sub hc hb)
  omega

theorem addDentry_meets (hbs : SmallBlocks info.blockSize.val) (prev : Option Nat) (inode : Nat)
    {name : List UInt8} (fileType : Nat) (hname : NameFits name)
    (hdvd : info.blockSize.val ∣ len) (hlen : len < 4294967296) (hoff : offset ≤ len)
    (hroom : offset = len ∨ offset + room info.blockSize.val offset ≤ len) :
    Run.Meets (fun _ => False) (addDentry info offset prev inode name fileType)
      (fun r data' _ => r.2 =
          placeOf info.blockSize.val offset (dentryLen name.length) + dentryLen name.length ∧
        8 ≤ data.size ∧ data'.size = data.size) data l := by
  obtain ⟨hhold, hmax, hal⟩ := dentryLen_bounds hname
  have hge := hbs.ge
  have htop := add_le_of_dvd hdvd hbs.dvd hlen
  have hplace : placeOf info.blockSize.val offset (dentryLen name.length) ≤ len := by
    unfold placeOf
    split
    · exact hoff
    · rename_i hlong
      rcases hroom with rfl | hroom
      · rw [room_of_dvd hdvd] at hlong
        omega
      · exact hroom
  have hshort : name.length % 256 = name.length := Nat.mod_eq_of_lt (by have := hname.2; omega)
  have hrec : u16 (dentryLen name.length) = dentryLen name.length := u16_of_lt (by omega)
  simp only [addDentry, hshort, hrec, Run.meets_bind]
  refine (placeDentry_meets (by omega) (by omega) prev (by omega) (by omega)).mono ?_
  rintro pos data' l' ⟨rfl, hsize⟩
  simp only [writeDentry, Run.meets_bind, pokeAt_meets, pokeBytes_meets, Run.meets_pure]
  intro _ _ _ h8 _
  simp only [Buffer.size_putLE] at h8
  exact ⟨u32_of_lt (by omega), by omega, hsize⟩

theorem room_of_lt (hpos : 0 < bs) (hdvd : bs ∣ len) (hoff : offset < len) :
    offset + room bs offset ≤ len := by
  by_contra hlt
  have hnext := add_le_of_dvd hdvd (dvd_add_room hpos offset) (by omega)
  have := room_le bs offset
  omega

theorem addEntries_meets (hbs : SmallBlocks info.blockSize.val) (hdvd : info.blockSize.val ∣ len)
    (hlen : len < 4294967296) (dentries : List Dentry) (hnames : NamesFit dentries) (prev : Nat)
    (hoff : offset ≤ len) (hmore : dentries ≠ [] → offset < len) :
    Run.Meets (fun _ => False) (addEntries info len dentries offset prev)
      (fun _ _ _ => endOf info.blockSize.val offset dentries ≤ len) data l := by
  induction dentries generalizing data l offset prev with
  | nil => exact hoff
  | cons d rest ih =>
    have hlt := hmore (by simp)
    have hpos : 0 < info.blockSize.val := by have := hbs.ge; omega
    rw [addEntries, Run.meets_bind]
    refine (addDentry_meets hbs (some prev) 0 d.fileType.toNat (hnames d (by simp)) hdvd hlen hoff
      (Or.inr (room_of_lt hpos hdvd hlt))).mono ?_
    rintro ⟨pos, next⟩ data' l' ⟨hnext, -, -⟩
    simp only at hnext
    subst hnext
    dsimp only
    split
    · rw [Run.meets_bind]
      exact Run.meets_raise_false.mpr id
    · rename_i hcheck
      rw [Run.meets_bind]
      refine (ih (fun x hx => hnames x (by simp [hx])) pos (by omega) ?_).mono fun _ _ _ h => h
      intro hne
      by_contra hge
      exact hcheck (Or.inr ⟨by omega, hne⟩)

end Overrun

section Sizes

variable {info : FsInfo} {l : List Ext4Error}

theorem dentrySizeLoop_eq {bs : Nat} (hbs : SmallBlocks bs) (dentries : List Dentry)
    (hnames : NamesFit dentries) (off : Nat) :
    dentrySizeLoop bs (u32 off) dentries = u32 (endOf bs off dentries) := by
  induction dentries generalizing off with
  | nil => rfl
  | cons d rest ih =>
    obtain ⟨-, hmax, -⟩ := dentryLen_bounds (hnames d (by simp))
    have hge := hbs.ge
    have hle := hbs.le
    have hmod : u32 off % bs = off % bs := Nat.mod_mod_of_dvd off hbs.dvd
    have hlt := Nat.mod_lt off (show 0 < bs by omega)
    have hn : u32 (dentryLen d.filename.length) = dentryLen d.filename.length :=
      u32_of_lt (by omega)
    have hsum : u32 (off % bs + dentryLen d.filename.length) =
        off % bs + dentryLen d.filename.length := u32_of_lt (by omega)
    rw [dentrySizeLoop, endOf, ← ih fun x hx => hnames x (by simp [hx])]
    have hroom : room bs off = bs - off % bs := rfl
    simp only [hn, hmod, hsum]
    congr 1
    by_cases hfits : dentryLen d.filename.length ≤ room bs off
    · rw [if_neg (by omega), placeOf, if_pos hfits]
      simp only [u32]
      omega
    · rw [if_pos (by omega), placeOf, if_neg hfits, hroom]
      simp only [u32]
      omega

def DirectoryDecodes (info : FsInfo) (inodeNum dirInodeNum : Nat) (dentries : List Dentry)
    (l : List Ext4Error) : Prop :=
  ∃ data inodes, fillDirectory info (directoryLen info dentries) inodeNum dirInodeNum dentries
      (Buffer.zeros (directoryLen info dentries), l) =
      .ok ((dentrySize info dentries, inodes), (data, l)) ∧
    data.size = directoryLen info dentries ∧
    readDirectory info.blockSize.val data = some (directoryEntries dentries)

def directoryBytes (info : FsInfo) (dentries : List Dentry) : Nat :=
  divRoundUp (endOf info.blockSize.val 24 dentries) info.blockSize.val * info.blockSize.val

theorem directoryLen_eq (hbs : SmallBlocks info.blockSize.val) {dentries : List Dentry}
    (hnames : NamesFit dentries) (h : directoryBytes info dentries < 4294967296) :
    dentrySize info dentries = endOf info.blockSize.val 24 dentries ∧
      directoryLen info dentries = directoryBytes info dentries := by
  have hge := hbs.ge
  have hle := le_divRoundUp_mul (endOf info.blockSize.val 24 dentries)
    (show 0 < info.blockSize.val by omega)
  have htop := add_le_of_dvd (Nat.dvd_mul_left info.blockSize.val _) hbs.dvd h
  have hsize : dentrySize info dentries = endOf info.blockSize.val 24 dentries := by
    have hloop := dentrySizeLoop_eq hbs dentries hnames 24
    rw [u32_of_lt (by decide)] at hloop
    rw [dentrySize, hloop, u32_of_lt (by omega)]
  refine ⟨hsize, ?_⟩
  rw [directoryLen, hsize, divRoundUp32_eq (by omega)]
  exact u32_of_lt h

theorem directoryDecodes_of_lt (hbs : SmallBlocks info.blockSize.val)
    (inodeNum dirInodeNum : Nat) {dentries : List Dentry} (hnames : NamesFit dentries)
    (h : directoryBytes info dentries < 4294967296) :
    DirectoryDecodes info inodeNum dirInodeNum dentries l := by
  obtain ⟨hsize, hlen⟩ := directoryLen_eq hbs hnames h
  obtain ⟨data, inodes, hrun, hdata, hread⟩ := fillDirectory_run (l := l)
    hbs inodeNum dirInodeNum dentries hnames h
    (show (Buffer.zeros (directoryLen info dentries)).size = directoryBytes info dentries from hlen)
  rw [Buffer.size_zeros] at hrun hdata
  exact ⟨data, inodes, hsize ▸ hrun, hdata, hread⟩

theorem fillDirectory_meets (hbs : SmallBlocks info.blockSize.val) (inodeNum dirInodeNum : Nat)
    {len : Nat} (hdvd : info.blockSize.val ∣ len) (hlen : len < 4294967296)
    (dentries : List Dentry) (hnames : NamesFit dentries) {data : Buffer} (hdata : data.size = len) :
    Run.Meets (fun _ => False) (fillDirectory info len inodeNum dirInodeNum dentries)
      (fun _ _ _ => endOf info.blockSize.val 24 dentries ≤ len) data l := by
  have hge := hbs.ge
  have hpos : 0 < info.blockSize.val := by omega
  have hplace {off : Nat} (h : off + 12 ≤ info.blockSize.val) :
      placeOf info.blockSize.val off 12 = off := by
    rw [placeOf, if_pos]
    rw [room, Nat.mod_eq_of_lt (by omega)]
    omega
  have hdot : dentryLen ([46] : List UInt8).length = 12 := by decide
  have hdotdot : dentryLen ([46, 46] : List UInt8).length = 12 := by decide
  have hstart : 0 = len ∨ 0 + room info.blockSize.val 0 ≤ len := by
    rcases Nat.eq_zero_or_pos len with hz | hlt
    · exact Or.inl hz.symm
    · exact Or.inr (room_of_lt hpos hdvd hlt)
  rw [fillDirectory, Run.meets_bind]
  refine (addDentry_meets hbs none inodeNum ext4FtDir
    (show NameFits [46] from ⟨by decide, by decide⟩) hdvd hlen (Nat.zero_le _) hstart).mono ?_
  rintro ⟨dot, off1⟩ d1 l1 ⟨h1, hsize, hs1⟩
  simp only [hdot, hplace (show 0 + 12 ≤ info.blockSize.val by omega), Nat.zero_add] at h1
  subst h1
  have hmany : info.blockSize.val ≤ len := Nat.le_of_dvd (by omega) hdvd
  dsimp only
  rw [Run.meets_bind]
  refine (addDentry_meets hbs (some dot) dirInodeNum ext4FtDir
    (show NameFits [46, 46] from ⟨by decide, by decide⟩) hdvd hlen (show 12 ≤ len by omega)
    (Or.inr (room_of_lt hpos hdvd (by omega)))).mono ?_
  rintro ⟨dotdot, off2⟩ d2 l2 ⟨h2, -, -⟩
  simp only [hdotdot, hplace (show 12 + 12 ≤ info.blockSize.val by omega)] at h2
  subst h2
  dsimp only
  rw [Run.meets_bind]
  refine (addEntries_meets hbs hdvd hlen dentries hnames dotdot (by omega)
    (fun _ => by omega)).mono ?_
  rintro ⟨off3, last, inodes⟩ d3 l3 h3
  simp only [growDentry, Run.meets_bind, Run.meets_read, pokeAt_meets, Run.meets_pure]
  exact fun _ => h3

end Sizes

end MakeExt4fs

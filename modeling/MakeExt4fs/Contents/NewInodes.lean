import MakeExt4fs.Allocate.InodeRuns
import MakeExt4fs.Contents.MakesInodes

namespace MakeExt4fs

open ErrorLog Words

def InSlot (info : FsInfo) (n bg i : Nat) : Prop :=
  bg = (inodeRef info n).bg ∧ (inodeRef info n).off ≤ i ∧
    i < (inodeRef info n).off + info.inodeSize.val

def OffSlots (info : FsInfo) (S : Nat → Prop) (bg i : Nat) : Prop :=
  ∀ n, S n → ¬ InSlot info n bg i

def Beside (r : InodeRef) (spans : Stretches) (bg i : Nat) : Prop :=
  bg = r.bg → ∀ s ∈ spans, r.off + s.1 ≤ i → r.off + s.2 ≤ i

def Names (P : Nat → Nat → Prop) (r : InodeRef) (spans : Stretches) : Prop :=
  ∀ s ∈ spans, ∀ i, r.off + s.1 ≤ i → i < r.off + s.2 → P r.bg i

structure Roomy (info : FsInfo) (L : Layout) : Prop extends InodesFit info L.groups where
  positive : L.Positive
  special : 10 ≤ info.inodesPerGroup.val
  record : 128 ≤ info.inodeSize.val

def FsInfo.capacity (info : FsInfo) (L : Layout) : Nat := info.inodesPerGroup.val * L.groups

def Blank (info : FsInfo) (n : Nat) (fs : Fs) : Prop :=
  ∀ bg i, InSlot info n bg i → (fs.aux.table bg).get i = 0

structure Standing (L : Layout) (info : FsInfo) (k : Nat) (fs : Fs) : Prop where
  keeps : L.Keeps fs.aux
  known : fs.Known
  numbered : InodesNumbered info k fs.aux
  blank : ∀ n, k < n → n ≤ info.capacity L → Blank info n fs

section Slots

variable {L : Layout} {info : FsInfo} {m n bg i : Nat} {r : InodeRef} {spans : Stretches}
  {P : Nat → Nat → Prop} {D : Nat → Prop} {fs fs' : Fs}

theorem apartFrom_beside : ApartFrom (Beside r spans) r spans :=
  fun s hs _ h1 h2 => h1 rfl s hs h2

theorem Roomy.slot_of (h : Roomy info L) (h1 : 1 ≤ m) (hm : m ≤ info.capacity L) (hn1 : 1 ≤ n)
    (hn : n ≤ info.capacity L) (him : InSlot info m bg i) (hin : InSlot info n bg i) : m = n := by
  by_contra hne
  have hnumbers := h.numbers
  have hspecial := h.special
  have htables := h.tables
  unfold ext4AllocateFailed at hnumbers
  unfold FsInfo.capacity at hm hn
  obtain ⟨rfl, hm1, hm2⟩ := him
  obtain ⟨hbg, hn1, hn2⟩ := hin
  obtain hgroup | hslot | hslot := @slotsApart_of_ne info m n (by omega) (by omega) h1 (by omega)
    (by omega) (by omega) hne
  · exact hgroup hbg
  · omega
  · omega

theorem beside_within {others : Stretches} (h : ∀ s ∈ spans, ∃ t ∈ others, t.1 ≤ s.1 ∧ s.2 ≤ t.2)
    (hi : Beside r others bg i) : Beside r spans bg i := by
  intro hbg s hs h1
  obtain ⟨t, ht, h2, h3⟩ := h s hs
  have := hi hbg t ht (by omega)
  omega

theorem Contained.within {others : Stretches} (h : Contained L (Beside r spans) D fs fs')
    (hs : ∀ s ∈ spans, ∃ t ∈ others, t.1 ≤ s.1 ∧ s.2 ≤ t.2) :
    Contained L (Beside r others) D fs fs' :=
  ⟨h.toLeavesAlone.mono (fun _ _ => beside_within hs) fun _ => id, h.keeps, h.same, h.inodes⟩

theorem besides_of_offSlots (hspans : ∀ s ∈ spans, s.2 ≤ info.inodeSize.val)
    (h : OffSlots info (· = n) bg i) : Beside (inodeRef info n) spans bg i := by
  intro hbg s hs hge
  have hout := h n rfl
  have hle := hspans s hs
  by_contra hlt
  exact hout ⟨hbg, by omega, by omega⟩

theorem LeavesAlone.slot (hspans : ∀ s ∈ spans, s.2 ≤ info.inodeSize.val)
    (h : LeavesAlone (Beside (inodeRef info n) spans) D fs fs') :
    LeavesAlone (OffSlots info (· = n)) D fs fs' :=
  h.mono (fun _ _ => besides_of_offSlots hspans) fun _ => id

theorem LeavesAlone.grow {S S' : Nat → Prop} (h : LeavesAlone (OffSlots info S) D fs fs')
    (hS : ∀ n, S n → S' n) : LeavesAlone (OffSlots info S') D fs fs' :=
  h.mono (fun _ _ hi n hn => hi n (hS n hn)) fun _ => id

theorem LeavesAlone.blank {S : Nat → Prop} (h : LeavesAlone (OffSlots info S) D fs fs')
    (hr : Roomy info L) (hS : ∀ m, S m → 1 ≤ m ∧ m ≤ info.capacity L) (hn : ¬ S n) (h1 : 1 ≤ n)
    (hle : n ≤ info.capacity L) (hblank : Blank info n fs) : Blank info n fs' := by
  intro bg i hi
  rw [h.bytes bg i ?_]
  · exact hblank bg i hi
  · intro m hm him
    obtain rfl := hr.slot_of (hS m hm).1 (hS m hm).2 h1 hle him hi
    exact hn hm

theorem LeavesAlone.field (h : LeavesAlone P D fs fs') (hP : Names P r spans) {f : Field}
    (hf : f.Within spans) : fs'.field r f = fs.field r f := by
  obtain ⟨s, hs, h1, h2⟩ := hf
  apply h.bytes.field
  rintro bg i ⟨rfl, h3, h4⟩
  exact hP s hs i (by omega) (by omega)

def Distinct (spans others : Stretches) : Prop :=
  ∀ s ∈ spans, ∀ t ∈ others, s.2 ≤ t.1 ∨ t.2 ≤ s.1

instance (spans others : Stretches) : Decidable (Distinct spans others) :=
  inferInstanceAs (Decidable (∀ s ∈ spans, ∀ t ∈ others, _))

theorem names_beside {others : Stretches} (h : Distinct spans others) :
    Names (Beside r others) r spans := by
  intro s hs i h1 h2 _ t ht h3
  have := h s hs t ht
  omega

theorem LeavesAlone.aside (h : LeavesAlone (Beside r spans) D fs fs') {f : Field}
    (hf : ∀ s ∈ spans, f.off + f.size ≤ s.1 ∨ s.2 ≤ f.off) : fs'.field r f = fs.field r f := by
  have hnames : Names (Beside r spans) r [(f.off, f.off + f.size)] := by
    apply names_beside
    intro s hs t ht
    rw [List.mem_singleton.mp hs]
    exact hf t ht
  exact h.field hnames ⟨_, List.mem_singleton_self _, le_rfl, le_rfl⟩

theorem names_offSlots {S : Nat → Prop} (hr : Roomy info L)
    (hS : ∀ m, S m → 1 ≤ m ∧ m ≤ info.capacity L) (hn : ¬ S n) (h1 : 1 ≤ n)
    (hle : n ≤ info.capacity L) (hspans : ∀ s ∈ spans, s.2 ≤ info.inodeSize.val) :
    Names (OffSlots info S) (inodeRef info n) spans := by
  intro s hs i hi1 hi2 m hm him
  have hend := hspans s hs
  obtain rfl := hr.slot_of (hS m hm).1 (hS m hm).2 h1 hle him ⟨rfl, by omega, by omega⟩
  exact hn hm

end Slots

section Counting

variable {L : Layout} {info : FsInfo} {P : Nat → Nat → Prop} {D : Nat → Prop} {ds ds' : List Nat}
  {fs fs' fs'' : Fs}

def Fs.usedDirs (fs : Fs) (g : Nat) : Nat := (fs.aux.bgs[g]?.map BlockGroupInfo.usedDirs).getD 0

def inGroup (info : FsInfo) (g : Nat) (ns : List Nat) : Nat :=
  ns.countP fun n => (inodeRef info n).bg = g

structure CountsDirs (info : FsInfo) (ds : List Nat) (fs fs' : Fs) : Prop where
  dirs : ∀ g, fs'.usedDirs g ≡ fs.usedDirs g + inGroup info g ds [MOD 65536]
  same : OnGroups fs fs'

theorem usedDirs_setBg {i : Nat} {b b' : BlockGroupInfo} (hb : fs.aux.bgs[i]? = some b) (g : Nat) :
    ({ fs with aux := fs.aux.setBg i b' } : Fs).usedDirs g =
      if i = g then b'.usedDirs else fs.usedDirs g := by
  have hlt := (List.getElem?_eq_some_iff.mp hb).1
  rw [Fs.usedDirs, FsAuxInfo.setBg_bgs, List.getElem?_set]
  by_cases hg : i = g
  · rw [if_pos hg, if_pos hlt, if_pos hg]
    rfl
  · rw [if_neg hg, if_neg hg]
    rfl

theorem countsDirs_nil (h : ∀ g, fs'.usedDirs g = fs.usedDirs g) (hsame : OnGroups fs fs') :
    CountsDirs info [] fs fs' := by
  refine ⟨fun g => ?_, hsame⟩
  rw [h g]
  rfl

theorem CountsDirs.trans (h : CountsDirs info ds fs fs') (h' : CountsDirs info ds' fs' fs'') :
    CountsDirs info (ds ++ ds') fs fs'' := by
  refine ⟨fun g => ?_, trans_of OnGroups h.same h'.same⟩
  rw [inGroup, List.countP_append, ← Nat.add_assoc]
  exact (h'.dirs g).trans ((h.dirs g).add_right _)

theorem Contained.usedDirs (h : Contained L P D fs fs') (g : Nat) :
    fs'.usedDirs g = fs.usedDirs g := by
  have hget := congrArg (fun l => (l[g]?).map fun x => x.2.2.2) h.inodes
  simp only [List.getElem?_map, Option.map_map] at hget
  exact congrArg (fun o => o.getD 0) hget

theorem Contained.counts (h : Contained L P D fs fs') : CountsDirs info [] fs fs' :=
  countsDirs_nil h.usedDirs h.same

end Counting

section Adding

variable {L : Layout} {info : FsInfo} {k m m' n : Nat} {D : Nat → Prop} {ds ds' : List Nat}
  {fs fs' fs'' : Fs} {spans : Stretches} {f : Field}

structure Added (L : Layout) (info : FsInfo) (D : Nat → Prop) (k m : Nat) (ds : List Nat)
    (fs fs' : Fs) : Prop where
  standing : Standing L info (k + m) fs'
  alone : LeavesAlone (OffSlots info fun n => k < n ∧ n ≤ k + m) D fs fs'
  room : k + m ≤ info.capacity L
  counts : CountsDirs info ds fs fs'

theorem Added.trans (h : Added L info D k m ds fs fs') (h' : Added L info D (k + m) m' ds' fs' fs'') :
    Added L info D k (m + m') (ds ++ ds') fs fs'' := by
  refine ⟨?_, trans_of (LeavesAlone _ D) (h.alone.grow ?_) (h'.alone.grow ?_), ?_,
    h.counts.trans h'.counts⟩
  · rw [← Nat.add_assoc]
    exact h'.standing
  · rintro n ⟨h1, h2⟩
    exact ⟨h1, by omega⟩
  · rintro n ⟨h1, h2⟩
    exact ⟨by omega, by omega⟩
  · rw [← Nat.add_assoc]
    exact h'.room

theorem Added.names (h : Added L info D k m ds fs fs') (hr : Roomy info L) (h1 : 1 ≤ n) (hn : n ≤ k)
    (hspans : ∀ s ∈ spans, s.2 ≤ info.inodeSize.val) :
    Names (OffSlots info fun n => k < n ∧ n ≤ k + m) (inodeRef info n) spans := by
  have hroom := h.room
  apply names_offSlots hr _ _ h1 (by omega) hspans
  · rintro j ⟨h2, h3⟩
    exact ⟨by omega, by omega⟩
  · rintro ⟨h2, -⟩
    omega

theorem Blank.field (h : Blank info n fs) (hf : f.off + f.size ≤ info.inodeSize.val) :
    fs.field (inodeRef info n) f = 0 := by
  rw [← Buffer.getLE_zeros 0 ((inodeRef info n).off + f.off) f.size]
  apply Buffer.getLE_congr
  intro i h1 h2
  rw [Buffer.get_zeros]
  exact h _ i ⟨rfl, by omega, by omega⟩

end Adding

section Settling

variable {L : Layout} {info : FsInfo} {force : Bool} {k n : Nat} {fs fs' : Fs}
  {l l' : List Ext4Error}

theorem Standing.fills {spans : Stretches} {D : Nat → Prop} (hs : Standing L info k fs)
    (hr : Roomy info L) (h : Contained L (Beside (inodeRef info n) spans) D fs fs')
    (hspans : ∀ s ∈ spans, s.2 ≤ info.inodeSize.val) (h1 : 1 ≤ n) (hn : n ≤ k) :
    Standing L info k fs' := by
  refine ⟨h.keeps, h.known hs.known, h.numbered hs.numbered, ?_⟩
  intro m hm hle
  refine (h.toLeavesAlone.slot hspans).blank hr ?_ ?_ (by omega) hle (hs.blank m hm hle)
  · rintro m rfl
    omega
  · show m ≠ n
    omega

structure Opens (info : FsInfo) (fs fs' : Fs) : Prop where
  alone : ∀ P D, LeavesAlone P D fs fs'
  counts : CountsDirs info [] fs fs'

theorem Opens.trans {fs'' : Fs} (h : Opens info fs fs') (h' : Opens info fs' fs'') :
    Opens info fs fs'' :=
  ⟨fun P D => trans_of (LeavesAlone P D) (h.alone P D) (h'.alone P D), h.counts.trans h'.counts⟩

theorem Standing.added {spans : Stretches} {D : Nat → Prop} {fs1 : Fs}
    (hs : Standing L info (k + 1) fs1) (hr : Roomy info L) (hk : k < info.capacity L)
    (hopens : Opens info fs fs1)
    (h : Contained L (Beside (inodeRef info (k + 1)) spans) D fs1 fs')
    (hspans : ∀ s ∈ spans, s.2 ≤ info.inodeSize.val) : Added L info D k 1 [] fs fs' := by
  refine ⟨hs.fills hr h hspans (by omega) le_rfl, ?_, hk, hopens.counts.trans h.counts⟩
  refine (trans_of (LeavesAlone _ D) (hopens.alone _ _) (h.toLeavesAlone.slot hspans)).grow ?_
  rintro n rfl
  exact ⟨Nat.lt_succ_self k, le_rfl⟩

theorem raise_not_quiet {σ : Type} {e : Ext4Error} {a : Unit} {s s' : σ} :
    Run.raise force e (s, l) ≠ .ok (a, (s', [])) := by
  intro h
  cases force with
  | false => cases h
  | true =>
    simp only [Run.raise, if_true, Except.ok.injEq, Prod.mk.injEq] at h
    simp at h

theorem Layout.Group.usedDirs {i : Nat} {b : BlockGroupInfo} (h : L.Group i b) (n : Nat) :
    L.Group i { b with usedDirs := n } :=
  ⟨h.first, h.header, h.sound.bits, h.sound.free, h.sound.hdr_le, h.sound.lim_le, h.sound.first_le⟩

theorem Layout.Group.giveInodes {i : Nat} {b : BlockGroupInfo} (h : L.Group i b) (num : Nat) :
    L.Group i (b.giveInodes num) :=
  ⟨h.first, h.header, h.sound.bits, h.sound.free, h.sound.hdr_le, h.sound.lim_le, h.sound.first_le⟩

theorem InodesNumbered.setBg {aux : FsAuxInfo} {i : Nat} {b b' : BlockGroupInfo}
    (h : InodesNumbered info k aux) (hb : aux.bgs[i]? = some b)
    (hfree : b'.freeInodes = b.freeInodes) (hfirst : b'.firstFreeInode = b.firstFreeInode)
    (hbits : b'.inodeBitmap = b.inodeBitmap) : InodesNumbered info k (aux.setBg i b') := by
  refine ⟨by rw [FsAuxInfo.setBg_bgs, List.length_set]; exact h.length, ?_⟩
  intro g c hc
  rw [FsAuxInfo.setBg_bgs, List.getElem?_set] at hc
  split at hc
  · rename_i hg
    subst hg
    split at hc
    · cases hc
      have htaken := h.taken i b hb
      exact ⟨hfree.trans htaken.free, fun hlt => hfirst.trans (htaken.first hlt),
        hbits ▸ htaken.bits⟩
    · cases hc
  · exact h.taken g c hc

theorem Standing.give (hs : Standing L info k fs) (hr : Roomy info L)
    (hk : k < info.capacity L) :
    Standing L info (k + 1) { fs with aux := fs.aux.giveInode info k } ∧
      (∀ bg, (fs.aux.giveInode info k).table bg = fs.aux.table bg) ∧
        CountsDirs info [] fs { fs with aux := fs.aux.giveInode info k } := by
  have hpos : 0 < info.inodesPerGroup.val := by
    have := hr.special
    omega
  have hroom : k < info.inodesPerGroup.val * fs.aux.groups := by
    rw [hs.keeps.groups]
    exact hk
  obtain ⟨b, hb⟩ := hs.numbered.group hroom
  have hgive : fs.aux.giveInode info k =
      fs.aux.setBg (k / info.inodesPerGroup.val) (b.giveInodes 1) := by
    rw [FsAuxInfo.giveInode, hb]
  have htable : ∀ bg, (fs.aux.giveInode info k).table bg = fs.aux.table bg := by
    intro bg
    rw [hgive]
    exact @table_setBg fs.aux _ b (b.giveInodes 1) hb rfl bg
  refine ⟨⟨?_, ?_, hs.numbered.give hpos hroom, ?_⟩, htable, countsDirs_nil (fun g => ?_) ?_⟩
  rotate_left 3
  · rw [hgive, usedDirs_setBg hb]
    split
    · rename_i hg
      rw [← hg, Fs.usedDirs, hb]
      rfl
    · rfl
  · rw [hgive]
    rfl
  · change L.Keeps (fs.aux.giveInode info k)
    rw [hgive]
    exact hs.keeps.setBg ((hs.keeps.group hb).giveInodes 1)
  · intro e he
    rw [show (fs.aux.giveInode info k).xattrs = fs.aux.xattrs by rw [hgive]; rfl] at he
    exact hs.known e he
  · intro n hn hle bg i hi
    change ((fs.aux.giveInode info k).table bg).get i = 0
    rw [htable]
    exact hs.blank n (by omega) hle bg i hi

theorem allocateInode_standing (hs : Standing L info k fs) (hr : Roomy info L)
    (h : onAux (allocateInode info) (fs, l) = .ok (n, (fs', l'))) :
    n = ext4AllocateFailed ∧ info.capacity L ≤ k ∨
      n = k + 1 ∧ k < info.capacity L ∧ l' = l ∧ Standing L info (k + 1) fs' ∧
        Opens info fs fs' ∧ Blank info (k + 1) fs' := by
  have hpos : 0 < info.inodesPerGroup.val := by
    have := hr.special
    omega
  have hgroups : info.inodesPerGroup.val * fs.aux.groups = info.capacity L := by
    rw [hs.keeps.groups, FsInfo.capacity]
  have hnumbers := hr.numbers
  obtain ⟨aux, hrun, rfl⟩ := onAux_ok.mp h
  by_cases hk : k < info.capacity L
  · have hone := @allocateInode_run info k fs.aux l hs.numbered hpos (by omega)
      (by unfold FsInfo.capacity at hk; omega)
    rw [hone] at hrun
    cases hrun
    obtain ⟨hnext, htable, hcounts⟩ := hs.give hr hk
    have hsame : (fs.aux.giveInode info k).xattrs = fs.aux.xattrs := by
      rw [(giveInode_inodesOnly info k fs.aux).same]
    refine Or.inr ⟨rfl, hk, rfl, hnext, ⟨fun P D => ⟨?_, ?_, le_rfl, List.prefix_refl _,
      fun hx e he => hx e (hsame ▸ he)⟩, hcounts⟩, ?_⟩
    · exact fun bg i _ => congrArg (fun t => t.get i) (htable bg)
    · exact fun id hid _ => ⟨⟨hid.1, fun e he => hid.2 e (hsame ▸ he)⟩, rfl⟩
    · intro bg i hi
      change ((fs.aux.giveInode info k).table bg).get i = 0
      rw [htable]
      exact hs.blank (k + 1) (Nat.lt_succ_self k) hk bg i hi
  · rw [allocateInode_full hs.numbered (by omega)] at hrun
    cases hrun
    exact Or.inl ⟨rfl, by omega⟩

theorem Standing.opened {r : InodeRef} (hs : Standing L info k fs)
    (h : getInode info n (fs, l) = .ok (r, (fs', l'))) :
    r = inodeRef info n ∧ l' = l ∧ Standing L info k fs' ∧ Opens info fs fs' ∧
      ∀ m, Blank info m fs → Blank info m fs' := by
  obtain ⟨rfl, rfl, -⟩ := getInode_ok h
  obtain ⟨hopen, -⟩ := getInode_fills (L := L) (P := fun _ _ => True) (D := fun _ => False) info n
    _ _ _ _ _ h
  have hopened := hopen hs.keeps
  have hsame (bg i : Nat) : (fs'.aux.table bg).get i = (fs.aux.table bg).get i :=
    hopened.bytes bg i trivial
  have hblank (m : Nat) (hm : Blank info m fs) : Blank info m fs' := by
    intro bg i hi
    rw [hsame]
    exact hm bg i hi
  refine ⟨rfl, rfl, ⟨hopened.keeps, hopened.known hs.known, hopened.numbered hs.numbered,
    fun m hm hle => hblank m (hs.blank m hm hle)⟩, ⟨fun P D => ?_, hopened.counts⟩, hblank⟩
  exact hopened.toLeavesAlone.mono (fun _ _ _ => trivial) fun _ h => h.elim

theorem Standing.next {r : InodeRef} {fs1 : Fs} {l1 : List Ext4Error} (hs : Standing L info k fs)
    (hr : Roomy info L) (halloc : onAux (allocateInode info) (fs, l) = .ok (n, (fs1, l1)))
    (hn : n ≠ ext4AllocateFailed) (hget : getInode info n (fs1, l1) = .ok (r, (fs', l'))) :
    n = k + 1 ∧ k < info.capacity L ∧ r = inodeRef info (k + 1) ∧ l' = l ∧
      Standing L info (k + 1) fs' ∧ Opens info fs fs' ∧ Blank info (k + 1) fs' := by
  obtain ⟨rfl, -⟩ | ⟨rfl, hk, rfl, hstand, hopens, hblank⟩ := allocateInode_standing hs hr halloc
  · exact absurd rfl hn
  · obtain ⟨rfl, rfl, hopened, hsame, hstill⟩ := hstand.opened hget
    exact ⟨rfl, hk, rfl, rfl, hopened, hopens.trans hsame, hstill _ hblank⟩

theorem newInode_quiet {fill : InodeRef → Build Unit} (hs : Standing L info k fs) (hr : Roomy info L)
    (h : newInode info force fill (fs, []) = .ok (n, (fs', []))) :
    n = k + 1 ∧ k < info.capacity L ∧ ∃ fs1, Standing L info (k + 1) fs1 ∧ Opens info fs fs1 ∧
      Blank info (k + 1) fs1 ∧ fill (inodeRef info (k + 1)) (fs1, []) = .ok ((), (fs', [])) := by
  obtain ⟨inodeNum, ⟨fs1, l1⟩, halloc, h1⟩ := Run.bind_ok.mp h
  split at h1
  · obtain ⟨_, ⟨fs2, l2⟩, hraise, hend⟩ := Run.bind_ok.mp h1
    cases hend
    exact absurd hraise raise_not_quiet
  · rename_i hne
    obtain ⟨r, ⟨fs2, l2⟩, hget, h2⟩ := Run.bind_ok.mp h1
    obtain ⟨rfl, hk, rfl, rfl, hstand, hopens, hblank⟩ := hs.next hr halloc hne hget
    obtain ⟨⟨⟩, ⟨fs3, l3⟩, hrun, hend⟩ := Run.bind_ok.mp h2
    cases hend
    exact ⟨rfl, hk, fs2, hstand, hopens, hblank, hrun⟩

theorem addDirectory_standing (hs : Standing L info k fs)
    (h : onAux (addDirectory info n) (fs, l) = .ok ((), (fs', l'))) :
    l' = l ∧ Standing L info k fs' ∧ (∀ P D, LeavesAlone P D fs fs') ∧
      CountsDirs info [n] fs fs' := by
  obtain ⟨aux, hrun, rfl⟩ := onAux_ok.mp h
  unfold addDirectory at hrun
  split at hrun
  · cases hrun
  · unfold onGroup Run.zoom at hrun
    cases hb : fs.aux.bgs[sub32 n 1 / info.inodesPerGroup.val]? with
    | none => simp [hb] at hrun
    | some b =>
      simp only [hb, Run.update_run, Except.ok.injEq, Prod.mk.injEq] at hrun
      obtain ⟨-, rfl, rfl⟩ := hrun
      have htable := @table_setBg fs.aux _ b { b with usedDirs := u16 (b.usedDirs + 1) } hb rfl
      refine ⟨rfl, ⟨hs.keeps.setBg (Layout.Group.usedDirs (hs.keeps.group hb) _), hs.known,
        hs.numbered.setBg hb rfl rfl rfl, ?_⟩, fun P D => ⟨?_, fun id hid _ => ⟨hid, rfl⟩, le_rfl,
          List.prefix_refl _, id⟩, fun g => ?_, rfl⟩
      · intro m hm hle bg i hi
        rw [htable]
        exact hs.blank m hm hle bg i hi
      · exact fun bg i _ => congrArg (fun t => t.get i) (htable bg)
      · rw [usedDirs_setBg hb, inGroup, List.countP_singleton]
        by_cases hg : sub32 n 1 / info.inodesPerGroup.val = g
        · subst hg
          rw [if_pos rfl, if_pos (by simp [inodeRef]), Fs.usedDirs, hb]
          exact Nat.mod_modEq _ _
        · rw [if_neg hg, if_neg (by rw [decide_eq_true_eq]; exact hg)]
          rfl

end Settling

end MakeExt4fs

import MakeExt4fs.Fixup.Restart
import MakeExt4fs.Fixup.SanityPass
import MakeExt4fs.Fixup.Writes
import MakeExt4fs.Utils.Crc16

namespace MakeExt4fs

open ErrorLog Interrupt Words

def bgChecksum (i : Nat) : Field := ⟨32 * i + 30, 2⟩

-- The formula of ext4_update_free, for the bytes of descriptor i in a table.
def descChecksum (uuid : List UInt8) (table : Buffer) (i : Nat) : Nat :=
  ext4Crc16 (ext4Crc16 (ext4Crc16 65535 uuid) (Buffer.leBytes 4 i)) (table.slice (32 * i) 30)

def DescValid (uuid : List UInt8) (table : Buffer) (i : Nat) : Prop :=
  (bgChecksum i).get table = descChecksum uuid table i

structure Bumped (added k : Nat) (old new : Buffer) : Prop where
  size : new.size = old.size
  counts : ∀ i < k, (bgFreeInodesCount i).get new = u16 ((bgFreeInodesCount i).get old + added)
  others : ∀ x, (∀ i < k, x < 32 * i + 14 ∨ 32 * i + 16 ≤ x) → new.get x = old.get x

section Descs

variable {uuid : List UInt8} {table b c : Buffer} {added i k : Nat}

theorem slice_add (b : Buffer) (off n m : Nat) :
    b.slice off (n + m) = b.slice off n ++ b.slice (off + n) m := by
  simp only [Buffer.slice, List.range_add, List.map_append, List.map_map]
  congr 1
  apply List.map_congr_left
  intro j _
  simp [Nat.add_assoc]

theorem descBytes_eq (b : Buffer) (i : Nat) : b.slice (32 * i) 30 =
    b.slice (32 * i) 14 ++ [UInt8.ofNat (b.get (32 * i + 14)), UInt8.ofNat (b.get (32 * i + 15))] ++
      b.slice (32 * i + 16) 14 := by
  have hpair : b.slice (32 * i + 14) 2 =
      [UInt8.ofNat (b.get (32 * i + 14)), UInt8.ofNat (b.get (32 * i + 15))] := rfl
  rw [slice_add b (32 * i) 16 14, slice_add b (32 * i) 14 2, hpair]

theorem ofNat_get_inj {m n : Nat} :
    UInt8.ofNat (b.get m) = UInt8.ofNat (c.get n) ↔ b.get m = c.get n := by
  refine ⟨fun h => ?_, fun h => by rw [h]⟩
  rw [← Buffer.toNat_ofNat_get, h, Buffer.toNat_ofNat_get]

theorem descValid_view {len : Nat} (h : 32 * i + 32 ≤ len) :
    DescValid uuid (b.view 0 len) i ↔ DescValid uuid b i := by
  have hfield : (bgChecksum i).get (b.view 0 len) = (bgChecksum i).get b := by
    rw [Field.get, Buffer.getLE_view (by simp only [bgChecksum]; omega), Nat.zero_add]
    rfl
  have hslice : (b.view 0 len).slice (32 * i) 30 = b.slice (32 * i) 30 :=
    Buffer.slice_congr fun j _ hj => by rw [Buffer.get_view (by omega), Nat.zero_add]
  rw [DescValid, DescValid, descChecksum, descChecksum, hfield, hslice]

theorem Bumped.descValid_iff (h : Bumped added k b c) (hold : DescValid uuid b i) :
    DescValid uuid c i ↔ u16 added = 0 ∨ k ≤ i := by
  have hother (x : Nat) (h1 : 32 * i ≤ x) (h2 : x < 32 * i + 32) (h3 : x < 32 * i + 14 ∨ 32 * i + 16 ≤ x) :
      c.get x = b.get x := h.others x fun j _ => by omega
  have hfield : (bgChecksum i).get c = (bgChecksum i).get b :=
    Buffer.getLE_congr fun x h1 h2 => by
      simp only [bgChecksum] at h1 h2
      exact hother x (by omega) (by omega) (by omega)
  have hfront : c.slice (32 * i) 14 = b.slice (32 * i) 14 :=
    Buffer.slice_congr fun x h1 h2 => hother x h1 (by omega) (by omega)
  have hback : c.slice (32 * i + 16) 14 = b.slice (32 * i + 16) 14 :=
    Buffer.slice_congr fun x h1 h2 => hother x (by omega) (by omega) (by omega)
  have hcrc : ext4Crc16 (ext4Crc16 65535 uuid) (Buffer.leBytes 4 i) < 65536 :=
    ext4Crc16_lt _ (ext4Crc16_lt _ (by decide))
  have hcount (d : Buffer) : (bgFreeInodesCount i).get d =
      d.get (32 * i + 14) + 256 * (d.get (32 * i + 15) + 256 * 0) := rfl
  have hb1 := b.get_lt (32 * i + 14)
  have hb2 := b.get_lt (32 * i + 15)
  have hc1 := c.get_lt (32 * i + 14)
  have hc2 := c.get_lt (32 * i + 15)
  rw [DescValid, hfield, hold, descChecksum, descChecksum, descBytes_eq b, descBytes_eq c, hfront, hback,
    ext4Crc16_change _ _ hcrc, ofNat_get_inj, ofNat_get_inj]
  rcases Nat.lt_or_ge i k with hi | hi
  · have hbumped := h.counts i hi
    rw [hcount, hcount] at hbumped
    simp only [u16] at hbumped ⊢
    omega
  · have hsame := h.others (32 * i + 14) fun j hj => by omega
    have hsame' := h.others (32 * i + 15) fun j hj => by omega
    simp [hsame, hsame', hi]

end Descs

section Phase

variable {v : Volume} {m : Machine} {newInodesPerGroup added k : Nat} {b0 : Buffer}

abbrev KeepsDescs {α : Type} (act : Fixup α) : Prop := KeepsPart Prod.snd act

theorem writeHere_keepsDescs (e : FixupError) (src : Buffer) : KeepsDescs (writeHere e src) :=
  ((call_reads e).map Prod.snd).bind fun _ => Act.keeps_update fun _ => rfl

theorem writeBlock_keepsDescs (v : Volume) (noWrite : Bool) (blockNum : Nat) (block : Buffer) :
    KeepsDescs (writeBlock v noWrite blockNum block) :=
  .ite (fun _ => Act.keeps_pure ()) fun _ =>
    ((lseekOr_reads _ _).map Prod.snd).bind fun _ => writeHere_keepsDescs _ _

theorem setFsFixupState_keepsDescs (state : FixupState) :
    KeepsDescs (setFsFixupState false state) :=
  ((lseek_reads 0).map Prod.snd).bind fun _ => (writeHere_keepsDescs _ _).bind fun _ =>
    (readSb_reads.map Prod.snd).bind fun _ =>
      ((lseekOr_reads _ _).map Prod.snd).bind fun _ => writeHere_keepsDescs _ _

theorem checkInodeBitmap_keepsDescs (v : Volume) (bgNum newInodesPerGroup : Nat) :
    KeepsDescs (checkInodeBitmap v false bgNum newInodesPerGroup) := by
  refine ((getDesc_reads _).map Prod.snd).bind fun blockNum => .ite (fun _ => Act.keeps_crash)
    fun _ => ?_
  refine ((readBlock_reads v _).map Prod.snd).bind fun block => ?_
  refine (Act.keeps_fold (fun _ _ => .ite (fun _ => ?_) fun _ => Act.keeps_crash) _ _).bind
    fun found => ?_
  · exact .ite (fun _ => Act.keeps_pure _) fun _ => Act.keeps_pure _
  · exact .ite (fun _ => writeBlock_keepsDescs v _ _ _) fun _ => Act.keeps_pure _

theorem setDesc_bumped {n : Nat} (h : Bumped added k b0 m.bgDesc)
    (hn : n = (bgFreeInodesCount k).get m.bgDesc) :
    (setDesc (bgFreeInodesCount k) (n + added)).Ends
      (fun _ m' => Bumped added (k + 1) b0 m'.bgDesc) (fun _ _ => True) m := by
  rw [setDesc, Act.ends_bind, Act.ends_read]
  refine .ite (fun hin => ?_) fun _ => trivial
  have hold : (bgFreeInodesCount k).get m.bgDesc = (bgFreeInodesCount k).get b0 :=
    Buffer.getLE_congr fun x h1 h2 => h.others x fun j hj => by
      simp only [bgFreeInodesCount] at h1 h2
      omega
  refine ⟨h.size, fun i hi => ?_, fun x hx => ?_⟩
  · rcases Nat.lt_succ_iff_lt_or_eq.mp hi with hi | rfl
    · rw [← h.counts i hi]
      refine Buffer.getLE_putLE_of_apart _ _ _ _ _ _ ?_
      simp only [bgFreeInodesCount]
      omega
    · rw [← hold, ← hn]
      exact Buffer.getLE_putLE _ _ _ _ hin
  · rw [← h.others x fun j hj => hx j (by omega)]
    refine Buffer.get_putLE_of_apart _ _ _ _ _ ?_
    have := hx k (by omega)
    simp only [bgFreeInodesCount]
    omega

theorem bumpDesc_ends (h : Bumped added k b0 m.bgDesc) :
    (do
      if FixupState.updatingSb = .updatingSb then
        setDesc (bgFreeInodesCount k) ((← getDesc (bgFreeInodesCount k)) + added)
      checkInodeBitmap v false k newInodesPerGroup : Fixup Unit).Ends
      (fun _ m' => Bumped added (k + 1) b0 m'.bgDesc) (fun _ _ => True) m := by
  rw [if_pos rfl, Act.ends_bind]
  refine (getDesc_keeps fun _ => trivial).post ?_
  rintro n m1 ⟨hn, rfl⟩
  rw [Act.ends_bind]
  refine (setDesc_bumped h hn).post fun _ m2 h2 => ?_
  refine ((checkInodeBitmap_keepsDescs v _ _).ends m2).mono (fun _ m3 h3 => ?_) fun _ _ _ => trivial
  have hsame : m3.bgDesc = m2.bgDesc := h3
  rw [hsame]
  exact h2

structure TablesPlaced (v : Volume) (descs : Buffer) (k : Nat) (m : Machine) : Prop where
  kept : m.bgDesc = descs
  tables : ∀ i < k, ext4BgHasSuperBlock v.info i = true →
    (tableOffset v i, descs.view 0 (descsSize v)) ∈ m.written

theorem TablesPlaced.wrote {descs : Buffer} {m' : Machine} (h : TablesPlaced v descs k m)
    (hdescs : m'.bgDesc = m.bgDesc) (hwritten : ∀ w ∈ m.written, w ∈ m'.written) :
    TablesPlaced v descs k m' :=
  ⟨hdescs.trans h.kept, fun i hi hsb => hwritten _ (h.tables i hi hsb)⟩

theorem TablesPlaced.moved {descs : Buffer} (h : TablesPlaced v descs k m) (pos : Nat) :
    TablesPlaced v descs k { m with pos } := ⟨h.kept, h.tables⟩

theorem writeHere_placed {descs src : Buffer} {e : FixupError} (h : TablesPlaced v descs k m) :
    (writeHere e src).Ends (fun _ m' => TablesPlaced v descs k m' ∧ (m.pos, src) ∈ m'.written)
      (fun _ _ => True) m :=
  writeHere_ends (fun _ => ⟨h.wrote rfl fun _ hw => List.mem_append_left _ hw,
    List.mem_append_right _ (List.mem_singleton_self _)⟩) trivial

theorem updateSuperblock_placed {descs : Buffer} {sb : Buffer} (h : TablesPlaced v descs k m) :
    (updateSuperblock v false sb k).Ends (fun _ m' => TablesPlaced v descs (k + 1) m')
      (fun _ _ => True) m := by
  by_cases hsb : ext4BgHasSuperBlock v.info k = true
  · have hrun : updateSuperblock v false sb k = (do
        writeSb (sbOffset v k) (copyFor sb k)
        lseekOr .seekDescs (tableOffset v k)
        let m ← Act.read
        writeHere .writeDescs (m.bgDesc.view 0 (descsSize v))
        return copyFor sb k) := if_pos hsb
    rw [hrun, Act.ends_bind, writeSb, Act.ends_bind]
    refine lseekOr_ends (fun _ => ?_) trivial
    refine (writeHere_placed (h.moved _)).post ?_
    rintro _ m1 ⟨h1, -⟩
    rw [Act.ends_bind]
    refine lseekOr_ends (fun _ => ?_) trivial
    rw [Act.ends_bind, Act.ends_read, Act.ends_bind]
    refine (writeHere_placed (h1.moved _)).post ?_
    rintro _ m2 ⟨h2, hwrote⟩
    refine ⟨h2.kept, fun i hi hsb' => ?_⟩
    rcases Nat.lt_succ_iff_lt_or_eq.mp hi with hi | rfl
    · exact h2.tables i hi hsb'
    · rw [← h1.kept]
      exact hwrote
  · have hrun : updateSuperblock v false sb k = (return sb) := if_neg hsb
    rw [hrun]
    refine ⟨h.kept, fun i hi hsb' => ?_⟩
    rcases Nat.lt_succ_iff_lt_or_eq.mp hi with hi | rfl
    · exact h.tables i hi hsb'
    · exact absurd hsb' hsb

theorem setFsFixupState_placed {descs : Buffer} {state : FixupState} (h : TablesPlaced v descs k m) :
    (setFsFixupState false state).Ends (fun _ m' => TablesPlaced v descs k m') (fun _ _ => True) m := by
  rw [setFsFixupState, if_neg (by decide), Act.ends_bind]
  have hrest (m0 : Machine) (h0 : TablesPlaced v descs k m0) :
      (writeHere .writeState ((Buffer.zeros 8).putLE 0 8 state.magic) >>= fun _ =>
        readSb >>= fun sb => writeSb 1024 (setUnmountable sb (state.magic ≠ 0))).Ends
        (fun _ m' => TablesPlaced v descs k m') (fun _ _ => True) m0 := by
    rw [Act.ends_bind]
    refine (writeHere_placed h0).post ?_
    rintro _ m1 ⟨h1, -⟩
    rw [Act.ends_bind]
    refine (readSb_keeps fun _ _ _ => trivial).post ?_
    rintro sb m2 ⟨-, hdescs, hwritten⟩
    rw [writeSb, Act.ends_bind]
    refine lseekOr_ends (fun _ => ?_) trivial
    have h2 : TablesPlaced v descs k m2 := h1.wrote hdescs fun w hw => hwritten ▸ hw
    exact (writeHere_placed (h2.moved _)).post fun _ _ h => h.1
  exact lseek_ends (fun _ => hrest _ (h.moved 0)) fun _ => hrest _ h

theorem superblockPhase_tables (v : Volume) (newInodesPerGroup : Nat) (m : Machine) :
    (superblockPhase v false newInodesPerGroup).Ends
      (fun _ m' => Bumped (sub32 newInodesPerGroup (sInodesPerGroup.get (m.device.view 1024 1024)))
          (numBlockGroups v) m.bgDesc m'.bgDesc ∧ TablesPlaced v m'.bgDesc v.aux.groups m')
      (fun _ _ => True) m := by
  rw [superblockPhase, Act.ends_bind, updateSuperblocksAndBgDesc, Act.ends_bind]
  refine (readSb_keeps fun _ _ _ => trivial).post ?_
  rintro sb m1 ⟨rfl, hdescs, -⟩
  rw [Act.ends_bind]
  have hstart : Bumped (sub32 newInodesPerGroup (sInodesPerGroup.get (m.device.view 1024 1024))) 0
      m.bgDesc m1.bgDesc := by
    rw [hdescs]
    exact ⟨rfl, fun i hi => absurd hi (Nat.not_lt_zero i), fun _ _ => rfl⟩
  refine (Act.ends_each_range (fun k m' => Bumped (sub32 newInodesPerGroup
    (sInodesPerGroup.get (m.device.view 1024 1024))) k m.bgDesc m'.bgDesc)
    (fun k _ m2 h2 => bumpDesc_ends h2) hstart).post fun _ m2 h2 => ?_
  refine .ite (fun _ => trivial) fun _ => .ite (fun _ => trivial) fun _ => ?_
  refine .ite (fun _ => trivial) fun _ => ?_
  rw [Act.ends_bind]
  refine (Act.ends_fold_range (fun k _ m' => TablesPlaced v m2.bgDesc k m')
    (fun k _ sb m3 h3 => updateSuperblock_placed h3)
    ⟨rfl, fun i hi => absurd hi (Nat.not_lt_zero i)⟩).post fun _ m3 h3 => ?_
  refine (setFsFixupState_placed h3).post fun _ m4 h4 => ?_
  rw [h4.kept]
  exact ⟨h2, h4⟩

end Phase

def untilSuperblocks (depth : Nat) (old : FsInfo) (force : Bool) : Fixup Prepared := do
  let p ← prepare old force
  numberingPhases depth p
  return p

structure SuperblocksUpdated (depth : Nat) (old : FsInfo) (force : Bool) (image : Disk)
    (left : Option Nat) (p : Prepared) (m1 m : Machine) : Prop where
  before : ∃ m0, untilSuperblocks depth old force (.start image left) = (.ok p, m0) ∧
    getFsFixupState false m0 = (.ok .updatingSb, m1)
  phase : superblockPhase p.volume false p.newInodesPerGroup m1 = (.ok (), m)

def descCount (v : Volume) : Nat := min v.aux.groups (descsSize v / 32)

structure TablesCarry (v : Volume) (uuid : List UInt8) (m : Machine) : Prop where
  tables : ∀ i < v.aux.groups, ext4BgHasSuperBlock v.info i = true →
    (tableOffset v i, m.bgDesc.view 0 (descsSize v)) ∈ m.written
  valid : ∀ i < descCount v, DescValid uuid (m.bgDesc.view 0 (descsSize v)) i

section Run

variable {depth : Nat} {old : FsInfo} {force : Bool} {left : Option Nat} {image : Disk} {p : Prepared}
  {m1 m : Machine}

theorem numberingPhases_keepsDescs (depth : Nat) (p : Prepared) :
    KeepsDescs (numberingPhases depth p) := by
  have hstate (noWrite : Bool) : KeepsDescs (getFsFixupState noWrite) :=
    (getFsFixupState_reads noWrite).map Prod.snd
  have hrecurse (noWrite : Bool) (pass : Pass) :
      KeepsDescs (recurseDir p.volume noWrite pass p.newInodesPerGroup depth p.rootInode p.dirsize) :=
    recurseDir_keeps p.volume (writeBlock_keepsDescs _ _) _ _ _ _ _
  have hphase (state : FixupState) {phase : Fixup Unit} (h : KeepsDescs phase) :
      KeepsDescs (inUpdatePhase false state phase) :=
    (hstate false).bind fun _ => .ite (fun _ => h) fun _ => Act.keeps_pure _
  have hsanity : KeepsDescs (sanityIfUnset depth false p) := by
    refine (hstate false).bind fun state => .ite (fun _ => ?_) fun _ => Act.keeps_pure _
    refine Act.Keeps.bind ((hrecurse false _).bind fun _ => ?_) fun _ => Act.keeps_pure _
    exact (updateSuperblocksAndBgDesc_reads _ _).map Prod.snd
  have hwriting : KeepsDescs (inUpdatePhase false .markingInums
      (markPhase p.volume depth false p.rootInode p.dirsize p.newInodesPerGroup) >>= fun _ =>
        inUpdatePhase false .updatingInums
          (updatePhase p.volume depth false p.rootInode p.dirsize p.newInodesPerGroup)) :=
    (hphase _ ((hrecurse false _).bind fun _ => setFsFixupState_keepsDescs _)).bind fun _ =>
      hphase _ ((hrecurse false _).bind fun _ => setFsFixupState_keepsDescs _)
  exact hsanity.bind fun _ => .ite
    (fun _ => (setFsFixupState_keepsDescs _).bind fun _ => hwriting) fun _ => hwriting

theorem completed_iff : ext4fixupInternal depth old force false (.start image left) = (.ok (), m) ↔
    (∃ p m1, SuperblocksUpdated depth old force image left p m1 m) ∨
      ∃ p m0 state, untilSuperblocks depth old force (.start image left) = (.ok p, m0) ∧
        getFsFixupState false m0 = (.ok state, m) ∧ state ≠ .updatingSb := by
  have hsplit : ext4fixupInternal depth old force false = untilSuperblocks depth old force >>=
      fun p => getFsFixupState false >>= fun now =>
        if now = .updatingSb then superblockPhase p.volume false p.newInodesPerGroup else pure () := by
    rw [ext4fixupInternal_eq, untilSuperblocks]
    simp only [bind_assoc, pure_bind]
    rfl
  rw [hsplit, Act.bind_ok]
  simp only [Act.bind_ok]
  constructor
  · rintro ⟨p, m0, hbefore, state, m1, hstate, hphase⟩
    by_cases hlast : state = .updatingSb
    · rw [if_pos hlast] at hphase
      exact .inl ⟨p, m1, ⟨m0, hbefore, hlast ▸ hstate⟩, hphase⟩
    · rw [if_neg hlast] at hphase
      cases hphase
      exact .inr ⟨p, m0, state, hbefore, hstate, hlast⟩
  · rintro (⟨p, m1, ⟨m0, hbefore, hstate⟩, hphase⟩ | ⟨p, m0, state, hbefore, hstate, hlast⟩)
    · exact ⟨p, m0, hbefore, .updatingSb, m1, hstate, by rwa [if_pos rfl]⟩
    · exact ⟨p, m0, hbefore, state, m, hstate, by rw [if_neg hlast]; rfl⟩

theorem SuperblocksUpdated.descs (h : SuperblocksUpdated depth old force image left p m1 m) :
    m1.bgDesc = descsOf p.volume image := by
  obtain ⟨m0, hbefore, hstate⟩ := h.before
  have hread : m1.stored.2 = m0.stored.2 := ((getFsFixupState_reads false).map Prod.snd).run hstate
  rw [untilSuperblocks, Act.bind_ok] at hbefore
  obtain ⟨p', m2, hprep, hbefore⟩ := hbefore
  rw [Act.bind_ok] at hbefore
  obtain ⟨_, m3, hnumber, hlast⟩ := hbefore
  cases hlast
  have hkept : m0.stored.2 = m2.stored.2 := (numberingPhases_keepsDescs depth p).run hnumber
  exact hread.trans (hkept.trans (congrArg Prod.snd (preparedFrom_of_run hprep).2))

theorem SuperblocksUpdated.valid_iff (h : SuperblocksUpdated depth old force image left p m1 m)
    {uuid : List UInt8} {i : Nat} (hi : i < descCount p.volume)
    (hvalid : DescValid uuid (descsOf p.volume image) i) :
    DescValid uuid (m.bgDesc.view 0 (descsSize p.volume)) i ↔
      u16 (sub32 p.newInodesPerGroup (sInodesPerGroup.get (m1.device.view 1024 1024))) = 0 ∨
        numBlockGroups p.volume ≤ i := by
  have hbumped := ((superblockPhase_tables _ _ _).ok h.phase).1
  have hin : 32 * i + 32 ≤ descsSize p.volume := by
    simp only [descCount] at hi
    omega
  rw [h.descs] at hbumped
  rw [descValid_view hin]
  exact hbumped.descValid_iff hvalid

theorem tablesCarry_iff (h : SuperblocksUpdated depth old force image left p m1 m)
    (hvalid : ∀ i < descCount p.volume,
      DescValid (sbAt image).sUuid (descsOf p.volume image) i) :
    TablesCarry p.volume (sbAt image).sUuid m ↔
      u16 (sub32 p.newInodesPerGroup (sInodesPerGroup.get (m1.device.view 1024 1024))) = 0 ∨
        min (descCount p.volume) (numBlockGroups p.volume) = 0 := by
  constructor
  · intro hcarry
    by_contra hnot
    have hzero : 0 < descCount p.volume := by omega
    have hfirst := (h.valid_iff hzero (hvalid 0 hzero)).mp (hcarry.valid 0 hzero)
    omega
  · intro hcond
    refine ⟨((superblockPhase_tables _ _ _).ok h.phase).2.tables, fun i hi => ?_⟩
    rw [h.valid_iff hi (hvalid i hi)]
    omega

end Run

section Example

-- One group of 12 inodes, for which 16 are to be; its descriptor carries the checksum of its contents.
def checkedImage : Disk := imageOf 12288
  [(1024, 4, 12), (1028, 4, 12), (1044, 4, 1), (1056, 4, 16), (1064, 4, 12), (1080, 2, 0xEF53),
    (1082, 2, 1), (1112, 2, 128), (1120, 4, 0x42), (1278, 2, 32), (2052, 4, 4), (2056, 4, 5),
    (2062, 2, 1), (2078, 2, 32974), (5248, 2, 0x41ED)]

theorem checkedImage_updated : ∃ p m1 m,
    SuperblocksUpdated 3 noInfo false checkedImage none p m1 m ∧
      (∀ i < descCount p.volume,
        DescValid (sbAt checkedImage).sUuid (descsOf p.volume checkedImage) i) ∧
      descCount p.volume = 1 ∧ numBlockGroups p.volume = 1 ∧
      sub32 p.newInodesPerGroup (sInodesPerGroup.get (m1.device.view 1024 1024)) = 4 := by
  have hrun : (match untilSuperblocks 3 noInfo false (.start checkedImage none) with
    | (.ok p, m0) => match getFsFixupState false m0 with
      | (.ok .updatingSb, m1) => match superblockPhase p.volume false p.newInodesPerGroup m1 with
        | (.ok _, _) => decide ((bgChecksum 0).get (descsOf p.volume checkedImage) =
            descChecksum (sbAt checkedImage).sUuid (descsOf p.volume checkedImage) 0 ∧
          descCount p.volume = 1 ∧ numBlockGroups p.volume = 1 ∧
          sub32 p.newInodesPerGroup (sInodesPerGroup.get (m1.device.view 1024 1024)) = 4)
        | _ => false
      | _ => false
    | _ => false) = true := by decide +kernel
  split at hrun
  · rename_i p m0 hbefore
    split at hrun
    · rename_i m1 hstate
      split at hrun
      · rename_i m hphase
        obtain ⟨hvalid, hcount, hgroups, hadded⟩ := of_decide_eq_true hrun
        refine ⟨p, m1, m, ⟨⟨m0, hbefore, hstate⟩, hphase⟩, fun i hi => ?_, hcount, hgroups, hadded⟩
        obtain rfl : i = 0 := by omega
        exact hvalid
      · cases hrun
    · cases hrun
  · cases hrun

theorem tablesCarry_checkedImage : ∃ p m1 m,
    SuperblocksUpdated 3 noInfo false checkedImage none p m1 m ∧
      (TablesCarry p.volume (sbAt checkedImage).sUuid m ↔
        u16 (sub32 p.newInodesPerGroup (sInodesPerGroup.get (m1.device.view 1024 1024))) = 0 ∨
          min (descCount p.volume) (numBlockGroups p.volume) = 0) := by
  obtain ⟨p, m1, m, hrun, hvalid, -⟩ := checkedImage_updated
  exact ⟨p, m1, m, hrun, tablesCarry_iff hrun hvalid⟩

theorem checksum_not_renewed : ¬ ∀ (depth : Nat) (old : FsInfo) (force : Bool) (image : Disk)
    (left : Option Nat) (p : Prepared) (m1 m : Machine),
    SuperblocksUpdated depth old force image left p m1 m →
      (∀ i < descCount p.volume,
        DescValid (sbAt image).sUuid (descsOf p.volume image) i) →
      TablesCarry p.volume (sbAt image).sUuid m := by
  intro h
  obtain ⟨p, m1, m, hrun, hvalid, hcount, hgroups, hadded⟩ := checkedImage_updated
  have hcarry := h 3 noInfo false checkedImage none p m1 m hrun hvalid
  have hfirst := (hrun.valid_iff (by omega) (hvalid 0 (by omega))).mp (hcarry.valid 0 (by omega))
  rw [hadded, hgroups] at hfirst
  simp only [u16] at hfirst
  omega

end Example

end MakeExt4fs

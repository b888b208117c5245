import MakeExt4fs.Fixup.SanityPass
import MakeExt4fs.Fixup.Prepare

namespace MakeExt4fs

open ErrorLog Interrupt Words

structure Usable (v : Volume) : Prop where
  blockSize : 0 < v.info.blockSize.val
  blocksPerGroup : 0 < v.info.blocksPerGroup.val
  inodesPerGroup : 0 < v.info.inodesPerGroup.val
  inodeSize : 0 < v.info.inodeSize.val
  groups : 0 < v.aux.groups

-- Reading ends with an error or with parameters to work with, and on the way there was no division
-- by zero, no shift by the width of a word, and no group count from a negative number of blocks.
def ReadsSoundly (old : FsInfo) (force : Bool) (m : Machine) : Prop :=
  (readExt old force).Ends
    (fun v _ => Usable v ∧ v.info.firstDataBlock ≤ v.info.lenBlocks ∧
      ((ext4ParseSb (sbAt m.device) old).isSome → (sbAt m.device).sLogBlockSize < 32))
    (fun e _ => e ≠ .crash) m

def HoldsSuperblock (d : Disk) (b : Buffer) : Prop := ∀ i < sizeofSuperBlock, d.get (1024 + i) = b.get i

def parsedInfo (old : FsInfo) (sb : Ext4SuperBlock) : FsInfo := (ext4ParseSb sb old).getD old

def FsInfo.HasGroups (info : FsInfo) : Prop :=
  info.firstDataBlock ≤ info.lenBlocks ∧
    u32 info.neededGroups ≠ if info.lastGroupShort then 1 else 0

def TurnedDown (old : FsInfo) (sb : Ext4SuperBlock) : Prop :=
  (parsedInfo old sb).firstDataBlock ≠ sb.sFirstDataBlock ∨
    9223372036854775808 ≤ (if (ext4ParseSb sb old).isSome then lengthOf sb else old.len.val) ∨
    maxRead < u32 ((parsedInfo old sb).blockSize.val * (parsedInfo old sb).bgDescBlocks)

def SoundSuperblock (old : FsInfo) (force : Bool) (sb : Ext4SuperBlock) : Prop :=
  force = false ∧ ext4ParseSb sb old = none ∨
    0 < (parsedInfo old sb).blockSize.val ∧ 0 < (parsedInfo old sb).blocksPerGroup.val ∧
      (TurnedDown old sb ∨ 0 < (parsedInfo old sb).inodesPerGroup.val ∧
        0 < (parsedInfo old sb).inodeSize.val ∧ (parsedInfo old sb).HasGroups)

section Parsing

variable {old info : FsInfo} {force : Bool} {sb : Ext4SuperBlock} {b c : Buffer} {d : Disk}

theorem superBlockAt_congr (h : ∀ i < 1024, c.get i = b.get i) :
    superBlockAt c = superBlockAt b := by
  have hget (off n : Nat) (hoff : off + n ≤ 1024) : c.getLE off n = b.getLE off n :=
    Buffer.getLE_congr fun i _ _ => h i (by omega)
  have hslice (off n : Nat) (hoff : off + n ≤ 1024) : c.slice off n = b.slice off n :=
    Buffer.slice_congr fun i _ _ => h i (by omega)
  unfold superBlockAt
  simp (disch := decide) only [Buffer.get32, Buffer.get16, Field.get, sInodesCount,
    sFreeInodesCount, sInodesPerGroup, sBlockGroupNr, sDescSize, hget, hslice, h]

theorem sbAt_of_holds (h : HoldsSuperblock d b) : sbAt d = superBlockAt b := by
  refine superBlockAt_congr fun i hi => ?_
  exact (Buffer.get_view hi).trans (h i hi)

theorem ext4ParseSb_none : ext4ParseSb sb old = none ↔
    sb.sMagic ≠ ext4SuperMagic ∨ sb.sState &&& ext4ValidFs ≠ ext4ValidFs := by
  unfold ext4ParseSb
  split
  · simp [*]
  · split <;> simp [*]

theorem log_lt_of_blockSize (hsome : (ext4ParseSb sb old).isSome)
    (h : 0 < (parsedInfo old sb).blockSize.val) : sb.sLogBlockSize < 22 := by
  obtain ⟨info, hinfo⟩ := Option.isSome_iff_exists.mp hsome
  have hsize : info.blockSize = toU32 (1024 <<< sb.sLogBlockSize) := by
    unfold ext4ParseSb at hinfo
    split at hinfo
    · cases hinfo
    · split at hinfo
      · cases hinfo
      · cases hinfo
        rfl
  rw [parsedInfo, hinfo, Option.getD_some, hsize, toU32_val] at h
  by_contra hlog
  have hdvd : (4294967296 : Nat) ∣ 1024 <<< sb.sLogBlockSize := by
    rw [Nat.shiftLeft_eq, ← Nat.sub_add_cancel (not_lt.mp hlog), pow_add, Nat.mul_left_comm]
    exact Nat.dvd_mul_left 4294967296 _
  rw [u32, Nat.mod_eq_zero_of_dvd hdvd] at h
  cases h

theorem groups_pos_iff (hlen : info.firstDataBlock ≤ info.lenBlocks) {aux : FsAuxInfo}
    (haux : ext4InitFsAuxInfo info = some aux) :
    0 < aux.groups ↔ u32 info.neededGroups ≠ if info.lastGroupShort then 1 else 0 := by
  obtain ⟨-, -, hgroups, -, -⟩ := ext4InitFsAuxInfo_some haux
  have hlt := u32_lt info.neededGroups
  rw [hgroups, FsInfo.allGroups_eq hlen]
  split
  · simp only [sub32, u32] at hlt ⊢
    omega
  · omega

theorem ext4InitFsAuxInfo_pos {aux : FsAuxInfo} (h : ext4InitFsAuxInfo info = some aux) :
    0 < info.blockSize.val ∧ 0 < info.blocksPerGroup.val := by
  by_contra hzero
  rw [ext4InitFsAuxInfo, if_pos (by omega)] at h
  cases h

theorem ext4ParseSbInfo_refuses (h : ext4ParseSb sb old = none) (m : Machine) :
    ∃ e, ext4ParseSbInfo old false sb m = (.error (.error e), m) := by
  by_cases hmagic : sb.sMagic ≠ ext4SuperMagic
  · exact ⟨.parse .badMagic, by rw [ext4ParseSbInfo, if_pos ⟨hmagic, rfl⟩]; rfl⟩
  · have hstate := (ext4ParseSb_none.mp h).resolve_left hmagic
    refine ⟨.parse .badState, ?_⟩
    rw [ext4ParseSbInfo, if_neg fun hbad => hmagic hbad.1, if_pos ⟨hstate, rfl⟩]
    rfl

theorem ext4ParseSbInfo_goesOn (h : ¬ (force = false ∧ ext4ParseSb sb old = none)) :
    ext4ParseSbInfo old force sb =
      (Act.expect (ext4InitFsAuxInfo (parsedInfo old sb)) >>= fun aux =>
        if aux.firstDataBlock ≠ sb.sFirstDataBlock then
          Act.fail (.parse .firstDataBlockMismatch)
        else
          return ⟨parsedInfo old sb, { aux with sb }⟩) := by
  rw [ext4ParseSb_none] at h
  rw [ext4ParseSbInfo, if_neg fun hbad => h ⟨by simpa using hbad.2, .inl hbad.1⟩,
    if_neg fun hbad => h ⟨by simpa using hbad.2, .inr hbad.1⟩]
  rfl

end Parsing

section Reading

variable {old : FsInfo} {force : Bool} {b : Buffer}

theorem end_of_parsed {sb : Ext4SuperBlock} :
    (if (ext4ParseSb sb old).isSome then lengthOf sb else (parsedInfo old sb).len.val) =
      if (ext4ParseSb sb old).isSome then lengthOf sb else old.len.val := by
  cases hparse : ext4ParseSb sb old with
  | none => simp [parsedInfo, hparse]
  | some info => rfl

theorem readsSoundly_of {m : Machine} (h : SoundSuperblock old force (sbAt m.device)) :
    ReadsSoundly old force m := by
  rw [ReadsSoundly, readExt, Act.ends_bind, readSb, Act.ends_bind]
  refine lseekOr_ends (fun _ => readHere_ends (fun left _ => ?_) fun _ _ => by simp) (by simp)
  rw [Act.ends_bind]
  change Act.Ends (ext4ParseSbInfo old force (sbAt m.device)) _ _ _
  by_cases hstop : force = false ∧ ext4ParseSb (sbAt m.device) old = none
  · obtain ⟨e, he⟩ := ext4ParseSbInfo_refuses hstop.2
      { m with pos := 1024 + sizeofSuperBlock, left := left }
    rw [hstop.1]
    refine Act.ends_of_run (fun _ _ hrun => ?_) fun _ _ hrun => ?_ <;> rw [he] at hrun <;> cases hrun
    simp
  · obtain ⟨hbs, hbpg, hrest⟩ := h.resolve_left hstop
    obtain ⟨aux, haux⟩ := ext4InitFsAuxInfo_exists _ hbs hbpg
    have hfirst := (ext4InitFsAuxInfo_some haux).1
    rw [ext4ParseSbInfo_goesOn hstop, haux, Act.expect, pure_bind]
    refine .ite (fun _ => by simp) fun hmatch => ?_
    rw [Act.ends_pure, Act.ends_bind]
    refine lseekOr_ends (fun hend => ?_) (by simp)
    rw [Act.ends_bind]
    refine lseekOr_ends (fun _ => ?_) (by simp)
    rw [Act.ends_bind]
    refine readHere_ends (fun left _ => .ite (fun _ => by simp) fun hread => ?_) fun _ _ => by simp
    rw [Act.ends_bind, Act.ends_update, Act.ends_pure]
    obtain ⟨hipg, hisize, hgroups⟩ := hrest.resolve_left fun hturned => by
      rcases hturned with hturned | hturned | hturned
      · exact hturned (hfirst ▸ not_not.mp hmatch)
      · exact absurd (end_of_parsed ▸ hend) (not_lt.mpr hturned)
      · exact hread (by rw [descsSize, (ext4InitFsAuxInfo_some haux).2.2.2.2]; exact hturned)
    exact ⟨⟨hbs, hbpg, hipg, hisize, (groups_pos_iff hgroups.1 haux).mpr hgroups.2⟩, hgroups.1,
      fun hsome => (log_lt_of_blockSize hsome hbs).trans (by decide)⟩

theorem exists_image (b : Buffer) (len : Nat) :
    ∃ d : Disk, 2048 + len ≤ d.size ∧ HoldsSuperblock d b := by
  refine ⟨.ofBuffer ⟨2048 + len, fun i => UInt8.ofNat (b.get (i - 1024))⟩, le_rfl, fun i hi => ?_⟩
  simp only [sizeofSuperBlock] at hi
  have hthere : 1024 + i < 2048 + len := by omega
  simp only [Buffer.get, Disk.ofBuffer, if_pos hthere]
  rw [Nat.add_sub_cancel_left]
  exact Buffer.toNat_ofNat_get b i

theorem readExt_divides {d : Disk} {descs : Buffer} {m : Machine} (hm : At True (d, descs) m)
    (hsize : 2048 ≤ d.size) (hstop : ¬ (force = false ∧ ext4ParseSb (sbAt d) old = none))
    (haux : ext4InitFsAuxInfo (parsedInfo old (sbAt d)) = none) :
    (readExt old force).Ends (fun _ _ => False) (fun e _ => e = .crash) m := by
  rw [readExt, Act.ends_bind]
  refine (readSb_calm hm hsize).mono ?_ fun _ _ hhalt => absurd trivial hhalt.notCalm
  rintro sb m1 ⟨hsb, -⟩
  have hsb' : superBlockAt sb = sbAt d := congrArg superBlockAt hsb
  rw [Act.ends_bind, hsb', ext4ParseSbInfo_goesOn hstop, haux]
  rfl

theorem soundSuperblock_of
    (h : ∀ m : Machine, HoldsSuperblock m.device b → ReadsSoundly old force m) :
    SoundSuperblock old force (superBlockAt b) := by
  by_cases hstop : force = false ∧ ext4ParseSb (superBlockAt b) old = none
  · exact .inl hstop
  right
  have hgo := ext4ParseSbInfo_goesOn hstop
  cases haux : ext4InitFsAuxInfo (parsedInfo old (superBlockAt b)) with
  | none =>
    obtain ⟨d, hsize, hholds⟩ := exists_image b 0
    have hsame := sbAt_of_holds hholds
    have hat : At True (d, Buffer.zeros 0) (.start d none) := ⟨rfl, fun _ => rfl⟩
    have hcrash := readExt_divides hat hsize (by rwa [hsame]) (by rwa [hsame])
    have hm := h (.start d none) hholds
    exact ((hm.and hcrash).mono (fun _ _ h => h.2) fun _ _ h => h.1 h.2).false.elim
  | some aux =>
    obtain ⟨hbs, hbpg⟩ := ext4InitFsAuxInfo_pos haux
    refine ⟨hbs, hbpg, or_iff_not_imp_left.mpr fun hturned => ?_⟩
    simp only [TurnedDown, not_or, not_not, not_le, not_lt] at hturned
    obtain ⟨hfirst, hend, hread⟩ := hturned
    obtain ⟨hauxfirst, -, -, -, hdescs⟩ := ext4InitFsAuxInfo_some haux
    let v : Volume := ⟨parsedInfo old (superBlockAt b), { aux with sb := superBlockAt b }⟩
    have hparsed (m : Machine) : ext4ParseSbInfo old force (superBlockAt b) m = (.ok v, m) := by
      rw [hgo, haux, Act.expect, pure_bind, if_neg (by rw [hauxfirst, hfirst]; simp)]
      rfl
    obtain ⟨d, hsize, hholds⟩ := exists_image b (descsAt v + descsSize v)
    have hsame := sbAt_of_holds hholds
    have hat : At True (d, Buffer.zeros 0) (.start d none) := ⟨rfl, fun _ => rfl⟩
    have hv : (readExt old force).Ends (fun v' _ => v' = v) (fun _ _ => False)
        (.start d none) := by
      refine (readExt_calm (by omega) (by rwa [hsame]) ?_ (by omega) ?_ hat).mono
        (fun _ _ h => h.1) fun _ _ hhalt => hhalt.notCalm trivial
      · rw [hsame]
        exact end_of_parsed ▸ hend
      · rw [descsSize, hdescs]
        exact hread
    have hm := h (.start d none) hholds
    by_contra hbad
    refine ((hm.and hv).mono ?_ fun _ _ h => h.2).false
    rintro _ _ ⟨⟨husable, hlen, -⟩, rfl⟩
    exact hbad ⟨husable.inodesPerGroup, husable.inodeSize, hlen,
      (groups_pos_iff hlen haux).mp husable.groups⟩

theorem readsSoundly_iff (old : FsInfo) (force : Bool) (b : Buffer) :
    (∀ m : Machine, HoldsSuperblock m.device b → ReadsSoundly old force m) ↔
      SoundSuperblock old force (superBlockAt b) :=
  ⟨soundSuperblock_of, fun h _ hb => readsSoundly_of ((sbAt_of_holds hb).symm ▸ h)⟩

-- With force a superblock of zeros is gone on with, into a division by the block size.
theorem zero_superblock_divides : ¬ ∀ (old : FsInfo) (force : Bool) (b : Buffer) (m : Machine),
    HoldsSuperblock m.device b → ReadsSoundly old force m := by
  intro h
  have hsound := soundSuperblock_of fun m => h noInfo true (.zeros 1024) m
  rcases hsound with ⟨hforce, -⟩ | ⟨hbs, -⟩
  · cases hforce
  · exact absurd hbs (by decide +kernel)

end Reading

end MakeExt4fs

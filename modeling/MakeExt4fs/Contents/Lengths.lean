import MakeExt4fs.Allocate.Frames
import MakeExt4fs.Contents.Journal
import MakeExt4fs.Contents.Mapping
import MakeExt4fs.Utils.SuperBlock

namespace MakeExt4fs

open ErrorLog Words

def Fs.inodeSize (fs : Fs) (r : InodeRef) : Nat :=
  fs.field r iSizeHigh * 4294967296 + fs.field r iSizeLo

section Journal

variable {info : FsInfo} {force : Bool} {r : InodeRef} {fs fs' : Fs} {l l' : List Ext4Error}

theorem setExtentSizes_size {len blockLen : Nat} (hlen : len < 18446744073709551616)
    (h : setExtentSizes info r len blockLen (fs, l) = .ok ((), (fs', l'))) :
    fs'.inodeSize r = len := by
  obtain ⟨flags, ⟨fs1, l1⟩, -, h⟩ := Run.bind_ok.mp h
  obtain ⟨⟨⟩, ⟨fs2, l2⟩, -, h⟩ := Run.bind_ok.mp h
  obtain ⟨⟨⟩, ⟨fs3, l3⟩, hlo, h⟩ := Run.bind_ok.mp h
  obtain ⟨⟨⟩, ⟨fs4, l4⟩, hhi, h⟩ := Run.bind_ok.mp h
  obtain ⟨⟨⟩, ⟨fs5, l5⟩, hblo, hbhi⟩ := Run.bind_ok.mp h
  have hlo4 := setField_keeps (f := iSizeLo) (by decide) hhi
  have hlo5 := setField_keeps (f := iSizeLo) (by decide) hblo
  have hlo6 := setField_keeps (f := iSizeLo) (by decide) hbhi
  have hhi5 := setField_keeps (f := iSizeHigh) (by decide) hblo
  have hhi6 := setField_keeps (f := iSizeHigh) (by decide) hbhi
  rw [Fs.inodeSize, hlo6, hlo5, hlo4, hhi6, hhi5, field_setField hlo, field_setField hhi]
  change len / 4294967296 % 4294967296 * 4294967296 + len % 4294967296 = len
  omega

def KeepsSize (r : InodeRef) : Fs → Fs → Prop :=
  KeepsBytes fun bg i => Field.Bytes r iSizeLo bg i ∨ Field.Bytes r iSizeHigh bg i

theorem KeepsSize.size (h : KeepsSize r fs fs') : fs'.inodeSize r = fs.inodeSize r := by
  rw [Fs.inodeSize, Fs.inodeSize, KeepsBytes.field h fun _ _ => Or.inr,
    KeepsBytes.field h fun _ _ => Or.inl]

instance : IsPreorder Fs (KeepsSize r) := inferInstanceAs (IsPreorder Fs (KeepsBytes _))

theorem setField_keepsSize {f : Field} (hlo : f.off + f.size ≤ 4 ∨ 8 ≤ f.off)
    (hhi : f.off + f.size ≤ 108 ∨ 112 ≤ f.off) (v : Nat) :
    Run.Evolves (KeepsSize r) (setField r f v) := by
  apply setField_keepsBytes
  rintro i h1 h2 (⟨-, h3, h4⟩ | ⟨-, h3, h4⟩) <;> simp only [iSizeLo, iSizeHigh] at h3 h4 <;> omega

theorem backingLoop_keepsBytes {P : Nat → Nat → Prop} {queue : Nat → Nat → Nat → Build Unit}
    (hq : ∀ offset len block, Run.Evolves (KeepsBytes P) (queue offset len block)) (fuel : Nat)
    (alloc : BlockAllocation) (offset left : Nat) :
    Run.Evolves (KeepsBytes P) (backingLoop info queue fuel alloc offset left) := by
  induction fuel generalizing alloc offset left with
  | zero => cases left <;> first | exact Run.evolves_pure _ | exact Run.evolves_crash
  | succ fuel ih =>
    cases left with
    | zero => exact Run.evolves_pure _
    | succ left =>
      refine (Run.evolves_expect _).bind fun region => (hq _ _ _).bind fun _ => ?_
      exact (Run.evolves_expect _).bind fun _ => ih _ _ _

theorem extentCreateBacking_keepsBytes {P : Nat → Nat → Prop} (alloc : BlockAllocation)
    (backingLen : Nat) :
    Run.Evolves (KeepsBytes P) (extentCreateBacking info alloc backingLen) := by
  refine (calloc_keepsBytes _).bind fun data => ?_
  refine (backingLoop_keepsBytes (fun _ _ _ => sparseFileAdd_keepsBytes _) _ _ _ _).bind fun _ => ?_
  exact Run.evolves_pure _

theorem doInodeAllocateExtents_size {len : Nat} (hlen : len < 18446744073709551616)
    {alloc : BlockAllocation}
    (h : doInodeAllocateExtents info force r len (fs, l) = .ok (some alloc, (fs', l'))) :
    fs'.inodeSize r = len := by
  obtain ⟨found, ⟨fs1, l1⟩, -, h⟩ := Run.bind_ok.mp h
  cases found with
  | none =>
    obtain ⟨⟨⟩, st, -, h⟩ := Run.bind_ok.mp h
    cases h
  | some found =>
    obtain ⟨placed, ⟨fs2, l2⟩, -, h⟩ := Run.bind_ok.mp h
    cases placed with
    | none => cases h
    | some placed =>
      obtain ⟨⟨⟩, ⟨fs3, l3⟩, -, h⟩ := Run.bind_ok.mp h
      obtain ⟨⟨⟩, ⟨fs4, l4⟩, hsizes, h⟩ := Run.bind_ok.mp h
      cases h
      exact setExtentSizes_size hlen hsizes

theorem inodeAllocateDataExtents_size {len backingLen data : Nat}
    (hlen : len < 18446744073709551616)
    (h : inodeAllocateDataExtents info force r len backingLen (fs, l) =
      .ok (some data, (fs', l'))) : fs'.inodeSize r = len := by
  obtain ⟨found, ⟨fs1, l1⟩, hdo, h⟩ := Run.bind_ok.mp h
  cases found with
  | none =>
    obtain ⟨⟨⟩, st, -, h⟩ := Run.bind_ok.mp h
    cases h
  | some alloc =>
    dsimp only at h
    split at h
    · cases h
    · obtain ⟨data', ⟨fs2, l2⟩, hback, h⟩ := Run.bind_ok.mp h
      cases h
      have hkeep : KeepsSize r fs1 fs' := extentCreateBacking_keepsBytes _ _ _ _ _ _ _ hback
      rw [hkeep.size]
      exact doInodeAllocateExtents_size hlen hdo

theorem writeJournalSuperblock_keepsSize (data : Nat) :
    Run.Evolves (KeepsSize r) (writeJournalSuperblock info data) := by
  have hset (f : Field) (v : Nat) : Run.Evolves (KeepsSize r) (setBe32 data f v) :=
    setHeap_keepsBytes _ _ _ _
  refine (hset _ _).bind fun _ => (hset _ _).bind fun _ => (hset _ _).bind fun _ => ?_
  refine (hset _ _).bind fun _ => (hset _ _).bind fun _ => (hset _ _).bind fun _ => ?_
  exact hset _ _

theorem getIBlock_keepsSize (r r' : InodeRef) : Run.Evolves (KeepsSize r) (getIBlock r') := by
  apply onTable_keepsBytes
  intro t l a t' l' hm i _
  cases hm
  rfl

theorem raise_ok_nil {ε σ : Type} {e : ε} {s s' : σ} {l : List ε} {a : Unit} :
    Run.raise force e (s, l) ≠ .ok (a, (s', [])) := by
  cases force <;> simp [Run.raise]

theorem ext4CreateJournalInode_size
    (h : ext4CreateJournalInode info force (fs, []) = .ok ((), (fs', []))) :
    fs'.inodeSize (inodeRef info ext4JournalIno) =
      u32 (info.journalBlocks.val * info.blockSize.val) := by
  obtain ⟨r, ⟨fs1, l1⟩, hget, h⟩ := Run.bind_ok.mp h
  obtain ⟨-, rfl, -⟩ := getInode_ok hget
  obtain ⟨data, ⟨fs2, l2⟩, halloc, h⟩ := Run.bind_ok.mp h
  have hword := u32_lt (info.journalBlocks.val * info.blockSize.val)
  cases data with
  | none => exact absurd h raise_ok_nil
  | some data =>
    rw [← inodeAllocateDataExtents_size (by omega) halloc]
    have hrest : Run.Evolves (KeepsSize (inodeRef info ext4JournalIno)) (do
        setField (inodeRef info ext4JournalIno) iMode 0o100600
        setField (inodeRef info ext4JournalIno) iLinksCount 1
        writeJournalSuperblock info data
        let blocks ← getIBlock (inodeRef info ext4JournalIno)
        onAux <| Run.update fun aux =>
          { aux with sb := { aux.sb with sJnlBlocks := blocks } } : Build Unit) := by
      refine (setField_keepsSize (by decide) (by decide) _).bind fun _ => ?_
      refine (setField_keepsSize (by decide) (by decide) _).bind fun _ => ?_
      refine (writeJournalSuperblock_keepsSize data).bind fun _ => ?_
      refine (getIBlock_keepsSize _ _).bind fun blocks => ?_
      exact Run.Evolves.zoom (S := fun aux aux' => aux'.bgs = aux.bgs)
        (Run.evolves_update fun _ => rfl) fun s t t' ht hsame bg i _ => by
          obtain rfl := Option.some.inj ht
          rw [FsAuxInfo.table, hsame]
          rfl
    exact (hrest fs2 l2 () fs' [] h).size

end Journal

section Backing

variable {bs : Nat} {ps : List Piece}

def exactBacking (blockSize : Nat) : Nat → Nat → List Piece → List Backed
  | _, 0, _ => []
  | _, _ + 1, [] => []
  | offset, left + 1, p :: rest =>
    let len := min (p.len * blockSize) (left + 1)
    ⟨offset, len, p.block⟩ :: exactBacking blockSize (offset + len) (left + 1 - len) rest

def RegionsFit (blockSize : Nat) : Nat → List Piece → Prop
  | _, [] => True
  | left, p :: rest => left = 0 ∨
      (p.len * blockSize < 4294967296 ∨ left ≤ u32 (p.len * blockSize)) ∧
        RegionsFit blockSize (left - p.len * blockSize) rest

theorem cut_eq_iff (n : Nat) {left : Nat} (hleft : 0 < left) :
    u32 (min (u32 n) left) = min n left ↔ n < 4294967296 ∨ left ≤ u32 n := by
  simp only [u32]
  omega

theorem backedBy_eq_iff (offset left : Nat) :
    backedBy bs offset left ps = exactBacking bs offset left ps ↔ RegionsFit bs left ps := by
  induction ps generalizing offset left with
  | nil => cases left <;> simp [backedBy, exactBacking, RegionsFit]
  | cons p rest ih =>
    cases left with
    | zero => simp [backedBy, exactBacking, RegionsFit]
    | succ left =>
      have hcut := cut_eq_iff (p.len * bs) (Nat.succ_pos left)
      have hsub : left + 1 - min (p.len * bs) (left + 1) = left + 1 - p.len * bs := by omega
      simp only [backedBy, exactBacking, List.cons.injEq, Backed.mk.injEq, true_and, and_true,
        RegionsFit, Nat.succ_ne_zero, false_or, ← hcut]
      refine and_congr_right fun heq => ?_
      rw [heq, ih, hsub]

variable {info : FsInfo} {alloc : BlockAllocation} {cells : List (Nat × Region)}

theorem backingLoop_fits (chunk : Backed → Chunk) (h : Chain alloc.regions alloc.list.iter cells)
    (hwhole : alloc.list.partialIter = 0) {fuel : Nat} (hfuel : cells.length ≤ fuel)
    (hlen : ∀ c ∈ cells, c.2.len < 4294967296) (offset : Nat) {left : Nat}
    (hfit : RegionsFit info.blockSize.val left (piecesOf cells))
    (hroom : left ≤ ((piecesOf cells).map Piece.len).sum * info.blockSize.val) (fs : Fs)
    (l : List Ext4Error) :
    backingLoop info (fun offset len block => sparseFileAdd (chunk ⟨offset, len, block⟩)) fuel
        alloc offset left (fs, l) =
      .ok ((), ({ fs with sparse := fs.sparse ++
        (exactBacking info.blockSize.val offset left (piecesOf cells)).map chunk }, l)) := by
  induction cells generalizing alloc fuel offset left fs with
  | nil =>
    obtain rfl : left = 0 := by simpa [piecesOf] using hroom
    simp [backingLoop, exactBacking]
  | cons c rest ih =>
    cases left with
    | zero => simp [backingLoop, exactBacking]
    | succ left =>
      obtain ⟨fuel, rfl⟩ : ∃ n, fuel = n + 1 := Nat.exists_eq_add_of_le' (by simp at hfuel; omega)
      obtain ⟨next, hnext, hwhole', hchain⟩ := getNextRegion_of_chain h
      have hregion := getRegion_of_chain h hwhole (hlen c List.mem_cons_self)
      obtain ⟨hfits, hfit'⟩ := hfit.resolve_left (Nat.succ_ne_zero left)
      have hcut := (cut_eq_iff _ (Nat.succ_pos left)).mpr hfits
      change u32 (min (u32 (c.2.len * info.blockSize.val)) (left + 1)) = _ at hcut
      change RegionsFit _ (left + 1 - c.2.len * info.blockSize.val) (piecesOf rest) at hfit'
      rw [piecesOf, List.map_cons, List.map_cons, List.sum_cons, Nat.add_mul] at hroom
      change _ ≤ c.2.len * info.blockSize.val + _ at hroom
      have hsub : left + 1 - min (c.2.len * info.blockSize.val) (left + 1) =
          left + 1 - c.2.len * info.blockSize.val := by omega
      have hstep := ih hchain hwhole' (show rest.length ≤ fuel by simpa using hfuel)
        (fun d hd => hlen d (List.mem_cons_of_mem c hd))
        (offset + min (c.2.len * info.blockSize.val) (left + 1)) (hsub ▸ hfit')
        (by rw [piecesOf]; omega)
      simp only [backingLoop, hregion, hnext, Run.expect, Run.pure_run, Run.bind_run,
        sparseFileAdd_run, hcut, hstep, piecesOf, List.map_cons, exactBacking, Region.piece,
        List.append_assoc, List.cons_append, List.nil_append]

theorem backingLoop_ok (chunk : Backed → Chunk) (h : Chain alloc.regions alloc.list.iter cells)
    (hwhole : alloc.list.partialIter = 0) (hlen : ∀ c ∈ cells, c.2.len < 4294967296)
    {fuel offset left : Nat} {fs fs' : Fs} {l l' : List Ext4Error}
    (hrun : backingLoop info (fun offset len block => sparseFileAdd (chunk ⟨offset, len, block⟩))
      fuel alloc offset left (fs, l) = .ok ((), (fs', l'))) :
    fs'.sparse = fs.sparse ++
      (backedBy info.blockSize.val offset left (piecesOf cells)).map chunk := by
  induction cells generalizing alloc fuel offset left fs l with
  | nil =>
    cases left with
    | zero =>
      rw [backingLoop] at hrun
      cases hrun
      simp [backedBy]
    | succ left =>
      have hnone : getRegion alloc = none := by
        rw [getRegion, show alloc.list.iter = none from h]
        rfl
      cases fuel with
      | zero => cases hrun
      | succ fuel =>
        rw [backingLoop, hnone] at hrun
        cases hrun
  | cons c rest ih =>
    cases left with
    | zero =>
      rw [backingLoop] at hrun
      cases hrun
      simp [backedBy]
    | succ left =>
      obtain ⟨next, hnext, hwhole', hchain⟩ := getNextRegion_of_chain h
      have hregion := getRegion_of_chain h hwhole (hlen c List.mem_cons_self)
      cases fuel with
      | zero => cases hrun
      | succ fuel =>
        simp only [backingLoop, hregion, hnext, Run.expect, pure_bind, Run.bind_run] at hrun
        have hstep := ih hchain hwhole' (fun d hd => hlen d (List.mem_cons_of_mem c hd)) hrun
        simp only [hstep, piecesOf, List.map_cons, backedBy, Region.piece, List.append_assoc,
          List.cons_append, List.nil_append]

end Backing

def queuedLen (src : Source) : Chunk → Option Nat
  | .data s n _ => if s = src then some n else none
  | .file .. => none

-- Every byte length that the build takes for a number of blocks is that many blocks: the
-- journal's, the backing of an allocation, the inode tables', the group descriptors'.
structure LengthsExact (info : FsInfo) (aux : FsAuxInfo) (alloc : BlockAllocation)
    (ps : List Piece) (left : Nat) : Prop where
  journal : u32 (info.journalBlocks.val * info.blockSize.val) =
    info.journalBlocks.val * info.blockSize.val
  journalSize : ∀ force fs fs', ext4CreateJournalInode info force (fs, []) = .ok ((), (fs', [])) →
    fs'.inodeSize (inodeRef info ext4JournalIno) = info.journalBlocks.val * info.blockSize.val
  backing : ∀ (chunk : Backed → Chunk) fs l, backingLoop info
      (fun offset len block => sparseFileAdd (chunk ⟨offset, len, block⟩))
      (alloc.regions.length + 1) alloc 0 left (fs, l) =
    .ok ((), ({ fs with sparse := fs.sparse ++
      (exactBacking info.blockSize.val 0 left ps).map chunk }, l))
  table : ∀ i b, queuedLen (.inodeTable i) (tableChunk info aux i b) =
    some (aux.inodeTableBlocks * info.blockSize.val)
  descs : ∀ i, ∀ c ∈ groupChunks info aux i, ∀ n, queuedLen .bgDesc c = some n →
    n = aux.bgDescBlocks * info.blockSize.val

section Exact

variable {info : FsInfo} {aux : FsAuxInfo} {alloc : BlockAllocation} {ps : List Piece} {left : Nat}

theorem inodeTableBlocks_mul_lt (info : FsInfo) :
    info.inodeTableBlocks * info.blockSize.val < 4294967296 :=
  lt_of_le_of_lt (Nat.div_mul_le_self _ _) (u32_lt _)

theorem queuedLen_groupChunks (info : FsInfo) (aux : FsAuxInfo) (i : Nat) {c : Chunk} {n : Nat}
    (hc : c ∈ groupChunks info aux i) (hn : queuedLen .bgDesc c = some n) :
    n = u32 (aux.bgDescBlocks * info.blockSize.val) := by
  unfold groupChunks at hc
  split at hc
  · rcases List.mem_append.mp hc with hc | hc
    · split at hc
      · obtain rfl := List.mem_singleton.mp hc
        simp [queuedLen] at hn
      · cases hc
    · obtain rfl := List.mem_singleton.mp hc
      simpa [queuedLen, eq_comm] using hn
  · cases hc

theorem bgDesc_mem_groupChunks (info : FsInfo) (aux : FsAuxInfo) :
    Chunk.data .bgDesc (u32 (aux.bgDescBlocks * info.blockSize.val))
      (u32 (groupStartBlock info aux 0 + 1)) ∈ groupChunks info aux 0 := by
  have hsb : ext4BgHasSuperBlock info 0 = true := by
    unfold ext4BgHasSuperBlock
    split <;> rfl
  simp [groupChunks, hsb]

theorem u32_eq_iff (n : Nat) : u32 n = n ↔ n < 4294967296 :=
  ⟨fun h => h ▸ u32_lt n, u32_of_lt⟩

theorem lengthsExact_iff (haux : ext4InitFsAuxInfo info = some aux) (hstart : AtStart alloc ps)
    (hlen : ∀ p ∈ ps, p.len < 4294967296)
    (hroom : left ≤ (ps.map Piece.len).sum * info.blockSize.val) :
    LengthsExact info aux alloc ps left ↔
      info.journalBlocks.val * info.blockSize.val < 4294967296 ∧
      aux.bgDescBlocks * info.blockSize.val < 4294967296 ∧
      RegionsFit info.blockSize.val left ps := by
  obtain ⟨cells, hchain, rfl⟩ := hstart.regions
  have hcells : ∀ c ∈ cells, c.2.len < 4294967296 := fun c hc =>
    hlen c.2.piece (List.mem_map_of_mem hc)
  constructor
  · intro h
    refine ⟨(u32_eq_iff _).mp h.journal, ?_, ?_⟩
    · rw [← u32_eq_iff]
      exact h.descs 0 _ (bgDesc_mem_groupChunks info aux) _ (by simp [queuedLen])
    · have hrun := h.backing (fun c => .file [] c.offset c.len c.block) ⟨aux, [], [], []⟩ []
      have hqueued := backingLoop_ok (fun c => .file [] c.offset c.len c.block) hchain
        hstart.whole hcells hrun
      rw [← backedBy_eq_iff 0]
      refine List.map_injective_iff.mpr ?_ (List.append_cancel_left hqueued).symm
      rintro ⟨o, n, b⟩ ⟨o', n', b'⟩ heq
      simpa using heq
  · rintro ⟨hjournal, hdescs, hfit⟩
    have hexact := u32_of_lt hjournal
    refine ⟨hexact, ?_, ?_, ?_, ?_⟩
    · intro force fs fs' hrun
      rw [ext4CreateJournalInode_size hrun, hexact]
    · intro chunk fs l
      exact backingLoop_fits chunk hchain hstart.whole
        (hchain.length_le.trans (Nat.le_succ _)) hcells 0 hfit hroom fs l
    · intro i b
      have htable := (ext4InitFsAuxInfo_some haux).2.2.2.1
      have hlt := inodeTableBlocks_mul_lt info
      rw [← htable] at hlt
      simp [queuedLen, tableChunk, u32_of_lt hlt]
    · intro i c hc n hn
      rw [queuedLen_groupChunks info aux i hc hn, u32_of_lt hdescs]

theorem lengthsExact_iff_of_small :
    LengthsExact smallInfo smallAux (linkedAlloc [⟨10, 2, 0⟩, ⟨500, 1, 0⟩])
      [⟨10, 2, 0⟩, ⟨500, 1, 0⟩] 9000 ↔
    smallInfo.journalBlocks.val * smallInfo.blockSize.val < 4294967296 ∧
      smallAux.bgDescBlocks * smallInfo.blockSize.val < 4294967296 ∧
      RegionsFit smallInfo.blockSize.val 9000 [⟨10, 2, 0⟩, ⟨500, 1, 0⟩] :=
  lengthsExact_iff rfl (atStart_linkedAlloc _) (by decide) (by decide)

-- make_ext4fs -l 8g -j 1049601.
def longJournalRequest : FsRequest :=
  ⟨8589934592, 0, 0, 0, 0, 1049601, 0, [], false, List.replicate 16 0⟩

def longJournalInfo : FsInfo :=
  ⟨8589934592, 4096, 32768, 8192, 256, 524288, 1049601, 19, 28, 66, 511, 0, [], false,
    List.replicate 16 0⟩

-- The journal is said to have 2^20 blocks more than its inode has.
theorem long_journal_wraps : settleInfo longJournalRequest none = .ok longJournalInfo ∧
    u32 (longJournalInfo.journalBlocks.val * longJournalInfo.blockSize.val) = 1025 * 4096 ∧
    ∃ aux, ext4InitFsAuxInfo longJournalInfo = some aux ∧
      ¬ LengthsExact longJournalInfo aux (linkedAlloc []) [] 0 := by
  refine ⟨rfl, by decide, ?_⟩
  obtain ⟨aux, haux⟩ := ext4InitFsAuxInfo_exists longJournalInfo (by decide) (by decide)
  exact ⟨aux, haux, fun h => absurd h.journal (by decide)⟩

end Exact

end MakeExt4fs

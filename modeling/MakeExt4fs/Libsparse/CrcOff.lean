import MakeExt4fs.Libsparse.CrcChunk
import MakeExt4fs.Libsparse.Written

namespace MakeExt4fs

open Interrupt Words
open Buffer (leBytes)

section Counting

def chunkTotalFrom (bs : Nat) : Nat → List BackedBlock → Nat
  | _, [] => 0
  | lastBlock, bb :: rest =>
    (if bb.block > lastBlock then 2 else 1) + chunkTotalFrom bs (blockAfter bs bb) rest

def chunkTotal (s : SparseFile) : Nat :=
  chunkTotalFrom s.blockSize 0 s.blocks +
    if lastBlockFrom s.blockSize 0 s.blocks < lenInBlocks s then 1 else 0

theorem length_chunksFrom (h : Host) (bs lastBlock : Nat) (blocks : List BackedBlock) :
    (chunksFrom h bs lastBlock blocks).length = chunkTotalFrom bs lastBlock blocks := by
  induction blocks generalizing lastBlock with
  | nil => rfl
  | cons bb rest ih =>
    simp only [chunksFrom, chunkTotalFrom, List.length_append, List.length_cons, ih]
    split <;> simp <;> omega

theorem countChunksFrom_eq (bs lastBlock chunks : Nat) (blocks : List BackedBlock)
    (hlt : chunks + chunkTotalFrom bs lastBlock blocks < 4294967296) :
    countChunksFrom bs lastBlock chunks blocks =
      (lastBlockFrom bs lastBlock blocks, chunks + chunkTotalFrom bs lastBlock blocks) := by
  induction blocks generalizing lastBlock chunks with
  | nil => rfl
  | cons bb rest ih =>
    simp only [chunkTotalFrom] at hlt
    rw [countChunksFrom, u32_of_lt (by omega), ih _ _ (by omega), lastBlockFrom, chunkTotalFrom,
      Nat.add_assoc]

theorem sparseCountChunks_eq {s : SparseFile} (hlt : chunkTotal s < 4294967296) :
    sparseCountChunks s = chunkTotal s := by
  rw [chunkTotal] at hlt
  rw [sparseCountChunks, countChunksFrom_eq _ _ _ _ (by omega)]
  simp only [Nat.zero_add, chunkTotal]
  split
  · rename_i hend
    rw [if_pos hend] at hlt
    rw [u32_of_lt hlt]
  · rw [Nat.add_zero]

theorem length_chunksOf_le (h : Host) {s : SparseFile} (hbs : 0 < s.blockSize) :
    (chunksOf h s).length ≤ chunkTotal s := by
  rw [chunksOf, List.length_append, length_chunksFrom, chunkTotal]
  refine Nat.add_le_add_left ?_ _
  rw [finalSkip]
  split
  · rename_i hpad
    have hpos := hpad.1
    have hlast : (0 : Int) ≤ lastBlockFrom s.blockSize 0 s.blocks * s.blockSize := by positivity
    have hend : (lastBlockFrom s.blockSize 0 s.blocks : Int) < lenInBlocks s := by
      rw [lenInBlocks, Int.tdiv_eq_ediv_of_nonneg (by omega), Int.lt_iff_add_one_le,
        Int.le_ediv_iff_mul_le (by omega), Int.add_mul]
      omega
    rw [if_pos hend]
    rfl
  · simp

end Counting

section Passing

theorem passed_of_writable {bs : Nat} {c : SparseChunk} (hc : c.Writable bs) :
    Passed (u32 bs) (c.bytes bs) := by
  cases c with
  | fill len fillVal => exact passed_fill _ _
  | skip blocks => exact passed_skip _
  | raw data =>
    have hdiv := align32_div_mul data.length bs
    have hlt : align32 data.length bs / bs * bs < 4294967296 := by
      rw [hdiv]
      exact u32_lt _
    have hpassed := passed_raw ((length_padded hc).trans hdiv.symm) hlt
    rw [hdiv] at hpassed
    exact hpassed

theorem readAll_gives {file data : List UInt8} {len : Nat} {r : SparseReader}
    (hdata : (file.drop r.pos).take len = data) {Q : List UInt8 → SparseReader → Prop}
    (hq : Q data { r with pos := r.pos + len }) :
    (readAll file len).Ends Q (fun _ _ => True) r := by
  refine readAll_ends fun _ => ?_
  rw [hdata]
  exact hq

theorem readSparse_ends {file bytes : List UInt8} {fd : Int} {bs copybufSize : Nat} {crc : Bool}
    {r : SparseReader} {hdr : SparseHeader} (hbytes : (file.drop r.pos).take sparseHeaderLen = bytes)
    (hof : SparseHeader.ofBytes bytes = hdr) (hfileSz : hdr.fileHdrSz = sparseHeaderLen)
    {Q : SparseReader → Prop}
    (hfold : (Act.fold (List.range hdr.totalChunks) (fun cur _ => readChunk file fd copybufSize bs
      hdr.chunkHdrSz crc cur) 0).Ends (fun _ r' => Q r') (fun _ _ => True)
      { r with pos := r.pos + sparseHeaderLen }) :
    (sparseFileReadSparse file fd copybufSize bs crc).Ends (fun _ r' => Q r') (fun _ _ => True)
      r := by
  rw [sparseFileReadSparse, Act.ends_bind]
  refine readAll_gives hbytes (.ite (fun _ => trivial) fun _ => ?_)
  rw [hof, hfileSz, if_neg (lt_irrefl _)]
  dsimp only
  rw [Act.ends_bind]
  refine hfold.post fun cur r' hr => .ite (fun _ => trivial) fun _ => hr

theorem readSparse_stops {hdr : SparseHeader} {chunks : List (List UInt8)} {file : List UInt8}
    {fd : Int} {bs crc32 copybufSize : Nat} {r : SparseReader}
    (hfile : file = hdr.bytes ++ chunks.flatten ++ crcChunkBytes crc32)
    (hfileSz : u16 hdr.fileHdrSz = sparseHeaderLen) (hchunkSz : u16 hdr.chunkHdrSz = chunkHeaderLen)
    (hchunks : ∀ c ∈ chunks, Passed bs c) (hcount : chunks.length < u32 hdr.totalChunks)
    (hpos : r.pos = 0) :
    (sparseFileReadSparse file fd copybufSize bs false).Ends (fun _ _ => False)
      (fun _ _ => True) r := by
  obtain ⟨hfileHdr, hchunkHdr, -, htotal⟩ := hdr.ofBytes_bytes
  have hbytes : (file.drop r.pos).take sparseHeaderLen = hdr.bytes := by
    rw [hpos, List.drop_zero, hfile, List.append_assoc]
    exact List.take_left' hdr.length_bytes
  refine readSparse_ends hbytes rfl (hfileHdr.trans hfileSz) ?_
  rw [hchunkHdr, hchunkSz, htotal, hfile, crcChunkBytes, ← List.append_assoc]
  refine readChunks_crash hchunks (by simpa using hcount) ?_
  rw [hpos, hdr.length_bytes, sparseHeaderLen]

end Passing

section RoundTrip

def SparseChunk.image (bs : Nat) : SparseChunk → List UInt8
  | raw data => data ++ padding bs data.length
  | fill len fillVal => (List.replicate (align32 len bs / 4) (leBytes 4 fillVal)).flatten
  | skip blocks => List.replicate (blocks * bs) 0

structure CrcRoundTrip (h : Host) (s : SparseFile) (file : List UInt8) : Prop where
  stored : file.drop (file.length - 4) =
    leBytes 4 (sparseCrc32 0 ((chunksOf h s).flatMap (SparseChunk.image s.blockSize)))
  checked : ∀ (fd : Int) (copybuf : List UInt8), 0 < copybuf.length →
    ∃ s', sparseFileImport file fd copybuf.length true copybuf = .ok s'
  unchecked : ∀ (fd : Int) (copybuf : List UInt8), 0 < copybuf.length →
    ∃ s', sparseFileImport file fd copybuf.length false copybuf = .ok s'

theorem sparseFileImport_ok {file copybuf : List UInt8} {fd : Int} {copybufSize : Nat} {crc : Bool}
    {s : SparseFile} (hok : sparseFileImport file fd copybufSize crc copybuf = .ok s) :
    ∃ blockSize r, blockSize = (SparseHeader.ofBytes (file.take sparseHeaderLen)).blkSz ∧
      sparseFileReadSparse file fd copybufSize blockSize crc
        ⟨0, 0, copybuf, backedBlockListNew blockSize⟩ = (.ok (), r) := by
  rw [sparseFileImport] at hok
  generalize SparseHeader.ofBytes (file.take sparseHeaderLen) = hdr at hok ⊢
  refine ⟨hdr.blkSz, ?_⟩
  split at hok
  · cases hok
  · split at hok
    · cases hok
    · split at hok
      · rename_i r hr
        exact ⟨r, rfl, hr⟩
      · cases hok

theorem import_not_ok {h : Host} {s : SparseFile} {crc32 copybufSize : Nat} {fd : Int}
    {copybuf : List UInt8} {s' : SparseFile} (hbs : 0 < s.blockSize)
    (hwritable : ∀ c ∈ chunksOf h s, c.Writable s.blockSize)
    (hcount : chunkTotal s + 1 < 4294967296) :
    sparseFileImport ((headerOf s true).bytes ++
      (chunksOf h s).flatMap (SparseChunk.bytes s.blockSize) ++ crcChunkBytes crc32) fd copybufSize
        false copybuf ≠ .ok s' := by
  have htotal : (chunksOf h s).length < u32 (headerOf s true).totalChunks := by
    have hle := length_chunksOf_le h hbs
    simp only [headerOf, sparseCountChunks_eq (show chunkTotal s < 4294967296 by omega), if_true]
    rw [u32_of_lt hcount, u32_of_lt hcount]
    omega
  have hpassed : ∀ c ∈ (chunksOf h s).map (SparseChunk.bytes s.blockSize),
      Passed (u32 s.blockSize) c := by
    intro c hc
    obtain ⟨c, hmem, rfl⟩ := List.mem_map.mp hc
    exact passed_of_writable (hwritable c hmem)
  rw [List.flatMap_def]
  generalize hfile : (headerOf s true).bytes ++ ((chunksOf h s).map _).flatten ++ _ = file
  intro hok
  obtain ⟨bs, r, hbs, hr⟩ := sparseFileImport_ok hok
  have htake : file.take sparseHeaderLen = (headerOf s true).bytes := by
    rw [← hfile, List.append_assoc]
    exact List.take_left' (SparseHeader.length_bytes _)
  rw [htake, (SparseHeader.ofBytes_bytes _).2.2.1] at hbs
  subst hbs
  exact (readSparse_stops hfile.symm rfl rfl hpassed (by simpa using htotal) rfl).ok hr

-- A reader without the crc calls process_crc32_chunk with what a null pointer points to.
theorem not_crcRoundTrip {h : Host} {s : SparseFile} {out : Out} (hh : h.Reliable)
    (hw : sparseFileWrite h s (Out.start s false true true) = (.ok 0, out))
    (hcount : chunkTotal s + 1 < 4294967296) : ¬ CrcRoundTrip h s out.written := by
  intro hround
  obtain ⟨-, hbs, hwritable, crc32, hwritten⟩ := sparseFileWrite_written hh hw
  obtain ⟨s', hs'⟩ := hround.unchecked 0 [0] (by decide)
  rw [hwritten, if_pos rfl] at hs'
  exact import_not_ok hbs hwritable hcount hs'

def calmHost : Host where
  mem _ := 0
  file _ _ := 0
  fd _ _ := 0
  fault _ := none

def oneRaw : SparseFile := ⟨8, 8, [⟨0, 0, 8, .data 0⟩]⟩

def oneRawFile : List UInt8 :=
  (sparseFileWrite calmHost oneRaw (Out.start oneRaw false true true)).2.written

theorem not_crcRoundTrip_oneRaw : ¬ CrcRoundTrip calmHost oneRaw
    (sparseFileWrite calmHost oneRaw (Out.start oneRaw false true true)).2.written :=
  not_crcRoundTrip (fun _ => rfl) (Prod.ext (by decide +kernel) rfl) (by decide)

theorem oneRaw_unreadable : ¬ CrcRoundTrip calmHost oneRaw oneRawFile := by
  intro hround
  obtain ⟨s', hs'⟩ := hround.unchecked 0 [0, 0, 0, 0] (by decide)
  have hcrash : sparseFileImport oneRawFile 0 4 false [0, 0, 0, 0] = .error .crash := by
    decide +kernel
  rw [List.length_cons] at hs'
  exact absurd (hcrash.symm.trans hs') (by simp)

end RoundTrip

end MakeExt4fs

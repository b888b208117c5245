import MakeExt4fs.Libsparse.Import
import MakeExt4fs.Libsparse.Stretches

namespace MakeExt4fs

open Words

section Format

def ChunkHeader.sizeInFile (bs hdrSz : Nat) (hdr : ChunkHeader) : Option Nat :=
  if hdr.chunkType = chunkTypeRaw then some (hdrSz + hdr.chunkSz * bs)
  else if hdr.chunkType = chunkTypeFill then some (hdrSz + 4)
  else if hdr.chunkType = chunkTypeDontCare then some hdrSz
  else if hdr.chunkType = chunkTypeCrc32 then some (hdrSz + 4)
  else none

structure PlacedChunk where
  pos : Nat
  start : Nat
  hdr : ChunkHeader

variable (file : List UInt8) (fd : Int) (hdrSz : Nat)

def chunksAt : Nat → Nat → Nat → List PlacedChunk
  | 0, _, _ => []
  | n + 1, pos, start =>
    let hdr := ChunkHeader.ofBytes ((file.drop pos).take chunkHeaderLen)
    ⟨pos, start, hdr⟩ :: chunksAt n (pos + hdr.totalSz) (start + hdr.chunkSz)

def PlacedChunk.backing (p : PlacedChunk) : Option (Backing (List UInt8)) :=
  if p.hdr.chunkType = chunkTypeRaw then some (.fd fd ((p.pos + hdrSz : Nat) : Int))
  else if p.hdr.chunkType = chunkTypeFill then
    some (.fill (leValue ((file.drop (p.pos + hdrSz)).take 4) 0 4))
  else none

def chunksIn : List PlacedChunk :=
  chunksAt file (sparseHeader file).totalChunks (sparseHeader file).fileHdrSz 0

-- The format of the file, and what the sparse_file is to hold of it.
structure InFormat (s : SparseFile) : Prop where
  header : HasHeader file ∧ (sparseHeader file).fileHdrSz ≤ file.length
  sized : ∀ p ∈ chunksIn file, p.hdr.sizeInFile (sparseHeader file).blkSz
    (sparseHeader file).chunkHdrSz = some p.hdr.totalSz ∧ p.pos + p.hdr.totalSz ≤ file.length
  total : ((chunksIn file).map (·.hdr.chunkSz)).sum = (sparseHeader file).totalBlks
  represented : ∀ p ∈ chunksIn file, ∀ source,
    p.backing file fd (sparseHeader file).chunkHdrSz = some source → ∀ i < p.hdr.chunkSz,
      ∃ bb ∈ s.blocks, bb.sourceAt (sparseHeader file).blkSz (p.start + i) =
        some (source.advance (i * (sparseHeader file).blkSz))
  below : ∀ bb ∈ s.blocks,
    bb.block + bb.len / (sparseHeader file).blkSz ≤ (sparseHeader file).totalBlks

-- What process_chunk does not look at, for the chunks that the reader goes over.
structure Checked (bs : Nat) (found : List FoundChunk) : Prop where
  header : (sparseHeader file).fileHdrSz ≤ file.length
  known : ∀ c ∈ found, ((c.hdr file).sizeInFile bs hdrSz).isSome = true
  raw : ∀ c ∈ found, (c.hdr file).chunkType = chunkTypeRaw → hdrSz ≤ (c.hdr file).totalSz
  fill : ∀ c ∈ found, (c.hdr file).chunkType = chunkTypeFill →
    (c.hdr file).chunkSz * bs < 4294967296
  crc32 : ∀ c ∈ found, (c.hdr file).chunkType = chunkTypeCrc32 → (c.hdr file).chunkSz = 0
  total : (found.map (·.blocks file)).sum < 4294967296
  inFile : ∀ c ∈ found, c.dataPos hdrSz + c.bodyLen file bs ≤ file.length
  joined : (callsOf file fd bs hdrSz found).IsChain fun a b =>
    a.Joins bs b → a.len + b.len < 4294967296

end Format

section Numbers

variable {file : List UInt8} {fd : Int} {bs hdrSz : Nat} {crc : Bool} {c last : FoundChunk}
  {found : List FoundChunk}

theorem GoesOver.goesOn (h : GoesOver file bs hdrSz crc c found last) :
    ∀ d ∈ found, ∃ next, d.GoesOn file bs hdrSz crc next := by
  induction found generalizing c with
  | nil => simp
  | cons d rest ih =>
    obtain ⟨rfl, next, hgoes, hrest⟩ := h
    exact List.forall_mem_cons.mpr ⟨⟨next, hgoes⟩, ih hrest⟩

structure InARow (file : List UInt8) (start : Nat) (found : List FoundChunk) (stop : Nat) :
    Prop where
  sum : stop = start + (found.map (·.blocks file)).sum
  within : ∀ d ∈ found, start ≤ d.curBlock ∧ d.curBlock + d.blocks file ≤ stop
  apart : found.Pairwise fun d e => d.curBlock + d.blocks file ≤ e.curBlock

theorem GoesOver.inARow (h : GoesOver file bs hdrSz crc c found last)
    (hsum : c.curBlock + (found.map (·.blocks file)).sum < 4294967296) :
    InARow file c.curBlock found last.curBlock := by
  induction found generalizing c with
  | nil =>
    constructor
    · exact h.2
    · simp
    · exact .nil
  | cons d rest ih =>
    obtain ⟨rfl, next, hgoes, hrest⟩ := h
    rw [List.map_cons, List.sum_cons] at hsum
    have hnext : next.curBlock = d.curBlock + d.blocks file := by
      rw [hgoes.curBlock, u32_of_lt (by omega)]
    obtain ⟨hstop, hwithin, happart⟩ := ih hrest (by omega)
    constructor
    · rw [List.map_cons, List.sum_cons, hstop, hnext]
      omega
    · refine List.forall_mem_cons.mpr ⟨⟨le_rfl, by omega⟩, fun e he => ?_⟩
      have := hwithin e he
      exact ⟨by omega, this.2⟩
    · refine List.pairwise_cons.mpr ⟨fun e he => ?_, happart⟩
      have := hwithin e he
      omega

def stretchesOf (file : List UInt8) (fd : Int) (bs hdrSz : Nat) (found : List FoundChunk) :
    List Stretch :=
  found.filterMap fun c => (c.call file fd bs hdrSz).map (⟨·, c.blocks file⟩)

theorem map_call_stretchesOf (found : List FoundChunk) :
    (stretchesOf file fd bs hdrSz found).map (·.call) = callsOf file fd bs hdrSz found := by
  rw [stretchesOf, callsOf, List.map_filterMap]
  refine List.filterMap_congr fun c _ => ?_
  rw [Option.map_map]
  exact Option.map_id'

theorem call_eq_some {k : AddCall} (h : c.call file fd bs hdrSz = some k) :
    k.block = c.curBlock ∧ k.len = c.len file bs ∧ c.blocks file = (c.hdr file).chunkSz := by
  rw [FoundChunk.call] at h
  split at h
  · split at h
    · rename_i htype
      obtain rfl := Option.some.inj h
      exact ⟨rfl, rfl, by rw [FoundChunk.blocks, if_pos (.inl htype)]⟩
    · split at h
      · rename_i htype
        obtain rfl := Option.some.inj h
        exact ⟨rfl, rfl, by rw [FoundChunk.blocks, if_pos (.inr (.inl htype))]⟩
      · cases h
  · cases h

theorem mem_stretchesOf {x : Stretch} : x ∈ stretchesOf file fd bs hdrSz found ↔
    ∃ d ∈ found, d.call file fd bs hdrSz = some x.call ∧ d.blocks file = x.width := by
  rw [stretchesOf, List.mem_filterMap]
  refine exists_congr fun d => and_congr_right fun _ => ?_
  rw [Option.map_eq_some_iff]
  constructor
  · rintro ⟨k, hk, rfl⟩
    exact ⟨hk, rfl⟩
  · rintro ⟨hk, hwidth⟩
    exact ⟨x.call, hk, by rw [hwidth]⟩

theorem InARow.laid {start stop : Nat} (h : InARow file start found stop)
    (hstop : stop < 4294967296) : Laid bs (stretchesOf file fd bs hdrSz found) := by
  constructor
  case apart =>
    refine h.apart.filterMap _ ?_
    intro d e hde x hx y hy
    obtain ⟨k, hk, rfl⟩ := Option.map_eq_some_iff.mp hx
    obtain ⟨l, hl, rfl⟩ := Option.map_eq_some_iff.mp hy
    dsimp only
    rw [(call_eq_some hk).1, (call_eq_some hl).1]
    exact hde
  case len_le =>
    intro x hx
    obtain ⟨d, -, hcall, hwidth⟩ := mem_stretchesOf.mp hx
    obtain ⟨-, hlen, hblocks⟩ := call_eq_some hcall
    rw [hlen, ← hwidth, hblocks]
    exact Nat.mod_le _ _
  case len =>
    intro x hx
    obtain ⟨d, -, hcall, -⟩ := mem_stretchesOf.mp hx
    rw [(call_eq_some hcall).2.1]
    exact u32_lt _
  case block =>
    intro x hx
    obtain ⟨d, hd, hcall, -⟩ := mem_stretchesOf.mp hx
    have := h.within d hd
    rw [(call_eq_some hcall).1]
    omega

end Numbers

section Places

variable {file : List UInt8} {fd : Int} {bs hdrSz : Nat} {crc : Bool} {c d next last : FoundChunk}
  {found : List FoundChunk}

theorem totalSz_lt (file : List UInt8) (c : FoundChunk) : (c.hdr file).totalSz < 4294967296 :=
  Buffer.getLE_lt _ 8 4

theorem dataSize_eq (file : List UInt8) (c : FoundChunk) (hhdr : hdrSz < 4294967296) :
    c.dataSize file hdrSz = if hdrSz ≤ (c.hdr file).totalSz then (c.hdr file).totalSz - hdrSz
      else (c.hdr file).totalSz + 4294967296 - hdrSz := by
  have hlt := totalSz_lt file c
  simp only [FoundChunk.dataSize, sub32, u32]
  split <;> omega

theorem FoundChunk.GoesOn.sizeInFile (h : d.GoesOn file bs hdrSz crc next) (hhdr : hdrSz < 65536)
    {size : Nat} (hsize : (d.hdr file).sizeInFile bs hdrSz = some size)
    (hraw : (d.hdr file).chunkType = chunkTypeRaw → hdrSz ≤ (d.hdr file).totalSz) :
    size = (d.hdr file).totalSz := by
  have hlt := totalSz_lt file d
  have hdata := dataSize_eq file d (show hdrSz < 4294967296 by omega)
  rw [ChunkHeader.sizeInFile] at hsize
  split at hsize
  · rename_i htype
    obtain rfl := Option.some.inj hsize
    obtain ⟨hmod, hdiv⟩ := raw_of_acceptable h.acceptable htype
    have hwhole : d.dataSize file hdrSz = (d.hdr file).chunkSz * bs := by
      rw [← hdiv, Nat.div_mul_cancel (Nat.dvd_of_mod_eq_zero hmod)]
    have hle := hraw htype
    rw [if_pos hle] at hdata
    omega
  split at hsize
  · rename_i htype
    obtain rfl := Option.some.inj hsize
    have hfour := (fill_of_acceptable h.acceptable htype).1
    split at hdata <;> omega
  split at hsize
  · rename_i htype
    obtain rfl := Option.some.inj hsize
    have hzero := h.skip htype
    split at hdata <;> omega
  split at hsize
  · rename_i htype
    obtain rfl := Option.some.inj hsize
    have hfour := h.crc32 htype
    split at hdata <;> omega
  · cases hsize

theorem FoundChunk.end_of_sized (hsized : (d.hdr file).sizeInFile bs hdrSz = some (d.hdr file).totalSz) :
    d.dataPos hdrSz + d.bodyLen file bs = d.reader.pos + (d.hdr file).totalSz := by
  have hlt := totalSz_lt file d
  rw [ChunkHeader.sizeInFile] at hsized
  rw [FoundChunk.dataPos, FoundChunk.bodyLen]
  split at hsized
  · rename_i htype
    have htotal := Option.some.inj hsized
    rw [if_pos htype, FoundChunk.len, u32_of_lt (by omega)]
    omega
  rename_i hraw
  rw [if_neg hraw]
  split at hsized
  · rename_i htype
    have htotal := Option.some.inj hsized
    rw [if_pos (.inl htype)]
    omega
  rename_i hfill
  split at hsized
  · rename_i htype
    have htotal := Option.some.inj hsized
    have hcrc32 : ¬ (d.hdr file).chunkType = chunkTypeCrc32 := by rw [htype]; decide
    rw [if_neg (not_or.mpr ⟨hfill, hcrc32⟩)]
    omega
  split at hsized
  · rename_i htype
    have htotal := Option.some.inj hsized
    rw [if_pos (.inr htype)]
    omega
  · cases hsized

theorem le_totalSz_of_sized {hdr : ChunkHeader} (h : hdr.sizeInFile bs hdrSz = some hdr.totalSz) :
    hdrSz ≤ hdr.totalSz := by
  rw [ChunkHeader.sizeInFile] at h
  split at h
  · have := Option.some.inj h
    omega
  split at h
  · have := Option.some.inj h
    omega
  split at h
  · have := Option.some.inj h
    omega
  split at h
  · have := Option.some.inj h
    omega
  · cases h

def FoundChunk.place (file : List UInt8) (d : FoundChunk) : PlacedChunk :=
  ⟨d.reader.pos, d.curBlock, d.hdr file⟩

theorem GoesOver.places (h : GoesOver file bs hdrSz crc c found last) (start : Nat)
    (hsized : (∀ d ∈ found, (d.hdr file).sizeInFile bs hdrSz = some (d.hdr file).totalSz) ∨
      ∀ p ∈ chunksAt file found.length c.reader.pos start,
        p.hdr.sizeInFile bs hdrSz = some p.hdr.totalSz) :
    (chunksAt file found.length c.reader.pos start).map (fun p => (p.pos, p.hdr)) =
      found.map fun d => (d.reader.pos, d.hdr file) := by
  induction found generalizing c start with
  | nil => rfl
  | cons d rest ih =>
    obtain ⟨rfl, next, hgoes, hrest⟩ := h
    have hd : (d.hdr file).sizeInFile bs hdrSz = some (d.hdr file).totalSz := by
      rcases hsized with h | h
      · exact h d List.mem_cons_self
      · exact h _ List.mem_cons_self
    have hpos : next.reader.pos = d.reader.pos + (d.hdr file).totalSz := by
      rw [hgoes.pos, FoundChunk.end_of_sized hd]
    rw [List.length_cons, chunksAt, List.map_cons, List.map_cons]
    refine congrArg₂ _ rfl ?_
    have hnext := ih hrest (start + (d.hdr file).chunkSz) ?_
    · rw [← hnext, hpos]
      rfl
    · rcases hsized with h | h
      · exact .inl fun e he => h e (List.mem_cons_of_mem d he)
      · refine .inr fun p hp => h p (List.mem_cons_of_mem _ ?_)
        rw [hpos] at hp
        exact hp

theorem blocks_le (file : List UInt8) (d : FoundChunk) : d.blocks file ≤ (d.hdr file).chunkSz := by
  rw [FoundChunk.blocks]
  split
  · exact le_rfl
  · exact Nat.zero_le _

theorem blocks_eq_iff (hknown : ((d.hdr file).sizeInFile bs hdrSz).isSome = true) :
    d.blocks file = (d.hdr file).chunkSz ↔
      ((d.hdr file).chunkType = chunkTypeCrc32 → (d.hdr file).chunkSz = 0) := by
  rw [ChunkHeader.sizeInFile] at hknown
  rw [FoundChunk.blocks]
  split
  · rename_i htype
    have hcrc32 : (d.hdr file).chunkType ≠ chunkTypeCrc32 := by
      rcases htype with h | h | h <;> rw [h] <;> decide
    exact ⟨fun _ h => absurd h hcrc32, fun _ => rfl⟩
  · rename_i hother
    simp only [not_or] at hother
    rw [if_neg hother.1, if_neg hother.2.1, if_neg hother.2.2] at hknown
    have hcrc32 : (d.hdr file).chunkType = chunkTypeCrc32 := by
      by_contra hne
      rw [if_neg hne] at hknown
      cases hknown
    exact ⟨fun h _ => h.symm, fun h => (h hcrc32).symm⟩

theorem GoesOver.chunksAt_eq (h : GoesOver file bs hdrSz crc c found last)
    (hsized : ∀ d ∈ found, (d.hdr file).sizeInFile bs hdrSz = some (d.hdr file).totalSz)
    (hblocks : ∀ d ∈ found, d.blocks file = (d.hdr file).chunkSz)
    (hsum : c.curBlock + (found.map (·.blocks file)).sum < 4294967296) :
    chunksAt file found.length c.reader.pos c.curBlock = found.map (·.place file) := by
  induction found generalizing c with
  | nil => rfl
  | cons d rest ih =>
    obtain ⟨rfl, next, hgoes, hrest⟩ := h
    rw [List.map_cons, List.sum_cons] at hsum
    have hpos : next.reader.pos = d.reader.pos + (d.hdr file).totalSz := by
      rw [hgoes.pos, FoundChunk.end_of_sized (hsized d List.mem_cons_self)]
    have hcur : next.curBlock = d.curBlock + (d.hdr file).chunkSz := by
      rw [hgoes.curBlock, u32_of_lt (by omega), hblocks d List.mem_cons_self]
    have hnext := ih hrest (fun e he => hsized e (List.mem_cons_of_mem d he))
      (fun e he => hblocks e (List.mem_cons_of_mem d he))
      (by rw [hgoes.curBlock, u32_of_lt (by omega)]; omega)
    rw [List.length_cons, chunksAt, List.map_cons, ← hnext, hpos, hcur]
    rfl

theorem fillVal_eq (hin : d.dataPos hdrSz + 4 ≤ file.length) :
    leValue ((file.drop (d.dataPos hdrSz)).take 4) 0 4 = d.fillVal file hdrSz := by
  have hlen : ((file.drop (d.dataPos hdrSz)).take 4).length = 4 := by
    rw [List.length_take, List.length_drop]
    omega
  rw [leValue, hlen]
  rfl

theorem backing_place (h : d.Acceptable file bs hdrSz) :
    (d.place file).backing file fd hdrSz =
      (d.call file fd bs hdrSz).map AddCall.backing := by
  rw [PlacedChunk.backing, FoundChunk.call, if_pos h]
  change (if (d.hdr file).chunkType = chunkTypeRaw then _ else _) = _
  by_cases hraw : (d.hdr file).chunkType = chunkTypeRaw
  · rw [if_pos hraw, if_pos hraw]
    rfl
  rw [if_neg hraw, if_neg hraw]
  change (if (d.hdr file).chunkType = chunkTypeFill then _ else _) = _
  by_cases hfill : (d.hdr file).chunkType = chunkTypeFill
  · rw [if_pos hfill, if_pos hfill]
    change some (Backing.fill (leValue ((file.drop (d.dataPos hdrSz)).take 4) 0 4)) = _
    rw [fillVal_eq (fill_of_acceptable h hfill).2]
    rfl
  · rw [if_neg hfill, if_neg hfill]
    rfl

end Places

section Accepting

variable {file : List UInt8} {fd : Int} {copybufSize : Nat} {crc : Bool} {copybuf : List UInt8}
  {s : SparseFile}

structure GoneOver (file : List UInt8) (fd : Int) (bs hdrSz : Nat) (crc : Bool)
    (first : FoundChunk) (found : List FoundChunk) (total : Nat) (bbl : BackedBlockList) : Prop where
  passed : ∃ r, GoesOver file bs hdrSz crc first found ⟨r, total⟩
  queued : addAll (backedBlockListNew bs) (callsOf file fd bs hdrSz found) = some bbl

theorem import_ok (hcopybuf : 0 < copybufSize)
    (hok : sparseFileImport file fd copybufSize crc copybuf = .ok s) :
    HasHeader file ∧ (foundIn file fd copybufSize crc copybuf).length =
      (sparseHeader file).totalChunks ∧ ∃ bbl, s.blocks = bbl.dataBlocks ∧
        GoneOver file fd (sparseHeader file).blkSz (sparseHeader file).chunkHdrSz crc
          (firstChunk file copybuf) (foundIn file fd copybufSize crc copybuf)
          (sparseHeader file).totalBlks bbl := by
  have hheader : HasHeader file := by
    by_contra h
    rw [import_of_not_hasHeader h] at hok
    cases hok
  rw [import_of_hasHeader hheader] at hok
  split at hok
  · rename_i r hrun
    obtain rfl := Except.ok.inj hok
    obtain ⟨-, hlen, hqueued, hover⟩ := (readSparse_ends_found fd crc copybuf hcopybuf hheader).ok hrun
    exact ⟨hheader, hlen, r.bbl, rfl, ⟨r, hover⟩, hqueued⟩
  · cases hok

variable {bs hdrSz total : Nat} {first d : FoundChunk} {found : List FoundChunk}
  {bbl : BackedBlockList}

theorem InARow.inOrder {start stop : Nat} (h : InARow file start found stop)
    (hqueued : addAll (backedBlockListNew bs) (callsOf file fd bs hdrSz found) = some bbl) :
    QueuedInOrder bs ((stretchesOf file fd bs hdrSz found).map (·.call)) bbl := by
  rw [map_call_stretchesOf]
  refine queuedInOrder_of_addAll ?_ hqueued
  refine h.apart.filterMap _ ?_
  intro d e hde k hk l hl
  rw [(call_eq_some hk).1, (call_eq_some hl).1]
  omega

variable (fd) in
theorem lossless_iff (hsized : ∀ d ∈ found, (d.hdr file).sizeInFile bs hdrSz =
      some (d.hdr file).totalSz) (hgoes : ∀ d ∈ found, ∃ next, d.GoesOn file bs hdrSz crc next) :
    Lossless bs (stretchesOf file fd bs hdrSz found) ↔
      (∀ d ∈ found, (d.hdr file).chunkType = chunkTypeFill →
        (d.hdr file).chunkSz * bs < 4294967296) ∧
      (callsOf file fd bs hdrSz found).IsChain fun a b =>
        a.Joins bs b → a.len + b.len < 4294967296 := by
  constructor
  · rintro ⟨hwhole, hjoined⟩
    rw [map_call_stretchesOf] at hjoined
    refine ⟨fun d hd hfill => ?_, hjoined⟩
    obtain ⟨next, hnext⟩ := hgoes d hd
    have hcall : d.call file fd bs hdrSz =
        some (.fill (d.fillVal file hdrSz) (d.len file bs) d.curBlock) := by
      rw [FoundChunk.call, if_pos hnext.acceptable, hfill, if_neg raw_ne_fill, if_pos rfl]
    have hlen := hwhole ⟨_, d.blocks file⟩ (mem_stretchesOf.mpr ⟨d, hd, hcall, rfl⟩)
    rw [← (call_eq_some hcall).2.2, ← hlen]
    exact u32_lt _
  · rintro ⟨hfill, hjoined⟩
    refine ⟨fun x hx => ?_, by rwa [map_call_stretchesOf]⟩
    obtain ⟨d, hd, hcall, hwidth⟩ := mem_stretchesOf.mp hx
    obtain ⟨-, hlen, hblocks⟩ := call_eq_some hcall
    rw [hlen, ← hwidth, hblocks, FoundChunk.len]
    refine u32_of_lt ?_
    by_cases hraw : (d.hdr file).chunkType = chunkTypeRaw
    · have htotal := hsized d hd
      rw [ChunkHeader.sizeInFile, if_pos hraw] at htotal
      have := Option.some.inj htotal
      have := totalSz_lt file d
      omega
    · refine hfill d hd ?_
      by_contra hne
      rw [call_of_other hraw hne] at hcall
      cases hcall

theorem chunkHdrSz_lt (file : List UInt8) : (sparseHeader file).chunkHdrSz < 65536 :=
  Buffer.getLE_lt _ 10 2

theorem blkSz_lt (file : List UInt8) : (sparseHeader file).blkSz < 4294967296 :=
  Buffer.getLE_lt _ 12 4

theorem totalBlks_lt (file : List UInt8) : (sparseHeader file).totalBlks < 4294967296 :=
  Buffer.getLE_lt _ 16 4

variable (fd bbl) in
theorem represented_iff (hgoes : ∀ d ∈ found, ∃ next, d.GoesOn file bs hdrSz crc next) :
    (∀ d ∈ found, ∀ source, (d.place file).backing file fd hdrSz = some source →
        ∀ i < (d.hdr file).chunkSz, ∃ bb ∈ bbl.dataBlocks,
          bb.sourceAt bs (d.curBlock + i) = some (source.advance (i * bs))) ↔
      ∀ x ∈ stretchesOf file fd bs hdrSz found, x.Filled bs bbl := by
  constructor
  · intro h x hx i hi
    obtain ⟨d, hd, hcall, hwidth⟩ := mem_stretchesOf.mp hx
    obtain ⟨hblock, -, hblocks⟩ := call_eq_some hcall
    obtain ⟨next, hnext⟩ := hgoes d hd
    rw [hblock]
    refine h d hd x.call.backing ?_ i (by omega)
    rw [backing_place hnext.acceptable, hcall]
    rfl
  · intro h d hd source hsource i hi
    obtain ⟨next, hnext⟩ := hgoes d hd
    rw [backing_place hnext.acceptable] at hsource
    obtain ⟨k, hcall, rfl⟩ := Option.map_eq_some_iff.mp hsource
    obtain ⟨hblock, -, hblocks⟩ := call_eq_some hcall
    rw [← hblock]
    exact h ⟨k, d.blocks file⟩ (mem_stretchesOf.mpr ⟨d, hd, hcall, rfl⟩) i (by rwa [hblocks])

theorem sum_blocks_le (file : List UInt8) (found : List FoundChunk) :
    (found.map (·.blocks file)).sum ≤ (found.map fun d => (d.hdr file).chunkSz).sum :=
  List.sum_le_sum fun d _ => blocks_le file d

theorem blocks_eq_of_sum_eq
    (h : (found.map (·.blocks file)).sum = (found.map fun d => (d.hdr file).chunkSz).sum) :
    ∀ d ∈ found, d.blocks file = (d.hdr file).chunkSz := by
  induction found with
  | nil => simp
  | cons c rest ih =>
    have hle := sum_blocks_le file rest
    have hc := blocks_le file c
    simp only [List.map_cons, List.sum_cons] at h
    exact List.forall_mem_cons.mpr ⟨by omega, ih (by omega)⟩

structure Agrees (file : List UInt8) (bs hdrSz : Nat) (found : List FoundChunk) : Prop where
  sized : ∀ d ∈ found, (d.hdr file).sizeInFile bs hdrSz = some (d.hdr file).totalSz
  width : ∀ d ∈ found, d.blocks file = (d.hdr file).chunkSz
  sum : (found.map (·.blocks file)).sum < 4294967296

variable (h : GoneOver file fd (sparseHeader file).blkSz (sparseHeader file).chunkHdrSz crc
    (firstChunk file copybuf) found (sparseHeader file).totalBlks bbl)
  (hlen : found.length = (sparseHeader file).totalChunks)

include h hlen

theorem agrees_of_inFormat (hformat : InFormat file fd s) :
    Agrees file (sparseHeader file).blkSz (sparseHeader file).chunkHdrSz found := by
  obtain ⟨⟨r, hover⟩, -⟩ := h
  have hchunks : chunksIn file =
      chunksAt file found.length (firstChunk file copybuf).reader.pos 0 := by
    rw [hlen]
    rfl
  have hplaces := hover.places 0 (.inr fun p hp => (hformat.sized p (hchunks ▸ hp)).1)
  rw [← hchunks] at hplaces
  have hsums : (found.map fun d => (d.hdr file).chunkSz).sum = (sparseHeader file).totalBlks := by
    have hmap := congrArg (List.map fun q : Nat × ChunkHeader => q.2.chunkSz) hplaces
    rw [List.map_map, List.map_map] at hmap
    rw [← hformat.total]
    exact congrArg List.sum hmap.symm
  have hle := sum_blocks_le file found
  have htotal := totalBlks_lt file
  have hsum : (firstChunk file copybuf).curBlock + (found.map (·.blocks file)).sum < 4294967296 := by
    rw [firstChunk, Nat.zero_add]
    omega
  have hstop := (hover.inARow hsum).sum
  rw [firstChunk, Nat.zero_add] at hsum hstop
  constructor
  · intro d hd
    obtain ⟨p, hp, heq⟩ := List.mem_map.mp (hplaces ▸ List.mem_map_of_mem hd)
    have hhdr : p.hdr = d.hdr file := congrArg Prod.snd heq
    rw [← hhdr]
    exact (hformat.sized p hp).1
  · refine blocks_eq_of_sum_eq ?_
    rw [hsums]
    exact hstop.symm
  · exact hsum

omit hlen in
theorem agrees_of_checked (hchecked : Checked file fd (sparseHeader file).chunkHdrSz
    (sparseHeader file).blkSz found) :
    Agrees file (sparseHeader file).blkSz (sparseHeader file).chunkHdrSz found := by
  obtain ⟨⟨r, hover⟩, -⟩ := h
  constructor
  · intro d hd
    obtain ⟨next, hnext⟩ := hover.goesOn d hd
    obtain ⟨size, hsize⟩ := Option.isSome_iff_exists.mp (hchecked.known d hd)
    rw [hsize, hnext.sizeInFile (chunkHdrSz_lt file) hsize (hchecked.raw d hd)]
  · exact fun d hd => (blocks_eq_iff (hchecked.known d hd)).mpr (hchecked.crc32 d hd)
  · exact hchecked.total

theorem chunksIn_eq (hagrees : Agrees file (sparseHeader file).blkSz
    (sparseHeader file).chunkHdrSz found) : chunksIn file = found.map (·.place file) := by
  obtain ⟨⟨r, hover⟩, -⟩ := h
  have hsum : (firstChunk file copybuf).curBlock + (found.map (·.blocks file)).sum < 4294967296 := by
    rw [firstChunk, Nat.zero_add]
    exact hagrees.sum
  rw [chunksIn, ← hlen]
  exact hover.chunksAt_eq hagrees.sized hagrees.width hsum

variable (hbs : 0 < (sparseHeader file).blkSz) (hblocks : s.blocks = bbl.dataBlocks)

include hbs hblocks

theorem inFormat_iff_checked (hheader : HasHeader file) (hagrees : Agrees file
    (sparseHeader file).blkSz (sparseHeader file).chunkHdrSz found) :
    InFormat file fd s ↔ Checked file fd (sparseHeader file).chunkHdrSz
      (sparseHeader file).blkSz found := by
  have hchunks := chunksIn_eq h hlen hagrees
  obtain ⟨⟨r, hover⟩, hqueued⟩ := h
  have hgoes := hover.goesOn
  have hsum : (firstChunk file copybuf).curBlock + (found.map (·.blocks file)).sum < 4294967296 := by
    rw [firstChunk, Nat.zero_add]
    exact hagrees.sum
  have harow : InARow file 0 found (sparseHeader file).totalBlks := hover.inARow hsum
  have hlaid : Laid (sparseHeader file).blkSz (stretchesOf file fd (sparseHeader file).blkSz
      (sparseHeader file).chunkHdrSz found) := harow.laid (totalBlks_lt file)
  have hfilled := hlaid.filled_iff hbs (blkSz_lt file).le (harow.inOrder hqueued)
  have hrepresented := represented_iff fd bbl hgoes
  have hlossless := lossless_iff fd hagrees.sized hgoes
  constructor
  · intro hformat
    have hknown : ∀ d ∈ found, ((d.hdr file).sizeInFile (sparseHeader file).blkSz
        (sparseHeader file).chunkHdrSz).isSome = true := by
      intro d hd
      rw [hagrees.sized d hd]
      rfl
    have hplaced {d : FoundChunk} (hd : d ∈ found) : d.place file ∈ chunksIn file :=
      hchunks ▸ List.mem_map_of_mem hd
    obtain ⟨hfill, hjoined⟩ := hlossless.mp (hfilled.mp (hrepresented.mp fun d hd source hs i hi =>
      hblocks ▸ hformat.represented _ (hplaced hd) source hs i hi))
    constructor
    case header => exact hformat.header.2
    case known => exact hknown
    case raw => exact fun d hd _ => le_totalSz_of_sized (hagrees.sized d hd)
    case fill => exact hfill
    case crc32 => exact fun d hd => (blocks_eq_iff (hknown d hd)).mp (hagrees.width d hd)
    case total => exact hagrees.sum
    case inFile =>
      intro d hd
      obtain ⟨next, hnext⟩ := hgoes d hd
      rw [FoundChunk.end_of_sized (hagrees.sized d hd)]
      exact (hformat.sized _ (hplaced hd)).2
    case joined => exact hjoined
  · intro hchecked
    have hloss := hlossless.mpr ⟨hchecked.fill, hchecked.joined⟩
    have hfound := hrepresented.mpr (hfilled.mpr hloss)
    constructor
    case header => exact ⟨hheader, hchecked.header⟩
    case sized =>
      rw [hchunks, List.forall_mem_map]
      intro d hd
      obtain ⟨next, hnext⟩ := hgoes d hd
      refine ⟨hagrees.sized d hd, ?_⟩
      rw [FoundChunk.place, ← FoundChunk.end_of_sized (hagrees.sized d hd)]
      exact hchecked.inFile d hd
    case total =>
      have hwidth : found.map (·.blocks file) = found.map fun d => (d.hdr file).chunkSz :=
        List.map_congr_left hagrees.width
      have hstop := harow.sum
      rw [Nat.zero_add, hwidth] at hstop
      rw [hchunks, List.map_map, hstop]
      rfl
    case represented =>
      rw [hchunks, List.forall_mem_map, hblocks]
      exact hfound
    case below =>
      rw [hblocks]
      refine hlaid.below (harow.inOrder hqueued) hloss fun x hx => ?_
      obtain ⟨d, hd, hcall, hwidth⟩ := mem_stretchesOf.mp hx
      rw [(call_eq_some hcall).1, ← hwidth]
      exact (harow.within d hd).2

end Accepting

section Import

variable {file : List UInt8} {fd : Int} {copybufSize : Nat} {crc : Bool} {copybuf : List UInt8}
  {s : SparseFile}

theorem import_inFormat_iff (hcopybuf : 0 < copybufSize) (hbs : 0 < (sparseHeader file).blkSz)
    (hok : sparseFileImport file fd copybufSize crc copybuf = .ok s) :
    InFormat file fd s ↔ Checked file fd (sparseHeader file).chunkHdrSz (sparseHeader file).blkSz
      (foundIn file fd copybufSize crc copybuf) := by
  obtain ⟨hheader, hlen, bbl, hblocks, hgone⟩ := import_ok hcopybuf hok
  constructor
  · intro hformat
    have hagrees := agrees_of_inFormat hgone hlen hformat
    exact (inFormat_iff_checked hgone hlen hbs hblocks hheader hagrees).mp hformat
  · intro hchecked
    have hagrees := agrees_of_checked hgone hchecked
    exact (inFormat_iff_checked hgone hlen hbs hblocks hheader hagrees).mpr hchecked

def unknownChunk : List UInt8 :=
  SparseHeader.bytes ⟨sparseHeaderMagic, sparseHeaderMajorVer, 0, 28, 12, 4, 0, 1, 0⟩ ++
    ChunkHeader.bytes ⟨0xCAC5, 0, 0, 12⟩

theorem not_inFormat_unknownChunk (s : SparseFile) : ¬ InFormat unknownChunk 3 s := by
  intro h
  have hsome : ∀ p ∈ chunksIn unknownChunk, (p.hdr.sizeInFile (sparseHeader unknownChunk).blkSz
      (sparseHeader unknownChunk).chunkHdrSz).isSome = true := by
    intro p hp
    rw [(h.sized p hp).1]
    rfl
  rw [← List.all_eq_true] at hsome
  exact absurd hsome (by decide +kernel)

theorem unknownChunk_accepted : ¬ ∀ (file : List UInt8) (fd : Int) (copybufSize : Nat) (crc : Bool)
    (copybuf : List UInt8) (s : SparseFile), 0 < copybufSize → 0 < (sparseHeader file).blkSz →
    4 ∣ (sparseHeader file).blkSz → sparseFileImport file fd copybufSize crc copybuf = .ok s →
    InFormat file fd s := by
  intro h
  exact not_inFormat_unknownChunk ⟨4, 0, []⟩ (h unknownChunk 3 4 true [0, 0, 0, 0] _ (by decide)
    (by decide +kernel) (by decide +kernel) (by decide +kernel))

theorem unknownChunk_unchecked : ¬ Checked unknownChunk 3 (sparseHeader unknownChunk).chunkHdrSz
    (sparseHeader unknownChunk).blkSz (foundIn unknownChunk 3 4 true [0, 0, 0, 0]) := by
  intro h
  exact not_inFormat_unknownChunk ⟨4, 0, []⟩ ((import_inFormat_iff (by decide)
    (by decide +kernel) (by decide +kernel)).mpr h)

end Import

end MakeExt4fs

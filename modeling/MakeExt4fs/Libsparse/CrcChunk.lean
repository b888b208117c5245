import MakeExt4fs.Libsparse.SparseRead

namespace MakeExt4fs

open Interrupt Words
open Buffer (leBytes)

section Headers

theorem leValue_mid (xs ys : List UInt8) (n v : Nat) :
    leValue (xs ++ leBytes n v ++ ys) xs.length n = v % 256 ^ n := by
  apply Buffer.getLE_of_digits
  intro i hi
  have hlt : xs.length + i < (xs ++ leBytes n v ++ ys).length := by simp; omega
  rw [Buffer.get, if_pos hlt, ← Buffer.getD_leBytes n v i hi]
  congr 1
  simp only [List.getD_eq_getElem?_getD, List.append_assoc]
  rw [List.getElem?_append_right (by omega), Nat.add_sub_cancel_left,
    List.getElem?_append_left (by simpa using hi)]

@[simp] theorem ChunkHeader.length_bytes (hdr : ChunkHeader) : hdr.bytes.length = 12 := by
  simp [bytes]

@[simp] theorem SparseHeader.length_bytes (hdr : SparseHeader) : hdr.bytes.length = 28 := by
  simp [bytes]

theorem ChunkHeader.ofBytes_bytes (hdr : ChunkHeader) :
    ofBytes hdr.bytes = ⟨u16 hdr.chunkType, u16 hdr.reserved1, u32 hdr.chunkSz, u32 hdr.totalSz⟩ := by
  have htype := leValue_mid [] (leBytes 2 hdr.reserved1 ++ leBytes 4 hdr.chunkSz ++
    leBytes 4 hdr.totalSz) 2 hdr.chunkType
  have hres := leValue_mid (leBytes 2 hdr.chunkType) (leBytes 4 hdr.chunkSz ++
    leBytes 4 hdr.totalSz) 2 hdr.reserved1
  have hsz := leValue_mid (leBytes 2 hdr.chunkType ++ leBytes 2 hdr.reserved1)
    (leBytes 4 hdr.totalSz) 4 hdr.chunkSz
  have htotal := leValue_mid (leBytes 2 hdr.chunkType ++ leBytes 2 hdr.reserved1 ++
    leBytes 4 hdr.chunkSz) [] 4 hdr.totalSz
  simp only [List.append_assoc, List.nil_append, List.append_nil, List.length_append,
    List.length_nil, Buffer.length_leBytes, Nat.reduceAdd] at htype hres hsz htotal
  simp only [ofBytes, bytes, List.append_assoc, htype, hres, hsz, htotal]
  rfl

theorem SparseHeader.ofBytes_bytes (hdr : SparseHeader) :
    (ofBytes hdr.bytes).fileHdrSz = u16 hdr.fileHdrSz ∧
      (ofBytes hdr.bytes).chunkHdrSz = u16 hdr.chunkHdrSz ∧
      (ofBytes hdr.bytes).blkSz = u32 hdr.blkSz ∧
      (ofBytes hdr.bytes).totalChunks = u32 hdr.totalChunks := by
  have hfile := leValue_mid (leBytes 4 hdr.magic ++ leBytes 2 hdr.majorVersion ++
    leBytes 2 hdr.minorVersion) (leBytes 2 hdr.chunkHdrSz ++ leBytes 4 hdr.blkSz ++
    leBytes 4 hdr.totalBlks ++ leBytes 4 hdr.totalChunks ++ leBytes 4 hdr.imageChecksum)
    2 hdr.fileHdrSz
  have hchunk := leValue_mid (leBytes 4 hdr.magic ++ leBytes 2 hdr.majorVersion ++
    leBytes 2 hdr.minorVersion ++ leBytes 2 hdr.fileHdrSz) (leBytes 4 hdr.blkSz ++
    leBytes 4 hdr.totalBlks ++ leBytes 4 hdr.totalChunks ++ leBytes 4 hdr.imageChecksum)
    2 hdr.chunkHdrSz
  have hblk := leValue_mid (leBytes 4 hdr.magic ++ leBytes 2 hdr.majorVersion ++
    leBytes 2 hdr.minorVersion ++ leBytes 2 hdr.fileHdrSz ++ leBytes 2 hdr.chunkHdrSz)
    (leBytes 4 hdr.totalBlks ++ leBytes 4 hdr.totalChunks ++ leBytes 4 hdr.imageChecksum)
    4 hdr.blkSz
  have htotal := leValue_mid (leBytes 4 hdr.magic ++ leBytes 2 hdr.majorVersion ++
    leBytes 2 hdr.minorVersion ++ leBytes 2 hdr.fileHdrSz ++ leBytes 2 hdr.chunkHdrSz ++
    leBytes 4 hdr.blkSz ++ leBytes 4 hdr.totalBlks) (leBytes 4 hdr.imageChecksum)
    4 hdr.totalChunks
  simp only [List.append_assoc, List.length_append, Buffer.length_leBytes, Nat.reduceAdd]
    at hfile hchunk hblk htotal
  simp only [ofBytes, bytes, List.append_assoc]
  exact ⟨hfile, hchunk, hblk, htotal⟩

end Headers

section Reading

variable {pre bytes post : List UInt8} {fd : Int} {copybufSize bs cur : Nat} {r : SparseReader}

theorem readAll_ends {file : List UInt8} {len : Nat} {Q : List UInt8 → SparseReader → Prop}
    (hq : ((file.drop r.pos).take len).length = len →
      Q ((file.drop r.pos).take len) { r with pos := r.pos + len }) :
    (readAll file len).Ends Q (fun _ _ => True) r := by
  rw [readAll, Act.ends_bind, Act.ends_read, Act.ends_bind, Act.ends_update]
  split
  · exact trivial
  · rename_i hlt
    have hlen : ((file.drop r.pos).take len).length = len := by
      have := List.length_take_le len (file.drop r.pos)
      omega
    have hq' := hq hlen
    rw [Act.ends_pure, hlen]
    exact hq'

theorem readAll_at (hpos : r.pos = pre.length) {Q : List UInt8 → SparseReader → Prop}
    (hq : Q bytes { r with pos := (pre ++ bytes).length }) :
    (readAll (pre ++ bytes ++ post) bytes.length).Ends Q (fun _ _ => True) r := by
  refine readAll_ends fun _ => ?_
  rw [hpos, List.append_assoc, List.drop_left, List.take_left]
  simpa using hq

def Passed (bs : Nat) (bytes : List UInt8) : Prop :=
  ∀ (pre post : List UInt8) (fd : Int) (copybufSize cur : Nat) (r : SparseReader),
    r.pos = pre.length →
    (readChunk (pre ++ bytes ++ post) fd copybufSize bs chunkHeaderLen false cur).Ends
      (fun _ r' => r'.pos = (pre ++ bytes).length) (fun _ _ => True) r

theorem readChunk_ends (hdr : ChunkHeader) {file body : List UInt8}
    (hfile : file = pre ++ hdr.bytes ++ body) (hpos : r.pos = pre.length)
    {Q : SparseReader → Prop}
    (hq : (processChunk file fd copybufSize bs (pre.length + 12) chunkHeaderLen
        ⟨u16 hdr.chunkType, u16 hdr.reserved1, u32 hdr.chunkSz, u32 hdr.totalSz⟩ cur false).Ends
      (fun _ r' => Q r') (fun _ _ => True) { r with pos := pre.length + 12 }) :
    (readChunk file fd copybufSize bs chunkHeaderLen false cur).Ends (fun _ r' => Q r')
      (fun _ _ => True) r := by
  subst hfile
  rw [readChunk, Act.ends_bind]
  have hlen : chunkHeaderLen = hdr.bytes.length := hdr.length_bytes.symm
  rw [hlen]
  refine readAll_at hpos ?_
  simp only [lt_self_iff_false, if_false, List.length_append, ChunkHeader.length_bytes,
    Act.ends_bind, Act.ends_read, ChunkHeader.ofBytes_bytes] at hq ⊢
  refine hq.post fun ret r' hr => ?_
  split
  · exact trivial
  · exact hr

theorem addChunk_ends {f : BackedBlockList → Option BackedBlockList} {Q : SparseReader → Prop}
    (hq : ∀ bbl, Q { r with bbl }) : (addChunk f).Ends (fun _ r' => Q r') (fun _ _ => True) r := by
  rw [addChunk, Act.ends_bind, Act.ends_read, Act.ends_bind, Act.ends_expect]
  exact ⟨fun bbl _ => hq bbl, fun _ => trivial⟩

theorem passed_skip (k : Nat) : Passed bs (ChunkHeader.bytes ⟨chunkTypeDontCare, 0, k, 12⟩) := by
  intro pre post fd copybufSize cur r hpos
  refine readChunk_ends ⟨chunkTypeDontCare, 0, k, 12⟩ rfl hpos (Q := fun r' => r'.pos = _) ?_
  have htype : u16 chunkTypeDontCare = chunkTypeDontCare := rfl
  have hsize : sub32 (u32 12) chunkHeaderLen = 0 := rfl
  simp only [processChunk, htype, hsize]
  simp [chunkTypeDontCare, chunkTypeRaw, chunkTypeFill, processSkipChunk]

theorem passed_fill (k fillVal : Nat) :
    Passed bs (ChunkHeader.bytes ⟨chunkTypeFill, 0, k, 16⟩ ++ leBytes 4 fillVal) := by
  intro pre post fd copybufSize cur r hpos
  have hfile : pre ++ (ChunkHeader.bytes ⟨chunkTypeFill, 0, k, 16⟩ ++ leBytes 4 fillVal) ++ post =
      pre ++ ChunkHeader.bytes ⟨chunkTypeFill, 0, k, 16⟩ ++ (leBytes 4 fillVal ++ post) := by simp
  refine readChunk_ends _ hfile hpos (Q := fun r' => r'.pos = _) ?_
  have htype : u16 chunkTypeFill = chunkTypeFill := rfl
  have hsize : sub32 (u32 16) chunkHeaderLen = 4 := rfl
  simp only [processChunk, htype, hsize]
  rw [if_neg (by decide), if_pos trivial, processFillChunk, Act.ends_bind, if_neg (by decide),
    Act.ends_bind]
  refine readAll_ends fun _ => ?_
  rw [Act.ends_bind]
  refine addChunk_ends fun bbl => ?_
  simp [Nat.add_assoc]

theorem passed_raw {k : Nat} {body : List UInt8} (hlen : body.length = k * bs)
    (hlt : k * bs < 4294967296) :
    Passed (u32 bs) (ChunkHeader.bytes ⟨chunkTypeRaw, 0, k, u32 (12 + k * bs)⟩ ++ body) := by
  intro pre post fd copybufSize cur r hpos
  have hfile : pre ++ (ChunkHeader.bytes ⟨chunkTypeRaw, 0, k, u32 (12 + k * bs)⟩ ++ body) ++ post =
      pre ++ ChunkHeader.bytes ⟨chunkTypeRaw, 0, k, u32 (12 + k * bs)⟩ ++ (body ++ post) := by simp
  refine readChunk_ends _ hfile hpos (Q := fun r' => r'.pos = _) ?_
  have htype : u16 chunkTypeRaw = chunkTypeRaw := rfl
  simp only [processChunk, htype]
  -- A size that does not fit the blocks is an error, whatever it is.
  generalize sub32 _ chunkHeaderLen = chunkSize
  rw [if_pos trivial, processRawChunk, Act.ends_bind]
  refine .ite (fun _ => trivial) fun hbs => .ite (fun _ => trivial) fun _ =>
    .ite (fun _ => trivial) fun _ => ?_
  have hpos : 0 < bs := Nat.pos_of_ne_zero fun h => hbs (by rw [h]; rfl)
  have hk : u32 k = k := u32_of_lt (lt_of_le_of_lt (Nat.le_mul_of_pos_right k hpos) hlt)
  have hsize : k * u32 bs = k * bs := by
    rcases Nat.eq_zero_or_pos k with h0 | hk0
    · simp [h0]
    · rw [u32_of_lt (lt_of_le_of_lt (Nat.le_mul_of_pos_left bs hk0) hlt)]
  rw [hk, hsize, u32_of_lt hlt, Act.ends_bind]
  refine addChunk_ends fun bbl => ?_
  simp [seekCur, hlen, Nat.add_assoc]

theorem crcChunk_crashes (hpos : r.pos = pre.length) {Q : Nat → SparseReader → Prop} :
    (readChunk (pre ++ ChunkHeader.bytes ⟨chunkTypeCrc32, 0, 0, 16⟩ ++ post) fd copybufSize bs
      chunkHeaderLen false cur).Ends Q (fun _ _ => True) r := by
  refine Act.Ends.post (readChunk_ends _ rfl hpos (Q := fun _ => False) ?_) fun _ _ h => h.elim
  have htype : u16 chunkTypeCrc32 = chunkTypeCrc32 := rfl
  simp only [processChunk, htype]
  rw [if_neg (by decide), if_neg (by decide), if_neg (by decide), if_pos trivial, Act.ends_bind]
  exact trivial

theorem readChunks_crash {chunks : List (List UInt8)} (hchunks : ∀ c ∈ chunks, Passed bs c)
    {turns : List Nat} (hturns : chunks.length < turns.length) (hpos : r.pos = pre.length)
    {Q : Nat → SparseReader → Prop} :
    (Act.fold turns (fun cur _ => readChunk (pre ++ chunks.flatten ++
      ChunkHeader.bytes ⟨chunkTypeCrc32, 0, 0, 16⟩ ++ post) fd copybufSize bs chunkHeaderLen
        false cur) cur).Ends Q (fun _ _ => True) r := by
  induction chunks generalizing pre turns cur r with
  | nil =>
    obtain ⟨t, rest, rfl⟩ := List.exists_cons_of_length_pos (by simpa using hturns)
    rw [Act.fold, Act.ends_bind]
    simp only [List.flatten_nil, List.append_nil]
    exact crcChunk_crashes hpos
  | cons c chunks ih =>
    obtain ⟨t, rest, rfl⟩ := List.exists_cons_of_length_pos (show 0 < turns.length by omega)
    rw [Act.fold, Act.ends_bind]
    have hfirst := hchunks c (by simp) pre (chunks.flatten ++
      ChunkHeader.bytes ⟨chunkTypeCrc32, 0, 0, 16⟩ ++ post) fd copybufSize cur r hpos
    have hsplit : pre ++ (c :: chunks).flatten ++ ChunkHeader.bytes ⟨chunkTypeCrc32, 0, 0, 16⟩ ++
        post = pre ++ c ++ chunks.flatten ++ ChunkHeader.bytes ⟨chunkTypeCrc32, 0, 0, 16⟩ ++
        post := by simp
    rw [hsplit]
    refine Act.Ends.post (by simpa using hfirst) fun cur' r' hr => ?_
    exact ih (fun d hd => hchunks d (by simp [hd])) (by simpa using hturns) (by simpa using hr)

end Reading

end MakeExt4fs

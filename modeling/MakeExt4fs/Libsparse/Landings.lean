import MakeExt4fs.Libsparse.Images

namespace MakeExt4fs

open Interrupt Words

structure Fitting (s : SparseFile) : Prop where
  apart : s.blocks.Pairwise fun a b => a.block + divRoundUp a.len s.blockSize ≤ b.block
  pos : ∀ bb ∈ s.blocks, 0 < bb.len
  len : ∀ bb ∈ s.blocks, bb.len < 4294967296
  block : ∀ bb ∈ s.blocks, bb.block < 4294967296
  fill : ∀ bb ∈ s.blocks, ∀ val, bb.backing = .fill val → val < 4294967296
  inside : ∀ bb ∈ s.blocks, (bb.block * s.blockSize + bb.len : Int) ≤ s.len

section Runs

variable (h : Host) (s : SparseFile)

def writeUpTo (pre : List BackedBlock) (bb : BackedBlock) : Output Unit := do
  let _ ← outputFileOpenFd h (sparseCountChunks s)
  let r ← writeBlocksFrom h s.blockSize 0 pre
  skipGap h s.blockSize r.2 bb

def Lands (sparse crc : Bool) (pre : List BackedBlock) (bb : BackedBlock) : Prop :=
  ∃ out, writeUpTo h s pre bb (Out.start s false sparse crc) = (.ok (), out) ∧
    out.image.pos = bb.block * s.blockSize

end Runs

section Written

variable {h : Host} {s : SparseFile} {sparse crc : Bool} {out : Out}

def imageBefore (h : Host) (sparse : Bool) (bs : Nat) (pre : List BackedBlock)
    (bb : BackedBlock) : Image :=
  (chunksFrom h bs 0 pre ++ gapChunks (lastBlockFrom bs 0 pre) bb).foldl
    (SparseChunk.put sparse bs) .empty

theorem writeBlocksFrom_prefix {bs lastBlock last : Nat} {pre post : List BackedBlock}
    {bb : BackedBlock} {out out' : Out}
    (hrun : writeBlocksFrom h bs lastBlock (pre ++ bb :: post) out = (.ok (0, last), out')) :
    ∃ r out1 out2, writeBlocksFrom h bs lastBlock pre out = (.ok r, out1) ∧ r.1 = 0 ∧
      skipGap h bs r.2 bb out1 = (.ok (), out2) := by
  induction pre generalizing lastBlock out with
  | nil =>
    rw [List.nil_append, writeBlocksFrom, Act.bind_ok] at hrun
    obtain ⟨_, out1, hskip, -⟩ := hrun
    exact ⟨(0, lastBlock), out, out1, rfl, rfl, hskip⟩
  | cons b pre ih =>
    rw [List.cons_append, writeBlocksFrom, Act.bind_ok] at hrun
    obtain ⟨_, out1, hskip, hrun⟩ := hrun
    obtain ⟨ret, out2, hblock, hrun⟩ := Act.bind_ok.mp hrun
    by_cases hret : ret ≠ 0
    · rw [if_pos hret] at hrun
      cases hrun
      exact absurd rfl hret
    · rw [if_neg hret] at hrun
      obtain ⟨r, out3, out4, hpre, h0, hgap⟩ := ih hrun
      refine ⟨r, out3, out4, ?_, h0, hgap⟩
      rw [writeBlocksFrom, Act.bind_ok]
      refine ⟨_, out1, hskip, Act.bind_ok.mpr ⟨ret, out2, hblock, ?_⟩⟩
      rwa [if_neg hret]

theorem sparseFileWrite_parts
    (hrun : sparseFileWrite h s (Out.start s false sparse crc) = (.ok 0, out)) :
    0 < s.blockSize ∧ ∃ out0 out1 last,
      outputFileOpenFd h (sparseCountChunks s) (Out.start s false sparse crc) = (.ok true, out0) ∧
      writeBlocksFrom h s.blockSize 0 s.blocks out0 = (.ok (0, last), out1) := by
  rw [sparseFileWrite] at hrun
  by_cases hbs : s.blockSize = 0
  · rw [if_pos hbs] at hrun
    cases hrun
  rw [if_neg hbs, Act.bind_ok] at hrun
  obtain ⟨ok, out0, hopen, hrun⟩ := hrun
  refine ⟨Nat.pos_of_ne_zero hbs, ?_⟩
  cases ok with
  | false => cases hrun
  | true =>
    rw [if_pos rfl, Act.bind_ok] at hrun
    obtain ⟨ret, out1, hall, hrun⟩ := hrun
    obtain ⟨_, _, _, hret⟩ := Act.bind_ok.mp hrun
    obtain rfl : ret = 0 := by
      cases hret
      rfl
    rw [writeAllBlocks, Act.bind_ok] at hall
    obtain ⟨⟨ret, last⟩, out2, hblocks, hall⟩ := hall
    dsimp only at hall
    by_cases hret : ret ≠ 0
    · rw [if_pos hret] at hall
      cases hall
      exact absurd rfl hret
    · obtain rfl := not_not.mp hret
      exact ⟨out0, out2, last, hopen, hblocks⟩

theorem lands_iff (hh : h.Reliable) (h4 : 4 ∣ s.blockSize) (hfit : Fitting s)
    (hrun : sparseFileWrite h s (Out.start s false sparse crc) = (.ok 0, out))
    {pre post : List BackedBlock} {bb : BackedBlock} (hblocks : s.blocks = pre ++ bb :: post) :
    Lands h s sparse crc pre bb ↔
      (imageBefore h sparse s.blockSize pre bb).pos = bb.block * s.blockSize := by
  obtain ⟨hpos, out0, out1, last, hopen, hall⟩ := sparseFileWrite_parts hrun
  obtain ⟨hint, himage⟩ := (outputFileOpenFd_image hh s _).ok hopen rfl
  rw [hblocks] at hall
  obtain ⟨r, out2, out3, hpre, h0, hgap⟩ := writeBlocksFrom_prefix hall
  have hmem : ∀ b ∈ pre, b.block < 4294967296 := fun b hb =>
    hfit.block b (hblocks ▸ List.mem_append_left _ hb)
  have hbb : bb.block < 4294967296 := hfit.block bb (hblocks ▸ by simp)
  obtain ⟨hlast, himage2⟩ := (writeBlocksFrom_image hh h4 hpos hint hmem 0 himage).ok hpre h0
  have himage3 := ((skipGap_image hh hpos r.2 hbb himage2).ok hgap).image
  rw [hlast, ← List.foldl_append] at himage3
  have hup : writeUpTo h s pre bb (Out.start s false sparse crc) = (.ok (), out3) := by
    rw [writeUpTo, Act.bind_ok]
    exact ⟨true, out0, hopen, Act.bind_ok.mpr ⟨r, out2, hpre, hgap⟩⟩
  constructor
  · rintro ⟨out', hup', hland⟩
    rw [hup] at hup'
    cases hup'
    rwa [himage3] at hland
  · intro hland
    exact ⟨out3, hup, by rwa [himage3]⟩

def TakesBlocks (h : Host) (sparse : Bool) (bs : Nat) (bb : BackedBlock) : Prop :=
  ∀ img : Image, ((chunkOf h bb).put sparse bs img).pos = img.pos + align32 bb.len bs

theorem foldl_skip (bs : Nat) {cs : List SparseChunk} (hcs : ∀ c ∈ cs, ∃ n, c = .skip n)
    (sparse : Bool) (img : Image) : ∃ n, cs.foldl (SparseChunk.put sparse bs) img = img.skip n := by
  induction cs generalizing img with
  | nil => exact ⟨0, rfl⟩
  | cons c cs ih =>
    obtain ⟨n, rfl⟩ := hcs c List.mem_cons_self
    obtain ⟨m, hm⟩ := ih (fun d hd => hcs d (List.mem_cons_of_mem _ hd)) (img.skip (n * bs))
    refine ⟨n * bs + m, hm.trans ?_⟩
    simp only [Image.skip, Nat.add_assoc]

theorem takesBlocks_fill {bs : Nat} {bb : BackedBlock} {val : Nat} (hfill : bb.backing = .fill val) :
    TakesBlocks h true bs bb := by
  intro img
  rw [chunkOf, hfill]
  exact congrArg (img.pos + ·) (length_pattern _ _)

theorem length_bytesFrom (bytes : Nat → UInt8) (offset n : Nat) :
    (bytesFrom bytes offset n).length = n := by
  rw [bytesFrom, List.length_map, List.length_range]

theorem exists_raw {bb : BackedBlock} (hdata : ∀ val, bb.backing ≠ .fill val) :
    ∃ data, data.length = bb.len ∧ chunkOf h bb = .raw data := by
  rw [chunkOf]
  cases hb : bb.backing with
  | data p => exact ⟨_, length_bytesFrom _ _ _, rfl⟩
  | file name offset => exact ⟨_, length_bytesFrom _ _ _, rfl⟩
  | fd fd offset => exact ⟨_, length_bytesFrom _ _ _, rfl⟩
  | fill val => exact absurd hb (hdata val)

theorem takesBlocks_sparse {bs : Nat} {bb : BackedBlock} (hw : (chunkOf h bb).Writable bs) :
    TakesBlocks h true bs bb := by
  by_cases hfill : ∃ val, bb.backing = .fill val
  · obtain ⟨val, hfill⟩ := hfill
    exact takesBlocks_fill hfill
  · obtain ⟨data, hlen, hchunk⟩ := exists_raw fun val h => hfill ⟨val, h⟩
    rw [hchunk] at hw
    have hpadded := length_padded hw
    intro img
    rw [hchunk, ← hlen, ← hpadded]
    rfl

theorem takesBlocks_normal {bs : Nat} {bb : BackedBlock} (hpos : 0 < bs) (hint : bs ≤ 2147483647)
    (hdata : ∀ val, bb.backing ≠ .fill val) (hmap : bb.Mappable) : TakesBlocks h false bs bb := by
  obtain ⟨data, hlen, hchunk⟩ := exists_raw hdata
  have hsmall : bb.len ≤ 2147483647 := by
    rw [BackedBlock.Mappable] at hmap
    cases hb : bb.backing with
    | fill val => exact absurd hb (hdata val)
    | _ =>
      rw [hb] at hmap
      dsimp only at hmap
      omega
  have hle : bb.len ≤ align32 bb.len bs := by
    rw [align32_eq, divRoundUp32_eq (by omega)]
    exact le_divRoundUp_mul bb.len hpos
  intro img
  rw [hchunk, SparseChunk.put, hlen]
  simp only [Bool.false_eq_true, if_false, Image.pos_skip, Image.pos_write, hlen]
  omega

theorem chunkOf_mem_chunksFrom {bs lastBlock : Nat} {blocks : List BackedBlock} {bb : BackedBlock}
    (hbb : bb ∈ blocks) : chunkOf h bb ∈ chunksFrom h bs lastBlock blocks := by
  induction blocks generalizing lastBlock with
  | nil => cases hbb
  | cons b rest ih =>
    rw [chunksFrom_cons, List.mem_append, List.mem_cons]
    rcases List.mem_cons.mp hbb with rfl | hrest
    · exact .inr (.inl rfl)
    · exact .inr (.inr (ih hrest))

structure WrittenAs (h : Host) (s : SparseFile) (sparse : Bool) (out : Out) : Prop where
  below : ∀ i, (sparse = false → i < s.len.toNat) → out.image.bytes i =
    ((chunksFrom h s.blockSize 0 s.blocks).foldl (SparseChunk.put sparse s.blockSize)
      .empty).bytes i
  behind : ∀ i, sparse = false → s.len.toNat ≤ i → out.image.bytes i = 0
  takes : ∀ bb ∈ s.blocks, (∀ val, bb.backing ≠ .fill val) ∨ sparse = true →
    TakesBlocks h sparse s.blockSize bb

theorem skip_of_mem_finalSkip {c : SparseChunk} (hc : c ∈ finalSkip s) :
    ∃ n < 4294967296, c = .skip n := by
  rw [finalSkip] at hc
  split at hc
  · refine ⟨_, ?_, List.mem_singleton.mp hc⟩
    simp only [ofInt32]
    omega
  · cases hc

theorem sparseFileWrite_sparse (hh : h.Reliable)
    (hrun : sparseFileWrite h s (Out.start s false true crc) = (.ok 0, out)) :
    WrittenAs h s true out := by
  obtain ⟨ho, -, hwritable, crc32, hwritten⟩ := sparseFileWrite_written hh hrun
  have hsized : ∀ c ∈ chunksOf h s, c.Sized s.blockSize := by
    intro c hc
    rcases List.mem_append.mp hc with hfrom | hskip
    · exact sized_of_mem_chunksFrom hfrom (hwritable c hc)
    · obtain ⟨n, hn, rfl⟩ := skip_of_mem_finalSkip hskip
      exact hn
  have htail : ∀ turns img, expandFrom s.blockSize turns img
      (if crc then crcChunkBytes crc32 else []) = img := by
    intro turns img
    cases crc with
    | true => exact expandFrom_crc crc32 turns img
    | false => exact expandFrom_nil turns img
  have himage := image_of_written (headerOf s crc) _ ho.sparse ho.blockSize hsized htail hwritten
  have hskips : ∀ c ∈ finalSkip s, ∃ n, c = .skip n := fun c hc => by
    obtain ⟨n, -, hn⟩ := skip_of_mem_finalSkip hc
    exact ⟨n, hn⟩
  obtain ⟨n, hn⟩ := foldl_skip s.blockSize hskips true
    ((chunksFrom h s.blockSize 0 s.blocks).foldl (SparseChunk.put true s.blockSize) .empty)
  rw [chunksOf, List.foldl_append, hn] at himage
  refine ⟨fun i _ => by rw [himage]; rfl, fun i h => absurd h (by decide), fun bb hbb _ => ?_⟩
  exact takesBlocks_sparse (hwritable _ (List.mem_append_left _ (chunkOf_mem_chunksFrom hbb)))

theorem sparseFileWrite_writtenAs (hh : h.Reliable) (h4 : 4 ∣ s.blockSize) (hfit : Fitting s)
    (hrun : sparseFileWrite h s (Out.start s false sparse crc) = (.ok 0, out)) :
    WrittenAs h s sparse out := by
  obtain ⟨hpos, -⟩ := sparseFileWrite_parts hrun
  cases sparse with
  | true => exact sparseFileWrite_sparse hh hrun
  | false =>
    obtain ⟨hret, himage⟩ := (sparseFileWrite_normal hh h4 hpos hfit.block).ok hrun
    have hfin := hret.mp rfl
    refine ⟨fun i hi => ?_, fun i _ hi => ?_, fun bb hbb hdata => ?_⟩
    · rw [himage rfl]
      exact if_pos (hi rfl)
    · rw [himage rfl]
      exact if_neg (not_lt.mpr hi)
    · have hdata := hdata.resolve_right (by decide)
      exact takesBlocks_normal hpos hfin.blockSize hdata (hfin.mappable bb hbb)

end Written

section Positions

variable {h : Host} {sparse : Bool} {bs : Nat} {pre post : List BackedBlock} {a bb c : BackedBlock}

theorem extends_put (sparse : Bool) (bs : Nat) (img : Image) (c : SparseChunk) :
    img.Extends (c.put sparse bs img) := by
  cases c with
  | raw data =>
    cases sparse with
    | true => exact Image.extends_write
    | false => exact Image.extends_write.trans Image.extends_skip
  | fill len val => exact Image.extends_write
  | skip n => exact Image.extends_skip

theorem fresh_put {img : Image} (hf : img.Fresh) (c : SparseChunk) :
    (c.put sparse bs img).Fresh := by
  cases c with
  | raw data =>
    cases sparse with
    | true => exact hf.write
    | false => exact hf.write.skip
  | fill len val => exact hf.write
  | skip n => exact hf.skip

theorem extends_foldl (sparse : Bool) (bs : Nat) (img : Image) (cs : List SparseChunk) :
    img.Extends (cs.foldl (SparseChunk.put sparse bs) img) := by
  induction cs generalizing img with
  | nil => exact .refl img
  | cons c cs ih => exact (extends_put sparse bs img c).trans (ih _)

theorem fresh_foldl {img : Image} (hf : img.Fresh) (cs : List SparseChunk) :
    (cs.foldl (SparseChunk.put sparse bs) img).Fresh := by
  induction cs generalizing img with
  | nil => exact hf
  | cons c cs ih => exact ih (fresh_put hf c)

theorem divRoundUp32_le (x y : Nat) : divRoundUp32 x y ≤ divRoundUp x y :=
  Nat.div_le_div_right (u32_le _)

theorem blockAfter_eq (h : a.block + divRoundUp a.len bs < 4294967296) :
    blockAfter bs a = a.block + divRoundUp32 a.len bs := by
  have := divRoundUp32_le a.len bs
  exact u32_of_lt (by omega)

theorem pos_imageBefore_nil (h : Host) (sparse : Bool) (bs : Nat) (hbb : bb.block < 4294967296) :
    (imageBefore h sparse bs [] bb).pos = bb.block * bs := by
  change ((gapChunks 0 bb).foldl (SparseChunk.put sparse bs) .empty).pos = _
  rw [gapChunks]
  split
  · rw [Nat.sub_zero, u32_of_lt hbb]
    exact Nat.zero_add _
  · rename_i hzero
    rw [Nat.le_zero.mp (not_lt.mp hzero), Nat.zero_mul]
    rfl

theorem imageBefore_concat (h : Host) (sparse : Bool) (bs : Nat) (pre : List BackedBlock)
    (a bb : BackedBlock) :
    imageBefore h sparse bs (pre ++ [a]) bb = (gapChunks (blockAfter bs a) bb).foldl
      (SparseChunk.put sparse bs) ((chunkOf h a).put sparse bs (imageBefore h sparse bs pre a)) := by
  rw [imageBefore, imageBefore, lastBlockFrom_concat, chunksFrom_concat, List.foldl_append,
    ← List.append_assoc, List.foldl_append]
  rfl

theorem pos_gap {lastBlock : Nat} (hle : lastBlock ≤ bb.block) (hbb : bb.block < 4294967296)
    (img : Image) :
    ((gapChunks lastBlock bb).foldl (SparseChunk.put sparse bs) img).pos =
      img.pos + (bb.block - lastBlock) * bs := by
  rw [gapChunks]
  split
  · rw [u32_of_lt (by omega)]
    rfl
  · rw [show bb.block - lastBlock = 0 by omega, Nat.zero_mul]
    rfl

theorem pos_imageBefore_concat (happart : a.block + divRoundUp a.len bs ≤ bb.block)
    (hbb : bb.block < 4294967296) (hland : (imageBefore h sparse bs pre a).pos = a.block * bs) :
    (imageBefore h sparse bs (pre ++ [a]) bb).pos = bb.block * bs ↔
      ((chunkOf h a).put sparse bs (imageBefore h sparse bs pre a)).pos =
        (imageBefore h sparse bs pre a).pos + align32 a.len bs := by
  have hle := divRoundUp32_le a.len bs
  have hafter := @blockAfter_eq bs a (by omega)
  have hsplit : bb.block * bs = a.block * bs + align32 a.len bs +
      (bb.block - (a.block + divRoundUp32 a.len bs)) * bs := by
    rw [align32_eq, ← Nat.add_mul, ← Nat.add_mul]
    congr 1
    omega
  rw [imageBefore_concat, hafter, pos_gap (by omega) hbb, hland, hsplit]
  omega

theorem pos_imageBefore_of_takes (h : Host) (sparse : Bool) (bs : Nat)
    (happart : (pre ++ [bb]).Pairwise fun a b => a.block + divRoundUp a.len bs ≤ b.block)
    (hblock : ∀ b ∈ pre ++ [bb], b.block < 4294967296)
    (htakes : ∀ a ∈ pre, TakesBlocks h sparse bs a) :
    (imageBefore h sparse bs pre bb).pos = bb.block * bs := by
  induction pre using List.reverseRecOn generalizing bb with
  | nil => exact pos_imageBefore_nil h sparse bs (hblock bb (by simp))
  | append_singleton pre a ih =>
    obtain ⟨hpre, -, hlast⟩ := List.pairwise_append.mp happart
    have hland := ih hpre (fun b hb => hblock b (List.mem_append_left _ hb))
      fun b hb => htakes b (List.mem_append_left _ hb)
    refine (pos_imageBefore_concat (hlast a (by simp) bb (by simp)) (hblock bb (by simp))
      hland).mpr ?_
    exact htakes a (by simp) _

theorem foldl_chunksFrom_split (h : Host) (sparse : Bool) (bs : Nat) (pre : List BackedBlock)
    (bb : BackedBlock) (post : List BackedBlock) :
    (chunksFrom h bs 0 (pre ++ bb :: post)).foldl (SparseChunk.put sparse bs) .empty =
      (chunksFrom h bs (blockAfter bs bb) post).foldl (SparseChunk.put sparse bs)
        ((chunkOf h bb).put sparse bs (imageBefore h sparse bs pre bb)) := by
  rw [chunksFrom_append, chunksFrom_cons, ← List.append_assoc, List.foldl_append, List.foldl_cons]
  rfl

theorem fresh_imageBefore (h : Host) (sparse : Bool) (bs : Nat) (pre : List BackedBlock)
    (bb : BackedBlock) : (imageBefore h sparse bs pre bb).Fresh :=
  fresh_foldl Image.fresh_empty _

theorem bytes_behind (h : Host) (sparse : Bool) (bs : Nat) (pre : List BackedBlock)
    (bb : BackedBlock) (post : List BackedBlock) {i : Nat}
    (hi : ((chunkOf h bb).put sparse bs (imageBefore h sparse bs pre bb)).pos ≤ i)
    (hnext : ∀ c rest, post = c :: rest → i < (imageBefore h sparse bs (pre ++ [bb]) c).pos) :
    ((chunksFrom h bs 0 (pre ++ bb :: post)).foldl (SparseChunk.put sparse bs) .empty).bytes i =
      0 := by
  have hfresh := @fresh_put sparse bs _ (fresh_imageBefore h sparse bs pre bb) (chunkOf h bb)
  rw [foldl_chunksFrom_split]
  cases post with
  | nil => exact hfresh i hi
  | cons c rest =>
    have hlt := hnext c rest rfl
    rw [imageBefore_concat] at hlt
    rw [chunksFrom_cons, List.foldl_append, (extends_foldl _ _ _ _).bytes i hlt]
    have hskips : ∀ d ∈ gapChunks (blockAfter bs bb) c, ∃ n, d = .skip n := by
      intro d hd
      rw [gapChunks] at hd
      split at hd
      · exact ⟨_, List.mem_singleton.mp hd⟩
      · cases hd
    obtain ⟨n, hn⟩ := foldl_skip bs hskips sparse
      ((chunkOf h bb).put sparse bs (imageBefore h sparse bs pre bb))
    rw [hn]
    exact hfresh i hi

end Positions

end MakeExt4fs

import MakeExt4fs.Libsparse.Expand

namespace MakeExt4fs

open Interrupt Words
open Buffer (leBytes)

structure NormalOut (bs : Nat) (len : Int) (img : Image) (out : Out) : Prop where
  kind : out.file.kind = .normal
  sparse : out.file.sparse = false
  blockSize : out.file.blockSize = bs
  len : out.file.len = len
  ops : out.ops.foldl applyOp .empty = img

structure SparseImage (bs : Nat) (crc : Bool) (img : Image) (out : Out) : Prop
    extends SparseOut bs crc out where
  chunks : ∃ (hdr : SparseHeader) (cs : List SparseChunk), (∀ c ∈ cs, c.Sized bs) ∧
    out.written = hdr.bytes ++ cs.flatMap (SparseChunk.bytes bs) ∧
    cs.foldl (SparseChunk.put true bs) .empty = img

def BackedBlock.Mappable (bb : BackedBlock) : Prop :=
  match bb.backing with
  | .data _ => bb.len ≤ 2147483647
  | .file _ offset => 0 < bb.len + (offset % 4096).toNat ∧
      bb.len + (offset % 4096).toNat ≤ 2147483647
  | .fd _ offset => 0 < bb.len + (offset % 4096).toNat ∧
      bb.len + (offset % 4096).toNat ≤ 2147483647
  | .fill _ => True

section Images

variable {h : Host} {bs : Nat} {crc : Bool} {len : Int} {img : Image} {out : Out}

theorem NormalOut.image (ho : NormalOut bs len img out) : out.image = img := by
  rw [Out.image, ho.sparse]
  exact ho.ops

theorem length_le_flatMap_bytes (bs : Nat) (cs : List SparseChunk) :
    cs.length ≤ (cs.flatMap (SparseChunk.bytes bs)).length := by
  induction cs with
  | nil => exact le_rfl
  | cons c cs ih =>
    have hc : 0 < (c.bytes bs).length := by
      cases c <;> simp only [SparseChunk.bytes, List.length_append, ChunkHeader.length_bytes] <;>
        omega
    rw [List.flatMap_cons, List.length_append, List.length_cons]
    omega

theorem image_of_written (hdr : SparseHeader) {cs : List SparseChunk} (tail : List UInt8)
    (hsparse : out.file.sparse = true) (hbs : out.file.blockSize = bs)
    (hcs : ∀ c ∈ cs, c.Sized bs) (htail : ∀ turns img, expandFrom bs turns img tail = img)
    (hw : out.written = hdr.bytes ++ cs.flatMap (SparseChunk.bytes bs) ++ tail) :
    out.image = cs.foldl (SparseChunk.put true bs) .empty := by
  have hlen := length_le_flatMap_bytes bs cs
  rw [Out.image, if_pos hsparse, hbs, hw, List.append_assoc,
    sparseHeaderLen, List.drop_left' hdr.length_bytes]
  refine expandFrom_chunks hcs htail ?_
  simp only [List.length_append]
  omega

theorem SparseImage.image (ho : SparseImage bs crc img out) : out.image = img := by
  obtain ⟨hdr, cs, hcs, hw, rfl⟩ := ho.chunks
  refine image_of_written hdr [] ho.sparse ho.blockSize hcs expandFrom_nil ?_
  rw [hw, List.append_nil]

theorem NormalOut.call (ho : NormalOut bs len img out) (op : OutputOp) :
    NormalOut bs len (applyOp img (op, false)) { out with ops := out.ops ++ [(op, false)] } := by
  refine ⟨ho.kind, ho.sparse, ho.blockSize, ho.len, ?_⟩
  rw [List.foldl_append, ho.ops]
  rfl

theorem writeNormalDataChunk_ends (hh : h.Reliable) (ho : NormalOut bs len img out)
    (data : List UInt8) :
    (writeNormalDataChunk h data).Ends (fun ret out' => (ret = 0 ↔ data.length ≤ 2147483647) ∧
      (ret = 0 → NormalOut bs len ((SparseChunk.raw data).put false bs img) out'))
      (fun _ _ => False) out := by
  rw [writeNormalDataChunk, Act.ends_bind, Act.ends_read, ho.blockSize, Act.ends_bind]
  refine opsWrite_ends hh ho.kind (fun hle => ?_) fun hlt => ?_
  · have hwritten : NormalOut bs len (img.write data) _ := ho.call (.write data)
    rw [if_neg (by decide)]
    refine .ite (fun _ => ?_) fun hno => ?_
    · rw [opsSkip, Act.ends_bind, Act.ends_read, hwritten.kind]
      dsimp only
      rw [fileSkip, Act.ends_bind]
      refine perform_ends hh hwritten.kind ⟨iff_of_true rfl hle, fun _ => ?_⟩
      have hput : (SparseChunk.raw data).put false bs img =
          applyOp (img.write data) (.skip (align32 data.length bs - data.length : Nat), false) := by
        simp only [SparseChunk.put, applyOp, Int.toNat_natCast, Bool.false_eq_true, if_false]
      rw [hput]
      exact hwritten.call (.skip _)
    · refine ⟨iff_of_true rfl hle, fun _ => ?_⟩
      have hzero : align32 data.length bs - data.length = 0 := Nat.sub_eq_zero_of_le (not_lt.mp hno)
      have hput : (SparseChunk.raw data).put false bs img = img.write data := by
        simp only [SparseChunk.put, hzero, Image.skip_zero, Bool.false_eq_true, if_false]
      rwa [hput]
  · refine ⟨iff_of_false (by decide) (by omega), fun h0 => ?_⟩
    exact absurd h0 (by decide)

theorem fillBuf_take (fillVal : Nat) {n : Nat} (h4 : 4 ∣ bs) (hn : n ≤ bs) :
    (fillBuf bs fillVal).take n = pattern (leBytes 4 fillVal) n := by
  have hwords (k : Nat) : (List.replicate k (leBytes 4 fillVal)).flatten =
      pattern (leBytes 4 fillVal) (4 * k) := by
    induction k with
    | zero => rfl
    | succ k ih =>
      rw [List.replicate_succ, List.flatten_cons, ih, Nat.mul_succ, Nat.add_comm,
        ← pattern_append _ _ (Nat.dvd_refl 4), pattern_four]
  obtain ⟨k, rfl⟩ := h4
  rw [fillBuf, Nat.mul_mod_right, Nat.mul_div_cancel_left k (by decide), hwords, List.replicate_zero,
    List.append_nil, pattern, pattern, ← List.map_take, List.take_range, Nat.min_eq_left hn]

theorem normalFillLoop_ends (hh : h.Reliable) (h4 : 4 ∣ bs) (hpos : 0 < bs) (hint : bs ≤ 2147483647)
    (fillVal : Nat) {turns n : Nat} (hturns : n ≤ turns) (ho : NormalOut bs len img out) :
    (normalFillLoop h bs fillVal turns n).Ends (fun ret out' => ret = 0 ∧
      NormalOut bs len (img.write (pattern (leBytes 4 fillVal) n)) out') (fun _ _ => False) out := by
  induction turns generalizing n img out with
  | zero =>
    obtain rfl := Nat.le_zero.mp hturns
    exact ⟨rfl, (@Image.write_nil img).symm ▸ ho⟩
  | succ turns ih =>
    cases n with
    | zero => exact ⟨rfl, (@Image.write_nil img).symm ▸ ho⟩
    | succ n =>
      have hpiece := fillBuf_take fillVal h4 (Nat.min_le_right (n + 1) bs)
      rw [normalFillLoop, Act.ends_bind]
      rw [hpiece]
      refine opsWrite_ends hh ho.kind (fun _ => ?_) fun hlt => ?_
      · rw [if_neg (by decide)]
        refine (ih (by omega) (ho.call (.write _))).post fun ret out' ⟨hret, ho'⟩ => ⟨hret, ?_⟩
        have hjoin : pattern (leBytes 4 fillVal) (min (n + 1) bs) ++
            pattern (leBytes 4 fillVal) (n + 1 - min (n + 1) bs) =
              pattern (leBytes 4 fillVal) (n + 1) := by
          rcases Nat.le_total (n + 1) bs with hle | hle
          · rw [Nat.min_eq_left hle, Nat.sub_self]
            exact List.append_nil _
          · rw [Nat.min_eq_right hle, pattern_append _ _ h4, Nat.add_sub_cancel' hle]
        rw [applyOp, Image.write_append, hjoin] at ho'
        exact ho'
      · rw [length_pattern] at hlt
        omega

theorem writeNormalFillChunk_ends (hh : h.Reliable) (h4 : 4 ∣ bs) (hpos : 0 < bs)
    (hint : bs ≤ 2147483647) (n fillVal : Nat) (ho : NormalOut bs len img out) :
    (writeNormalFillChunk h n fillVal).Ends (fun ret out' => ret = 0 ∧
      NormalOut bs len ((SparseChunk.fill n fillVal).put false bs img) out')
      (fun _ _ => False) out := by
  rw [writeNormalFillChunk, Act.ends_bind, Act.ends_read, ho.blockSize]
  exact normalFillLoop_ends hh h4 hpos hint fillVal le_rfl ho

theorem writeFdChunk_normal (hh : h.Reliable) (ho : NormalOut bs len img out) (bytes : Nat → UInt8)
    (n : Nat) (offset : Int) :
    (writeFdChunk h bytes n offset).Ends (fun ret out' =>
      (ret = 0 ↔ 0 < n + (offset % 4096).toNat ∧ n + (offset % 4096).toNat ≤ 2147483647) ∧
      (ret = 0 → NormalOut bs len
        ((SparseChunk.raw (bytesFrom bytes offset.toNat n)).put false bs img) out'))
      (fun _ _ => ¬ (0 < n + (offset % 4096).toNat ∧ n + (offset % 4096).toNat ≤ 2147483647))
      out := by
  have hint : s32 (n + (offset % 4096).toNat) ≤ 2147483647 := by
    have hlt := u32_lt (n + (offset % 4096).toNat)
    simp only [s32]
    split <;> omega
  have hexact (hle : n + (offset % 4096).toNat ≤ 2147483647) :
      s32 (n + (offset % 4096).toNat) = (n + (offset % 4096).toNat : Nat) := by
    simp only [s32, u32_of_lt (show n + (offset % 4096).toNat < 4294967296 by omega)]
    rw [if_pos (by omega)]
  rw [writeFdChunk]
  refine .ite (fun hneg => ?_) fun hpos => ?_
  · rw [Act.ends_bind, Act.ends_update, Act.ends_pure]
    refine ⟨iff_of_false (by decide) ?_, fun h0 => absurd h0 (by decide)⟩
    rintro ⟨hlo, hle⟩
    rw [hexact hle] at hneg
    omega
  · rw [Act.ends_bind]
    refine perform_ends hh ho.kind (.ite (fun heq => ?_) fun hne => ?_)
    · have hfits : 0 < n + (offset % 4096).toNat ∧ n + (offset % 4096).toNat ≤ 2147483647 := by
        omega
      have hmapped := ho.call (.mapSource (s32 (n + (offset % 4096).toNat)).toNat
        (offset - (offset % 4096).toNat))
      rw [writeDataChunk, Act.ends_bind, Act.ends_read, hmapped.sparse, if_neg Bool.false_ne_true]
      refine (writeNormalDataChunk_ends hh hmapped _).mono ?_ fun _ _ => False.elim
      rintro ret out' ⟨hret, ho'⟩
      rw [bytesFrom, List.length_map, List.length_range] at hret
      exact ⟨iff_of_true (hret.mpr (by omega)) hfits, ho'⟩
    · rintro ⟨hlo, hle⟩
      rw [hexact hle] at hne
      push_cast at hne
      exact hne rfl

theorem sparseFileWriteBlock_normal (hh : h.Reliable) (h4 : 4 ∣ bs) (hpos : 0 < bs)
    (hint : bs ≤ 2147483647) (bb : BackedBlock) (ho : NormalOut bs len img out) :
    (sparseFileWriteBlock h bb).Ends (fun ret out' => (ret = 0 ↔ bb.Mappable) ∧
      (ret = 0 → NormalOut bs len ((chunkOf h bb).put false bs img) out'))
      (fun _ _ => ¬ bb.Mappable) out := by
  rw [sparseFileWriteBlock, chunkOf, BackedBlock.Mappable]
  cases bb.backing with
  | data p =>
    dsimp only
    rw [writeDataChunk, Act.ends_bind, Act.ends_read, ho.sparse, if_neg Bool.false_ne_true]
    refine (writeNormalDataChunk_ends hh ho _).mono ?_ fun _ _ => False.elim
    rintro ret out' ⟨hret, ho'⟩
    rw [bytesFrom, List.length_map, List.length_range] at hret
    exact ⟨hret, ho'⟩
  | file name offset =>
    dsimp only
    rw [writeFileChunk, Act.ends_bind]
    exact perform_ends hh ho.kind (writeFdChunk_normal hh (ho.call _) _ bb.len offset)
  | fd fd offset => exact writeFdChunk_normal hh ho _ bb.len offset
  | fill val =>
    dsimp only
    rw [writeFillChunk, Act.ends_bind, Act.ends_read, ho.sparse, if_neg Bool.false_ne_true]
    refine (writeNormalFillChunk_ends hh h4 hpos hint bb.len val ho).mono ?_ fun _ _ => False.elim
    rintro ret out' ⟨hret, ho'⟩
    exact ⟨iff_of_true hret trivial, fun _ => ho'⟩

theorem skipGap_normal (hh : h.Reliable) (ho : NormalOut bs len img out) (lastBlock : Nat)
    {bb : BackedBlock} (hblock : bb.block < 4294967296) :
    (skipGap h bs lastBlock bb).Ends (fun _ out' => NormalOut bs len ((if bb.block > lastBlock then
        [SparseChunk.skip (u32 (bb.block - lastBlock))] else []).foldl
          (SparseChunk.put false bs) img) out')
      (fun _ _ => False) out := by
  rw [skipGap]
  refine .ite (fun hgap => ?_) fun hgap => ?_
  · rw [Act.ends_bind, writeSkipChunk, Act.ends_bind, Act.ends_read, ho.sparse,
      if_neg Bool.false_ne_true, opsSkip, Act.ends_bind, Act.ends_read, ho.kind]
    dsimp only
    rw [fileSkip, Act.ends_bind]
    refine perform_ends hh ho.kind ?_
    rw [Act.ends_pure, Act.ends_pure, if_pos hgap, u32_of_lt (by omega)]
    exact ho.call (.skip ((bb.block - lastBlock) * bs : Nat))
  · rwa [Act.ends_pure, if_neg hgap]

theorem writeBlocksFrom_normal (hh : h.Reliable) (h4 : 4 ∣ bs) (hpos : 0 < bs)
    (hint : bs ≤ 2147483647) {blocks : List BackedBlock}
    (hblocks : ∀ bb ∈ blocks, bb.block < 4294967296) (lastBlock : Nat)
    (ho : NormalOut bs len img out) :
    (writeBlocksFrom h bs lastBlock blocks).Ends (fun ret out' =>
      (ret.1 = 0 ↔ ∀ bb ∈ blocks, bb.Mappable) ∧
      (ret.1 = 0 → ret.2 = lastBlockFrom bs lastBlock blocks ∧ NormalOut bs len
        ((chunksFrom h bs lastBlock blocks).foldl (SparseChunk.put false bs) img) out'))
      (fun _ _ => ¬ ∀ bb ∈ blocks, bb.Mappable) out := by
  induction blocks generalizing lastBlock img out with
  | nil => exact ⟨by simp, fun _ => ⟨rfl, ho⟩⟩
  | cons bb rest ih =>
    rw [writeBlocksFrom, Act.ends_bind]
    refine (skipGap_normal hh ho lastBlock (hblocks bb List.mem_cons_self)).mono ?_
      fun _ _ => False.elim
    intro _ out1 ho1
    rw [Act.ends_bind]
    refine (sparseFileWriteBlock_normal hh h4 hpos hint bb ho1).mono ?_
      fun _ _ hno hall => hno (hall bb List.mem_cons_self)
    rintro ret out2 ⟨hret, ho2⟩
    refine .ite (fun hne => ?_) fun h0 => ?_
    · refine ⟨iff_of_false hne fun hall => ?_, fun h0 => absurd h0 hne⟩
      exact hne (hret.mpr (hall bb List.mem_cons_self))
    · have hbb := hret.mp (not_not.mp h0)
      refine (ih (fun b hb => hblocks b (List.mem_cons_of_mem bb hb)) (blockAfter bs bb)
        (ho2 (not_not.mp h0))).mono ?_ ?_
      · rintro ret' out' ⟨hret', ho'⟩
        refine ⟨hret'.trans ?_, fun h0' => ?_⟩
        · rw [List.forall_mem_cons, and_iff_right hbb]
        · obtain ⟨hlast, ho'⟩ := ho' h0'
          refine ⟨hlast, ?_⟩
          rw [chunksFrom, List.foldl_append, List.foldl_cons]
          exact ho'
      · intro e out' hno hall
        exact hno fun b hb => hall b (List.mem_cons_of_mem bb hb)

structure Finishes (s : SparseFile) : Prop where
  blockSize : s.blockSize ≤ 2147483647
  mappable : ∀ bb ∈ s.blocks, bb.Mappable
  room : (lastBlockFrom s.blockSize 0 s.blocks * s.blockSize : Int) ≤ s.len

theorem writeAllBlocks_normal (hh : h.Reliable) {s : SparseFile} (h4 : 4 ∣ s.blockSize)
    (hpos : 0 < s.blockSize) (hint : s.blockSize ≤ 2147483647)
    (hblocks : ∀ bb ∈ s.blocks, bb.block < 4294967296)
    (ho : NormalOut s.blockSize s.len .empty out) :
    (writeAllBlocks h s).Ends (fun ret out' => (ret = 0 ↔ Finishes s) ∧
      (ret = 0 → NormalOut s.blockSize s.len
        (((chunksFrom h s.blockSize 0 s.blocks).foldl (SparseChunk.put false s.blockSize) .empty).skip
          (s.len - lastBlockFrom s.blockSize 0 s.blocks * s.blockSize).toNat) out'))
      (fun _ _ => ¬ Finishes s) out := by
  rw [writeAllBlocks, Act.ends_bind]
  refine (writeBlocksFrom_normal hh h4 hpos hint hblocks 0 ho).mono ?_
    fun _ _ hno hfin => hno hfin.mappable
  rintro ⟨ret, lastBlock⟩ out1 ⟨hret, ho1⟩
  refine .ite (fun hne => ?_) fun h0 => ?_
  · exact ⟨iff_of_false hne fun hfin => hne (hret.mpr hfin.mappable), fun h0 => absurd h0 hne⟩
  · obtain ⟨rfl, ho2⟩ := ho1 (not_not.mp h0)
    dsimp only at ho2 ⊢
    refine .ite (fun hneg => ?_) fun hroom => .ite (fun hpad => ?_) fun hpad => ?_
    · intro hfin
      have := hfin.room
      omega
    · have hfin : Finishes s := ⟨hint, hret.mp (not_not.mp h0), by omega⟩
      rw [Act.ends_bind, writeSkipChunk, Act.ends_bind, Act.ends_read, ho2.sparse,
        if_neg Bool.false_ne_true, opsSkip, Act.ends_bind, Act.ends_read, ho2.kind]
      dsimp only
      rw [fileSkip, Act.ends_bind]
      refine perform_ends hh ho2.kind ⟨iff_of_true rfl hfin, fun _ => ?_⟩
      exact ho2.call (.skip _)
    · have hfin : Finishes s := ⟨hint, hret.mp (not_not.mp h0), by omega⟩
      have hzero : (s.len - lastBlockFrom s.blockSize 0 s.blocks * s.blockSize).toNat = 0 := by
        omega
      refine ⟨iff_of_true rfl hfin, fun _ => ?_⟩
      rwa [hzero, Image.skip_zero]

theorem outputFileOpenFd_normal (h : Host) (s : SparseFile) (crc : Bool) (chunks : Nat) :
    outputFileOpenFd h chunks (Out.start s false false crc) =
      (.ok (decide (s.blockSize ≤ 2147483647)), Out.start s false false crc) := by
  have hkind : ¬ (Out.start s false false crc).file.kind = .gz := by simp [Out.start]
  have hsparse : ¬ (Out.start s false false crc).file.sparse = true := by simp [Out.start]
  have hbs : (Out.start s false false crc).file.blockSize = s.blockSize := rfl
  rw [outputFileOpenFd, Act.bind_run]
  dsimp only [Act.read]
  rw [if_neg hkind, outputFileInit, Act.bind_run]
  dsimp only [Act.read]
  rw [hbs, if_neg hsparse]
  by_cases hle : s.blockSize ≤ 2147483647
  · rw [if_neg (by omega), decide_eq_true hle]
    rfl
  · rw [if_pos (by omega), decide_eq_false hle]
    rfl

theorem sparseFileWrite_normal (hh : h.Reliable) {s : SparseFile} (h4 : 4 ∣ s.blockSize)
    (hpos : 0 < s.blockSize) (hblocks : ∀ bb ∈ s.blocks, bb.block < 4294967296) :
    (sparseFileWrite h s).Ends (fun ret out => (ret = 0 ↔ Finishes s) ∧
      (ret = 0 → out.image = (((chunksFrom h s.blockSize 0 s.blocks).foldl
        (SparseChunk.put false s.blockSize) .empty).skip
          (s.len - lastBlockFrom s.blockSize 0 s.blocks * s.blockSize).toNat).truncate s.len.toNat))
      (fun _ _ => ¬ Finishes s) (Out.start s false false crc) := by
  have hstart : NormalOut s.blockSize s.len .empty (Out.start s false false crc) :=
    ⟨rfl, rfl, rfl, rfl, rfl⟩
  rw [sparseFileWrite, if_neg (by omega), Act.ends_bind]
  refine Act.ends_of_run (fun ok out hrun => ?_) fun e out hrun => ?_
  · rw [outputFileOpenFd_normal] at hrun
    cases hrun
    refine .ite (fun hint => ?_) fun hbig => ?_
    · rw [Act.ends_bind]
      refine (writeAllBlocks_normal hh h4 hpos (of_decide_eq_true hint) hblocks hstart).post ?_
      rintro ret out1 ⟨hret, ho1⟩
      rw [Act.ends_bind]
      by_cases h0 : ret = 0
      · have ho2 := ho1 h0
        rw [outputFileClose, Act.ends_bind, writeEndChunk, Act.ends_bind, Act.ends_read, ho2.sparse,
          if_neg Bool.false_ne_true, opsPad, Act.ends_bind, Act.ends_read, ho2.kind]
        dsimp only
        rw [filePad, Act.ends_bind]
        refine perform_ends hh ho2.kind ⟨hret, fun _ => ?_⟩
        rw [(ho2.call (.truncate out1.file.len)).image, ho2.len]
        rfl
      · have hno : ¬ Finishes s := fun hfin => h0 (hret.mpr hfin)
        exact Act.ends_of_run (fun _ _ _ => ⟨hret, fun h => absurd h h0⟩) fun _ _ _ => hno
    · refine ⟨iff_of_false (by decide) fun hfin => hbig (decide_eq_true hfin.blockSize), ?_⟩
      exact fun h0 => absurd h0 (by decide)
  · rw [outputFileOpenFd_normal] at hrun
    cases hrun

end Images

section Formats

variable {h : Host} {sparse crc : Bool} {bs : Nat} {len : Int} {img : Image} {out : Out}

def HasImage (sparse crc : Bool) (bs : Nat) (len : Int) (img : Image) (out : Out) : Prop :=
  match sparse with
  | true => SparseImage bs crc img out
  | false => NormalOut bs len img out

theorem HasImage.image (ho : HasImage sparse crc bs len img out) : out.image = img := by
  cases sparse with
  | true => exact SparseImage.image ho
  | false => exact NormalOut.image ho

def gapChunks (lastBlock : Nat) (bb : BackedBlock) : List SparseChunk :=
  if bb.block > lastBlock then [.skip (u32 (bb.block - lastBlock))] else []

theorem gapChunks_of_le {lastBlock : Nat} {bb : BackedBlock} (h : bb.block ≤ lastBlock) :
    gapChunks lastBlock bb = [] := if_neg (not_lt.mpr h)

theorem chunksFrom_cons (h : Host) (bs lastBlock : Nat) (bb : BackedBlock)
    (rest : List BackedBlock) :
    chunksFrom h bs lastBlock (bb :: rest) = gapChunks lastBlock bb ++
      chunkOf h bb :: chunksFrom h bs (blockAfter bs bb) rest := rfl

theorem chunksFrom_append (h : Host) (bs lastBlock : Nat) (pre post : List BackedBlock) :
    chunksFrom h bs lastBlock (pre ++ post) = chunksFrom h bs lastBlock pre ++
      chunksFrom h bs (lastBlockFrom bs lastBlock pre) post := by
  induction pre generalizing lastBlock with
  | nil => rfl
  | cons x pre ih =>
    rw [List.cons_append, chunksFrom, chunksFrom, ih, List.append_assoc, List.cons_append]
    rfl

theorem chunksFrom_concat (h : Host) (bs lastBlock : Nat) (l : List BackedBlock)
    (bb : BackedBlock) :
    chunksFrom h bs lastBlock (l ++ [bb]) = chunksFrom h bs lastBlock l ++
      (gapChunks (lastBlockFrom bs lastBlock l) bb ++ [chunkOf h bb]) :=
  chunksFrom_append h bs lastBlock l [bb]

theorem lastBlockFrom_concat (bs lastBlock : Nat) (l : List BackedBlock) (bb : BackedBlock) :
    lastBlockFrom bs lastBlock (l ++ [bb]) = blockAfter bs bb := by
  induction l generalizing lastBlock with
  | nil => rfl
  | cons x l ih => rw [List.cons_append, lastBlockFrom, ih]

theorem sized_of_mem_gapChunks {lastBlock : Nat} {bb : BackedBlock} {c : SparseChunk}
    (hc : c ∈ gapChunks lastBlock bb) : c.Sized bs := by
  rw [gapChunks] at hc
  split at hc
  · obtain rfl := List.mem_singleton.mp hc
    exact u32_lt _
  · cases hc

theorem sized_of_mem_chunksFrom {lastBlock : Nat} {blocks : List BackedBlock} {c : SparseChunk}
    (hc : c ∈ chunksFrom h bs lastBlock blocks) (hw : c.Writable bs) : c.Sized bs := by
  induction blocks generalizing lastBlock with
  | nil => cases hc
  | cons bb rest ih =>
    rw [chunksFrom_cons, List.mem_append, List.mem_cons] at hc
    rcases hc with hgap | rfl | hrest
    · exact sized_of_mem_gapChunks hgap
    · rw [chunkOf] at hw ⊢
      cases hb : bb.backing <;> rw [hb] at hw <;> exact hw
    · exact ih hrest

theorem SparseImage.append (ho : SparseImage bs crc img out) {cs : List SparseChunk} {out' : Out}
    (ho' : SparseOut bs crc out') (hcs : ∀ c ∈ cs, c.Sized bs)
    (hw : out'.written = out.written ++ cs.flatMap (SparseChunk.bytes bs)) :
    SparseImage bs crc (cs.foldl (SparseChunk.put true bs) img) out' := by
  obtain ⟨hdr, before, hbefore, hwritten, rfl⟩ := ho.chunks
  refine ⟨ho', hdr, before ++ cs, List.forall_mem_append.mpr ⟨hbefore, hcs⟩, ?_, ?_⟩
  · rw [hw, hwritten, List.flatMap_append, List.append_assoc]
  · rw [List.foldl_append]

theorem writeBlocksFrom_image (hh : h.Reliable) (h4 : 4 ∣ bs) (hpos : 0 < bs)
    (hint : bs ≤ 2147483647) {blocks : List BackedBlock}
    (hblocks : ∀ bb ∈ blocks, bb.block < 4294967296) (lastBlock : Nat)
    (ho : HasImage sparse crc bs len img out) :
    (writeBlocksFrom h bs lastBlock blocks).Ends (fun ret out' => ret.1 = 0 →
      ret.2 = lastBlockFrom bs lastBlock blocks ∧ HasImage sparse crc bs len
        ((chunksFrom h bs lastBlock blocks).foldl (SparseChunk.put sparse bs) img) out')
      (fun _ _ => True) out := by
  cases sparse with
  | true =>
    refine (writeBlocksFrom_ends hh hpos ho.toSparseOut lastBlock blocks).post ?_
    rintro ret out' ⟨ho', hw⟩ h0
    obtain ⟨hlast, hwritable, hwritten⟩ := hw h0
    exact ⟨hlast, SparseImage.append ho ho'
      (fun c hc => sized_of_mem_chunksFrom hc (hwritable c hc)) hwritten⟩
  | false =>
    refine (writeBlocksFrom_normal hh h4 hpos hint hblocks lastBlock ho).mono ?_
      fun _ _ _ => trivial
    exact fun ret out' hret => hret.2

theorem skipGap_image (hh : h.Reliable) (hpos : 0 < bs) (lastBlock : Nat) {bb : BackedBlock}
    (hblock : bb.block < 4294967296) (ho : HasImage sparse crc bs len img out) :
    (skipGap h bs lastBlock bb).Ends (fun _ out' => HasImage sparse crc bs len
      ((gapChunks lastBlock bb).foldl (SparseChunk.put sparse bs) img) out')
      (fun _ _ => True) out := by
  cases sparse with
  | true =>
    refine (skipGap_ends hh hpos ho.toSparseOut lastBlock bb).post ?_
    rintro _ out' ⟨ho', hw⟩
    exact SparseImage.append ho ho' (fun c hc => sized_of_mem_gapChunks hc) hw
  | false =>
    exact (skipGap_normal hh ho lastBlock hblock).mono (fun _ _ h => h) fun _ _ _ => trivial

theorem outputFileOpenFd_image (hh : h.Reliable) (s : SparseFile) (chunks : Nat) :
    (outputFileOpenFd h chunks).Ends (fun ok out => ok = true → s.blockSize ≤ 2147483647 ∧
      HasImage sparse crc s.blockSize s.len .empty out) (fun _ _ => True)
      (Out.start s false sparse crc) := by
  have hkind : ¬ (Out.start s false sparse crc).file.kind = .gz := by simp [Out.start]
  rw [outputFileOpenFd, Act.ends_bind, Act.ends_read, if_neg hkind]
  dsimp only
  rw [outputFileInit, Act.ends_bind, Act.ends_read]
  refine .ite (fun _ h => by cases h) fun hbs => ?_
  have hint : s.blockSize ≤ 2147483647 := not_lt.mp hbs
  cases sparse with
  | true =>
    have hstart : SparseOut s.blockSize crc (Out.start s false true crc) := ⟨rfl, rfl, rfl, rfl⟩
    rw [if_pos hstart.sparse]
    refine (writeParts_ends hh hstart _).mono ?_ fun _ _ _ => trivial
    rintro ok out ⟨hfile, -, hw⟩ htrue
    have hwritten := hw htrue
    have hempty : (Out.start s false true crc).written = [] := rfl
    rw [hempty, List.nil_append, List.flatten_singleton] at hwritten
    exact ⟨hint, hstart.of_file hfile, _, [], List.forall_mem_nil _,
      hwritten.trans (List.append_nil _).symm, rfl⟩
  | false => exact fun _ => ⟨hint, rfl, rfl, rfl, rfl, rfl⟩

end Formats

end MakeExt4fs

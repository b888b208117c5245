import MakeExt4fs.Libsparse.Sparse

namespace MakeExt4fs

open Interrupt Words
open Buffer (leBytes)

inductive SparseChunk where
  | raw (data : List UInt8)
  | fill (len fillVal : Nat)
  | skip (blocks : Nat)
  deriving DecidableEq, Repr

namespace SparseChunk

def padding (bs len : Nat) : List UInt8 := List.replicate (sub32 (align32 len bs) len) 0

def bytes (bs : Nat) : SparseChunk → List UInt8
  | raw data =>
    ChunkHeader.bytes ⟨chunkTypeRaw, 0, align32 data.length bs / bs,
      u32 (chunkHeaderLen + align32 data.length bs)⟩ ++ (data ++ padding bs data.length)
  | fill len fillVal =>
    ChunkHeader.bytes ⟨chunkTypeFill, 0, align32 len bs / bs, chunkHeaderLen + 4⟩ ++
      leBytes 4 fillVal
  | skip blocks => ChunkHeader.bytes ⟨chunkTypeDontCare, 0, blocks, chunkHeaderLen⟩

def Writable (bs : Nat) : SparseChunk → Prop
  | raw data => data.length ≤ 2147483647 ∧ sub32 (align32 data.length bs) data.length ≤ 2147483647
  | _ => True

end SparseChunk

theorem length_padded {bs : Nat} {data : List UInt8} (hc : (SparseChunk.raw data).Writable bs) :
    (data ++ SparseChunk.padding bs data.length).length = align32 data.length bs := by
  have halign : align32 data.length bs < 4294967296 := u32_lt _
  obtain ⟨hlen, hpad⟩ := hc
  rw [List.length_append, SparseChunk.padding, List.length_replicate]
  generalize align32 data.length bs = aligned at *
  simp only [sub32, u32] at hpad ⊢
  omega

section Chunks

variable (h : Host) (bs : Nat)

def chunkOf (bb : BackedBlock) : SparseChunk :=
  match bb.backing with
  | .data p => .raw (bytesFrom h.mem p bb.len)
  | .file name offset => .raw (bytesFrom (h.file name.2) offset.toNat bb.len)
  | .fd fd offset => .raw (bytesFrom (h.fd fd) offset.toNat bb.len)
  | .fill val => .fill bb.len val

def chunksFrom : Nat → List BackedBlock → List SparseChunk
  | _, [] => []
  | lastBlock, bb :: rest =>
    (if bb.block > lastBlock then [.skip (u32 (bb.block - lastBlock))] else []) ++
      chunkOf h bb :: chunksFrom (blockAfter bs bb) rest

def lastBlockFrom : Nat → List BackedBlock → Nat
  | lastBlock, [] => lastBlock
  | _, bb :: rest => lastBlockFrom (blockAfter bs bb) rest

-- The skip at the end; one that is not of whole blocks is not written.
def finalSkip (s : SparseFile) : List SparseChunk :=
  let pad := s.len - lastBlockFrom s.blockSize 0 s.blocks * s.blockSize
  if pad > 0 ∧ pad.tmod s.blockSize = 0 then [.skip (ofInt32 (pad.tdiv s.blockSize))] else []

def chunksOf (s : SparseFile) : List SparseChunk :=
  chunksFrom h s.blockSize 0 s.blocks ++ finalSkip s

def headerOf (s : SparseFile) (crc : Bool) : SparseHeader where
  magic := sparseHeaderMagic
  majorVersion := sparseHeaderMajorVer
  minorVersion := sparseHeaderMinorVer
  fileHdrSz := sparseHeaderLen
  chunkHdrSz := chunkHeaderLen
  blkSz := s.blockSize
  totalBlks := ofInt32 (s.len.tdiv s.blockSize)
  totalChunks := u32 (sparseCountChunks s + if crc then 1 else 0)
  imageChecksum := 0

end Chunks

def Out.written (out : Out) : List UInt8 :=
  out.ops.flatMap fun op =>
    match op with
    | (.write data, false) => data
    | _ => []

structure SparseOut (bs : Nat) (crc : Bool) (out : Out) : Prop where
  kind : out.file.kind = .normal
  sparse : out.file.sparse = true
  useCrc : out.file.useCrc = crc
  blockSize : out.file.blockSize = bs

section Writing

variable {h : Host} {bs : Nat} {crc : Bool} {out : Out}

def Host.Reliable (h : Host) : Prop := ∀ n, h.fault n = none

theorem opsWrite_ends (hh : h.Reliable) (hkind : out.file.kind = .normal) {data : List UInt8}
    {Q : Int → Out → Prop} {E : ErrorLog.Stop Empty → Out → Prop}
    (hq : data.length ≤ 2147483647 →
      Q 0 { out with ops := out.ops ++ [(.write data, false)] })
    (hn : 2147483647 < data.length → Q (-1) { out with ops := out.ops ++ [(.write [], true)] }) :
    (opsWrite h data).Ends Q E out := by
  rw [opsWrite, Act.ends_bind, Act.ends_read]
  refine .ite (fun hle => ?_) fun hlt => ?_
  · have hgz : ¬ (out.file.kind = .gz ∧ out.gzClosed = true) := by simp [hkind]
    simp only [perform, Act.ends_bind, Act.ends_read, Act.ends_update, if_neg hgz, hh out.ops.length,
      Act.ends_pure]
    exact hq hle
  · simp only [Act.ends_bind, Act.ends_update, if_pos hkind, Act.ends_pure]
    exact hn (by omega)

@[simp] theorem written_append (ops : List (OutputOp × Bool)) (data : List UInt8) (file : OutputFile) :
    Out.written ⟨file, ops ++ [(.write data, false)]⟩ = Out.written ⟨file, ops⟩ ++ data := by
  simp [Out.written]

theorem writeParts_ends (hh : h.Reliable) (ho : SparseOut bs crc out) (parts : List (List UInt8)) :
    (writeParts h parts).Ends (fun ok out' => out'.file = out.file ∧
      (ok = true ↔ ∀ p ∈ parts, p.length ≤ 2147483647) ∧
      (ok = true → out'.written = out.written ++ parts.flatten)) (fun _ _ => False) out := by
  induction parts generalizing out with
  | nil => exact ⟨rfl, by simp, by simp⟩
  | cons data rest ih =>
    rw [writeParts, Act.ends_bind]
    refine opsWrite_ends hh ho.kind (fun hle => ?_) fun hlt => ?_
    · rw [if_neg (by decide)]
      have ho' : SparseOut bs crc { out with ops := out.ops ++ [(.write data, false)] } :=
        ⟨ho.kind, ho.sparse, ho.useCrc, ho.blockSize⟩
      refine (ih ho').post ?_
      rintro ok out' ⟨hfile, hok, hw⟩
      refine ⟨hfile, by simp [hok, hle], fun htrue => ?_⟩
      rw [hw htrue, written_append, List.flatten_cons, List.append_assoc]
    · refine ⟨rfl, ?_, by simp⟩
      simp only [Bool.false_eq_true, false_iff, List.mem_cons, forall_eq_or_imp, not_and]
      omega

theorem SparseOut.of_file {out' : Out} (ho : SparseOut bs crc out) (h : out'.file = out.file) :
    SparseOut bs crc out' :=
  ⟨h ▸ ho.kind, h ▸ ho.sparse, h ▸ ho.useCrc, h ▸ ho.blockSize⟩

def WritesChunk (bs : Nat) (crc : Bool) (m : Output Int) (c : SparseChunk) : Prop :=
  ∀ out, SparseOut bs crc out → m.Ends (fun ret out' => SparseOut bs crc out' ∧
    (ret = 0 → c.Writable bs ∧ out'.written = out.written ++ c.bytes bs)) (fun _ _ => True) out

theorem writeSparseSkipChunk_ends (hh : h.Reliable) (ho : SparseOut bs crc out) (len : Int) :
    (writeSparseSkipChunk h len).Ends (fun _ out' => SparseOut bs crc out' ∧
      out'.written = out.written ++
        if len.tmod bs = 0 then SparseChunk.bytes bs (.skip (ofInt32 (len.tdiv bs))) else [])
      (fun _ _ => True) out := by
  rw [writeSparseSkipChunk, Act.ends_bind, Act.ends_read, ho.blockSize]
  refine .ite (fun hmod => ?_) fun hmod => ?_
  · rw [if_neg hmod]
    exact ⟨ho, by simp⟩
  · rw [Act.ends_bind]
    refine (writeParts_ends hh ho _).mono ?_ fun _ _ => False.elim
    rintro ok out' ⟨hfile, hok, hw⟩
    have htrue : ok = true := hok.mpr (by simp [ChunkHeader.bytes])
    have ho' := ho.of_file hfile
    rw [if_pos htrue, if_pos (not_not.mp hmod)]
    refine ⟨⟨ho'.kind, ho'.sparse, ho'.useCrc, ho'.blockSize⟩, ?_⟩
    refine (hw htrue).trans ?_
    simp [SparseChunk.bytes]

theorem writeSparseFillChunk_writes (hh : h.Reliable) (len fillVal : Nat) :
    WritesChunk bs crc (writeSparseFillChunk h len fillVal) (.fill len fillVal) := by
  intro out ho
  rw [writeSparseFillChunk, Act.ends_bind, Act.ends_read, ho.blockSize, Act.ends_bind]
  refine (writeParts_ends hh ho _).mono ?_ fun _ _ => False.elim
  rintro ok out' ⟨hfile, hok, hw⟩
  have ho' := ho.of_file hfile
  refine .ite (fun htrue => ?_) fun _ => ⟨ho', by simp⟩
  refine ⟨⟨ho'.kind, ho'.sparse, ho'.useCrc, ho'.blockSize⟩, fun _ => ⟨trivial, ?_⟩⟩
  refine (hw htrue).trans ?_
  simp [SparseChunk.bytes]

theorem writeSparseDataChunk_writes (hh : h.Reliable) (data : List UInt8) :
    WritesChunk bs crc (writeSparseDataChunk h data) (.raw data) := by
  intro out ho
  rw [writeSparseDataChunk, Act.ends_bind, Act.ends_read, ho.blockSize, Act.ends_bind]
  refine (writeParts_ends hh ho _).mono ?_ fun _ _ => False.elim
  rintro ok out' ⟨hfile, hok, hw⟩
  have ho' := ho.of_file hfile
  refine .ite (fun htrue => ?_) fun _ => ⟨ho', by simp⟩
  refine ⟨⟨ho'.kind, ho'.sparse, ho'.useCrc, ho'.blockSize⟩, fun _ => ?_⟩
  have hlen := hok.mp htrue
  have hwritten := hw htrue
  by_cases hz : sub32 (align32 data.length bs) data.length = 0
  · simp only [if_pos hz, List.append_nil, List.mem_cons, forall_eq_or_imp] at hlen hwritten
    refine ⟨⟨hlen.2.1, by omega⟩, ?_⟩
    refine hwritten.trans ?_
    simp [SparseChunk.bytes, SparseChunk.padding, hz]
  · simp only [if_neg hz, List.cons_append, List.nil_append, List.mem_cons, forall_eq_or_imp,
      List.length_replicate] at hlen hwritten
    refine ⟨⟨hlen.2.1, hlen.2.2.1⟩, ?_⟩
    refine hwritten.trans ?_
    simp [SparseChunk.bytes, SparseChunk.padding]

theorem writeDataChunk_writes (hh : h.Reliable) (data : List UInt8) :
    WritesChunk bs crc (writeDataChunk h data) (.raw data) := by
  intro out ho
  rw [writeDataChunk, Act.ends_bind, Act.ends_read, if_pos ho.sparse]
  exact writeSparseDataChunk_writes hh data out ho

theorem writeFillChunk_writes (hh : h.Reliable) (len fillVal : Nat) :
    WritesChunk bs crc (writeFillChunk h len fillVal) (.fill len fillVal) := by
  intro out ho
  rw [writeFillChunk, Act.ends_bind, Act.ends_read, if_pos ho.sparse]
  exact writeSparseFillChunk_writes hh len fillVal out ho

theorem perform_ends (hh : h.Reliable) (hkind : out.file.kind = .normal) {op : OutputOp}
    {Q : Option ℕ+ → Out → Prop} {E : ErrorLog.Stop Empty → Out → Prop}
    (hq : Q none { out with ops := out.ops ++ [(op, false)] }) :
    (perform h op).Ends Q E out := by
  have hgz : ¬ (out.file.kind = .gz ∧ out.gzClosed = true) := by simp [hkind]
  simp only [perform, Act.ends_bind, Act.ends_read, Act.ends_update, if_neg hgz, hh out.ops.length,
    Act.ends_pure]
  exact hq

theorem WritesChunk.after {m : Output Int} {c : SparseChunk} {op : OutputOp}
    (hm : WritesChunk bs crc m c) (ho : SparseOut bs crc out) (hop : ∀ data, op ≠ .write data) :
    m.Ends (fun ret out' => SparseOut bs crc out' ∧
      (ret = 0 → c.Writable bs ∧ out'.written = out.written ++ c.bytes bs)) (fun _ _ => True)
      { out with ops := out.ops ++ [(op, false)] } := by
  have hsame : Out.written { out with ops := out.ops ++ [(op, false)] } = out.written := by
    cases op with
    | write data => exact absurd rfl (hop data)
    | _ => simp [Out.written]
  have hends := hm { out with ops := out.ops ++ [(op, false)] }
    ⟨ho.kind, ho.sparse, ho.useCrc, ho.blockSize⟩
  rwa [hsame] at hends

theorem writeFdChunk_writes (hh : h.Reliable) (bytes : Nat → UInt8) (len : Nat) (offset : Int) :
    WritesChunk bs crc (writeFdChunk h bytes len offset) (.raw (bytesFrom bytes offset.toNat len)) := by
  intro out ho
  rw [writeFdChunk]
  refine .ite (fun _ => ?_) fun _ => ?_
  · rw [Act.ends_bind, Act.ends_update, Act.ends_pure]
    exact ⟨⟨ho.kind, ho.sparse, ho.useCrc, ho.blockSize⟩, by simp⟩
  · rw [Act.ends_bind]
    refine perform_ends hh ho.kind (.ite (fun _ => ?_) fun _ => trivial)
    exact (writeDataChunk_writes hh _).after ho (by simp)

theorem writeFileChunk_writes (hh : h.Reliable) (len : Nat) (file : List UInt8) (offset : Int) :
    WritesChunk bs crc (writeFileChunk h len file offset)
      (.raw (bytesFrom (h.file file) offset.toNat len)) := by
  intro out ho
  rw [writeFileChunk, Act.ends_bind]
  refine perform_ends hh ho.kind ?_
  exact (writeFdChunk_writes hh _ len offset).after ho (by simp)

theorem sparseFileWriteBlock_writes (hh : h.Reliable) (bb : BackedBlock) :
    WritesChunk bs crc (sparseFileWriteBlock h bb) (chunkOf h bb) := by
  rw [sparseFileWriteBlock, chunkOf]
  cases bb.backing with
  | data p => exact writeDataChunk_writes hh _
  | file name offset => exact writeFileChunk_writes hh bb.len name.2 offset
  | fd fd offset => exact writeFdChunk_writes hh _ bb.len offset
  | fill val => exact writeFillChunk_writes hh bb.len val

theorem writeSkipChunk_ends (hh : h.Reliable) (ho : SparseOut bs crc out) (len : Int) :
    (writeSkipChunk h len).Ends (fun _ out' => SparseOut bs crc out' ∧
      out'.written = out.written ++
        if len.tmod bs = 0 then SparseChunk.bytes bs (.skip (ofInt32 (len.tdiv bs))) else [])
      (fun _ _ => True) out := by
  rw [writeSkipChunk, Act.ends_bind, Act.ends_read, if_pos ho.sparse]
  exact writeSparseSkipChunk_ends hh ho len

theorem skipGap_ends (hh : h.Reliable) (hbs : 0 < bs) (ho : SparseOut bs crc out)
    (lastBlock : Nat) (bb : BackedBlock) :
    (skipGap h bs lastBlock bb).Ends (fun _ out' => SparseOut bs crc out' ∧
      out'.written = out.written ++ (if bb.block > lastBlock then
        [SparseChunk.skip (u32 (bb.block - lastBlock))] else []).flatMap (SparseChunk.bytes bs))
      (fun _ _ => True) out := by
  rw [skipGap]
  refine .ite (fun hgap => ?_) fun hgap => ?_
  · rw [Act.ends_bind]
    refine (writeSkipChunk_ends hh ho _).post fun _ out' hw => ?_
    have hmod : ((bb.block - lastBlock) * bs : Nat) % bs = 0 := Nat.mul_mod_left _ _
    have hdiv : ((bb.block - lastBlock) * bs : Nat) / bs = bb.block - lastBlock :=
      Nat.mul_div_cancel _ hbs
    rw [← Int.ofNat_tmod, ← Int.ofNat_tdiv, hmod, hdiv, Nat.cast_zero,
      if_pos rfl] at hw
    rw [Act.ends_pure, if_pos hgap, List.flatMap_singleton, ← ofInt32_natCast]
    exact hw
  · simpa [if_neg hgap] using ho

theorem writeBlocksFrom_ends (hh : h.Reliable) (hbs : 0 < bs) (ho : SparseOut bs crc out)
    (lastBlock : Nat) (blocks : List BackedBlock) :
    (writeBlocksFrom h bs lastBlock blocks).Ends (fun ret out' => SparseOut bs crc out' ∧
      (ret.1 = 0 → ret.2 = lastBlockFrom bs lastBlock blocks ∧
        (∀ c ∈ chunksFrom h bs lastBlock blocks, c.Writable bs) ∧
        out'.written = out.written ++
          (chunksFrom h bs lastBlock blocks).flatMap (SparseChunk.bytes bs)))
      (fun _ _ => True) out := by
  induction blocks generalizing lastBlock out with
  | nil => exact ⟨ho, by simp [lastBlockFrom, chunksFrom]⟩
  | cons bb rest ih =>
    rw [writeBlocksFrom, Act.ends_bind]
    refine (skipGap_ends hh hbs ho lastBlock bb).post fun _ out1 ⟨ho1, hw1⟩ => ?_
    rw [Act.ends_bind]
    refine (sparseFileWriteBlock_writes hh bb out1 ho1).post fun ret out2 ⟨ho2, hw2⟩ => ?_
    refine .ite (fun hret => ⟨ho2, fun h0 => absurd h0 hret⟩) fun hret => ?_
    obtain ⟨hc, hw2⟩ := hw2 (not_not.mp hret)
    refine (ih ho2 (blockAfter bs bb)).post fun ret out3 ⟨ho3, hw3⟩ => ⟨ho3, fun h0 => ?_⟩
    obtain ⟨hlast, hall, hw3⟩ := hw3 h0
    refine ⟨hlast, ?_, ?_⟩
    · intro c hmem
      simp only [chunksFrom, List.mem_append, List.mem_cons] at hmem
      rcases hmem with hgap | rfl | hrest
      · split at hgap
        · rw [List.mem_singleton] at hgap
          exact hgap ▸ trivial
        · simp at hgap
      · exact hc
      · exact hall c hrest
    · rw [hw3, hw2, hw1, chunksFrom, List.flatMap_append, List.flatMap_cons]
      simp only [List.append_assoc]

theorem writeAllBlocks_ends (hh : h.Reliable) {s : SparseFile} (hbs : 0 < s.blockSize)
    (ho : SparseOut s.blockSize crc out) :
    (writeAllBlocks h s).Ends (fun ret out' => SparseOut s.blockSize crc out' ∧
      (ret = 0 → (∀ c ∈ chunksOf h s, c.Writable s.blockSize) ∧
        out'.written = out.written ++ (chunksOf h s).flatMap (SparseChunk.bytes s.blockSize)))
      (fun _ _ => True) out := by
  rw [writeAllBlocks, Act.ends_bind]
  refine (writeBlocksFrom_ends hh hbs ho 0 s.blocks).post fun ret out1 ⟨ho1, hw1⟩ => ?_
  refine .ite (fun hret => ⟨ho1, fun h0 => absurd h0 hret⟩) fun hret => ?_
  obtain ⟨hlast, hall, hw1⟩ := hw1 (not_not.mp hret)
  refine .ite (fun _ => trivial) fun _ => .ite (fun hpad => ?_) fun hpad => ?_
  · rw [Act.ends_bind]
    refine (writeSkipChunk_ends hh ho1 _).post fun _ out2 ⟨ho2, hw2⟩ => ⟨ho2, fun _ => ?_⟩
    rw [hlast] at hpad hw2
    rw [chunksOf, finalSkip, hw2, hw1]
    refine ⟨?_, ?_⟩
    · intro c hc
      rcases List.mem_append.mp hc with hc | hc
      · exact hall c hc
      · split at hc
        · rw [List.mem_singleton] at hc
          exact hc ▸ trivial
        · simp at hc
    · simp only [hpad, true_and]
      split <;> simp
  · rw [hlast] at hpad
    rw [Act.ends_pure, chunksOf, finalSkip, if_neg (fun h => hpad h.1), List.append_nil]
    exact ⟨ho1, fun _ => ⟨hall, hw1⟩⟩

def crcChunkBytes (crc32 : Nat) : List UInt8 :=
  ChunkHeader.bytes ⟨chunkTypeCrc32, 0, 0, 16⟩ ++ leBytes 4 crc32

theorem writeEndChunk_ends (hh : h.Reliable) (ho : SparseOut bs crc out) :
    (writeEndChunk h).Ends (fun _ out' => SparseOut bs crc out' ∧ out'.written = out.written ++
      if crc then crcChunkBytes out.file.crc32 else []) (fun _ _ => True) out := by
  rw [writeEndChunk, Act.ends_bind, Act.ends_read, if_pos ho.sparse, writeSparseEndChunk,
    Act.ends_bind, Act.ends_read, ho.useCrc]
  refine .ite (fun hcrc => ?_) fun hcrc => ⟨ho, by simp [hcrc]⟩
  rw [if_pos hcrc, Act.ends_bind]
  refine opsWrite_ends hh ho.kind (fun _ => ?_) fun hlt => by simp [ChunkHeader.bytes] at hlt
  rw [if_neg (by decide), Act.ends_bind]
  have ho1 : SparseOut bs crc { out with ops := out.ops ++
      [(.write (ChunkHeader.bytes ⟨chunkTypeCrc32, 0, 0, 16⟩), false)] } :=
    ⟨ho.kind, ho.sparse, ho.useCrc, ho.blockSize⟩
  refine opsWrite_ends hh ho1.kind (fun _ => ?_) fun hlt => by simp at hlt
  rw [Act.ends_bind, Act.ends_update, Act.ends_pure]
  refine ⟨⟨ho.kind, ho.sparse, ho.useCrc, ho.blockSize⟩, ?_⟩
  simp [Out.written, crcChunkBytes]

theorem sparseFileWrite_written (hh : h.Reliable) {s : SparseFile}
    (hw : sparseFileWrite h s (Out.start s false true crc) = (.ok 0, out)) :
    SparseOut s.blockSize crc out ∧ 0 < s.blockSize ∧
      (∀ c ∈ chunksOf h s, c.Writable s.blockSize) ∧ ∃ crc32,
      out.written = (headerOf s crc).bytes ++
        (chunksOf h s).flatMap (SparseChunk.bytes s.blockSize) ++
          if crc then crcChunkBytes crc32 else [] := by
  suffices hends : (sparseFileWrite h s).Ends (fun ret out => ret = 0 →
      SparseOut s.blockSize crc out ∧ 0 < s.blockSize ∧ (∀ c ∈ chunksOf h s, c.Writable s.blockSize) ∧ ∃ crc32,
        out.written = (headerOf s crc).bytes ++
          (chunksOf h s).flatMap (SparseChunk.bytes s.blockSize) ++
            if crc then crcChunkBytes crc32 else []) (fun _ _ => True)
      (Out.start s false true crc) from hends.ok hw rfl
  rw [sparseFileWrite]
  refine .ite (fun _ => trivial) fun hbs => ?_
  have hstart : SparseOut s.blockSize crc (Out.start s false true crc) := ⟨rfl, rfl, rfl, rfl⟩
  rw [Act.ends_bind, outputFileOpenFd, Act.ends_bind, Act.ends_read]
  have hkind : ¬ (Out.start s false true crc).file.kind = .gz := by simp [Out.start]
  rw [if_neg hkind]
  dsimp only
  rw [outputFileInit, Act.ends_bind, Act.ends_read]
  refine .ite (fun _ => by rintro ⟨⟩) fun _ => ?_
  rw [if_pos hstart.sparse]
  refine (writeParts_ends hh hstart _).mono ?_ fun _ _ => False.elim
  rintro ok out1 ⟨hfile, hok, hw1⟩
  have htrue : ok = true := hok.mpr (by simp [SparseHeader.bytes])
  rw [if_pos htrue, Act.ends_bind]
  have ho1 := hstart.of_file hfile
  refine (writeAllBlocks_ends hh (by omega) ho1).post fun ret out2 ⟨ho2, hw2⟩ => ?_
  rw [Act.ends_bind, outputFileClose, Act.ends_bind]
  refine (writeEndChunk_ends hh ho2).post fun _ out3 ⟨ho3, hw3⟩ hret => ?_
  obtain ⟨hall, hw2⟩ := hw2 hret
  refine ⟨ho3, by omega, hall, out2.file.crc32, ?_⟩
  rw [hw3, hw2, hw1 htrue, List.flatten_singleton]
  have hempty : (Out.start s false true crc).written = [] := rfl
  rw [hempty, List.nil_append]
  rfl

end Writing

end MakeExt4fs

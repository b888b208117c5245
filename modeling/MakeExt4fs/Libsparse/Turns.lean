import MakeExt4fs.Libsparse.Queue
import MakeExt4fs.Libsparse.SparseRead

namespace MakeExt4fs

open ErrorLog Interrupt Words

section Blind

variable {α β : Type} {r : SparseReader}

def SparseReader.alone (r : SparseReader) : SparseReader := { r with bbl := backedBlockListNew 0 }

def Blind (m : Read α) : Prop :=
  ∀ r bbl, m { r with bbl } = ((m r).1, { (m r).2 with bbl })

theorem blind_pure (a : α) : Blind (pure a : Read α) := fun _ _ => rfl

theorem blind_fail (e : Int) : Blind (Act.fail e : Read α) := fun _ _ => rfl

theorem blind_crash : Blind (Act.crash : Read α) := fun _ _ => rfl

theorem blind_update {f : SparseReader → SparseReader}
    (h : ∀ r bbl, f { r with bbl } = { f r with bbl }) : Blind (Act.update f : Read Unit) := by
  intro r bbl
  change ((Except.ok (), f { r with bbl }) : Except (Stop Int) Unit × SparseReader) =
    (Except.ok (), { f r with bbl })
  rw [h]

theorem Blind.bind {m : Read α} {f : α → Read β} (hm : Blind m) (hf : ∀ a, Blind (f a)) :
    Blind (m >>= f) := by
  intro r bbl
  rw [Act.bind_run, Act.bind_run, hm r bbl]
  rcases m r with ⟨e | a, r'⟩
  · rfl
  · exact hf a r' bbl

theorem Blind.ite {c : Prop} [Decidable c] {m n : Read α} (hm : Blind m) (hn : Blind n) :
    Blind (if c then m else n) := by
  split
  · exact hm
  · exact hn

theorem blind_read_bind {f : SparseReader → Read α} (h : ∀ r bbl, f { r with bbl } = f r)
    (hf : ∀ r, Blind (f r)) : Blind (Act.read >>= f) := by
  intro r bbl
  change f { r with bbl } { r with bbl } = ((f r r).1, { (f r r).2 with bbl })
  rw [h]
  exact hf r r bbl

variable (file : List UInt8) (copybufSize : Nat)

theorem readAll_blind (len : Nat) : Blind (readAll file len) :=
  blind_read_bind (fun _ _ => rfl) fun _ => (blind_update fun _ _ => rfl).bind fun _ =>
    .ite (blind_fail _) (blind_pure _)

theorem seekCur_blind (cnt : Nat) : Blind (seekCur cnt) := blind_update fun _ _ => rfl

theorem addCrc_blind (data : List UInt8) : Blind (addCrc data) := blind_update fun _ _ => rfl

theorem rawCrcLoop_blind (turns len : Nat) : Blind (rawCrcLoop file copybufSize turns len) := by
  induction turns generalizing len with
  | zero => cases len <;> [exact blind_pure (); exact blind_crash]
  | succ turns ih =>
    cases len with
    | zero => exact blind_pure ()
    | succ len =>
      exact .ite (blind_fail _) ((readAll_blind file _).bind fun _ =>
        (blind_update fun _ _ => rfl).bind fun _ => (addCrc_blind _).bind fun _ => ih _)

theorem bufCrcLoop_blind (isInt : Bool) (turns len : Nat) :
    Blind (bufCrcLoop copybufSize isInt turns len) := by
  induction turns generalizing len with
  | zero => cases len <;> [exact blind_pure (); exact blind_crash]
  | succ turns ih =>
    cases len with
    | zero => exact blind_pure ()
    | succ len =>
      exact .ite blind_crash (blind_read_bind (fun _ _ => rfl) fun _ =>
        (addCrc_blind _).bind fun _ => ih _)

end Blind

section Calls

variable {α β : Type} {r : SparseReader}

def addOne (call : Option AddCall) (bbl : BackedBlockList) : Option BackedBlockList :=
  match call with
  | none => some bbl
  | some c => c.run bbl

def Makes (m : Read α) (r : SparseReader) (call : Option AddCall) : Prop :=
  ∀ bbl, match addOne call bbl with
    | none => (m { r with bbl }).1 = .error .crash
    | some bbl' => m { r with bbl } = ((m r.alone).1, { (m r.alone).2 with bbl := bbl' })

theorem Blind.makes {m : Read α} (hm : Blind m) (r : SparseReader) : Makes m r none := by
  intro bbl
  change m { r with bbl } = ((m r.alone).1, { (m r.alone).2 with bbl })
  rw [SparseReader.alone, hm r bbl, hm r (backedBlockListNew 0)]

theorem addOne_alone (call : AddCall) : ∃ bbl, call.run (backedBlockListNew 0) = some bbl := by
  rw [AddCall.run_eq]
  exact ⟨_, rfl⟩

theorem makes_add (call : AddCall) {rest : Unit → Read α} (hrest : Blind (rest ())) :
    Makes (addChunk call.run >>= rest) r (some call) := by
  obtain ⟨b0, h0⟩ := addOne_alone call
  have hrun (bbl bbl' : BackedBlockList) (h : call.run bbl = some bbl') :
      (addChunk call.run >>= rest) { r with bbl } = rest () { r with bbl := bbl' } := by
    simp only [addChunk, Act.bind_run, Act.read, Act.expect, h]
    rfl
  have halone : (addChunk call.run >>= rest) r.alone = rest () { r with bbl := b0 } :=
    hrun _ _ h0
  intro bbl
  simp only [addOne]
  cases h : call.run bbl with
  | none => simp only [addChunk, Act.bind_run, Act.read, Act.expect, h, Act.crash]
  | some bbl' =>
    rw [hrun _ _ h, halone, hrest r bbl', hrest r b0]

theorem Makes.front {front : Read α} {g : α → Read β} {call : Option AddCall}
    (hfront : Blind front)
    (hok : ∀ a r1, front r.alone = (.ok a, r1) → Makes (g a) r1 call)
    (herror : ∀ e r1, front r.alone = (.error e, r1) → call = none) :
    Makes (front >>= g) r call := by
  intro bbl
  have hrun := (hfront.makes r) bbl
  change front { r with bbl } = ((front r.alone).1, { (front r.alone).2 with bbl }) at hrun
  simp only [Act.bind_run, hrun]
  rcases hf : front r.alone with ⟨e | a, r1⟩
  · rw [herror e r1 hf]
    rfl
  · have hnext := hok a r1 hf bbl
    have halone : r1.alone = r1 := by
      have hbbl : r1.bbl = backedBlockListNew 0 := by
        have := hfront r.alone (backedBlockListNew 0)
        rw [show { r.alone with bbl := backedBlockListNew 0 } = r.alone from rfl, hf] at this
        exact congrArg (fun p => p.2.bbl) this
      rw [SparseReader.alone, ← hbbl]
    rw [halone] at hnext
    exact hnext

end Calls

structure FoundChunk where
  reader : SparseReader
  curBlock : Nat

namespace FoundChunk

variable (file : List UInt8) (fd : Int) (copybufSize bs hdrSz : Nat) (crc : Bool) (c : FoundChunk)

def hdr : ChunkHeader := .ofBytes ((file.drop c.reader.pos).take chunkHeaderLen)

def dataPos : Nat := c.reader.pos + hdrSz

def dataSize : Nat := sub32 (c.hdr file).totalSz hdrSz

def len : Nat := u32 ((c.hdr file).chunkSz * bs)

def fillVal : Nat :=
  Buffer.getLE ⟨4, fun i => ((file.drop (c.dataPos hdrSz)).take 4).getD i 0⟩ 0 4

def Acceptable : Prop :=
  c.reader.pos + chunkHeaderLen ≤ file.length ∧
    if (c.hdr file).chunkType = chunkTypeRaw then
      c.dataSize file hdrSz % bs = 0 ∧ c.dataSize file hdrSz / bs = (c.hdr file).chunkSz
    else (c.hdr file).chunkType = chunkTypeFill → c.dataSize file hdrSz = 4 ∧
      c.dataPos hdrSz + 4 ≤ file.length

instance : Decidable (c.Acceptable file bs hdrSz) := by
  unfold Acceptable
  infer_instance

def call : Option AddCall :=
  if c.Acceptable file bs hdrSz then
    if (c.hdr file).chunkType = chunkTypeRaw then
      some (.fd fd (c.dataPos hdrSz) (c.len file bs) c.curBlock)
    else if (c.hdr file).chunkType = chunkTypeFill then
      some (.fill (c.fillVal file hdrSz) (c.len file bs) c.curBlock)
    else none
  else none

-- A division by a block size of zero, a crc that is asked for where there is none, and a turn of the
-- crc loop over a fill chunk that is longer than an int.
def Faults : Prop :=
  c.reader.pos + chunkHeaderLen ≤ file.length ∧
    ((c.hdr file).chunkType = chunkTypeRaw ∧ bs = 0 ∨
      (c.hdr file).chunkType = chunkTypeCrc32 ∧ crc = false ∨
      (c.hdr file).chunkType = chunkTypeFill ∧ c.Acceptable file bs hdrSz ∧ crc = true ∧
        2147483647 < min (c.len file bs) copybufSize)

def bodyLen : Nat :=
  if (c.hdr file).chunkType = chunkTypeRaw then c.len file bs
  else if (c.hdr file).chunkType = chunkTypeFill ∨ (c.hdr file).chunkType = chunkTypeCrc32 then 4
  else 0

def blocks : Nat :=
  if (c.hdr file).chunkType = chunkTypeRaw ∨ (c.hdr file).chunkType = chunkTypeFill ∨
    (c.hdr file).chunkType = chunkTypeDontCare then (c.hdr file).chunkSz else 0

-- What the reader has seen of a chunk that it goes on behind. The data of a raw chunk is not read
-- when there is no crc.
structure GoesOn (next : FoundChunk) : Prop where
  acceptable : c.Acceptable file bs hdrSz
  pos : next.reader.pos = c.dataPos hdrSz + c.bodyLen file bs
  curBlock : next.curBlock = u32 (c.curBlock + c.blocks file)
  blocks_lt : c.blocks file < 2147483648
  skip : (c.hdr file).chunkType = chunkTypeDontCare → c.dataSize file hdrSz = 0
  crc32 : (c.hdr file).chunkType = chunkTypeCrc32 → c.dataSize file hdrSz = 4
  inFile : (c.hdr file).chunkType ≠ chunkTypeRaw ∨ crc = true → 0 < c.bodyLen file bs →
    c.dataPos hdrSz + c.bodyLen file bs ≤ file.length

end FoundChunk

section Loops

variable {file : List UInt8} {copybufSize : Nat} {r : SparseReader}

theorem readAll_run {len : Nat} (h : r.pos + len ≤ file.length) :
    readAll file len r = (.ok ((file.drop r.pos).take len), { r with pos := r.pos + len }) := by
  have hlen : ((file.drop r.pos).take len).length = len := by
    rw [List.length_take, List.length_drop]
    omega
  simp only [readAll, Act.bind_run, Act.read, Act.update, hlen, lt_self_iff_false, if_false]
  rfl

theorem readAll_short {len : Nat} (h : file.length < r.pos + len) (hlen : 0 < len) :
    (readAll file len r).1 = .error (.error einval) := by
  have hshort : ((file.drop r.pos).take len).length < len := by
    rw [List.length_take, List.length_drop]
    omega
  simp only [readAll, Act.bind_run, Act.read, Act.update, hshort, if_true]
  rfl

theorem error_ne_crash (e : Int) : Stop.error e ≠ .crash := by simp

theorem readAll_reads {len : Nat} (hlen : 0 < len) :
    (readAll file len).Ends (fun data r' => r.pos + len ≤ file.length ∧
        data = (file.drop r.pos).take len ∧ r' = { r with pos := r.pos + len })
      (fun e _ => e ≠ .crash) r := by
  rcases Nat.lt_or_ge file.length (r.pos + len) with hshort | hle
  · have h := readAll_short hshort hlen
    unfold Act.Ends
    rcases hread : readAll file len r with ⟨e | a, r'⟩ <;> rw [hread] at h
    · obtain rfl := Except.error.inj h
      exact error_ne_crash einval
    · cases h
  · unfold Act.Ends
    rw [readAll_run hle]
    exact ⟨hle, rfl, rfl⟩

theorem rawCrcLoop_reads (hcopybuf : 0 < copybufSize) {turns len : Nat} (hturns : len ≤ turns) :
    (rawCrcLoop file copybufSize turns len).Ends
      (fun _ r' => r'.pos = r.pos + len ∧ (0 < len → r.pos + len ≤ file.length))
      (fun e _ => e ≠ .crash) r := by
  induction turns generalizing len r with
  | zero =>
    obtain rfl : len = 0 := Nat.le_zero.mp hturns
    exact ⟨rfl, fun h => absurd h (lt_irrefl 0)⟩
  | succ turns ih =>
    cases len with
    | zero => exact ⟨rfl, fun h => absurd h (lt_irrefl 0)⟩
    | succ len =>
      refine .ite (fun _ => error_ne_crash einval) fun _ => ?_
      rw [Act.ends_bind]
      refine (readAll_reads (by omega)).post ?_
      rintro data _ ⟨hle, rfl, rfl⟩
      rw [Act.ends_bind, Act.ends_update, Act.ends_bind, addCrc, Act.ends_update]
      have hrest : len + 1 - min (len + 1) copybufSize ≤ turns := by omega
      refine (ih hrest).post ?_
      rintro _ r' ⟨hpos, hin⟩
      rw [hpos]
      dsimp only at hin ⊢
      exact ⟨by omega, fun _ => by omega⟩

theorem bufCrcLoop_keeps (hcopybuf : 0 < copybufSize) {isInt : Bool} {turns len : Nat}
    (hturns : len ≤ turns) (hint : isInt = true → min len copybufSize ≤ 2147483647) :
    (bufCrcLoop copybufSize isInt turns len).Ends (fun _ r' => r'.pos = r.pos)
      (fun e _ => e ≠ .crash) r := by
  induction turns generalizing len r with
  | zero =>
    obtain rfl : len = 0 := Nat.le_zero.mp hturns
    exact rfl
  | succ turns ih =>
    cases len with
    | zero => exact rfl
    | succ len =>
      refine .ite (fun hbig => ?_) fun _ => ?_
      · have := hint hbig.1
        omega
      · rw [Act.ends_bind, Act.ends_read, Act.ends_bind, addCrc, Act.ends_update]
        have hrest : len + 1 - min (len + 1) copybufSize ≤ turns := by omega
        refine (ih hrest fun h => ?_).post fun _ r' hpos => hpos
        have := hint h
        omega

end Loops

section Turn

variable {file : List UInt8} {fd : Int} {copybufSize bs hdrSz : Nat} {crc : Bool} {c : FoundChunk}

def endTurn (curBlock : Nat) (ret : Int) : Read Nat :=
  if ret < 0 then Act.fail ret else return u32 (curBlock + ret.toNat)

theorem endTurn_blind (curBlock : Nat) (ret : Int) : Blind (endTurn curBlock ret) :=
  .ite (blind_fail _) (blind_pure _)

theorem readChunk_there (hhdr : chunkHeaderLen ≤ hdrSz)
    (hthere : c.reader.pos + chunkHeaderLen ≤ file.length) (bbl : BackedBlockList) :
    readChunk file fd copybufSize bs hdrSz crc c.curBlock { c.reader with bbl } =
      (processChunk file fd copybufSize bs (c.dataPos hdrSz) hdrSz (c.hdr file) c.curBlock crc >>=
        endTurn c.curBlock) { c.reader with pos := c.dataPos hdrSz, bbl } := by
  have hread := readAll_run (r := { c.reader with bbl }) hthere
  rcases Nat.lt_or_ge chunkHeaderLen hdrSz with hlong | hle
  · simp only [readChunk, Act.bind_run, hread, gt_iff_lt, if_pos hlong, seekCur, Act.update, Act.read,
      FoundChunk.dataPos, Nat.add_assoc, Nat.add_sub_cancel' hhdr]
    rfl
  · obtain rfl : hdrSz = chunkHeaderLen := Nat.le_antisymm hle hhdr
    simp only [readChunk, Act.bind_run, hread, gt_iff_lt, lt_self_iff_false, if_false, Act.read]
    rfl

theorem readChunk_missing (hmissing : file.length < c.reader.pos + chunkHeaderLen)
    (bbl : BackedBlockList) :
    (readChunk file fd copybufSize bs hdrSz crc c.curBlock { c.reader with bbl }).1 =
      .error (.error einval) := by
  have hshort := readAll_short (r := { c.reader with bbl }) hmissing (by decide)
  rw [readChunk, Act.bind_run]
  rcases hread : readAll file chunkHeaderLen { c.reader with bbl } with ⟨e | a, r'⟩ <;>
    rw [hread] at hshort
  · obtain rfl := Except.error.inj hshort
    rfl
  · cases hshort

def body (file : List UInt8) (fd : Int) (copybufSize bs hdrSz : Nat) (crc : Bool)
    (c : FoundChunk) : Read Nat :=
  processChunk file fd copybufSize bs (c.dataPos hdrSz) hdrSz (c.hdr file) c.curBlock crc >>=
    endTurn c.curBlock

theorem body_raw (htype : (c.hdr file).chunkType = chunkTypeRaw) :
    body file fd copybufSize bs hdrSz crc c = (do
      processRawChunk file fd copybufSize bs (c.dataSize file hdrSz) (c.dataPos hdrSz)
        (c.hdr file).chunkSz c.curBlock crc
      endTurn c.curBlock (s32 (c.hdr file).chunkSz)) := by
  rw [body, processChunk]
  simp only [htype, if_true, bind_assoc, pure_bind]
  rfl

theorem body_fill (htype : (c.hdr file).chunkType = chunkTypeFill) :
    body file fd copybufSize bs hdrSz crc c = (do
      processFillChunk file copybufSize bs (c.dataSize file hdrSz) (c.hdr file).chunkSz c.curBlock
        crc
      endTurn c.curBlock (s32 (c.hdr file).chunkSz)) := by
  have h1 : ¬ chunkTypeFill = chunkTypeRaw := by decide
  rw [body, processChunk]
  simp only [htype, h1, if_false, if_true, bind_assoc, pure_bind]
  rfl

theorem body_skip (htype : (c.hdr file).chunkType = chunkTypeDontCare) :
    body file fd copybufSize bs hdrSz crc c = (do
      processSkipChunk copybufSize bs (c.dataSize file hdrSz) (c.hdr file).chunkSz crc
      endTurn c.curBlock (s32 (c.hdr file).chunkSz)) := by
  have h1 : ¬ chunkTypeDontCare = chunkTypeRaw := by decide
  have h2 : ¬ chunkTypeDontCare = chunkTypeFill := by decide
  rw [body, processChunk]
  simp only [htype, h1, h2, if_false, if_true, bind_assoc, pure_bind]
  rfl

theorem body_crc32 (htype : (c.hdr file).chunkType = chunkTypeCrc32) :
    body file fd copybufSize bs hdrSz crc c = (do
      processCrc32Chunk file (c.dataSize file hdrSz) crc
      endTurn c.curBlock 0) := by
  have h1 : ¬ chunkTypeCrc32 = chunkTypeRaw := by decide
  have h2 : ¬ chunkTypeCrc32 = chunkTypeFill := by decide
  have h3 : ¬ chunkTypeCrc32 = chunkTypeDontCare := by decide
  rw [body, processChunk]
  simp only [htype, h1, h2, h3, if_false, if_true, bind_assoc, pure_bind]
  rfl

theorem body_other (h1 : (c.hdr file).chunkType ≠ chunkTypeRaw)
    (h2 : (c.hdr file).chunkType ≠ chunkTypeFill) (h3 : (c.hdr file).chunkType ≠ chunkTypeDontCare)
    (h4 : (c.hdr file).chunkType ≠ chunkTypeCrc32) :
    body file fd copybufSize bs hdrSz crc c = endTurn c.curBlock 0 := by
  rw [body, processChunk]
  simp only [if_neg h1, if_neg h2, if_neg h3, if_neg h4, pure_bind]

theorem raw_of_acceptable (h : c.Acceptable file bs hdrSz)
    (htype : (c.hdr file).chunkType = chunkTypeRaw) :
    c.dataSize file hdrSz % bs = 0 ∧ c.dataSize file hdrSz / bs = (c.hdr file).chunkSz := by
  have := h.2
  rwa [if_pos htype] at this

theorem raw_ne_fill : ¬ chunkTypeFill = chunkTypeRaw := by decide

theorem fill_of_acceptable (h : c.Acceptable file bs hdrSz)
    (htype : (c.hdr file).chunkType = chunkTypeFill) :
    c.dataSize file hdrSz = 4 ∧ c.dataPos hdrSz + 4 ≤ file.length := by
  have := h.2
  rw [htype, if_neg raw_ne_fill] at this
  exact this rfl

theorem acceptable_of_other (hthere : c.reader.pos + chunkHeaderLen ≤ file.length)
    (h1 : (c.hdr file).chunkType ≠ chunkTypeRaw) (h2 : (c.hdr file).chunkType ≠ chunkTypeFill) :
    c.Acceptable file bs hdrSz := by
  refine ⟨hthere, ?_⟩
  rw [if_neg h1]
  exact fun h => absurd h h2

theorem call_of_other (h1 : (c.hdr file).chunkType ≠ chunkTypeRaw)
    (h2 : (c.hdr file).chunkType ≠ chunkTypeFill) : c.call file fd bs hdrSz = none := by
  unfold FoundChunk.call
  simp only [if_neg h1, if_neg h2, ite_self]

def rawRest (file : List UInt8) (copybufSize bs : Nat) (crc : Bool) (c : FoundChunk) : Read Unit :=
  if crc then rawCrcLoop file copybufSize (c.len file bs) (c.len file bs)
  else seekCur (c.len file bs)

theorem rawRest_blind : Blind (rawRest file copybufSize bs crc c) :=
  .ite (rawCrcLoop_blind file copybufSize _ _) (seekCur_blind _)

theorem body_raw_acceptable (hbs : bs ≠ 0) (htype : (c.hdr file).chunkType = chunkTypeRaw)
    (hacceptable : c.Acceptable file bs hdrSz) :
    body file fd copybufSize bs hdrSz crc c =
      (addChunk (AddCall.fd fd (c.dataPos hdrSz) (c.len file bs) c.curBlock).run >>= fun _ =>
        rawRest file copybufSize bs crc c >>= fun _ =>
          endTurn c.curBlock (s32 (c.hdr file).chunkSz)) := by
  obtain ⟨hmod, hdiv⟩ := raw_of_acceptable hacceptable htype
  rw [body_raw htype, processRawChunk]
  simp only [if_neg hbs, hmod, hdiv, ne_eq, not_true_eq_false, if_false, bind_assoc]
  rfl

theorem body_raw_refused (hbs : bs ≠ 0) (htype : (c.hdr file).chunkType = chunkTypeRaw)
    (hthere : c.reader.pos + chunkHeaderLen ≤ file.length)
    (hrefused : ¬ c.Acceptable file bs hdrSz) :
    body file fd copybufSize bs hdrSz crc c = Act.fail einval := by
  rw [body_raw htype, processRawChunk]
  by_cases hmod : c.dataSize file hdrSz % bs = 0
  · have hdiv : ¬ c.dataSize file hdrSz / bs = (c.hdr file).chunkSz := by
      intro hdiv
      refine hrefused ⟨hthere, ?_⟩
      rw [if_pos htype]
      exact ⟨hmod, hdiv⟩
    simp only [if_neg hbs, hmod, hdiv, ne_eq, not_true_eq_false, not_false_eq_true, if_false, if_true]
    rfl
  · simp only [if_neg hbs, hmod, ne_eq, not_false_eq_true, if_true]
    rfl

def fillRest (file : List UInt8) (copybufSize bs : Nat) (crc : Bool) (c : FoundChunk)
    (word : List UInt8) : Read Unit := do
  if crc then
    let words := (List.replicate (copybufSize / 4) word).flatten
    Act.update fun r => { r with copybuf := words ++ r.copybuf.drop words.length }
    bufCrcLoop copybufSize true (c.len file bs) (c.len file bs)

theorem fillRest_blind (word : List UInt8) : Blind (fillRest file copybufSize bs crc c word) :=
  .ite ((blind_update fun _ _ => rfl).bind fun _ => bufCrcLoop_blind copybufSize _ _ _) (blind_pure _)

def fillBehind (file : List UInt8) (copybufSize bs : Nat) (crc : Bool) (c : FoundChunk)
    (word : List UInt8) : Read Nat :=
  addChunk (AddCall.fill (Buffer.getLE ⟨4, fun i => word.getD i 0⟩ 0 4) (c.len file bs)
    c.curBlock).run >>= fun _ => fillRest file copybufSize bs crc c word >>= fun _ =>
      endTurn c.curBlock (s32 (c.hdr file).chunkSz)

theorem body_fill_sized (htype : (c.hdr file).chunkType = chunkTypeFill)
    (hsize : c.dataSize file hdrSz = 4) :
    body file fd copybufSize bs hdrSz crc c =
      (readAll file 4 >>= fillBehind file copybufSize bs crc c) := by
  rw [body_fill htype, processFillChunk]
  simp only [hsize, ne_eq, not_true_eq_false, if_false, bind_assoc]
  rfl

theorem body_fill_refused (htype : (c.hdr file).chunkType = chunkTypeFill)
    (hsize : c.dataSize file hdrSz ≠ 4) :
    body file fd copybufSize bs hdrSz crc c = Act.fail einval := by
  rw [body_fill htype, processFillChunk]
  simp only [if_pos hsize]
  rfl

theorem body_raw_makes (hbs : bs ≠ 0) (hthere : c.reader.pos + chunkHeaderLen ≤ file.length)
    (htype : (c.hdr file).chunkType = chunkTypeRaw) (r : SparseReader) :
    Makes (body file fd copybufSize bs hdrSz crc c) r (c.call file fd bs hdrSz) := by
  by_cases hacceptable : c.Acceptable file bs hdrSz
  · rw [body_raw_acceptable hbs htype hacceptable, FoundChunk.call, if_pos hacceptable, if_pos htype]
    exact makes_add _ (rawRest_blind.bind fun _ => endTurn_blind _ _)
  · rw [body_raw_refused hbs htype hthere hacceptable, FoundChunk.call, if_neg hacceptable]
    exact (blind_fail einval).makes _

theorem body_fill_makes (hthere : c.reader.pos + chunkHeaderLen ≤ file.length)
    (htype : (c.hdr file).chunkType = chunkTypeFill) :
    Makes (body file fd copybufSize bs hdrSz crc c) { c.reader with pos := c.dataPos hdrSz }
      (c.call file fd bs hdrSz) := by
  by_cases hsize : c.dataSize file hdrSz = 4
  · rw [body_fill_sized htype hsize]
    refine Makes.front (readAll_blind file 4) (fun word r1 hrun => ?_) fun e r1 hrun => ?_
    · obtain ⟨hle, rfl, rfl⟩ := (readAll_reads (by decide)).ok hrun
      have hacceptable : c.Acceptable file bs hdrSz := by
        refine ⟨hthere, ?_⟩
        rw [htype, if_neg raw_ne_fill]
        exact fun _ => ⟨hsize, hle⟩
      rw [FoundChunk.call, if_pos hacceptable, htype, if_neg raw_ne_fill, if_pos rfl]
      exact makes_add _ ((fillRest_blind _).bind fun _ => endTurn_blind _ _)
    · have hrefused : ¬ c.Acceptable file bs hdrSz := by
        intro h
        cases hrun.symm.trans (readAll_run (fill_of_acceptable h htype).2)
      rw [FoundChunk.call, if_neg hrefused]
  · have hrefused : ¬ c.Acceptable file bs hdrSz := fun h =>
      hsize (fill_of_acceptable h htype).1
    rw [body_fill_refused htype hsize, FoundChunk.call, if_neg hrefused]
    exact (blind_fail einval).makes _

variable (fd crc copybufSize) in
theorem body_other_blind (h1 : (c.hdr file).chunkType ≠ chunkTypeRaw)
    (h2 : (c.hdr file).chunkType ≠ chunkTypeFill) :
    Blind (body file fd copybufSize bs hdrSz crc c) := by
  by_cases h3 : (c.hdr file).chunkType = chunkTypeDontCare
  · rw [body_skip h3, processSkipChunk]
    refine Blind.bind (.ite (blind_fail _) (.ite ?_ (blind_pure _))) fun _ => endTurn_blind _ _
    exact (blind_update fun _ _ => rfl).bind fun _ => bufCrcLoop_blind copybufSize _ _ _
  by_cases h4 : (c.hdr file).chunkType = chunkTypeCrc32
  · rw [body_crc32 h4, processCrc32Chunk]
    refine Blind.bind (.ite blind_crash (blind_read_bind (fun _ _ => rfl) fun _ => ?_)) fun _ =>
      endTurn_blind _ _
    exact .ite (blind_fail _) ((readAll_blind file 4).bind fun _ => .ite (blind_fail _) (blind_pure _))
  · rw [body_other h1 h2 h3 h4]
    exact endTurn_blind _ _

variable (fd) in
theorem body_makes (hfaults : ¬ c.Faults file copybufSize bs hdrSz crc)
    (hthere : c.reader.pos + chunkHeaderLen ≤ file.length) :
    Makes (body file fd copybufSize bs hdrSz crc c) { c.reader with pos := c.dataPos hdrSz }
      (c.call file fd bs hdrSz) := by
  by_cases h1 : (c.hdr file).chunkType = chunkTypeRaw
  · exact body_raw_makes (fun hbs => hfaults ⟨hthere, .inl ⟨h1, hbs⟩⟩) hthere h1 _
  by_cases h2 : (c.hdr file).chunkType = chunkTypeFill
  · exact body_fill_makes hthere h2
  rw [call_of_other h1 h2]
  exact (body_other_blind fd copybufSize crc h1 h2).makes _

theorem bufCrcLoop_long {len : Nat} (hlong : 2147483647 < min len copybufSize) (r : SparseReader) :
    (bufCrcLoop copybufSize true len len r).1 = .error .crash := by
  cases len with
  | zero => simp at hlong
  | succ len =>
    simp only [bufCrcLoop, gt_iff_lt, hlong, and_self, if_true]
    rfl

theorem bind_crash {α β : Type} {m : Read α} {f : α → Read β} {r : SparseReader}
    (h : (m r).1 = .error .crash) : ((m >>= f) r).1 = .error .crash := by
  rw [Act.bind_run]
  rcases hm : m r with ⟨e | a, r'⟩ <;> rw [hm] at h
  · exact congrArg Except.error (Except.error.inj h)
  · cases h

theorem addChunk_bind_crash {β : Type} {f : BackedBlockList → Option BackedBlockList}
    {rest : Unit → Read β} (h : ∀ r, (rest () r).1 = .error .crash) (r : SparseReader) :
    ((addChunk f >>= rest) r).1 = .error .crash := by
  cases hf : f r.bbl with
  | none =>
    refine bind_crash ?_
    simp only [addChunk, Act.bind_run, Act.read, Act.expect, hf]
    rfl
  | some bbl =>
    have hadd : addChunk f r = (.ok (), { r with bbl }) := by
      simp only [addChunk, Act.bind_run, Act.read, Act.expect, hf]
      rfl
    rw [Act.bind_run, hadd]
    exact h _

theorem readChunk_faults (hhdr : chunkHeaderLen ≤ hdrSz)
    (hfaults : c.Faults file copybufSize bs hdrSz crc) (bbl : BackedBlockList) :
    (readChunk file fd copybufSize bs hdrSz crc c.curBlock { c.reader with bbl }).1 =
      .error .crash := by
  obtain ⟨hthere, hkind⟩ := hfaults
  rw [readChunk_there hhdr hthere]
  change (body file fd copybufSize bs hdrSz crc c _).1 = _
  rcases hkind with ⟨htype, hbs⟩ | ⟨htype, hcrc⟩ | ⟨htype, hacceptable, hcrc, hlong⟩
  · rw [body_raw htype, processRawChunk]
    simp only [if_pos hbs]
    rfl
  · rw [body_crc32 htype, processCrc32Chunk]
    simp only [hcrc, Bool.not_false, if_true]
    rfl
  · obtain ⟨hsize, hin⟩ := fill_of_acceptable hacceptable htype
    rw [body_fill_sized htype hsize, Act.bind_run, readAll_run hin]
    refine addChunk_bind_crash (fun r => bind_crash ?_) _
    simp only [fillRest, hcrc, if_true]
    rw [Act.bind_run]
    exact bufCrcLoop_long hlong _

theorem addChunk_alone {call : AddCall} {β : Type} {rest : Unit → Read β}
    {Q : β → SparseReader → Prop} {E : Stop Int → SparseReader → Prop} {r : SparseReader}
    (h : ∀ bbl, (rest ()).Ends Q E { r with bbl }) (hr : r.alone = r) :
    (addChunk call.run >>= rest).Ends Q E r := by
  obtain ⟨bbl, hbbl⟩ := addOne_alone call
  rw [← hr, Act.ends_bind, addChunk, Act.ends_bind, Act.ends_read, Act.ends_bind, Act.ends_expect]
  refine ⟨fun bbl' _ => ?_, fun hnone => ?_⟩
  · exact h bbl'
  · rw [show r.alone.bbl = backedBlockListNew 0 from rfl, hbbl] at hnone
    cases hnone

theorem endTurn_ends {Q : Nat → SparseReader → Prop} {r : SparseReader} (curBlock : Nat) {n : Nat}
    (hn : n < 4294967296) (hq : n < 2147483648 → Q (u32 (curBlock + n)) r) :
    (endTurn curBlock (s32 n)).Ends Q (fun e _ => e ≠ .crash) r := by
  refine .ite (fun _ => error_ne_crash _) fun hnonneg => ?_
  have hlt : n < 2147483648 := by
    by_contra hbig
    rw [s32, u32_of_lt hn, if_neg hbig] at hnonneg
    omega
  rw [s32, u32_of_lt hn, if_pos hlt] at hnonneg ⊢
  exact hq hlt

theorem chunkSz_lt (file : List UInt8) (c : FoundChunk) : (c.hdr file).chunkSz < 4294967296 :=
  Buffer.getLE_lt _ 4 4

theorem goesOn_raw (htype : (c.hdr file).chunkType = chunkTypeRaw)
    (hacceptable : c.Acceptable file bs hdrSz) {r' : SparseReader}
    (hpos : r'.pos = c.dataPos hdrSz + c.len file bs)
    (hin : crc = true → 0 < c.len file bs → c.dataPos hdrSz + c.len file bs ≤ file.length)
    (hlt : (c.hdr file).chunkSz < 2147483648) :
    c.GoesOn file bs hdrSz crc ⟨r', u32 (c.curBlock + (c.hdr file).chunkSz)⟩ := by
  have hlen : c.bodyLen file bs = c.len file bs := by rw [FoundChunk.bodyLen, if_pos htype]
  have hblocks : c.blocks file = (c.hdr file).chunkSz := by
    rw [FoundChunk.blocks, if_pos (.inl htype)]
  constructor
  case acceptable => exact hacceptable
  case pos => rw [hlen, hpos]
  case curBlock => rw [hblocks]
  case blocks_lt => rwa [hblocks]
  case skip => simp [htype, chunkTypeRaw, chunkTypeDontCare]
  case crc32 => simp [htype, chunkTypeRaw, chunkTypeCrc32]
  case inFile =>
    rw [hlen]
    rintro (hne | hcrc) hpos
    · exact absurd htype hne
    · exact hin hcrc hpos

theorem body_raw_ends (hcopybuf : 0 < copybufSize) (hbs : bs ≠ 0)
    (hthere : c.reader.pos + chunkHeaderLen ≤ file.length)
    (htype : (c.hdr file).chunkType = chunkTypeRaw) :
    (body file fd copybufSize bs hdrSz crc c).Ends
      (fun curBlock r' => c.GoesOn file bs hdrSz crc ⟨r', curBlock⟩) (fun e _ => e ≠ .crash)
      (SparseReader.alone { c.reader with pos := c.dataPos hdrSz }) := by
  by_cases hacceptable : c.Acceptable file bs hdrSz
  · rw [body_raw_acceptable hbs htype hacceptable]
    refine addChunk_alone (fun bbl => ?_) rfl
    rw [Act.ends_bind]
    refine .ite (fun hcrc => ?_) fun hcrc => ?_
    · refine (rawCrcLoop_reads hcopybuf le_rfl).post ?_
      rintro _ r' ⟨hpos, hin⟩
      exact endTurn_ends _ (chunkSz_lt file c) (goesOn_raw htype hacceptable hpos fun _ => hin)
    · rw [seekCur, Act.ends_update]
      exact endTurn_ends _ (chunkSz_lt file c)
        (goesOn_raw htype hacceptable rfl fun h => absurd h hcrc)
  · rw [body_raw_refused hbs htype hthere hacceptable]
    exact error_ne_crash einval

theorem body_fill_ends (hcopybuf : 0 < copybufSize)
    (hfaults : ¬ c.Faults file copybufSize bs hdrSz crc)
    (hthere : c.reader.pos + chunkHeaderLen ≤ file.length)
    (htype : (c.hdr file).chunkType = chunkTypeFill) :
    (body file fd copybufSize bs hdrSz crc c).Ends
      (fun curBlock r' => c.GoesOn file bs hdrSz crc ⟨r', curBlock⟩) (fun e _ => e ≠ .crash)
      (SparseReader.alone { c.reader with pos := c.dataPos hdrSz }) := by
  by_cases hsize : c.dataSize file hdrSz = 4
  · rw [body_fill_sized htype hsize, Act.ends_bind]
    refine (readAll_reads (by decide)).post ?_
    rintro word r1 ⟨hin, -, rfl⟩
    have hacceptable : c.Acceptable file bs hdrSz := by
      refine ⟨hthere, ?_⟩
      rw [htype, if_neg raw_ne_fill]
      exact fun _ => ⟨hsize, hin⟩
    have hgoes {r' : SparseReader} (hpos : r'.pos = c.dataPos hdrSz + 4)
        (hlt : (c.hdr file).chunkSz < 2147483648) :
        c.GoesOn file bs hdrSz crc ⟨r', u32 (c.curBlock + (c.hdr file).chunkSz)⟩ := by
      have hlen : c.bodyLen file bs = 4 := by
        rw [FoundChunk.bodyLen, htype, if_neg raw_ne_fill, if_pos (.inl rfl)]
      have hblocks : c.blocks file = (c.hdr file).chunkSz := by
        rw [FoundChunk.blocks, if_pos (.inr (.inl htype))]
      constructor
      case acceptable => exact hacceptable
      case pos => rw [hlen, hpos]
      case curBlock => rw [hblocks]
      case blocks_lt => rwa [hblocks]
      case skip => simp [htype, chunkTypeFill, chunkTypeDontCare]
      case crc32 => simp [htype, chunkTypeFill, chunkTypeCrc32]
      case inFile =>
        rw [hlen]
        exact fun _ _ => hin
    refine addChunk_alone (fun bbl => ?_) rfl
    rw [fillRest, Act.ends_bind]
    refine .ite (fun hcrc => ?_) fun _ => endTurn_ends _ (chunkSz_lt file c) (hgoes rfl)
    rw [Act.ends_bind, Act.ends_update]
    refine (bufCrcLoop_keeps hcopybuf le_rfl fun _ => ?_).post fun _ r' hpos =>
      endTurn_ends _ (chunkSz_lt file c) (hgoes hpos)
    by_contra hlong
    exact hfaults ⟨hthere, .inr (.inr ⟨htype, hacceptable, hcrc, by omega⟩)⟩
  · rw [body_fill_refused htype hsize]
    exact error_ne_crash einval

theorem body_skip_ends (hcopybuf : 0 < copybufSize)
    (hthere : c.reader.pos + chunkHeaderLen ≤ file.length)
    (htype : (c.hdr file).chunkType = chunkTypeDontCare) {r : SparseReader}
    (hr : r.pos = c.dataPos hdrSz) :
    (body file fd copybufSize bs hdrSz crc c).Ends
      (fun curBlock r' => c.GoesOn file bs hdrSz crc ⟨r', curBlock⟩) (fun e _ => e ≠ .crash) r := by
  have h1 : ¬ (c.hdr file).chunkType = chunkTypeRaw := by rw [htype]; decide
  have h2 : ¬ (c.hdr file).chunkType = chunkTypeFill := by rw [htype]; decide
  have h4 : ¬ (c.hdr file).chunkType = chunkTypeCrc32 := by rw [htype]; decide
  have hlen : c.bodyLen file bs = 0 := by
    simp only [FoundChunk.bodyLen, if_neg h1, h2, h4, or_self, if_false]
  have hblocks : c.blocks file = (c.hdr file).chunkSz := by
    rw [FoundChunk.blocks, if_pos (.inr (.inr htype))]
  rw [body_skip htype, Act.ends_bind]
  refine .ite (fun _ => error_ne_crash einval) fun hsize => ?_
  have hgoes {r' : SparseReader} (hpos : r'.pos = r.pos) (hlt : (c.hdr file).chunkSz < 2147483648) :
      c.GoesOn file bs hdrSz crc ⟨r', u32 (c.curBlock + (c.hdr file).chunkSz)⟩ := by
    constructor
    case acceptable => exact acceptable_of_other hthere h1 h2
    case pos => rw [hlen, hpos, hr, Nat.add_zero]
    case curBlock => rw [hblocks]
    case blocks_lt => rwa [hblocks]
    case skip => exact fun _ => not_not.mp hsize
    case crc32 => exact fun h => absurd h h4
    case inFile =>
      rw [hlen]
      exact fun _ h => absurd h (lt_irrefl 0)
  refine .ite (fun _ => ?_) fun _ => endTurn_ends _ (chunkSz_lt file c) (hgoes rfl)
  rw [Act.ends_bind, Act.ends_update]
  exact (bufCrcLoop_keeps hcopybuf le_rfl (by simp)).post fun _ r' hpos =>
    endTurn_ends _ (chunkSz_lt file c) (hgoes hpos)

theorem body_crc32_ends (hcrc : crc = true)
    (hthere : c.reader.pos + chunkHeaderLen ≤ file.length)
    (htype : (c.hdr file).chunkType = chunkTypeCrc32) {r : SparseReader}
    (hr : r.pos = c.dataPos hdrSz) :
    (body file fd copybufSize bs hdrSz crc c).Ends
      (fun curBlock r' => c.GoesOn file bs hdrSz crc ⟨r', curBlock⟩) (fun e _ => e ≠ .crash) r := by
  have h1 : ¬ (c.hdr file).chunkType = chunkTypeRaw := by rw [htype]; decide
  have h2 : ¬ (c.hdr file).chunkType = chunkTypeFill := by rw [htype]; decide
  have h3 : ¬ (c.hdr file).chunkType = chunkTypeDontCare := by rw [htype]; decide
  have hlen : c.bodyLen file bs = 4 := by
    rw [FoundChunk.bodyLen, if_neg h1, if_pos (.inr htype)]
  have hblocks : c.blocks file = 0 := by
    simp only [FoundChunk.blocks, h1, h2, h3, or_self, if_false]
  rw [body_crc32 htype, Act.ends_bind, processCrc32Chunk]
  simp only [hcrc, Bool.not_true, Bool.false_eq_true, if_false]
  rw [Act.ends_bind, Act.ends_read]
  refine .ite (fun _ => error_ne_crash einval) fun hsize => ?_
  rw [Act.ends_bind]
  refine (readAll_reads (by decide)).post ?_
  rintro word r1 ⟨hin, -, rfl⟩
  refine .ite (fun _ => error_ne_crash einval) fun _ => ?_
  rw [Act.ends_pure]
  refine endTurn_ends (n := 0) _ (by decide) fun _ => ?_
  rw [hr] at hin ⊢
  constructor
  case acceptable => exact acceptable_of_other hthere h1 h2
  case pos => rw [hlen]
  case curBlock => rw [hblocks]
  case blocks_lt => rw [hblocks]; decide
  case skip => exact fun h => absurd h h3
  case crc32 => exact fun _ => not_not.mp hsize
  case inFile =>
    rw [hlen]
    exact fun _ _ => hin

theorem body_other_ends (hthere : c.reader.pos + chunkHeaderLen ≤ file.length)
    (h1 : (c.hdr file).chunkType ≠ chunkTypeRaw) (h2 : (c.hdr file).chunkType ≠ chunkTypeFill)
    (h3 : (c.hdr file).chunkType ≠ chunkTypeDontCare)
    (h4 : (c.hdr file).chunkType ≠ chunkTypeCrc32) {r : SparseReader}
    (hr : r.pos = c.dataPos hdrSz) :
    (body file fd copybufSize bs hdrSz crc c).Ends
      (fun curBlock r' => c.GoesOn file bs hdrSz crc ⟨r', curBlock⟩) (fun e _ => e ≠ .crash) r := by
  have hlen : c.bodyLen file bs = 0 := by
    simp only [FoundChunk.bodyLen, h1, h2, h4, or_self, if_false]
  have hblocks : c.blocks file = 0 := by
    simp only [FoundChunk.blocks, h1, h2, h3, or_self, if_false]
  rw [body_other h1 h2 h3 h4]
  refine endTurn_ends (n := 0) _ (by decide) fun _ => ?_
  constructor
  case acceptable => exact acceptable_of_other hthere h1 h2
  case pos => rw [hlen, hr, Nat.add_zero]
  case curBlock => rw [hblocks]
  case blocks_lt => rw [hblocks]; decide
  case skip => exact fun h => absurd h h3
  case crc32 => exact fun h => absurd h h4
  case inFile =>
    rw [hlen]
    exact fun _ h => absurd h (lt_irrefl 0)

variable (fd) in
theorem readChunk_ends_alone (hcopybuf : 0 < copybufSize) (hhdr : chunkHeaderLen ≤ hdrSz)
    (hfaults : ¬ c.Faults file copybufSize bs hdrSz crc) :
    (readChunk file fd copybufSize bs hdrSz crc c.curBlock).Ends
      (fun curBlock r' => c.GoesOn file bs hdrSz crc ⟨r', curBlock⟩) (fun e _ => e ≠ .crash)
      c.reader.alone := by
  rcases Nat.lt_or_ge file.length (c.reader.pos + chunkHeaderLen) with hmissing | hthere
  · have h : (readChunk file fd copybufSize bs hdrSz crc c.curBlock c.reader.alone).1 =
      .error (.error einval) := readChunk_missing hmissing _
    refine Act.ends_of_run (fun a s' hrun => ?_) fun e s' hrun => ?_
    · exact absurd (h.symm.trans (congrArg Prod.fst hrun)) (by simp)
    · obtain rfl := Except.error.inj ((congrArg Prod.fst hrun).symm.trans h)
      exact error_ne_crash einval
  · unfold Act.Ends
    rw [SparseReader.alone, readChunk_there hhdr hthere]
    change (body file fd copybufSize bs hdrSz crc c).Ends _ _
      (SparseReader.alone { c.reader with pos := c.dataPos hdrSz })
    by_cases h1 : (c.hdr file).chunkType = chunkTypeRaw
    · exact body_raw_ends hcopybuf (fun hbs => hfaults ⟨hthere, .inl ⟨h1, hbs⟩⟩) hthere h1
    by_cases h2 : (c.hdr file).chunkType = chunkTypeFill
    · exact body_fill_ends hcopybuf hfaults hthere h2
    by_cases h3 : (c.hdr file).chunkType = chunkTypeDontCare
    · exact body_skip_ends hcopybuf hthere h3 rfl
    by_cases h4 : (c.hdr file).chunkType = chunkTypeCrc32
    · have hcrc : crc = true := by
        by_contra hcrc
        exact hfaults ⟨hthere, .inr (.inl ⟨h4, by simpa using hcrc⟩)⟩
      exact body_crc32_ends hcrc hthere h4 rfl
    · exact body_other_ends hthere h1 h2 h3 h4 rfl

variable (fd) in
theorem readChunk_makes (hhdr : chunkHeaderLen ≤ hdrSz)
    (hfaults : ¬ c.Faults file copybufSize bs hdrSz crc) :
    Makes (readChunk file fd copybufSize bs hdrSz crc c.curBlock) c.reader
      (c.call file fd bs hdrSz) := by
  rcases Nat.lt_or_ge file.length (c.reader.pos + chunkHeaderLen) with hmissing | hthere
  · have hcall : c.call file fd bs hdrSz = none := by
      rw [FoundChunk.call, if_neg]
      intro h
      have := h.1
      omega
    rw [hcall, readChunk]
    refine Makes.front (readAll_blind file _) (fun bytes r1 hrun => ?_) fun _ _ _ => rfl
    have := ((readAll_reads (by decide)).ok hrun).1
    change c.reader.pos + chunkHeaderLen ≤ file.length at this
    omega
  · intro bbl
    have hmakes := body_makes fd hfaults hthere bbl
    rw [SparseReader.alone, readChunk_there hhdr hthere, readChunk_there hhdr hthere]
    exact hmakes

end Turn

end MakeExt4fs

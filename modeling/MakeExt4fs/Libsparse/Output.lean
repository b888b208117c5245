import MakeExt4fs.Lib.Buffer
import MakeExt4fs.Lib.Interrupt
import MakeExt4fs.Libsparse.BackedBlock
import MakeExt4fs.Libsparse.Crc32

namespace MakeExt4fs

open Interrupt Words

inductive OutputOp where
  | write (data : List UInt8)
  | skip (cnt : Int)
  | truncate (len : Int)
  | tell
  | seekTo (pos : Int)
  | gzdopen
  | openSource (file : List UInt8)
  | mapSource (size : Nat) (offset : Int)
  deriving DecidableEq, Repr

-- The struct output_file_ops of an output file.
inductive OutputKind where
  | normal
  | gz
  | callback
  deriving DecidableEq, Repr

structure OutputFile where
  kind : OutputKind
  sparse : Bool
  curOutPtr : Int
  chunkCnt : Nat
  crc32 : Nat
  useCrc : Bool
  blockSize : Nat
  len : Int
  deriving DecidableEq, Repr

-- The calls so far, each with whether it reported a failure.
structure Out where
  file : OutputFile
  ops : List (OutputOp × Bool)
  deriving DecidableEq, Repr

-- Where the bytes come from, and the errno with which the call number n fails.
structure Host where
  mem : Nat → UInt8
  file : List UInt8 → Nat → UInt8
  fd : Int → Nat → UInt8
  fault : Nat → Option ℕ+

-- Nothing stops the output code but a failed assertion and undefined behaviour.
abbrev Output := Act Empty Out

namespace Out

def position (out : Out) : Int :=
  out.ops.foldl (fun pos op =>
    match op with
    | (.write data, false) => pos + data.length
    | (.skip cnt, false) => pos + cnt
    | (.seekTo there, false) => there
    | _ => pos) 0

def gzClosed (out : Out) : Bool := out.ops.contains (.gzdopen, true)

end Out

section Calls

variable (h : Host)

def perform (op : OutputOp) : Output (Option ℕ+) := do
  let out ← Act.read
  let failed := if out.file.kind = .gz ∧ out.gzClosed then some 1 else h.fault out.ops.length
  Act.update fun out => { out with ops := out.ops ++ [(op, failed.isSome)] }
  return failed

def fileSkip (cnt : Int) : Output Int := do
  match ← perform h (.skip cnt) with
  | some _ => return -1
  | none => return 0

-- At most INT_MAX at a time; len bytes take at most len turns.
def callbackSkipLoop : Nat → Int → Output Int
  | 0, _ => return 0
  | turns + 1, off => do
    if off ≤ 0 then
      return 0
    else
      let toWrite := min off 2147483647
      match ← perform h (.skip toWrite) with
      | some e => return -e
      | none => callbackSkipLoop turns (off - toWrite)

def opsSkip (cnt : Int) : Output Int := do
  let out ← Act.read
  match out.file.kind with
  | .normal => fileSkip h cnt
  | .gz => fileSkip h cnt
  | .callback => callbackSkipLoop h cnt.toNat cnt

def filePad (len : Int) : Output Int := do
  match ← perform h (.truncate len) with
  | some e => return -e
  | none => return 0

-- What the last gzwrite says is not looked at.
def gzFilePad (len : Int) : Output Int := do
  match ← perform h .tell with
  | some _ => return -1
  | none =>
    let out ← Act.read
    if len ≤ out.position then
      return 0
    else
      match ← perform h (.seekTo (len - 1)) with
      | some _ => return -1
      | none =>
        let _ ← perform h (.write [0])
        return 0

def opsPad (len : Int) : Output Int := do
  let out ← Act.read
  match out.file.kind with
  | .normal => filePad h len
  | .gz => gzFilePad h len
  | .callback => return -1

-- The length is handed on as an int: the system refuses a negative one, and zlib writes nothing
-- and says so with a zero that is taken for success.
def opsWrite (data : List UInt8) : Output Int := do
  let out ← Act.read
  if data.length ≤ 2147483647 then
    match ← perform h (.write data) with
    | some e => return if out.file.kind = .callback then -e else -1
    | none => return 0
  else
    Act.update fun out => { out with ops := out.ops ++ [(.write [], true)] }
    return if out.file.kind = .normal then -1 else 0

end Calls

def sparseHeaderMagic : Nat := 0xed26ff3a
def sparseHeaderMajorVer : Nat := 1
def sparseHeaderMinorVer : Nat := 0
def sparseHeaderLen : Nat := 28
def chunkHeaderLen : Nat := 12
def chunkTypeRaw : Nat := 0xCAC1
def chunkTypeFill : Nat := 0xCAC2
def chunkTypeDontCare : Nat := 0xCAC3
def chunkTypeCrc32 : Nat := 0xCAC4

structure SparseHeader where
  magic : Nat
  majorVersion : Nat
  minorVersion : Nat
  fileHdrSz : Nat
  chunkHdrSz : Nat
  blkSz : Nat
  totalBlks : Nat
  totalChunks : Nat
  imageChecksum : Nat
  deriving DecidableEq, Repr

structure ChunkHeader where
  chunkType : Nat
  reserved1 : Nat
  chunkSz : Nat
  totalSz : Nat
  deriving DecidableEq, Repr

open Buffer (leBytes)

def SparseHeader.bytes (hdr : SparseHeader) : List UInt8 :=
  leBytes 4 hdr.magic ++ leBytes 2 hdr.majorVersion ++ leBytes 2 hdr.minorVersion ++
    leBytes 2 hdr.fileHdrSz ++ leBytes 2 hdr.chunkHdrSz ++ leBytes 4 hdr.blkSz ++
    leBytes 4 hdr.totalBlks ++ leBytes 4 hdr.totalChunks ++ leBytes 4 hdr.imageChecksum

def ChunkHeader.bytes (hdr : ChunkHeader) : List UInt8 :=
  leBytes 2 hdr.chunkType ++ leBytes 2 hdr.reserved1 ++ leBytes 4 hdr.chunkSz ++
    leBytes 4 hdr.totalSz

-- ALIGN on 32-bit numbers.
def align32 (x y : Nat) : Nat := u32 (y * divRoundUp32 x y)

theorem align32_eq (len bs : Nat) : align32 len bs = divRoundUp32 len bs * bs := by
  have hle : bs * divRoundUp32 len bs ≤ u32 (len + bs - 1) := Nat.mul_div_le _ _
  rw [align32, u32_of_lt (lt_of_le_of_lt hle (u32_lt _)), Nat.mul_comm]

theorem align32_div_mul (len bs : Nat) : align32 len bs / bs * bs = align32 len bs := by
  rw [align32_eq]
  exact Nat.div_mul_cancel (Nat.dvd_mul_left bs _)

section Chunks

variable (h : Host)

def countChunk (len : Int) : Output Unit :=
  Act.update fun out => { out with file := { out.file with
    curOutPtr := out.file.curOutPtr + len
    chunkCnt := u32 (out.file.chunkCnt + 1) } }

def updateCrc (data : List UInt8) : Output Unit :=
  Act.update fun out => { out with file := { out.file with
    crc32 := if out.file.useCrc then sparseCrc32 out.file.crc32 data else out.file.crc32 } }

def writeParts : List (List UInt8) → Output Bool
  | [] => return true
  | data :: rest => do
    let ret ← opsWrite h data
    if ret < 0 then return false else writeParts rest

def writeSparseSkipChunk (skipLen : Int) : Output Int := do
  let out ← Act.read
  if skipLen.tmod out.file.blockSize ≠ 0 then
    return -1
  else
    let hdr : ChunkHeader := {
      chunkType := chunkTypeDontCare
      reserved1 := 0
      chunkSz := ofInt32 (skipLen.tdiv out.file.blockSize)
      totalSz := chunkHeaderLen }
    if ← writeParts h [hdr.bytes] then
      countChunk skipLen
      return 0
    else
      return -1

def writeSparseFillChunk (len fillVal : Nat) : Output Int := do
  let out ← Act.read
  let rndUpLen := align32 len out.file.blockSize
  let hdr : ChunkHeader := {
    chunkType := chunkTypeFill
    reserved1 := 0
    chunkSz := rndUpLen / out.file.blockSize
    totalSz := chunkHeaderLen + 4 }
  if ← writeParts h [hdr.bytes, leBytes 4 fillVal] then
    updateCrc (List.replicate (out.file.blockSize / 4) (leBytes 4 fillVal)).flatten
    countChunk (s32 rndUpLen)
    return 0
  else
    return -1

-- zero_len as the int it is; a negative one is refused like any negative length.
def writeSparseDataChunk (data : List UInt8) : Output Int := do
  let out ← Act.read
  let rndUpLen := align32 data.length out.file.blockSize
  let zeroLen := sub32 rndUpLen data.length
  let hdr : ChunkHeader := {
    chunkType := chunkTypeRaw
    reserved1 := 0
    chunkSz := rndUpLen / out.file.blockSize
    totalSz := u32 (chunkHeaderLen + rndUpLen) }
  let zeros := List.replicate zeroLen 0
  if ← writeParts h ([hdr.bytes, data] ++ if zeroLen = 0 then [] else [zeros]) then
    updateCrc (data ++ zeros)
    countChunk (s32 rndUpLen)
    return 0
  else
    return -1

def writeSparseEndChunk : Output Int := do
  let out ← Act.read
  if out.file.useCrc then
    let hdr : ChunkHeader := {
      chunkType := chunkTypeCrc32
      reserved1 := 0
      chunkSz := 0
      totalSz := chunkHeaderLen + 4 }
    let ret ← opsWrite h hdr.bytes
    if ret < 0 then
      return ret
    else
      let _ ← opsWrite h (leBytes 4 out.file.crc32)
      Act.update fun out => { out with file := { out.file with
        chunkCnt := u32 (out.file.chunkCnt + 1) } }
      return 0
  else
    return 0

def writeNormalDataChunk (data : List UInt8) : Output Int := do
  let out ← Act.read
  let rndUpLen := align32 data.length out.file.blockSize
  let ret ← opsWrite h data
  if ret < 0 then
    return ret
  else if rndUpLen > data.length then
    opsSkip h (rndUpLen - data.length : Nat)
  else
    return ret

-- fill_buf: what does not fill a whole word at its end is zero.
def fillBuf (blockSize fillVal : Nat) : List UInt8 :=
  (List.replicate (blockSize / 4) (leBytes 4 fillVal)).flatten ++ List.replicate (blockSize % 4) 0

-- One block at a time; a block size of zero would write nothing for ever.
def normalFillLoop (blockSize fillVal : Nat) : Nat → Nat → Output Int
  | _, 0 => return 0
  | 0, _ + 1 => Act.crash
  | turns + 1, len + 1 => do
    let writeLen := min (len + 1) blockSize
    let ret ← opsWrite h ((fillBuf blockSize fillVal).take writeLen)
    if ret < 0 then return ret
    else normalFillLoop blockSize fillVal turns (len + 1 - writeLen)

def writeNormalFillChunk (len fillVal : Nat) : Output Int := do
  let out ← Act.read
  normalFillLoop h out.file.blockSize fillVal len len

def writeDataChunk (data : List UInt8) : Output Int := do
  let out ← Act.read
  if out.file.sparse then writeSparseDataChunk h data else writeNormalDataChunk h data

def writeFillChunk (len fillVal : Nat) : Output Int := do
  let out ← Act.read
  if out.file.sparse then writeSparseFillChunk h len fillVal
  else writeNormalFillChunk h len fillVal

def writeSkipChunk (len : Int) : Output Int := do
  let out ← Act.read
  if out.file.sparse then writeSparseSkipChunk h len else opsSkip h len

def writeEndChunk : Output Int := do
  let out ← Act.read
  if out.file.sparse then writeSparseEndChunk h else opsPad h out.file.len

def bytesFrom (bytes : Nat → UInt8) (offset len : Nat) : List UInt8 :=
  (List.range len).map fun i => bytes (offset + i)

-- The mapping has an int for its size. One that is not positive is refused, and the bytes behind
-- the end of one that came out too small are not there.
def writeFdChunk (bytes : Nat → UInt8) (len : Nat) (offset : Int) : Output Int := do
  let alignedDiff := (offset % 4096).toNat
  let bufferSize := s32 (len + alignedDiff)
  if bufferSize ≤ 0 then
    Act.update fun out => { out with ops := out.ops ++ [(.mapSource 0 (offset - alignedDiff), true)] }
    return -22
  else
    match ← perform h (.mapSource bufferSize.toNat (offset - alignedDiff)) with
    | some e => return -e
    | none =>
      if bufferSize = len + alignedDiff then
        writeDataChunk h (bytesFrom bytes offset.toNat len)
      else
        Act.crash

def writeFileChunk (len : Nat) (file : List UInt8) (offset : Int) : Output Int := do
  match ← perform h (.openSource file) with
  | some e => return -e
  | none => writeFdChunk h (h.file file) len offset

-- Its result is dropped, as is the one of write_end_chunk.
def outputFileClose : Output Unit := do
  let _ ← writeEndChunk h
  return ()

-- calloc gets the block size as an int, and a negative one is more than there is.
def outputFileInit (chunks : Nat) : Output Bool := do
  let out ← Act.read
  if out.file.blockSize > 2147483647 then
    return false
  else if out.file.sparse then
    let hdr : SparseHeader := {
      magic := sparseHeaderMagic
      majorVersion := sparseHeaderMajorVer
      minorVersion := sparseHeaderMinorVer
      fileHdrSz := sparseHeaderLen
      chunkHdrSz := chunkHeaderLen
      blkSz := out.file.blockSize
      totalBlks := ofInt32 (out.file.len.tdiv out.file.blockSize)
      totalChunks := u32 (chunks + if out.file.useCrc then 1 else 0)
      imageChecksum := 0 }
    writeParts h [hdr.bytes]
  else
    return true

-- What open of a gz file says is not looked at.
def outputFileOpenFd (chunks : Nat) : Output Bool := do
  let out ← Act.read
  if out.file.kind = .gz then
    let _ ← perform h .gzdopen
  outputFileInit h chunks

end Chunks

end MakeExt4fs

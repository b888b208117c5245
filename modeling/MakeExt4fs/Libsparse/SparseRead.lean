import MakeExt4fs.Libsparse.Sparse

namespace MakeExt4fs

open Interrupt Words

structure SparseReader where
  pos : Nat
  crc32 : Nat
  copybuf : List UInt8
  bbl : BackedBlockList

-- An error is a negative number, as the functions return it.
abbrev Read := Act Int SparseReader

def einval : Int := -22

section Reading

-- The file that fd is open on, its number, and the copybuf_size.
variable (file : List UInt8) (fd : Int) (copybufSize : Nat)

def readAll (len : Nat) : Read (List UInt8) := do
  let r ← Act.read
  let got := (file.drop r.pos).take len
  Act.update fun r => { r with pos := r.pos + got.length }
  if got.length < len then Act.fail einval else return got

def seekCur (cnt : Nat) : Read Unit := Act.update fun r => { r with pos := r.pos + cnt }

-- sparse_file_add_fd and its like: a search that starts at freed memory is undefined.
def addChunk (f : BackedBlockList → Option BackedBlockList) : Read Unit := do
  let r ← Act.read
  let bbl ← Act.expect (f r.bbl)
  Act.update fun r => { r with bbl }

def addCrc (data : List UInt8) : Read Unit :=
  Act.update fun r => { r with crc32 := sparseCrc32 r.crc32 data }

-- With an empty buffer the loop goes on for ever. A turn's length is an int, and a negative one
-- asks for more than any file has.
def rawCrcLoop : Nat → Nat → Read Unit
  | _, 0 => return ()
  | 0, _ + 1 => Act.crash
  | turns + 1, len + 1 => do
    let chunk := min (len + 1) copybufSize
    if chunk > 2147483647 then
      Act.fail einval
    else
      let data ← readAll file chunk
      Act.update fun r => { r with copybuf := data ++ r.copybuf.drop chunk }
      addCrc data
      rawCrcLoop turns (len + 1 - chunk)

-- The bytes of copybuf over and over, at most copybuf_size at a time. Where the length of a turn is
-- an int, a negative one runs out of the buffer.
def bufCrcLoop (isInt : Bool) : Nat → Nat → Read Unit
  | _, 0 => return ()
  | 0, _ + 1 => Act.crash
  | turns + 1, len + 1 => do
    let chunk := min (len + 1) copybufSize
    if isInt ∧ chunk > 2147483647 then
      Act.crash
    else
      let r ← Act.read
      addCrc (r.copybuf.take chunk)
      bufCrcLoop isInt turns (len + 1 - chunk)

def processRawChunk (blockSize chunkSize offset blocks block : Nat) (crc : Bool) : Read Unit := do
  let len := u32 (blocks * blockSize)
  if blockSize = 0 then
    Act.crash
  else if chunkSize % blockSize ≠ 0 then
    Act.fail einval
  else if chunkSize / blockSize ≠ blocks then
    Act.fail einval
  else
    addChunk (backedBlockAddFd · fd offset len block)
    if crc then rawCrcLoop file copybufSize len len else seekCur len

def processFillChunk (blockSize chunkSize blocks block : Nat) (crc : Bool) : Read Unit := do
  let len := u32 (blocks * blockSize)
  if chunkSize ≠ 4 then
    Act.fail einval
  else
    let word ← readAll file 4
    let fillVal := (Buffer.getLE ⟨4, fun i => word.getD i 0⟩ 0 4)
    addChunk (backedBlockAddFill · fillVal len block)
    if crc then
      let words := (List.replicate (copybufSize / 4) word).flatten
      Act.update fun r => { r with copybuf := words ++ r.copybuf.drop words.length }
      bufCrcLoop copybufSize true len len

def processSkipChunk (blockSize chunkSize blocks : Nat) (crc : Bool) : Read Unit := do
  if chunkSize ≠ 0 then
    Act.fail einval
  else if crc then
    let len := u32 (blocks * blockSize)
    Act.update fun r => { r with copybuf := List.replicate copybufSize 0 }
    bufCrcLoop copybufSize false len len

def leValue (bytes : List UInt8) (off n : Nat) : Nat :=
  Buffer.getLE ⟨bytes.length, fun i => bytes.getD i 0⟩ off n

-- Without crc the pointer to the crc so far is null.
def processCrc32Chunk (chunkSize : Nat) (crc : Bool) : Read Unit := do
  if !crc then
    Act.crash
  else
    let r ← Act.read
    if chunkSize ≠ 4 then
      Act.fail einval
    else
      let word ← readAll file 4
      if leValue word 0 4 ≠ r.crc32 then Act.fail einval

def ChunkHeader.ofBytes (bytes : List UInt8) : ChunkHeader where
  chunkType := leValue bytes 0 2
  reserved1 := leValue bytes 2 2
  chunkSz := leValue bytes 4 4
  totalSz := leValue bytes 8 4

def SparseHeader.ofBytes (bytes : List UInt8) : SparseHeader where
  magic := leValue bytes 0 4
  majorVersion := leValue bytes 4 2
  minorVersion := leValue bytes 6 2
  fileHdrSz := leValue bytes 8 2
  chunkHdrSz := leValue bytes 10 2
  blkSz := leValue bytes 12 4
  totalBlks := leValue bytes 16 4
  totalChunks := leValue bytes 20 4
  imageChecksum := leValue bytes 24 4

-- The blocks of a chunk, as the int that process_chunk returns; unknown chunks are passed over.
def processChunk (blockSize offset chunkHdrSz : Nat) (hdr : ChunkHeader) (curBlock : Nat)
    (crc : Bool) : Read Int := do
  let chunkDataSize := sub32 hdr.totalSz chunkHdrSz
  if hdr.chunkType = chunkTypeRaw then
    processRawChunk file fd copybufSize blockSize chunkDataSize offset hdr.chunkSz curBlock crc
    return s32 hdr.chunkSz
  else if hdr.chunkType = chunkTypeFill then
    processFillChunk file copybufSize blockSize chunkDataSize hdr.chunkSz curBlock crc
    return s32 hdr.chunkSz
  else if hdr.chunkType = chunkTypeDontCare then
    processSkipChunk copybufSize blockSize chunkDataSize hdr.chunkSz crc
    return s32 hdr.chunkSz
  else if hdr.chunkType = chunkTypeCrc32 then
    processCrc32Chunk file chunkDataSize crc
    return 0
  else
    return 0

def readChunk (blockSize chunkHdrSz : Nat) (crc : Bool) (curBlock : Nat) : Read Nat := do
  let bytes ← readAll file chunkHeaderLen
  if chunkHdrSz > chunkHeaderLen then
    seekCur (chunkHdrSz - chunkHeaderLen)
  let r ← Act.read
  let ret ← processChunk file fd copybufSize blockSize r.pos chunkHdrSz (.ofBytes bytes) curBlock crc
  if ret < 0 then Act.fail ret else return u32 (curBlock + ret.toNat)

def validHeader (hdr : SparseHeader) : Bool :=
  hdr.magic = sparseHeaderMagic ∧ hdr.majorVersion = sparseHeaderMajorVer ∧
    sparseHeaderLen ≤ hdr.fileHdrSz ∧ chunkHeaderLen ≤ hdr.chunkHdrSz

def sparseFileReadSparse (blockSize : Nat) (crc : Bool) : Read Unit := do
  let bytes ← readAll file sparseHeaderLen
  let hdr := SparseHeader.ofBytes bytes
  if !validHeader hdr then
    Act.fail einval
  else
    if hdr.fileHdrSz > sparseHeaderLen then
      seekCur (hdr.fileHdrSz - sparseHeaderLen)
    let curBlock ← Act.fold (List.range hdr.totalChunks)
      (fun curBlock _ => readChunk file fd copybufSize blockSize hdr.chunkHdrSz crc curBlock) 0
    if hdr.totalBlks ≠ curBlock then Act.fail einval

def sparseFileImport (crc : Bool) (copybuf : List UInt8) :
    Except (ErrorLog.Stop Int) SparseFile :=
  let hdr := SparseHeader.ofBytes (file.take sparseHeaderLen)
  if file.length < sparseHeaderLen then .error (.error einval)
  else if !validHeader hdr then .error (.error einval)
  else
    match sparseFileReadSparse file fd copybufSize hdr.blkSz crc
        ⟨0, 0, copybuf, backedBlockListNew hdr.blkSz⟩ with
    | (.ok (), r) => .ok ⟨hdr.blkSz, hdr.totalBlks * hdr.blkSz, r.bbl.dataBlocks⟩
    | (.error e, _) => .error e

end Reading

end MakeExt4fs

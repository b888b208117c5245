import MakeExt4fs.Libsparse.Output

namespace MakeExt4fs

open Interrupt Words

structure SparseFile where
  blockSize : Nat
  len : Int
  blocks : List BackedBlock
  deriving DecidableEq, Repr

def blockAfter (blockSize : Nat) (bb : BackedBlock) : Nat :=
  u32 (bb.block + divRoundUp32 bb.len blockSize)

def countChunksFrom (blockSize : Nat) : Nat → Nat → List BackedBlock → Nat × Nat
  | lastBlock, chunks, [] => (lastBlock, chunks)
  | lastBlock, chunks, bb :: rest =>
    countChunksFrom blockSize (blockAfter blockSize bb)
      (u32 (chunks + if bb.block > lastBlock then 2 else 1)) rest

-- DIV_ROUND_UP on a signed 64-bit length.
def lenInBlocks (s : SparseFile) : Int := (s.len + s.blockSize - 1).tdiv s.blockSize

def sparseCountChunks (s : SparseFile) : Nat :=
  let (lastBlock, chunks) := countChunksFrom s.blockSize 0 0 s.blocks
  if lastBlock < lenInBlocks s then u32 (chunks + 1) else chunks

section Writing

variable (h : Host)

def sparseFileWriteBlock (bb : BackedBlock) : Output Int :=
  match bb.backing with
  | .data p => writeDataChunk h (bytesFrom h.mem p bb.len)
  | .file name offset => writeFileChunk h bb.len name.2 offset
  | .fd fd offset => writeFdChunk h (h.fd fd) bb.len offset
  | .fill val => writeFillChunk h bb.len val

-- What write_skip_chunk says is not looked at.
def skipGap (blockSize lastBlock : Nat) (bb : BackedBlock) : Output Unit := do
  if bb.block > lastBlock then
    let _ ← writeSkipChunk h ((bb.block - lastBlock) * blockSize : Nat)

def writeBlocksFrom (blockSize : Nat) : Nat → List BackedBlock → Output (Int × Nat)
  | lastBlock, [] => return (0, lastBlock)
  | lastBlock, bb :: rest => do
    skipGap h blockSize lastBlock bb
    let ret ← sparseFileWriteBlock h bb
    if ret ≠ 0 then return (ret, lastBlock)
    else writeBlocksFrom blockSize (blockAfter blockSize bb) rest

def writeAllBlocks (s : SparseFile) : Output Int := do
  let (ret, lastBlock) ← writeBlocksFrom h s.blockSize 0 s.blocks
  if ret ≠ 0 then
    return ret
  else
    let pad := s.len - lastBlock * s.blockSize
    if pad < 0 then
      Act.crash
    else
      if pad > 0 then
        let _ ← writeSkipChunk h pad
      return 0

-- A block size of zero is divided by when the chunks are counted.
def sparseFileWrite (s : SparseFile) : Output Int := do
  if s.blockSize = 0 then
    Act.crash
  else if ← outputFileOpenFd h (sparseCountChunks s) then
    let ret ← writeAllBlocks h s
    outputFileClose h
    return ret
  else
    return -12

end Writing

def Out.start (s : SparseFile) (gz sparse crc : Bool) : Out where
  file := {
    kind := if gz then .gz else .normal
    sparse
    curOutPtr := 0
    chunkCnt := 0
    crc32 := 0
    useCrc := crc
    blockSize := s.blockSize
    len := s.len }
  ops := []

end MakeExt4fs

import MakeExt4fs.Lib.Words

namespace MakeExt4fs

open Words

-- The type of a struct backed_block with the member of its union; φ is what names a file.
inductive Backing (φ : Type) where
  | data (data : Nat)
  | file (filename : φ) (offset : Int)
  | fd (fd : Int) (offset : Int)
  | fill (val : Nat)
  deriving DecidableEq, Repr

namespace Backing

variable {φ ψ : Type}

def map (f : φ → ψ) : Backing φ → Backing ψ
  | data p => data p
  | file name offset => file (f name) offset
  | fd n offset => fd n offset
  | fill val => fill val

def advance (n : Nat) : Backing φ → Backing φ
  | data p => data (p + n)
  | file name offset => file name (offset + n)
  | fd k offset => fd k (offset + n)
  | fill val => fill val

@[simp] theorem advance_zero (s : Backing φ) : s.advance 0 = s := by
  cases s <;> simp [advance]

theorem advance_add (m n : Nat) (s : Backing φ) :
    (s.advance m).advance n = s.advance (m + n) := by
  cases s <;> simp [advance, Nat.add_assoc, Int.add_assoc]

end Backing

-- A block of the list: addr is where calloc put it, and a filename is known by its own address.
structure BackedBlock where
  addr : Nat
  block : Nat
  len : Nat
  backing : Backing (Nat × List UInt8)
  deriving DecidableEq, Repr

-- fresh is an address that calloc has not handed out yet.
structure BackedBlockList where
  dataBlocks : List BackedBlock
  lastUsed : Option Nat
  blockSize : Nat
  fresh : Nat
  deriving DecidableEq, Repr

def backedBlockListNew (blockSize : Nat) : BackedBlockList := ⟨[], none, blockSize, 0⟩

-- The tests of merge_bb on the types and the unions; data is never merged.
def sameBacking (len : Nat) (a b : Backing (Nat × List UInt8)) : Bool :=
  match a, b with
  | .fill v, .fill w => v = w
  | .file f o, .file g p => f.1 = g.1 ∧ o + len = p
  | .fd f o, .fd g p => f = g ∧ o + len = p
  | _, _ => false

def sameType (a b : Backing (Nat × List UInt8)) : Bool :=
  match a, b with
  | .data _, .data _ => true
  | .file _ _, .file _ _ => true
  | .fd _ _, .fd _ _ => true
  | .fill _, .fill _ => true
  | _, _ => false

-- merge_bb on a and the list behind it, whose first element is freed when it is merged into a.
def mergeBb (blockSize : Nat) (a : BackedBlock) : List BackedBlock → Option (List BackedBlock)
  | [] => some [a]
  | b :: rest =>
    if b.block ≤ a.block then
      none
    else if ¬ sameType a.backing b.backing then
      some (a :: b :: rest)
    else if blockSize = 0 then
      none
    else if u32 (a.block + a.len / blockSize) ≠ b.block then
      some (a :: b :: rest)
    else if sameBacking a.len a.backing b.backing then
      some ({ a with len := u32 (a.len + b.len) } :: rest)
    else
      some (a :: b :: rest)

-- The loop of queue_bb from bb on, then the insertion and the two merges.
def insertFrom (blockSize : Nat) (new bb : BackedBlock) :
    List BackedBlock → Option (List BackedBlock)
  | [] => do mergeBb blockSize bb (← mergeBb blockSize new [])
  | next :: rest =>
    if next.block < new.block then do
      return bb :: (← insertFrom blockSize new next rest)
    else do
      mergeBb blockSize bb (← mergeBb blockSize new (next :: rest))

-- The list split at the block with the given address; none where it is freed memory.
def splitAt (addr : Nat) : List BackedBlock →
    Option (List BackedBlock × BackedBlock × List BackedBlock)
  | [] => none
  | bb :: rest =>
    if bb.addr = addr then
      some ([], bb, rest)
    else do
      let (pre, found, post) ← splitAt addr rest
      return (bb :: pre, found, post)

-- Where the search starts: at last_used, or at the head first :: rest.
def searchStart (bbl : BackedBlockList) (new first : BackedBlock) (rest : List BackedBlock) :
    Option (List BackedBlock × BackedBlock × List BackedBlock) :=
  match bbl.lastUsed with
  | none => some ([], first, rest)
  | some addr => do
    let (pre, bb, post) ← splitAt addr (first :: rest)
    if bb.block < new.block then
      return (pre, bb, post)
    else
      return ([], first, rest)

def queueBb (bbl : BackedBlockList) (new : BackedBlock) : Option BackedBlockList :=
  match bbl.dataBlocks with
  | [] => some { bbl with dataBlocks := [new] }
  | first :: rest =>
    if new.block < first.block then
      some { bbl with dataBlocks := new :: first :: rest }
    else do
      let (pre, bb, post) ← searchStart bbl new first rest
      let tail ← insertFrom bbl.blockSize new bb post
      return { bbl with dataBlocks := pre ++ tail, lastUsed := some new.addr }

-- calloc for the block, with strdup for the name of a file.
def newBb (bbl : BackedBlockList) (backing : Backing (List UInt8)) (len block : Nat) :
    BackedBlock := ⟨bbl.fresh, block, len, backing.map fun name => (bbl.fresh, name)⟩

def addBb (bbl : BackedBlockList) (backing : Backing (List UInt8)) (len block : Nat) :
    Option BackedBlockList :=
  queueBb { bbl with fresh := bbl.fresh + 1 } (newBb bbl backing len block)

def backedBlockAddFill (bbl : BackedBlockList) (fillVal len block : Nat) :
    Option BackedBlockList := addBb bbl (.fill fillVal) len block

def backedBlockAddData (bbl : BackedBlockList) (data len block : Nat) :
    Option BackedBlockList := addBb bbl (.data data) len block

def backedBlockAddFile (bbl : BackedBlockList) (filename : List UInt8) (offset : Int)
    (len block : Nat) : Option BackedBlockList := addBb bbl (.file filename offset) len block

def backedBlockAddFd (bbl : BackedBlockList) (fd offset : Int) (len block : Nat) :
    Option BackedBlockList := addBb bbl (.fd fd offset) len block

end MakeExt4fs

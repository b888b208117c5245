import MakeExt4fs.Libsparse.CrcChunk
import MakeExt4fs.Libsparse.Written

namespace MakeExt4fs

open Words

-- backed_block_split: the block, and the one made of what does not fit, at the address fresh.
def backedBlockSplit (blockSize fresh : Nat) (bb : BackedBlock) (maxLen : Nat) :
    BackedBlock × Option BackedBlock :=
  let maxLen := blockSize * (maxLen / blockSize)
  if bb.len ≤ maxLen then
    (bb, none)
  else
    ({ bb with len := maxLen }, some {
      addr := fresh
      block := u32 (bb.block + maxLen / blockSize)
      len := bb.len - maxLen
      backing := bb.backing.advance maxLen })

-- Where backed_block_list_move puts the blocks from start on: behind the first of the others at
-- least.
def spliceBlocks (start : BackedBlock) (moved : List BackedBlock) :
    List BackedBlock → List BackedBlock
  | [] => moved
  | [bb] => bb :: moved
  | bb :: next :: rest =>
    if next.block > start.block then
      bb :: (moved ++ next :: rest)
    else
      bb :: spliceBlocks start moved (next :: rest)

-- backed_block_list_move of the blocks from start to end.
def backedBlockListMove (moved blocks : List BackedBlock) : List BackedBlock :=
  match moved with
  | [] => blocks
  | start :: _ => spliceBlocks start moved blocks

-- What out_counter_write adds up for a data chunk; every length comes to it as an int.
def countDataChunk (blockSize len : Nat) : Int :=
  chunkHeaderLen + s32 len + s32 (sub32 (align32 len blockSize) len)

def countFillChunk : Int := chunkHeaderLen + 4

section Counting

-- Which calls of the system fail, in the order they are made.
variable (fault : Nat → Bool) (blockSize : Nat)

-- Nothing is read of the mapping, so that only its size can be refused.
def countFdChunk (len : Nat) (offset : Int) (calls : Nat) : Option Int × Nat :=
  let bufferSize := s32 (len + (offset % 4096).toNat)
  if bufferSize ≤ 0 ∨ fault calls then
    (none, calls + 1)
  else
    (some (countDataChunk blockSize len), calls + 1)

def countFileChunk (len : Nat) (offset : Int) (calls : Nat) : Option Int × Nat :=
  if fault calls then (none, calls + 1) else countFdChunk fault blockSize len offset (calls + 1)

-- sparse_file_write_block on out_counter: what it counts, or none where it fails.
def countBlock (bb : BackedBlock) (calls : Nat) : Option Int × Nat :=
  match bb.backing with
  | .data _ => (some (countDataChunk blockSize bb.len), calls)
  | .file _ offset => countFileChunk fault blockSize bb.len offset calls
  | .fd _ offset => countFdChunk fault blockSize bb.len offset calls
  | .fill _ => (some countFillChunk, calls)

end Counting

-- What move_chunks_up_to_len leaves behind; more is whether it returns a block.
structure Moved where
  taken : List BackedBlock
  left : List BackedBlock
  more : Bool
  fresh : Nat
  calls : Nat
  deriving DecidableEq, Repr

section Moving

variable (fault : Nat → Bool) (blockSize len : Nat)

-- The loop from bb on; first is whether last_bb is still NULL. None where a block cannot be
-- written, and then nothing is moved at all.
def takeChunks (fileLen : Int) (first : Bool) (fresh calls : Nat) :
    List BackedBlock → Option Moved
  | [] => some ⟨[], [], false, fresh, calls⟩
  | bb :: rest =>
    match countBlock fault blockSize bb calls with
    | (none, _) => none
    | (some count, calls) =>
      if fileLen + count > len then
        if first ∨ len - fileLen > (len / 8 : Nat) then
          let pieces := backedBlockSplit blockSize fresh bb (ofInt32 (len - fileLen))
          some ⟨[pieces.1], pieces.2.toList ++ rest, true, fresh + 1, calls⟩
        else
          some ⟨[], bb :: rest, true, fresh, calls⟩
      else do
        let moved ← takeChunks (fileLen + count) false fresh calls rest
        return { moved with taken := bb :: moved.taken }

end Moving

-- The headers, the chunk that a split adds, the skips at both ends and the crc.
def fileOverhead : Nat := sparseHeaderLen + 4 * chunkHeaderLen + 4

-- What is left of max_len for the chunks, as an unsigned int.
def roomFor (maxLen : Nat) : Nat := sub32 maxLen fileOverhead

section Resparse

variable (fault : Nat → Bool)

-- None is the division by a block size of zero for the header of out_counter.
def moveChunksUpToLen (blockSize maxLen : Nat) (blocks : List BackedBlock)
    (fresh calls : Nat) : Option Moved :=
  let nothing : Moved := ⟨[], blocks, false, fresh, calls⟩
  if blockSize = 0 then
    none
  else if blockSize > 2147483647 then
    some nothing
  else
    some ((takeChunks fault blockSize (roomFor maxLen) 0 true fresh calls blocks).getD nothing)

structure Resparsing where
  blocks : List BackedBlock
  tmp : List BackedBlock
  outS : List SparseFile
  c : Nat
  fresh : Nat
  calls : Nat
  deriving DecidableEq, Repr

-- s takes the blocks that were moved and goes to out_s, or gives them to tmp.
def Resparsing.keep (r : Resparsing) (inS : SparseFile) (outSCount : Int) (moved : Moved) :
    Resparsing :=
  let s := { inS with blocks := backedBlockListMove moved.taken [] }
  { r with
    blocks := moved.left
    tmp := if r.c < outSCount then r.tmp else backedBlockListMove s.blocks r.tmp
    outS := if r.c < outSCount then r.outS ++ [s] else r.outS
    c := r.c + 1
    fresh := moved.fresh
    calls := moved.calls }

def resparseLoop (s : SparseFile) (maxLen : Nat) (outSCount : Int) :
    Nat → Resparsing → Option Resparsing
  | 0, _ => none
  | fuel + 1, r => do
    let moved ← moveChunksUpToLen fault s.blockSize maxLen r.blocks r.fresh r.calls
    if moved.more then
      resparseLoop s maxLen outSCount fuel (r.keep s outSCount moved)
    else
      return r.keep s outSCount moved

-- The number it returns, out_s, and in_s with what did not go to out_s.
def sparseFileResparse (fuel : Nat) (s : SparseFile) (maxLen : Nat) (outSCount : Int)
    (fresh : Nat) : Option (Nat × List SparseFile × SparseFile) := do
  let r ← resparseLoop fault s maxLen outSCount fuel ⟨s.blocks, [], [], 0, fresh, 0⟩
  return (r.c, r.outS, { s with blocks := backedBlockListMove r.tmp r.blocks })

def Returns (s : SparseFile) (maxLen : Nat) (outSCount : Int) (fresh : Nat) : Prop :=
  ∃ fuel, (sparseFileResparse fault fuel s maxLen outSCount fresh).isSome

end Resparse

def BackedBlock.Countable (bb : BackedBlock) : Prop :=
  match bb.backing with
  | .data _ => True
  | .file _ offset => 0 < s32 (bb.len + (offset % 4096).toNat)
  | .fd _ offset => 0 < s32 (bb.len + (offset % 4096).toNat)
  | .fill _ => True

def blockCount (blockSize : Nat) (bb : BackedBlock) : Int :=
  match bb.backing with
  | .data _ => countDataChunk blockSize bb.len
  | .file _ _ => countDataChunk blockSize bb.len
  | .fd _ _ => countDataChunk blockSize bb.len
  | .fill _ => countFillChunk

def splitRest (blockSize fresh : Nat) (bb : BackedBlock) (maxLen : Nat)
    (rest : List BackedBlock) : List BackedBlock :=
  (backedBlockSplit blockSize fresh bb maxLen).2.toList ++ rest

def leftBehind (blockSize len : Nat) (fileLen : Int) (first : Bool) (fresh : Nat)
    (bb : BackedBlock) (rest : List BackedBlock) : List BackedBlock :=
  if first ∨ len - fileLen > (len / 8 : Nat) then
    splitRest blockSize fresh bb (ofInt32 (len - fileLen)) rest
  else
    bb :: rest

-- Filling files with the blocks comes to one that begins a file, is not empty and is more than
-- there is room for.
inductive Jammed (blockSize len : Nat) : Int → Bool → List BackedBlock → Prop where
  | begins {bb rest} (countable : bb.Countable) (filled : 0 < bb.len)
      (exceeds : len < blockCount blockSize bb) : Jammed blockSize len 0 true (bb :: rest)
  | fits {fileLen first bb rest} (countable : bb.Countable)
      (room : fileLen + blockCount blockSize bb ≤ len)
      (later : Jammed blockSize len (fileLen + blockCount blockSize bb) false rest) :
      Jammed blockSize len fileLen first (bb :: rest)
  | next {fileLen first bb rest} (fresh : Nat) (countable : bb.Countable)
      (exceeds : len < fileLen + blockCount blockSize bb) (empty : first = true → bb.len = 0)
      (later : Jammed blockSize len 0 true (leftBehind blockSize len fileLen first fresh bb rest)) :
      Jammed blockSize len fileLen first (bb :: rest)

-- Where there is no room for a single block of the image, a block that begins a file is not split.
structure Stuck (s : SparseFile) (maxLen : Nat) : Prop where
  blockSize : s.blockSize ≤ 2147483647
  room : roomFor maxLen < s.blockSize
  jammed : Jammed s.blockSize (roomFor maxLen) 0 true s.blocks

section Counts

variable {fault : Nat → Bool} {blockSize : Nat}

theorem countFdChunk_some {len calls calls' : Nat} {offset count : Int}
    (h : countFdChunk fault blockSize len offset calls = (some count, calls')) :
    0 < s32 (len + (offset % 4096).toNat) ∧ count = countDataChunk blockSize len := by
  rw [countFdChunk] at h
  split at h
  · cases h
  · next hok =>
    rw [not_or, not_le] at hok
    cases h
    exact ⟨hok.1, rfl⟩

theorem countBlock_some {bb : BackedBlock} {calls calls' : Nat} {count : Int}
    (h : countBlock fault blockSize bb calls = (some count, calls')) :
    bb.Countable ∧ count = blockCount blockSize bb := by
  rw [countBlock] at h
  rw [BackedBlock.Countable, blockCount]
  cases hb : bb.backing with
  | data p =>
    rw [hb] at h
    cases h
    exact ⟨trivial, rfl⟩
  | file name offset =>
    rw [hb] at h
    dsimp only [countFileChunk] at h
    split at h
    · cases h
    · exact countFdChunk_some h
  | fd fd offset =>
    rw [hb] at h
    exact countFdChunk_some h
  | fill val =>
    rw [hb] at h
    cases h
    exact ⟨trivial, rfl⟩

theorem BackedBlock.Countable.count {bb : BackedBlock} (h : bb.Countable) (calls : Nat) :
    ∃ calls', countBlock (fun _ => false) blockSize bb calls =
      (some (blockCount blockSize bb), calls') := by
  rw [BackedBlock.Countable] at h
  rw [countBlock, blockCount]
  cases hb : bb.backing with
  | data p => exact ⟨_, rfl⟩
  | file name offset =>
    rw [hb] at h
    simp [countFileChunk, countFdChunk, not_le.mpr h]
  | fd fd offset =>
    rw [hb] at h
    simp [countFdChunk, not_le.mpr h]
  | fill val => exact ⟨_, rfl⟩

end Counts

section Rounds

variable {blockSize len : Nat}

def size (blocks : List BackedBlock) : Nat := (blocks.map fun bb => bb.len + 1).sum

@[simp] theorem size_cons (bb : BackedBlock) (rest : List BackedBlock) :
    size (bb :: rest) = bb.len + 1 + size rest := by simp [size]

theorem size_splitRest_le (fresh : Nat) (bb : BackedBlock) (maxLen : Nat)
    (rest : List BackedBlock) :
    size (splitRest blockSize fresh bb maxLen rest) ≤ size (bb :: rest) := by
  rw [splitRest, backedBlockSplit, size_cons]
  split
  · simp only [Option.toList_none, List.nil_append]
    omega
  · simp only [Option.toList_some, List.singleton_append, size_cons]
    omega

theorem size_leftBehind_le (fileLen : Int) (first : Bool) (fresh : Nat) (bb : BackedBlock)
    (rest : List BackedBlock) :
    size (leftBehind blockSize len fileLen first fresh bb rest) ≤ size (bb :: rest) := by
  rw [leftBehind]
  split
  · exact size_splitRest_le fresh bb _ rest
  · exact le_rfl

theorem leftBehind_begins (hlen : len < 4294967296) (fresh : Nat) (bb : BackedBlock)
    (rest : List BackedBlock) :
    leftBehind blockSize len 0 true fresh bb rest = splitRest blockSize fresh bb len rest := by
  rw [leftBehind, if_pos (Or.inl rfl), sub_zero, ofInt32_natCast, u32_of_lt hlen]

theorem splitRest_empty (fresh : Nat) {bb : BackedBlock} (maxLen : Nat)
    (rest : List BackedBlock) (h : bb.len = 0) :
    splitRest blockSize fresh bb maxLen rest = rest := by
  rw [splitRest, backedBlockSplit, if_pos (h.trans_le (Nat.zero_le _)), Option.toList_none,
    List.nil_append]

theorem size_splitRest_lt (fresh : Nat) {bb : BackedBlock} {maxLen : Nat}
    (rest : List BackedBlock) (h : 0 < blockSize * (maxLen / blockSize) ∨ bb.len = 0) :
    size (splitRest blockSize fresh bb maxLen rest) < size (bb :: rest) := by
  rcases h with h | h
  · rw [splitRest, backedBlockSplit, size_cons]
    split
    · simp only [Option.toList_none, List.nil_append]
      omega
    · simp only [Option.toList_some, List.singleton_append, size_cons]
      omega
  · rw [splitRest_empty fresh maxLen rest h, size_cons]
    omega

def BackedBlock.bare (bb : BackedBlock) : BackedBlock := { bb with addr := 0, block := 0 }

theorem bare_splitRest (fresh fresh' : Nat) {bb bb' : BackedBlock} {rest rest' : List BackedBlock}
    (maxLen : Nat) (hbb : bb'.bare = bb.bare)
    (hrest : rest'.map BackedBlock.bare = rest.map BackedBlock.bare) :
    (splitRest blockSize fresh' bb' maxLen rest').map BackedBlock.bare =
      (splitRest blockSize fresh bb maxLen rest).map BackedBlock.bare := by
  simp only [BackedBlock.bare, BackedBlock.mk.injEq, true_and] at hbb
  rw [splitRest, splitRest, List.map_append, List.map_append, hrest]
  simp only [backedBlockSplit, hbb.1, hbb.2]
  split <;> rfl

theorem bare_leftBehind (fileLen : Int) (first : Bool) (fresh fresh' : Nat)
    {bb bb' : BackedBlock} {rest rest' : List BackedBlock} (hbb : bb'.bare = bb.bare)
    (hrest : rest'.map BackedBlock.bare = rest.map BackedBlock.bare) :
    (leftBehind blockSize len fileLen first fresh' bb' rest').map BackedBlock.bare =
      (leftBehind blockSize len fileLen first fresh bb rest).map BackedBlock.bare := by
  rw [leftBehind, leftBehind]
  split
  · exact bare_splitRest fresh fresh' _ hbb hrest
  · rw [List.map_cons, List.map_cons, hbb, hrest]

theorem len_bare {bb bb' : BackedBlock} (h : bb'.bare = bb.bare) : bb'.len = bb.len := by
  simp only [BackedBlock.bare, BackedBlock.mk.injEq, true_and] at h
  exact h.1

theorem countable_bare {bb bb' : BackedBlock} (h : bb'.bare = bb.bare) :
    bb'.Countable ↔ bb.Countable := by
  simp only [BackedBlock.bare, BackedBlock.mk.injEq, true_and] at h
  rw [BackedBlock.Countable, BackedBlock.Countable, h.1, h.2]

theorem blockCount_bare {bb bb' : BackedBlock} (h : bb'.bare = bb.bare) :
    blockCount blockSize bb' = blockCount blockSize bb := by
  simp only [BackedBlock.bare, BackedBlock.mk.injEq, true_and] at h
  rw [blockCount, blockCount, h.1, h.2]

theorem Jammed.of_bare {fileLen : Int} {first : Bool} {blocks blocks' : List BackedBlock}
    (h : Jammed blockSize len fileLen first blocks)
    (hbare : blocks'.map BackedBlock.bare = blocks.map BackedBlock.bare) :
    Jammed blockSize len fileLen first blocks' := by
  induction h generalizing blocks' with
  | @begins bb rest countable filled exceeds =>
    obtain ⟨bb', rest', rfl, hbb, hrest⟩ := List.map_eq_cons_iff.mp hbare
    exact .begins ((countable_bare hbb).mpr countable) (len_bare hbb ▸ filled)
      (blockCount_bare hbb ▸ exceeds)
  | @fits fileLen first bb rest countable room later ih =>
    obtain ⟨bb', rest', rfl, hbb, hrest⟩ := List.map_eq_cons_iff.mp hbare
    have hcount : blockCount blockSize bb' = blockCount blockSize bb := blockCount_bare hbb
    exact .fits ((countable_bare hbb).mpr countable) (hcount ▸ room) (hcount ▸ ih hrest)
  | @next fileLen first bb rest fresh countable exceeds empty later ih =>
    obtain ⟨bb', rest', rfl, hbb, hrest⟩ := List.map_eq_cons_iff.mp hbare
    exact .next fresh ((countable_bare hbb).mpr countable) (blockCount_bare hbb ▸ exceeds)
      (fun h => (len_bare hbb).trans (empty h)) (ih (bare_leftBehind fileLen first fresh fresh hbb hrest))

theorem jammed_splitRest {fresh maxLen : Nat} {bb : BackedBlock} {rest : List BackedBlock}
    (hroom : maxLen < blockSize) (hcountable : bb.Countable) (hfilled : 0 < bb.len)
    (hexceeds : len < blockCount blockSize bb) :
    Jammed blockSize len 0 true (splitRest blockSize fresh bb maxLen rest) := by
  have hzero : blockSize * (maxLen / blockSize) = 0 := by rw [Nat.div_eq_of_lt hroom, mul_zero]
  rw [splitRest, backedBlockSplit]
  simp only [hzero, Nat.le_zero, hfilled.ne', if_false, Option.toList_some, List.singleton_append,
    Nat.sub_zero, Backing.advance_zero]
  exact .begins hcountable hfilled hexceeds

variable {fault : Nat → Bool}

theorem takeChunks_exceeds {bb : BackedBlock} {count fileLen : Int} {calls calls' : Nat}
    (hcount : countBlock fault blockSize bb calls = (some count, calls'))
    (hexceeds : len < fileLen + count) (first : Bool) (fresh : Nat) (rest : List BackedBlock) :
    ∃ m, takeChunks fault blockSize len fileLen first fresh calls (bb :: rest) = some m ∧
      m.more = true ∧ m.left = leftBehind blockSize len fileLen first fresh bb rest := by
  rw [takeChunks, hcount]
  dsimp only
  rw [if_pos hexceeds, leftBehind]
  split
  · exact ⟨_, rfl, rfl, rfl⟩
  · exact ⟨_, rfl, rfl, rfl⟩

theorem takeChunks_shrinks {fileLen : Int} {first : Bool} {fresh calls : Nat}
    {blocks : List BackedBlock} {m : Moved} (hpos : 0 < blockSize) (hlen : len < 4294967296)
    (h : takeChunks fault blockSize len fileLen first fresh calls blocks = some m)
    (hmore : m.more = true) (hstart : first = true → fileLen = 0)
    (hfree : len < blockSize → ¬ Jammed blockSize len fileLen first blocks) :
    (size m.left < size blocks ∨ first = false ∧ size m.left ≤ size blocks) ∧
      (len < blockSize → ¬ Jammed blockSize len 0 true m.left) := by
  induction blocks generalizing fileLen first calls m with
  | nil =>
    cases h
    cases hmore
  | cons bb rest ih =>
    rcases hcount : countBlock fault blockSize bb calls with ⟨_ | count, calls'⟩
    · rw [takeChunks, hcount] at h
      cases h
    obtain ⟨hcountable, rfl⟩ := countBlock_some hcount
    by_cases hexceeds : len < fileLen + blockCount blockSize bb
    · obtain ⟨m', hm', -, hleft⟩ := takeChunks_exceeds hcount hexceeds first fresh rest
      obtain rfl : m' = m := Option.some.inj (hm'.symm.trans h)
      rw [hleft]
      cases first with
      | false =>
        refine ⟨.inr ⟨rfl, size_leftBehind_le fileLen false fresh bb rest⟩, fun hroom hlater => ?_⟩
        exact hfree hroom (.next fresh hcountable hexceeds (by simp) hlater)
      | true =>
        obtain rfl := hstart rfl
        rw [zero_add] at hexceeds
        have hempty : len < blockSize → bb.len = 0 := by
          intro hroom
          by_contra hfilled
          exact hfree hroom (.begins hcountable (Nat.pos_of_ne_zero hfilled) hexceeds)
        constructor
        · rw [leftBehind_begins hlen]
          refine .inl (size_splitRest_lt fresh rest ?_)
          by_cases hroom : len < blockSize
          · exact .inr (hempty hroom)
          · exact .inl (Nat.mul_pos hpos (Nat.div_pos (not_lt.mp hroom) hpos))
        · intro hroom hlater
          exact hfree hroom
            (.next fresh hcountable (by omega) (fun _ => hempty hroom) hlater)
    · have hroom := not_lt.mp hexceeds
      rw [takeChunks, hcount] at h
      dsimp only at h
      rw [if_neg hexceeds, Option.bind_eq_bind, Option.bind_eq_some_iff] at h
      obtain ⟨moved, hmoved, h⟩ := h
      obtain rfl := Option.some.inj h
      obtain ⟨hsize, hover⟩ := ih hmoved hmore (fun h => by cases h)
        fun hlt hlater => hfree hlt (.fits hcountable hroom hlater)
      refine ⟨.inl ?_, hover⟩
      rw [size_cons]
      rcases hsize with hsize | ⟨_, hsize⟩ <;> dsimp only <;> omega

theorem takeChunks_jams {fileLen : Int} {first : Bool} {blocks : List BackedBlock}
    (fresh calls : Nat) (hroom : len < blockSize) (hlen : len < 4294967296)
    (h : Jammed blockSize len fileLen first blocks) :
    ∃ m, takeChunks (fun _ => false) blockSize len fileLen first fresh calls blocks = some m ∧
      m.more = true ∧ Jammed blockSize len 0 true m.left := by
  induction h generalizing calls with
  | @begins bb rest countable filled exceeds =>
    obtain ⟨calls', hcount⟩ := countable.count calls
    obtain ⟨m, hm, hmore, hleft⟩ :=
      takeChunks_exceeds hcount (by rwa [zero_add]) true fresh rest
    refine ⟨m, hm, hmore, ?_⟩
    rw [hleft, leftBehind_begins hlen]
    exact jammed_splitRest hroom countable filled exceeds
  | @fits fileLen first bb rest countable room later ih =>
    obtain ⟨calls', hcount⟩ := countable.count calls
    obtain ⟨m, hm, hmore, hleft⟩ := ih calls'
    refine ⟨{ m with taken := bb :: m.taken }, ?_, hmore, hleft⟩
    rw [takeChunks, hcount]
    dsimp only
    rw [if_neg (not_lt.mpr room), hm]
    rfl
  | @next fileLen first bb rest fresh' countable exceeds empty later ih =>
    obtain ⟨calls', hcount⟩ := countable.count calls
    obtain ⟨m, hm, hmore, hleft⟩ := takeChunks_exceeds hcount exceeds first fresh rest
    refine ⟨m, hm, hmore, ?_⟩
    rw [hleft]
    exact later.of_bare (bare_leftBehind fileLen first fresh' fresh rfl rfl)

end Rounds

section Returning

variable {s : SparseFile} {maxLen fresh : Nat} {outSCount : Int}

theorem resparseLoop_returns {fault : Nat → Bool} (hpos : 0 < s.blockSize) (fuel : Nat)
    {r : Resparsing} (hfuel : size r.blocks < fuel)
    (hfree : s.blockSize ≤ 2147483647 → roomFor maxLen < s.blockSize →
      ¬ Jammed s.blockSize (roomFor maxLen) 0 true r.blocks) :
    (resparseLoop fault s maxLen outSCount fuel r).isSome := by
  induction fuel generalizing r with
  | zero => omega
  | succ fuel ih =>
    rw [resparseLoop, moveChunksUpToLen, if_neg hpos.ne']
    by_cases hint : s.blockSize > 2147483647
    · rw [if_pos hint]
      rfl
    rw [if_neg hint]
    cases hm : takeChunks fault s.blockSize (roomFor maxLen) 0 true r.fresh r.calls r.blocks with
    | none => rfl
    | some m =>
      rw [Option.getD_some, Option.bind_eq_bind, Option.bind_some]
      split
      · next hmore =>
        obtain ⟨hsize, hover⟩ := takeChunks_shrinks hpos (u32_lt _) hm hmore (fun _ => rfl)
          (hfree (not_lt.mp hint))
        have hless : size m.left < size r.blocks := by
          rcases hsize with h | ⟨h, _⟩
          · exact h
          · cases h
        exact ih (show size m.left < fuel by omega) fun _ => hover
      · rfl

theorem resparseLoop_jams (hint : s.blockSize ≤ 2147483647)
    (hroom : roomFor maxLen < s.blockSize) (fuel : Nat) {r : Resparsing}
    (hjam : Jammed s.blockSize (roomFor maxLen) 0 true r.blocks) :
    resparseLoop (fun _ => false) s maxLen outSCount fuel r = none := by
  induction fuel generalizing r with
  | zero => rfl
  | succ fuel ih =>
    obtain ⟨m, hm, hmore, hleft⟩ := takeChunks_jams r.fresh r.calls hroom (u32_lt _) hjam
    rw [resparseLoop, moveChunksUpToLen, if_neg (by omega), if_neg (by omega), hm,
      Option.getD_some, Option.bind_eq_bind, Option.bind_some, if_pos hmore]
    exact ih hleft

theorem isSome_sparseFileResparse {fault : Nat → Bool} {fuel : Nat} :
    (sparseFileResparse fault fuel s maxLen outSCount fresh).isSome =
      (resparseLoop fault s maxLen outSCount fuel ⟨s.blocks, [], [], 0, fresh, 0⟩).isSome := by
  rw [sparseFileResparse]
  cases resparseLoop fault s maxLen outSCount fuel ⟨s.blocks, [], [], 0, fresh, 0⟩ <;> rfl

theorem Stuck.not_returns (hs : Stuck s maxLen) :
    ¬ Returns (fun _ => false) s maxLen outSCount fresh := by
  rintro ⟨fuel, hfuel⟩
  rw [isSome_sparseFileResparse, resparseLoop_jams hs.blockSize hs.room fuel hs.jammed] at hfuel
  cases hfuel

theorem not_returns_of_blockSize {fault : Nat → Bool} (h : s.blockSize = 0) :
    ¬ Returns fault s maxLen outSCount fresh := by
  rintro ⟨fuel, hfuel⟩
  rw [isSome_sparseFileResparse] at hfuel
  cases fuel with
  | zero => cases hfuel
  | succ fuel =>
    rw [resparseLoop, moveChunksUpToLen, if_pos h] at hfuel
    cases hfuel

theorem returns_iff_not_stuck (s : SparseFile) (maxLen : Nat) (outSCount : Int) (fresh : Nat) :
    (∀ fault, Returns fault s maxLen outSCount fresh) ↔ s.blockSize ≠ 0 ∧ ¬ Stuck s maxLen := by
  constructor
  · intro hreturns
    constructor
    · exact fun hzero => not_returns_of_blockSize hzero (hreturns fun _ => false)
    · exact fun hs => hs.not_returns (hreturns fun _ => false)
  · rintro ⟨hpos, hfree⟩ fault
    refine ⟨size s.blocks + 1, ?_⟩
    rw [isSome_sparseFileResparse]
    apply resparseLoop_returns (Nat.pos_of_ne_zero hpos) _ (Nat.lt_succ_self _)
    exact fun hint hroom hjam => hfree ⟨hint, hroom, hjam⟩

def twoBlockFile : SparseFile := ⟨4096, 8192, [⟨0, 0, 8192, .data 0⟩]⟩

theorem stuck_twoBlockFile : Stuck twoBlockFile 1000 where
  blockSize := by decide
  room := by decide
  jammed := .begins trivial (by decide) (by decide)

theorem twoBlockFile_never_returns :
    ¬ ∀ fault, Returns fault twoBlockFile 1000 16 1 :=
  fun h => stuck_twoBlockFile.not_returns (h fun _ => false)

end Returning

end MakeExt4fs

import MakeExt4fs.Utils.Types

namespace MakeExt4fs

open ErrorLog Words

def bitmapSetBit (bitmap bit : Nat) : Bool × Nat :=
  if bitmap.testBit bit then (true, bitmap) else (false, bitmap ||| spanMask bit 1)

def bitmapSet8Bits (bitmap bit : Nat) : Nat × Nat :=
  ((bitmap >>> (8 * (bit / 8))) % 256, bitmap ||| spanMask (8 * (bit / 8)) 8)

def bitmapClearBit (bitmap bit : Nat) : Nat := bitmap ^^^ (bitmap &&& spanMask bit 1)

namespace BlockGroupInfo

-- The variables of reserve_blocks that its three loops change.
structure Cursor where
  i : Nat
  block : Nat
  bitmap : Nat

def Cursor.advance (c : Cursor) (n : Nat) : Cursor :=
  ⟨c.i + n, c.block + n, c.bitmap ||| spanMask c.block n⟩

def bitLoop (more : Cursor → Bool) : Nat → Cursor → Bool × Cursor
  | 0, c => (true, c)
  | fuel + 1, c =>
    if more c then
      match bitmapSetBit c.bitmap c.block with
      | (true, bm) => (false, { c with bitmap := bm })
      | (false, bm) => bitLoop more fuel ⟨c.i + 1, c.block + 1, bm⟩
    else (true, c)

def byteLoop (num : Nat) : Nat → Cursor → Bool × Cursor
  | 0, c => (true, c)
  | fuel + 1, c =>
    if c.i + 8 ≤ num / 8 * 8 then
      match bitmapSet8Bits c.bitmap c.block with
      | (0, bm) => byteLoop num fuel ⟨c.i + 8, c.block + 8, bm⟩
      | (_, bm) => (false, { c with bitmap := bm })
    else (true, c)

def setBits (start num : Nat) (bitmap : Nat) : Bool × Nat :=
  match bitLoop (fun c => c.i < num && c.block % 8 != 0) num ⟨0, start, bitmap⟩ with
  | (false, c) => (false, c.bitmap)
  | (true, c) =>
    match byteLoop num num c with
    | (false, c) => (false, c.bitmap)
    | (true, c) =>
      match bitLoop (fun c => c.i < num) num c with
      | (ok, c) => (ok, c.bitmap)

def reserveBlocks (force : Bool) (start num : Nat) : Run Ext4Error BlockGroupInfo Int := do
  let bg ← Run.read
  if num > bg.freeBlocks then
    return -1
  else
    match setBits start num bg.blockBitmap with
    | (false, bm) =>
      Run.write { bg with blockBitmap := bm }
      Run.raise force .alreadyReserved
      return -1
    | (true, bm) =>
      Run.write { bg with
        blockBitmap := bm
        freeBlocks := bg.freeBlocks - num
        firstFreeBlock := if start = bg.firstFreeBlock then start + num else bg.firstFreeBlock }
      return 0

def clearLoop : Nat → Nat → Nat → Nat
  | 0, _, bitmap => bitmap
  | n + 1, block, bitmap => clearLoop n (sub32 block 1) (bitmapClearBit bitmap block)

def releaseBlocks (bg : BlockGroupInfo) (numBlocks : Nat) : BlockGroupInfo :=
  { bg with
    blockBitmap := clearLoop numBlocks (sub32 bg.firstFreeBlock 1) bg.blockBitmap
    freeBlocks := u32 (bg.freeBlocks + numBlocks)
    firstFreeBlock := sub32 bg.firstFreeBlock numBlocks }

@[simp] theorem Cursor.advance_i (c : Cursor) (n : Nat) : (c.advance n).i = c.i + n := rfl

@[simp] theorem Cursor.advance_block (c : Cursor) (n : Nat) :
    (c.advance n).block = c.block + n := rfl

theorem Cursor.advance_zero (c : Cursor) : c.advance 0 = c := by
  simp [Cursor.advance, spanMask_zero]

theorem Cursor.advance_add (c : Cursor) (m n : Nat) :
    (c.advance m).advance n = c.advance (m + n) := by
  simp [Cursor.advance, or_spanMask_append, Nat.add_assoc]

def Cursor.ClearTo (c : Cursor) (stop : Nat) : Prop :=
  ∀ k, c.block ≤ k → k < stop → c.bitmap.testBit k = false

theorem Cursor.ClearTo.advance {c : Cursor} {stop : Nat} (h : c.ClearTo stop) (n : Nat) :
    (c.advance n).ClearTo stop := by
  intro k h1 h2
  simp only [Cursor.advance_block] at h1
  simp [Cursor.advance, h k (by omega) h2]
  omega

theorem bitLoop_clear (more : Cursor → Bool) (fuel : Nat) {stop : Nat} {c : Cursor}
    (h : c.ClearTo stop) (hm : ∀ n, more (c.advance n) = true → c.block + n < stop) :
    ∃ n, n ≤ fuel ∧ bitLoop more fuel c = (true, c.advance n) ∧
      (n < fuel → more (c.advance n) = false) ∧ c.block + n ≤ max c.block stop := by
  induction fuel generalizing c with
  | zero => exact ⟨0, le_rfl, by rw [bitLoop, c.advance_zero], by omega, by omega⟩
  | succ fuel ih =>
    by_cases hc : more c = true
    · have hlt : c.block < stop := by simpa using hm 0 (by rwa [c.advance_zero])
      have hbit : bitmapSetBit c.bitmap c.block = (false, (c.advance 1).bitmap) := by
        simp [bitmapSetBit, h c.block le_rfl hlt, Cursor.advance]
      obtain ⟨n, hn, hrun, hstop, hle⟩ := ih (h.advance 1) (by
        intro n hn
        rw [c.advance_add] at hn
        have := hm (1 + n) hn
        simp only [Cursor.advance_block]
        omega)
      simp only [c.advance_add, Cursor.advance_block] at hrun hstop hle
      refine ⟨1 + n, by omega, ?_, fun hlt' => hstop (by omega), by omega⟩
      rw [bitLoop, if_pos hc, hbit, ← hrun]
      rfl
    · refine ⟨0, by omega, ?_, fun _ => by simpa [c.advance_zero] using hc, by omega⟩
      rw [bitLoop, if_neg hc, c.advance_zero]

theorem byte_clear {bitmap block : Nat} (h : ∀ k, block ≤ k → k < block + 8 → bitmap.testBit k = false) :
    (bitmap >>> block) % 256 = 0 := by
  apply Nat.eq_of_testBit_eq
  intro i
  rw [show 256 = 2 ^ 8 by rfl, Nat.testBit_mod_two_pow, Nat.testBit_shiftRight]
  by_cases hi : i < 8
  · simp [hi, h (block + i) (by omega) (by omega)]
  · simp [hi]

theorem byteLoop_clear {num : Nat} (fuel : Nat) (c : Cursor) (ha : c.block % 8 = 0 ∨ num ≤ c.i)
    (h : c.ClearTo (c.block + (num - c.i))) (hi : c.i ≤ num) :
    ∃ n, byteLoop num fuel c = (true, c.advance n) ∧ c.i + n ≤ num := by
  induction fuel generalizing c with
  | zero => exact ⟨0, by rw [byteLoop, c.advance_zero], by omega⟩
  | succ fuel ih =>
    by_cases hc : c.i + 8 ≤ num / 8 * 8
    · have hal : c.block % 8 = 0 := by omega
      have hblk : 8 * (c.block / 8) = c.block := by omega
      have hbyte : bitmapSet8Bits c.bitmap c.block = (0, (c.advance 8).bitmap) := by
        simp only [bitmapSet8Bits, hblk, Cursor.advance,
          byte_clear fun k h1 h2 => h k h1 (by omega)]
      obtain ⟨n, hrun, hle⟩ := ih (c.advance 8) (by simp; omega)
        (by
          have := h.advance 8
          simp only [Cursor.advance_block, Cursor.advance_i]
          rwa [show c.block + 8 + (num - (c.i + 8)) = c.block + (num - c.i) by omega])
        (by simp; omega)
      refine ⟨8 + n, ?_, by simp at hle; omega⟩
      rw [byteLoop, if_pos hc, hbyte, ← c.advance_add, ← hrun]
      rfl
    · exact ⟨0, by rw [byteLoop, if_neg hc, c.advance_zero], by omega⟩

theorem setBits_clear {start num bitmap : Nat}
    (h : ∀ k, start ≤ k → k < start + num → bitmap.testBit k = false) :
    setBits start num bitmap = (true, bitmap ||| spanMask start num) := by
  let c0 : Cursor := ⟨0, start, bitmap⟩
  have hc0 : c0.ClearTo (start + num) := h
  obtain ⟨n1, h1, e1, s1, -⟩ := bitLoop_clear
    (fun c => c.i < num && c.block % 8 != 0) num hc0 (by
      intro n hn
      simp [c0, Cursor.advance] at hn ⊢
      omega)
  have hal : (c0.advance n1).block % 8 = 0 ∨ num ≤ (c0.advance n1).i := by
    rcases Nat.lt_or_ge n1 num with hlt | hge
    · have := s1 hlt
      simp [c0, Cursor.advance] at this ⊢
      omega
    · exact Or.inr (by simpa [c0] using hge)
  obtain ⟨n2, e2, h2⟩ := byteLoop_clear num (c0.advance n1) hal
    (by
      have := hc0.advance n1
      simp only [Cursor.advance_block, Cursor.advance_i, c0]
      rwa [show start + n1 + (num - (0 + n1)) = start + num by omega])
    (by simpa [c0] using h1)
  rw [c0.advance_add] at e2
  have h2' : n1 + n2 ≤ num := by simpa [c0] using h2
  obtain ⟨n3, h3, e3, s3, b3⟩ := bitLoop_clear (fun c => c.i < num) num
    (hc0.advance (n1 + n2)) (by
      intro n hn
      simp [c0, Cursor.advance] at hn ⊢
      omega)
  rw [c0.advance_add] at e3
  simp only [Cursor.advance_block, c0] at b3
  have h3' : n1 + n2 + n3 = num := by
    rcases Nat.lt_or_ge n3 num with hlt | hge
    · have := s3 hlt
      simp [c0, Cursor.advance] at this
      omega
    · omega
  have hstart : (⟨0, start, bitmap⟩ : Cursor) = c0 := rfl
  unfold setBits
  rw [hstart, e1]
  simp only [e2, e3, h3']
  rfl

theorem reserveBlocks_run {bg : BlockGroupInfo} {start num : Nat} (force : Bool)
    (l : List Ext4Error) (hfree : num ≤ bg.freeBlocks)
    (hclear : ∀ k, start ≤ k → k < start + num → bg.blockBitmap.testBit k = false) :
    reserveBlocks force start num (bg, l) = .ok (0, ({ bg with
      blockBitmap := bg.blockBitmap ||| spanMask start num
      freeBlocks := bg.freeBlocks - num
      firstFreeBlock := if start = bg.firstFreeBlock then start + num else bg.firstFreeBlock }, l)) := by
  have hle : ¬ num > bg.freeBlocks := by omega
  simp only [reserveBlocks, Run.bind_run, Run.read_run, if_neg hle, setBits_clear hclear,
    Run.write_run, Run.pure_run]

theorem reserveBlocks_refused {bg : BlockGroupInfo} {start num : Nat} (force : Bool)
    (l : List Ext4Error) (hfree : bg.freeBlocks < num) :
    reserveBlocks force start num (bg, l) = .ok (-1, (bg, l)) := by
  simp only [reserveBlocks, Run.bind_run, Run.read_run, gt_iff_lt, if_pos hfree, Run.pure_run]

structure Sound (bpg hdr lim : Nat) (bg : BlockGroupInfo) : Prop where
  bits : ∀ k, bg.blockBitmap.testBit k = decide (k < bg.firstFreeBlock ∨ lim ≤ k ∧ k < bpg)
  free : bg.freeBlocks = lim - bg.firstFreeBlock
  hdr_le : hdr ≤ bg.firstFreeBlock
  lim_le : lim ≤ bpg
  first_le : bg.firstFreeBlock ≤ lim ∨ bg.firstFreeBlock = bpg

def frame (bg : BlockGroupInfo) : BlockGroupInfo :=
  { bg with blockBitmap := 0, freeBlocks := 0, firstFreeBlock := 0, dataBlocksUsed := 0 }

def take (bg : BlockGroupInfo) (n : Nat) : BlockGroupInfo :=
  { bg with
    blockBitmap := bg.blockBitmap ||| spanMask bg.firstFreeBlock n
    freeBlocks := bg.freeBlocks - n
    firstFreeBlock := bg.firstFreeBlock + n }

variable {bpg hdr lim : Nat} {bg : BlockGroupInfo}

@[simp] theorem take_frame (n : Nat) : (bg.take n).frame = bg.frame := rfl

@[simp] theorem releaseBlocks_frame (n : Nat) : (bg.releaseBlocks n).frame = bg.frame := rfl

theorem firstBlock_of_frame {b c : BlockGroupInfo} (h : b.frame = c.frame) :
    b.firstBlock = c.firstBlock := by simpa [frame] using congrArg firstBlock h

theorem headerBlocks_of_frame {b c : BlockGroupInfo} (h : b.frame = c.frame) :
    b.headerBlocks = c.headerBlocks := by simpa [frame] using congrArg headerBlocks h

theorem hasSuperblock_of_frame {b c : BlockGroupInfo} (h : b.frame = c.frame) :
    b.hasSuperblock = c.hasSuperblock := by simpa [frame] using congrArg hasSuperblock h

theorem Sound.raise (h : Sound bpg hdr lim bg) {n : Nat} (hn : n ≤ bg.firstFreeBlock) :
    Sound bpg n lim bg := ⟨h.bits, h.free, hn, h.lim_le, h.first_le⟩

theorem reserveBlocks_quiet (force : Bool) (start num : Nat) :
    Run.Quiet (fun b => b.freeBlocks < num) (reserveBlocks force start num)
      (fun r b => r = -1 ∧ b.freeBlocks < num) := by
  apply Run.Quiet.read_bind
  intro bg
  split
  · exact Run.Quiet.pure fun s h => ⟨rfl, h.2⟩
  · rename_i hle
    split
    · refine Run.Quiet.bind (Q := fun _ _ => False) (Run.Quiet.write ?_) ?_
      · rintro s ⟨rfl, h⟩
        exact hle h
      · exact fun _ => Run.Quiet.bind (Q := fun _ _ => False) Run.Quiet.raise
          fun _ => Run.Quiet.pure fun _ h => h.elim
    · refine Run.Quiet.bind (Q := fun _ _ => False) (Run.Quiet.write ?_) ?_
      · rintro s ⟨rfl, h⟩
        exact hle h
      · exact fun _ => Run.Quiet.pure fun _ h => h.elim

theorem Sound.reserve (h : Sound bpg hdr lim bg) {n : Nat} (force : Bool) (l : List Ext4Error)
    (hn : n ≤ bg.freeBlocks) :
    reserveBlocks force bg.firstFreeBlock n (bg, l) = .ok (0, (bg.take n, l)) := by
  have hfree := h.free
  rw [reserveBlocks_run force l hn]
  · simp [take]
  · intro k h1 h2
    rw [h.bits k, decide_eq_false_iff_not]
    omega

theorem Sound.take (h : Sound bpg hdr lim bg) {n : Nat} (hn : n ≤ bg.freeBlocks) :
    Sound bpg hdr lim (bg.take n) := by
  have hfree := h.free
  have hhdr := h.hdr_le
  have hlim := h.lim_le
  have hfirst := h.first_le
  refine ⟨?_, ?_, ?_, hlim, ?_⟩
  · intro k
    simp only [BlockGroupInfo.take, Nat.testBit_or, h.bits k, testBit_spanMask]
    rw [← Bool.decide_or]
    congr 1
    apply propext
    omega
  · simp only [BlockGroupInfo.take]
    omega
  · simp only [BlockGroupInfo.take]
    omega
  · simp only [BlockGroupInfo.take]
    omega

theorem testBit_clearLoop {n block bitmap : Nat} (hn : n ≤ block + 1) (hb : block < 4294967296)
    (k : Nat) : (clearLoop n block bitmap).testBit k =
      (bitmap.testBit k && decide (¬(block + 1 - n ≤ k ∧ k ≤ block))) := by
  induction n generalizing block bitmap with
  | zero =>
    simp only [clearLoop]
    simp
  | succ n ih =>
    have hbit : (bitmapClearBit bitmap block).testBit k =
        (bitmap.testBit k && decide (k ≠ block)) := by
      simp only [bitmapClearBit, Nat.testBit_xor, Nat.testBit_and, testBit_spanMask]
      by_cases hk : k = block
      · simp [hk]
      · have hno : ¬(block ≤ k ∧ k < block + 1) := by omega
        simp only [hno, decide_false, Bool.and_false, Bool.xor_false, ne_eq, hk, not_false_iff,
          decide_true, Bool.and_true]
    rw [clearLoop]
    rcases Nat.eq_zero_or_pos block with hz | hpos
    · subst hz
      have h0 : n = 0 := by omega
      subst h0
      simp only [clearLoop, hbit]
      congr 1
      simp
    · rw [sub32_of_le (by omega) (by omega), ih (by omega) (by omega), hbit, Bool.and_assoc,
        ← Bool.decide_and]
      congr 2
      apply propext
      omega

theorem Sound.release (h : Sound bpg hdr lim bg) {n : Nat} (hbpg : bpg < 4294967296)
    (hn : hdr + n ≤ bg.firstFreeBlock) (hle : bg.firstFreeBlock ≤ lim) :
    Sound bpg hdr lim (bg.releaseBlocks n) ∧
      (bg.releaseBlocks n).firstFreeBlock = bg.firstFreeBlock - n := by
  have hfree := h.free
  have hlim := h.lim_le
  have hfirst : sub32 bg.firstFreeBlock n = bg.firstFreeBlock - n :=
    sub32_of_le (by omega) (by omega)
  refine ⟨⟨?_, ?_, ?_, hlim, ?_⟩, hfirst⟩
  · intro k
    simp only [releaseBlocks, hfirst]
    rcases Nat.eq_zero_or_pos n with hz | hpos
    · subst hz
      simp only [clearLoop, h.bits k]
      rfl
    · rw [sub32_of_le (by omega) (by omega), testBit_clearLoop (by omega) (by omega), h.bits k,
        ← Bool.decide_and]
      congr 1
      apply propext
      omega
  · simp only [releaseBlocks, hfirst, u32]
    omega
  · simp only [releaseBlocks, hfirst]
    omega
  · simp only [releaseBlocks, hfirst]
    omega

end BlockGroupInfo

end MakeExt4fs

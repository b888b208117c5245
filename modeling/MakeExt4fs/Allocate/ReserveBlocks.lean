import MakeExt4fs.Allocate.Group

namespace MakeExt4fs

open ErrorLog Words

namespace BlockGroupInfo

def ClearIn (bitmap start num : Nat) : Prop :=
  ∀ k, start ≤ k → k < start + num → bitmap.testBit k = false

section Loops

variable {c : Cursor}

theorem ClearIn.snoc {bitmap start n m : Nat} (h : ClearIn bitmap start n)
    (h' : ClearIn bitmap (start + n) m) : ClearIn bitmap start (n + m) := by
  intro k h1 h2
  rcases Nat.lt_or_ge k (start + n) with hk | hk
  · exact h k h1 hk
  · exact h' k hk (by omega)

theorem Cursor.testBit_advance (n : Nat) {k : Nat} (hk : c.block + n ≤ k) :
    (c.advance n).bitmap.testBit k = c.bitmap.testBit k := by
  simp [Cursor.advance]
  omega

theorem Cursor.clearIn_advance {n m : Nat} (h : ClearIn (c.advance n).bitmap (c.block + n) m) :
    ClearIn c.bitmap (c.block + n) m := by
  intro k h1 h2
  rw [← c.testBit_advance n h1]
  exact h k h1 h2

theorem bitLoop_result (more : Cursor → Bool) (fuel : Nat) (c : Cursor) :
    ∃ n ≤ fuel, ClearIn c.bitmap c.block n ∧ (∀ m < n, more (c.advance m) = true) ∧
      (bitLoop more fuel c = (true, c.advance n) ∧ (n < fuel → more (c.advance n) = false) ∨
        bitLoop more fuel c = (false, c.advance n) ∧ more (c.advance n) = true ∧
          c.bitmap.testBit (c.block + n) = true) := by
  induction fuel generalizing c with
  | zero =>
    refine ⟨0, le_rfl, fun k h1 h2 => by omega, by simp, Or.inl ⟨?_, by simp⟩⟩
    rw [bitLoop, c.advance_zero]
  | succ fuel ih =>
    rw [bitLoop]
    split
    · rename_i hmore
      cases hbit : c.bitmap.testBit c.block with
      | true =>
        refine ⟨0, Nat.zero_le _, fun k h1 h2 => by omega, by simp, Or.inr ⟨?_, ?_, hbit⟩⟩
        · simp only [bitmapSetBit, hbit, if_true, c.advance_zero]
        · rwa [c.advance_zero]
      | false =>
        have hset : bitmapSetBit c.bitmap c.block = (false, (c.advance 1).bitmap) := by
          simp [bitmapSetBit, hbit, Cursor.advance]
        obtain ⟨n, hn, hclear, hall, hend⟩ := ih (c.advance 1)
        have hone : ClearIn c.bitmap c.block 1 := by
          intro k h1 h2
          obtain rfl : k = c.block := by omega
          exact hbit
        refine ⟨1 + n, by omega, hone.snoc (Cursor.clearIn_advance hclear), fun m hm => ?_, ?_⟩
        · cases m with
          | zero => rwa [c.advance_zero]
          | succ m =>
            have := hall m (by omega)
            rwa [c.advance_add, Nat.add_comm] at this
        rw [hset]
        rw [c.advance_add] at hend
        obtain h | h := hend
        · exact Or.inl ⟨h.1, fun hlt => h.2 (by omega)⟩
        · obtain ⟨hrun, hgo, hfound⟩ := h
          rw [Cursor.advance_block, c.testBit_advance 1 (by omega), Nat.add_assoc] at hfound
          exact Or.inr ⟨hrun, hgo, hfound⟩
    · rename_i hmore
      refine ⟨0, Nat.zero_le _, fun k h1 h2 => by omega, by simp, Or.inl ⟨?_, fun _ => ?_⟩⟩
      · rw [c.advance_zero]
      · rw [c.advance_zero]
        exact Bool.eq_false_iff.mpr hmore

theorem exists_of_byte {bitmap block : Nat} (h : (bitmap >>> block) % 256 ≠ 0) :
    ∃ k, block ≤ k ∧ k < block + 8 ∧ bitmap.testBit k = true := by
  by_contra hnone
  refine h (byte_clear fun k h1 h2 => ?_)
  by_contra hbit
  exact hnone ⟨k, h1, h2, by simpa using hbit⟩

theorem clear_of_byte {bitmap block : Nat} (h : (bitmap >>> block) % 256 = 0) :
    ClearIn bitmap block 8 := by
  intro k h1 h2
  have hbit := congrArg (fun x => x.testBit (k - block)) h
  simp only [show 256 = 2 ^ 8 from rfl, Nat.testBit_mod_two_pow, Nat.testBit_shiftRight,
    Nat.zero_testBit] at hbit
  rw [decide_eq_true (by omega), Bool.true_and, Nat.add_sub_cancel' h1] at hbit
  exact hbit

theorem byteLoop_result {num : Nat} (fuel : Nat) (c : Cursor) (ha : c.block % 8 = 0 ∨ num ≤ c.i)
    (hfuel : num ≤ c.i + 8 * fuel) : ∃ n, ClearIn c.bitmap c.block n ∧ c.i + n ≤ max num c.i ∧
      (byteLoop num fuel c = (true, c.advance n) ∧ num / 8 * 8 < c.i + n + 8 ∨
        ((byteLoop num fuel c).1 = false ∧
          (byteLoop num fuel c).2.bitmap = (c.advance (n + 8)).bitmap) ∧
          c.i + n + 8 ≤ num ∧ (c.block + n) % 8 = 0 ∧
            ∃ k, c.block + n ≤ k ∧ k < c.block + n + 8 ∧ c.bitmap.testBit k = true) := by
  induction fuel generalizing c with
  | zero =>
    refine ⟨0, fun k h1 h2 => by omega, by omega, Or.inl ⟨?_, by omega⟩⟩
    rw [byteLoop, c.advance_zero]
  | succ fuel ih =>
    rw [byteLoop]
    split
    · rename_i hmore
      have hal : c.block % 8 = 0 := by omega
      have hblk : 8 * (c.block / 8) = c.block := by omega
      have hmask : (c.advance 8).bitmap = c.bitmap ||| spanMask (8 * (c.block / 8)) 8 := by
        rw [hblk]
        rfl
      by_cases hbyte : (c.bitmap >>> c.block) % 256 = 0
      · have hset : bitmapSet8Bits c.bitmap c.block = (0, (c.advance 8).bitmap) := by
          rw [bitmapSet8Bits, hblk, hbyte]
          rfl
        obtain ⟨n, hclear, hle, hend⟩ := ih (c.advance 8)
          (by simp only [Cursor.advance_block, Cursor.advance_i]; omega)
          (by simp only [Cursor.advance_i]; omega)
        have hsum : c.block + (8 + n) = (c.advance 8).block + n := by
          simp only [Cursor.advance_block]
          omega
        refine ⟨8 + n, (clear_of_byte hbyte).snoc (Cursor.clearIn_advance hclear), ?_, ?_⟩
        · simp only [Cursor.advance_i] at hle
          omega
        · rw [hset, hsum]
          simp only [c.advance_add, Cursor.advance_i] at hend ⊢
          obtain ⟨hrun, hstop⟩ | ⟨hrun, hin, hmod, k, h1, h2, hk⟩ := hend
          · exact Or.inl ⟨hrun, by omega⟩
          · rw [c.testBit_advance 8 (by simp only [Cursor.advance_block] at h1; omega)] at hk
            rw [← Nat.add_assoc] at hrun
            exact Or.inr ⟨hrun, by omega, hmod, k, h1, h2, hk⟩
      · obtain ⟨m, hm⟩ := Nat.exists_eq_succ_of_ne_zero hbyte
        have hset : bitmapSet8Bits c.bitmap c.block = (m + 1, (c.advance 8).bitmap) := by
          rw [bitmapSet8Bits, hblk, hm]
          rfl
        refine ⟨0, fun k h1 h2 => by omega, by omega, Or.inr ⟨?_, by omega, hal, ?_⟩⟩
        · rw [hset]
          exact ⟨rfl, rfl⟩
        · exact exists_of_byte hbyte
    · refine ⟨0, fun k h1 h2 => by omega, by omega, Or.inl ⟨?_, by omega⟩⟩
      rw [c.advance_zero]

end Loops

section Bits

variable {start num bitmap : Nat} {c0 c c' : Cursor}

def headMore (num : Nat) (c : Cursor) : Bool := c.i < num && c.block % 8 != 0

def tailMore (num : Nat) (c : Cursor) : Bool := c.i < num

theorem setBits_head (hc0 : c0 = ⟨0, start, bitmap⟩)
    (h : bitLoop (headMore num) num c0 = (false, c)) :
    setBits start num bitmap = (false, c.bitmap) := by
  unfold headMore at h
  rw [setBits, ← hc0, h]

theorem setBits_byte (hc0 : c0 = ⟨0, start, bitmap⟩)
    (h : bitLoop (headMore num) num c0 = (true, c))
    (hbyte : (byteLoop num num c).1 = false) :
    setBits start num bitmap = (false, (byteLoop num num c).2.bitmap) := by
  unfold headMore at h
  rw [setBits, ← hc0, h]
  rcases hrun : byteLoop num num c with ⟨_ | _, c'⟩
  · simp only [hrun]
  · rw [hrun] at hbyte
    cases hbyte

theorem setBits_tail (hc0 : c0 = ⟨0, start, bitmap⟩)
    (h : bitLoop (headMore num) num c0 = (true, c))
    (hbyte : byteLoop num num c = (true, c')) : setBits start num bitmap =
      ((bitLoop (tailMore num) num c').1, (bitLoop (tailMore num) num c').2.bitmap) := by
  unfold headMore at h
  rw [setBits, ← hc0, h]
  simp only [hbyte]
  rfl

theorem setBits_result (start num bitmap : Nat) : ∃ n, ClearIn bitmap start n ∧
    (n = num ∧ setBits start num bitmap = (true, bitmap ||| spanMask start num) ∨
      n < num ∧ bitmap.testBit (start + n) = true ∧ (n = 0 → start % 8 ≠ 0 ∨ num < 8) ∧
        setBits start num bitmap = (false, bitmap ||| spanMask start n) ∨
      n + 8 ≤ num ∧ (start + n) % 8 = 0 ∧
        (∃ k, start + n ≤ k ∧ k < start + n + 8 ∧ bitmap.testBit k = true) ∧
        setBits start num bitmap = (false, bitmap ||| spanMask start (n + 8))) := by
  obtain ⟨c0, hc0⟩ : ∃ c : Cursor, c = ⟨0, start, bitmap⟩ := ⟨_, rfl⟩
  have hi : c0.i = 0 := by rw [hc0]
  have hblock : c0.block = start := by rw [hc0]
  have hbits (n : Nat) : (c0.advance n).bitmap = bitmap ||| spanMask start n := by rw [hc0]; rfl
  have hbitmap : c0.bitmap = bitmap := by rw [hc0]
  obtain ⟨n1, hn1, hclear1, -, ⟨hrun1, hstop1⟩ | ⟨hrun1, hmore1, hfound⟩⟩ :=
    bitLoop_result (headMore num) num c0
  swap
  · -- The head meets a bit that is set.
    simp only [headMore, Cursor.advance_i, Cursor.advance_block, hi, hblock, Bool.and_eq_true,
      decide_eq_true_eq, bne_iff_ne] at hmore1
    rw [hbitmap, hblock] at hclear1 hfound
    refine ⟨n1, hclear1, Or.inr (Or.inl ⟨by omega, hfound, fun hzero => Or.inl ?_, ?_⟩)⟩
    · omega
    · rw [setBits_head hc0 hrun1, hbits]
  have hal : (c0.advance n1).block % 8 = 0 ∨ num ≤ (c0.advance n1).i := by
    simp only [headMore, Cursor.advance_i, Cursor.advance_block, hi, Bool.and_eq_false_iff,
      decide_eq_false_iff_not, bne_eq_false_iff_eq] at hstop1 ⊢
    omega
  obtain ⟨n2, hclear2, hle2, hbytes⟩ := byteLoop_result num (c0.advance n1) hal (by omega)
  have hclear12 := hclear1.snoc (Cursor.clearIn_advance hclear2)
  simp only [Cursor.advance_i, Cursor.advance_block, c0.advance_add, hi, hblock] at hbytes hle2
  rcases hbytes with ⟨hrun2, hstop2⟩ | ⟨⟨hfalse, hfull⟩, hroom, hmod, k, h1, h2, hk⟩
  swap
  · -- A whole byte is set although one of its bits was.
    rw [hbitmap, hblock] at hclear12
    refine ⟨n1 + n2, hclear12, Or.inr (Or.inr ⟨by omega, by rwa [← Nat.add_assoc], ⟨k, ?_⟩, ?_⟩)⟩
    · rw [c0.testBit_advance n1 (by omega), hbitmap] at hk
      exact ⟨by omega, by omega, hk⟩
    · rw [setBits_byte hc0 hrun1 hfalse, hfull, hbits, Nat.add_assoc]
  obtain ⟨n3, hn3, hclear3, hall3, htail⟩ := bitLoop_result (tailMore num) num (c0.advance (n1 + n2))
  have hclear := hclear12.snoc (Cursor.clearIn_advance hclear3)
  have hset := setBits_tail hc0 hrun1 hrun2
  rw [hbitmap, hblock] at hclear
  simp only [c0.advance_add] at htail
  rcases htail with ⟨hrun3, hstop3⟩ | ⟨hrun3, hmore3, hfound⟩
  · simp only [tailMore, Cursor.advance_i, decide_eq_false_iff_not, hi] at hstop3
    rw [hrun3, hbits] at hset
    have hall : n1 + n2 + n3 = num := by
      by_contra hne
      rcases Nat.lt_or_ge (n1 + n2 + n3) num with hlt | hge
      · omega
      · have hlast := hall3 (num - (n1 + n2)) (by omega)
        simp only [tailMore, Cursor.advance_i, hi, decide_eq_true_eq] at hlast
        omega
    exact ⟨n1 + n2 + n3, hclear, Or.inl ⟨hall, by rw [hset, hall]⟩⟩
  · simp only [tailMore, Cursor.advance_i, decide_eq_true_eq, hi] at hmore3
    rw [c0.testBit_advance _ (by simp), hbitmap, Cursor.advance_block, hblock] at hfound
    refine ⟨n1 + n2 + n3, hclear, Or.inr (Or.inl ⟨by omega, by rwa [← Nat.add_assoc], ?_, ?_⟩)⟩
    · intro hzero
      right
      omega
    · rw [hset, hrun3, hbits]

end Bits

section Agreement

variable {force : Bool} {start num : Nat} {bg bg' : BlockGroupInfo} {l l' : List Ext4Error}

-- reserve_blocks is what going bit by bit says.
structure Agrees (force : Bool) (start num : Nat) (bg : BlockGroupInfo) (l : List Ext4Error) :
    Prop where
  granted : num ≤ bg.freeBlocks → ClearIn bg.blockBitmap start num → ∃ bg',
    reserveBlocks force start num (bg, l) = .ok (0, (bg', l)) ∧
      (∀ k, bg'.blockBitmap.testBit k =
        (bg.blockBitmap.testBit k || decide (start ≤ k ∧ k < start + num))) ∧
      bg'.freeBlocks = bg.freeBlocks - num
  refused : ¬ (num ≤ bg.freeBlocks ∧ ClearIn bg.blockBitmap start num) → ∀ res bg' l',
    reserveBlocks force start num (bg, l) = .ok (res, (bg', l')) →
      res = -1 ∧ bg'.blockBitmap = bg.blockBitmap ∧ bg'.freeBlocks = bg.freeBlocks ∧
        bg'.firstFreeBlock = bg.firstFreeBlock
  returns : force = true → ∃ res bg' l', reserveBlocks force start num (bg, l) = .ok (res, (bg', l'))

def CollidesAtOnce (start num bitmap : Nat) : Prop :=
  bitmap.testBit start = true ∧
    (start % 8 = 0 → 8 ≤ num → ∀ k, start ≤ k → k < start + 8 → bitmap.testBit k = true)

theorem reserveBlocks_collision {bm : Nat} (hfree : num ≤ bg.freeBlocks)
    (hset : setBits start num bg.blockBitmap = (false, bm)) :
    reserveBlocks true start num (bg, l) =
        .ok (-1, ({ bg with blockBitmap := bm }, l ++ [.alreadyReserved])) ∧
      ∀ res, reserveBlocks false start num (bg, l) ≠ .ok res := by
  have hle : ¬ num > bg.freeBlocks := not_lt.mpr hfree
  constructor
  · simp only [reserveBlocks, Run.bind_run, Run.read_run, if_neg hle, hset, Run.write_run]
    rfl
  · intro res
    simp only [reserveBlocks, Run.bind_run, Run.read_run, if_neg hle, hset, Run.write_run]
    exact fun h => by cases h

theorem eq_of_or_spanMask {bitmap n : Nat} (h : bitmap ||| spanMask start n = bitmap) {k : Nat}
    (h1 : start ≤ k) (h2 : k < start + n) : bitmap.testBit k = true := by
  rw [← h, Nat.testBit_or, testBit_spanMask, decide_eq_true ⟨h1, h2⟩, Bool.or_true]

theorem or_spanMask_eq {bitmap n : Nat}
    (h : ∀ k, start ≤ k → k < start + n → bitmap.testBit k = true) :
    bitmap ||| spanMask start n = bitmap := by
  refine Nat.eq_of_testBit_eq fun k => ?_
  rw [Nat.testBit_or, testBit_spanMask]
  by_cases hin : start ≤ k ∧ k < start + n
  · rw [h k hin.1 hin.2, Bool.true_or]
  · rw [decide_eq_false hin, Bool.or_false]

theorem setBits_keeps_iff {bm bitmap : Nat} (hset : setBits start num bitmap = (false, bm)) :
    bm = bitmap ↔ CollidesAtOnce start num bitmap := by
  obtain ⟨n, hclear, ⟨-, hall⟩ | ⟨hn, hbit, hhead, hrun⟩ | ⟨hn, hmod, ⟨k, h1, h2, hk⟩, hrun⟩⟩ :=
    setBits_result start num bitmap
  · rw [hall] at hset
    cases hset
  · obtain rfl : bitmap ||| spanMask start n = bm := by
      rw [hrun] at hset
      exact congrArg Prod.snd hset
    constructor
    · intro hsame
      rcases Nat.eq_zero_or_pos n with rfl | hpos
      · refine ⟨hbit, fun hzero hlong => ?_⟩
        have := hhead rfl
        omega
      · have htrue := eq_of_or_spanMask hsame le_rfl (by omega)
        rw [hclear start le_rfl (by omega)] at htrue
        cases htrue
    · rintro ⟨hstart, -⟩
      rcases Nat.eq_zero_or_pos n with rfl | hpos
      · rw [spanMask_zero, Nat.or_zero]
      · rw [hclear start le_rfl (by omega)] at hstart
        cases hstart
  · obtain rfl : bitmap ||| spanMask start (n + 8) = bm := by
      rw [hrun] at hset
      exact congrArg Prod.snd hset
    have hzero : n = 0 ∨ bitmap.testBit start = false := by
      rcases Nat.eq_zero_or_pos n with hn | hpos
      · exact Or.inl hn
      · exact Or.inr (hclear start le_rfl (by omega))
    constructor
    · intro hsame
      have hall (k : Nat) (h1 : start ≤ k) (h2 : k < start + (n + 8)) := eq_of_or_spanMask hsame h1 h2
      exact ⟨hall start le_rfl (by omega), fun _ _ k h1 h2 => hall k h1 (by omega)⟩
    · rintro ⟨hstart, hbyte⟩
      obtain rfl : n = 0 := by simpa [hstart] using hzero
      exact or_spanMask_eq fun k h1 h2 => hbyte (by omega) (by omega) k h1 (by omega)

theorem clearIn_iff_setBits : ClearIn bg.blockBitmap start num ↔
    (setBits start num bg.blockBitmap).1 = true := by
  constructor
  · intro h
    rw [setBits_clear h]
  · intro h
    obtain ⟨n, hclear, ⟨rfl, -⟩ | ⟨-, -, -, hrun⟩ | ⟨-, -, -, hrun⟩⟩ :=
      setBits_result start num bg.blockBitmap
    · exact hclear
    · rw [hrun] at h
      cases h
    · rw [hrun] at h
      cases h

theorem reserveBlocks_agrees_iff (force : Bool) (start num : Nat) (bg : BlockGroupInfo)
    (l : List Ext4Error) : Agrees force start num bg l ↔
      force = false ∨ bg.freeBlocks < num ∨ ClearIn bg.blockBitmap start num ∨
        CollidesAtOnce start num bg.blockBitmap := by
  have hgranted (hfree : num ≤ bg.freeBlocks) (hclear : ClearIn bg.blockBitmap start num) :=
    reserveBlocks_run force l hfree hclear
  have hbits (k : Nat) : (bg.blockBitmap ||| spanMask start num).testBit k =
      (bg.blockBitmap.testBit k || decide (start ≤ k ∧ k < start + num)) := by
    rw [Nat.testBit_or, testBit_spanMask]
  rcases Nat.lt_or_ge bg.freeBlocks num with hfull | hfree
  · have hrun := @reserveBlocks_refused _ start _ force l hfull
    refine iff_of_true ⟨fun hle => by omega, fun _ res bg' l' h => ?_, fun _ => ⟨_, _, _, hrun⟩⟩
      (Or.inr (Or.inl hfull))
    rw [hrun] at h
    cases h
    exact ⟨rfl, rfl, rfl, rfl⟩
  · rcases hset : setBits start num bg.blockBitmap with ⟨_ | _, bm⟩
    · have hclear : ¬ ClearIn bg.blockBitmap start num := fun h => by
        rw [clearIn_iff_setBits, hset] at h
        cases h
      obtain ⟨hforced, hraised⟩ := reserveBlocks_collision (l := l) hfree hset
      cases force with
      | false =>
        refine iff_of_true ⟨fun _ h => absurd h hclear, fun _ res bg' l' h => ?_, ?_⟩ (Or.inl rfl)
        · exact absurd h (hraised _)
        · exact fun h => by cases h
      | true =>
        rw [← setBits_keeps_iff hset]
        constructor
        · intro h
          have hsame := (h.refused (fun hboth => hclear hboth.2) _ _ _ hforced).2.1
          exact Or.inr (Or.inr (Or.inr hsame))
        · rintro (hno | hfull | hclear' | hsame)
          · cases hno
          · omega
          · exact absurd hclear' hclear
          · refine ⟨fun _ h => absurd h hclear, fun _ res bg' l' h => ?_, fun _ => ⟨_, _, _, hforced⟩⟩
            rw [hforced] at h
            cases h
            exact ⟨rfl, hsame, rfl, rfl⟩
    · have hclear : ClearIn bg.blockBitmap start num := by
        rw [clearIn_iff_setBits, hset]
      refine iff_of_true ⟨fun _ _ => ⟨_, hgranted hfree hclear, hbits, rfl⟩, fun h => ?_, fun _ => ?_⟩
        (Or.inr (Or.inr (Or.inl hclear)))
      · exact absurd ⟨hfree, hclear⟩ h
      · exact ⟨_, _, _, hgranted hfree hclear⟩

theorem collision_leaves_bits : ¬ ∀ (start num : Nat) (bg : BlockGroupInfo) (l : List Ext4Error),
    Agrees true start num bg l := by
  intro h
  have hrefused := (h 0 2 { BlockGroupInfo.zero with blockBitmap := 2, freeBlocks := 7 } []).refused
    (fun hboth => absurd (hboth.2 1 (by decide) (by decide)) (by decide))
  have hsame := (hrefused (-1) { BlockGroupInfo.zero with blockBitmap := 3, freeBlocks := 7 }
    [.alreadyReserved] rfl).2.1
  cases hsame

end Agreement

end BlockGroupInfo

end MakeExt4fs

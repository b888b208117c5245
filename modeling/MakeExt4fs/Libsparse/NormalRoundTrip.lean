import MakeExt4fs.Libsparse.ReadNormal

namespace MakeExt4fs

open Interrupt Words
open Buffer (leBytes)

section Fills

variable {bs : Nat} {buf : List UInt8}

theorem getLE_digit (b : Buffer) (off : Nat) {n j : Nat} (hj : j < n) :
    b.getLE off n / 256 ^ j % 256 = b.get (off + j) := by
  induction n generalizing off j with
  | zero => exact absurd hj (Nat.not_lt_zero j)
  | succ n ih =>
    have hbyte := b.get_lt off
    cases j with
    | zero =>
      rw [Buffer.getLE, pow_zero, Nat.div_one, Nat.add_mul_mod_self_left, Nat.mod_eq_of_lt hbyte,
        Nat.add_zero]
    | succ j =>
      have hrest : (b.get off + 256 * b.getLE (off + 1) n) / 256 = b.getLE (off + 1) n := by omega
      rw [Buffer.getLE, pow_succ, Nat.mul_comm (256 ^ j), ← Nat.div_div_eq_div_mul, hrest,
        ih (off + 1) (by omega), Nat.add_assoc, Nat.add_comm 1]

theorem getD_leBytes_leValue (buf : List UInt8) (off : Nat) {j : Nat} (hj : j < 4) (hin : off + j < buf.length) :
    (leBytes 4 (leValue buf off 4)).getD j 0 = buf.getD (off + j) 0 := by
  apply UInt8.toNat_inj.mp
  rw [Buffer.getD_leBytes 4 _ j hj, leValue, getLE_digit _ off hj, Buffer.get, if_pos hin]

theorem pattern_of_sparseBlock (h4 : 4 ∣ bs) (hlen : buf.length = bs)
    (hsparse : sparseBlock bs buf = true) : pattern (leBytes 4 (leValue buf 0 4)) bs = buf := by
  have hword (k : Nat) (hk : k < bs / 4) : leValue buf 0 4 = leValue buf (4 * k) 4 := by
    cases k with
    | zero => rfl
    | succ k =>
      have hall := List.all_eq_true.mp hsparse k (List.mem_range.mpr (by omega))
      exact of_decide_eq_true hall
  apply List.ext_getElem
  · rw [length_pattern, hlen]
  · intro i hi hi'
    have hk : i / 4 < bs / 4 := by omega
    have hmod := Nat.mod_add_div i 4
    have hget := getD_leBytes_leValue buf (4 * (i / 4)) (Nat.mod_lt i (by decide))
      (by omega)
    rw [← hword _ hk, Nat.add_comm (4 * (i / 4)), hmod] at hget
    have hpat := @getD_pattern (leBytes 4 (leValue buf 0 4)) bs i (hlen ▸ hi')
    rw [hget] at hpat
    rw [List.getD_eq_getElem?_getD, List.getD_eq_getElem?_getD, List.getElem?_eq_getElem hi,
      List.getElem?_eq_getElem hi'] at hpat
    exact hpat

end Fills

section Chunks

variable {h : Host} {bs : Nat} {bb : BackedBlock} {l : List BackedBlock}

variable {file : List UInt8} {fd : Int} {m : Nat} {img : Image}

def Host.Reads (h : Host) (fd : Int) (file : List UInt8) : Prop :=
  ∀ i < file.length, h.fd fd i = file.getD i 0

theorem bytesFrom_eq (hfd : h.Reads fd file) {start n : Nat} (hn : start + n ≤ file.length) :
    bytesFrom (h.fd fd) start n = (file.drop start).take n := by
  apply List.ext_getElem
  · rw [bytesFrom, List.length_map, List.length_range, List.length_take, List.length_drop]
    omega
  · intro i hi hi'
    rw [bytesFrom, List.length_map, List.length_range] at hi
    simp only [bytesFrom, List.getElem_map, List.getElem_range, List.getElem_take,
      List.getElem_drop]
    rw [hfd _ (by omega), List.getD_eq_getElem?_getD, List.getElem?_eq_getElem (by omega)]
    rfl

theorem align32_self (hbs : 0 < bs) (hint : bs ≤ 2147483647) : align32 bs bs = bs := by
  rw [align32_eq, divRoundUp32_eq (by omega), divRoundUp_eq_of (n := 1) hbs (by omega) (by omega),
    Nat.one_mul]

theorem put_normalCall (hbs : 0 < bs) (hint : bs ≤ 2147483647) (hfd : h.Reads fd file)
    (h4 : 4 ∣ bs) (addr : Nat) (img : Image)
    (hlt : m * bs < file.length) :
    (chunkOf h ((normalCall file fd bs m).blockAt addr)).put false bs img =
      (img.write (bufAt file bs m)).skip
        (align32 (bufAt file bs m).length bs - (bufAt file bs m).length) := by
  have hlen := length_bufAt file bs m
  rw [normalCall, fillAt]
  by_cases hfill : (bufAt file bs m).length = bs ∧ sparseBlock bs (bufAt file bs m) = true
  · rw [if_pos hfill]
    have hpad : align32 bs bs - bs = 0 := by rw [align32_self hbs hint, Nat.sub_self]
    rw [hfill.1, hpad, Image.skip_zero]
    exact congrArg img.write (pattern_of_sparseBlock h4 hfill.1 hfill.2)
  · rw [if_neg hfill]
    have hbytes : bytesFrom (h.fd fd) (m * bs) (bufAt file bs m).length = bufAt file bs m := by
      rw [bytesFrom_eq hfd (by omega), bufAt]
      refine List.take_eq_take_iff.mpr ?_
      rw [List.length_take, List.length_drop]
      omega
    have hchunk : chunkOf h (AddCall.blockAt addr
        (.fd fd (m * bs : Nat) (bufAt file bs m).length (u32 m))) = .raw (bufAt file bs m) :=
      congrArg SparseChunk.raw hbytes
    rw [hchunk]
    rfl

theorem write_bufAt (img : Image) (m : Nat) :
    (img.write (file.take (m * bs))).write (bufAt file bs m) =
      img.write (file.take ((m + 1) * bs)) := by
  rw [Image.write_append, bufAt, Nat.succ_mul, List.take_add]

theorem blockAfter_normalCall (hbs : 0 < bs) (hint : bs ≤ 2147483647) (addr : Nat)
    (hlt : m * bs < file.length) :
    blockAfter bs ((normalCall file fd bs m).blockAt addr) = u32 (m + 1) := by
  have hlen := length_bufAt file bs m
  have hone : divRoundUp32 (bufAt file bs m).length bs = 1 := by
    rw [divRoundUp32_eq (by omega)]
    exact divRoundUp_eq_of hbs (by omega) (by omega)
  rw [blockAfter, AddCall.blockAt, block_normalCall]
  dsimp only
  rw [len_normalCall, hone]
  simp only [u32]
  omega

theorem foldl_normalCalls (hbs : 0 < bs) (hint : bs ≤ 2147483647) (hfd : h.Reads fd file)
    (h4 : 4 ∣ bs) (hm : m * bs ≤ file.length) (hword : m < 4294967296) :
    lastBlockFrom bs 0 (blocksOf ((List.range m).map (normalCall file fd bs))) = m ∧
      (chunksFrom h bs 0 (blocksOf ((List.range m).map (normalCall file fd bs)))).foldl
        (SparseChunk.put false bs) .empty = Image.empty.write (file.take (m * bs)) := by
  induction m with
  | zero =>
    rw [Nat.zero_mul, List.take_zero, Image.write_nil]
    exact ⟨rfl, rfl⟩
  | succ m ih =>
    rw [Nat.succ_mul] at hm
    obtain ⟨hlast, hfold⟩ := ih (by omega) (by omega)
    have hlt : m * bs < file.length := by omega
    have hfull : (bufAt file bs m).length = bs := by
      rw [length_bufAt]
      omega
    rw [List.range_succ, List.map_append, List.map_singleton, blocksOf_concat,
      lastBlockFrom_concat, chunksFrom_concat, hlast, blockAfter_normalCall hbs hint _ hlt,
      u32_of_lt hword]
    have hblock : ((normalCall file fd bs m).blockAt
        ((List.range m).map (normalCall file fd bs)).length).block ≤ m := by
      rw [AddCall.blockAt, block_normalCall, u32_of_lt (by omega)]
    rw [gapChunks_of_le hblock, List.nil_append, List.foldl_append, hfold, List.foldl_cons, List.foldl_nil,
      put_normalCall hbs hint hfd h4 _ _ hlt, hfull, align32_self hbs hint, Nat.sub_self, Image.skip_zero, write_bufAt]
    exact ⟨rfl, rfl⟩

end Chunks

section Shape

variable {h : Host} {file : List UInt8} {fd : Int} {bs m : Nat} {bbl : BackedBlockList}

def joinedBlock (file : List UInt8) (fd : Int) (bs m : Nat) : BackedBlock :=
  { (normalCall file fd bs m).blockAt m with
    len := u32 ((bufAt file bs m).length + (bufAt file bs (m + 1)).length) }

theorem dataBlocks_of_addAll (hbs : 0 < bs)
    (h : addAll (backedBlockListNew bs) (normalCalls file fd bs) = some bbl) :
    normalBlocks file bs = 0 ∧ bbl.dataBlocks = [] ∨
      (∃ m, normalBlocks file bs = m + 1 ∧
        ¬ (0 < m ∧ fillAt file bs (m - 1) = fillAt file bs m) ∧
        bbl.dataBlocks = blocksOf ((List.range m).map (normalCall file fd bs)) ++
          [(normalCall file fd bs m).blockAt m]) ∨
      ∃ m, normalBlocks file bs = m + 2 ∧ fillAt file bs m = fillAt file bs (m + 1) ∧
        bbl.dataBlocks = blocksOf ((List.range m).map (normalCall file fd bs)) ++
          [joinedBlock file fd bs m] := by
  have hn := (addAll_normalCalls_isSome_iff hbs).mp ⟨bbl, h⟩
  have hsorted := @sorted_normalCalls file fd bs hn.1
  have hqueued := queuedInOrder_of_addAll (hsorted.imp fun h => h.le) h
  generalize hcalls : normalCalls file fd bs = calls at hqueued
  cases hqueued with
  | apart _ happart =>
    subst hcalls
    cases hm : normalBlocks file bs with
    | zero =>
      refine .inl ⟨rfl, ?_⟩
      rw [queuedApart, normalCalls, hm]
      rfl
    | succ m =>
      refine .inr (.inl ⟨m, rfl, ?_, ?_⟩)
      · rintro ⟨hpos, heq⟩
        rw [normalCalls, hm, List.isChain_map, List.isChain_range] at happart
        refine happart (m - 1) (by omega) ((joins_normalCall hbs (by omega)).mpr ?_)
        rwa [Nat.sub_add_cancel hpos]
      · rw [queuedApart, normalCalls, hm, List.range_succ, List.map_append, List.map_singleton]
        dsimp only
        rw [blocksOf_concat, List.length_map, List.length_range]
  | @joined pre a b _ _ _ hjoins =>
    obtain ⟨m, hm⟩ : ∃ m, normalBlocks file bs = m + 2 := by
      have hlen := congrArg List.length hcalls
      rw [normalCalls, List.length_map, List.length_range, List.length_append, List.length_append]
        at hlen
      exact ⟨pre.length, hlen⟩
    rw [normalCalls, hm, List.range_succ, List.range_succ, List.map_append, List.map_append] at hcalls
    obtain ⟨hcalls, hb⟩ := List.append_inj' hcalls rfl
    obtain ⟨rfl, ha⟩ := List.append_inj' hcalls rfl
    obtain rfl := List.singleton_inj.mp ha
    obtain rfl := List.singleton_inj.mp hb
    refine .inr (.inr ⟨m, hm, (joins_normalCall hbs (by omega)).mp hjoins, ?_⟩)
    rw [queuedJoined, joinedBlock, len_normalCall, len_normalCall, List.length_map,
      List.length_range]

theorem mappable_normalCall (hlt : m * bs < file.length) (hbs : 0 < bs) (addr : Nat) :
    ((normalCall file fd bs m).blockAt addr).Mappable ↔
      (fillAt file bs m = none → (bufAt file bs m).length + m * bs % 4096 ≤ 2147483647) := by
  have hlen := length_bufAt file bs m
  have hmod : ((m * bs : Nat) % 4096 : Int).toNat = m * bs % 4096 := by omega
  rw [normalCall]
  cases fillAt file bs m with
  | none =>
    change 0 < (bufAt file bs m).length + ((m * bs : Nat) % 4096 : Int).toNat ∧
      (bufAt file bs m).length + ((m * bs : Nat) % 4096 : Int).toNat ≤ 2147483647 ↔ _
    rw [hmod, and_iff_right (by omega)]
    exact ⟨fun h _ => h, fun h => h rfl⟩
  | some val => exact iff_of_true trivial fun h => by cases h

theorem drop_eq_bufAt (hn : normalBlocks file bs = m + 1) (hbs : 0 < bs) :
    file.drop (m * bs) = bufAt file bs m := by
  have hle : file.length ≤ (m + 1) * bs := (divRoundUp_le_iff hbs).mp hn.le
  rw [Nat.succ_mul] at hle
  rw [bufAt, List.take_of_length_le]
  rw [List.length_drop]
  omega

theorem drop_eq_bufAt_two (hn : normalBlocks file bs = m + 2) (hbs : 0 < bs) :
    file.drop (m * bs) = bufAt file bs m ++ bufAt file bs (m + 1) := by
  rw [← drop_eq_bufAt hn hbs, bufAt, Nat.succ_mul, ← List.drop_drop, List.take_append_drop]

theorem put_joinedBlock (hbs : 0 < bs) (hint : bs ≤ 2147483647) (hfd : h.Reads fd file)
    (h4 : 4 ∣ bs) (hn : normalBlocks file bs = m + 2)
    (halike : fillAt file bs m = fillAt file bs (m + 1)) (img : Image) :
    ∃ k, (chunkOf h (joinedBlock file fd bs m)).put false bs img =
      (img.write (file.drop (m * bs))).skip k := by
  have hfull := length_bufAt_of_succ_lt hbs (show m + 1 < normalBlocks file bs by omega)
  have hrest := length_bufAt file bs (m + 1)
  have hsum : (file.drop (m * bs)).length =
      (bufAt file bs m).length + (bufAt file bs (m + 1)).length := by
    rw [drop_eq_bufAt_two hn hbs, List.length_append]
  rw [chunkOf, joinedBlock, u32_of_lt (by omega)]
  cases hfill : fillAt file bs m with
  | none =>
    rw [normalCall, hfill]
    have hdata : bytesFrom (h.fd fd) (m * bs)
        ((bufAt file bs m).length + (bufAt file bs (m + 1)).length) = file.drop (m * bs) := by
      rw [List.length_drop] at hsum
      rw [← hsum, bytesFrom_eq hfd (by omega), List.take_of_length_le]
      rw [List.length_drop]
    exact ⟨_, congrArg (fun data => (SparseChunk.raw data).put false bs img) hdata⟩
  | some val =>
    have hnext := halike.symm.trans hfill
    have hword : ∀ i, fillAt file bs i = some val → (bufAt file bs i).length = bs ∧
        pattern (leBytes 4 val) bs = bufAt file bs i := by
      intro i hi
      rw [fillAt] at hi
      split at hi
      · rename_i hsparse
        obtain rfl := Option.some.inj hi
        exact ⟨hsparse.1, pattern_of_sparseBlock h4 hsparse.1 hsparse.2⟩
      · cases hi
    obtain ⟨hlen, hpat⟩ := hword m hfill
    obtain ⟨hlen', hpat'⟩ := hword (m + 1) hnext
    refine ⟨0, ?_⟩
    rw [normalCall, hfill, hlen, hlen', drop_eq_bufAt_two hn hbs, ← hpat, ← hpat',
      pattern_append _ _ h4]
    rfl

theorem content_truncate_write (data : List UInt8) (n : Nat) :
    (((Image.empty.write data).skip n).truncate data.length).content = data := by
  rw [Image.content]
  apply List.ext_getElem
  · rw [List.length_map, List.length_range]
    rfl
  · intro i hi hi'
    rw [List.getElem_map, List.getElem_range]
    have hzero : (Image.empty.write data).bytes i = data.getD i 0 :=
      Image.bytes_write_of_mem (Nat.zero_le i) (by rw [Image.empty]; omega)
    change (if i < data.length then (Image.empty.write data).bytes i else 0) = _
    rw [if_pos hi', hzero, List.getD_eq_getElem?_getD, List.getElem?_eq_getElem hi']
    rfl

theorem content_of_addAll (hbs : 0 < bs) (hint : bs ≤ 2147483647) (hfd : h.Reads fd file)
    (h4 : 4 ∣ bs) (hadd : addAll (backedBlockListNew bs) (normalCalls file fd bs) = some bbl)
    (pad : Nat) :
    ((((chunksFrom h bs 0 bbl.dataBlocks).foldl (SparseChunk.put false bs) .empty).skip pad).truncate
      file.length).content = file := by
  have hn := ((addAll_normalCalls_isSome_iff hbs).mp ⟨bbl, hadd⟩).1
  have hfinal : ∃ k, (chunksFrom h bs 0 bbl.dataBlocks).foldl (SparseChunk.put false bs) .empty =
      (Image.empty.write file).skip k := by
    have hlast {m : Nat} (last : BackedBlock) (hblock : last.block = m) (hm : m < normalBlocks file bs)
        (hblocks : bbl.dataBlocks = blocksOf ((List.range m).map (normalCall file fd bs)) ++ [last])
        (hput : ∀ img, ∃ k, (chunkOf h last).put false bs img =
          (Image.write img (file.drop (m * bs))).skip k) :
        ∃ k, (chunksFrom h bs 0 bbl.dataBlocks).foldl (SparseChunk.put false bs) .empty =
          (Image.empty.write file).skip k := by
      have hle := (lt_divRoundUp_iff hbs).mp hm
      obtain ⟨hend, hfold⟩ := @foldl_normalCalls h bs file fd m hbs hint hfd h4 hle.le (by omega)
      obtain ⟨k, hput⟩ := hput (Image.empty.write (file.take (m * bs)))
      refine ⟨k, ?_⟩
      rw [hblocks, chunksFrom_concat, hend, gapChunks_of_le hblock.le, List.nil_append,
        List.foldl_append, hfold, List.foldl_cons, List.foldl_nil, hput, Image.write_append,
        List.take_append_drop]
    rcases dataBlocks_of_addAll hbs hadd with ⟨hzero, hblocks⟩ | ⟨m, hm, -, hblocks⟩ |
      ⟨m, hm, halike, hblocks⟩
    · have hempty : file = [] := List.length_eq_zero_iff.mp (by
        have := (divRoundUp_le_iff hbs).mp hzero.le
        omega)
      rw [hblocks, hempty]
      exact ⟨0, rfl⟩
    · refine hlast ((normalCall file fd bs m).blockAt m) ?_ (by omega) hblocks fun img => ?_
      · exact (block_normalCall file fd bs m).trans (u32_of_lt (by omega))
      · rw [drop_eq_bufAt hm hbs]
        exact ⟨_, put_normalCall hbs hint hfd h4 m img ((lt_divRoundUp_iff hbs).mp (by
          rw [← normalBlocks]; omega))⟩
    · refine hlast (joinedBlock file fd bs m) ?_ (by omega) hblocks fun img =>
        put_joinedBlock hbs hint hfd h4 hm halike img
      exact (block_normalCall file fd bs m).trans (u32_of_lt (by omega))
  obtain ⟨k, hfinal⟩ := hfinal
  rw [hfinal]
  exact content_truncate_write file (k + pad)

theorem room_iff (hbs : 0 < bs) (hn : normalBlocks file bs = m + 1) (hword : m < 4294967296) :
    ((u32 (m + 1) * bs : Nat) : Int) ≤ file.length ↔
      bs ∣ file.length ∨ m + 1 = 4294967296 := by
  have hlt : m * bs < file.length :=
    (lt_divRoundUp_iff hbs).mp (m.lt_succ_self.trans_eq hn.symm)
  have hle : file.length ≤ (m + 1) * bs := (divRoundUp_le_iff hbs).mp hn.le
  rcases Nat.lt_or_ge (m + 1) 4294967296 with hsmall | hwrap
  · rw [u32_of_lt hsmall, Nat.cast_le, or_iff_left hsmall.ne]
    constructor
    · intro hroom
      exact ⟨m + 1, by rw [Nat.mul_comm]; omega⟩
    · rintro ⟨k, hk⟩
      rw [hk, Nat.mul_comm bs] at hlt
      rw [hk, Nat.mul_comm bs]
      exact Nat.mul_le_mul_right bs (Nat.lt_of_mul_lt_mul_right hlt)
  · obtain rfl : m = 4294967295 := by omega
    refine iff_of_true ?_ (.inr rfl)
    rw [show u32 (4294967295 + 1) = 0 from rfl, Nat.zero_mul]
    exact Int.natCast_nonneg _

structure Rewritable (file : List UInt8) (bs : Nat) : Prop where
  blockSize : bs ≤ 2147483647
  blocks : normalBlocks file bs ≤ 4294967296
  unlike : Unlike file bs
  whole : bs ∣ file.length ∨ normalBlocks file bs = 4294967296
  mapped : ∀ i < normalBlocks file bs, fillAt file bs i = none →
    (bufAt file bs i).length + i * bs % 4096 ≤ 2147483647
  joined : ∀ i, i + 2 = normalBlocks file bs → fillAt file bs i = none →
    fillAt file bs (i + 1) = none → file.length - i * bs + i * bs % 4096 ≤ 2147483647

theorem mappable_blocksOf (hbs : 0 < bs) (hm : m ≤ normalBlocks file bs) :
    (∀ bb ∈ blocksOf ((List.range m).map (normalCall file fd bs)), bb.Mappable) ↔
      ∀ i < m, fillAt file bs i = none → (bufAt file bs i).length + i * bs % 4096 ≤ 2147483647 := by
  have hlt {i : Nat} (hi : i < m) : i * bs < file.length :=
    (lt_divRoundUp_iff hbs).mp (hi.trans_le hm)
  constructor
  · intro h i hi
    refine (@mappable_normalCall file fd bs i (hlt hi) hbs i).mp
      (h _ (mem_blocksOf.mpr ⟨i, ?_, ?_⟩))
    · rwa [List.length_map, List.length_range]
    · rw [List.getElem_map, List.getElem_range]
  · intro h bb hbb
    obtain ⟨i, hi, rfl⟩ := mem_blocksOf.mp hbb
    rw [List.length_map, List.length_range] at hi
    rw [List.getElem_map, List.getElem_range]
    exact (mappable_normalCall (hlt hi) hbs i).mpr (h i hi)

theorem len_joinedBlock (hbs : 0 < bs) (hint : bs ≤ 2147483647)
    (hm : normalBlocks file bs = m + 2) :
    (joinedBlock file fd bs m).len = file.length - m * bs := by
  have hsum := congrArg List.length (drop_eq_bufAt_two hm hbs)
  have hfull := length_bufAt file bs m
  have hrest := length_bufAt file bs (m + 1)
  rw [List.length_drop, List.length_append] at hsum
  rw [joinedBlock]
  dsimp only
  rw [u32_of_lt (by omega), hsum]

theorem mappable_joinedBlock (hbs : 0 < bs) (hint : bs ≤ 2147483647)
    (hm : normalBlocks file bs = m + 2) :
    (joinedBlock file fd bs m).Mappable ↔
      (fillAt file bs m = none → file.length - m * bs + m * bs % 4096 ≤ 2147483647) := by
  have hlt : (m + 1) * bs < file.length :=
    (lt_divRoundUp_iff hbs).mp ((m + 1).lt_succ_self.trans_eq hm.symm)
  have hmod : ((m * bs : Nat) % 4096 : Int).toNat = m * bs % 4096 := by omega
  have hlen := @len_joinedBlock file fd bs m hbs hint hm
  rw [Nat.succ_mul] at hlt
  have hbacking : (joinedBlock file fd bs m).backing =
      (normalCall file fd bs m).backing.map fun name => (m, name) := rfl
  rw [BackedBlock.Mappable, hbacking, hlen, normalCall]
  cases fillAt file bs m with
  | none =>
    change 0 < file.length - m * bs + ((m * bs : Nat) % 4096 : Int).toNat ∧
      file.length - m * bs + ((m * bs : Nat) % 4096 : Int).toNat ≤ 2147483647 ↔ _
    rw [hmod, and_iff_right (by omega)]
    exact ⟨fun h _ => h, fun h => h rfl⟩
  | some val => exact iff_of_true trivial fun h => by cases h

theorem room_joinedBlock (hbs : 0 < bs) (hint : bs ≤ 2147483647)
    (hm : normalBlocks file bs = m + 2) (hword : m + 2 ≤ 4294967296)
    (halike : fillAt file bs m = fillAt file bs (m + 1))
    (hmap : (joinedBlock file fd bs m).Mappable) :
    ((blockAfter bs (joinedBlock file fd bs m) * bs : Nat) : Int) ≤ file.length ↔
      bs ∣ file.length ∨ m + 2 = 4294967296 := by
  have hlt : (m + 1) * bs < file.length :=
    (lt_divRoundUp_iff hbs).mp ((m + 1).lt_succ_self.trans_eq hm.symm)
  have hle : file.length ≤ (m + 2) * bs := (divRoundUp_le_iff hbs).mp hm.le
  have hsucc : (m + 1) * bs = m * bs + bs := Nat.succ_mul m bs
  have hsucc' : (m + 2) * bs = m * bs + bs + bs := by rw [Nat.succ_mul, hsucc]
  have hblock : (joinedBlock file fd bs m).block = m :=
    (block_normalCall file fd bs m).trans (u32_of_lt (by omega))
  rw [blockAfter, hblock, len_joinedBlock hbs hint hm]
  rcases Nat.lt_or_ge (file.length - m * bs + bs - 1) 4294967296 with hsmall | hbig
  · rw [divRoundUp32_eq hsmall, divRoundUp_eq_of (n := 2) hbs (by omega) (by omega)]
    exact room_iff hbs hm (by omega)
  · obtain ⟨val, hfill⟩ : ∃ val, fillAt file bs m = some val := by
      cases hfill : fillAt file bs m with
      | some val => exact ⟨val, rfl⟩
      | none =>
        have := (mappable_joinedBlock hbs hint hm).mp hmap hfill
        omega
    have hwhole : bs ∣ file.length := by
      have hfull : (bufAt file bs (m + 1)).length = bs := by
        have hnext := halike.symm.trans hfill
        rw [fillAt] at hnext
        split at hnext
        · rename_i hsparse
          exact hsparse.1
        · cases hnext
      rw [length_bufAt, hsucc] at hfull
      exact ⟨m + 2, by rw [Nat.mul_comm]; omega⟩
    refine iff_of_true ?_ (.inl hwhole)
    have hzero : divRoundUp32 (file.length - m * bs) bs = 0 := by
      rw [divRoundUp32]
      refine Nat.div_eq_of_lt ?_
      simp only [u32]
      omega
    rw [hzero, Nat.add_zero, u32_of_lt (by omega), Nat.cast_le]
    omega

theorem finishes_concat (hbs : 0 < bs) {m : Nat} {last : BackedBlock}
    (hm : m < normalBlocks file bs) :
    Finishes ⟨bs, file.length, blocksOf ((List.range m).map (normalCall file fd bs)) ++ [last]⟩ ↔
      bs ≤ 2147483647 ∧
        ((∀ i < m, fillAt file bs i = none →
          (bufAt file bs i).length + i * bs % 4096 ≤ 2147483647) ∧ last.Mappable) ∧
        ((blockAfter bs last * bs : Nat) : Int) ≤ file.length := by
  rw [← @mappable_blocksOf file fd bs m hbs hm.le]
  constructor
  · rintro ⟨hint, hmap, hroom⟩
    dsimp only at hint hmap hroom
    rw [List.forall_mem_append, List.forall_mem_singleton] at hmap
    rw [lastBlockFrom_concat] at hroom
    exact ⟨hint, hmap, by push_cast; exact hroom⟩
  · rintro ⟨hint, hmap, hroom⟩
    refine ⟨hint, ?_, ?_⟩
    · rw [List.forall_mem_append, List.forall_mem_singleton]
      exact hmap
    · dsimp only
      rw [lastBlockFrom_concat]
      push_cast at hroom
      exact hroom

theorem finishes_iff_rewritable (hbs : 0 < bs)
    (hadd : addAll (backedBlockListNew bs) (normalCalls file fd bs) = some bbl) :
    Finishes ⟨bs, file.length, bbl.dataBlocks⟩ ↔ Rewritable file bs := by
  obtain ⟨hn, hunlike⟩ := (addAll_normalCalls_isSome_iff hbs).mp ⟨bbl, hadd⟩
  rcases dataBlocks_of_addAll hbs hadd with ⟨hzero, hblocks⟩ | ⟨m, hm, hapart, hblocks⟩ |
    ⟨m, hm, halike, hblocks⟩
  · have hempty : file.length = 0 := by
      have := (divRoundUp_le_iff hbs).mp hzero.le
      omega
    rw [hblocks, hempty]
    constructor
    · intro h
      refine ⟨h.blockSize, hn, hunlike, .inl (hempty ▸ Nat.dvd_zero bs), fun i hi => ?_,
        fun i hi => ?_⟩ <;> omega
    · intro h
      exact ⟨h.blockSize, by simp, by simp [lastBlockFrom]⟩
  · have hlt : m * bs < file.length := (lt_divRoundUp_iff hbs).mp (m.lt_succ_self.trans_eq hm.symm)
    rw [hblocks, finishes_concat hbs (by omega), mappable_normalCall hlt hbs]
    constructor
    · rintro ⟨hint, ⟨hmap, hlast⟩, hroom⟩
      rw [blockAfter_normalCall hbs hint _ hlt, room_iff hbs hm (by omega), ← hm] at hroom
      refine ⟨hint, hn, hunlike, hroom, fun i hi => ?_, fun i hi hnone hnone' => ?_⟩
      · rcases Nat.lt_or_ge i m with hlt | hge
        · exact hmap i hlt
        · obtain rfl : i = m := by omega
          exact hlast
      · obtain rfl : m = i + 1 := by omega
        exact absurd ⟨i.succ_pos, hnone.trans hnone'.symm⟩ hapart
    · intro h
      refine ⟨h.blockSize, ⟨fun i hi => h.mapped i (by omega), h.mapped m (by omega)⟩, ?_⟩
      rw [blockAfter_normalCall hbs h.blockSize _ hlt, room_iff hbs hm (by omega), ← hm]
      exact h.whole
  · rw [hblocks, finishes_concat hbs (by omega)]
    constructor
    · rintro ⟨hint, ⟨hmap, hlast⟩, hroom⟩
      rw [room_joinedBlock hbs hint hm (by omega) halike hlast, ← hm] at hroom
      rw [mappable_joinedBlock hbs hint hm] at hlast
      refine ⟨hint, hn, hunlike, hroom, fun i hi hnone => ?_, fun i hi hnone _ => ?_⟩
      · rcases Nat.lt_or_ge i m with hlt | hge
        · exact hmap i hlt hnone
        · have hnone' : fillAt file bs m = none := by
            rcases (show i = m ∨ i = m + 1 by omega) with rfl | rfl
            · exact hnone
            · exact halike.trans hnone
          have hsum := congrArg List.length (drop_eq_bufAt_two hm hbs)
          have hfull := length_bufAt_of_succ_lt hbs (show m + 1 < normalBlocks file bs by omega)
          have hrest := length_bufAt file bs (m + 1)
          have hend := hlast hnone'
          have hmod := Nat.mod_lt ((m + 1) * bs) (show 0 < 4096 by decide)
          rw [List.length_drop, List.length_append] at hsum
          rcases (show i = m ∨ i = m + 1 by omega) with rfl | rfl <;> omega
      · obtain rfl : i = m := by omega
        exact hlast hnone
    · intro h
      have hlast : (joinedBlock file fd bs m).Mappable :=
        (mappable_joinedBlock hbs h.blockSize hm).mpr fun hnone =>
          h.joined m hm.symm hnone (halike.symm.trans hnone)
      refine ⟨h.blockSize, ⟨fun i hi => h.mapped i (by omega), hlast⟩, ?_⟩
      rw [room_joinedBlock hbs h.blockSize hm (by omega) halike hlast, ← hm]
      exact h.whole

end Shape

-- What was read from a normal file is written as the file that it was.
def NormalRoundTrip (h : Host) (file : List UInt8) (fd : Int) (bs : Nat) (copybuf : List UInt8)
    (crc : Bool) : Prop :=
  ∃ r out, sparseFileReadNormal file fd bs file.length ⟨0, 0, copybuf, backedBlockListNew bs⟩ =
      (.ok (), r) ∧
    sparseFileWrite h ⟨bs, file.length, r.bbl.dataBlocks⟩
      (Out.start ⟨bs, file.length, r.bbl.dataBlocks⟩ false false crc) = (.ok 0, out) ∧
    out.image.content = file

section RoundTrip

variable {h : Host} {file : List UInt8} {fd : Int} {bs : Nat}

theorem block_lt_of_addAll {bbl : BackedBlockList} (hbs : 0 < bs)
    (hadd : addAll (backedBlockListNew bs) (normalCalls file fd bs) = some bbl) :
    ∀ bb ∈ bbl.dataBlocks, bb.block < 4294967296 := by
  have hlt {m : Nat} {bb : BackedBlock}
      (hbb : bb ∈ blocksOf ((List.range m).map (normalCall file fd bs))) :
      bb.block < 4294967296 := by
    obtain ⟨i, hi, rfl⟩ := mem_blocksOf.mp hbb
    rw [List.getElem_map]
    exact (block_normalCall file fd bs _).trans_lt (u32_lt _)
  have hlast (m addr : Nat) : ((normalCall file fd bs m).blockAt addr).block < 4294967296 :=
    (block_normalCall file fd bs m).trans_lt (u32_lt m)
  rcases dataBlocks_of_addAll hbs hadd with ⟨-, hblocks⟩ | ⟨m, -, -, hblocks⟩ |
    ⟨m, -, -, hblocks⟩ <;> rw [hblocks]
  · exact List.forall_mem_nil _
  · rw [List.forall_mem_append, List.forall_mem_singleton]
    exact ⟨fun bb => hlt, hlast m m⟩
  · rw [List.forall_mem_append, List.forall_mem_singleton]
    exact ⟨fun bb => hlt, hlast m m⟩

theorem normalRoundTrip_iff (hh : h.Reliable) (hbs : 0 < bs) (h4 : 4 ∣ bs)
    (hfd : h.Reads fd file) (copybuf : List UInt8) (crc : Bool) :
    NormalRoundTrip h file fd bs copybuf crc ↔ Rewritable file bs := by
  have hread := sparseFileReadNormal_ends file fd hbs copybuf
  constructor
  · rintro ⟨r, out, hr, hw, -⟩
    have hadd := hread.ok hr
    have hwrite := @sparseFileWrite_normal h crc hh ⟨bs, file.length, r.bbl.dataBlocks⟩ h4 hbs
      (block_lt_of_addAll hbs hadd)
    exact (finishes_iff_rewritable hbs hadd).mp ((hwrite.ok hw).1.mp rfl)
  · intro hrew
    obtain ⟨bbl, hbbl⟩ := (@addAll_normalCalls_isSome_iff file fd bs hbs).mpr
      ⟨hrew.blocks, hrew.unlike⟩
    rcases hr : sparseFileReadNormal file fd bs file.length
      ⟨0, 0, copybuf, backedBlockListNew bs⟩ with ⟨e | u, r⟩
    · have hnone := hread.stop hr
      rw [hbbl] at hnone
      cases hnone
    · have hadd := hread.ok hr
      have hfin := (finishes_iff_rewritable hbs hadd).mpr hrew
      have hwrite := @sparseFileWrite_normal h crc hh ⟨bs, file.length, r.bbl.dataBlocks⟩ h4 hbs
        (block_lt_of_addAll hbs hadd)
      rcases hw : sparseFileWrite h ⟨bs, file.length, r.bbl.dataBlocks⟩
        (Out.start ⟨bs, file.length, r.bbl.dataBlocks⟩ false false crc) with ⟨e | ret, out⟩
      · exact absurd hfin (hwrite.stop hw)
      · obtain ⟨hret, himage⟩ := hwrite.ok hw
        obtain rfl := hret.mpr hfin
        refine ⟨r, out, hr, hw, ?_⟩
        rw [himage rfl]
        exact content_of_addAll hbs hrew.blockSize hfd h4 hadd _

def quietHost (file : List UInt8) : Host where
  mem _ := 0
  file _ _ := 0
  fd _ i := file.getD i 0
  fault _ := none

def threeBlocks : List UInt8 :=
  [0, 0, 0, 0, 0, 0, 0, 0, 1, 2, 3, 4, 5, 6, 7, 8, 0, 0, 0, 0, 0, 0, 0, 0]

theorem rewritable_threeBlocks : Rewritable threeBlocks 8 where
  blockSize := by decide
  blocks := by decide
  unlike i hi := by
    obtain rfl : i = 0 := Nat.lt_one_iff.mp (Nat.lt_of_add_lt_add_right hi)
    decide
  whole := .inl (by decide)
  mapped := by decide
  joined i hi hnone hnone' := by
    obtain rfl : i = 1 := Nat.add_right_cancel hi
    revert hnone'
    decide

theorem normalRoundTrip_threeBlocks :
    NormalRoundTrip (quietHost threeBlocks) threeBlocks 3 8 [] false :=
  (normalRoundTrip_iff (fun _ => rfl) (by decide) (by decide) (fun _ _ => rfl) [] false).mpr
    rewritable_threeBlocks

-- A word and a byte: the last block is not there in full.
theorem wordAndByte_asserts : ¬ ∀ (h : Host) (file : List UInt8) (fd : Int) (bs : Nat)
    (copybuf : List UInt8) (crc : Bool), h.Reliable → 0 < bs → 4 ∣ bs → h.Reads fd file →
    NormalRoundTrip h file fd bs copybuf crc := by
  intro hall
  obtain ⟨r, out, hr, hw, -⟩ := hall (quietHost [1, 2, 3, 4, 5]) [1, 2, 3, 4, 5] 3 4 [] false
    (fun _ => rfl) (by decide) (by decide) fun _ _ => rfl
  obtain rfl : (sparseFileReadNormal [1, 2, 3, 4, 5] 3 4 5
    ⟨0, 0, [], backedBlockListNew 4⟩).2 = r := congrArg Prod.snd hr
  have hcrash := congrArg Prod.fst hw
  dsimp only at hcrash
  revert hcrash
  decide +kernel

end RoundTrip

end MakeExt4fs

import MakeExt4fs.Libsparse.CrcOff
import MakeExt4fs.Libsparse.Landings

namespace MakeExt4fs

open Interrupt Words
open Buffer (leBytes)

structure FillKept (bs : Nat) (img : Image) (bb : BackedBlock) (val : Nat) : Prop where
  filled : ∀ i < bb.len, img.bytes (bb.block * bs + i) = (leBytes 4 val).getD (i % 4) 0
  padded : ∀ i, bb.len ≤ i → i < divRoundUp bb.len bs * bs → img.bytes (bb.block * bs + i) = 0

def FillsKept (h : Host) (s : SparseFile) (sparse crc : Bool) (out : Out) : Prop :=
  ∀ pre bb post val, s.blocks = pre ++ bb :: post → bb.backing = .fill val →
    FillKept s.blockSize out.image bb val ∧
      ∀ mid c rest, post = mid ++ c :: rest → Lands h s sparse crc (pre ++ bb :: mid) c

-- A sparse chunk is padded with its own pattern, and one that is rounded past 32 bits is of no
-- blocks; a normal one is not padded at all.
def FillFits (sparse : Bool) (bs len val : Nat) (post : List BackedBlock) : Prop :=
  if sparse then
    if len + bs ≤ 4294967296 then val < 256 ^ (4 - (divRoundUp len bs * bs - len)) else val = 0
  else
    post = [] ∨ bs ∣ len ∧ len + bs ≤ 4294967296

section Words

variable {val m len n : Nat}

theorem byte_eq_zero_iff {j : Nat} (hj : j < 4) :
    (leBytes 4 val).getD j 0 = 0 ↔ val / 256 ^ j % 256 = 0 := by
  rw [← Buffer.getD_leBytes 4 val j hj]
  exact ⟨fun h => by rw [h]; rfl, fun h => UInt8.toNat_inj.mp h⟩

theorem lt_pow_iff (hval : val < 4294967296) (hm : m ≤ 4) :
    val < 256 ^ m ↔ ∀ j, m ≤ j → j < 4 → (leBytes 4 val).getD j 0 = 0 := by
  have hbytes : (∀ j, m ≤ j → j < 4 → (leBytes 4 val).getD j 0 = 0) ↔
      ∀ j, m ≤ j → j < 4 → val / 256 ^ j % 256 = 0 :=
    forall_congr' fun j => imp_congr_right fun _ => ⟨fun h hj => (byte_eq_zero_iff hj).mp (h hj),
      fun h hj => (byte_eq_zero_iff hj).mpr (h hj)⟩
  rw [hbytes]
  constructor
  · intro hlt j hmj _
    have hpow : 256 ^ m ≤ 256 ^ j := Nat.pow_le_pow_right (by decide) hmj
    rw [Nat.div_eq_of_lt (hlt.trans_le hpow)]
  · intro h
    have h0 := h 0
    have h1 := h 1
    have h2 := h 2
    have h3 := h 3
    norm_num at h0 h1 h2 h3
    interval_cases m <;> norm_num at h0 h1 h2 h3 ⊢ <;> omega

theorem pattern_tail_iff (hval : val < 4294967296) (hn : 4 ∣ n) (hle : len ≤ n) :
    (∀ i, len ≤ i → i < n → (leBytes 4 val).getD (i % 4) 0 = 0) ↔
      val < 256 ^ (4 - (n - len)) := by
  rw [lt_pow_iff hval (Nat.sub_le 4 _)]
  constructor
  · intro h j hj hlt
    have hmod : (n - 4 + j) % 4 = j := by omega
    have hbyte := h (n - 4 + j) (by omega) (by omega)
    rwa [hmod] at hbyte
  · intro h i hi hlt
    exact h (i % 4) (by omega) (Nat.mod_lt i (by decide))

theorem pattern_zero_iff (hval : val < 4294967296) (hlen : 4 ≤ len) :
    (∀ i < len, (leBytes 4 val).getD (i % 4) 0 = 0) ↔ val = 0 := by
  have hzero := @lt_pow_iff val 0 hval (Nat.zero_le 4)
  rw [pow_zero, Nat.lt_one_iff] at hzero
  rw [hzero]
  constructor
  · intro h j _ hj
    have hbyte := h j (by omega)
    rwa [Nat.mod_eq_of_lt hj] at hbyte
  · exact fun h i _ => h (i % 4) (Nat.zero_le _) (Nat.mod_lt i (by decide))

end Words

section Kept

variable {h : Host} {s : SparseFile} {sparse crc : Bool} {out : Out} {pre post : List BackedBlock}
  {bb : BackedBlock} {val : Nat}

theorem Fitting.upTo (hfit : Fitting s) (hblocks : s.blocks = pre ++ bb :: post) :
    ((pre ++ [bb]).Pairwise fun a b => a.block + divRoundUp a.len s.blockSize ≤ b.block) ∧
      ∀ b ∈ pre ++ [bb], b.block < 4294967296 := by
  have hsub : (pre ++ [bb]).Sublist s.blocks := by
    rw [hblocks, List.append_cons pre bb post]
    exact List.sublist_append_left _ _
  exact ⟨hfit.apart.sublist hsub, fun b hb => hfit.block b (hsub.subset hb)⟩

theorem Fitting.next (hfit : Fitting s) {c : BackedBlock} {rest : List BackedBlock}
    (hblocks : s.blocks = pre ++ bb :: c :: rest) :
    bb.block + divRoundUp bb.len s.blockSize ≤ c.block ∧ c.block < 4294967296 := by
  have hpair := hfit.apart
  rw [hblocks] at hpair
  refine ⟨?_, hfit.block c (hblocks ▸ by simp)⟩
  exact List.rel_of_pairwise_cons (List.pairwise_append.mp hpair).2.1 List.mem_cons_self

theorem bytes_fill (hfill : bb.backing = .fill val) {i : Nat}
    (hi : i < if sparse then align32 bb.len s.blockSize else bb.len) :
    ((chunksFrom h s.blockSize 0 (pre ++ bb :: post)).foldl (SparseChunk.put sparse s.blockSize)
      .empty).bytes ((imageBefore h sparse s.blockSize pre bb).pos + i) =
        (leBytes 4 val).getD (i % 4) 0 := by
  rw [foldl_chunksFrom_split, (extends_foldl _ _ _ _).bytes]
  · rw [chunkOf, hfill, SparseChunk.put, Image.bytes_write_of_mem (Nat.le_add_right _ _),
      Nat.add_sub_cancel_left, getD_pattern hi]
    rw [length_pattern]
    omega
  · rw [chunkOf, hfill]
    change _ < _ + (pattern _ _).length
    rw [length_pattern]
    omega

theorem pos_put_fill (hfill : bb.backing = .fill val) (img : Image) :
    ((chunkOf h bb).put sparse s.blockSize img).pos =
      img.pos + if sparse then align32 bb.len s.blockSize else bb.len := by
  rw [chunkOf, hfill]
  exact congrArg (img.pos + ·) (length_pattern _ _)

theorem align32_of_le {len bs : Nat} (h : len + bs ≤ 4294967296) :
    align32 len bs = divRoundUp len bs * bs := by
  rw [align32_eq, divRoundUp32_eq (by omega)]

theorem align32_of_wrap {len bs : Nat} (hlen : len < 4294967296) (hbs : bs < 4294967296)
    (hpos : 0 < bs) (h : 4294967296 < len + bs) : align32 len bs = 0 := by
  have hzero : divRoundUp32 len bs = 0 := by
    refine Nat.div_eq_of_lt ?_
    simp only [u32]
    omega
  rw [align32_eq, hzero, Nat.zero_mul]

theorem align32_eq_len_iff {len bs : Nat} (hlen : 0 < len) (hlt : len < 4294967296) (hpos : 0 < bs)
    (hbs : bs < 4294967296) : len = align32 len bs ↔ bs ∣ len ∧ len + bs ≤ 4294967296 := by
  constructor
  · intro heq
    have hfits : len + bs ≤ 4294967296 := by
      by_contra hwrap
      rw [align32_of_wrap hlt hbs hpos (by omega)] at heq
      omega
    rw [align32_eq] at heq
    exact ⟨heq ▸ Nat.dvd_mul_left bs _, hfits⟩
  · rintro ⟨⟨k, rfl⟩, hfits⟩
    rw [align32_of_le hfits, Nat.mul_comm bs, divRoundUp_mul_self k hpos]

theorem bytes_padding (hfit : Fitting s) (hblocks : s.blocks = pre ++ bb :: post)
    (hfill : bb.backing = .fill val)
    (hland : (imageBefore h sparse s.blockSize pre bb).pos = bb.block * s.blockSize)
    (hnext : ∀ c rest, post = c :: rest →
      (imageBefore h sparse s.blockSize (pre ++ [bb]) c).pos = c.block * s.blockSize)
    {i : Nat} (hlo : (if sparse then align32 bb.len s.blockSize else bb.len) ≤ i)
    (hhi : i < divRoundUp bb.len s.blockSize * s.blockSize) :
    ((chunksFrom h s.blockSize 0 s.blocks).foldl (SparseChunk.put sparse s.blockSize)
      .empty).bytes (bb.block * s.blockSize + i) = 0 := by
  rw [hblocks]
  refine bytes_behind h sparse s.blockSize pre bb post ?_ fun c rest hpost => ?_
  · rw [pos_put_fill hfill, hland]
    omega
  · have happart := (hfit.next (hpost ▸ hblocks)).1
    have hmul := Nat.mul_le_mul_right s.blockSize happart
    rw [Nat.add_mul] at hmul
    rw [hnext c rest hpost]
    omega

theorem fillKept_normal (hfit : Fitting s) (hw : WrittenAs h s false out)
    (hblocks : s.blocks = pre ++ bb :: post) (hfill : bb.backing = .fill val)
    (hland : (imageBefore h false s.blockSize pre bb).pos = bb.block * s.blockSize)
    (hnext : ∀ c rest, post = c :: rest →
      (imageBefore h false s.blockSize (pre ++ [bb]) c).pos = c.block * s.blockSize) :
    FillKept s.blockSize out.image bb val := by
  refine ⟨fun i hi => ?_, fun i hlo hhi => ?_⟩
  · have hinside := hfit.inside bb (hblocks ▸ by simp)
    have hlt : bb.block * s.blockSize + i < s.len.toNat := by
      have : ((bb.block * s.blockSize : Nat) : Int) + bb.len ≤ s.len := by exact_mod_cast hinside
      omega
    rw [hw.below _ fun _ => hlt, hblocks, ← hland]
    exact bytes_fill hfill hi
  · rcases Nat.lt_or_ge (bb.block * s.blockSize + i) s.len.toNat with hlt | hge
    · rw [hw.below _ fun _ => hlt]
      exact bytes_padding hfit hblocks hfill hland hnext hlo hhi
    · exact hw.behind _ rfl hge

theorem fillKept_sparse_iff (hfit : Fitting s) (hw : WrittenAs h s true out)
    (h4 : 4 ∣ s.blockSize) (hpos : 0 < s.blockSize) (hint : s.blockSize ≤ 2147483647)
    (hblocks : s.blocks = pre ++ bb :: post) (hfill : bb.backing = .fill val)
    (hland : (imageBefore h true s.blockSize pre bb).pos = bb.block * s.blockSize)
    (hnext : ∀ c rest, post = c :: rest →
      (imageBefore h true s.blockSize (pre ++ [bb]) c).pos = c.block * s.blockSize) :
    FillKept s.blockSize out.image bb val ↔ FillFits true s.blockSize bb.len val post := by
  have hbb : bb ∈ s.blocks := hblocks ▸ by simp
  have hval := hfit.fill bb hbb val hfill
  have hround := le_divRoundUp_mul bb.len hpos
  have hbytes {i : Nat} (hi : i < align32 bb.len s.blockSize) :
      out.image.bytes (bb.block * s.blockSize + i) = (leBytes 4 val).getD (i % 4) 0 := by
    rw [hw.below _ (fun h => absurd h (by decide)), hblocks, ← hland]
    refine bytes_fill hfill ?_
    exact hi
  rw [FillFits, if_pos rfl]
  rcases Nat.lt_or_ge 4294967296 (bb.len + s.blockSize) with hwrap | hfits
  · have hzero := align32_of_wrap (hfit.len bb hbb) (by omega) hpos hwrap
    have hnone {i : Nat} (hi : i < divRoundUp bb.len s.blockSize * s.blockSize) :
        out.image.bytes (bb.block * s.blockSize + i) = 0 := by
      rw [hw.below _ (fun h => absurd h (by decide))]
      refine bytes_padding hfit hblocks hfill hland hnext ?_ hi
      rw [if_pos rfl, hzero]
      exact Nat.zero_le i
    rw [if_neg (not_le.mpr hwrap), ← pattern_zero_iff hval (show 4 ≤ bb.len by omega)]
    constructor
    · intro hkept i hi
      rw [← hkept.filled i hi]
      exact hnone (by omega)
    · exact fun hpat => ⟨fun i hi => by rw [hpat i hi, hnone (by omega)], fun i _ hi => hnone hi⟩
  · rw [align32_of_le hfits] at hbytes
    rw [if_pos hfits, ← pattern_tail_iff hval (h4.mul_left _) hround]
    constructor
    · intro hkept i hlo hhi
      rw [← hbytes hhi]
      exact hkept.padded i hlo hhi
    · intro hpat
      refine ⟨fun i hi => hbytes (by omega), fun i hlo hhi => ?_⟩
      rw [hbytes hhi]
      exact hpat i hlo hhi

theorem lands_of_fillsKept (hh : h.Reliable) (h4 : 4 ∣ s.blockSize) (hfit : Fitting s)
    (hrun : sparseFileWrite h s (Out.start s false sparse crc) = (.ok 0, out))
    (hkept : FillsKept h s sparse crc out) (hblocks : s.blocks = pre ++ bb :: post) :
    (imageBefore h sparse s.blockSize pre bb).pos = bb.block * s.blockSize := by
  have hw := sparseFileWrite_writtenAs hh h4 hfit hrun
  by_cases hfills : ∃ f ∈ pre, ∃ val, f.backing = .fill val
  · obtain ⟨f, hf, val, hval⟩ := hfills
    obtain ⟨before, mid, rfl⟩ := List.append_of_mem hf
    refine (lands_iff hh h4 hfit hrun hblocks).mp ?_
    rw [List.append_assoc, List.cons_append] at hblocks
    exact (hkept before f (mid ++ bb :: post) val hblocks hval).2 mid bb post rfl
  · obtain ⟨happart, hblock⟩ := hfit.upTo hblocks
    refine pos_imageBefore_of_takes h sparse s.blockSize happart hblock fun a ha => ?_
    refine hw.takes a (hblocks ▸ List.mem_append_left _ ha) (.inl fun val hval => ?_)
    exact hfills ⟨a, ha, val, hval⟩

theorem lands_of_fillFits (hh : h.Reliable) (h4 : 4 ∣ s.blockSize) (hfit : Fitting s)
    (hrun : sparseFileWrite h s (Out.start s false sparse crc) = (.ok 0, out))
    (hfits : ∀ pre bb post val, s.blocks = pre ++ bb :: post → bb.backing = .fill val →
      FillFits sparse s.blockSize bb.len val post)
    (hblocks : s.blocks = pre ++ bb :: post) :
    (imageBefore h sparse s.blockSize pre bb).pos = bb.block * s.blockSize := by
  have hw := sparseFileWrite_writtenAs hh h4 hfit hrun
  obtain ⟨hpos, out0, -, -, hopen, -⟩ := sparseFileWrite_parts hrun
  have hint := ((outputFileOpenFd_image hh s _).ok hopen rfl).1
  obtain ⟨happart, hblock⟩ := hfit.upTo hblocks
  refine pos_imageBefore_of_takes h sparse s.blockSize happart hblock fun a ha => ?_
  have hmem : a ∈ s.blocks := hblocks ▸ List.mem_append_left _ ha
  by_cases hfill : ∃ val, a.backing = .fill val
  · obtain ⟨val, hval⟩ := hfill
    cases sparse with
    | true => exact takesBlocks_fill hval
    | false =>
      obtain ⟨before, mid, rfl⟩ := List.append_of_mem ha
      rw [List.append_assoc, List.cons_append] at hblocks
      have hfull := hfits before a (mid ++ bb :: post) val hblocks hval
      rw [FillFits, if_neg Bool.false_ne_true] at hfull
      have hfull := hfull.resolve_left (by simp)
      intro img
      rw [pos_put_fill hval, if_neg Bool.false_ne_true]
      congr 1
      exact (align32_eq_len_iff (hfit.pos a hmem) (hfit.len a hmem) hpos (by omega)).mpr hfull
  · exact hw.takes a hmem (.inl fun val hval => hfill ⟨val, hval⟩)

theorem fillsKept_iff (hh : h.Reliable) (h4 : 4 ∣ s.blockSize) (hfit : Fitting s)
    (hrun : sparseFileWrite h s (Out.start s false sparse crc) = (.ok 0, out)) :
    FillsKept h s sparse crc out ↔ ∀ pre bb post val, s.blocks = pre ++ bb :: post →
      bb.backing = .fill val → FillFits sparse s.blockSize bb.len val post := by
  have hw := sparseFileWrite_writtenAs hh h4 hfit hrun
  obtain ⟨hpos, out0, -, -, hopen, -⟩ := sparseFileWrite_parts hrun
  have hint := ((outputFileOpenFd_image hh s _).ok hopen rfl).1
  constructor
  · intro hkept pre bb post val hblocks hfill
    have hland := lands_of_fillsKept hh h4 hfit hrun hkept hblocks
    have hnext : ∀ c rest, post = c :: rest →
        (imageBefore h sparse s.blockSize (pre ++ [bb]) c).pos = c.block * s.blockSize := by
      rintro c rest rfl
      rw [List.append_cons pre bb (c :: rest)] at hblocks
      exact lands_of_fillsKept hh h4 hfit hrun hkept hblocks
    cases sparse with
    | true =>
      exact (fillKept_sparse_iff hfit hw h4 hpos hint hblocks hfill hland hnext).mp
        (hkept pre bb post val hblocks hfill).1
    | false =>
      rw [FillFits, if_neg Bool.false_ne_true]
      cases post with
      | nil => exact .inl rfl
      | cons c rest =>
        obtain ⟨happart, hblock⟩ := hfit.next hblocks
        have hbb : bb ∈ s.blocks := hblocks ▸ by simp
        have htakes := (pos_imageBefore_concat happart hblock hland).mp (hnext c rest rfl)
        rw [pos_put_fill hfill, if_neg Bool.false_ne_true] at htakes
        exact .inr ((align32_eq_len_iff (hfit.pos bb hbb) (hfit.len bb hbb) hpos (by omega)).mp
          (Nat.add_left_cancel htakes))
  · intro hfits pre bb post val hblocks hfill
    have hland := lands_of_fillFits hh h4 hfit hrun hfits hblocks
    have hnext : ∀ c rest, post = c :: rest →
        (imageBefore h sparse s.blockSize (pre ++ [bb]) c).pos = c.block * s.blockSize := by
      rintro c rest rfl
      rw [List.append_cons pre bb (c :: rest)] at hblocks
      exact lands_of_fillFits hh h4 hfit hrun hfits hblocks
    refine ⟨?_, ?_⟩
    · cases sparse with
      | true =>
        exact (fillKept_sparse_iff hfit hw h4 hpos hint hblocks hfill hland hnext).mpr
          (hfits pre bb post val hblocks hfill)
      | false => exact fillKept_normal hfit hw hblocks hfill hland hnext
    · rintro mid c rest rfl
      have hmid : s.blocks = (pre ++ bb :: mid) ++ c :: rest := by
        rw [hblocks, List.append_assoc, List.cons_append]
      exact (lands_iff hh h4 hfit hrun hmid).mpr (lands_of_fillFits hh h4 hfit hrun hfits hmid)

end Kept

def paddedFill : SparseFile := ⟨8, 16, [⟨0, 0, 6, .fill 1⟩, ⟨1, 1, 8, .fill 2⟩]⟩

theorem fitting_paddedFill : Fitting paddedFill where
  apart := by decide
  pos := by decide
  len := by decide
  block := by decide
  fill := by
    intro bb hbb val hval
    rcases List.mem_cons.mp hbb with rfl | hbb
    · cases hval
      decide
    · obtain rfl := List.mem_singleton.mp hbb
      cases hval
      decide
  inside := by decide

theorem fillsKept_paddedFill : FillsKept calmHost paddedFill true false
    (sparseFileWrite calmHost paddedFill (Out.start paddedFill false true false)).2 := by
  refine (fillsKept_iff (fun _ => rfl) (by decide) fitting_paddedFill
    (Prod.ext (by decide +kernel) rfl)).mpr ?_
  intro pre bb post val hblocks hval
  have hbb : bb ∈ paddedFill.blocks := hblocks ▸ by simp
  rcases List.mem_cons.mp hbb with rfl | hbb
  · cases hval
    exact (show 6 + 8 ≤ 4294967296 ∧ 1 < 256 ^ (4 - (divRoundUp 6 8 * 8 - 6)) by decide).2
  · obtain rfl := List.mem_singleton.mp hbb
    cases hval
    exact (show 8 + 8 ≤ 4294967296 ∧ 2 < 256 ^ (4 - (divRoundUp 8 8 * 8 - 8)) by decide).2

def halfBlock : SparseFile := ⟨8, 16, [⟨0, 0, 4, .fill 1⟩, ⟨1, 1, 8, .fill 2⟩]⟩

theorem fitting_halfBlock : Fitting halfBlock where
  apart := by decide
  pos := by decide
  len := by decide
  block := by decide
  fill := by
    intro bb hbb val hval
    rcases List.mem_cons.mp hbb with rfl | hbb
    · cases hval
      decide
    · obtain rfl := List.mem_singleton.mp hbb
      cases hval
      decide
  inside := by decide

theorem halfBlock_moves : ¬ ∀ (h : Host) (s : SparseFile) (sparse crc : Bool) (out : Out),
    h.Reliable → 4 ∣ s.blockSize → Fitting s →
    sparseFileWrite h s (Out.start s false sparse crc) = (.ok 0, out) →
    FillsKept h s sparse crc out := by
  intro hall
  have hkept := hall calmHost halfBlock false false _ (fun _ => rfl) (by decide) fitting_halfBlock
    (Prod.ext (by decide +kernel) rfl)
  obtain ⟨out, hup, hland⟩ := (hkept [] _ _ 1 rfl rfl).2 [] _ _ rfl
  obtain rfl : (writeUpTo calmHost halfBlock [⟨0, 0, 4, .fill 1⟩] ⟨1, 1, 8, .fill 2⟩
    (Out.start halfBlock false false false)).2 = out := congrArg Prod.snd hup
  revert hland
  decide +kernel

end MakeExt4fs

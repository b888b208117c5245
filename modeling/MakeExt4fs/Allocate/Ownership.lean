import MakeExt4fs.Allocate.Blocks
import MakeExt4fs.Lib.Spans

namespace MakeExt4fs

open ErrorLog Words

structure Layout where
  groups : Nat
  bpg : Nat
  firstDataBlock : Nat
  lenBlocks : Nat
  first : Nat → Nat
  header : Nat → Nat
  limit : Nat → Nat
  bpg_lt : bpg < 4294967296
  word : ∀ i < groups, first i + limit i ≤ 4294967296
  inside : ∀ i < groups, firstDataBlock ≤ first i ∧ first i + limit i ≤ lenBlocks
  header_le : ∀ i < groups, header i ≤ limit i
  apart : ∀ i j, i < j → j < groups → first i + limit i ≤ first j

structure Layout.Group (L : Layout) (i : Nat) (bg : BlockGroupInfo) : Prop where
  first : bg.firstBlock = L.first i
  header : bg.headerBlocks = L.header i
  sound : bg.Sound L.bpg (L.header i) (L.limit i)

structure Layout.Keeps (L : Layout) (aux : FsAuxInfo) : Prop where
  groups : aux.groups = L.groups
  firstDataBlock : aux.firstDataBlock = L.firstDataBlock
  lenBlocks : aux.lenBlocks = L.lenBlocks
  length : aux.bgs.length = L.groups
  group : ∀ {i bg}, aux.bgs[i]? = some bg → L.Group i bg

def Piece.span (p : Piece) : Span := ⟨p.block, p.len⟩

def Layout.top (L : Layout) (i : Nat) (bg : BlockGroupInfo) : Nat :=
  L.first i + min bg.firstFreeBlock (L.limit i)

structure Layout.Held (L : Layout) (bg : BlockGroupInfo) (p : Piece) : Prop where
  pos : 0 < p.len
  start : L.first p.bg + L.header p.bg ≤ p.block
  stop : p.block + p.len ≤ L.top p.bg bg

-- The allocator's account and the pieces it has given away agree.
structure Layout.Owns (L : Layout) (aux : FsAuxInfo) (ps : List Piece) : Prop where
  keeps : L.Keeps aux
  held : ∀ p ∈ ps, ∃ bg, aux.bgs[p.bg]? = some bg ∧ L.Held bg p
  apart : ps.Pairwise fun p q => p.span.Apart q.span

def BlockGroupInfo.give (bg : BlockGroupInfo) (n : Nat) : BlockGroupInfo :=
  { bg.take n with dataBlocksUsed := bg.dataBlocksUsed + n }

namespace BlockGroupInfo

variable {bg : BlockGroupInfo} {bpg hdr lim : Nat}

@[simp] theorem give_frame (n : Nat) : (bg.give n).frame = bg.frame := rfl

@[simp] theorem give_firstBlock (n : Nat) : (bg.give n).firstBlock = bg.firstBlock := rfl

@[simp] theorem give_headerBlocks (n : Nat) : (bg.give n).headerBlocks = bg.headerBlocks := rfl

@[simp] theorem give_freeBlocks (n : Nat) : (bg.give n).freeBlocks = bg.freeBlocks - n := rfl

@[simp] theorem give_firstFreeBlock (n : Nat) :
    (bg.give n).firstFreeBlock = bg.firstFreeBlock + n := rfl

@[simp] theorem releaseBlocks_firstBlock (n : Nat) :
    (bg.releaseBlocks n).firstBlock = bg.firstBlock := rfl

@[simp] theorem releaseBlocks_headerBlocks (n : Nat) :
    (bg.releaseBlocks n).headerBlocks = bg.headerBlocks := rfl

theorem Sound.give (h : bg.Sound bpg hdr lim) {n : Nat} (hn : n ≤ bg.freeBlocks) :
    (bg.give n).Sound bpg hdr lim :=
  ⟨(h.take hn).bits, (h.take hn).free, (h.take hn).hdr_le, (h.take hn).lim_le, (h.take hn).first_le⟩

theorem Sound.below (h : bg.Sound bpg hdr lim) (hpos : 0 < bg.freeBlocks) :
    bg.firstFreeBlock < lim := by
  have := h.free
  omega

end BlockGroupInfo

section Keeps

variable {L : Layout} {aux : FsAuxInfo} {i : Nat} {bg : BlockGroupInfo}

theorem Layout.Keeps.lt (h : L.Keeps aux) (hbg : aux.bgs[i]? = some bg) : i < L.groups := by
  rw [← h.length]
  exact (List.getElem?_eq_some_iff.mp hbg).1

theorem FsAuxInfo.setBg_self (aux : FsAuxInfo) (new : BlockGroupInfo)
    (hbg : aux.bgs[i]? = some bg) : (aux.setBg i new).bgs[i]? = some new :=
  List.getElem?_set_self (List.getElem?_eq_some_iff.mp hbg).1

theorem FsAuxInfo.setBg_ne (aux : FsAuxInfo) {j : Nat} (new : BlockGroupInfo) (h : j ≠ i) :
    (aux.setBg i new).bgs[j]? = aux.bgs[j]? := List.getElem?_set_ne (Ne.symm h)

theorem Layout.Keeps.setBg (h : L.Keeps aux) {new : BlockGroupInfo} (hnew : L.Group i new) :
    L.Keeps (aux.setBg i new) := by
  refine ⟨h.groups, h.firstDataBlock, h.lenBlocks, by simpa using h.length, ?_⟩
  intro j b hb
  by_cases hj : j = i
  · subst hj
    rw [FsAuxInfo.setBg_bgs, List.getElem?_set_self'] at hb
    obtain ⟨-, -, rfl⟩ := Option.map_eq_some_iff.mp hb
    exact hnew
  · rw [aux.setBg_ne new hj] at hb
    exact h.group hb

theorem Layout.Group.give (h : L.Group i bg) {n : Nat} (hn : n ≤ bg.freeBlocks) :
    L.Group i (bg.give n) := ⟨h.first, h.header, h.sound.give hn⟩

theorem Layout.Keeps.block_eq (h : L.Keeps aux) (hbg : aux.bgs[i]? = some bg)
    (hpos : 0 < bg.freeBlocks) :
    u32 (bg.firstBlock + bg.firstFreeBlock) = L.first i + bg.firstFreeBlock := by
  have hgroup := h.group hbg
  have hword := L.word i (h.lt hbg)
  have hbelow := hgroup.sound.below hpos
  rw [hgroup.first, u32_of_lt (by omega)]

theorem Layout.Keeps.fromGroup_run (h : L.Keeps aux) (hbg : aux.bgs[i]? = some bg) (force : Bool)
    (l : List Ext4Error) {n : Nat} (hpos : 0 < n) (hn : n ≤ bg.freeBlocks) :
    ext4AllocateBlocksFromBlockGroup force n i (aux, l) =
      .ok (L.first i + bg.firstFreeBlock, (aux.setBg i (bg.give n), l)) := by
  have hle : ¬ bg.freeBlocks < n := by omega
  have hneg : ¬ (0 : Int) < 0 := by decide
  rw [← h.block_eq hbg (by omega)]
  simp only [ext4AllocateBlocksFromBlockGroup, onGroup, Run.zoom, hbg, Run.bind_run, Run.read_run,
    if_neg hle, (h.group hbg).sound.reserve force l hn, if_neg hneg, Run.update_run, Run.pure_run]
  rfl

theorem Layout.Keeps.fromGroup_full (hbg : aux.bgs[i]? = some bg) (force : Bool)
    (l : List Ext4Error) {n : Nat} (hn : bg.freeBlocks < n) :
    ext4AllocateBlocksFromBlockGroup force n i (aux, l) = .ok (ext4AllocateFailed, (aux, l)) := by
  have hset : aux.setBg i bg = aux := by
    obtain ⟨hi, rfl⟩ := List.getElem?_eq_some_iff.mp hbg
    simp [FsAuxInfo.setBg]
  simp only [ext4AllocateBlocksFromBlockGroup, onGroup, Run.zoom, hbg, Run.bind_run, Run.read_run,
    if_pos hn, Run.pure_run, hset]

end Keeps

namespace Layout.Owns

variable {L : Layout} {aux : FsAuxInfo} {ps qs : List Piece} {i n : Nat} {bg : BlockGroupInfo}

theorem subperm (h : L.Owns aux ps) (hqs : List.Subperm qs ps) : L.Owns aux qs := by
  refine ⟨h.keeps, fun p hp => h.held p (hqs.subset hp), ?_⟩
  obtain ⟨rs, hperm, hsub⟩ := hqs
  exact (h.apart.sublist hsub).perm hperm fun hab => hab.symm

theorem perm (h : L.Owns aux ps) (hqs : ps.Perm qs) : L.Owns aux qs := h.subperm hqs.symm.subperm

theorem apart_of_ne {p q : Piece} {bp bq : BlockGroupInfo} (hk : L.Keeps aux) (hne : p.bg ≠ q.bg)
    (hp : L.Held bp p) (hq : L.Held bq q) (hbp : aux.bgs[p.bg]? = some bp)
    (hbq : aux.bgs[q.bg]? = some bq) : p.span.Apart q.span := by
  have hps := hp.stop
  have hqs := hq.stop
  have hpb := hp.start
  have hqb := hq.start
  simp only [Layout.top] at hps hqs
  rcases Nat.lt_or_gt_of_ne hne with hlt | hgt
  · have hap := L.apart p.bg q.bg hlt (hk.lt hbq)
    exact Span.apart_of_le (by simp only [Piece.span]; omega)
  · have hap := L.apart q.bg p.bg hgt (hk.lt hbp)
    exact (Span.apart_of_le (by simp only [Piece.span]; omega)).symm

theorem draw (h : L.Owns aux ps) (hbg : aux.bgs[i]? = some bg) (hpos : 0 < n)
    (hn : n ≤ bg.freeBlocks) :
    L.Owns (aux.setBg i (bg.give n)) (⟨L.first i + bg.firstFreeBlock, n, i⟩ :: ps) := by
  have hgroup := h.keeps.group hbg
  have hbelow := hgroup.sound.below (by omega)
  have hfree := hgroup.sound.free
  have hhdr := hgroup.sound.hdr_le
  have hkeeps := h.keeps.setBg (hgroup.give hn)
  have hself := aux.setBg_self (bg.give n) hbg
  have hnew : L.Held (bg.give n) ⟨L.first i + bg.firstFreeBlock, n, i⟩ :=
    ⟨hpos, by simpa using hhdr, by simp only [Layout.top, BlockGroupInfo.give_firstFreeBlock]; omega⟩
  have hold : ∀ p ∈ ps, ∃ b, (aux.setBg i (bg.give n)).bgs[p.bg]? = some b ∧ L.Held b p := by
    intro p hp
    obtain ⟨b, hb, hheld⟩ := h.held p hp
    by_cases hi : p.bg = i
    · obtain rfl : b = bg := Option.some.inj (by rw [← hb, hi, hbg])
      refine ⟨b.give n, by rw [hi]; exact hself, hheld.pos, hheld.start, hheld.stop.trans ?_⟩
      simp only [Layout.top, BlockGroupInfo.give_firstFreeBlock]
      omega
    · exact ⟨b, by rw [aux.setBg_ne _ hi]; exact hb, hheld⟩
  refine ⟨hkeeps, ?_, List.Pairwise.cons ?_ h.apart⟩
  · intro p hp
    rcases List.mem_cons.mp hp with rfl | hp
    · exact ⟨_, hself, hnew⟩
    · exact hold p hp
  · intro p hp
    by_cases hi : p.bg = i
    · obtain ⟨b, hb, hheld⟩ := h.held p hp
      obtain rfl : b = bg := Option.some.inj (by rw [← hb, hi, hbg])
      have hstop := hheld.stop
      simp only [Layout.top, hi] at hstop
      exact (Span.apart_of_le (by simp only [Piece.span]; omega)).symm
    · obtain ⟨b, hb, hheld⟩ := hold p hp
      exact apart_of_ne hkeeps (fun he => hi he.symm) hnew hheld hself hb

theorem giveBack {p : Piece} (h : L.Owns aux (p :: ps)) (hbg : aux.bgs[p.bg]? = some bg)
    (htop : p.block + p.len = L.first p.bg + bg.firstFreeBlock) (hn : n ≤ p.len) :
    L.Owns (aux.setBg p.bg (bg.releaseBlocks n))
      (if n < p.len then { p with len := p.len - n } :: ps else ps) := by
  obtain ⟨b, hb, hheld⟩ := h.held p (by simp)
  obtain rfl : b = bg := Option.some.inj (by rw [← hb, hbg])
  have hgroup := h.keeps.group hbg
  have hstart := hheld.start
  have hstop := hheld.stop
  have hpos := hheld.pos
  simp only [Layout.top] at hstop
  obtain ⟨hsound, hfirst⟩ := hgroup.sound.release (n := n) L.bpg_lt (by omega) (by omega)
  have hkeeps : L.Keeps (aux.setBg p.bg (b.releaseBlocks n)) :=
    h.keeps.setBg ⟨hgroup.first, hgroup.header, hsound⟩
  have hself := aux.setBg_self (b.releaseBlocks n) hbg
  have hap := List.pairwise_cons.mp h.apart
  have hrest : ∀ q ∈ ps, ∃ c, (aux.setBg p.bg (b.releaseBlocks n)).bgs[q.bg]? = some c ∧
      L.Held c q := by
    intro q hq
    obtain ⟨c, hc, hcq⟩ := h.held q (by simp [hq])
    by_cases hi : q.bg = p.bg
    · obtain rfl : c = b := Option.some.inj (by rw [← hc, hi, hbg])
      refine ⟨c.releaseBlocks n, by rw [hi]; exact hself, hcq.pos, hcq.start, ?_⟩
      have hqstop := hcq.stop
      have hqpos := hcq.pos
      -- The other pieces of the group end below this one, or the two would meet.
      have hbelow : q.block + q.len ≤ p.block := by
        simp only [Layout.top, hi] at hqstop
        by_contra hcon
        refine hap.1 q hq (max p.block q.block) ⟨?_, ?_⟩ ⟨?_, ?_⟩ <;>
          simp only [Piece.span] <;> omega
      simp only [Layout.top, hfirst, hi]
      omega
    · exact ⟨c, by rw [aux.setBg_ne _ hi]; exact hc, hcq⟩
  split
  · rename_i hlt
    refine ⟨hkeeps, ?_, List.Pairwise.cons ?_ hap.2⟩
    · intro q hq
      rcases List.mem_cons.mp hq with rfl | hq
      · refine ⟨_, hself, ?_, hstart, ?_⟩
        · simp only
          omega
        · simp only [Layout.top, hfirst]
          omega
      · exact hrest q hq
    · intro q hq blk hin
      refine hap.1 q hq blk ⟨hin.1, lt_of_lt_of_le hin.2 ?_⟩
      simp only [Piece.span]
      omega
  · exact ⟨hkeeps, hrest, hap.2⟩

theorem cut {p : Piece} {k : Nat} (h : L.Owns aux (p :: ps)) (hpos : 0 < k) (hk : k < p.len) :
    L.Owns aux (⟨p.block, k, p.bg⟩ :: ⟨p.block + k, p.len - k, p.bg⟩ :: ps) := by
  obtain ⟨b, hb, hheld⟩ := h.held p (by simp)
  have hap := List.pairwise_cons.mp h.apart
  have hstart := hheld.start
  have hstop := hheld.stop
  have hinside : ∀ blk : Nat, Span.Holds ⟨p.block, k⟩ blk ∨
      Span.Holds ⟨p.block + k, p.len - k⟩ blk → p.span.Holds blk := by
    rintro blk (⟨h1, h2⟩ | ⟨h1, h2⟩) <;> simp only at h1 h2 <;>
      constructor <;> simp only [Piece.span] <;> omega
  refine ⟨h.keeps, ?_, List.Pairwise.cons ?_ (List.Pairwise.cons ?_ hap.2)⟩
  · intro q hq
    rcases List.mem_cons.mp hq with rfl | hq
    · exact ⟨b, hb, hpos, hstart, by simp only at hstop ⊢; omega⟩
    · rcases List.mem_cons.mp hq with rfl | hq
      · exact ⟨b, hb, by simp only; omega, by simp only; omega, by simp only at hstop ⊢; omega⟩
      · exact h.held q (by simp [hq])
  · intro q hq
    rcases List.mem_cons.mp hq with rfl | hq
    · exact Span.apart_of_le le_rfl
    · exact fun blk hin => hap.1 q hq blk (hinside blk (Or.inl hin))
  · exact fun q hq blk hin => hap.1 q hq blk (hinside blk (Or.inr hin))

end Layout.Owns

end MakeExt4fs

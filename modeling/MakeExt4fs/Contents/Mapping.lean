import MakeExt4fs.Allocate.Chains
import MakeExt4fs.Contents.Extents

namespace MakeExt4fs

open ErrorLog Words

section Walking

variable {a : Arena Region} {cells : List (Nat × Region)} {p : Option Nat}

theorem Chain.unique {cells' : List (Nat × Region)} (h : Chain a p cells) (h' : Chain a p cells') :
    cells = cells' := by
  induction cells generalizing p cells' with
  | nil =>
    obtain rfl : p = none := h
    cases cells' with
    | nil => rfl
    | cons c rest => cases h'.1
  | cons c rest ih =>
    obtain ⟨rfl, hcell, hrest⟩ := h
    cases cells' with
    | nil => cases h'
    | cons d rest' =>
      obtain ⟨hi, hcell', hrest'⟩ := h'
      have hfst := Option.some.inj hi
      rw [← hfst, hcell] at hcell'
      have hsnd := Option.some.inj (Option.some.inj hcell')
      rw [← hsnd] at hrest'
      rw [ih hrest hrest', Prod.ext hfst hsnd]

theorem Chain.suffix (h : Chain a p cells) {i : Nat} (hi : i ∈ cells.map Prod.fst) :
    ∃ rest, rest <:+ cells ∧ rest ≠ [] ∧ Chain a (some i) rest := by
  induction cells generalizing p with
  | nil => cases hi
  | cons c rest ih =>
    obtain ⟨rfl, hcell, hrest⟩ := h
    rcases List.mem_cons.mp hi with rfl | hi
    · exact ⟨c :: rest, List.suffix_refl _, List.cons_ne_nil c rest, rfl, hcell, hrest⟩
    · obtain ⟨tail, hsuffix, hne, hchain⟩ := ih hrest hi
      exact ⟨tail, hsuffix.trans (List.suffix_cons c rest), hne, hchain⟩

theorem Chain.nodup (h : Chain a p cells) : (cells.map Prod.fst).Nodup := by
  induction cells generalizing p with
  | nil => exact List.nodup_nil
  | cons c rest ih =>
    obtain ⟨rfl, hcell, hrest⟩ := h
    refine List.nodup_cons.mpr ⟨fun hmem => ?_, ih hrest⟩
    obtain ⟨tail, hsuffix, -, hchain⟩ := hrest.suffix hmem
    have hwhole : Chain a (some c.1) (c :: rest) := ⟨rfl, hcell, hrest⟩
    have hsame := hchain.unique hwhole
    have hle := hsuffix.length_le
    rw [hsame, List.length_cons] at hle
    omega

theorem Chain.length_le (h : Chain a p cells) : cells.length ≤ a.length := by
  have hsub : cells.map Prod.fst ⊆ List.range a.length := by
    intro i hi
    obtain ⟨tail, -, hne, hchain⟩ := h.suffix hi
    cases tail with
    | nil => exact absurd rfl hne
    | cons c rest =>
      obtain ⟨hi, hcell, -⟩ := hchain
      rw [← Option.some.inj hi] at hcell
      exact List.mem_range.mpr (List.getElem?_eq_some_iff.mp hcell).1
  have := (h.nodup.subperm hsub).length_le
  rwa [List.length_map, List.length_range] at this

end Walking

structure AtStart (alloc : BlockAllocation) (ps : List Piece) : Prop where
  whole : alloc.list.partialIter = 0
  start : alloc.list.iter = alloc.list.first
  regions : ∃ cells, Chain alloc.regions alloc.list.iter cells ∧
    cells.map (fun c => c.2.piece) = ps

structure Extent where
  eeBlock : Nat
  eeLen : Nat
  eeStartHi : Nat
  eeStartLo : Nat
  deriving DecidableEq, Repr

def writeExtent (place : ExtentPlace) (i : Nat) (e : Extent) : Build Unit := do
  place.set (eeBlock i) e.eeBlock
  place.set (eeLen i) e.eeLen
  place.set (eeStartHi i) e.eeStartHi
  place.set (eeStartLo i) e.eeStartLo

-- The block of the image that holds block n of the file, as the fields say once they are cut to
-- their sizes.
def Extent.block? (e : Extent) (n : Nat) : Option Nat :=
  if u32 e.eeBlock ≤ n ∧ n < u32 e.eeBlock + u16 e.eeLen then
    some (u16 e.eeStartHi * 4294967296 + u32 e.eeStartLo + (n - u32 e.eeBlock))
  else
    none

def writeExtentList (place : ExtentPlace) : Nat → List Extent → Build Unit
  | _, [] => return ()
  | i, e :: rest => do
    writeExtent place i e
    writeExtentList place (i + 1) rest

def extentsOf : Nat → List Piece → List Extent
  | _, [] => []
  | fileBlock, p :: rest => ⟨fileBlock, p.len, 0, p.block⟩ :: extentsOf (u32 (fileBlock + p.len)) rest

def logicalToPhysical (es : List Extent) (n : Nat) : Option Nat := es.findSome? (·.block? n)

-- One chunk of backing: where it starts in the contents, its length and its block of the image.
structure Backed where
  offset : Nat
  len : Nat
  block : Nat
  deriving DecidableEq, Repr

def Backed.byte? (blockSize : Nat) (c : Backed) (n : Nat) : Option Nat :=
  if c.offset ≤ n ∧ n < c.offset + c.len then some (c.block * blockSize + (n - c.offset)) else none

def Covers : Nat → Nat → List Backed → Prop
  | start, stop, [] => start = stop
  | start, stop, c :: rest => c.offset = start ∧ Covers (start + c.len) stop rest

def backedBy (blockSize : Nat) : Nat → Nat → List Piece → List Backed
  | _, 0, _ => []
  | _, _ + 1, [] => []
  | offset, left + 1, p :: rest =>
    let len := u32 (min (u32 (p.len * blockSize)) (left + 1))
    ⟨offset, len, p.block⟩ :: backedBy blockSize (offset + len) (left + 1 - len) rest

section Cursor

variable {alloc : BlockAllocation} {i : Nat} {r : Region} {rest : List (Nat × Region)}

theorem getRegion_of_chain (h : Chain alloc.regions alloc.list.iter ((i, r) :: rest))
    (hwhole : alloc.list.partialIter = 0) (hlen : r.len < 4294967296) :
    getRegion alloc = some (r.block, r.len) := by
  obtain ⟨hiter, hcell, -⟩ := h
  rw [getRegion, hiter, Arena.look_eq_some.mpr hcell, hwhole]
  simp only [Option.bind_eq_bind, Option.bind_some, sub32_of_le hlen (Nat.zero_le _), Nat.sub_zero]

theorem getNextRegion_of_chain (h : Chain alloc.regions alloc.list.iter ((i, r) :: rest)) :
    ∃ next, getNextRegion alloc = some next ∧ next.list.partialIter = 0 ∧
      Chain next.regions next.list.iter rest := by
  obtain ⟨hiter, hcell, hrest⟩ := h
  refine ⟨{ alloc with list := { alloc.list with iter := r.next, partialIter := 0 } }, ?_, rfl, hrest⟩
  rw [getNextRegion, hiter, Arena.look_eq_some.mpr hcell]
  rfl

end Cursor

section Loops

variable {info : FsInfo} {alloc : BlockAllocation} {cells : List (Nat × Region)}

def piecesOf (cells : List (Nat × Region)) : List Piece := cells.map fun c => c.2.piece

theorem sparseFileAdd_run (c : Chunk) (fs : Fs) (l : List Ext4Error) :
    sparseFileAdd c (fs, l) = .ok ((), ({ fs with sparse := fs.sparse ++ [c] }, l)) := rfl

theorem backingLoop_run (chunk : Backed → Chunk) (h : Chain alloc.regions alloc.list.iter cells)
    (hwhole : alloc.list.partialIter = 0) {fuel : Nat} (hfuel : cells.length ≤ fuel)
    (hlen : ∀ c ∈ cells, c.2.len < 4294967296 ∧ c.2.len * info.blockSize.val < 4294967296)
    (offset : Nat) {left : Nat}
    (hroom : left ≤ ((piecesOf cells).map Piece.len).sum * info.blockSize.val) (fs : Fs)
    (l : List Ext4Error) :
    backingLoop info (fun offset len block => sparseFileAdd (chunk ⟨offset, len, block⟩)) fuel
        alloc offset left (fs, l) =
      .ok ((), ({ fs with
        sparse := fs.sparse ++ (backedBy info.blockSize.val offset left (piecesOf cells)).map chunk },
        l)) := by
  induction cells generalizing alloc fuel offset left fs with
  | nil =>
    obtain rfl : left = 0 := by simpa [piecesOf] using hroom
    rw [backingLoop, backedBy, List.map_nil, List.append_nil]
    rfl
  | cons c rest ih =>
    cases left with
    | zero =>
      rw [backingLoop, backedBy, List.map_nil, List.append_nil]
      rfl
    | succ left =>
      obtain ⟨fuel, rfl⟩ : ∃ n, fuel = n + 1 := Nat.exists_eq_add_of_le' (by simp at hfuel; omega)
      obtain ⟨hword, hbytes⟩ := hlen c List.mem_cons_self
      obtain ⟨next, hnext, hwhole', hchain⟩ := getNextRegion_of_chain h
      have hregion := getRegion_of_chain h hwhole hword
      have hcut : u32 (min (u32 (c.2.len * info.blockSize.val)) (left + 1)) =
          min (c.2.len * info.blockSize.val) (left + 1) := by
        rw [u32_of_lt hbytes, u32_of_lt (by omega)]
      have hrest : left + 1 - min (c.2.len * info.blockSize.val) (left + 1) ≤
          ((piecesOf rest).map Piece.len).sum * info.blockSize.val := by
        rw [piecesOf, List.map_cons, List.map_cons, List.sum_cons, Nat.add_mul] at hroom
        change _ ≤ c.2.len * info.blockSize.val + _ at hroom
        rw [piecesOf]
        omega
      have hstep := ih hchain hwhole' (show rest.length ≤ fuel by simpa using hfuel)
        (fun d hd => hlen d (List.mem_cons_of_mem c hd))
        (offset + min (c.2.len * info.blockSize.val) (left + 1)) hrest
      simp only [backingLoop, hregion, hnext, Run.expect, Run.pure_run, Run.bind_run,
        sparseFileAdd_run, hcut, hstep, piecesOf, List.map_cons, backedBy, Region.piece,
        List.append_assoc, List.cons_append, List.nil_append]

theorem writeExtents_chain (place : ExtentPlace) (h : Chain alloc.regions alloc.list.iter cells)
    (hwhole : alloc.list.partialIter = 0) {fuel : Nat} (hfuel : cells.length ≤ fuel)
    (hlen : ∀ c ∈ cells, c.2.len < 4294967296) (i fileBlock : Nat) :
    writeExtents place fuel alloc i fileBlock =
      writeExtentList place i (extentsOf fileBlock (piecesOf cells)) := by
  induction cells generalizing alloc fuel i fileBlock with
  | nil =>
    have hlast : lastRegion alloc = true := by
      rw [lastRegion, show alloc.list.iter = none from h]
      rfl
    cases fuel <;> simp only [writeExtents, hlast, if_true] <;> rfl
  | cons c rest ih =>
    obtain ⟨fuel, rfl⟩ : ∃ n, fuel = n + 1 := Nat.exists_eq_add_of_le' (by simp at hfuel; omega)
    obtain ⟨next, hnext, hwhole', hchain⟩ := getNextRegion_of_chain h
    have hregion := getRegion_of_chain h hwhole (hlen c List.mem_cons_self)
    have hmore : lastRegion alloc = false := by
      rw [lastRegion, h.1]
      rfl
    have hstep := ih hchain hwhole' (show rest.length ≤ fuel by simpa using hfuel)
      (fun d hd => hlen d (List.mem_cons_of_mem c hd)) (i + 1) (u32 (fileBlock + c.2.len))
    simp only [writeExtents, hmore, Bool.false_eq_true, if_false, hregion, hnext, Run.expect, pure_bind,
      hstep, piecesOf, List.map_cons, extentsOf, writeExtentList, writeExtent, bind_assoc, Region.piece]

end Loops

section Places

variable {bs : Nat} {ps : List Piece}

theorem covers_backedBy (hlen : ∀ p ∈ ps, p.len * bs < 4294967296) (offset : Nat) {left : Nat}
    (hroom : left ≤ (ps.map Piece.len).sum * bs) :
    Covers offset (offset + left) (backedBy bs offset left ps) := by
  induction ps generalizing offset left with
  | nil =>
    obtain rfl : left = 0 := by simpa using hroom
    exact rfl
  | cons p rest ih =>
    cases left with
    | zero => exact rfl
    | succ left =>
      have hbytes := hlen p List.mem_cons_self
      have hcut : u32 (min (u32 (p.len * bs)) (left + 1)) = min (p.len * bs) (left + 1) := by
        rw [u32_of_lt hbytes, u32_of_lt (by omega)]
      rw [List.map_cons, List.sum_cons, Nat.add_mul] at hroom
      have hrest := ih (fun q hq => hlen q (List.mem_cons_of_mem p hq))
        (offset + min (p.len * bs) (left + 1))
        (show left + 1 - min (p.len * bs) (left + 1) ≤ (rest.map Piece.len).sum * bs by omega)
      have hstop : offset + min (p.len * bs) (left + 1) + (left + 1 - min (p.len * bs) (left + 1)) =
          offset + (left + 1) := by omega
      rw [hstop] at hrest
      simp only [backedBy, hcut]
      exact ⟨rfl, hrest⟩

theorem byte_backedBy (hbs : 0 < bs) (hlen : ∀ p ∈ ps, p.len * bs < 4294967296) (base : Nat)
    {left n : Nat} (hroom : left ≤ (ps.map Piece.len).sum * bs) (hn : n < left) :
    (backedBy bs (base * bs) left ps).findSome? (·.byte? bs (base * bs + n)) =
      (pieceBlock ps (n / bs)).map fun b => b * bs + n % bs := by
  induction ps generalizing base left n with
  | nil =>
    have hzero : left = 0 := by simpa using hroom
    omega
  | cons p rest ih =>
    obtain ⟨left, rfl⟩ : ∃ m, left = m + 1 := Nat.exists_eq_add_of_le' (by omega)
    have hbytes := hlen p List.mem_cons_self
    have hcut : u32 (min (u32 (p.len * bs)) (left + 1)) = min (p.len * bs) (left + 1) := by
      rw [u32_of_lt hbytes, u32_of_lt (by omega)]
    rw [List.map_cons, List.sum_cons, Nat.add_mul] at hroom
    simp only [backedBy, hcut, List.findSome?_cons, Backed.byte?, pieceBlock]
    rcases Nat.lt_or_ge n (p.len * bs) with hin | hout
    · have hblock : n / bs < p.len := Nat.div_lt_of_lt_mul (Nat.mul_comm _ _ ▸ hin)
      have hbyte : (p.block + n / bs) * bs + n % bs = p.block * bs + n := by
        rw [Nat.add_mul, Nat.add_assoc, Nat.div_add_mod']
      rw [if_pos ⟨by omega, by omega⟩, if_pos hblock, Option.map_some, Nat.add_sub_cancel_left, hbyte]
    · have hblock : ¬ n / bs < p.len := not_lt.mpr ((Nat.le_div_iff_mul_le hbs).mpr hout)
      have hmin : min (p.len * bs) (left + 1) = p.len * bs := by omega
      have hbase : base * bs + p.len * bs = (base + p.len) * bs := (Nat.add_mul _ _ _).symm
      have hplace : base * bs + n = (base + p.len) * bs + (n - p.len * bs) := by omega
      have hrest := ih (fun q hq => hlen q (List.mem_cons_of_mem p hq)) (base + p.len)
        (show left + 1 - p.len * bs ≤ (rest.map Piece.len).sum * bs by omega)
        (show n - p.len * bs < left + 1 - p.len * bs by omega)
      have hdiv : (n - p.len * bs) / bs = n / bs - p.len := by rw [Nat.mul_comm, Nat.sub_mul_div]
      have hmod : (n - p.len * bs) % bs = n % bs := by
        rw [Nat.mul_comm] at hout ⊢
        exact Nat.sub_mul_mod hout
      rw [if_neg (by omega), if_neg hblock, hmin, hbase, hplace, ← hdiv, ← hmod]
      exact hrest

theorem logicalToPhysical_extentsOf (hps : ∀ p ∈ ps, p.block < 4294967296 ∧ p.len < 65536)
    {fileBlock n : Nat} (hn : fileBlock + n < 4294967296) :
    logicalToPhysical (extentsOf fileBlock ps) (fileBlock + n) = pieceBlock ps n := by
  induction ps generalizing fileBlock n with
  | nil => rfl
  | cons p rest ih =>
    obtain ⟨hblock, hlen⟩ := hps p List.mem_cons_self
    rw [logicalToPhysical, extentsOf, List.findSome?_cons, pieceBlock, Extent.block?,
      u32_of_lt (show fileBlock < 4294967296 by omega), u16, Nat.mod_eq_of_lt hlen, u32_of_lt hblock]
    rcases Nat.lt_or_ge n p.len with hin | hout
    · rw [if_pos ⟨by omega, by omega⟩, if_pos hin, Nat.add_sub_cancel_left]
      simp [u16]
    · have hstep : fileBlock + n = fileBlock + p.len + (n - p.len) := by omega
      rw [if_neg (by omega), if_neg (by omega)]
      simp only
      rw [u32_of_lt (by omega), hstep]
      exact ih (fun q hq => hps q (List.mem_cons_of_mem p hq)) (by omega)

theorem isSome_pieceBlock {n : Nat} (hn : n < (ps.map Piece.len).sum) :
    (pieceBlock ps n).isSome = true := by
  induction ps generalizing n with
  | nil => simp at hn
  | cons p rest ih =>
    rw [List.map_cons, List.sum_cons] at hn
    rw [pieceBlock]
    split
    · rfl
    · exact ih (by omega)

end Places

section Backing

variable {alloc : BlockAllocation} {ps : List Piece}

theorem AtStart.rewound (h : AtStart alloc ps) : rewindAlloc alloc = alloc := by
  obtain ⟨regions, ⟨first, last, iter, partialIter⟩, oobList⟩ := alloc
  obtain ⟨hwhole, hstart, -⟩ := h
  simp only at hwhole hstart
  rw [rewindAlloc, hwhole, hstart]

theorem atStart_linkedAlloc (ps : List Piece) : AtStart (linkedAlloc ps) ps := by
  refine ⟨rfl, rfl, linkedCells 0 none ps, ?_, ?_⟩
  · have h := chain_linkPieces [] none ps []
    rwa [List.append_nil, List.nil_append] at h
  · exact (linkedCells_map Region.piece id (fun _ _ _ => rfl) 0 none ps).trans (List.map_id ps)

theorem backing_follows_extents (info : FsInfo) (backingLen : Nat) (h : AtStart alloc ps)
    (hbs : 0 < info.blockSize.val)
    (hps : ∀ p ∈ ps, p.block < 4294967296 ∧ p.len ≤ 32768 ∧
      p.len * info.blockSize.val < 4294967296)
    (hroom : (backingLen + info.blockSize.val - 1) / info.blockSize.val ≤ (ps.map Piece.len).sum)
    (hnum : (ps.map Piece.len).sum ≤ 4294967296) :
    ∃ es chunks,
      (∀ place, writeExtents place alloc.regions.length alloc 0 0 =
        writeExtentList place 0 es) ∧
      (∀ fs l, extentCreateBacking info (rewindAlloc alloc) backingLen (fs, l) =
        .ok (fs.heap.length, ({ fs with
          heap := fs.heap ++ [Buffer.zeros backingLen]
          sparse := fs.sparse ++ chunks.map fun c =>
            .data (.heap fs.heap.length c.offset) c.len c.block }, l))) ∧
      (∀ filename fs l, extentCreateBackingFile info (rewindAlloc alloc) backingLen filename (fs, l) =
        .ok ((), ({ fs with
          sparse := fs.sparse ++ chunks.map fun c => .file filename c.offset c.len c.block }, l))) ∧
      Covers 0 backingLen chunks ∧
      ∀ n < backingLen, ∃ b, logicalToPhysical es (n / info.blockSize.val) = some b ∧
        chunks.findSome? (·.byte? info.blockSize.val n) =
          some (b * info.blockSize.val + n % info.blockSize.val) := by
  obtain ⟨cells, hchain, hcells⟩ := h.regions
  have hpieces : piecesOf cells = ps := hcells
  have hfuel : cells.length ≤ alloc.regions.length := hchain.length_le
  have hlen : ∀ c ∈ cells, c.2.len < 4294967296 ∧ c.2.len * info.blockSize.val < 4294967296 := by
    intro c hc
    have := hps c.2.piece (hcells ▸ List.mem_map_of_mem hc)
    simp only [Region.piece] at this
    omega
  have hbytes : ∀ p ∈ ps, p.len * info.blockSize.val < 4294967296 := fun p hp => (hps p hp).2.2
  have hleft : backingLen ≤ (ps.map Piece.len).sum * info.blockSize.val := by
    have hlt := Nat.lt_mul_of_div_lt (Nat.lt_succ_of_le hroom) hbs
    rw [Nat.succ_mul] at hlt
    omega
  refine ⟨extentsOf 0 ps, backedBy info.blockSize.val 0 backingLen ps, ?_, ?_, ?_, ?_, ?_⟩
  · intro place
    rw [← hpieces]
    exact writeExtents_chain place hchain h.whole hfuel (fun c hc => (hlen c hc).1) 0 0
  · intro fs l
    rw [h.rewound, extentCreateBacking, Run.bind_run]
    have hrun := backingLoop_run (fun c => .data (.heap fs.heap.length c.offset) c.len c.block)
      hchain h.whole (Nat.le_succ_of_le hfuel) hlen 0 (hpieces ▸ hleft)
      { fs with heap := fs.heap ++ [Buffer.zeros backingLen] } l
    rw [hpieces] at hrun
    simp only [calloc, Run.bind_run, Run.read_run, Run.write_run, Run.pure_run, sparseFileAddData, hrun]
  · intro filename fs l
    rw [h.rewound, extentCreateBackingFile]
    have hrun := backingLoop_run (fun c => .file filename c.offset c.len c.block) hchain h.whole
      (Nat.le_succ_of_le hfuel) hlen 0 (hpieces ▸ hleft) fs l
    rwa [hpieces] at hrun
  · have hcovers := covers_backedBy hbytes 0 hleft
    rwa [Nat.zero_add] at hcovers
  · intro n hn
    have hblock : n / info.blockSize.val < (ps.map Piece.len).sum :=
      Nat.div_lt_of_lt_mul (Nat.mul_comm _ _ ▸ hn.trans_le hleft)
    obtain ⟨b, hb⟩ := Option.isSome_iff_exists.mp (isSome_pieceBlock hblock)
    have hbyte := byte_backedBy hbs hbytes 0 hleft hn
    have hfields : ∀ p ∈ ps, p.block < 4294967296 ∧ p.len < 65536 := by
      intro p hp
      have := hps p hp
      omega
    have hextent : logicalToPhysical (extentsOf 0 ps) (0 + n / info.blockSize.val) =
        pieceBlock ps (n / info.blockSize.val) := logicalToPhysical_extentsOf hfields (by omega)
    simp only [Nat.zero_mul, Nat.zero_add] at hbyte hextent
    rw [hextent, hbyte, hb]
    exact ⟨b, rfl, rfl⟩

def twoRegions : List Piece := [⟨10, 2, 0⟩, ⟨8210, 3, 1⟩]

def kiloBlocks : FsInfo :=
  ⟨0, 1024, 8192, 0, 256, 0, 0, 0, 0, 0, 0, 0, [], true, []⟩

theorem twoRegions_backing : ∃ es chunks,
    (∀ place, writeExtents place 2 (linkedAlloc twoRegions) 0 0 = writeExtentList place 0 es) ∧
    Covers 0 4000 chunks ∧ ∃ b, logicalToPhysical es 3 = some b ∧
      chunks.findSome? (·.byte? 1024 3999) = some (b * 1024 + 927) := by
  obtain ⟨es, chunks, hextents, -, -, hcovers, hbytes⟩ := backing_follows_extents kiloBlocks 4000
    (atStart_linkedAlloc twoRegions) (by decide) (by decide) (by decide) (by decide)
  exact ⟨es, chunks, hextents, hcovers, hbytes 3999 (by decide)⟩

end Backing

end MakeExt4fs

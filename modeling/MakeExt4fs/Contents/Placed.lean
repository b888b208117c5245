import MakeExt4fs.Allocate.Carve
import MakeExt4fs.Allocate.InodeRuns
import MakeExt4fs.Contents.Files
import MakeExt4fs.Contents.Makes

namespace MakeExt4fs

open ErrorLog Words

-- The region that gives the spare block back is the first one, which list.last names, too.
def shrinkFirst : List Piece → List Piece
  | [] => []
  | p :: rest => ⟨p.block, p.len - 1, p.bg⟩ :: rest

def Chunk.backs (data : Nat) : Chunk → Option Backed
  | .data (.heap id offset) len block => if id = data then some ⟨offset, len, block⟩ else none
  | _ => none

def backedOf (data : Nat) (queue : List Chunk) : List Backed := queue.filterMap (Chunk.backs data)

def Backed.chunk (data : Nat) (c : Backed) : Chunk := .data (.heap data c.offset) c.len c.block

def inBlock (f : Field) : Field := ⟨(iBlock 0).off + f.off, f.size⟩

section Shrinking

variable {aux aux' : FsAuxInfo} {alloc : BlockAllocation} {l l' : List Ext4Error} {ps : List Piece}

theorem sum_shrinkFirst {p : Piece} {rest : List Piece} (hp : 1 < p.len) :
    ((shrinkFirst (p :: rest)).map Piece.len).sum + 1 = ((p :: rest).map Piece.len).sum := by
  simp only [shrinkFirst, List.map_cons, List.sum_cons]
  omega

theorem reduceAllocation_ok (hne : ps ≠ [])
    (h : reduceAllocation (freshAlloc ps) 1 (aux, l) = .ok (alloc, (aux', l'))) :
    alloc.list.iter = none ∧ alloc.list.first = none ∨
      AtStart alloc (shrinkFirst ps) ∧ ((shrinkFirst ps).map Piece.len).sum + 1 =
        (ps.map Piece.len).sum := by
  cases ps with
  | nil => exact absurd rfl hne
  | cons p rest =>
    let r : Region := ⟨p.block, p.len, p.bg, if rest.isEmpty then none else some 1, none⟩
    have hlook : (freshAlloc (p :: rest)).regions.look (freshAlloc (p :: rest)).list.last =
        some r := rfl
    rw [reduceAllocation, reduceLoop, hlook] at h
    swap
    · decide
    obtain ⟨lastReg, st, hreg, h1⟩ := Run.bind_ok.mp h
    cases hreg
    split at h1
    · rename_i hlong
      obtain ⟨⟨⟩, ⟨aux1, l1⟩, -, h2⟩ := Run.bind_ok.mp h1
      have hmodify : (freshAlloc (p :: rest)).regions.modify (freshAlloc (p :: rest)).list.last
          (fun r => { r with len := r.len - 1 }) =
            some (some { r with len := p.len - 1 } :: linkPieces 1 (some 0) rest) := rfl
      rw [hmodify] at h2
      cases h2
      refine Or.inr ⟨⟨rfl, rfl, (0, { r with len := p.len - 1 }) :: linkedCells 1 (some 0) rest,
        ⟨rfl, rfl, ?_⟩, ?_⟩, sum_shrinkFirst hlong⟩
      · have hchain := chain_linkPieces [some { r with len := p.len - 1 }] (some 0) rest []
        rw [List.append_nil] at hchain
        exact hchain
      · rw [List.map_cons]
        exact congrArg _ ((linkedCells_map Region.piece id (fun _ _ _ => rfl) 1 (some 0) rest).trans
          (List.map_id rest))
    · obtain ⟨⟨⟩, ⟨aux1, l1⟩, -, h2⟩ := Run.bind_ok.mp h1
      have hprev : r.prev = none := rfl
      simp only [hprev, pure_bind] at h2
      obtain ⟨a, ⟨aux2, l2⟩, hfree, h3⟩ := Run.bind_ok.mp h2
      generalize 1 - r.len = left at h3
      cases left with
      | zero =>
        cases h3
        exact Or.inl ⟨rfl, rfl⟩
      | succ left => cases h3

end Shrinking

section Fields

variable {r : InodeRef} {fs fs' : Fs} {l l' : List Ext4Error} {info : FsInfo}

def InFront (r : InodeRef) (k bg i : Nat) : Prop :=
  bg = r.bg ∧ r.off + 40 ≤ i ∧ i < r.off + 52 + 12 * k

theorem set_keepsFront {f : Field} {k : Nat} (hf : 12 + 12 * k ≤ f.off) (v : Nat) :
    Run.Evolves (KeepsBytes (InFront r k)) ((ExtentPlace.inode r).set f v) := by
  apply setField_keepsBytes
  rintro i h1 - ⟨-, -, h2⟩
  change r.off + (40 + f.off) ≤ i at h1
  omega

theorem field_inFront {f : Field} {k : Nat} (h : KeepsBytes (InFront r k) fs fs')
    (hf : f.off + f.size ≤ 12 + 12 * k) : fs'.field r (inBlock f) = fs.field r (inBlock f) := by
  refine h.field ?_
  rintro bg i ⟨rfl, h1, h2⟩
  change r.off + (40 + f.off) ≤ i at h1
  change i < r.off + (40 + f.off) + f.size at h2
  exact ⟨rfl, by omega, by omega⟩

theorem writeExtent_keepsFront (i : Nat) (e : Extent) :
    Run.Evolves (KeepsBytes (InFront r i)) (writeExtent (.inode r) i e) := by
  have hset (f : Field) (hf : 12 + 12 * i ≤ f.off) (v : Nat) :
      Run.Evolves (KeepsBytes (InFront r i)) ((ExtentPlace.inode r).set f v) := set_keepsFront hf v
  refine (hset _ (by simp only [eeBlock]; omega) _).bind fun _ => ?_
  refine (hset _ (by simp only [eeLen]; omega) _).bind fun _ => ?_
  refine (hset _ (by simp only [eeStartHi]; omega) _).bind fun _ => ?_
  exact hset _ (by simp only [eeStartLo]; omega) _

theorem writeExtentList_keepsFront (i : Nat) (es : List Extent) :
    Run.Evolves (KeepsBytes (InFront r i)) (writeExtentList (.inode r) i es) := by
  induction es generalizing i with
  | nil => exact Run.evolves_pure _
  | cons e rest ih =>
    refine (writeExtent_keepsFront i e).bind fun _ => (ih (i + 1)).mono ?_
    exact fun s s' h bg k ⟨h1, h2, h3⟩ => h bg k ⟨h1, h2, by omega⟩

structure HasExtent (fs : Fs) (r : InodeRef) (i : Nat) (e : Extent) : Prop where
  block : fs.field r (inBlock (eeBlock i)) = u32 e.eeBlock
  len : fs.field r (inBlock (eeLen i)) = u16 e.eeLen
  startHi : fs.field r (inBlock (eeStartHi i)) = u16 e.eeStartHi
  startLo : fs.field r (inBlock (eeStartLo i)) = u32 e.eeStartLo

theorem HasExtent.keeps {i k : Nat} {e : Extent} (h : HasExtent fs r i e) (hi : i < k)
    (hkeeps : KeepsBytes (InFront r k) fs fs') : HasExtent fs' r i e := by
  refine ⟨?_, ?_, ?_, ?_⟩
  · rw [field_inFront hkeeps (by simp only [eeBlock]; omega), h.block]
  · rw [field_inFront hkeeps (by simp only [eeLen]; omega), h.len]
  · rw [field_inFront hkeeps (by simp only [eeStartHi]; omega), h.startHi]
  · rw [field_inFront hkeeps (by simp only [eeStartLo]; omega), h.startLo]

theorem writeExtent_has {i : Nat} {e : Extent}
    (h : writeExtent (.inode r) i e (fs, l) = .ok ((), (fs', l'))) : HasExtent fs' r i e := by
  obtain ⟨⟨⟩, ⟨fs1, l1⟩, h1, hrest1⟩ := Run.bind_ok.mp h
  obtain ⟨⟨⟩, ⟨fs2, l2⟩, h2, hrest2⟩ := Run.bind_ok.mp hrest1
  obtain ⟨⟨⟩, ⟨fs3, l3⟩, h3, h4⟩ := Run.bind_ok.mp hrest2
  have keep {f g : Field} {s s' : Fs} {k k' : List Ext4Error} {v : Nat}
      (hap : g.off + g.size ≤ f.off ∨ f.off + f.size ≤ g.off)
      (hm : (ExtentPlace.inode r).set g v (s, k) = .ok ((), (s', k'))) :
      s'.field r (inBlock f) = s.field r (inBlock f) :=
    setField_keeps (by simp only [inBlock]; omega) hm
  refine ⟨?_, ?_, ?_, field_setField h4⟩
  · rw [keep (by simp only [eeBlock, eeStartLo]; omega) h4,
      keep (by simp only [eeBlock, eeStartHi]; omega) h3, keep (by simp only [eeBlock, eeLen]; omega) h2]
    exact field_setField h1
  · rw [keep (by simp only [eeLen, eeStartLo]; omega) h4,
      keep (by simp only [eeLen, eeStartHi]; omega) h3]
    exact field_setField h2
  · rw [keep (by simp only [eeStartHi, eeStartLo]; omega) h4]
    exact field_setField h3

theorem writeExtentList_has {i : Nat} {es : List Extent}
    (h : writeExtentList (.inode r) i es (fs, l) = .ok ((), (fs', l'))) :
    ∀ k (hk : k < es.length), HasExtent fs' r (i + k) es[k] := by
  induction es generalizing i fs l with
  | nil => exact fun k hk => absurd hk (Nat.not_lt_zero k)
  | cons e rest ih =>
    obtain ⟨⟨⟩, ⟨fs1, l1⟩, hfirst, hrest⟩ := Run.bind_ok.mp h
    intro k hk
    cases k with
    | zero =>
      exact (writeExtent_has hfirst).keeps (Nat.lt_succ_self i)
        (writeExtentList_keepsFront (i + 1) rest _ _ _ _ _ hrest)
    | succ k =>
      have hhas := ih hrest k (Nat.lt_of_succ_lt_succ hk)
      rwa [show i + 1 + k = i + (k + 1) by omega] at hhas

structure HasExtentHeader (fs : Fs) (r : InodeRef) (entries : Nat) : Prop where
  magic : fs.field r (inBlock ehMagic) = ext4ExtMagic
  depth : fs.field r (inBlock ehDepth) = 0
  entries : fs.field r (inBlock ehEntries) = entries

theorem HasExtentHeader.keeps {entries k : Nat} (h : HasExtentHeader fs r entries)
    (hkeeps : KeepsBytes (InFront r k) fs fs') : HasExtentHeader fs' r entries := by
  refine ⟨?_, ?_, ?_⟩
  · rw [field_inFront hkeeps (by simp only [ehMagic]; omega), h.magic]
  · rw [field_inFront hkeeps (by simp only [ehDepth]; omega), h.depth]
  · rw [field_inFront hkeeps (by simp only [ehEntries]; omega), h.entries]

theorem writeExtentHeader_has {entries : Nat} (hfew : entries < 65536)
    (h : writeExtentHeader (.inode r) entries 3 0 (fs, l) = .ok ((), (fs', l'))) :
    HasExtentHeader fs' r entries := by
  obtain ⟨⟨⟩, ⟨fs1, l1⟩, h1, hrest1⟩ := Run.bind_ok.mp h
  obtain ⟨⟨⟩, ⟨fs2, l2⟩, h2, hrest2⟩ := Run.bind_ok.mp hrest1
  obtain ⟨⟨⟩, ⟨fs3, l3⟩, h3, hrest3⟩ := Run.bind_ok.mp hrest2
  obtain ⟨⟨⟩, ⟨fs4, l4⟩, h4, h5⟩ := Run.bind_ok.mp hrest3
  have keep {f g : Field} {s s' : Fs} {k k' : List Ext4Error} {v : Nat}
      (hap : g.off + g.size ≤ f.off ∨ f.off + f.size ≤ g.off)
      (hm : (ExtentPlace.inode r).set g v (s, k) = .ok ((), (s', k'))) :
      s'.field r (inBlock f) = s.field r (inBlock f) :=
    setField_keeps (by simp only [inBlock]; omega) hm
  refine ⟨?_, field_setField h5, ?_⟩
  · rw [keep (by decide) h5, keep (by decide) h4, keep (by decide) h3, keep (by decide) h2]
    exact field_setField h1
  · rw [keep (by decide) h5, keep (by decide) h4, keep (by decide) h3]
    exact (field_setField h2).trans (Nat.mod_eq_of_lt hfew)

end Fields

section Queue

variable {r : InodeRef} {fs fs' : Fs} {l l' : List Ext4Error} {info : FsInfo} {force : Bool}

-- The queue is only added to, and its chunks are of memory that there is.
structure Grows (fs fs' : Fs) : Prop where
  longer : fs.heap.length ≤ fs'.heap.length
  queue : ∃ new, fs'.sparse = fs.sparse ++ new ∧ ∀ c ∈ new, ∀ id offset len block,
    c = .data (.heap id offset) len block → id < fs'.heap.length

theorem Grows.of_same (hsparse : fs'.sparse = fs.sparse) (hheap : fs.heap.length ≤ fs'.heap.length) :
    Grows fs fs' := ⟨hheap, [], by rw [hsparse, List.append_nil], by simp⟩

instance : IsPreorder Fs Grows where
  refl _ := .of_same rfl le_rfl
  trans _ _ _ h h' := by
    obtain ⟨hlonger, new, hnew, hold⟩ := h
    obtain ⟨hlonger', new', hnew', hold'⟩ := h'
    refine ⟨hlonger.trans hlonger', new ++ new', by rw [hnew', hnew, List.append_assoc], ?_⟩
    intro c hc id offset len block heq
    rcases List.mem_append.mp hc with hc | hc
    · exact (hold c hc id offset len block heq).trans_le hlonger'
    · exact hold' c hc id offset len block heq

theorem onTable_grows {α : Type} (m : Run Ext4Error Buffer α) :
    Run.Evolves Grows (onTable r m) := by
  intro fs l a fs' l' hm
  obtain ⟨b, t, t', -, -, -, rfl⟩ := onTable_ok.mp hm
  exact .of_same rfl le_rfl

theorem onAux_grows {α : Type} (m : Alloc α) : Run.Evolves Grows (onAux m) := by
  intro fs l a fs' l' hm
  obtain ⟨aux, -, rfl⟩ := onAux_ok.mp hm
  exact .of_same rfl le_rfl

theorem onHeap_grows {α : Type} (id : Nat) (m : Run Ext4Error Buffer α) :
    Run.Evolves Grows (onHeap id m) := by
  intro fs l a fs' l' hm
  obtain ⟨b, b', -, -, rfl⟩ := onHeap_ok.mp hm
  exact .of_same rfl (by simp)

theorem set_grows (place : ExtentPlace) (f : Field) (v : Nat) :
    Run.Evolves Grows (place.set f v) := by
  cases place with
  | inode r => exact onTable_grows _
  | block data => exact onHeap_grows data _

theorem writeExtentHeader_grows (place : ExtentPlace) (entries max depth : Nat) :
    Run.Evolves Grows (writeExtentHeader place entries max depth) := by
  refine (set_grows _ _ _).bind fun _ => (set_grows _ _ _).bind fun _ => ?_
  refine (set_grows _ _ _).bind fun _ => (set_grows _ _ _).bind fun _ => ?_
  exact set_grows _ _ _

theorem writeExtents_grows (place : ExtentPlace) (fuel : Nat) (alloc : BlockAllocation)
    (i fileBlock : Nat) : Run.Evolves Grows (writeExtents place fuel alloc i fileBlock) := by
  induction fuel generalizing alloc i fileBlock with
  | zero => exact Run.Evolves.ite (fun _ => Run.evolves_pure _) fun _ => Run.evolves_crash
  | succ fuel ih =>
    refine Run.Evolves.ite (fun _ => Run.evolves_pure _) fun _ => ?_
    refine (Run.evolves_expect _).bind fun region => ?_
    refine (set_grows _ _ _).bind fun _ => (set_grows _ _ _).bind fun _ => ?_
    refine (set_grows _ _ _).bind fun _ => (set_grows _ _ _).bind fun _ => ?_
    exact (Run.evolves_expect _).bind fun alloc' => ih alloc' _ _

theorem setExtentSizes_grows (len blockLen : Nat) :
    Run.Evolves Grows (setExtentSizes info r len blockLen) := by
  refine (onTable_grows _).bind fun _ => (onTable_grows _).bind fun _ => ?_
  refine (onTable_grows _).bind fun _ => (onTable_grows _).bind fun _ => ?_
  exact (onTable_grows _).bind fun _ => onTable_grows _

theorem createExtentBlock_grows (extentBlock allocationLen len : Nat) :
    Run.Evolves Grows (createExtentBlock info force r extentBlock allocationLen len) := by
  refine (writeExtentHeader_grows _ _ _ _).bind fun _ => (onTable_grows _).bind fun _ => ?_
  refine (onTable_grows _).bind fun _ => (onTable_grows _).bind fun _ => ?_
  refine (onTable_grows _).bind fun _ => ?_
  have hend (d : Nat) : Run.Evolves Grows (if s32 (sub64 info.blockSize.val 1) < allocationLen then do
        Run.raise force (.fileTooBig len)
        return none
      else do
        writeExtentHeader (.block d) allocationLen (sub64 info.blockSize.val 12 / 12) 0
        return some (.block d) : Build (Option ExtentPlace)) := by
    refine Run.Evolves.ite (fun _ => ?_) fun _ => ?_
    · exact (Run.evolves_raise force _).bind fun _ => Run.evolves_pure _
    · exact (writeExtentHeader_grows _ _ _ _).bind fun _ => Run.evolves_pure _
  intro fs l place fs' l' hm
  obtain ⟨d, ⟨fs1, l1⟩, hcalloc, hrest⟩ := Run.bind_ok.mp hm
  obtain ⟨-, rfl, rfl⟩ := calloc_ok hcalloc
  obtain ⟨⟨⟩, ⟨fs2, l2⟩, hadd, hlast⟩ := Run.bind_ok.mp hrest
  cases hadd
  refine trans_of Grows ⟨?_, _, rfl, ?_⟩ (hend _ _ _ _ _ _ hlast)
  · simp
  · rintro c hc id offset len block rfl
    cases List.mem_singleton.mp hc
    simp

theorem placeExtents_grows (alloc : BlockAllocation) (len : Nat) :
    Run.Evolves Grows (placeExtents info force r alloc len) := by
  refine (Run.evolves_expect _).bind fun n => ?_
  simp only [pure_bind]
  refine Run.Evolves.ite (fun _ => (onAux_grows _).bind fun alloc => ?_) fun _ =>
    (Run.evolves_expect _).bind fun p => (Run.evolves_expect _).bind fun block => ?_
  all_goals
    refine Run.Evolves.ite (fun _ => ?_) fun _ => ?_
    · exact (writeExtentHeader_grows _ _ _ _).bind fun _ => Run.evolves_pure _
    · refine (createExtentBlock_grows _ _ _).bind fun place => ?_
      cases place <;> exact Run.evolves_pure _

end Queue

section Sizes

variable {r : InodeRef} {fs fs' : Fs} {l l' : List Ext4Error} {info : FsInfo}

theorem testBit_flags (a b : Nat) :
    ((a ||| b) % 256 ^ iFlags.size).testBit 19 = (a.testBit 19 || b.testBit 19) := by
  change ((a ||| b) % 2 ^ 32).testBit 19 = _
  rw [Nat.testBit_mod_two_pow, Nat.testBit_or]
  rfl

theorem setExtentSizes_has {len blockLen : Nat}
    (h : setExtentSizes info r len blockLen (fs, l) = .ok ((), (fs', l'))) :
    fs'.field r iBlocksLo = u32 (blockLen * info.blockSize.val / 512) ∧
      (fs'.field r iFlags).testBit 19 = true ∧ KeepsBytes (InFront r 4) fs fs' := by
  obtain ⟨flags, ⟨fs1, l1⟩, h0, hrest0⟩ := Run.bind_ok.mp h
  obtain ⟨⟨⟩, ⟨fs2, l2⟩, h1, hrest1⟩ := Run.bind_ok.mp hrest0
  obtain ⟨⟨⟩, ⟨fs3, l3⟩, h2, hrest2⟩ := Run.bind_ok.mp hrest1
  obtain ⟨⟨⟩, ⟨fs4, l4⟩, h3, hrest3⟩ := Run.bind_ok.mp hrest2
  obtain ⟨⟨⟩, ⟨fs5, l5⟩, h4, h5⟩ := Run.bind_ok.mp hrest3
  obtain ⟨rfl, rfl, -⟩ := getField_run r iFlags h0
  have hfront (f : Field) (hf : f.off + f.size ≤ 40 ∨ 100 ≤ f.off) (v : Nat) :
      Run.Evolves (KeepsBytes (InFront r 4)) (setField r f v) := by
    apply setField_keepsBytes
    rintro i h1 h2 ⟨-, h3, h4⟩
    omega
  refine ⟨?_, ?_, ?_⟩
  · rw [setField_keeps (f := iBlocksLo) (by decide) h5]
    exact field_setField h4
  · rw [setField_keeps (f := iFlags) (by decide) h5, setField_keeps (f := iFlags) (by decide) h4,
      setField_keeps (f := iFlags) (by decide) h3, setField_keeps (f := iFlags) (by decide) h2,
      field_setField h1]
    exact (testBit_flags flags ext4ExtentsFl).trans (Bool.or_eq_true_iff.mpr (Or.inr rfl))
  · have h12 := trans_of (KeepsBytes (InFront r 4)) (hfront _ (by decide) _ _ _ _ _ _ h1)
      (hfront _ (by decide) _ _ _ _ _ _ h2)
    have h34 := trans_of (KeepsBytes (InFront r 4)) (hfront _ (by decide) _ _ _ _ _ _ h3)
      (hfront _ (by decide) _ _ _ _ _ _ h4)
    exact trans_of (KeepsBytes (InFront r 4)) (trans_of (KeepsBytes (InFront r 4)) h12 h34)
      (hfront _ (by decide) _ _ _ _ _ _ h5)

structure Retains (r : InodeRef) (fs fs' : Fs) : Prop where
  front : KeepsBytes (InFront r 4) fs fs'
  blocks : fs'.field r iBlocksLo = fs.field r iBlocksLo
  flag : (fs.field r iFlags).testBit 19 = true → (fs'.field r iFlags).testBit 19 = true

instance : IsPreorder Fs (Retains r) where
  refl fs := ⟨refl_of (KeepsBytes (InFront r 4)) fs, rfl, id⟩
  trans _ _ _ h h' := ⟨trans_of (KeepsBytes (InFront r 4)) h.front h'.front,
    h'.blocks.trans h.blocks, h'.flag ∘ h.flag⟩

theorem Retains.of_keeps (h : ∀ P, KeepsBytes P fs fs') : Retains r fs fs' := by
  have hfield (f : Field) : fs'.field r f = fs.field r f := (h _).field fun _ _ => id
  exact ⟨h _, hfield _, fun hflag => (hfield iFlags).symm ▸ hflag⟩

theorem setField_retains {f : Field} (hf : f.off + f.size ≤ 28) (v : Nat) :
    Run.Evolves (Retains r) (setField r f v) := by
  intro fs l a fs' l' hm
  refine ⟨?_, setField_keeps (Or.inl hf) hm, ?_⟩
  · refine setField_keepsBytes ?_ v fs l a fs' l' hm
    rintro i h1 h2 ⟨-, h3, h4⟩
    omega
  · rw [setField_keeps (Or.inl (hf.trans (by decide))) hm]
    exact id

theorem orField_retains (v : Nat) : Run.Evolves (Retains r) (orField r iFlags v) := by
  intro fs l a fs' l' hm
  obtain ⟨flags, ⟨fs1, l1⟩, hget, hset⟩ := Run.bind_ok.mp hm
  obtain ⟨rfl, rfl, rfl⟩ := getField_run r iFlags hget
  refine ⟨?_, setField_keeps (by decide) hset, fun hflag => ?_⟩
  · refine setField_keepsBytes ?_ _ _ _ _ _ _ hset
    rintro i h1 h2 ⟨-, h3, h4⟩
    simp only [iFlags] at h1 h2
    omega
  · rw [field_setField hset, testBit_flags, hflag, Bool.true_or]

end Sizes

section Backing

variable {fs fs' : Fs} {l l' : List Ext4Error} {info : FsInfo}

theorem backingLoop_covers (chunk : Backed → Chunk) {fuel : Nat} {alloc : BlockAllocation}
    {offset left : Nat}
    (hrun : backingLoop info (fun offset len block => sparseFileAdd (chunk ⟨offset, len, block⟩))
      fuel alloc offset left (fs, l) = .ok ((), (fs', l'))) :
    ∃ cs, fs' = { fs with sparse := fs.sparse ++ cs.map chunk } ∧
      Covers offset (offset + left) cs := by
  induction fuel generalizing alloc offset left fs l with
  | zero =>
    cases left with
    | zero =>
      cases hrun
      exact ⟨[], by simp, rfl⟩
    | succ left => cases hrun
  | succ fuel ih =>
    cases left with
    | zero =>
      cases hrun
      exact ⟨[], by simp, rfl⟩
    | succ left =>
      obtain ⟨⟨block, regionLen⟩, ⟨fs1, l1⟩, hregion, hrest⟩ := Run.bind_ok.mp hrun
      obtain ⟨-, rfl, rfl⟩ := Run.expect_ok hregion
      obtain ⟨⟨⟩, ⟨fs2, l2⟩, hadd, hrest⟩ := Run.bind_ok.mp hrest
      cases hadd
      obtain ⟨alloc', ⟨fs3, l3⟩, hnext, hrest⟩ := Run.bind_ok.mp hrest
      obtain ⟨-, rfl, rfl⟩ := Run.expect_ok hnext
      obtain ⟨cs, rfl, hcovers⟩ := ih hrest
      generalize hlen : u32 (min (u32 (regionLen * info.blockSize.val)) (left + 1)) = len at *
      have hle : len ≤ left + 1 := by
        rw [← hlen]
        exact (Nat.mod_le _ _).trans (Nat.min_le_right _ _)
      refine ⟨⟨offset, len, block⟩ :: cs, by simp, rfl, ?_⟩
      rwa [show offset + len + (left + 1 - len) = offset + (left + 1) by omega] at hcovers

theorem backedOf_chunks (data : Nat) (cs : List Backed) :
    backedOf data (cs.map (Backed.chunk data)) = cs := by
  induction cs with
  | nil => rfl
  | cons c rest ih =>
    rw [backedOf, List.map_cons, List.filterMap_cons_some (b := c) (by simp [Chunk.backs, Backed.chunk])]
    exact congrArg (c :: ·) ih

theorem backedOf_since (h : Grows fs fs') (cs : List Backed) :
    backedOf fs'.heap.length ((fs'.sparse ++ cs.map (Backed.chunk fs'.heap.length)).drop
      fs.sparse.length) = cs := by
  obtain ⟨-, new, hnew, hold⟩ := h
  rw [hnew, List.append_assoc, List.drop_left, backedOf, List.filterMap_append]
  have hnone : new.filterMap (Chunk.backs fs'.heap.length) = [] := by
    refine List.filterMap_eq_nil_iff.mpr fun c hc => ?_
    cases c with
    | data src len block =>
      cases src with
      | heap id offset =>
        have hlt := hold _ hc id offset len block rfl
        simp only [Chunk.backs]
        rw [if_neg (by omega)]
      | _ => rfl
    | file _ _ _ _ => rfl
  rw [hnone, List.nil_append]
  exact backedOf_chunks _ cs

end Backing

section Placing

variable {L : Layout} {r : InodeRef} {fs fs' : Fs} {l l' : List Ext4Error} {info : FsInfo}
  {force : Bool} {ps : List Piece}

structure InInode (fs : Fs) (r : InodeRef) (ps : List Piece) : Prop where
  header : HasExtentHeader fs r ps.length
  extents : ∀ k (hk : k < (extentsOf 0 ps).length), HasExtent fs r k (extentsOf 0 ps)[k]

theorem InInode.keeps (h : InInode fs r ps) (hfew : (extentsOf 0 ps).length ≤ 4)
    (hkeeps : KeepsBytes (InFront r 4) fs fs') : InInode fs' r ps :=
  ⟨h.header.keeps hkeeps, fun k hk => (h.extents k hk).keeps (by omega) hkeeps⟩

theorem length_extentsOf (fileBlock : Nat) (ps : List Piece) :
    (extentsOf fileBlock ps).length = ps.length := by
  induction ps generalizing fileBlock with
  | nil => rfl
  | cons p rest ih => rw [extentsOf, List.length_cons, ih, List.length_cons]

@[simp] theorem length_shrinkFirst (ps : List Piece) : (shrinkFirst ps).length = ps.length := by
  cases ps <;> rfl

structure PlacedIn (info : FsInfo) (r : InodeRef) (blockLen : Nat) (free : List Nat) (fs : Fs)
    (alloc : BlockAllocation) (ps : List Piece) : Prop where
  carved : ps.map Piece.len = carve (blockLen + 1) (blockLen + 1) free
  sum : (ps.map Piece.len).sum = blockLen + 1
  word : ∀ p ∈ ps, p.block < 4294967296
  flag : (fs.field r iFlags).testBit 19 = true
  few : ps.length ≤ 3 → fs.field r iBlocksLo = u32 (blockLen * info.blockSize.val / 512) ∧
    (alloc.list.iter = none ∨ AtStart alloc (shrinkFirst ps) ∧
      ((shrinkFirst ps).map Piece.len).sum = blockLen ∧ InInode fs r (shrinkFirst ps))
  many : 3 < ps.length → fs.field r iBlocksLo = u32 ((blockLen + 1) * info.blockSize.val / 512)

theorem writeExtents_shrunk {alloc : BlockAllocation} (hstart : AtStart alloc (shrinkFirst ps))
    (hlen : ∀ p ∈ shrinkFirst ps, p.len < 4294967296) :
    writeExtents (.inode r) alloc.regions.length alloc 0 0 =
      writeExtentList (.inode r) 0 (extentsOf 0 (shrinkFirst ps)) := by
  obtain ⟨cells, hchain, hcells⟩ := hstart.regions
  have hpieces : piecesOf cells = shrinkFirst ps := hcells
  rw [← hpieces]
  refine writeExtents_chain _ hchain hstart.whole hchain.length_le ?_ 0 0
  intro c hc
  exact hlen c.2.piece (hcells ▸ List.mem_map_of_mem hc)

theorem Draws.word {aux aux' : FsAuxInfo} {n left : Nat} (hk : L.Keeps aux)
    (h : Draws L aux n ps aux' left) : ∀ p ∈ ps, p.block < 4294967296 := by
  have howns := h.owns (⟨hk, by simp, List.Pairwise.nil⟩ : L.Owns aux [])
  intro p hp
  obtain ⟨bg, hbg, hheld⟩ := howns.held p (List.mem_append_left _ hp)
  have hpos := hheld.pos
  have hstop := hheld.stop
  have hword := L.word p.bg (howns.keeps.lt hbg)
  simp only [Layout.top] at hstop
  omega

theorem placeExtents_placed {aux : FsAuxInfo} {n left len block : Nat} {alloc : BlockAllocation}
    {place : ExtentPlace} (hk : L.Keeps aux) (hL : L.Positive) (hdraws : Draws L aux n ps fs.aux left)
    (hne : ps ≠ [])
    (h : placeExtents info force r (freshAlloc ps) len (fs, l) =
      .ok (some (alloc, block, place), (fs', l'))) :
    ps.length ≤ 3 ∧ block = 0 ∧ place = .inode r ∧ HasExtentHeader fs' r ps.length ∧
        (alloc.list.iter = none ∧ alloc.list.first = none ∨ AtStart alloc (shrinkFirst ps) ∧
          ((shrinkFirst ps).map Piece.len).sum + 1 = (ps.map Piece.len).sum) ∨
      3 < ps.length ∧ block ≠ 0 := by
  have howns := hdraws.owns (⟨hk, by simp, List.Pairwise.nil⟩ : L.Owns aux [])
  rw [placeExtents, numRegions_freshAlloc hne] at h
  obtain ⟨_, st, hexpect, h1⟩ := Run.bind_ok.mp h
  cases hexpect
  split at h1
  · rename_i hfew
    simp only [pure_bind, if_true] at h1
    obtain ⟨alloc1, ⟨fs1, l1⟩, hreduce, h2⟩ := Run.bind_ok.mp h1
    obtain ⟨aux1, hrun, rfl⟩ := onAux_ok.mp hreduce
    obtain ⟨⟨⟩, ⟨fs2, l2⟩, hheader, hend⟩ := Run.bind_ok.mp h2
    cases hend
    exact Or.inl ⟨hfew, rfl, rfl, writeExtentHeader_has (by omega) hheader,
      reduceAllocation_ok hne hrun⟩
  · rename_i hmany
    simp only [pure_bind] at h1
    obtain ⟨⟨alloc1, c⟩, ⟨fs1, l1⟩, hreserve, h2⟩ := Run.bind_ok.mp h1
    obtain ⟨hcarve, rfl, rfl⟩ := Run.expect_ok hreserve
    obtain ⟨block1, ⟨fs2, l2⟩, hget, h3⟩ := Run.bind_ok.mp h2
    obtain ⟨hoob, rfl, rfl⟩ := Run.expect_ok hget
    have hcarved := reserveOobBlocks_carves hcarve L fs2.aux []
      (by rw [freshAlloc_pieces]; exact howns)
    rw [List.append_nil] at hcarved
    have hblock : ¬ block1 = 0 := getOobBlock_ne_zero hL hcarved hoob
    simp only [if_neg hblock] at h3
    obtain ⟨place1, ⟨fs3, l3⟩, -, h4⟩ := Run.bind_ok.mp h3
    cases place1 with
    | none => cases h4
    | some place1 =>
      cases h4
      exact Or.inr ⟨by omega, hblock⟩

theorem doInodeAllocateExtents_placed {len blockLen : Nat} {alloc : BlockAllocation}
    (hk : L.Keeps fs.aux) (hL : L.Positive)
    (hlen : u32 (divRoundUp64 len info.blockSize.val) = blockLen) (hword : blockLen < 4294967295)
    (h : doInodeAllocateExtents info force r len (fs, l) = .ok (some alloc, (fs', l'))) :
    Grows fs fs' ∧ ∃ ps, PlacedIn info r blockLen fs.aux.freeList fs' alloc ps := by
  rw [doInodeAllocateExtents, hlen] at h
  rw [u32_of_lt (by omega : blockLen + 1 < 4294967296)] at h
  obtain ⟨found, ⟨fs1, l1⟩, halloc, h1⟩ := Run.bind_ok.mp h
  have hgrow1 := onAux_grows _ _ _ _ _ _ halloc
  cases found with
  | none =>
    obtain ⟨⟨⟩, st, -, hend⟩ := Run.bind_ok.mp h1
    cases hend
  | some alloc0 =>
    obtain ⟨aux1, hrun, rfl⟩ := onAux_ok.mp halloc
    obtain ⟨ps, hne, rfl, hcarve, hsum⟩ := allocateBlocks_carve hrun
    obtain ⟨qs, -, heq, hdraws⟩ := allocateBlocks_ok (L := L) hrun
    obtain ⟨left, hdraws⟩ := hdraws hk
    obtain rfl : ps = qs := by
      have hpieces := congrArg BlockAllocation.pieces heq
      rwa [freshAlloc_pieces, freshAlloc_pieces] at hpieces
    obtain ⟨placed, ⟨fs2, l2⟩, hplace, h2⟩ := Run.bind_ok.mp h1
    have hgrow2 := placeExtents_grows _ _ _ _ _ _ _ hplace
    cases placed with
    | none => cases h2
    | some placed =>
      obtain ⟨alloc1, extentBlock, place⟩ := placed
      obtain ⟨⟨⟩, ⟨fs3, l3⟩, hwrite, h3⟩ := Run.bind_ok.mp h2
      obtain ⟨⟨⟩, ⟨fs4, l4⟩, hsizes, hend⟩ := Run.bind_ok.mp h3
      cases hend
      have hgrow3 := writeExtents_grows _ _ _ _ _ _ _ _ _ _ hwrite
      have hgrow4 := setExtentSizes_grows _ _ _ _ _ _ _ hsizes
      refine ⟨trans_of Grows hgrow1 (trans_of Grows hgrow2 (trans_of Grows hgrow3 hgrow4)), ps, ?_⟩
      obtain ⟨hblocks, hflag, hfront⟩ := setExtentSizes_has hsizes
      obtain ⟨hfew, rfl, rfl, hheader, hplaced⟩ | ⟨hmany, hblock⟩ :=
        placeExtents_placed hk hL hdraws hne hplace
      · refine ⟨hcarve, hsum, hdraws.word hk, hflag, fun _ => ⟨hblocks, ?_⟩, fun h => by omega⟩
        refine hplaced.imp And.right fun ⟨hstart, hleft⟩ => ?_
        rw [hstart.rewound]
        have hshort : ((shrinkFirst ps).map Piece.len).sum = blockLen := by omega
        have hlens : ∀ p ∈ shrinkFirst ps, p.len < 4294967296 := by
          intro p hp
          have := List.single_le_sum (fun _ _ => Nat.zero_le _) _ (List.mem_map_of_mem (f := Piece.len) hp)
          omega
        rw [writeExtents_shrunk hstart hlens] at hwrite
        have hin : InInode fs3 r (shrinkFirst ps) := by
          refine ⟨?_, ?_⟩
          · rw [length_shrinkFirst]
            exact hheader.keeps (writeExtentList_keepsFront 0 _ _ _ _ _ _ hwrite)
          · intro k hk
            have hhas := writeExtentList_has hwrite k hk
            rwa [Nat.zero_add] at hhas
        have hfit : (extentsOf 0 (shrinkFirst ps)).length ≤ 4 := by
          rw [length_extentsOf, length_shrinkFirst]
          omega
        exact ⟨hstart, hshort, hin.keeps hfit hfront⟩
      · refine ⟨hcarve, hsum, hdraws.word hk, hflag, fun h => by omega, fun _ => ?_⟩
        rwa [if_neg hblock] at hblocks

end Placing

end MakeExt4fs

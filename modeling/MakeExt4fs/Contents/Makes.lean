import MakeExt4fs.Allocate.Safety
import MakeExt4fs.Contents.Fills
import MakeExt4fs.Contents.Lengths
import MakeExt4fs.Contents.Resize

namespace MakeExt4fs

open ErrorLog Words

abbrev Stretches := List (Nat × Nat)

def ApartFrom (P : Nat → Nat → Prop) (r : InodeRef) (spans : Stretches) : Prop :=
  ∀ s ∈ spans, ∀ i, P r.bg i → r.off + s.1 ≤ i → r.off + s.2 ≤ i

def Field.Within (f : Field) (spans : Stretches) : Prop :=
  ∃ s ∈ spans, s.1 ≤ f.off ∧ f.off + f.size ≤ s.2

instance (f : Field) (spans : Stretches) : Decidable (f.Within spans) :=
  inferInstanceAs (Decidable (∃ s ∈ spans, _))

theorem ApartFrom.off {P : Nat → Nat → Prop} {r : InodeRef} {spans : Stretches} {f : Field}
    (h : ApartFrom P r spans) (hf : f.Within spans) : Off P r f := by
  intro i h1 h2 hp
  obtain ⟨s, hs, h3, h4⟩ := hf
  have := h s hs i hp (by omega)
  omega

def madeSpans : Stretches := [(0, 2), (4, 8), (26, 36), (40, 100), (108, 112), (116, 118)]

section Extents

variable {L : Layout} {P : Nat → Nat → Prop} {D : Nat → Prop} {info : FsInfo} {force : Bool}
  {r : InodeRef}

def ExtentPlace.Writable (r : InodeRef) (D : Nat → Prop) (place : ExtentPlace) : Prop :=
  place = .inode r ∨ ∃ d, place = .block d ∧ D d

theorem set_fills {place : ExtentPlace} (hp : ApartFrom P r madeSpans)
    (hplace : place.Writable r D) {f : Field} (hf : place = .inode r → f.off + f.size ≤ 60) (v : Nat) :
    Run.Advances (Fills L P D) (place.set f v) := by
  obtain rfl | ⟨d, rfl, hd⟩ := hplace
  · apply setField_fills (hp.off _)
    have hle := hf rfl
    refine ⟨(40, 100), by decide, ?_, ?_⟩
    · exact Nat.le_add_right 40 _
    · change 40 + f.off + f.size ≤ 100
      omega
  · exact setHeap_fills hd _ _ _

theorem writeExtentHeader_fills {place : ExtentPlace} (hp : ApartFrom P r madeSpans)
    (hplace : place.Writable r D) (entries max depth : Nat) :
    Run.Advances (Fills L P D) (writeExtentHeader place entries max depth) := by
  have hset (f : Field) (hf : f.off + f.size ≤ 60) (v : Nat) :
      Run.Advances (Fills L P D) (place.set f v) := set_fills hp hplace (fun _ => hf) v
  refine (hset _ (by decide) _).bind fun _ => (hset _ (by decide) _).bind fun _ => ?_
  refine (hset _ (by decide) _).bind fun _ => (hset _ (by decide) _).bind fun _ => ?_
  exact hset _ (by decide) _

theorem writeExtents_fills {place : ExtentPlace} (hp : ApartFrom P r madeSpans)
    (hplace : place.Writable r D) {fuel i : Nat} (hfuel : place = .inode r → i + fuel ≤ 4)
    (alloc : BlockAllocation) (fileBlock : Nat) :
    Run.Advances (Fills L P D) (writeExtents place fuel alloc i fileBlock) := by
  induction fuel generalizing alloc i fileBlock with
  | zero => exact Run.Advances.ite (fun _ => Run.advances_pure _) fun _ => Run.advances_crash
  | succ fuel ih =>
    have hset (f : Field) (hf : f.off + f.size ≤ 24 + 12 * i) (v : Nat) :
        Run.Advances (Fills L P D) (place.set f v) :=
      set_fills hp hplace (fun hin => by have := hfuel hin; omega) v
    refine Run.Advances.ite (fun _ => Run.advances_pure _) fun _ => ?_
    apply (Run.advances_expect _).bind
    intro region
    refine (hset _ (by simp only [eeBlock]; omega) _).bind fun _ => ?_
    refine (hset _ (by simp only [eeLen]; omega) _).bind fun _ => ?_
    refine (hset _ (by simp only [eeStartHi]; omega) _).bind fun _ => ?_
    refine (hset _ (by simp only [eeStartLo]; omega) _).bind fun _ => ?_
    apply (Run.advances_expect _).bind
    intro alloc'
    exact ih (fun hin => by have := hfuel hin; omega) alloc' _

theorem backingLoop_fills {queue : Nat → Nat → Nat → Build Unit}
    (hq : ∀ offset len block, Run.Advances (Fills L P D) (queue offset len block)) (fuel : Nat)
    (alloc : BlockAllocation) (offset left : Nat) :
    Run.Advances (Fills L P D) (backingLoop info queue fuel alloc offset left) := by
  induction fuel generalizing alloc offset left with
  | zero => cases left <;> first | exact Run.advances_pure _ | exact Run.advances_crash
  | succ fuel ih =>
    cases left with
    | zero => exact Run.advances_pure _
    | succ left =>
      apply (Run.advances_expect _).bind
      intro region
      refine (hq _ _ _).bind fun _ => (Run.advances_expect _).bind fun _ => ?_
      exact ih _ _ _

theorem extentCreateBackingFile_fills (alloc : BlockAllocation) (backingLen : Nat)
    (filename : List UInt8) :
    Run.Advances (Fills L P D) (extentCreateBackingFile info alloc backingLen filename) :=
  backingLoop_fills (fun _ _ _ => sparseFileAdd_fills _) _ _ _ _

theorem setExtentSizes_fills (hp : ApartFrom P r madeSpans) (len blockLen : Nat) :
    Run.Advances (Fills L P D) (setExtentSizes info r len blockLen) := by
  have hset (f : Field) (hf : f.Within madeSpans) (v : Nat) :
      Run.Advances (Fills L P D) (setField r f v) := setField_fills (hp.off hf) v
  apply (getField_fills _ _).bind
  intro flags
  refine (hset _ (by decide) _).bind fun _ => (hset _ (by decide) _).bind fun _ => ?_
  refine (hset _ (by decide) _).bind fun _ => (hset _ (by decide) _).bind fun _ => ?_
  exact hset _ (by decide) _

theorem createExtentBlock_fills (hp : ApartFrom P r madeSpans) (extentBlock allocationLen len : Nat) :
    Run.Advances (Fills L P D)
      (createExtentBlock info force r extentBlock allocationLen len) := by
  have hset (n k : Nat) (hk : (⟨(iBlock 0).off + n, k⟩ : Field).Within madeSpans) (v : Nat) :
      Run.Advances (Fills L P D) (setField r ⟨(iBlock 0).off + n, k⟩ v) :=
    setField_fills (hp.off hk) v
  refine (writeExtentHeader_fills hp (Or.inl rfl) _ _ _).bind fun _ => ?_
  refine (hset _ _ (by decide) _).bind fun _ => (hset _ _ (by decide) _).bind fun _ => ?_
  refine (hset _ _ (by decide) _).bind fun _ => (hset _ _ (by decide) _).bind fun _ => ?_
  apply calloc_bind_fills
  intro d
  refine (sparseFileAdd_fills _).bind fun _ => Run.Advances.ite (fun _ => ?_) fun _ => ?_
  · exact (Run.advances_raise force _).bind fun _ => Run.advances_pure _
  · refine (writeExtentHeader_fills hp (Or.inr ⟨d, rfl, Or.inr rfl⟩) _ _ _).bind fun _ => ?_
    exact Run.advances_pure _

variable {fs fs' : Fs} {l l' : List Ext4Error}

theorem createExtentBlock_new {extentBlock allocationLen len : Nat} {place : ExtentPlace}
    (hk : L.Keeps fs.aux) (hp : ApartFrom P r madeSpans)
    (h : createExtentBlock info force r extentBlock allocationLen len (fs, l) =
      .ok (some place, (fs', l'))) : ∃ d, place = .block d ∧ fs.heap.length ≤ d := by
  have hset (n k : Nat) (hk : (⟨(iBlock 0).off + n, k⟩ : Field).Within madeSpans) (v : Nat) :
      Run.Advances (Fills L P fun _ => False) (setField r ⟨(iBlock 0).off + n, k⟩ v) :=
    setField_fills (hp.off hk) v
  have h0 : Fills L P (fun _ => False) fs fs := refl_of (Fills L P fun _ => False) fs
  obtain ⟨_, fs1, l1, h1, -, hr1⟩ := (writeExtentHeader_fills hp (Or.inl rfl) _ _ _).next h0 h
  obtain ⟨_, fs2, l2, h2, -, hr2⟩ := (hset _ _ (by decide) _).next h1 hr1
  obtain ⟨_, fs3, l3, h3, -, hr3⟩ := (hset _ _ (by decide) _).next h2 hr2
  obtain ⟨_, fs4, l4, h4, -, hr4⟩ := (hset _ _ (by decide) _).next h3 hr3
  obtain ⟨_, fs5, l5, h5, -, hr5⟩ := (hset _ _ (by decide) _).next h4 hr4
  obtain ⟨d, ⟨fs6, l6⟩, hcalloc, hr6⟩ := Run.bind_ok.mp hr5
  obtain ⟨-, rfl, -⟩ := calloc_ok hcalloc
  obtain ⟨_, ⟨fs7, l7⟩, -, hr7⟩ := Run.bind_ok.mp hr6
  refine ⟨fs5.heap.length, ?_, (h5 hk).longer⟩
  split at hr7
  · obtain ⟨_, st, -, hend⟩ := Run.bind_ok.mp hr7
    cases hend
  · obtain ⟨_, st, -, hend⟩ := Run.bind_ok.mp hr7
    cases hend
    rfl

end Extents

section Placing

variable {L : Layout} {P : Nat → Nat → Prop} {D : Nat → Prop} {info : FsInfo} {force : Bool}
  {r : InodeRef} {fs fs' : Fs} {l l' : List Ext4Error} {ps : List Piece}

theorem numRegions_freshAlloc (hne : ps ≠ []) :
    blockAllocationNumRegions (freshAlloc ps) = some ps.length := by
  have hchain := chain_linkPieces [] none ps []
  simp only [List.nil_append, List.append_nil, List.length_nil] at hchain
  have hhead : headOf 0 ps = some 0 := by
    cases ps with
    | nil => exact absurd rfl hne
    | cons p rest => rfl
  rw [hhead] at hchain
  have hlen := @chainLen_of_chain _ (fun _ => 1) _ _ (freshAlloc ps).regions.length hchain
    (by simp [freshAlloc])
  rw [blockAllocationNumRegions]
  refine hlen.trans ?_
  simp

theorem modify_expect_length {σ : Type} {a b : Arena Region} {p : Option Nat} {f : Region → Region}
    {s s' : σ} (h : Run.expect (a.modify p f) (s, l) = .ok (b, (s', l'))) :
    b.length = a.length := by
  obtain ⟨i, x, -, -, rfl⟩ := Arena.modify_some (Run.expect_ok h).1
  exact List.length_set

theorem free_expect_length {σ : Type} {a b : Arena Region} {p : Option Nat} {s s' : σ}
    (h : Run.expect (a.free p) (s, l) = .ok (b, (s', l'))) : b.length = a.length := by
  obtain ⟨i, x, -, -, rfl⟩ := Arena.free_some (Run.expect_ok h).1
  exact List.length_set

theorem reduceLoop_length {fuel n : Nat} {alloc alloc' : BlockAllocation} {aux aux' : FsAuxInfo}
    (h : reduceLoop fuel alloc n (aux, l) = .ok (alloc', (aux', l'))) :
    alloc'.regions.length = alloc.regions.length := by
  induction fuel generalizing n alloc aux l with
  | zero =>
    cases n with
    | zero =>
      cases h
      rfl
    | succ n => cases h
  | succ fuel ih =>
    cases n with
    | zero =>
      cases h
      rfl
    | succ n =>
      obtain ⟨lastReg, ⟨aux1, l1⟩, -, h1⟩ := Run.bind_ok.mp h
      dsimp only at h1
      split at h1
      · obtain ⟨_, ⟨aux2, l2⟩, -, h2⟩ := Run.bind_ok.mp h1
        obtain ⟨a, ⟨aux3, l3⟩, hmodify, hend⟩ := Run.bind_ok.mp h2
        cases hend
        exact modify_expect_length hmodify
      · obtain ⟨_, ⟨aux2, l2⟩, -, h2⟩ := Run.bind_ok.mp h1
        cases hprev : lastReg.prev with
        | none =>
          simp only [hprev, pure_bind] at h2
          obtain ⟨b, ⟨aux3, l3⟩, hfree, hrest⟩ := Run.bind_ok.mp h2
          rw [ih hrest]
          exact free_expect_length hfree
        | some p =>
          simp only [hprev] at h2
          obtain ⟨a, ⟨aux3, l3⟩, hmodify, h3⟩ := Run.bind_ok.mp h2
          simp only [pure_bind] at h3
          obtain ⟨b, ⟨aux4, l4⟩, hfree, hrest⟩ := Run.bind_ok.mp h3
          rw [ih hrest]
          exact (free_expect_length hfree).trans (modify_expect_length hmodify)

def Layout.Positive (L : Layout) : Prop := ∀ i < L.groups, 0 < L.first i + L.header i

theorem getOobBlock_ne_zero {aux : FsAuxInfo} {alloc : BlockAllocation} {n b : Nat}
    (hL : L.Positive) (howns : L.Owns aux alloc.pieces) (h : getOobBlock alloc n = some b) :
    b ≠ 0 := by
  rw [getOobBlock, getBlockFrom, Option.bind_eq_bind, Option.bind_eq_some_iff] at h
  obtain ⟨⟨found, place⟩, hseek, h⟩ := h
  cases found with
  | none =>
    cases h
    decide
  | some i =>
    obtain ⟨reg, hreg, hlt⟩ := seek_some hseek
    simp only [Option.bind_eq_bind, Arena.look_eq_some.mpr hreg, Option.bind_some,
      Option.some.injEq] at h
    have hmem : reg.piece ∈ alloc.pieces :=
      List.mem_map_of_mem (List.mem_filterMap.mpr ⟨some reg, List.mem_of_getElem? hreg, rfl⟩)
    have hblock : b ∈ reg.piece.blocks := by
      rw [← h]
      exact List.mem_map.mpr ⟨place, List.mem_range.mpr hlt, rfl⟩
    obtain ⟨-, hbg, hge, -⟩ := howns.mem_blocks hmem hblock
    have := hL _ hbg
    omega

theorem onAux_anything {α : Type} {m : Alloc α} (h : Run.Advances BlocksOnly m) :
    Run.Advances Anything (onAux m) := h.zoom fun _ _ _ _ _ => trivial

theorem placeExtents_anything (hp : ApartFrom P r madeSpans) (L : Layout) (alloc : BlockAllocation)
    (len : Nat) : Run.Advances Anything (placeExtents info force r alloc len) := by
  have hheader (entries max depth : Nat) :
      Run.Advances Anything (writeExtentHeader (.inode r) entries max depth) :=
    (writeExtentHeader_fills (L := L) (D := fun _ => False) hp (Or.inl rfl) _ _ _).mono
      fun _ _ _ => trivial
  have hblock (block n : Nat) :
      Run.Advances Anything (createExtentBlock info force r block n len) :=
    (createExtentBlock_fills (L := L) (D := fun _ => False) hp block n len).mono
      fun _ _ _ => trivial
  apply (Run.advances_expect _).bind
  intro n
  simp only [pure_bind]
  refine Run.Advances.ite (fun _ => ?_) fun _ => ?_
  · refine (onAux_anything (reduceAllocation_blocksOnly alloc 1)).bind fun alloc => ?_
    exact Run.Advances.ite (fun _ => (hheader _ _ _).bind fun _ => Run.advances_pure _)
      fun h => absurd trivial h
  · refine (Run.advances_expect _).bind fun p => (Run.advances_expect _).bind fun block => ?_
    refine Run.Advances.ite (fun _ => (hheader _ _ _).bind fun _ => Run.advances_pure _) fun _ => ?_
    refine (hblock _ _).bind fun place => ?_
    cases place <;> exact Run.advances_pure _

theorem placeExtents_ok {aux : FsAuxInfo} {n left len : Nat}
    {res : Option (BlockAllocation × Nat × ExtentPlace)} (hp : ApartFrom P r madeSpans)
    (hL : L.Positive) (hk : L.Keeps aux) (hdraws : Draws L aux n ps fs.aux left) (hne : ps ≠ [])
    (h : placeExtents info force r (freshAlloc ps) len (fs, l) = .ok (res, (fs', l'))) :
    Contained L P D fs fs' ∧ ∀ alloc block place, res = some (alloc, block, place) →
      place = .inode r ∧ alloc.regions.length ≤ 3 ∨
        ∃ d, place = .block d ∧ fs.heap.length ≤ d := by
  have howns := hdraws.owns (⟨hk, by simp, List.Pairwise.nil⟩ : L.Owns aux [])
  rw [List.append_nil] at howns
  rw [placeExtents, numRegions_freshAlloc hne] at h
  obtain ⟨_, st, hexpect, h1⟩ := Run.bind_ok.mp h
  cases hexpect
  split at h1
  · rename_i hfew
    simp only [pure_bind, if_true] at h1
    obtain ⟨alloc, ⟨fs1, l1⟩, hreduce, h2⟩ := Run.bind_ok.mp h1
    obtain ⟨aux1, hrun, rfl⟩ := onAux_ok.mp hreduce
    have hblocks := (reduceAllocation_blocksOnly (freshAlloc ps) 1 _ _ _ _ _ hrun).1
    have hlength := reduceLoop_length hrun
    have hall : L.Owns fs.aux (ps ++ []) := by rwa [List.append_nil]
    obtain ⟨alloc', aux2, hrun', howns'⟩ := reduceAllocation_run l hdraws hne hall
    rw [hrun'] at hrun
    cases hrun
    have hfirst : Fills L P D fs { fs with aux := aux1 } :=
      fills_of_blocks hblocks fun _ => howns'.keeps
    obtain ⟨_, fs3, l3, hfills, -, hend⟩ :=
      (writeExtentHeader_fills hp (Or.inl rfl) _ _ _).next hfirst h2
    cases hend
    refine ⟨hfills howns.keeps, ?_⟩
    rintro alloc block place heq
    cases heq
    refine Or.inl ⟨rfl, hlength.trans_le ?_⟩
    simpa [freshAlloc] using hfew
  · rename_i hmany
    simp only [pure_bind] at h1
    obtain ⟨⟨alloc, c⟩, ⟨fs1, l1⟩, hreserve, h2⟩ := Run.bind_ok.mp h1
    obtain ⟨hcarve, rfl, rfl⟩ := Run.expect_ok hreserve
    obtain ⟨block, ⟨fs2, l2⟩, hget, h3⟩ := Run.bind_ok.mp h2
    obtain ⟨hoob, rfl, rfl⟩ := Run.expect_ok hget
    have hcarved := reserveOobBlocks_carves hcarve L fs2.aux []
      (by rw [freshAlloc_pieces, List.append_nil]; exact howns)
    rw [List.append_nil] at hcarved
    have hblock : ¬ block = 0 := getOobBlock_ne_zero hL hcarved hoob
    simp only [if_neg hblock] at h3
    obtain ⟨place, fs3, l3, hfills, hcreate, h4⟩ :=
      (createExtentBlock_fills hp block _ len).next (refl_of (Fills L P D) fs2) h3
    cases place with
    | none =>
      cases h4
      exact ⟨hfills howns.keeps, by simp⟩
    | some place =>
      cases h4
      refine ⟨hfills howns.keeps, ?_⟩
      rintro alloc block place heq
      cases heq
      exact Or.inr (createExtentBlock_new howns.keeps hp hcreate)

theorem set_anything (place : ExtentPlace) (f : Field) (v : Nat) :
    Run.Advances Anything (place.set f v) := by
  intro fs l a fs' l' hm
  refine ⟨trivial, ?_⟩
  cases place with
  | inode r =>
    obtain ⟨rfl, -⟩ := setField_ok.mp hm
    exact List.prefix_refl _
  | block d =>
    obtain ⟨b, b', -, hpoke, -⟩ := onHeap_ok.mp hm
    exact (pokeAt_advances _ _ _ _ _ _ _ _ hpoke).2

theorem writeExtents_anything (place : ExtentPlace) (fuel : Nat) (alloc : BlockAllocation)
    (i fileBlock : Nat) : Run.Advances Anything (writeExtents place fuel alloc i fileBlock) := by
  induction fuel generalizing alloc i fileBlock with
  | zero => exact Run.Advances.ite (fun _ => Run.advances_pure _) fun _ => Run.advances_crash
  | succ fuel ih =>
    refine Run.Advances.ite (fun _ => Run.advances_pure _) fun _ => ?_
    apply (Run.advances_expect _).bind
    intro region
    refine (set_anything _ _ _).bind fun _ => (set_anything _ _ _).bind fun _ => ?_
    refine (set_anything _ _ _).bind fun _ => (set_anything _ _ _).bind fun _ => ?_
    exact (Run.advances_expect _).bind fun alloc' => ih alloc' _ _

theorem doInodeAllocateExtents_anything (hp : ApartFrom P r madeSpans) (L : Layout) (len : Nat) :
    Run.Advances Anything (doInodeAllocateExtents info force r len) := by
  apply (onAux_anything (allocateBlocks_blocksOnly _)).bind
  intro found
  cases found with
  | none => exact (Run.advances_raise force _).bind fun _ => Run.advances_pure _
  | some alloc =>
    apply (placeExtents_anything hp L alloc len).bind
    intro placed
    cases placed with
    | none => exact Run.advances_pure _
    | some placed =>
      obtain ⟨alloc', block, place⟩ := placed
      refine (writeExtents_anything _ _ _ _ _).bind fun _ => ?_
      have hsizes (blockLen : Nat) : Run.Advances Anything (setExtentSizes info r len blockLen) :=
        (setExtentSizes_fills (L := L) (D := fun _ => False) hp len blockLen).mono
          fun _ _ _ => trivial
      exact (hsizes _).bind fun _ => Run.advances_pure _

theorem doInodeAllocateExtents_fills (hp : ApartFrom P r madeSpans) (hL : L.Positive) (len : Nat) :
    Run.Advances (Fills L P D) (doInodeAllocateExtents info force r len) := by
  intro fs l res fs' l' hm
  refine ⟨fun hk => ?_, (doInodeAllocateExtents_anything hp L len _ _ _ _ _ hm).2⟩
  obtain ⟨found, fs1, l1, hfirst, halloc, h1⟩ :=
    (allocateBlocks_fills _).next (refl_of (Fills L P D) fs) hm
  cases found with
  | none =>
    obtain ⟨_, fs2, l2, hraise, -, hend⟩ := (Run.advances_raise force _).next hfirst h1
    cases hend
    exact hraise hk
  | some alloc =>
    obtain ⟨aux, hrun, rfl⟩ := onAux_ok.mp halloc
    obtain ⟨ps, hne, rfl, hdraws⟩ := allocateBlocks_ok (L := L) hrun
    obtain ⟨left, hdraws⟩ := hdraws hk
    obtain ⟨placed, ⟨fs2, l2⟩, hplace, h2⟩ := Run.bind_ok.mp h1
    obtain ⟨hplaced, hwhere⟩ := placeExtents_ok (P := P) (D := D) hp hL hk hdraws hne hplace
    have hsecond : Fills L P D fs fs2 := trans_of (Fills L P D) hfirst fun _ => hplaced
    cases placed with
    | none =>
      cases h2
      exact hsecond hk
    | some placed =>
      obtain ⟨alloc, block, place⟩ := placed
      have hend (D' : Nat → Prop) (hwrite : place.Writable r D')
          (hroom : place = .inode r → 0 + alloc.regions.length ≤ 4) : Fills L P D' fs2 fs' := by
        obtain ⟨_, fs3, l3, hthird, -, h3⟩ := (writeExtents_fills hp hwrite hroom alloc 0).next
          (refl_of (Fills L P D') fs2) h2
        obtain ⟨_, fs4, l4, hfourth, -, h4⟩ := (setExtentSizes_fills hp _ _).next hthird h3
        cases h4
        exact hfourth
      obtain ⟨rfl, hfew⟩ | ⟨d, rfl, hd⟩ := hwhere alloc block place rfl
      · exact trans_of (Fills L P D) hsecond (hend D (Or.inl rfl) fun _ => by omega) hk
      · have hlong : fs.heap.length ≤ d := (hfirst hk).longer.trans hd
        have hrest := hend (fun id => D id ∨ id = d) (Or.inr ⟨d, rfl, Or.inr rfl⟩) (by simp)
        exact hsecond.trans_new hrest hlong hk

end Placing

section Backing

variable {L : Layout} {P : Nat → Nat → Prop} {D : Nat → Prop} {info : FsInfo} {force : Bool}
  {r : InodeRef} {fs fs' : Fs} {l l' : List Ext4Error}

theorem extentCreateBacking_fills (alloc : BlockAllocation) (backingLen : Nat) :
    Run.Advances (Fills L P D) (extentCreateBacking info alloc backingLen) :=
  (calloc_fills _).bind fun _ => (backingLoop_fills (fun _ _ _ => sparseFileAdd_fills _) _ _ _ _).bind
    fun _ => Run.advances_pure _

theorem inodeAllocateDataExtents_fills (hp : ApartFrom P r madeSpans) (hL : L.Positive)
    (len backingLen : Nat) :
    Run.Advances (Fills L P D) (inodeAllocateDataExtents info force r len backingLen) := by
  apply (doInodeAllocateExtents_fills hp hL len).bind
  intro found
  cases found with
  | none => exact (Run.advances_raise force _).bind fun _ => Run.advances_pure _
  | some alloc =>
    refine Run.Advances.ite (fun _ => Run.advances_pure _) fun _ => ?_
    exact (extentCreateBacking_fills alloc backingLen).bind fun _ => Run.advances_pure _

theorem inodeAllocateFileExtents_fills (hp : ApartFrom P r madeSpans) (hL : L.Positive) (len : Nat)
    (filename : List UInt8) :
    Run.Advances (Fills L P D) (inodeAllocateFileExtents info force r len filename) := by
  apply (doInodeAllocateExtents_fills hp hL len).bind
  intro found
  cases found with
  | none => exact (Run.advances_raise force _).bind fun _ => Run.advances_pure _
  | some alloc =>
    exact (extentCreateBackingFile_fills alloc len filename).bind fun _ => Run.advances_pure _

end Backing

end MakeExt4fs

import MakeExt4fs.Allocate.Inodes
import MakeExt4fs.Lib.Evolves

namespace MakeExt4fs

open ErrorLog Words

def SameFrame (b b' : BlockGroupInfo) : Prop := b'.frame = b.frame

instance : IsPreorder BlockGroupInfo SameFrame where
  refl _ := rfl
  trans _ _ _ h h' := Eq.trans h' h

theorem map_set_same {α β : Type} {f : α → β} {xs : List α} {i : Nat} {x y : α}
    (hx : xs[i]? = some x) (h : f y = f x) : (xs.set i y).map f = xs.map f := by
  apply List.ext_getElem?
  intro j
  rw [List.map_set, h, List.getElem?_set]
  split
  · rename_i hij
    subst hij
    rw [List.getElem?_map, hx]
    simp [(List.getElem?_eq_some_iff.mp hx).1]
  · rfl

section Blocks

variable {force : Bool}

theorem reserveBlocks_advances (start num : Nat) :
    Run.Advances SameFrame (BlockGroupInfo.reserveBlocks force start num) := by
  intro b l a b' l' hm
  have hlog : Run.Meets (fun _ => False) (BlockGroupInfo.reserveBlocks force start num)
      (fun _ _ l' => l <+: l') b l := by
    rw [BlockGroupInfo.reserveBlocks, Run.meets_bind, Run.meets_read]
    split
    · exact List.prefix_refl l
    · split
      · simp only [Run.meets_bind, Run.meets_write]
        exact Run.meets_raise id (List.prefix_append l _)
      · exact List.prefix_refl l
  exact ⟨(reserveBlocks_frame force start num b l).ok hm, hlog.ok hm⟩

structure BlocksOnly (aux aux' : FsAuxInfo) : Prop where
  same : aux' = { aux with bgs := aux'.bgs }
  frames : aux'.bgs.map BlockGroupInfo.frame = aux.bgs.map BlockGroupInfo.frame

instance : IsPreorder FsAuxInfo BlocksOnly where
  refl _ := ⟨rfl, rfl⟩
  trans _ _ _ h h' := ⟨by rw [h'.same, h.same], h'.frames.trans h.frames⟩

theorem onGroup_blocksOnly {α : Type} {m : Run Ext4Error BlockGroupInfo α} (i : Nat)
    (h : Run.Advances SameFrame m) : Run.Advances BlocksOnly (onGroup i m) := by
  refine Run.Advances.zoom h ?_
  intro aux b b' hb hframe
  refine ⟨rfl, ?_⟩
  rw [FsAuxInfo.setBg_bgs]
  exact map_set_same hb hframe

theorem allocateFromGroup_blocksOnly (len i : Nat) :
    Run.Advances BlocksOnly (ext4AllocateBlocksFromBlockGroup force len i) := by
  refine onGroup_blocksOnly i (Run.advances_read.bind fun bg => Run.Advances.ite (fun _ => ?_)
    fun _ => ?_)
  · exact Run.advances_pure _
  · refine (reserveBlocks_advances _ _).bind fun r => Run.Advances.ite (fun _ => ?_) fun _ => ?_
    · exact (Run.advances_raise force _).bind fun _ => Run.advances_pure _
    · refine Run.Advances.bind (Run.advances_update ?_) fun _ => Run.advances_pure _
      exact fun _ => rfl

theorem allocateBlockFrom_blocksOnly (groups : List Nat) :
    Run.Advances BlocksOnly (allocateBlockFrom force groups) := by
  induction groups with
  | nil => exact Run.advances_pure _
  | cons i rest ih =>
    refine (allocateFromGroup_blocksOnly 1 i).bind fun block => Run.Advances.ite (fun _ => ?_)
      fun _ => ih
    exact Run.advances_pure _

theorem allocateBlock_blocksOnly : Run.Advances BlocksOnly (allocateBlock force) :=
  Run.advances_read.bind fun _ => allocateBlockFrom_blocksOnly _

theorem bestFitPartial_blocksOnly (len : Nat) :
    Run.Advances BlocksOnly (ext4AllocateBestFitPartial force len) := by
  refine Run.advances_read.bind fun aux => ?_
  refine Run.Advances.ite (fun _ => ?_) fun _ => ?_
  · exact (Run.advances_raise force _).bind fun _ => Run.advances_pure _
  · refine (allocateFromGroup_blocksOnly _ _).bind fun block => Run.Advances.ite (fun _ => ?_)
      fun _ => ?_
    · exact (Run.advances_raise force _).bind fun _ => Run.advances_pure _
    · exact Run.advances_pure _

theorem bestFitLoop_blocksOnly (fuel len : Nat) :
    Run.Advances BlocksOnly (bestFitLoop force fuel len) := by
  induction fuel generalizing len with
  | zero =>
    exact Run.Advances.ite (fun _ => Run.advances_pure _) fun _ => Run.advances_crash
  | succ fuel ih =>
    refine Run.Advances.ite (fun _ => Run.advances_pure _) fun _ => ?_
    refine (bestFitPartial_blocksOnly len).bind fun reg => ?_
    cases reg with
    | none => exact Run.advances_pure _
    | some reg =>
      refine (ih _).bind fun rest => ?_
      cases rest <;> exact Run.advances_pure _

theorem bestFit_blocksOnly (len : Nat) : Run.Advances BlocksOnly (ext4AllocateBestFit force len) :=
  (bestFitLoop_blocksOnly len len).bind fun _ => Run.advances_pure _

theorem allocateBlocks_blocksOnly (len : Nat) :
    Run.Advances BlocksOnly (allocateBlocks force len) := by
  refine (bestFit_blocksOnly len).bind fun ps => ?_
  cases ps <;> exact Run.advances_pure _

theorem releaseBlocks_advances (n : Nat) : Run.Advances SameFrame
    (Run.update fun bg => bg.releaseBlocks n : Run Ext4Error BlockGroupInfo Unit) :=
  Run.advances_update fun _ => rfl

theorem reduceLoop_blocksOnly (fuel : Nat) (alloc : BlockAllocation) (len : Nat) :
    Run.Advances BlocksOnly (reduceLoop fuel alloc len) := by
  induction fuel generalizing alloc len with
  | zero => cases len <;> first | exact Run.advances_pure _ | exact Run.advances_crash
  | succ fuel ih =>
    cases len with
    | zero => exact Run.advances_pure _
    | succ len =>
      refine (Run.advances_expect _).bind fun lastReg => Run.Advances.ite (fun _ => ?_) fun _ => ?_
      · refine (onGroup_blocksOnly _ (releaseBlocks_advances _)).bind fun _ => ?_
        exact (Run.advances_expect _).bind fun _ => Run.advances_pure _
      · refine (onGroup_blocksOnly _ (releaseBlocks_advances _)).bind fun _ => ?_
        cases lastReg.prev with
        | none =>
          simp only [pure_bind]
          exact (Run.advances_expect _).bind fun _ => ih _ _
        | some p =>
          simp only [pure_bind]
          refine (Run.advances_expect _).bind fun _ => ?_
          exact (Run.advances_expect _).bind fun _ => ih _ _

theorem reduceAllocation_blocksOnly (alloc : BlockAllocation) (len : Nat) :
    Run.Advances BlocksOnly (reduceAllocation alloc len) := reduceLoop_blocksOnly len alloc len

theorem appendOobAllocation_blocksOnly (alloc : BlockAllocation) (len : Nat) :
    Run.Advances BlocksOnly (appendOobAllocation force alloc len) := by
  refine (bestFit_blocksOnly len).bind fun ps => ?_
  cases ps with
  | nil => exact (Run.advances_raise force _).bind fun _ => Run.advances_pure _
  | cons reg rest => exact (Run.advances_expect _).bind fun _ => Run.advances_pure _

end Blocks

def FsAuxInfo.table (aux : FsAuxInfo) (bg : Nat) : Buffer :=
  (aux.bgs[bg]?.bind BlockGroupInfo.inodeTable).getD (.zeros 0)

def Fs.field (fs : Fs) (r : InodeRef) (f : Field) : Nat :=
  (fs.aux.table r.bg).getLE (r.off + f.off) f.size

def KeepsBytes (P : Nat → Nat → Prop) (fs fs' : Fs) : Prop :=
  ∀ bg i, P bg i → (fs'.aux.table bg).get i = (fs.aux.table bg).get i

def Off (P : Nat → Nat → Prop) (r : InodeRef) (f : Field) : Prop :=
  ∀ i, r.off + f.off ≤ i → i < r.off + f.off + f.size → ¬ P r.bg i

def Field.Bytes (r : InodeRef) (f : Field) (bg i : Nat) : Prop :=
  bg = r.bg ∧ r.off + f.off ≤ i ∧ i < r.off + f.off + f.size

def BlockGroupInfo.withTable (b : BlockGroupInfo) (t : Buffer) : BlockGroupInfo :=
  { b with inodeTable := some t }

def Fs.withTable (fs : Fs) (i : Nat) (b : BlockGroupInfo) (t : Buffer) : Fs :=
  { fs with aux := fs.aux.setBg i (b.withTable t) }

theorem onTable_ok {α : Type} {r : InodeRef} {m : Run Ext4Error Buffer α} {fs fs' : Fs}
    {l l' : List Ext4Error} {a : α} : onTable r m (fs, l) = .ok (a, (fs', l')) ↔
      ∃ b t t', fs.aux.bgs[r.bg]? = some b ∧ b.inodeTable = some t ∧
        m (t, l) = .ok (a, (t', l')) ∧
        fs' = fs.withTable r.bg b t' := by
  unfold onTable onAux onGroup Run.zoom
  cases hb : fs.aux.bgs[r.bg]? with
  | none => simp [hb]
  | some b =>
    cases ht : b.inodeTable with
    | none => simp [hb, ht]
    | some t =>
      cases hm : m (t, l) with
      | error e => simp [hb, ht, hm]
      | ok p =>
        obtain ⟨c, t', l1⟩ := p
        simp only [hb, ht, hm, Except.ok.injEq, Prod.mk.injEq, Option.some.injEq]
        constructor
        · rintro ⟨rfl, rfl, rfl⟩
          exact ⟨b, t, t', rfl, ht, hm, rfl⟩
        · rintro ⟨b1, t1, t2, rfl, h1, h2, rfl⟩
          obtain rfl := Option.some.inj (ht.symm.trans h1)
          rw [hm] at h2
          cases h2
          exact ⟨rfl, rfl, rfl⟩

section Tables

variable {P : Nat → Nat → Prop} {r : InodeRef} {f g : Field}

instance : IsPreorder Fs (KeepsBytes P) where
  refl _ _ _ _ := rfl
  trans _ _ _ h h' bg i hp := (h' bg i hp).trans (h bg i hp)

theorem KeepsBytes.field {fs fs' : Fs} (h : KeepsBytes P fs fs')
    (hp : ∀ bg i, Field.Bytes r f bg i → P bg i) : fs'.field r f = fs.field r f :=
  Buffer.getLE_congr fun i h1 h2 => h r.bg i (hp r.bg i ⟨rfl, h1, h2⟩)

theorem off_of_apart (h : g.off + g.size ≤ f.off ∨ f.off + f.size ≤ g.off) :
    Off (Field.Bytes r f) r g := by
  rintro i h1 h2 ⟨-, h3, h4⟩
  omega

theorem table_of_frames {aux aux' : FsAuxInfo} (h : BlocksOnly aux aux') (bg : Nat) :
    aux'.table bg = aux.table bg := by
  have hframe := congrArg (fun l => (l[bg]?).bind BlockGroupInfo.inodeTable) h.frames
  simp only [List.getElem?_map, Option.bind_map, Function.comp_def] at hframe
  exact congrArg (fun o => o.getD (Buffer.zeros 0)) hframe

theorem sparseFileAdd_keepsBytes (c : Chunk) : Run.Evolves (KeepsBytes P) (sparseFileAdd c) :=
  Run.evolves_update fun _ _ _ _ => rfl

theorem calloc_keepsBytes (size : Nat) : Run.Evolves (KeepsBytes P) (calloc size) := by
  intro s l a s' l' hm
  cases hm
  exact fun _ _ _ => rfl

theorem onHeap_keepsBytes {α : Type} (id : Nat) (m : Run Ext4Error Buffer α) :
    Run.Evolves (KeepsBytes P) (onHeap id m) :=
  Run.Evolves.zoom (S := fun _ _ => True) (fun _ _ _ _ _ _ => trivial) fun _ _ _ _ _ _ _ _ => rfl

theorem setHeap_keepsBytes (id off n v : Nat) : Run.Evolves (KeepsBytes P) (setHeap id off n v) :=
  onHeap_keepsBytes id _

theorem table_withTable {fs : Fs} {i : Nat} {b : BlockGroupInfo} (hb : fs.aux.bgs[i]? = some b)
    (t : Buffer) (bg : Nat) : (fs.withTable i b t).aux.table bg =
      if bg = i then t else fs.aux.table bg := by
  have hlt := (List.getElem?_eq_some_iff.mp hb).1
  rw [FsAuxInfo.table, Fs.withTable, FsAuxInfo.setBg_bgs, List.getElem?_set]
  by_cases hi : bg = i
  · simp [hi, hlt, BlockGroupInfo.withTable]
  · rw [if_neg (Ne.symm hi), if_neg hi]
    rfl

theorem table_of_group {aux : FsAuxInfo} {i : Nat} {b : BlockGroupInfo} {t : Buffer}
    (hb : aux.bgs[i]? = some b) (ht : b.inodeTable = some t) : aux.table i = t := by
  rw [FsAuxInfo.table, hb]
  simp [ht]

theorem withTable_self {fs : Fs} {i : Nat} {b : BlockGroupInfo} {t : Buffer}
    (hb : fs.aux.bgs[i]? = some b) (ht : b.inodeTable = some t) : fs.withTable i b t = fs := by
  obtain ⟨hlt, hget⟩ := List.getElem?_eq_some_iff.mp hb
  have hself : b.withTable t = b := by rw [BlockGroupInfo.withTable, ← ht]
  rw [Fs.withTable, hself, FsAuxInfo.setBg, ← hget, List.set_getElem_self]

theorem onTable_keepsBytes {α : Type} {m : Run Ext4Error Buffer α}
    (h : Run.Evolves (fun t t' => ∀ i, P r.bg i → t'.get i = t.get i) m) :
    Run.Evolves (KeepsBytes P) (onTable r m) := by
  intro fs l a fs' l' hm
  obtain ⟨b, t, t', hb, ht, hrun, rfl⟩ := onTable_ok.mp hm
  intro bg i hp
  rw [table_withTable hb]
  split
  · rename_i hbg
    subst hbg
    rw [table_of_group hb ht]
    exact h t l a t' l' hrun i hp
  · rfl

theorem pokeAt_ok {t t' : Buffer} {l l' : List Ext4Error} {off n v : Nat} :
    pokeAt off n v (t, l) = .ok ((), (t', l')) ↔
      off + n ≤ t.size ∧ t' = t.putLE off n v ∧ l' = l := by
  simp only [pokeAt, Run.bind_run, Run.read_run, pokeBuffer]
  split
  · simp_all [eq_comm]
  · simp_all

theorem setField_ok {fs fs' : Fs} {l l' : List Ext4Error} {v : Nat} :
    setField r f v (fs, l) = .ok ((), (fs', l')) ↔ l' = l ∧
      ∃ b t, fs.aux.bgs[r.bg]? = some b ∧ b.inodeTable = some t ∧ r.off + f.off + f.size ≤ t.size ∧
        fs' = fs.withTable r.bg b (t.putLE (r.off + f.off) f.size v) := by
  simp only [setField, onTable_ok, pokeAt_ok]
  constructor
  · rintro ⟨b, t, t', hb, ht, ⟨hle, rfl, rfl⟩, rfl⟩
    exact ⟨rfl, b, t, hb, ht, hle, rfl⟩
  · rintro ⟨rfl, b, t, hb, ht, hle, rfl⟩
    exact ⟨b, t, _, hb, ht, ⟨hle, rfl, rfl⟩, rfl⟩

theorem setField_keepsBytes (hoff : Off P r f) (v : Nat) :
    Run.Evolves (KeepsBytes P) (setField r f v) := by
  apply onTable_keepsBytes
  intro t l a t' l' hm i hp
  obtain ⟨-, rfl, -⟩ := pokeAt_ok.mp hm
  apply Buffer.get_putLE_of_apart
  by_contra hin
  exact hoff i (by omega) (by omega) hp

theorem getField_run (r : InodeRef) (f : Field) {fs fs' : Fs} {l l' : List Ext4Error} {v : Nat}
    (h : getField r f (fs, l) = .ok (v, (fs', l'))) : fs' = fs ∧ l' = l ∧ v = fs.field r f := by
  obtain ⟨b, t, t', hb, ht, hm, rfl⟩ := onTable_ok.mp h
  cases hm
  exact ⟨withTable_self hb ht, rfl, by rw [Fs.field, table_of_group hb ht]⟩

theorem field_setField {fs fs' : Fs} {l l' : List Ext4Error} {v : Nat}
    (h : setField r f v (fs, l) = .ok ((), (fs', l'))) : fs'.field r f = v % 256 ^ f.size := by
  obtain ⟨-, b, t, hb, ht, hle, rfl⟩ := setField_ok.mp h
  rw [Fs.field, table_withTable hb, if_pos rfl]
  exact Buffer.getLE_putLE t _ _ v hle

theorem setField_keeps (h : g.off + g.size ≤ f.off ∨ f.off + f.size ≤ g.off) {fs fs' : Fs}
    {l l' : List Ext4Error} {v : Nat} (hm : setField r g v (fs, l) = .ok ((), (fs', l'))) :
    fs'.field r f = fs.field r f :=
  KeepsBytes.field (setField_keepsBytes (off_of_apart h) v fs l () fs' l' hm) fun _ _ h => h

def inodeRef (info : FsInfo) (n : Nat) : InodeRef :=
  ⟨sub32 n 1 / info.inodesPerGroup.val,
    u32 (sub32 n 1 % info.inodesPerGroup.val * info.inodeSize.val)⟩

def tableChunk (info : FsInfo) (aux : FsAuxInfo) (i : Nat) (b : BlockGroupInfo) : Chunk :=
  .data (.inodeTable i) (u32 (aux.inodeTableBlocks * info.blockSize.val))
    (inodeTableBlock info aux b)

def openedGroup (info : FsInfo) (aux : FsAuxInfo) (b : BlockGroupInfo) : BlockGroupInfo :=
  if b.inodeTable.isSome then b
  else { b with
    inodeTable := some (.zeros (aux.inodeTableBlocks * info.blockSize.val))
    flags := b.flags / 2 * 2 }

def openedChunks (info : FsInfo) (aux : FsAuxInfo) (i : Nat) (b : BlockGroupInfo) : List Chunk :=
  if b.inodeTable.isSome then [] else [tableChunk info aux i b]

theorem allocateBgInodeTable_ok {info : FsInfo} {i : Nat} {fs fs' : Fs} {l l' : List Ext4Error}
    (h : allocateBgInodeTable info i (fs, l) = .ok ((), (fs', l'))) : l' = l ∧
      ∃ b, fs.aux.bgs[i]? = some b ∧ fs' = { fs with
        aux := fs.aux.setBg i (openedGroup info fs.aux b)
        sparse := fs.sparse ++ openedChunks info fs.aux i b } := by
  simp only [allocateBgInodeTable, Run.bind_run, Run.read_run] at h
  cases hb : fs.aux.bgs[i]? with
  | none => simp [hb] at h
  | some b =>
    simp only [hb] at h
    cases ht : b.inodeTable with
    | some t =>
      have hsame : fs.aux.setBg i b = fs.aux := by
        obtain ⟨hlt, hget⟩ := List.getElem?_eq_some_iff.mp hb
        rw [FsAuxInfo.setBg, ← hget, List.set_getElem_self]
      simp only [ht, Option.isSome_some, if_true] at h
      cases h
      exact ⟨rfl, b, rfl, by simp [openedGroup, openedChunks, ht, hsame]⟩
    | none =>
      simp only [ht, Option.isSome_none, Bool.false_eq_true, if_false, Run.bind_run,
        sparseFileAddData, sparseFileAdd, Run.update_run, onAux, onGroup, Run.zoom, hb] at h
      cases h
      exact ⟨rfl, b, rfl, by simp [openedGroup, openedChunks, ht, tableChunk]⟩

theorem getInode_ok {info : FsInfo} {n : Nat} {fs fs' : Fs} {l l' : List Ext4Error}
    (h : getInode info n (fs, l) = .ok (r, (fs', l'))) : l' = l ∧ r = inodeRef info n ∧
      ∃ b, fs.aux.bgs[r.bg]? = some b ∧ fs' = { fs with
        aux := fs.aux.setBg r.bg (openedGroup info fs.aux b)
        sparse := fs.sparse ++ openedChunks info fs.aux r.bg b } := by
  unfold getInode at h
  dsimp only at h
  split at h
  · cases h
  · obtain ⟨⟨⟩, ⟨fs1, l1⟩, hopen, hend⟩ := Run.bind_ok.mp h
    cases hend
    obtain ⟨rfl, b, hb, rfl⟩ := allocateBgInodeTable_ok hopen
    exact ⟨rfl, rfl, b, hb, rfl⟩

theorem table_openedGroup {info : FsInfo} {aux : FsAuxInfo} {i : Nat} {b : BlockGroupInfo}
    (hb : aux.bgs[i]? = some b) (bg k : Nat) :
    ((aux.setBg i (openedGroup info aux b)).table bg).get k = (aux.table bg).get k := by
  have hlt := (List.getElem?_eq_some_iff.mp hb).1
  rw [FsAuxInfo.table, FsAuxInfo.setBg_bgs, List.getElem?_set]
  by_cases hi : bg = i
  · subst hi
    rw [FsAuxInfo.table, hb, if_pos rfl, if_pos hlt, openedGroup]
    cases ht : b.inodeTable with
    | some t => simp [ht]
    | none => simp [ht, Buffer.get_zeros]
  · rw [if_neg (Ne.symm hi)]
    rfl

end Tables

end MakeExt4fs

import MakeExt4fs.Allocate.Numbers
import MakeExt4fs.Allocate.Pool
import MakeExt4fs.Contents.Files
import MakeExt4fs.Contents.XattrAdd

namespace MakeExt4fs

open ErrorLog Words

def Fs.Plain (fs : Fs) (id : Nat) : Prop :=
  id < fs.heap.length ∧ ∀ e ∈ fs.aux.xattrs, e.2 ≠ id

def Fs.Known (fs : Fs) : Prop := ∀ e ∈ fs.aux.xattrs, e.2 < fs.heap.length

-- The bytes of the inode tables that P names, the memory but for what D names, and what was queued
-- stay what they were.
structure LeavesAlone (P : Nat → Nat → Prop) (D : Nat → Prop) (fs fs' : Fs) : Prop where
  bytes : KeepsBytes P fs fs'
  heap : ∀ id, fs.Plain id → ¬ D id → fs'.Plain id ∧ fs'.heap[id]? = fs.heap[id]?
  longer : fs.heap.length ≤ fs'.heap.length
  queue : fs.sparse <+: fs'.sparse
  known : fs.Known → fs'.Known

def BlockGroupInfo.inodes (b : BlockGroupInfo) : Nat × Nat × Nat × Nat :=
  (b.inodeBitmap, b.freeInodes, b.firstFreeInode, b.usedDirs)

def OnGroups (fs fs' : Fs) : Prop :=
  fs'.aux = { fs.aux with bgs := fs'.aux.bgs, xattrs := fs'.aux.xattrs }

structure Contained (L : Layout) (P : Nat → Nat → Prop) (D : Nat → Prop) (fs fs' : Fs) : Prop
    extends LeavesAlone P D fs fs' where
  keeps : L.Keeps fs'.aux
  same : OnGroups fs fs'
  inodes : fs'.aux.bgs.map BlockGroupInfo.inodes = fs.aux.bgs.map BlockGroupInfo.inodes

def Fills (L : Layout) (P : Nat → Nat → Prop) (D : Nat → Prop) (fs fs' : Fs) : Prop :=
  L.Keeps fs.aux → Contained L P D fs fs'

section Order

variable {L : Layout} {P P' : Nat → Nat → Prop} {D D' : Nat → Prop} {fs fs' fs'' : Fs}

instance : IsPreorder Fs OnGroups where
  refl _ := rfl
  trans fs fs' fs'' h h' := by
    unfold OnGroups at h h' ⊢
    rw [h', h]

instance : IsPreorder Fs (LeavesAlone P D) where
  refl fs := ⟨refl_of (KeepsBytes P) fs, fun _ h _ => ⟨h, rfl⟩, le_rfl, List.prefix_refl _, id⟩
  trans fs fs' fs'' h h' := by
    refine ⟨trans_of (KeepsBytes P) h.bytes h'.bytes, ?_, h.longer.trans h'.longer,
      h.queue.trans h'.queue, fun hx => h'.known (h.known hx)⟩
    intro id hid hd
    obtain ⟨hplain, hsame⟩ := h.heap id hid hd
    obtain ⟨hplain', hsame'⟩ := h'.heap id hplain hd
    exact ⟨hplain', hsame'.trans hsame⟩

theorem LeavesAlone.mono (h : LeavesAlone P D fs fs') (hp : ∀ bg i, P' bg i → P bg i)
    (hd : ∀ id, D id → D' id) : LeavesAlone P' D' fs fs' :=
  ⟨fun bg i hi => h.bytes bg i (hp bg i hi),
    fun id hid hn => h.heap id hid fun hd' => hn (hd id hd'), h.longer, h.queue, h.known⟩

theorem LeavesAlone.allow (h : LeavesAlone P (fun _ => False) fs fs') (D : Nat → Prop) :
    LeavesAlone P D fs fs' := h.mono (fun _ _ => id) fun _ => False.elim

theorem LeavesAlone.trans_new {d : Nat} (h : LeavesAlone P D fs fs')
    (h' : LeavesAlone P (fun id => D id ∨ id = d) fs' fs'') (hd : fs.heap.length ≤ d) :
    LeavesAlone P D fs fs'' := by
  refine ⟨trans_of (KeepsBytes P) h.bytes h'.bytes, ?_, h.longer.trans h'.longer,
    h.queue.trans h'.queue, fun hx => h'.known (h.known hx)⟩
  intro id hid hn
  obtain ⟨hplain, hsame⟩ := h.heap id hid hn
  have hne : id ≠ d := by
    have := hid.1
    omega
  obtain ⟨hplain', hsame'⟩ := h'.heap id hplain (not_or.mpr ⟨hn, hne⟩)
  exact ⟨hplain', hsame'.trans hsame⟩

instance : IsPreorder Fs (Fills L P D) where
  refl fs h := ⟨refl_of (LeavesAlone P D) fs, h, rfl, rfl⟩
  trans _ _ _ h h' hk := by
    have h1 := h hk
    have h2 := h' h1.keeps
    exact ⟨trans_of (LeavesAlone P D) h1.toLeavesAlone h2.toLeavesAlone, h2.keeps,
      trans_of OnGroups h1.same h2.same, h2.inodes.trans h1.inodes⟩

theorem Fills.trans_new {d : Nat} (h : Fills L P D fs fs')
    (h' : Fills L P (fun id => D id ∨ id = d) fs' fs'') (hd : fs.heap.length ≤ d) :
    Fills L P D fs fs'' := by
  intro hk
  have h1 := h hk
  have h2 := h' h1.keeps
  exact ⟨h1.toLeavesAlone.trans_new h2.toLeavesAlone hd, h2.keeps,
    trans_of OnGroups h1.same h2.same, h2.inodes.trans h1.inodes⟩

def FillsWith (L : Layout) (P : Nat → Nat → Prop) (D : Nat → Prop) (d : Nat) (fs fs' : Fs) : Prop :=
  d < fs.heap.length → Fills L P D fs fs'

instance {d : Nat} : IsPreorder Fs (FillsWith L P D d) where
  refl fs _ := refl_of (Fills L P D) fs
  trans _ _ _ h h' hd hk := by
    have h1 := h hd hk
    exact trans_of (Fills L P D) (h hd) (h' (hd.trans_le h1.longer)) hk

theorem Contained.numbered {info : FsInfo} {k : Nat} (h : Contained L P D fs fs')
    (hn : InodesNumbered info k fs.aux) : InodesNumbered info k fs'.aux := by
  have hlen : fs'.aux.bgs.length = fs.aux.bgs.length := by
    simpa using congrArg List.length h.inodes
  refine ⟨by rw [hlen, hn.length, h.same], ?_⟩
  intro g b hb
  have hget := congrArg (fun l => l[g]?) h.inodes
  simp only [List.getElem?_map, hb, Option.map_some] at hget
  obtain ⟨b0, hb0, heq⟩ := Option.map_eq_some_iff.mp hget.symm
  simp only [BlockGroupInfo.inodes, Prod.mk.injEq] at heq
  obtain ⟨hbits, hfree, hfirst, -⟩ := heq
  have htaken := hn.taken g b0 hb0
  exact ⟨hfree ▸ htaken.free, hfirst ▸ htaken.first, hbits ▸ htaken.bits⟩

end Order

section Steps

variable {L : Layout} {P : Nat → Nat → Prop} {D : Nat → Prop} {α : Type}

theorem fills_of_aux {fs : Fs} {aux : FsAuxInfo} (hkeeps : L.Keeps fs.aux → L.Keeps aux)
    (hbytes : ∀ bg i, P bg i → (aux.table bg).get i = (fs.aux.table bg).get i)
    (hsame : aux = { fs.aux with bgs := aux.bgs })
    (hinodes : aux.bgs.map BlockGroupInfo.inodes = fs.aux.bgs.map BlockGroupInfo.inodes) :
    Fills L P D fs { fs with aux } := by
  have hx : aux.xattrs = fs.aux.xattrs := by rw [hsame]
  have hgroups : OnGroups fs { fs with aux } := by
    change aux = { fs.aux with bgs := aux.bgs, xattrs := aux.xattrs }
    rw [hx]
    exact hsame
  exact fun hk => ⟨⟨hbytes, fun _ h _ => ⟨⟨h.1, hx ▸ h.2⟩, rfl⟩, le_rfl, List.prefix_refl _,
    fun hknown e he => hknown e (hx ▸ he)⟩, hkeeps hk, hgroups, hinodes⟩

theorem keeps_setBg {aux : FsAuxInfo} {i : Nat} {b b' : BlockGroupInfo}
    (hb : aux.bgs[i]? = some b) (hsame : b'.blocks = b.blocks) (h : L.Keeps aux) :
    L.Keeps (aux.setBg i b') := by
  have hgroup := h.group hb
  have hfirst := congrArg BlockGroupInfo.firstBlock hsame
  have hheader := congrArg BlockGroupInfo.headerBlocks hsame
  have hbits := congrArg BlockGroupInfo.blockBitmap hsame
  have hfree := congrArg BlockGroupInfo.freeBlocks hsame
  have hfirstFree := congrArg BlockGroupInfo.firstFreeBlock hsame
  simp only [BlockGroupInfo.blocks] at hfirst hheader hbits hfree hfirstFree
  have hsound := hgroup.sound
  refine h.setBg ⟨hfirst.trans hgroup.first, hheader.trans hgroup.header, ?_, ?_, ?_, ?_, ?_⟩
  · rw [hbits, hfirstFree]
    exact hsound.bits
  · rw [hfree, hfirstFree]
    exact hsound.free
  · rw [hfirstFree]
    exact hsound.hdr_le
  · exact hsound.lim_le
  · rw [hfirstFree]
    exact hsound.first_le

theorem sparseFileAdd_fills (c : Chunk) : Run.Advances (Fills L P D) (sparseFileAdd c) :=
  Run.advances_update fun _ hk => ⟨⟨fun _ _ _ => rfl, fun _ h _ => ⟨h, rfl⟩, le_rfl,
    List.prefix_append _ _, id⟩, hk, rfl, rfl⟩

theorem fills_dirs (fs : Fs) (n : Nat) : Fills L P D fs { fs with dirs := fs.dirs ++ [n] } :=
  fun hk => ⟨⟨fun _ _ _ => rfl, fun _ h _ => ⟨h, rfl⟩, le_rfl, List.prefix_refl _, id⟩, hk, rfl, rfl⟩

theorem fills_calloc (fs : Fs) (size : Nat) :
    Fills L P D fs { fs with heap := fs.heap ++ [.zeros size] } := by
  refine fun hk => ⟨⟨fun _ _ _ => rfl, ?_, by simp, List.prefix_refl _, fun hknown e he => ?_⟩, hk,
    rfl, rfl⟩
  rotate_left
  · exact (hknown e he).trans_le (by simp)
  intro id hid _
  refine ⟨⟨?_, hid.2⟩, List.getElem?_append_left hid.1⟩
  have := hid.1
  simp only [List.length_append]
  omega

theorem calloc_fills (size : Nat) : Run.Advances (Fills L P D) (calloc size) := by
  intro fs l d fs' l' hm
  obtain ⟨rfl, -, rfl⟩ := calloc_ok hm
  exact ⟨fills_calloc fs size, List.prefix_refl _⟩

theorem calloc_bind_fills {f : Nat → Build α} (size : Nat)
    (h : ∀ d, Run.Advances (Fills L P fun id => D id ∨ id = d) (f d)) :
    Run.Advances (Fills L P D) (calloc size >>= f) := by
  intro fs l a fs' l' hm
  obtain ⟨d, ⟨fs1, l1⟩, hcalloc, hrest⟩ := Run.bind_ok.mp hm
  obtain ⟨rfl, rfl, rfl⟩ := calloc_ok hcalloc
  obtain ⟨hfills, hlog⟩ := h _ _ _ _ _ _ hrest
  exact ⟨(fills_calloc fs size).trans_new hfills le_rfl, hlog⟩

theorem calloc_bind_fillsWith {f : Nat → Build α} (size : Nat)
    (h : ∀ d, Run.Advances (FillsWith L P (fun id => D id ∨ id = d) d) (f d)) :
    Run.Advances (Fills L P D) (calloc size >>= f) := by
  intro fs l a fs' l' hm
  obtain ⟨d, ⟨fs1, l1⟩, hcalloc, hrest⟩ := Run.bind_ok.mp hm
  obtain ⟨rfl, rfl, rfl⟩ := calloc_ok hcalloc
  obtain ⟨hfills, hlog⟩ := h _ _ _ _ _ _ hrest
  exact ⟨(fills_calloc fs size).trans_new (hfills (by simp)) le_rfl, hlog⟩

def Anything {σ : Type} (_ _ : σ) : Prop := True

instance {σ : Type} : IsPreorder σ Anything where
  refl _ := trivial
  trans _ _ _ _ _ := trivial

theorem onHeap_fills {id : Nat} {m : OnBuffer α} (h : Run.Advances Anything m) (hd : D id) :
    Run.Advances (Fills L P D) (onHeap id m) := by
  refine h.zoom ?_
  intro fs b b' _ _ hk
  refine ⟨⟨fun _ _ _ => rfl, ?_, by simp, List.prefix_refl _, fun hknown e he => ?_⟩, hk, rfl, rfl⟩
  rotate_left
  · simpa using hknown e he
  intro i hi hn
  have hne : id ≠ i := fun heq => hn (heq ▸ hd)
  exact ⟨⟨by simpa using hi.1, hi.2⟩, List.getElem?_set_ne hne⟩

theorem pokeAt_advances (off n v : Nat) : Run.Advances Anything (pokeAt off n v) := by
  intro t l a t' l' hm
  obtain ⟨-, -, rfl⟩ := pokeAt_ok.mp hm
  exact ⟨trivial, List.prefix_refl _⟩

theorem setHeap_fills {id : Nat} (hd : D id) (off n v : Nat) :
    Run.Advances (Fills L P D) (setHeap id off n v) := onHeap_fills (pokeAt_advances off n v) hd

theorem fills_withTable {fs : Fs} {i : Nat} {b : BlockGroupInfo} {t : Buffer}
    (hb : fs.aux.bgs[i]? = some b)
    (hbytes : ∀ k, P i k → t.get k = (fs.aux.table i).get k) :
    Fills L P D fs (fs.withTable i b t) := by
  refine fills_of_aux (keeps_setBg hb rfl) ?_ rfl ?_
  · intro bg k hp
    have htable := table_withTable hb t bg
    rw [Fs.withTable] at htable
    rw [htable]
    split
    · rename_i hbg
      subst hbg
      exact hbytes k hp
    · rfl
  · rw [FsAuxInfo.setBg_bgs]
    exact map_set_same hb rfl

theorem onTable_fills {r : InodeRef} {m : OnBuffer α}
    (h : Run.Advances (fun t t' => ∀ i, P r.bg i → t'.get i = t.get i) m) :
    Run.Advances (Fills L P D) (onTable r m) := by
  intro fs l a fs' l' hm
  obtain ⟨b, t, t', hb, ht, hrun, rfl⟩ := onTable_ok.mp hm
  obtain ⟨hbytes, hlog⟩ := h t l a t' l' hrun
  refine ⟨fills_withTable hb ?_, hlog⟩
  rw [table_of_group hb ht]
  exact hbytes

theorem setField_fills {r : InodeRef} {f : Field} (hoff : Off P r f) (v : Nat) :
    Run.Advances (Fills L P D) (setField r f v) := by
  apply onTable_fills
  intro t l a t' l' hm
  obtain ⟨-, rfl, rfl⟩ := pokeAt_ok.mp hm
  refine ⟨?_, List.prefix_refl _⟩
  intro i hp
  apply Buffer.get_putLE_of_apart
  by_contra hin
  exact hoff i (by omega) (by omega) hp

theorem getField_fills (r : InodeRef) (f : Field) : Run.Advances (Fills L P D) (getField r f) := by
  intro fs l v fs' l' hm
  obtain ⟨rfl, rfl, -⟩ := getField_run r f hm
  exact ⟨refl_of (Fills L P D) _, List.prefix_refl _⟩

theorem orField_fills {r : InodeRef} {f : Field} (hoff : Off P r f) (v : Nat) :
    Run.Advances (Fills L P D) (orField r f v) :=
  (getField_fills r f).bind fun _ => setField_fills hoff _

theorem getInode_fills (info : FsInfo) (n : Nat) : Run.Advances (Fills L P D) (getInode info n) := by
  intro fs l r fs' l' hm
  obtain ⟨rfl, -, b, hb, rfl⟩ := getInode_ok hm
  have hinodes : (openedGroup info fs.aux b).inodes = b.inodes := by
    rw [openedGroup]
    split <;> rfl
  have hblocks : (openedGroup info fs.aux b).blocks = b.blocks := by
    rw [openedGroup]
    split <;> rfl
  refine ⟨fun hk => ⟨⟨fun bg i _ => table_openedGroup hb bg i, fun _ h _ => ⟨h, rfl⟩, le_rfl,
    List.prefix_append _ _, id⟩, keeps_setBg hb hblocks hk, rfl, ?_⟩, List.prefix_refl _⟩
  change (fs.aux.bgs.set r.bg (openedGroup info fs.aux b)).map _ = _
  exact map_set_same hb hinodes

theorem table_setBg {aux : FsAuxInfo} {i : Nat} {b b' : BlockGroupInfo} (hb : aux.bgs[i]? = some b)
    (hsame : b'.inodeTable = b.inodeTable) (bg : Nat) : (aux.setBg i b').table bg = aux.table bg := by
  have hlt := (List.getElem?_eq_some_iff.mp hb).1
  rw [FsAuxInfo.table, FsAuxInfo.setBg_bgs, List.getElem?_set]
  by_cases hi : i = bg
  · subst hi
    rw [if_pos rfl, if_pos hlt, FsAuxInfo.table, hb, Option.bind_some, Option.bind_some, hsame]
  · rw [if_neg hi]
    rfl

end Steps

section Blocks

variable {L : Layout} {P : Nat → Nat → Prop} {D : Nat → Prop} {force : Bool} {fs : Fs}
  {aux aux' : FsAuxInfo} {l l' : List Ext4Error}

theorem fills_of_blocks (h : BlocksOnly fs.aux aux') (hkeeps : L.Keeps fs.aux → L.Keeps aux') :
    Fills L P D fs { fs with aux := aux' } := by
  refine fills_of_aux hkeeps (fun bg i _ => by rw [table_of_frames h]) h.same ?_
  have hmap := congrArg (List.map BlockGroupInfo.inodes) h.frames
  simp only [List.map_map] at hmap
  exact hmap

theorem bestFit_keeps {len : Nat} {ps : List Piece} (hk : L.Keeps aux)
    (h : ext4AllocateBestFit force len (aux, l) = .ok (ps, (aux', l'))) : L.Keeps aux' := by
  obtain ⟨found, ⟨aux1, l1⟩, hloop, hend⟩ := Run.bind_ok.mp h
  cases hend
  obtain ⟨qs, aux2, left, hdraws, ⟨-, -, hrun⟩ | ⟨-, e, -, hrun⟩⟩ :=
    bestFitLoop_run force l len le_rfl hk
  all_goals
    have howns := hdraws.owns (⟨hk, by simp, List.Pairwise.nil⟩ : L.Owns aux [])
    rw [hrun] at hloop
  · cases hloop
    exact howns.keeps
  · obtain ⟨⟨⟩, ⟨aux3, l3⟩, hraise, hend⟩ := Run.bind_ok.mp hloop
    cases hend
    obtain rfl := Run.evolves_raise (R := Eq) force e _ _ _ _ _ hraise
    exact howns.keeps

theorem allocateBlocks_keeps {len : Nat} {r : Option BlockAllocation} (hk : L.Keeps aux)
    (h : allocateBlocks force len (aux, l) = .ok (r, (aux', l'))) : L.Keeps aux' := by
  obtain ⟨ps, ⟨aux1, l1⟩, hfit, hend⟩ := Run.bind_ok.mp h
  have hkeeps := bestFit_keeps hk hfit
  cases ps <;> cases hend <;> exact hkeeps

theorem allocateBlocks_ok {len : Nat} {alloc : BlockAllocation}
    (h : allocateBlocks force len (aux, l) = .ok (some alloc, (aux', l'))) :
    ∃ ps, ps ≠ [] ∧ alloc = freshAlloc ps ∧
      (L.Keeps aux → ∃ left, Draws L aux len ps aux' left) := by
  have hshape : ∃ ps, ps ≠ [] ∧ alloc = freshAlloc ps := by
    obtain ⟨ps, ⟨aux1, l1⟩, -, hend⟩ := Run.bind_ok.mp h
    cases ps with
    | nil => cases hend
    | cons p rest =>
      cases hend
      exact ⟨p :: rest, by simp, rfl⟩
  obtain ⟨ps, hne, rfl⟩ := hshape
  refine ⟨ps, hne, rfl, fun hk => ?_⟩
  obtain ⟨qs, aux1, left, hdraws, ⟨-, -, hrun⟩ | ⟨-, e, -, hrun⟩⟩ :=
    allocateBlocks_run force len l hk
  · rw [hrun] at h
    simp only [Except.ok.injEq, Prod.mk.injEq] at h
    obtain ⟨hsome, rfl, rfl⟩ := h
    split at hsome
    · cases hsome
    · have hpieces := congrArg BlockAllocation.pieces (Option.some.inj hsome)
      rw [freshAlloc_pieces, freshAlloc_pieces] at hpieces
      exact ⟨left, hpieces ▸ hdraws⟩
  · rw [hrun] at h
    obtain ⟨⟨⟩, st, -, hend⟩ := Run.bind_ok.mp h
    cases hend

theorem allocateBlocks_fills (len : Nat) :
    Run.Advances (Fills L P D) (onAux (allocateBlocks force len)) := by
  intro fs l r fs' l' hm
  obtain ⟨aux, hrun, rfl⟩ := onAux_ok.mp hm
  obtain ⟨hblocks, hlog⟩ := allocateBlocks_blocksOnly len _ _ _ _ _ hrun
  exact ⟨fills_of_blocks hblocks fun hk => allocateBlocks_keeps hk hrun, hlog⟩

theorem allocateBlock_fills : Run.Advances (Fills L P D) (onAux (allocateBlock force)) := by
  intro fs l r fs' l' hm
  obtain ⟨aux, hrun, rfl⟩ := onAux_ok.mp hm
  obtain ⟨hblocks, hlog⟩ := allocateBlock_blocksOnly _ _ _ _ _ hrun
  refine ⟨fills_of_blocks hblocks fun hk => ?_, hlog⟩
  obtain ⟨b, aux1, qs, hrun1, howns, -⟩ :=
    allocateBlock_run force l (⟨hk, by simp, List.Pairwise.nil⟩ : L.Owns fs.aux [])
  rw [hrun1] at hrun
  cases hrun
  exact howns.keeps

theorem appendOobAllocation_fills (alloc : BlockAllocation) (len : Nat) :
    Run.Advances (Fills L P D) (onAux (appendOobAllocation force alloc len)) := by
  intro fs l r fs' l' hm
  obtain ⟨aux, hrun, rfl⟩ := onAux_ok.mp hm
  obtain ⟨hblocks, hlog⟩ := appendOobAllocation_blocksOnly alloc len _ _ _ _ _ hrun
  refine ⟨fills_of_blocks hblocks fun hk => ?_, hlog⟩
  obtain ⟨ps, ⟨aux1, l1⟩, hfit, hend⟩ := Run.bind_ok.mp hrun
  have hkeeps := bestFit_keeps hk hfit
  cases ps with
  | nil =>
    obtain ⟨⟨⟩, ⟨aux2, l2⟩, hraise, hend⟩ := Run.bind_ok.mp hend
    cases hend
    obtain rfl := Run.evolves_raise (R := Eq) force _ _ _ _ _ _ hraise
    exact hkeeps
  | cons reg rest =>
    obtain ⟨alloc', ⟨aux2, l2⟩, hexpect, hend⟩ := Run.bind_ok.mp hend
    cases hend
    obtain rfl := Run.evolves_expect (R := Eq) _ _ _ _ _ _ hexpect
    exact hkeeps

end Blocks

end MakeExt4fs

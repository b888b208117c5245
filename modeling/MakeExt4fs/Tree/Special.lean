import MakeExt4fs.Tree.Make
import MakeExt4fs.Tree.NewNodes

namespace MakeExt4fs

open ErrorLog Words

theorem htonl_digits {a b c d : Nat} (ha : a < 256) (hb : b < 256) (hc : c < 256) (hd : d < 256) :
    htonl (a * 16777216 + b * 65536 + c * 256 + d) = d * 16777216 + c * 65536 + b * 256 + a := by
  unfold htonl
  omega

theorem htonl_htonl (n : Nat) : htonl (htonl n) = u32 n := by
  have hbyte (m : Nat) : m % 256 < 256 := Nat.mod_lt m (by decide)
  have h1 : n / 65536 = n / 256 / 256 := by rw [Nat.div_div_eq_div_mul]
  have h2 : n / 16777216 = n / 256 / 256 / 256 := by rw [Nat.div_div_eq_div_mul, Nat.div_div_eq_div_mul]
  have hdigits : htonl (htonl n) = _ := htonl_digits (hbyte n) (hbyte _) (hbyte _) (hbyte _)
  rw [hdigits, h2, h1, u32]
  omega

def be32At (b : Buffer) (off : Nat) : Nat := htonl (b.getLE off 4)

section Writing

variable {info : FsInfo} {data : Nat} {fs fs' : Fs} {l l' : List Ext4Error} {b : Buffer}

theorem setBe32_ok {p : Field × Nat} (hsize : p.1.size = 4) (hb : fs.heap[data]? = some b)
    (h : setBe32 data p.1 p.2 (fs, l) = .ok ((), (fs', l'))) :
    p.1.off + 4 ≤ b.size ∧ l' = l ∧
      fs' = { fs with heap := fs.heap.set data (b.putLE p.1.off 4 (htonl p.2)) } := by
  rw [setBe32, hsize] at h
  obtain ⟨b0, b1, hb0, hpoke, rfl⟩ := onHeap_ok.mp h
  obtain ⟨hin, rfl, rfl⟩ := pokeAt_ok.mp hpoke
  cases hb.symm.trans hb0
  exact ⟨hin, rfl, rfl⟩

def FieldsApart (ps : List (Field × Nat)) : Prop :=
  ps.Pairwise fun p q => p.1.off + 4 ≤ q.1.off ∨ q.1.off + 4 ≤ p.1.off

structure Sets (ps : List (Field × Nat)) (b b' : Buffer) : Prop where
  size : b'.size = b.size
  fields : ∀ p ∈ ps, be32At b' p.1.off = u32 p.2
  others : ∀ i, (∀ p ∈ ps, i < p.1.off ∨ p.1.off + 4 ≤ i) → b'.get i = b.get i

theorem setBe32_each {ps : List (Field × Nat)} (hsize : ∀ p ∈ ps, p.1.size = 4)
    (hapart : FieldsApart ps) (hb : fs.heap[data]? = some b)
    (h : Run.each ps (fun p => setBe32 data p.1 p.2) (fs, l) = .ok ((), (fs', l'))) :
    ∃ b', fs' = { fs with heap := fs.heap.set data b' } ∧ Sets ps b b' := by
  induction ps generalizing fs b l with
  | nil =>
    cases h
    obtain ⟨hlt, rfl⟩ := List.getElem?_eq_some_iff.mp hb
    refine ⟨fs'.heap[data], ?_, rfl, by simp, fun _ _ => rfl⟩
    rw [List.set_getElem_self]
  | cons p rest ih =>
    obtain ⟨⟨⟩, ⟨fs1, l1⟩, hset, hrest⟩ := Run.bind_ok.mp h
    obtain ⟨hin, rfl, rfl⟩ := setBe32_ok (hsize p List.mem_cons_self) hb hset
    obtain ⟨hfirst, hothers⟩ := List.pairwise_cons.mp hapart
    have hlt := (List.getElem?_eq_some_iff.mp hb).1
    obtain ⟨b', rfl, hsets⟩ := ih (fun q hq => hsize q (List.mem_cons_of_mem p hq)) hothers
      (List.getElem?_set_self hlt) hrest
    refine ⟨b', by rw [List.set_set], hsets.size, ?_, ?_⟩
    · intro q hq
      rcases List.mem_cons.mp hq with rfl | hq
      · have hsame : b'.getLE q.1.off 4 = (b.putLE q.1.off 4 (htonl q.2)).getLE q.1.off 4 := by
          apply Buffer.getLE_congr
          intro i h1 h2
          apply hsets.others
          intro p hp
          have := hfirst p hp
          omega
        rw [be32At, hsame, Buffer.getLE_putLE _ _ _ _ hin]
        have hword : htonl q.2 % 256 ^ 4 = htonl q.2 := by
          unfold htonl
          omega
        rw [hword, htonl_htonl]
      · exact hsets.fields q hq
    · intro i hi
      rw [hsets.others i fun q hq => hi q (List.mem_cons_of_mem p hq)]
      exact Buffer.get_putLE_of_apart _ _ _ _ _ (hi p List.mem_cons_self)

def journalFields (info : FsInfo) : List (Field × Nat) :=
  [(jsbMagic, jbd2MagicNumber), (jsbBlocktype, jbd2SuperblockV2),
    (jsbBlocksize, info.blockSize.val), (jsbMaxlen, info.journalBlocks.val), (jsbNrUsers, 1),
    (jsbFirst, 1), (jsbSequence, 1)]

theorem writeJournalSuperblock_eq (info : FsInfo) (data : Nat) :
    writeJournalSuperblock info data =
      Run.each (journalFields info) fun p => setBe32 data p.1 p.2 := by
  simp only [writeJournalSuperblock, journalFields, Run.each, bind_pure_unit]

theorem writeJournalSuperblock_sets (hb : fs.heap[data]? = some b)
    (h : writeJournalSuperblock info data (fs, l) = .ok ((), (fs', l'))) :
    ∃ b', fs' = { fs with heap := fs.heap.set data b' } ∧ Sets (journalFields info) b b' := by
  rw [writeJournalSuperblock_eq] at h
  refine setBe32_each ?_ ?_ hb h
  · intro p hp
    simp only [journalFields, List.mem_cons, List.not_mem_nil, or_false] at hp
    obtain rfl | rfl | rfl | rfl | rfl | rfl | rfl := hp <;> rfl
  · simp [FieldsApart, journalFields, jsbMagic, jsbBlocktype, jsbBlocksize, jsbMaxlen, jsbNrUsers,
      jsbFirst, jsbSequence]

end Writing

section Journal

variable {L : Layout} {P : Nat → Nat → Prop} {D : Nat → Prop} {info : FsInfo} {force : Bool}
  {k : Nat} {fs fs' : Fs} {l l' : List Ext4Error}

theorem writeJournalSuperblock_fills {data : Nat} (hd : D data) :
    Run.Advances (Fills L P D) (writeJournalSuperblock info data) := by
  rw [writeJournalSuperblock_eq]
  exact Run.advances_each (fun p => setHeap_fills hd _ _ _) _

def journalLen (info : FsInfo) : Nat := u32 (info.journalBlocks.val * info.blockSize.val)

structure Journaled (info : FsInfo) (fs : Fs) : Prop where
  size : fs.inodeSize (inodeRef info ext4JournalIno) = journalLen info
  mode : fs.field (inodeRef info ext4JournalIno) iMode = 0o100600
  links : fs.field (inodeRef info ext4JournalIno) iLinksCount = 1
  data : ∃ data b, InMemory 0 fs data (journalLen info) b ∧
    Sets (journalFields info) (.zeros (journalLen info)) b
  map : fs.aux.sb.sJnlBlocks = (fs.aux.table (inodeRef info ext4JournalIno).bg).slice
    ((inodeRef info ext4JournalIno).off + (iBlock 0).off) 60

theorem Journaled.keep (h : Journaled info fs) (ha : LeavesAlone P (fun _ => False) fs fs')
    (hsame : OnGroups fs fs') (hP : Names P (inodeRef info ext4JournalIno) heldSpans) : Journaled info fs' := by
  obtain ⟨data, b, hdata, hsets⟩ := h.data
  refine ⟨(ha.inodeSize (hP.within (by decide))).trans h.size, (ha.field hP (by decide)).trans h.mode,
    (ha.field hP (by decide)).trans h.links, ⟨data, b, hdata.keep ha id, hsets⟩, ?_⟩
  have hsb : fs'.aux.sb = fs.aux.sb := by rw [hsame]
  rw [hsb, h.map]
  apply Buffer.slice_congr
  intro i h1 h2
  have hblock : (iBlock 0).off = 40 := rfl
  exact (ha.bytes _ i (hP (40, 100) (by decide) i (by omega) (by omega))).symm

theorem getIBlock_ok {r : InodeRef} {xs : List UInt8} (h : getIBlock r (fs, l) = .ok (xs, (fs', l'))) :
    fs' = fs ∧ xs = (fs.aux.table r.bg).slice (r.off + (iBlock 0).off) 60 := by
  obtain ⟨b, t, t', hb, ht, hrun, rfl⟩ := onTable_ok.mp h
  cases hrun
  exact ⟨withTable_self hb ht, by rw [table_of_group hb ht]⟩

theorem ext4CreateJournalInode_journaled (hr : Roomy info L) (hs : Standing L info k fs)
    (h : ext4CreateJournalInode info force (fs, l) = .ok ((), (fs', []))) :
    ∃ fs1 blocks, Contained L (Beside (inodeRef info ext4JournalIno) madeSpans) (fun _ => False) fs fs1 ∧
      fs' = { fs1 with aux := { fs1.aux with sb := { fs1.aux.sb with sJnlBlocks := blocks } } } ∧
      Journaled info fs' := by
  have hp := @apartFrom_beside (inodeRef info ext4JournalIno) madeSpans
  obtain ⟨r, ⟨fs1, l1⟩, hget, h1⟩ := Run.bind_ok.mp h
  obtain ⟨rfl, rfl, -⟩ := getInode_ok hget
  obtain ⟨hfirst, -⟩ := getInode_fills (L := L)
    (P := Beside (inodeRef info ext4JournalIno) madeSpans) (D := fun _ => False) _ _ _ _ _ _ _ hget
  have hc1 := hfirst hs.keeps
  obtain ⟨found, ⟨fs2, l2⟩, halloc, h2⟩ := Run.bind_ok.mp h1
  obtain ⟨hsecond, -⟩ := inodeAllocateDataExtents_fills (D := fun _ => False) hp hr.positive
    _ _ _ _ _ _ _ halloc
  have hc2 := hsecond hc1.keeps
  cases found with
  | none => exact absurd h2 raise_not_quiet
  | some data =>
    have hnew := inodeAllocateDataExtents_data hp hr.positive hc1.keeps (hc1.known hs.known) halloc
    have hset (f : Field) (hf : f.Within initSpans) (v : Nat) :
        Run.Advances (Fills L (Beside (inodeRef info ext4JournalIno) initSpans) fun _ => False)
          (setField (inodeRef info ext4JournalIno) f v) :=
      setField_fills (apartFrom_beside.off hf) v
    obtain ⟨⟨⟩, ⟨fs3, l3⟩, hmode, h3⟩ := Run.bind_ok.mp h2
    obtain ⟨⟨⟩, ⟨fs4, l4⟩, hlinks, h4⟩ := Run.bind_ok.mp h3
    obtain ⟨⟨⟩, ⟨fs5, l5⟩, hwrite, h5⟩ := Run.bind_ok.mp h4
    obtain ⟨blocks, ⟨fs6, l6⟩, hread, h6⟩ := Run.bind_ok.mp h5
    obtain ⟨aux, hupdate, rfl⟩ := onAux_ok.mp h6
    cases hupdate
    obtain ⟨rfl, rfl⟩ := getIBlock_ok hread
    have hc4 := trans_of (Fills L _ _) (hset _ (by decide) _ _ _ _ _ _ hmode).1
      (hset _ (by decide) _ _ _ _ _ _ hlinks).1 hc2.keeps
    have hmem4 := hnew.keep hc4.toLeavesAlone id
    obtain ⟨b, rfl, hsets⟩ := writeJournalSuperblock_sets hmem4.bytes hwrite
    obtain ⟨hfifth, -⟩ := writeJournalSuperblock_fills (L := L)
      (P := Beside (inodeRef info ext4JournalIno) madeSpans) (D := fun id => False ∨ id = data)
      (Or.inr rfl) _ _ _ _ _ hwrite
    have hall := (trans_of (Fills L _ _) (fun _ => hc1) (trans_of (Fills L _ _) (fun _ => hc2)
      fun _ => hc4.within (by decide))).trans_new hfifth (hc1.longer.trans hnew.young) hs.keeps
    refine ⟨_, _, hall, rfl, ?_, ?_, ?_, ⟨data, b, ?_, hsets⟩, rfl⟩
    · exact (hc4.toLeavesAlone.inodeSize (names_beside (by decide))).trans
        (inodeAllocateDataExtents_size ((u32_lt _).trans (by decide)) halloc)
    · exact (setField_keeps (f := iMode) (by decide) hlinks).trans (field_setField hmode)
    · exact field_setField hlinks
    · have hwritten := (hmem4.older (Nat.zero_le _)).write b
      exact ⟨hwritten.young, hwritten.plain, hwritten.bytes, hwritten.queued⟩

end Journal

section Special

variable {L : Layout} {P : Nat → Nat → Prop} {D : Nat → Prop} {info : FsInfo} {force : Bool}

theorem advances_reported {ε σ α : Type} {R : σ → σ → Prop} [IsPreorder σ R] {c : Prop}
    [Decidable c] {force : Bool} {e : ε} {m : Unit → Run ε σ α} (h : ∀ u, Run.Advances R (m u)) :
    Run.Advances R (if c then Run.raise force e >>= m else m ()) :=
  .ite (fun _ => (Run.advances_raise force e).bind h) fun _ => h ()

theorem fillResizeEntry_fills {alloc : BlockAllocation} {dind ind : Nat} (hdind : D dind)
    (hind : D ind) (superblocks i : Nat) :
    Run.Advances (Fills L P D) (fillResizeEntry info alloc superblocks dind ind i) := by
  apply Run.advances_read.bind
  intro fs
  apply (Run.advances_expect _).bind
  intro block
  refine (setHeap_fills hdind _ _ _).bind fun _ => Run.advances_each (fun j => ?_) _
  exact (Run.advances_expect _).bind fun _ => setHeap_fills hind _ _ _

theorem fillResizeBlocks_fills (alloc : BlockAllocation) :
    Run.Advances (Fills L P D) (fillResizeBlocks info force alloc) := by
  apply (Run.advances_expect _).bind
  intro blockLen
  refine Run.Advances.ite (fun _ => Run.advances_crash) fun _ => ?_
  apply advances_reported
  intro _
  apply (appendOobAllocation_fills alloc 1).bind
  rintro ⟨alloc, res⟩
  apply (Run.advances_expect _).bind
  intro dindBlock
  apply calloc_bind_fills
  intro dind
  refine (sparseFileAdd_fills _).bind fun _ => calloc_bind_fills _ fun ind => ?_
  apply (Run.advances_expect _).bind
  intro indBlock
  refine (sparseFileAdd_fills _).bind fun _ => Run.Advances.bind ?_ fun _ => Run.advances_pure _
  exact Run.advances_each (fillResizeEntry_fills (Or.inl (Or.inr rfl)) (Or.inr rfl) _) _

theorem ext4CreateResizeInode_fills (hp : ApartFrom P (inodeRef info ext4ResizeIno) madeSpans) :
    Run.Advances (Fills L P D) (ext4CreateResizeInode info force) := by
  have hset (f : Field) (hf : f.Within madeSpans) (v : Nat) :
      Run.Advances (Fills L P D) (setField (inodeRef info ext4ResizeIno) f v) :=
    setField_fills (hp.off hf) v
  apply getInode_bind_fills
  apply Run.advances_read.bind
  intro fs
  apply (Run.advances_expect _).bind
  intro alloc
  refine Run.Advances.bind ?_ fun _ => (hset _ (by decide) _).bind fun _ => hset _ (by decide) _
  apply Run.advances_read.bind
  intro fs
  apply (fillResizeBlocks_fills alloc).bind
  rintro ⟨dindBlock, blockLen, superblocks⟩
  refine (hset _ (by decide) _).bind fun _ => (hset _ (by decide) _).bind fun _ => ?_
  refine (hset _ (by decide) _).bind fun _ => (hset _ (by decide) _).bind fun _ => ?_
  exact (hset _ (by decide) _).bind fun _ => hset _ (by decide) _

end Special

end MakeExt4fs

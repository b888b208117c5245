import MakeExt4fs.Contents.XattrAdd

namespace MakeExt4fs

open ErrorLog Words

def nextXattr (b : Buffer) (entry : Nat) : Nat := entry + ext4XattrLen (b.get entry)

def xattrOrder (b : Buffer) (next entry : Nat) : Int :=
  if (b.get (next + 1) : Int) - b.get (entry + 1) ≠ 0 then b.get (next + 1) - b.get (entry + 1)
  else if (b.get next : Int) - b.get entry ≠ 0 then b.get next - b.get entry
  else compareNames b (next + 16) (entry + 16) (b.get next)

inductive Ordered (force : Bool) (b : Buffer) : Nat → Prop
  | last {entry : Nat} (hin : entry + 4 ≤ b.size) (hzero : b.getLE entry 4 = 0) :
      Ordered force b entry
  | only {entry : Nat} (hentry : entry + 4 ≤ b.size) (hword : b.getLE entry 4 ≠ 0)
      (hin : nextXattr b entry + 4 ≤ b.size) (hzero : b.getLE (nextXattr b entry) 4 = 0) :
      Ordered force b entry
  | forced {entry : Nat} (hentry : entry + 4 ≤ b.size) (hword : b.getLE entry 4 ≠ 0)
      (hin : nextXattr b entry + 4 ≤ b.size) (hforce : force = true)
      (hnot : xattrOrder b (nextXattr b entry) entry ≤ 0) : Ordered force b entry
  | next {entry : Nat} (hentry : entry + 4 ≤ b.size) (hword : b.getLE entry 4 ≠ 0)
      (horder : 0 < xattrOrder b (nextXattr b entry) entry)
      (hrest : Ordered force b (nextXattr b entry)) : Ordered force b entry

section Walking

variable {α : Type} {force : Bool} {b : Buffer} {entry next fuel first stop : Nat}
  {l : List Ext4Error}

theorem Ordered.inside (h : Ordered force b entry) : entry + 4 ≤ b.size := by
  cases h <;> assumption

theorem peekAt_returns {off n : Nat} {f : Nat → OnBuffer α} :
    (peekAt off n >>= f).Returns (b, l) ↔
      off + n ≤ b.size ∧ (f (b.getLE off n)).Returns (b, l) := by
  by_cases hin : off + n ≤ b.size
  · rw [Run.returns_bind_of_ok (peekAt_run hin), and_iff_right hin]
  · simp [Run.Returns, Run.bind_run, peekAt, hin]

theorem isLastEntry_returns {f : Bool → OnBuffer α} :
    (isLastEntry entry >>= f).Returns (b, l) ↔
      entry + 4 ≤ b.size ∧ (f (decide (b.getLE entry 4 = 0))).Returns (b, l) := by
  rw [isLastEntry, bind_assoc, peekAt_returns]
  rfl

theorem xattrNext_returns {f : Nat → OnBuffer α} :
    (xattrNext entry >>= f).Returns (b, l) ↔
      entry + 1 ≤ b.size ∧ (f (nextXattr b entry)).Returns (b, l) := by
  rw [xattrNext, bind_assoc, peekAt_returns, getLE_one]
  rfl

theorem xattrCompare_returns {f : Int → OnBuffer α} (hnext : next + 2 ≤ b.size)
    (hentry : entry + 2 ≤ b.size) :
    (xattrCompare next entry >>= f).Returns (b, l) ↔
      (f (xattrOrder b next entry)).Returns (b, l) := by
  apply Run.returns_bind_of_ok
  simp only [xattrCompare, Run.bind_run, peekAt_run (show next + 1 + 1 ≤ b.size by omega),
    peekAt_run (show entry + 1 + 1 ≤ b.size by omega),
    peekAt_run (show next + 1 ≤ b.size by omega), peekAt_run (show entry + 1 ≤ b.size by omega),
    getLE_one, Run.read_run, xattrOrder]
  split
  · rfl
  · split <;> rfl

theorem xattrSaneLoop_returns_iff (hfuel : b.size < fuel + entry) :
    (xattrSaneLoop force fuel entry).Returns (b, l) ↔ Ordered force b entry := by
  induction fuel generalizing entry with
  | zero =>
    simp only [xattrSaneLoop, Run.returns_crash, false_iff]
    intro h
    have := h.inside
    omega
  | succ fuel ih =>
    rw [xattrSaneLoop, isLastEntry_returns]
    by_cases hword : b.getLE entry 4 = 0
    · simp only [hword, decide_true, if_true, Run.returns_pure, and_true]
      exact ⟨fun hin => .last hin hword, Ordered.inside⟩
    · have hmore : b.size < fuel + nextXattr b entry := by
        simp only [nextXattr, ext4XattrLen, sizeofXattrEntry]
        omega
      simp only [hword, decide_false, Bool.false_eq_true, if_false, xattrNext_returns,
        isLastEntry_returns]
      constructor
      · rintro ⟨hentry, -, hin, hrest⟩
        by_cases hzero : b.getLE (nextXattr b entry) 4 = 0
        · exact .only hentry hword hin hzero
        · simp only [hzero, decide_false, Bool.false_eq_true, if_false,
            xattrCompare_returns (show nextXattr b entry + 2 ≤ b.size by omega)
              (show entry + 2 ≤ b.size by omega)] at hrest
          split at hrest
          · exact .forced hentry hword hin (Run.returns_raise.mp hrest) (by omega)
          split at hrest
          · exact .forced hentry hword hin (Run.returns_raise.mp hrest) (by omega)
          · exact .next hentry hword (by omega) ((ih hmore).mp hrest)
      · intro h
        have hentry := h.inside
        refine ⟨hentry, by omega, ?_⟩
        cases h with
        | last _ hzero => exact absurd hzero hword
        | only _ _ hin hzero => simp [hin, hzero]
        | forced _ _ hin hforce hnot =>
          refine ⟨hin, ?_⟩
          split
          · simp
          rw [xattrCompare_returns (by omega) (by omega)]
          split
          · exact Run.returns_raise.mpr hforce
          · rw [if_pos (by omega)]
            exact Run.returns_raise.mpr hforce
        | next _ _ horder hrest =>
          have hin := hrest.inside
          refine ⟨hin, ?_⟩
          split
          · simp
          rw [xattrCompare_returns (by omega) (by omega), if_neg (by omega), if_neg (by omega)]
          exact (ih hmore).mpr hrest

theorem xattrAssertSane_returns_iff :
    (xattrAssertSane force entry).Returns (b, l) ↔ Ordered force b entry := by
  rw [xattrAssertSane, Run.returns_read_bind]
  exact xattrSaneLoop_returns_iff (show b.size < b.size + 1 + entry by omega)

theorem freeRange_run {e : Nat} {s : Int} (h : freeRange b first stop = some (e, s))
    (k : List Ext4Error) :
    xattrFreeLoop (b.size + 1) first stop (b, k) = .ok ((e, s), (b, k)) := by
  rw [freeRange] at h
  cases hloop : xattrFreeLoop (b.size + 1) first stop (b, []) with
  | error err => simp [hloop] at h
  | ok p =>
    obtain ⟨r, b1, l1⟩ := p
    simp only [hloop, Option.some.injEq] at h
    subst h
    exact xattrFreeLoop_log hloop k

theorem xattrFreeSpace_returns {f : Nat → OnBuffer α} :
    (xattrFreeSpace force first stop >>= f).Returns (b, l) ↔
      ∃ e s, freeRange b first stop = some (e, s) ∧ (force = true ∨ (e : Int) ≤ s) ∧
        (f (s - e).toNat).Returns (b, if s < e then l ++ [.xattrBeyondEnd] else l) := by
  rw [xattrFreeSpace, bind_assoc, Run.returns_read_bind, bind_assoc]
  cases hrange : freeRange b first stop with
  | none =>
    have hfails : ∀ p, xattrFreeLoop (b.size + 1) first stop (b, l) ≠ .ok p := by
      rintro ⟨⟨e, s⟩, b1, l1⟩ hloop
      rw [freeRange_of_run hloop] at hrange
      cases hrange
    simp [Run.returns_bind, hfails]
  | some r =>
    obtain ⟨e, s⟩ := r
    rw [Run.returns_bind_of_ok (freeRange_run hrange l)]
    simp only [Option.some.injEq, Prod.mk.injEq, and_assoc, exists_and_left, exists_eq_left']
    split
    · rename_i hlt
      rw [bind_assoc, Run.returns_raise_bind, pure_bind, show (s - e).toNat = 0 by omega]
      simp [hlt]
    · rename_i hge
      rw [pure_bind]
      simp [show (e : Int) ≤ s by omega]

end Walking

def RangeEnds (force : Bool) (b : Buffer) (start first stop : Nat) (a : XAttr) : Prop :=
  a.name.length ≤ 255 → ∃ e s, freeRange b first stop = some (e, s) ∧
    (force = true ∨ (e : Int) ≤ s) ∧
    ((e : Int) + a.entryLen + a.valueLen ≤ s → s ≤ b.size ∧
      Ordered force (putXattr b start e (s.toNat - a.valueLen) a) first)

section Range

variable {α : Type} {force : Bool} {b : Buffer} {start first stop : Nat} {a : XAttr}
  {l : List Ext4Error}

theorem pokeAt_returns {off n v : Nat} {f : Unit → OnBuffer α} :
    (pokeAt off n v >>= f).Returns (b, l) ↔
      off + n ≤ b.size ∧ (f ()).Returns (b.putLE off n v, l) := by
  by_cases hin : off + n ≤ b.size
  · rw [Run.returns_bind_of_ok (pokeAt_run hin), and_iff_right hin]
  · simp [Run.Returns, Run.bind_run, pokeAt, pokeBuffer, hin]

theorem pokeBytes_returns {off : Nat} {bs : List UInt8} {f : Unit → OnBuffer α} :
    (pokeBytes off bs >>= f).Returns (b, l) ↔
      off + bs.length ≤ b.size ∧ (f ()).Returns (b.put off bs, l) := by
  by_cases hin : off + bs.length ≤ b.size
  · rw [Run.returns_bind_of_ok (pokeBytes_run hin), and_iff_right hin]
  · simp [Run.Returns, Run.bind_run, pokeBytes, hin]

theorem xattrAddtoRange_returns_iff :
    (xattrAddtoRange force start stop first a.nameIndex a.name a.value).Returns (b, l) ↔
      RangeEnds force b start first stop a := by
  have hlen := a.entryLen_spec
  have hval := a.valueLen_spec
  rw [xattrAddtoRange, RangeEnds]
  split
  · rename_i hname
    simp only [Run.returns_pure, true_iff]
    intro h
    omega
  rename_i hname
  rw [imp_iff_right (show a.name.length ≤ 255 by omega), xattrFreeSpace_returns]
  apply exists_congr
  intro e
  apply exists_congr
  intro s
  apply and_congr_right
  intro hrange
  apply and_congr_right
  intro _
  by_cases hfits : (e : Int) + a.entryLen + a.valueLen ≤ s
  · obtain ⟨s, rfl⟩ : ∃ k : Nat, s = k := ⟨s.toNat, by omega⟩
    have hroom : ¬ ext4XattrLen a.name.length + ext4XattrSize a.value.length >
        ((s : Int) - e).toNat := by
      change ¬ a.entryLen + a.valueLen > _
      omega
    have hat : e + ((s : Int) - e).toNat - ext4XattrSize a.value.length = s - a.valueLen := by
      change _ - a.valueLen = _
      omega
    have hlast : ∀ k, xattrGetLast first (b, k) = .ok (e, (b, k)) := by
      intro k
      rw [xattrGetLast, Run.bind_run, Run.read_run]
      exact xattrLastLoop_of_free (freeRange_run hrange k) (by omega)
    rw [imp_iff_right hfits, if_neg hroom, Run.returns_bind_of_ok (hlast _), hat, Int.toNat_natCast]
    simp only [pokeBytes_returns, pokeAt_returns, List.length_replicate, Buffer.size_put,
      Buffer.size_putLE]
    rw [Run.returns_bind_iff fun _ _ _ => (Run.returns_pure _).mpr trivial,
      xattrAssertSane_returns_iff]
    change e + a.entryLen ≤ b.size ∧ _ ∧ _ ∧ _ ∧ _ ∧ _ ∧ _ ∧ s - a.valueLen + a.valueLen ≤ b.size ∧
      _ ∧ Ordered force (putXattr b start e (s - a.valueLen) a) first ↔ _
    constructor
    · rintro ⟨-, -, -, -, -, -, -, hin, -, hordered⟩
      exact ⟨by omega, hordered⟩
    · rintro ⟨hin, hordered⟩
      exact ⟨by omega, by omega, by omega, by omega, by omega, by omega, by omega, by omega,
        by omega, hordered⟩
  · have hfull : ext4XattrLen a.name.length + ext4XattrSize a.value.length > (s - e).toNat := by
      change a.entryLen + a.valueLen > _
      omega
    rw [if_pos hfull]
    simp [hfits]

theorem freeRange_inside {e : Nat} {s : Int} (h : freeRange b first stop = some (e, s)) :
    first + 4 ≤ b.size := by
  have hrun := freeRange_run h []
  rw [xattrFreeLoop] at hrun
  exact (isLastEntry_returns.mp ⟨_, _, hrun⟩).1

end Range

def BlockGroupInfo.Passes (force : Bool) (b : BlockGroupInfo) : Prop :=
  force = true ∨ b.freeBlocks = 0 ∨ b.blockBitmap.testBit b.firstFreeBlock = false

def FsAuxInfo.Passes (force : Bool) (aux : FsAuxInfo) (i : Nat) : Prop :=
  ∃ b, aux.bgs[i]? = some b ∧ b.Passes force

def FsAuxInfo.Reaches (force : Bool) (aux : FsAuxInfo) : Prop :=
  ∃ i < aux.groups, aux.Grants i ∧ ∀ j < i, aux.Passes force j

section Granting

variable {force : Bool} {aux aux' : FsAuxInfo} {l l' : List Ext4Error}

theorem passes_of_grants {i : Nat} (h : aux.Grants i) : aux.Passes force i := by
  obtain ⟨b, hb, -, hbit, -⟩ := h
  exact ⟨b, hb, Or.inr (Or.inr hbit)⟩

theorem passes_congr {i : Nat} (h : aux'.bgs[i]? = aux.bgs[i]?) :
    aux'.Passes force i ↔ aux.Passes force i := by
  rw [FsAuxInfo.Passes, FsAuxInfo.Passes, h]

theorem grants_congr {i : Nat} (h : aux'.bgs[i]? = aux.bgs[i]?) :
    aux'.Grants i ↔ aux.Grants i := by
  rw [FsAuxInfo.Grants, FsAuxInfo.Grants, h]

theorem allocateOne_returns_iff {i : Nat} :
    (ext4AllocateBlocksFromBlockGroup force 1 i).Returns (aux, l) ↔ aux.Passes force i := by
  unfold ext4AllocateBlocksFromBlockGroup onGroup
  rw [Run.returns_zoom]
  apply exists_congr
  intro b
  apply and_congr_right
  intro _
  rw [Run.returns_read_bind, BlockGroupInfo.Passes]
  by_cases hfree : b.freeBlocks < 1
  · simp [show b.freeBlocks = 0 by omega]
  · have hpos : b.freeBlocks ≠ 0 := by omega
    simp only [if_neg hfree, hpos, false_or]
    cases hbit : b.blockBitmap.testBit b.firstFreeBlock
    · have hclear : ∀ k, b.firstFreeBlock ≤ k → k < b.firstFreeBlock + 1 →
          b.blockBitmap.testBit k = false := by
        intro k h1 h2
        rwa [show k = b.firstFreeBlock by omega]
      rw [Run.returns_bind_of_ok (BlockGroupInfo.reserveBlocks_run force l (by omega) hclear)]
      simp only [lt_irrefl, if_false, or_true, iff_true]
      exact ⟨_, _, rfl⟩
    · rw [BlockGroupInfo.reserveBlocks, bind_assoc, Run.returns_read_bind]
      simp only [if_neg (show ¬ 1 > b.freeBlocks by omega), setBits_one, hbit, if_true]
      cases force
      · simp only [Bool.false_eq_true, Bool.true_eq_false, or_self, iff_false]
        rintro ⟨num, st, h⟩
        cases h
      · simp only [true_or, iff_true]
        exact ⟨_, _, rfl⟩

theorem allocateBlockFrom_grants_iff {s m : Nat} :
    (∃ num st, allocateBlockFrom force (List.range' s m) (aux, l) = .ok (num, st) ∧
      num ≠ ext4AllocateFailed) ↔
      ∃ i, s ≤ i ∧ i < s + m ∧ aux.Grants i ∧ ∀ j, s ≤ j → j < i → aux.Passes force j := by
  induction m generalizing s aux l with
  | zero =>
    constructor
    · rintro ⟨num, st, h, hnum⟩
      cases h
      exact absurd rfl hnum
    · rintro ⟨i, h1, h2, -⟩
      omega
  | succ m ih =>
    rw [List.range'_succ]
    constructor
    · rintro ⟨num, st, h, hnum⟩
      obtain ⟨block, ⟨aux1, l1⟩, h1, hrest⟩ := Run.bind_ok.mp h
      obtain ⟨-, hone, hothers⟩ := allocateOne_ok h1
      have hpass := allocateOne_returns_iff.mp ⟨_, _, h1⟩
      split at hrest
      · rename_i hok
        exact ⟨s, le_rfl, by omega, hone.mp hok, fun j h2 h3 => by omega⟩
      · obtain ⟨i, h2, h3, hgrants, hbefore⟩ := ih.mp ⟨num, st, hrest, hnum⟩
        refine ⟨i, by omega, by omega, (grants_congr (hothers i (by omega))).mp hgrants, ?_⟩
        intro j h4 h5
        rcases Nat.eq_or_lt_of_le h4 with rfl | hlt
        · exact hpass
        · exact (passes_congr (hothers j (by omega))).mp (hbefore j hlt h5)
    · rintro ⟨i, h1, h2, hgrants, hbefore⟩
      have hpass : aux.Passes force s := by
        rcases Nat.eq_or_lt_of_le h1 with rfl | hlt
        · exact passes_of_grants hgrants
        · exact hbefore s le_rfl hlt
      obtain ⟨block, ⟨aux1, l1⟩, hone⟩ := (allocateOne_returns_iff (l := l)).mpr hpass
      obtain ⟨-, hhere, hothers⟩ := allocateOne_ok hone
      simp only [allocateBlockFrom, Run.bind_run, hone]
      by_cases hok : block ≠ ext4AllocateFailed
      · exact ⟨block, (aux1, l1), by rw [if_pos hok]; rfl, hok⟩
      · have hlt : s < i := by
          rcases Nat.eq_or_lt_of_le h1 with rfl | hlt
          · exact absurd (hhere.mpr hgrants) hok
          · exact hlt
        simp only [if_neg hok]
        refine ih.mpr ⟨i, hlt, by omega, (grants_congr (hothers i (by omega))).mpr hgrants, ?_⟩
        intro j h3 h4
        exact (passes_congr (hothers j (by omega))).mpr (hbefore j (by omega) h4)

theorem allocateBlock_grants_iff :
    (∃ num st, allocateBlock force (aux, l) = .ok (num, st) ∧ num ≠ ext4AllocateFailed) ↔
      aux.Reaches force := by
  have hrun : allocateBlock force (aux, l) =
      allocateBlockFrom force (List.range' 0 aux.groups) (aux, l) := by
    rw [← List.range_eq_range']
    rfl
  rw [hrun, allocateBlockFrom_grants_iff, FsAuxInfo.Reaches]
  simp

end Granting

def GroupThere (info : FsInfo) (n : Nat) (fs : Fs) : Prop :=
  info.inodesPerGroup.val ≠ 0 ∧ (inodeRef info n).bg < fs.aux.bgs.length

section Parts

variable {α : Type} {info : FsInfo} {force : Bool} {r : InodeRef} {n : Nat} {a : XAttr} {fs : Fs}
  {l : List Ext4Error}

theorem allocateBgInodeTable_returns {i : Nat} (h : i < fs.aux.bgs.length) :
    (allocateBgInodeTable info i).Returns (fs, l) := by
  rw [allocateBgInodeTable, Run.returns_read_bind]
  simp only [List.getElem?_eq_getElem h]
  split
  · exact (Run.returns_pure _).mpr trivial
  · rw [Run.returns_bind]
    refine ⟨(), _, rfl, ?_⟩
    apply Run.returns_zoom.mpr
    exact ⟨_, rfl, Run.returns_zoom.mpr ⟨_, List.getElem?_eq_getElem h, (), _, rfl⟩⟩

theorem getInode_returns {f : InodeRef → Build α} :
    (getInode info n >>= f).Returns (fs, l) ↔
      GroupThere info n fs ∧ (f (inodeRef info n)).Returns (fs.opened info n, l) := by
  constructor
  · intro h
    obtain ⟨r, ⟨fs1, l1⟩, hget, hf⟩ := Run.returns_bind.mp h
    obtain ⟨rfl, rfl, rfl⟩ := getInode_opened hget
    obtain ⟨-, -, b, hb, -⟩ := getInode_ok hget
    refine ⟨⟨?_, (List.getElem?_eq_some_iff.mp hb).1⟩, hf⟩
    intro hzero
    simp [getInode, hzero] at hget
  · rintro ⟨⟨hper, hbg⟩, hf⟩
    obtain ⟨r, ⟨fs1, l1⟩, hget⟩ : (getInode info n).Returns (fs, l) := by
      simp only [getInode, if_neg hper]
      rw [Run.returns_bind_iff fun _ _ _ => (Run.returns_pure _).mpr trivial]
      exact allocateBgInodeTable_returns hbg
    obtain ⟨rfl, rfl, rfl⟩ := getInode_opened hget
    rwa [Run.returns_bind_of_ok hget]

theorem onTable_returns {m : OnBuffer α} : (onTable r m).Returns (fs, l) ↔
    ∃ b t, fs.aux.bgs[r.bg]? = some b ∧ b.inodeTable = some t ∧ m.Returns (t, l) := by
  unfold onTable onAux onGroup
  simp only [Run.returns_zoom, Option.some.injEq, exists_eq_left', exists_and_left]

theorem xattrAddtoInode_returns_iff :
    (xattrAddtoInode info force r a.nameIndex a.name a.value).Returns (fs, l) ↔
      ∃ b t, fs.aux.bgs[r.bg]? = some b ∧ b.inodeTable = some t ∧
        RangeEnds force t (bodyFirst r) (bodyFirst r) (bodyStop info r) a := by
  rw [xattrAddtoInode, onTable_returns]
  apply exists_congr
  intro b
  apply exists_congr
  intro t
  apply and_congr_right
  intro _
  apply and_congr_right
  intro _
  rw [← xattrAddtoRange_returns_iff (l := l)]
  apply Run.returns_bind_iff
  rintro res ⟨t', l'⟩ hadd
  have hlen := a.entryLen_spec
  obtain ⟨rfl, -, -⟩ | ⟨e, s, rfl, -, -, hfirst, -, hin, hroom, rfl⟩ := xattrAddtoRange_ok hadd
  · exact (Run.returns_pure _).mpr trivial
  · simp only [sizeofExt4Inode] at hfirst
    simp only [pokeAt_returns, Buffer.size_putLE, putXattr, size_putValue, size_putEntry,
      Run.returns_pure, and_true, sizeofExt4Inode, iExtraIsize]
    omega

theorem onHeap_returns {id : Nat} {m : OnBuffer α} : (onHeap id m).Returns (fs, l) ↔
    ∃ b, fs.heap[id]? = some b ∧ m.Returns (b, l) := Run.returns_zoom

theorem xattrAddtoBlock_returns_iff :
    (xattrAddtoBlock info force r n a.nameIndex a.name a.value).Returns (fs, l) ↔
      ∃ id fs1 k b, getXattrBlockForInode info force r n (fs, l) = .ok (id, (fs1, k)) ∧
        fs1.heap[id]? = some b ∧
        RangeEnds force b 0 sizeofXattrHeader info.blockSize.val a := by
  rw [xattrAddtoBlock, Run.returns_bind]
  constructor
  · rintro ⟨id, ⟨fs1, k⟩, hget, hrest⟩
    obtain ⟨b, hb, hadd⟩ := onHeap_returns.mp hrest
    obtain ⟨res, st, hrange, -⟩ := Run.returns_bind.mp hadd
    exact ⟨id, fs1, k, b, hget, hb, xattrAddtoRange_returns_iff.mp ⟨res, st, hrange⟩⟩
  · rintro ⟨id, fs1, k, b, hget, hb, hends⟩
    refine ⟨id, (fs1, k), hget, onHeap_returns.mpr ⟨b, hb, ?_⟩⟩
    rw [Run.returns_bind_iff]
    · exact xattrAddtoRange_returns_iff.mpr hends
    rintro res ⟨b', l'⟩ hadd
    have hlen := a.entryLen_spec
    obtain ⟨rfl, -, -⟩ | ⟨e, s, rfl, -, -, -, -, hin, hroom, rfl⟩ := xattrAddtoRange_ok hadd
    · exact (Run.returns_pure _).mpr trivial
    · simp only [ext4XattrHashEntry, bind_assoc, Run.returns_read_bind, pokeAt_returns, putXattr,
        size_putValue, size_putEntry, Run.returns_pure, and_true]
      omega

theorem fillHeader_returns {f : Unit → Build α} {pre : List Buffer} {bs : Nat} (hbs : 12 ≤ bs)
    (hheap : fs.heap = pre ++ [Buffer.zeros bs]) :
    (setHeap pre.length 0 4 ext4XattrMagic >>= fun _ => setHeap pre.length 4 4 1 >>= fun _ =>
      setHeap pre.length 8 4 1 >>= f).Returns (fs, l) ↔
      (f ()).Returns ({ fs with heap := pre ++ [emptyXattrBlock bs] }, l) := by
  have hset : ∀ (b : Buffer) (fs : Fs) (off v : Nat), fs.heap = pre ++ [b] → off + 4 ≤ b.size →
      setHeap pre.length off 4 v (fs, l) =
        .ok ((), ({ fs with heap := pre ++ [b.putLE off 4 v] }, l)) := by
    intro b fs off v hheap hin
    refine onHeap_ok.mpr ⟨b, _, ?_, pokeAt_run hin, ?_⟩
    · rw [hheap, List.getElem?_concat_length]
    · rw [hheap]
      simp
  have hsize : (Buffer.zeros bs).size = bs := rfl
  rw [Run.returns_bind_of_ok (hset _ _ _ _ hheap (by omega)),
    Run.returns_bind_of_ok (hset _ _ _ _ rfl (by simp; omega)),
    Run.returns_bind_of_ok (hset _ _ _ _ rfl (by simp; omega))]
  rfl

theorem group_withTable {i : Nat} {b : BlockGroupInfo} (hb : fs.aux.bgs[i]? = some b)
    (t : Buffer) : (fs.withTable i b t).aux.bgs[i]? = some (b.withTable t) :=
  List.getElem?_set_self (List.getElem?_eq_some_iff.mp hb).1

section Fields

variable {f : Field} {v : Nat} {b : BlockGroupInfo} {t : Buffer} (hb : fs.aux.bgs[r.bg]? = some b)
  (ht : b.inodeTable = some t)

include hb ht

theorem getField_returns {g : Nat → Build α} :
    (getField r f >>= g).Returns (fs, l) ↔ (g (t.getLE (r.off + f.off) f.size)).Returns (fs, l) :=
  Run.returns_bind_of_ok (onTable_ok.mpr ⟨b, t, t, hb, ht, rfl, (withTable_self hb ht).symm⟩)

theorem setField_returns {g : Unit → Build α} (hin : r.off + f.off + f.size ≤ t.size) :
    (setField r f v >>= g).Returns (fs, l) ↔
      (g ()).Returns (fs.withTable r.bg b (t.putLE (r.off + f.off) f.size v), l) :=
  Run.returns_bind_of_ok (setField_ok.mpr ⟨rfl, b, t, hb, ht, hin, rfl⟩)

end Fields

theorem getXattrBlockForInode_returns (hfind : xattrListFind fs.aux n = none)
    (halloc : (allocateBlock force).Returns (fs.aux, l)) (hbs : 12 ≤ info.blockSize.val)
    {b : BlockGroupInfo} {t : Buffer} (hb : fs.aux.bgs[r.bg]? = some b)
    (ht : b.inodeTable = some t) (hin : r.off + 108 ≤ t.size) :
    (getXattrBlockForInode info force r n).Returns (fs, l) := by
  obtain ⟨num, ⟨aux, k⟩, hnum⟩ := halloc
  have haux : onAux (allocateBlock force) (fs, l) = .ok (num, ({ fs with aux := aux }, k)) :=
    onAux_ok.mpr ⟨aux, hnum, rfl⟩
  obtain ⟨b1, hb1, hframe⟩ : ∃ b1, aux.bgs[r.bg]? = some b1 ∧ b1.frame = b.frame := by
    have hframes := congrArg (fun gs => gs[r.bg]?)
      (allocateBlock_blocksOnly _ _ _ _ _ hnum).1.frames
    simpa [hb] using hframes
  have ht1 : b1.inodeTable = some t := (congrArg BlockGroupInfo.inodeTable hframe).trans ht
  rw [getXattrBlockForInode, Run.returns_read_bind]
  simp only [hfind]
  rw [Run.returns_bind_of_ok haux, Run.returns_bind_of_ok (a := fs.heap.length) rfl,
    fillHeader_returns hbs rfl, getField_returns (b := b1) hb1 ht1,
    setField_returns (b := b1) hb1 ht1 (by simp only [iBlocksLo]; omega),
    setField_returns (group_withTable (b := b1) hb1 _) rfl
      (by simp only [iFileAclLo, Buffer.size_putLE]; omega)]
  exact ⟨_, _, rfl⟩

end Parts

def BlockEnds (info : FsInfo) (force : Bool) (n : Nat) (a : XAttr) (fs : Fs) : Prop :=
  match xattrListFind fs.aux n with
  | some id => ∃ b, fs.heap[id]? = some b ∧
      RangeEnds force b 0 sizeofXattrHeader info.blockSize.val a
  | none => fs.aux.Reaches force ∧
      RangeEnds force (emptyXattrBlock info.blockSize.val) 0 sizeofXattrHeader
        info.blockSize.val a

structure XattrAddEnds (info : FsInfo) (force : Bool) (n : Nat) (a : XAttr) (fs : Fs) : Prop where
  inode : GroupThere info n fs
  body : RangeEnds force (bodyTable info n fs) (bodyFirst (inodeRef info n))
    (bodyFirst (inodeRef info n)) (bodyStop info (inodeRef info n)) a
  block : ¬ BodyFits info n fs a → BlockEnds info force n a fs

section Add

variable {info : FsInfo} {force : Bool} {n : Nat} {a : XAttr} {fs fs1 : Fs}
  {l l1 : List Ext4Error}

theorem opened_table (h : GroupThere info n fs) :
    ∃ b, (fs.opened info n).aux.bgs[(inodeRef info n).bg]? = some b ∧
      b.inodeTable = some (bodyTable info n fs) := by
  obtain ⟨b, hb⟩ : ∃ b, fs.aux.bgs[(inodeRef info n).bg]? = some b :=
    ⟨_, List.getElem?_eq_getElem h.2⟩
  have hopened : (fs.opened info n).aux.bgs[(inodeRef info n).bg]? =
      some (openedGroup info fs.aux b) := by
    rw [Fs.opened, hb]
    exact List.getElem?_set_self h.2
  obtain ⟨t, ht⟩ : ∃ t, (openedGroup info fs.aux b).inodeTable = some t := by
    rw [openedGroup]
    split
    · exact Option.isSome_iff_exists.mp ‹_›
    · exact ⟨_, rfl⟩
  exact ⟨_, hopened, by rw [ht, bodyTable, table_of_group hopened ht]⟩

theorem passes_of_blocks {aux aux' : FsAuxInfo} (h : aux'.blocks = aux.blocks) {i : Nat} :
    aux'.Passes force i ↔ aux.Passes force i := by
  have hblocks : ∀ aux : FsAuxInfo, aux.Passes force i ↔
      ∃ b, aux.blocks[i]? = some b ∧ b.Passes force := by
    intro aux
    simp [FsAuxInfo.Passes, FsAuxInfo.blocks, BlockGroupInfo.Passes, BlockGroupInfo.blocks]
  rw [hblocks, hblocks, h]

theorem reaches_opened : (fs.opened info n).aux.Reaches force ↔ fs.aux.Reaches force := by
  simp only [FsAuxInfo.Reaches, groups_opened, grants_opened, passes_of_blocks blocks_opened]

theorem find_opened : xattrListFind (fs.opened info n).aux n = xattrListFind fs.aux n := by
  rw [xattrListFind, xattrs_opened]
  rfl

theorem returns_iff_old {id : Nat} (hlist : xattrListFind fs.aux n = some id) :
    (xattrAddtoBlock info force (inodeRef info n) n a.nameIndex a.name a.value).Returns
      (fs.opened info n, l) ↔
      ∃ b, fs.heap[id]? = some b ∧ RangeEnds force b 0 sizeofXattrHeader info.blockSize.val a := by
  rw [xattrAddtoBlock_returns_iff]
  have hfind := (@find_opened info n fs).trans hlist
  constructor
  · rintro ⟨id', fs1, k, b, hget, hb, hends⟩
    obtain ⟨hsome, rfl⟩ | ⟨hnone, -⟩ := getXattrBlockForInode_ok hget
    · cases hfind.symm.trans hsome
      rw [heap_opened] at hb
      exact ⟨b, hb, hends⟩
    · cases hfind.symm.trans hnone
  · rintro ⟨b, hb, hends⟩
    rw [← @heap_opened fs info n] at hb
    refine ⟨id, fs.opened info n, l, b, ?_, hb, hends⟩
    rw [getXattrBlockForInode, Run.bind_run, Run.read_run]
    simp only [hfind]
    rfl

theorem getXattrBlockForInode_new {id : Nat} {k : List Ext4Error}
    (hlist : xattrListFind fs.aux n = none)
    (h : getXattrBlockForInode info force (inodeRef info n) n (fs.opened info n, l) =
      .ok (id, (fs1, k))) :
    fs1.heap[id]? = some (emptyXattrBlock info.blockSize.val) ∧
      ∃ num aux k, allocateBlock force ((fs.opened info n).aux, l) = .ok (num, (aux, k)) := by
  obtain ⟨hsome, -⟩ | ⟨-, num, aux, k', halloc, -, hnew, hheap⟩ := getXattrBlockForInode_ok h
  · cases (find_opened.trans hlist).symm.trans hsome
  · rw [hheap, hnew.buffer, List.getElem?_concat_length]
    exact ⟨rfl, num, aux, k', halloc⟩

theorem returns_iff_new (hthere : GroupThere info n fs)
    (hbody : RangeEnds force (bodyTable info n fs) (bodyFirst (inodeRef info n))
      (bodyFirst (inodeRef info n)) (bodyStop info (inodeRef info n)) a)
    (hno : ¬ BodyFits info n fs a) (hplace : XattrHasPlace info n a fs)
    (hlist : xattrListFind fs.aux n = none) :
    (xattrAddtoBlock info force (inodeRef info n) n a.nameIndex a.name a.value).Returns
      (fs.opened info n, l) ↔ fs.aux.Reaches force ∧
        RangeEnds force (emptyXattrBlock info.blockSize.val) 0 sizeofXattrHeader
          info.blockSize.val a := by
  rw [xattrAddtoBlock_returns_iff]
  have hfind := (@find_opened info n fs).trans hlist
  simp only [XattrHasPlace, hno, hlist, false_and, false_or, not_false_eq_true, true_and] at hplace
  obtain ⟨hgrants, hname, hroom, -⟩ := hplace
  constructor
  · rintro ⟨id, fs1, k, b, hget, hb, hends⟩
    obtain ⟨hempty, num, aux, k', halloc⟩ := getXattrBlockForInode_new hlist hget
    cases hb.symm.trans hempty
    refine ⟨?_, hends⟩
    apply reaches_opened.mp
    apply allocateBlock_grants_iff.mp
    refine ⟨num, _, halloc, (allocateBlock_ok halloc).2.mpr ?_⟩
    rw [groups_opened]
    simpa only [grants_opened] using hgrants
  · rintro ⟨hreaches, hends⟩
    have hopened : (fs.opened info n).aux.Reaches force := reaches_opened.mpr hreaches
    obtain ⟨num, st, halloc, -⟩ := allocateBlock_grants_iff.mpr hopened
    obtain ⟨b, hb, ht⟩ := opened_table hthere
    obtain ⟨e, s, hrange, -⟩ := hbody hname
    have hin := freeRange_inside hrange
    have hlen := a.entryLen_spec
    simp only [bodyFirst, sizeofExt4Inode] at hin
    simp only [sizeofXattrHeader] at hroom
    have hreturns : (getXattrBlockForInode info force (inodeRef info n) n).Returns
        (fs.opened info n, l) :=
      getXattrBlockForInode_returns hfind ⟨num, st, halloc⟩ (by omega) hb ht (by omega)
    obtain ⟨id, ⟨fs1, k⟩, hget⟩ := hreturns
    exact ⟨id, fs1, k, _, hget, (getXattrBlockForInode_new hlist hget).1, hends⟩

theorem xattrAddtoBlock_returns_iff_ends (hthere : GroupThere info n fs)
    (hbody : RangeEnds force (bodyTable info n fs) (bodyFirst (inodeRef info n))
      (bodyFirst (inodeRef info n)) (bodyStop info (inodeRef info n)) a)
    (hno : ¬ BodyFits info n fs a) (hplace : XattrHasPlace info n a fs) :
    (xattrAddtoBlock info force (inodeRef info n) n a.nameIndex a.name a.value).Returns
      (fs.opened info n, l) ↔ BlockEnds info force n a fs := by
  rw [BlockEnds]
  cases hlist : xattrListFind fs.aux n with
  | some id => exact returns_iff_old hlist
  | none => exact returns_iff_new hthere hbody hno hplace hlist

theorem xattrAdd_returns_iff (hplace : XattrHasPlace info n a fs) :
    (xattrAdd info force n a.nameIndex a.name a.value).Returns (fs, l) ↔
      XattrAddEnds info force n a fs := by
  rw [xattrAdd, getInode_returns]
  constructor
  · rintro ⟨hthere, hrest⟩
    obtain ⟨res, ⟨fs1, l1⟩, hbody, hgo⟩ := Run.returns_bind.mp hrest
    obtain ⟨b, t, hb, ht, hends⟩ := xattrAddtoInode_returns_iff.mp ⟨_, _, hbody⟩
    have htable : t = bodyTable info n fs := (table_of_group hb ht).symm
    subst htable
    refine ⟨hthere, hends, ?_⟩
    intro hno
    obtain ⟨rfl, rfl, -⟩ | ⟨-, hfits, -⟩ := xattrAddtoInode_ok hbody
    · rw [if_pos (by decide)] at hgo
      exact (xattrAddtoBlock_returns_iff_ends hthere hends hno hplace).mp hgo
    · exact absurd hfits hno
  · rintro ⟨hthere, hends, hblock⟩
    refine ⟨hthere, ?_⟩
    obtain ⟨b, hb, ht⟩ := opened_table hthere
    obtain ⟨res, ⟨fs1, l1⟩, hbody⟩ :=
      (xattrAddtoInode_returns_iff (l := l)).mpr ⟨b, _, hb, ht, hends⟩
    rw [Run.returns_bind_of_ok hbody]
    obtain ⟨rfl, rfl, hno⟩ | ⟨rfl, -⟩ := xattrAddtoInode_ok hbody
    · rw [if_pos (by decide)]
      exact (xattrAddtoBlock_returns_iff_ends hthere hends hno hplace).mpr (hblock hno)
    · exact ⟨_, _, rfl⟩

def XattrAdded (info : FsInfo) (force : Bool) (n : Nat) (a : XAttr) (fs : Fs)
    (l : List Ext4Error) : Prop :=
  ∃ c fs' l', xattrAdd info force n a.nameIndex a.name a.value (fs, l) = .ok (c, (fs', l')) ∧
    XattrAddHolds info force n a fs fs' c

theorem xattrAdd_holds_iff : XattrAdded info force n a fs l ↔
    XattrHasPlace info n a fs ∧ XattrAddEnds info force n a fs := by
  constructor
  · rintro ⟨c, fs', l', hrun, hholds⟩
    have hplace := (holds_iff_hasPlace hrun).mp hholds
    exact ⟨hplace, (xattrAdd_returns_iff hplace).mp ⟨c, (fs', l'), hrun⟩⟩
  · rintro ⟨hplace, hends⟩
    obtain ⟨c, ⟨fs', l'⟩, hrun⟩ := (xattrAdd_returns_iff (l := l) hplace).mpr hends
    exact ⟨c, fs', l', hrun, (holds_iff_hasPlace hrun).mpr hplace⟩

def nearlyFull (free : Nat) : Fs :=
  ⟨{ smallAux with bgs := [⟨0, 68, 4028 - free, true, 0, 0, none, free, 4096 - free, 1012, 13, 0, 1⟩] },
    [], [], []⟩

def addRun (info : FsInfo) (n : Nat) (a : XAttr) (fs : Fs) : Option (Int × Fs) :=
  match xattrAdd info false n a.nameIndex a.name a.value (fs, []) with
  | .ok (c, (fs', _)) => some (c, fs')
  | .error _ => none

theorem addRun_some {p : Int × Fs} (h : addRun info n a fs = some p) :
    ∃ l', xattrAdd info false n a.nameIndex a.name a.value (fs, []) = .ok (p.1, (p.2, l')) := by
  unfold addRun at h
  cases hrun : xattrAdd info false n a.nameIndex a.name a.value (fs, []) with
  | error e => simp [hrun] at h
  | ok q =>
    obtain ⟨c, fs', l'⟩ := q
    simp only [hrun, Option.some.injEq] at h
    exact ⟨l', by rw [← h]⟩

-- 80 bytes of value do not fit the 96 bytes behind the inode, and no block is free.
def wideAttr : XAttr := ⟨6, xattrCapsSuffix, List.replicate 80 1⟩

theorem no_block_recorded :
    ∃ fs' l', xattrAdd smallInfo false 12 wideAttr.nameIndex wideAttr.name wideAttr.value
        (nearlyFull 0, []) = .ok (0, (fs', l')) ∧
      fs'.field (inodeRef smallInfo 12) iFileAclLo = ext4AllocateFailed ∧
      ¬ XattrAdded smallInfo false 12 wideAttr (nearlyFull 0) [] := by
  have hresult : (addRun smallInfo 12 wideAttr (nearlyFull 0)).map (fun p =>
      (p.1, p.2.field (inodeRef smallInfo 12) iFileAclLo)) = some (0, ext4AllocateFailed) := by
    decide +kernel
  obtain ⟨⟨c, fs'⟩, hp, hfields⟩ := Option.map_eq_some_iff.mp hresult
  obtain ⟨rfl, hacl⟩ := Prod.mk.inj hfields
  obtain ⟨l', hrun⟩ := addRun_some hp
  refine ⟨fs', l', hrun, hacl, ?_⟩
  have hbefore : (nearlyFull 0).field (inodeRef smallInfo 12) iFileAclLo = 0 := by decide +kernel
  have hsame : ¬ SameBlocks (inodeRef smallInfo 12) (nearlyFull 0) fs' := by
    intro h
    have := h.acl
    simp only at hacl
    rw [hacl, hbefore] at this
    exact absurd this (by decide)
  rintro ⟨c, fs'', l'', hrun', hholds⟩
  rw [hrun] at hrun'
  cases hrun'
  obtain ⟨-, hbody | ⟨_, _, _, _, _, hold⟩ | ⟨-, num, id, aux, k, k', -, hnum, -, hnew, -⟩⟩ |
    ⟨hc, -⟩ := hholds
  · exact hsame hbody.same
  · exact hsame hold
  · exact hnum (hnew.acl.symm.trans hacl)
  · exact hc rfl

end Add

end MakeExt4fs

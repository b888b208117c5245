import MakeExt4fs.Fixup.Metered
import MakeExt4fs.Fixup.Prepare

namespace MakeExt4fs

open ErrorLog Interrupt Words

def writeDirBlock (v : Volume) (blockList : BlockList) (dirbuf : Buffer) (i : Nat) : Fixup Unit := do
  let blockNum ← Act.expect (blockList.getD i none)
  writeBlock v false blockNum (dirbuf.view (i * v.info.blockSize.val) v.info.blockSize.val)

section Tails

variable (v : Volume)

def Seekable (blockList : BlockList) (i : Nat) : Prop :=
  ∃ blockNum, blockList.getD i none = some blockNum ∧
    u64 (blockNum * v.info.blockSize.val) < 9223372036854775808

def Writable (blockList : BlockList) (prev : Nat) : Prop :=
  ∀ i ≤ (prev + 4) / v.info.blockSize.val, Seekable v blockList i

def Enters (dirbuf : Buffer) (dirp : Nat) (m : Machine) (inode : Buffer) (m' : Machine) : Prop :=
  ∃ name m1, isEntryDir v dirbuf dirp .sanityCheck m = (.ok true, m1) ∧
    nameFrom dirbuf (dirp + 8) ((direntNameLen dirp).get dirbuf) = some name ∧
    isDotName name = false ∧
    readInode v ((direntInode dirp).get dirbuf &&& 0x7fffffff) m1 = (.ok inode, m') ∧
    sIsdir (iMode.get inode) = true ∧ 0 ≤ s32 (iBlocksLo.get inode * inodeBlockSize)

variable (newInodesPerGroup : Nat)

-- From the entry at dirp on the loop comes to a tail of eight bytes or fewer, in this directory or
-- in one that it goes into. It does not come past an unused entry.
def TailAhead (recurse : Buffer → Int → Fixup Unit) (tail : Buffer → Int → Machine → Prop)
    (blockList : BlockList) (dirbuf : Buffer) (dirsize : Int) :
    Nat → Nat → Option Nat → Machine → Prop
  | 0, _, _, _ => False
  | turns + 1, dirp, prev, m => dirp < dirsize ∧
    match shortEntry .sanityCheck dirsize dirp prev with
    | some prev => Writable v blockList prev
    | none => (direntInode dirp).get dirbuf ≠ 0 ∧
      ((∃ inode m', Enters v dirbuf dirp m inode m' ∧
          tail inode (s32 (iBlocksLo.get inode * inodeBlockSize)) m') ∨
        ∃ m', visitEntry v .sanityCheck newInodesPerGroup (enterDir v recurse) dirbuf dirp m =
            (.ok dirbuf, m') ∧
          TailAhead recurse tail blockList dirbuf dirsize turns
            (dirp + (direntRecLen dirp).get dirbuf) (some dirp) m')

def TakesTail : Nat → Buffer → Int → Machine → Prop
  | 0, _, _, _ => False
  | depth + 1, inode, dirsize, m => ofInt32 dirsize % v.info.blockSize.val = 0 ∧
    ∃ blockList m1 dirbuf m2,
      getBlockList v depth inode (ofInt32 dirsize / v.info.blockSize.val) m =
        (.ok blockList, m1) ∧
      readDirBlocks v blockList (ofInt32 dirsize / v.info.blockSize.val)
        (.zeros (ofInt32 dirsize)) m1 = (.ok dirbuf, m2) ∧
      TailAhead v newInodesPerGroup (recurseDir v false .sanityCheck newInodesPerGroup depth)
        (TakesTail depth) blockList dirbuf dirsize (ofInt32 dirsize + 1) 0 none m2

end Tails

section SanityPass

variable {v : Volume} {stored : Disk × Buffer} {m : Machine}

theorem readBlock_ends {blockNum : Nat} {E : Stop FixupError → Machine → Prop}
    {Q : Buffer → Machine → Prop}
    (hq : ∀ block m', m'.stored = m.stored → block.size = v.info.blockSize.val →
      (u64 (blockNum * v.info.blockSize.val) < 9223372036854775808 →
        u64 (blockNum * v.info.blockSize.val) + v.info.blockSize.val ≤ m.device.size ∧
        ∀ k < v.info.blockSize.val,
          block.get k = m.device.get (u64 (blockNum * v.info.blockSize.val) + k)) → Q block m')
    (he : ∀ e m', m'.stored = m.stored → E e m') : (readBlock v blockNum).Ends Q E m := by
  rw [readBlock, Act.ends_bind]
  refine lseek_ends (fun hlt => ?_) fun hge => ?_
  · refine readHere_ends (fun left hend => ?_) fun _ _ => he _ _ rfl
    exact hq _ _ rfl rfl fun _ => ⟨hend, fun k hk => Buffer.get_view hk⟩
  · refine readHere_ends (fun left hend => ?_) fun _ _ => he _ _ rfl
    exact hq _ _ rfl rfl fun hlt => absurd hlt (by omega)

def BlockRead (v : Volume) (device : Disk) (blockList : BlockList) (dirbuf : Buffer) (i : Nat) :
    Prop :=
  ∃ blockNum, blockList.getD i none = some blockNum ∧
    (u64 (blockNum * v.info.blockSize.val) < 9223372036854775808 →
      u64 (blockNum * v.info.blockSize.val) + v.info.blockSize.val ≤ device.size ∧
      ∀ k < v.info.blockSize.val, dirbuf.get (i * v.info.blockSize.val + k) =
        device.get (u64 (blockNum * v.info.blockSize.val) + k))

theorem BlockRead.blit {device : Disk} {blockList : BlockList} {dirbuf block : Buffer} {i j : Nat}
    (h : BlockRead v device blockList dirbuf j) (hij : j < i) :
    BlockRead v device blockList (dirbuf.blit (i * v.info.blockSize.val) block) j := by
  obtain ⟨blockNum, hlist, hread⟩ := h
  refine ⟨blockNum, hlist, fun hlt => ⟨(hread hlt).1, fun k hk => ?_⟩⟩
  have hle : (j + 1) * v.info.blockSize.val ≤ i * v.info.blockSize.val :=
    Nat.mul_le_mul_right _ hij
  have hexp : (j + 1) * v.info.blockSize.val = j * v.info.blockSize.val + v.info.blockSize.val :=
    Nat.succ_mul _ _
  rw [Buffer.get_blit_of_not_mem (by omega), (hread hlt).2 k hk]

theorem readDirBlocks_ends {blockList : BlockList} {n : Nat} {dirbuf : Buffer}
    (hsize : dirbuf.size = n * v.info.blockSize.val) :
    (readDirBlocks v blockList n dirbuf).Ends
      (fun b m' => m'.stored = m.stored ∧ b.size = n * v.info.blockSize.val ∧
        ∀ i < n, BlockRead v m.device blockList b i)
      (fun _ m' => m'.stored = m.stored) m := by
  refine Act.ends_fold_range (fun i b (m' : Machine) => m'.stored = m.stored ∧
    b.size = n * v.info.blockSize.val ∧ ∀ j < i, BlockRead v m.device blockList b j) ?_
      ⟨rfl, hsize, by omega⟩
  rintro i hi b m1 ⟨hm1, hb, hread⟩
  rw [Act.ends_bind, Act.ends_expect]
  refine ⟨fun blockNum hlist => ?_, fun _ => hm1⟩
  rw [Act.ends_bind]
  refine readBlock_ends (fun block m2 hm2 hbs hblock => ?_) fun _ m2 hm2 => hm2.trans hm1
  have hdev : m1.device = m.device := congrArg Prod.fst hm1
  refine ⟨hm2.trans hm1, hb, fun j hj => ?_⟩
  rcases Nat.lt_succ_iff_lt_or_eq.mp hj with hlt | rfl
  · exact (hread j hlt).blit hlt
  · refine ⟨blockNum, hlist, fun hoff => ⟨hdev ▸ (hblock hoff).1, fun k hk => ?_⟩⟩
    have hle : (j + 1) * v.info.blockSize.val ≤ n * v.info.blockSize.val :=
      Nat.mul_le_mul_right _ hi
    have hexp : (j + 1) * v.info.blockSize.val = j * v.info.blockSize.val + v.info.blockSize.val :=
      Nat.succ_mul _ _
    rw [Buffer.get_blit_of_mem (by omega) (by omega), Nat.add_sub_cancel_left,
      (hblock hoff).2 k hk, hdev]

theorem writeDirBlocks_stays {blockList : BlockList} {n : Nat} {dirbuf : Buffer}
    (h : ∀ i < n, (∀ j ≤ i, Seekable v blockList j) → BlockRead v m.device blockList dirbuf i) :
    (writeDirBlocks v false blockList n dirbuf).Ends (fun _ m' => m'.stored = m.stored)
      (fun _ m' => m'.stored = m.stored) m := by
  refine (Act.ends_each_range (fun i m' => m'.stored = m.stored ∧ ∀ j < i, Seekable v blockList j)
    ?_ ⟨rfl, by omega⟩).post fun _ m' h => h.1
  rintro i hi m1 ⟨hm1, hseek⟩
  have hdev : m1.device = m.device := congrArg Prod.fst hm1
  rw [Act.ends_bind, Act.ends_expect]
  refine ⟨fun blockNum hlist => ?_, fun _ => hm1⟩
  refine Act.ends_bind.mpr (lseekOr_ends (fun hoff => ?_) hm1)
  have hseek' : ∀ j ≤ i, Seekable v blockList j := by
    intro j hj
    rcases Nat.lt_or_eq_of_le hj with hlt | rfl
    · exact hseek j hlt
    · exact ⟨blockNum, hlist, hoff⟩
  obtain ⟨blockNum', hlist', hread⟩ := h i hi hseek'
  obtain rfl : blockNum = blockNum' := Option.some.inj (hlist.symm.trans hlist')
  refine writeHere_ends (fun left => ⟨?_, fun j hj => hseek' j (by omega)⟩) hm1
  have hsame : m1.device.writeAt (u64 (blockNum * v.info.blockSize.val))
      (dirbuf.view (i * v.info.blockSize.val) v.info.blockSize.val) = m1.device := by
    refine Disk.writeAt_same (hdev ▸ (hread hoff).1) fun k hk => ?_
    rw [Buffer.get_view (show k < v.info.blockSize.val from hk), (hread hoff).2 k hk, hdev]
  refine Eq.trans ?_ hm1
  exact congrArg (fun d => (d, m1.bgDesc)) hsame

theorem get_growRecLen {dirbuf : Buffer} {prev k i : Nat} (h : i < prev + 4 ∨ prev + 6 ≤ i) :
    (growRecLen dirbuf prev k).get i = dirbuf.get i :=
  Buffer.get_putLE_of_apart _ _ _ _ _ (by simp only [direntRecLen]; omega)

theorem BlockRead.grow {device : Disk} {blockList : BlockList} {dirbuf : Buffer} {prev k i : Nat}
    (h : BlockRead v device blockList dirbuf i) (hbefore : i < (prev + 4) / v.info.blockSize.val) :
    BlockRead v device blockList (growRecLen dirbuf prev k) i := by
  obtain ⟨blockNum, hlist, hread⟩ := h
  have hmul : (i + 1) * v.info.blockSize.val ≤ prev + 4 :=
    (Nat.mul_le_mul_right _ hbefore).trans (Nat.div_mul_le_self _ _)
  have hexp : (i + 1) * v.info.blockSize.val = i * v.info.blockSize.val + v.info.blockSize.val :=
    Nat.succ_mul _ _
  refine ⟨blockNum, hlist, fun hoff => ⟨(hread hoff).1, fun j hj => ?_⟩⟩
  rw [get_growRecLen (by omega), (hread hoff).2 j hj]

variable {newInodesPerGroup : Nat} {recurse : Buffer → Int → Fixup Unit}
  {tail : Buffer → Int → Machine → Prop} {blockList : BlockList} {dirbuf : Buffer} {dirsize : Int}
  {dirp : Nat} {prev : Option Nat}

theorem memGet_run {f : Field} {b : Buffer} {n : Nat} {m' : Machine}
    (h : memGet f b m = (.ok n, m')) : n = f.get b ∧ m' = m := by
  unfold memGet at h
  split at h <;> cases h
  exact ⟨rfl, rfl⟩

theorem visitEntry_stays (hm : m.stored = stored)
    (henter : ∀ inode m', m'.stored = stored → Enters v dirbuf dirp m inode m' →
      (recurse inode (s32 (iBlocksLo.get inode * inodeBlockSize))).Ends
        (fun _ m'' => m''.stored = stored) (fun _ m'' => m''.stored = stored) m') :
    (visitEntry v .sanityCheck newInodesPerGroup (enterDir v recurse) dirbuf dirp).Ends
      (fun b m' => b = dirbuf ∧ m'.stored = stored) (fun _ m' => m'.stored = stored) m := by
  rw [visitEntry, Act.ends_bind]
  refine (memGet_reads _ _).ends (fun inum m1 hinum _ => ?_) fun _ _ h => h.trans hm
  obtain ⟨rfl, rfl⟩ := memGet_run hinum
  rw [Act.ends_bind]
  refine (memGet_reads _ _).ends (fun nameLen m2 hlen _ => ?_) fun _ _ h => h.trans hm
  obtain ⟨rfl, rfl⟩ := memGet_run hlen
  rw [Act.ends_bind, Act.ends_expect]
  refine ⟨fun name hname => ?_, fun _ => hm⟩
  rw [Act.ends_bind]
  refine (isEntryDir_reads v _ _ _).ends (fun isDir m3 hdir hm3 => ?_) fun _ _ h => h.trans hm
  have hm3' : m3.stored = stored := hm3.trans hm
  split
  · rename_i hcond
    simp only [Bool.and_eq_true, Bool.not_eq_true'] at hcond
    obtain ⟨⟨rfl, hdot⟩, -⟩ := hcond
    rw [Act.ends_bind, enterDir, Act.ends_bind]
    refine (readInode_reads v _).ends (fun inode m4 hinode hm4 => ?_) fun _ _ h => h.trans hm3'
    have hm4' : m4.stored = stored := hm4.trans hm3'
    refine .ite (fun hisdir => .ite (fun _ => hm4') fun hsize => ?_) fun _ => hm4'
    exact (henter inode m4 hm4' ⟨name, m3, hdir, hname, hdot, hinode, hisdir, by omega⟩).post
      fun _ _ h => ⟨rfl, h⟩
  · exact ⟨rfl, hm3'⟩

theorem walkDir_stays
    (hrecurse : ∀ inode m', m'.stored = stored →
      ¬ tail inode (s32 (iBlocksLo.get inode * inodeBlockSize)) m' →
      (recurse inode (s32 (iBlocksLo.get inode * inodeBlockSize))).Ends
        (fun _ m'' => m''.stored = stored) (fun _ m'' => m''.stored = stored) m')
    (turns : Nat) (hm : m.stored = stored)
    (hno : ¬ TailAhead v newInodesPerGroup recurse tail blockList dirbuf dirsize turns dirp prev m) :
    (walkDir v .sanityCheck newInodesPerGroup (enterDir v recurse) dirsize turns dirp prev
      dirbuf).Ends
      (fun b m' => m'.stored = stored ∧ (b = dirbuf ∨
        ∃ prev k, b = growRecLen dirbuf prev k ∧ ¬ Writable v blockList prev))
      (fun _ m' => m'.stored = stored) m := by
  induction turns generalizing m dirp prev with
  | zero => exact hm
  | succ turns ih =>
    rw [walkDir]
    refine .ite (fun _ => ⟨hm, .inl rfl⟩) fun hle => ?_
    rw [TailAhead, not_and] at hno
    have hno' := hno (by omega)
    cases hshort : shortEntry .sanityCheck dirsize dirp prev with
    | some p =>
      rw [hshort] at hno'
      exact ⟨hm, .inr ⟨p, _, rfl, hno'⟩⟩
    | none =>
      rw [hshort] at hno'
      simp only [nextEntry]
      rw [Act.ends_bind]
      refine (memGet_reads _ _).ends (fun inum m1 hinum _ => ?_) fun _ _ h => h.trans hm
      obtain ⟨rfl, rfl⟩ := memGet_run hinum
      refine .ite (fun _ => ⟨hm, .inl rfl⟩) fun hused => ?_
      have hnot := fun h => hno' ⟨hused, h⟩
      rw [Act.ends_bind]
      have hvisit : (visitEntry v .sanityCheck newInodesPerGroup (enterDir v recurse) dirbuf
          dirp).Ends (fun b m' => b = dirbuf ∧ m'.stored = stored)
          (fun _ m' => m'.stored = stored) m1 :=
        visitEntry_stays hm fun inode m' hm' hinto => hrecurse inode m' hm' fun htail =>
          hnot (.inl ⟨inode, m', hinto, htail⟩)
      refine Act.ends_of_run (fun b m2 hrun => ?_) fun e m2 hrun => hvisit.stop hrun
      obtain ⟨rfl, hm2⟩ := hvisit.ok hrun
      rw [Act.ends_bind]
      refine (memGet_reads _ _).ends (fun recLen m3 hrec _ => ?_) fun _ _ h => h.trans hm2
      obtain ⟨rfl, rfl⟩ := memGet_run hrec
      exact ih hm2 fun hahead => hnot (.inr ⟨m3, hrun, hahead⟩)

theorem recurseDir_stays (depth : Nat) {inode : Buffer} (hm : m.stored = stored)
    (hno : ¬ TakesTail v newInodesPerGroup depth inode dirsize m) :
    (recurseDir v false .sanityCheck newInodesPerGroup depth inode dirsize).Ends
      (fun _ m' => m'.stored = stored) (fun _ m' => m'.stored = stored) m := by
  induction depth generalizing inode dirsize m with
  | zero => exact hm
  | succ depth ih =>
    rw [recurseDir_succ]
    refine .ite (fun _ => hm) fun hmult => ?_
    have hsize : ofInt32 dirsize =
        ofInt32 dirsize / v.info.blockSize.val * v.info.blockSize.val :=
      (Nat.div_mul_cancel (Nat.dvd_of_mod_eq_zero (not_not.mp hmult))).symm
    rw [Act.ends_bind]
    refine (getBlockList_reads v _ _ _).ends (fun blockList m1 hlist hm1 => ?_) fun _ _ h =>
      h.trans hm
    have hm1' := hm1.trans hm
    have hzeros : (Buffer.zeros (ofInt32 dirsize)).size =
        ofInt32 dirsize / v.info.blockSize.val * v.info.blockSize.val := hsize
    have hreads := @readDirBlocks_ends v m1 blockList _ _ hzeros
    rw [Act.ends_bind]
    refine Act.ends_of_run (fun dirbuf m2 hread => ?_) fun e m2 hread =>
      (hreads.stop hread).trans hm1'
    obtain ⟨hm2, -, hblocks⟩ := hreads.ok hread
    have hm2' := hm2.trans hm1'
    rw [Act.ends_bind]
    refine (walkDir_stays (fun inode m' hm' hno' => ih hm' hno') _ hm2' fun hahead =>
      hno ⟨not_not.mp hmult, blockList, m1, dirbuf, m2, hlist, hread, hahead⟩).mono ?_
      fun _ _ h => h
    rintro b m3 ⟨hm3, hb⟩
    have hdev : m3.device = m1.device := congrArg Prod.fst (hm3.trans hm1'.symm)
    refine (writeDirBlocks_stays fun i hi hseek => ?_).mono (fun _ _ h => h.trans hm3)
      fun _ _ h => h.trans hm3
    rw [hdev]
    obtain rfl | ⟨prev, k, rfl, hnot⟩ := hb
    · exact hblocks i hi
    · apply (hblocks i hi).grow
      by_contra hle
      exact hnot fun j hj => hseek j (by omega)

end SanityPass

-- Stopped behind some of its calls, the run leaves another device behind.
def Spoils {α : Type} (f : Fixup α) (m : Machine) : Prop :=
  ∃ c, (f (m.withLeft (some c))).2.left = some 0 ∧
    (f (m.withLeft (some c))).2.device ≠ m.device

section Spoiling

variable {α β : Type} {m m' : Machine} {f : Fixup α} {g : α → Fixup β}

theorem Spoils.bind (h : Spoils f m) (hg : ∀ a, Metered (g a)) : Spoils (f >>= g) m := by
  obtain ⟨c, hleft, hdev⟩ := h
  refine ⟨c, ?_⟩
  rw [Act.bind_run]
  rcases hf : f (m.withLeft (some c)) with ⟨e | a, m1⟩ <;> rw [hf] at hleft hdev
  · exact ⟨hleft, hdev⟩
  · have hstuck := (hg a).stuck hleft
    exact ⟨hstuck.1, hstuck.2.symm ▸ hdev⟩

theorem Spoils.behind {a : α} (h : Spoils (g a) m') (hf : Metered f) (hm : m.left = none)
    (hrun : f m = (.ok a, m')) (hdev : m'.device = m.device) : Spoils (f >>= g) m := by
  obtain ⟨c, hleft, hspoilt⟩ := h
  obtain ⟨-, n, hn⟩ := hf.pays hm hrun
  refine ⟨n + c, ?_⟩
  rw [Act.bind_run, hn c]
  exact ⟨hleft, hdev ▸ hspoilt⟩

variable {v : Volume} {blockList : BlockList} {dirbuf : Buffer} {n : Nat}

theorem writeHere_run {e : FixupError} {src : Buffer} (h : m.left ≠ some 0) :
    writeHere e src m = (.ok (), { m with
      device := m.device.writeAt m.pos src
      pos := m.pos + src.size
      left := m.left.map (· - 1)
      written := m.written ++ [(m.pos, src)] }) := by
  obtain ⟨device, pos, left, state, descs, written⟩ := m
  rcases left with _ | _ | j
  · rfl
  · exact absurd rfl h
  · rfl

theorem writeDirBlock_run (dirbuf : Buffer) {i blockNum : Nat} (h : m.left ≠ some 0)
    (hlist : blockList.getD i none = some blockNum)
    (hoff : u64 (blockNum * v.info.blockSize.val) < 9223372036854775808) :
    ∃ m', writeDirBlock v blockList dirbuf i m = (.ok (), m') ∧
      m'.left = m.left.map (· - 1) ∧ m'.device =
        m.device.writeAt (u64 (blockNum * v.info.blockSize.val))
          (dirbuf.view (i * v.info.blockSize.val) v.info.blockSize.val) := by
  have hseek : lseekOr (.seekBlock blockNum) (u64 (blockNum * v.info.blockSize.val)) m =
      (.ok (), { m with pos := u64 (blockNum * v.info.blockSize.val) }) := by
    rw [lseekOr, Act.bind_run, lseek, if_neg (by omega)]
    rfl
  have hpos : ({ m with pos := u64 (blockNum * v.info.blockSize.val) } : Machine).left ≠ some 0 := h
  rw [writeDirBlock, hlist, Act.expect, pure_bind, writeBlock, if_neg (by decide), Act.bind_run,
    hseek]
  simp only [writeHere_run hpos]
  exact ⟨_, rfl, rfl, rfl⟩

theorem get_growRecLen_ne {prev k : Nat} (hprev : prev + 6 ≤ dirbuf.size) (hk : 0 < k ∧ k ≤ 8) :
    (growRecLen dirbuf prev k).get (prev + 4) ≠ dirbuf.get (prev + 4) := by
  have hold : (direntRecLen prev).get dirbuf =
      dirbuf.get (prev + 4) + 256 * dirbuf.getLE (prev + 5) 1 := rfl
  have hnew : (growRecLen dirbuf prev k).get (prev + 4) +
      256 * (growRecLen dirbuf prev k).getLE (prev + 5) 1 =
        ((direntRecLen prev).get dirbuf + k) % 65536 :=
    Buffer.getLE_putLE dirbuf (prev + 4) 2 _ hprev
  have h1 := dirbuf.get_lt (prev + 4)
  have h2 := (growRecLen dirbuf prev k).get_lt (prev + 4)
  omega

theorem writeDirBlock_same {i : Nat} (hm : m.left = none)
    (hread : BlockRead v m.device blockList dirbuf i) (hseek : Seekable v blockList i) :
    ∃ m', writeDirBlock v blockList dirbuf i m = (.ok (), m') ∧ m'.left = none ∧
      m'.device = m.device := by
  obtain ⟨blockNum, hlist, hblock⟩ := hread
  obtain ⟨blockNum', hlist', hoff⟩ := hseek
  obtain rfl := Option.some.inj (hlist.symm.trans hlist')
  obtain ⟨hend, hbytes⟩ := hblock hoff
  have hcall : m.left ≠ some 0 := by simp [hm]
  obtain ⟨m', hrun, hleft, hdev⟩ := writeDirBlock_run dirbuf hcall hlist hoff
  refine ⟨m', hrun, by rw [hleft, hm]; rfl, ?_⟩
  rw [hdev]
  refine Disk.writeAt_same hend fun j hj => ?_
  rw [Buffer.get_view (show j < v.info.blockSize.val from hj), hbytes j hj]

-- The run is stopped right behind the write of the block.
theorem writeDirBlock_spoils {b : Buffer} {i k : Nat} (hk : k < v.info.blockSize.val)
    (hread : BlockRead v m.device blockList dirbuf i) (hseek : Seekable v blockList i)
    (hne : b.get (i * v.info.blockSize.val + k) ≠ dirbuf.get (i * v.info.blockSize.val + k)) :
    Spoils (writeDirBlock v blockList b i) m := by
  obtain ⟨blockNum, hlist, hblock⟩ := hread
  obtain ⟨blockNum', hlist', hoff⟩ := hseek
  obtain rfl := Option.some.inj (hlist.symm.trans hlist')
  obtain ⟨hend, hbytes⟩ := hblock hoff
  have hcall : (m.withLeft (some 1)).left ≠ some 0 := by simp
  obtain ⟨m', hrun, hleft, hdev⟩ := writeDirBlock_run b hcall hlist hoff
  refine ⟨1, ?_⟩
  rw [hrun]
  refine ⟨hleft, fun hsame => hne ?_⟩
  rw [hdev, Machine.device_withLeft] at hsame
  have hbyte := congrArg
    (fun d : Disk => d.get (u64 (blockNum * v.info.blockSize.val) + k)) hsame
  rwa [Disk.get_writeAt_of_mem ⟨by omega, by rw [Buffer.size_view]; omega⟩,
    Nat.add_sub_cancel_left, Buffer.get_view hk, ← hbytes _ hk] at hbyte

theorem writeDirBlocks_spoils {prev k : Nat} (hm : m.left = none)
    (hbs : 0 < v.info.blockSize.val) (hsize : dirbuf.size = n * v.info.blockSize.val)
    (hread : ∀ i < n, BlockRead v m.device blockList dirbuf i) (hprev : prev + 6 ≤ dirbuf.size)
    (hk : 0 < k ∧ k ≤ 8) (hwritable : Writable v blockList prev) :
    Spoils (writeDirBlocks v false blockList n (growRecLen dirbuf prev k)) m := by
  obtain ⟨i0, hi0⟩ : ∃ i0, i0 = (prev + 4) / v.info.blockSize.val := ⟨_, rfl⟩
  have hmod := Nat.div_add_mod' (prev + 4) v.info.blockSize.val
  have hmodlt := Nat.mod_lt (prev + 4) hbs
  rw [← hi0] at hmod
  have hlt : i0 < n := by
    by_contra hle
    have := Nat.mul_le_mul_right v.info.blockSize.val (not_lt.mp hle)
    omega
  obtain ⟨r, rfl⟩ : ∃ r, n = i0 + (r + 1) := ⟨n - i0 - 1, by omega⟩
  -- the blocks in front of the patched rec_len are written back as they were read
  have hfirst : (Act.each (List.range i0)
      (writeDirBlock v blockList (growRecLen dirbuf prev k))).Ends
      (fun _ m1 => m1.left = none ∧ m1.device = m.device) (fun _ _ => False) m := by
    refine Act.ends_each_range (fun _ (m1 : Machine) => m1.left = none ∧ m1.device = m.device)
      (fun i hi m1 ⟨hleft, hdev⟩ => ?_) ⟨hm, rfl⟩
    have hblock : BlockRead v m1.device blockList (growRecLen dirbuf prev k) i :=
      hdev ▸ (hread i (by omega)).grow (hi0 ▸ hi)
    obtain ⟨m2, hrun, hleft2, hdev2⟩ := writeDirBlock_same hleft hblock (hwritable i (by omega))
    refine Act.ends_of_run (fun _ m3 h3 => ?_) fun _ _ h3 => ?_ <;> cases hrun.symm.trans h3
    exact ⟨hleft2, hdev2.trans hdev⟩
  obtain ⟨_, m1, hrun1, hleft1, hdev1⟩ := hfirst.exists_run
  have hspoils : Spoils (writeDirBlock v blockList (growRecLen dirbuf prev k) i0) m1 := by
    refine writeDirBlock_spoils hmodlt (hdev1 ▸ hread i0 (by omega)) (hwritable i0 (by omega)) ?_
    rw [hmod]
    exact get_growRecLen_ne hprev hk
  have hsplit : writeDirBlocks v false blockList (i0 + (r + 1)) (growRecLen dirbuf prev k) =
      Act.each (List.range i0 ++ i0 :: (List.range r).map (i0 + · + 1))
        (writeDirBlock v blockList (growRecLen dirbuf prev k)) := by
    rw [writeDirBlocks, List.range_add, List.range_succ_eq_map]
    simp [Nat.add_assoc, Function.comp_def]
    rfl
  have heach : ∀ xs, Metered (Act.each xs
      (writeDirBlock v blockList (growRecLen dirbuf prev k))) :=
    metered_each fun _ => (metered_expect _).bind fun _ => writeBlock_metered v _ _ _
  have hrest : Spoils (Act.each (i0 :: (List.range r).map (i0 + · + 1))
      (writeDirBlock v blockList (growRecLen dirbuf prev k))) m1 := hspoils.bind fun _ => heach _
  obtain ⟨c, hc⟩ := Spoils.behind (a := ()) (g := fun _ => _) hrest (heach _) hm hrun1 hdev1
  refine ⟨c, ?_⟩
  rw [hsplit, Act.each_append]
  exact hc

variable {newInodesPerGroup : Nat} {recurse : Buffer → Int → Fixup Unit}
  {tail : Buffer → Int → Machine → Prop} {dirsize : Int} {dirp : Nat} {stored : Disk × Buffer}

theorem enterDir_metered (hrecurse : ∀ inode dirsize, Metered (recurse inode dirsize))
    (name : List UInt8) (inum : Nat) : Metered (enterDir v recurse name inum) :=
  (readInode_metered v _).bind fun _ =>
    .ite (.ite (metered_fail _) (hrecurse _ _)) (metered_fail _)

theorem isEntryDir_inside {pass : Pass} {isDir : Bool}
    (h : isEntryDir v dirbuf dirp pass m = (.ok isDir, m')) : dirp + 8 ≤ dirbuf.size := by
  rw [isEntryDir] at h
  obtain ⟨fileType, m1, hmem, -⟩ := Act.bind_ok.mp h
  unfold memGet at hmem
  split at hmem
  · assumption
  · cases hmem

theorem visitEntry_inside {pass : Pass} {enter : List UInt8 → Nat → Fixup Unit} {b : Buffer}
    (h : visitEntry v pass newInodesPerGroup enter dirbuf dirp m = (.ok b, m')) :
    dirp + 8 ≤ dirbuf.size := by
  rw [visitEntry] at h
  obtain ⟨inum, m1, -, h⟩ := Act.bind_ok.mp h
  obtain ⟨nameLen, m2, -, h⟩ := Act.bind_ok.mp h
  obtain ⟨name, m3, -, h⟩ := Act.bind_ok.mp h
  obtain ⟨isDir, m4, hdir, -⟩ := Act.bind_ok.mp h
  exact isEntryDir_inside hdir

theorem visitEntry_spoils {inode : Buffer} (hm : m.left = none)
    (hinto : Enters v dirbuf dirp m inode m')
    (h : Spoils (recurse inode (s32 (iBlocksLo.get inode * inodeBlockSize))) m') :
    Spoils (visitEntry v .sanityCheck newInodesPerGroup (enterDir v recurse) dirbuf dirp) m := by
  obtain ⟨name, m1, hdir, hname, hdot, hinode, hisdir, hsize⟩ := hinto
  have hin := isEntryDir_inside hdir
  have hm1 := ((isEntryDir_metered v _ _ _).pays hm hdir).1
  have hdev1 : m1.device = m.device := congrArg Prod.fst ((isEntryDir_reads v _ _ _).run hdir)
  have hdev' : m'.device = m1.device := congrArg Prod.fst ((readInode_reads v _).run hinode)
  have henter : Spoils (enterDir v recurse name ((direntInode dirp).get dirbuf &&& 0x7fffffff))
      m1 := by
    refine Spoils.behind ?_ (readInode_metered v _) hm1 hinode hdev'
    rwa [if_pos hisdir, if_neg (by omega)]
  rw [visitEntry, memGet_eq (by simp only [direntInode]; omega), pure_bind,
    memGet_eq (by simp only [direntNameLen]; omega), pure_bind, hname, Act.expect, pure_bind]
  refine Spoils.behind ?_ (isEntryDir_metered v _ _ _) hm hdir hdev1
  rw [if_pos (by simp [hdot])]
  exact henter.bind fun _ => metered_pure _

theorem Enters.left {inode : Buffer} (hm : m.left = none)
    (h : Enters v dirbuf dirp m inode m') : m'.left = none := by
  obtain ⟨name, m1, hdir, -, -, hinode, -⟩ := h
  have hm1 := ((isEntryDir_metered v _ _ _).pays hm hdir).1
  exact ((readInode_metered v _).pays hm1 hinode).1

theorem walkDir_spoils
    (hrecurse : ∀ inode dirsize, Metered (recurse inode dirsize))
    (hspoils : ∀ inode m', m'.left = none →
      tail inode (s32 (iBlocksLo.get inode * inodeBlockSize)) m' →
      Spoils (recurse inode (s32 (iBlocksLo.get inode * inodeBlockSize))) m')
    (hstays : ∀ inode m', m'.stored = stored →
      ¬ tail inode (s32 (iBlocksLo.get inode * inodeBlockSize)) m' →
      (recurse inode (s32 (iBlocksLo.get inode * inodeBlockSize))).Ends
        (fun _ m'' => m''.stored = stored) (fun _ m'' => m''.stored = stored) m')
    (hdirsize : dirsize < 2147483648) (turns : Nat) {prev : Option Nat}
    (hprev : ∀ p, prev = some p → p + 8 ≤ dirbuf.size) (hm : m.left = none)
    (hstored : m.stored = stored)
    (h : TailAhead v newInodesPerGroup recurse tail blockList dirbuf dirsize turns dirp prev m) :
    Spoils (walkDir v .sanityCheck newInodesPerGroup (enterDir v recurse) dirsize turns dirp prev
      dirbuf) m ∨
    ∃ m' p k, walkDir v .sanityCheck newInodesPerGroup (enterDir v recurse) dirsize turns dirp prev
        dirbuf m = (.ok (growRecLen dirbuf p k), m') ∧ m'.left = none ∧ m'.stored = stored ∧
      p + 8 ≤ dirbuf.size ∧ (0 < k ∧ k ≤ 8) ∧ Writable v blockList p := by
  induction turns generalizing m dirp prev with
  | zero => exact h.elim
  | succ turns ih =>
    obtain ⟨hlt, h⟩ := h
    rw [walkDir, if_neg (by omega)]
    cases hshort : shortEntry .sanityCheck dirsize dirp prev with
    | some p =>
      rw [hshort] at h
      simp only [shortEntry] at hshort
      split at hshort
      · rename_i hleft
        refine .inr ⟨m, p, _, rfl, hm, hstored, hprev p hshort, ⟨?_, hleft.2⟩, h⟩
        simp only [ofInt32]
        omega
      · cases hshort
    | none =>
      rw [hshort] at h
      obtain ⟨hused, h⟩ := h
      have hvisits : Metered (visitEntry v .sanityCheck newInodesPerGroup (enterDir v recurse)
          dirbuf dirp) := visitEntry_metered v (enterDir_metered hrecurse) _ _
      have hrest (b : Buffer) : Metered (memGet (direntRecLen dirp) b >>= fun recLen =>
          walkDir v .sanityCheck newInodesPerGroup (enterDir v recurse) dirsize turns
            (dirp + recLen) (some dirp) b) :=
        (memGet_metered _ _).bind fun _ => walkDir_metered v (enterDir_metered hrecurse) _ _ _ _ _
      have hinside : dirp + 8 ≤ dirbuf.size := by
        obtain ⟨inode, m', ⟨name, m1, hdir, -⟩, -⟩ | ⟨m', hrun, -⟩ := h
        · exact isEntryDir_inside hdir
        · exact visitEntry_inside hrun
      simp only [nextEntry]
      rw [memGet_eq (by simp only [direntInode]; omega), pure_bind, if_neg hused]
      by_cases hbelow : ∃ inode m', Enters v dirbuf dirp m inode m' ∧
          tail inode (s32 (iBlocksLo.get inode * inodeBlockSize)) m'
      · obtain ⟨inode, m', hinto, htail⟩ := hbelow
        exact .inl ((visitEntry_spoils hm hinto (hspoils inode m' (hinto.left hm) htail)).bind hrest)
      · obtain ⟨m', hrun, hahead⟩ := h.resolve_left hbelow
        have hm' := (hvisits.pays hm hrun).1
        have hstored' : m'.stored = stored := by
          refine (Act.Ends.ok (visitEntry_stays hstored fun inode m1 hm1 hinto => ?_) hrun).2
          exact hstays inode m1 hm1 fun htail => hbelow ⟨inode, m1, hinto, htail⟩
        have hdev : m'.device = m.device := congrArg Prod.fst (hstored'.trans hstored.symm)
        have hnext : ∀ p, some dirp = some p → p + 8 ≤ dirbuf.size := by
          rintro p ⟨⟩
          exact hinside
        have hrec := memGet_eq (f := direntRecLen dirp) (b := dirbuf)
          (by simp only [direntRecLen]; omega)
        obtain hspoilt | ⟨m2, p, k, hwalk, hend⟩ := ih hnext hm' hstored' hahead
        · refine .inl (Spoils.behind ?_ hvisits hm hrun hdev)
          rwa [hrec, pure_bind]
        · refine .inr ⟨m2, p, k, Act.bind_ok.mpr ⟨dirbuf, m', hrun, ?_⟩, hend⟩
          rwa [hrec, pure_bind]

theorem recurseDir_spoils (depth : Nat) {inode : Buffer} (hdirsize : dirsize < 2147483648)
    (hm : m.left = none) (h : TakesTail v newInodesPerGroup depth inode dirsize m) :
    Spoils (recurseDir v false .sanityCheck newInodesPerGroup depth inode dirsize) m := by
  induction depth generalizing inode dirsize m with
  | zero => exact h.elim
  | succ depth ih =>
    obtain ⟨hmult, blockList, m1, dirbuf, m2, hlist, hread, hahead⟩ := h
    have hsize : ofInt32 dirsize =
        ofInt32 dirsize / v.info.blockSize.val * v.info.blockSize.val :=
      (Nat.div_mul_cancel (Nat.dvd_of_mod_eq_zero hmult)).symm
    have hm1 := ((getBlockList_metered v _ _ _).pays hm hlist).1
    have hstored1 := (getBlockList_reads v _ _ _).run hlist
    have hm2 := ((readDirBlocks_metered v _ _ _).pays hm1 hread).1
    have hzeros : (Buffer.zeros (ofInt32 dirsize)).size =
        ofInt32 dirsize / v.info.blockSize.val * v.info.blockSize.val := hsize
    obtain ⟨hstored2, hbuf, hblocks⟩ := (readDirBlocks_ends hzeros).ok hread
    have hpos : 0 < dirsize := by
      have := hahead.1
      omega
    have hbs : 0 < v.info.blockSize.val := by
      have hsome : 0 < ofInt32 dirsize := by
        simp only [ofInt32]
        omega
      by_contra hzero
      rw [Nat.eq_zero_of_not_pos hzero, Nat.mod_zero] at hmult
      omega
    have hsub (dirsize : Nat) : s32 dirsize < 2147483648 := by
      have := u32_lt dirsize
      simp only [s32]
      split <;> omega
    have hrecurse (inode : Buffer) (dirsize : Int) : Metered
        (recurseDir v false .sanityCheck newInodesPerGroup depth inode dirsize) :=
      recurseDir_metered v _ _ _
    rw [recurseDir_succ, if_neg (not_not.mpr hmult)]
    refine Spoils.behind ?_ (getBlockList_metered v _ _ _) hm hlist (congrArg Prod.fst hstored1)
    refine Spoils.behind ?_ (readDirBlocks_metered v _ _ _) hm1 hread (congrArg Prod.fst hstored2)
    obtain hspoilt | ⟨m3, p, k, hwalk, hm3, hstored3, hp, hk, hwritable⟩ :=
      walkDir_spoils hrecurse (fun inode m' hm' htail => ih (hsub _) hm' htail)
        (fun inode m' hm' hno => recurseDir_stays depth hm' hno) hdirsize _
        (fun _ h => by cases h) hm2 rfl hahead
    · exact hspoilt.bind fun _ => writeDirBlocks_metered v _ _ _
    · refine Spoils.behind ?_ (walkDir_metered v (enterDir_metered hrecurse) _ _ _ _ _) hm2 hwalk
        (congrArg Prod.fst hstored3)
      have hdev : m3.device = m1.device := congrArg Prod.fst (hstored3.trans hstored2)
      refine writeDirBlocks_spoils hm3 hbs hbuf (fun i hi => ?_) (by omega) hk hwritable
      rw [hdev]
      exact hblocks i hi

end Spoiling

section Early

variable {depth : Nat} {old : FsInfo} {force noWrite : Bool} {image : Disk} {left : Option Nat}
  {m m' : Machine}

def StopsEarly (depth : Nat) (old : FsInfo) (force noWrite : Bool) (m m' : Machine) : Prop :=
  (∃ e, untilMarking depth old force noWrite m = (.error e, m')) ∨
  ∃ p m1, untilMarking depth old force noWrite m = (.ok (p, true), m1) ∧
    setFsFixupState noWrite .markingInums m1 = (.error (.error .writeState), m')

-- What ext4fixup promises before it has decided to write: wherever it stops there, and with
-- no_write set wherever it ends, the image is what it was.
def WritesNothingEarly (depth : Nat) (old : FsInfo) (force noWrite : Bool) (image : Disk) : Prop :=
  (∀ left m, StopsEarly depth old force noWrite (.start image left) m → m.device = image) ∧
  (noWrite = true → ∀ left r m,
    ext4fixupInternal depth old force noWrite (.start image left) = (r, m) → m.device = image)

def NoShortTails (depth : Nat) (old : FsInfo) (force : Bool) (image : Disk) : Prop :=
  ∀ p m m', prepare old force (.start image none) = (.ok p, m) →
    getFsFixupState false m = (.ok .unset, m') →
    ¬ TakesTail p.volume p.newInodesPerGroup depth p.rootInode p.dirsize m'

theorem readHere_stops {e short : FixupError} {len : Nat} :
    (readHere e short len).Ends (fun _ _ => True)
      (fun err _ => err = .error e ∨ err = .error short) m := by
  rw [readHere, Act.ends_bind]
  refine call_ends (fun left => ?_) (.inl rfl)
  rw [Act.ends_bind, Act.ends_read]
  exact .ite (fun _ => trivial) fun _ => .inr rfl

theorem setFsFixupState_unwritten {state : FixupState}
    (h : setFsFixupState noWrite state m = (.error (.error .writeState), m')) :
    m'.device = m.device := by
  cases noWrite with
  | true => cases h
  | false =>
    refine Act.Ends.stop (Q := fun _ _ => True)
      (E := fun e m' => e = .error .writeState → m'.device = m.device) ?_ h rfl
    rw [setFsFixupState, if_neg (by decide), Act.ends_bind]
    refine lseek_ends (fun _ => ?_) fun hge => absurd hge (by decide)
    rw [Act.ends_bind]
    refine writeHere_ends (fun left => ?_) fun _ => rfl
    rw [Act.ends_bind, readSb, Act.ends_bind]
    refine lseekOr_ends (fun _ => readHere_stops.mono (fun sb m1 _ => ?_) ?_) (by simp)
    · rw [writeSb, Act.ends_bind]
      exact lseekOr_ends (fun _ => writeHere_ends (fun _ => trivial) (by simp)) (by simp)
    · rintro e m1 (rfl | rfl) he <;> cases he

theorem setFsFixupState_stuck {state : FixupState} (h : m.left = some 0) :
    ∃ m', setFsFixupState false state m = (.error (.error .writeState), m') ∧
      m'.device = m.device := by
  obtain ⟨device, pos, left, noWriteState, descs, written⟩ := m
  cases h
  exact ⟨_, rfl, rfl⟩

section Lenient

variable {v : Volume} {newInodesPerGroup : Nat}

theorem Enters.lenient {dirbuf inode : Buffer} {dirp : Nat} (h : Enters v dirbuf dirp m inode m') :
    Enters v dirbuf dirp (m.withLeft none) inode (m'.withLeft none) := by
  obtain ⟨name, m1, hdir, hname, hdot, hinode, hrest⟩ := h
  exact ⟨name, m1.withLeft none, (isEntryDir_metered v _ _ _).lenient hdir, hname, hdot,
    (readInode_metered v _).lenient hinode, hrest⟩

theorem TailAhead.lenient {recurse : Buffer → Int → Fixup Unit}
    {tail : Buffer → Int → Machine → Prop} {blockList : BlockList} {dirbuf : Buffer} {dirsize : Int}
    (hrecurse : ∀ inode dirsize, Metered (recurse inode dirsize))
    (htail : ∀ inode dirsize m, tail inode dirsize m → tail inode dirsize (m.withLeft none))
    (turns : Nat) {dirp : Nat} {prev : Option Nat}
    (h : TailAhead v newInodesPerGroup recurse tail blockList dirbuf dirsize turns dirp prev m) :
    TailAhead v newInodesPerGroup recurse tail blockList dirbuf dirsize turns dirp prev
      (m.withLeft none) := by
  induction turns generalizing m dirp prev with
  | zero => exact h
  | succ turns ih =>
    obtain ⟨hlt, h⟩ := h
    refine ⟨hlt, ?_⟩
    cases hshort : shortEntry .sanityCheck dirsize dirp prev with
    | some p =>
      rw [hshort] at h
      exact h
    | none =>
      rw [hshort] at h
      obtain ⟨hused, ⟨inode, m', hinto, hbelow⟩ | ⟨m', hrun, hahead⟩⟩ := h
      · exact ⟨hused, .inl ⟨inode, _, hinto.lenient, htail _ _ _ hbelow⟩⟩
      · refine ⟨hused, .inr ⟨_, ?_, ih hahead⟩⟩
        exact (visitEntry_metered v (enterDir_metered hrecurse) _ _).lenient hrun

theorem TakesTail.lenient (depth : Nat) {inode : Buffer} {dirsize : Int}
    (h : TakesTail v newInodesPerGroup depth inode dirsize m) :
    TakesTail v newInodesPerGroup depth inode dirsize (m.withLeft none) := by
  induction depth generalizing inode dirsize m with
  | zero => exact h
  | succ depth ih =>
    obtain ⟨hmult, blockList, m1, dirbuf, m2, hlist, hread, hahead⟩ := h
    exact ⟨hmult, blockList, _, dirbuf, _, (getBlockList_metered v _ _ _).lenient hlist,
      (readDirBlocks_metered v _ _ _).lenient hread,
      hahead.lenient (fun inode dirsize => recurseDir_metered v depth inode dirsize)
        fun inode dirsize m => ih⟩

end Lenient

theorem untilMarking_stays (h : noWrite = false → NoShortTails depth old force image) :
    (untilMarking depth old force noWrite).Ends (fun _ m' => m'.device = image)
      (fun _ m' => m'.device = image) (.start image left) := by
  cases noWrite with
  | true => exact (untilMarking_spares depth old force).ends _
  | false =>
    rw [untilMarking, Act.ends_bind]
    refine Act.ends_of_run (fun p m1 hprep => ?_) fun e m1 hprep =>
      (prepare_spares old force).run hprep
    have hm1 : m1.device = image := (prepare_spares old force).run hprep
    have hprep' := (prepare_metered old force).lenient hprep
    rw [Machine.withLeft_start] at hprep'
    rw [Act.ends_bind, sanityIfUnset, Act.ends_bind]
    refine (getFsFixupState_reads false).ends (fun state m2 hstate hm2 => ?_) fun _ m2 hm2 =>
      (congrArg Prod.fst hm2).trans hm1
    have hm2' : m2.device = image := (congrArg Prod.fst hm2).trans hm1
    refine .ite (fun hunset => ?_) fun _ => hm2'
    subst hunset
    rw [Act.ends_bind, sanityPhase, Act.ends_bind]
    have hclean : ¬ TakesTail p.volume p.newInodesPerGroup depth p.rootInode p.dirsize m2 :=
      fun htail => h rfl p _ _ hprep' ((getFsFixupState_metered false).lenient hstate)
        (TakesTail.lenient depth htail)
    refine (recurseDir_stays depth rfl hclean).mono (fun _ m3 hm3 => ?_) fun _ m3 hm3 =>
      (congrArg Prod.fst hm3).trans hm2'
    have hm3' : m3.device = image := (congrArg Prod.fst hm3).trans hm2'
    exact ((updateSuperblocksAndBgDesc_spares p.volume _ _).ends m3).mono
      (fun _ _ h => h.trans hm3') fun _ _ h => h.trans hm3'

theorem untilMarking_checked : (untilMarking depth old force false).Ends
    (fun r m' => r.2 = false → m'.device = image) (fun _ _ => True) (.start image left) := by
  rw [untilMarking, Act.ends_bind]
  refine ((prepare_spares old force).ends _).mono (fun p m1 hm1 => ?_) fun _ _ _ => trivial
  rw [Act.ends_bind, sanityIfUnset, Act.ends_bind]
  refine ((getFsFixupState_reads false).spares.ends _).mono (fun state m2 hm2 => ?_)
    fun _ _ _ => trivial
  refine .ite (fun _ => ?_) fun _ _ => hm2.trans hm1
  rw [Act.ends_bind]
  exact Act.ends_of_run (fun _ _ _ h => by cases h) fun _ _ _ => trivial

theorem untilMarking_spoils {p : Prepared} {m m' : Machine}
    (hprep : prepare old force (.start image none) = (.ok p, m))
    (hstate : getFsFixupState false m = (.ok .unset, m'))
    (htail : TakesTail p.volume p.newInodesPerGroup depth p.rootInode p.dirsize m') :
    Spoils (untilMarking depth old force false) (.start image none) := by
  have hm := ((prepare_metered old force).pays rfl hprep).1
  have hm' := ((getFsFixupState_metered false).pays hm hstate).1
  have hdirsize : p.dirsize < 2147483648 := by
    rw [(preparedFrom_of_run hprep).1.dirsize]
    have := u32_lt (iBlocksLo.get p.rootInode * inodeBlockSize)
    simp only [s32]
    split <;> omega
  have hphase : Spoils (sanityPhase p.volume depth false p.rootInode p.dirsize
      p.newInodesPerGroup) m' :=
    (recurseDir_spoils depth hdirsize hm' htail).bind fun _ =>
      updateSuperblocksAndBgDesc_metered _ _
  refine Spoils.behind ?_ (prepare_metered old force) rfl hprep
    ((prepare_spares old force).run hprep)
  refine Spoils.bind ?_ fun _ => metered_pure _
  refine Spoils.behind ?_ (getFsFixupState_metered false) hm hstate
    (congrArg Prod.fst ((getFsFixupState_reads false).run hstate))
  rw [if_pos rfl]
  exact hphase.bind fun _ => metered_pure _

theorem writesNothingEarly : WritesNothingEarly depth old force noWrite image ↔
    (noWrite = false → NoShortTails depth old force image) := by
  constructor
  · rintro ⟨hearly, -⟩ rfl p m m' hprep hstate htail
    obtain ⟨c, hleft, hdev⟩ := untilMarking_spoils hprep hstate htail
    refine hdev ?_
    rw [Machine.withLeft_start]
    rcases hrun : untilMarking depth old force false (.start image (some c)) with ⟨e | ⟨q, b⟩, m2⟩
    · exact hearly (some c) m2 (.inl ⟨e, hrun⟩)
    · cases b with
      | false => exact untilMarking_checked.ok hrun rfl
      | true =>
        have hleft2 : m2.left = some 0 := by rwa [Machine.withLeft_start, hrun] at hleft
        obtain ⟨m3, hstuck, hm3⟩ := setFsFixupState_stuck hleft2
        exact hm3.symm.trans (hearly (some c) m3 (.inr ⟨q, m2, hrun, hstuck⟩))
  · intro h
    constructor
    · rintro left m (⟨e, hrun⟩ | ⟨p, m1, hrun, hfail⟩)
      · exact (untilMarking_stays h).stop hrun
      · exact (setFsFixupState_unwritten hfail).trans ((untilMarking_stays h).ok hrun)
    · rintro rfl left r m hrun
      exact (ext4fixupInternal_spares depth old force).run hrun

def tinySb : List (Nat × Nat × Nat) :=
  [(1028, 4, 12), (1044, 4, 1), (1056, 4, 16), (1064, 4, 16), (1080, 2, 0xEF53), (1082, 2, 1),
    (1112, 2, 128), (1120, 4, 0x42), (1278, 2, 32), (2052, 4, 4), (2056, 4, 5)]

-- The root directory is block 7. Its '..' ends eight bytes before the block does, and the count of
-- inodes is one too many, which is found after the directory has been written.
def shortTailImage : Disk := imageOf 12288 (tinySb ++
  [(1024, 4, 17), (5248, 2, 0x41ED), (5276, 4, 2), (5280, 4, 0x80000), (5288, 2, 0xF30A),
    (5290, 2, 1), (5304, 2, 1), (5308, 4, 7), (7168, 4, 2), (7172, 2, 12), (7174, 1, 1),
    (7175, 1, 2), (7176, 1, 46), (7180, 4, 2), (7184, 2, 1004), (7186, 1, 2), (7187, 1, 2),
    (7188, 2, 0x2E2E)])

theorem shortTail_is_written_early : ¬ WritesNothingEarly 4 noInfo false false shortTailImage := by
  rintro ⟨hearly, -⟩
  have hrun : (match untilMarking 4 noInfo false false (.start shortTailImage none) with
      | (.error (.error _), m) => decide (m.device.getLE 7184 2 = 1012)
      | _ => false) = true := by decide +kernel
  split at hrun
  · rename_i e m hfail
    have hsame := hearly none m (.inl ⟨_, hfail⟩)
    rw [hsame] at hrun
    exact absurd hrun (by decide +kernel)
  · cases hrun

end Early

end MakeExt4fs

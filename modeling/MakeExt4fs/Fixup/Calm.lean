import MakeExt4fs.Fixup.Reads

namespace MakeExt4fs

open ErrorLog Interrupt Words

-- A calm run is one that nothing stops. What is stored is this, and if the run is calm no call fails.
structure At (calm : Prop) (stored : Disk × Buffer) (m : Machine) : Prop where
  stored : m.stored = stored
  calm : calm → m.left = none

structure Halted (calm : Prop) (stored : Disk × Buffer) (m : Machine) : Prop where
  stored : m.stored = stored
  notCalm : ¬ calm

section Calls

variable {calm : Prop} {stored : Disk × Buffer} {m : Machine}

theorem At.device (h : At calm stored m) : m.device = stored.1 := congrArg Prod.fst h.stored

theorem At.bgDesc (h : At calm stored m) : m.bgDesc = stored.2 := congrArg Prod.snd h.stored

theorem At.moved (h : At calm stored m) (pos : Nat) : At calm stored { m with pos } :=
  ⟨h.stored, h.calm⟩

theorem call_calm (e : FixupError) (h : At calm stored m) :
    (call e).Ends (fun _ m' => m'.pos = m.pos ∧ At calm stored m')
      (fun _ m' => Halted calm stored m') m := by
  rw [call, Act.ends_bind, Act.ends_read]
  split
  · exact ⟨rfl, h⟩
  · rename_i hleft
    exact ⟨h.stored, fun hc => by simp [h.calm hc] at hleft⟩
  · rename_i n hleft
    exact ⟨rfl, h.stored, fun hc => by simp [h.calm hc] at hleft⟩

theorem lseek_calm {off : Nat} {E : Stop FixupError → Machine → Prop}
    (hoff : off < 9223372036854775808) (h : At calm stored m) :
    (lseek off).Ends (fun r m' => r = true ∧ m'.pos = off ∧ At calm stored m') E m := by
  rw [lseek, if_neg (by omega)]
  exact ⟨rfl, rfl, h.moved off⟩

theorem lseekOr_calm (e : FixupError) {off : Nat} {E : Stop FixupError → Machine → Prop}
    (hoff : off < 9223372036854775808) (h : At calm stored m) :
    (lseekOr e off).Ends (fun _ m' => m'.pos = off ∧ At calm stored m') E m := by
  rw [lseekOr, Act.ends_bind]
  refine (lseek_calm hoff h).post fun r m' h' => ?_
  rw [if_pos h'.1]
  exact h'.2

theorem readHere_calm (e short : FixupError) {off len : Nat} (hpos : m.pos = off)
    (h : At calm stored m) (hlen : off + len ≤ stored.1.size) :
    (readHere e short len).Ends (fun b m' => b = stored.1.view off len ∧ At calm stored m')
      (fun _ m' => Halted calm stored m') m := by
  rw [readHere, Act.ends_bind]
  refine (call_calm e h).post ?_
  rintro _ m1 ⟨hpos1, h1⟩
  rw [hpos] at hpos1
  rw [Act.ends_bind, Act.ends_read, if_pos (by rw [h1.device, hpos1]; exact hlen)]
  exact ⟨by rw [h1.device, hpos1], h1.moved _⟩

theorem writeHere_calm (e : FixupError) {off : Nat} {src : Buffer} (hpos : m.pos = off)
    (h : At calm stored m) :
    (writeHere e src).Ends (fun _ m' => At calm (stored.1.writeAt off src, stored.2) m')
      (fun _ m' => Halted calm stored m') m := by
  rw [writeHere, Act.ends_bind]
  refine (call_calm e h).post ?_
  rintro _ m1 ⟨hpos1, h1⟩
  refine ⟨?_, h1.calm⟩
  rw [← hpos, ← hpos1, ← h1.device, ← h1.bgDesc]
  rfl

theorem memGet_eq {f : Field} {b : Buffer} (h : f.off + f.size ≤ b.size) :
    memGet f b = pure (f.get b) := if_pos h

theorem getDesc_calm {f : Field} (h : At calm stored m) (hf : f.off + f.size ≤ stored.2.size)
    {E : Stop FixupError → Machine → Prop} :
    (getDesc f).Ends (fun n m' => n = f.get stored.2 ∧ At calm stored m') E m := by
  rw [getDesc, Act.ends_bind, Act.ends_read, if_pos (by rw [h.bgDesc]; exact hf)]
  exact ⟨by rw [h.bgDesc], h⟩

theorem readSb_calm (h : At calm stored m) (hsize : 2048 ≤ stored.1.size) :
    readSb.Ends (fun b m' => b = stored.1.view 1024 1024 ∧ At calm stored m')
      (fun _ m' => Halted calm stored m') m := by
  rw [readSb, Act.ends_bind]
  refine (lseekOr_calm _ (by norm_num) h).post fun _ m1 ⟨hpos, h1⟩ => ?_
  exact readHere_calm _ _ hpos h1 hsize

theorem getFsFixupState_calm (h : At calm stored m) (hsize : 8 ≤ stored.1.size) :
    (getFsFixupState false).Ends
      (fun state m' => state = .ofMagic (stored.1.getLE 0 8) ∧ At calm stored m')
      (fun _ m' => Halted calm stored m') m := by
  rw [getFsFixupState, if_neg (by decide), Act.ends_bind]
  refine (lseek_calm (by norm_num) h).post fun _ m1 ⟨_, hpos, h1⟩ => ?_
  rw [Act.ends_bind]
  refine (readHere_calm _ _ hpos h1 hsize).post fun b m2 ⟨hb, h2⟩ => ⟨?_, h2⟩
  have hview : (stored.1.view 0 8).getLE 0 8 = stored.1.getLE 0 8 := Buffer.getLE_view le_rfl
  rw [hb, hview]

end Calls

section Volume

variable {v : Volume} {calm : Prop} {stored : Disk × Buffer} {m : Machine}

theorem readBlock_calm {blockNum : Nat} (hd : stored.1.size ≤ 9223372036854775808)
    (hbs : 0 < v.info.blockSize.val)
    (hfits : blockNum * v.info.blockSize.val + v.info.blockSize.val ≤ stored.1.size)
    (h : At calm stored m) :
    (readBlock v blockNum).Ends (fun b m' =>
        b = stored.1.view (blockNum * v.info.blockSize.val) v.info.blockSize.val ∧
          At calm stored m')
      (fun _ m' => Halted calm stored m') m := by
  have hu : u64 (blockNum * v.info.blockSize.val) = blockNum * v.info.blockSize.val :=
    u64_of_lt (by omega)
  rw [readBlock, Act.ends_bind, hu]
  refine (lseek_calm (by omega) h).post fun _ m1 ⟨_, hpos, h1⟩ => ?_
  exact readHere_calm _ _ hpos h1 hfits

theorem writeBlock_calm {blockNum : Nat} {block : Buffer}
    (hd : stored.1.size ≤ 9223372036854775808) (hbs : 0 < v.info.blockSize.val)
    (hfits : blockNum * v.info.blockSize.val + v.info.blockSize.val ≤ stored.1.size)
    (h : At calm stored m) :
    (writeBlock v false blockNum block).Ends (fun _ m' =>
        At calm (stored.1.writeAt (blockNum * v.info.blockSize.val) block, stored.2) m')
      (fun _ m' => Halted calm stored m') m := by
  have hu : u64 (blockNum * v.info.blockSize.val) = blockNum * v.info.blockSize.val :=
    u64_of_lt (by omega)
  rw [writeBlock, if_neg (by decide), Act.ends_bind, hu]
  refine (lseekOr_calm _ (by omega) h).post fun _ m1 ⟨hpos, h1⟩ => ?_
  exact writeHere_calm _ hpos h1

def inodeAddr (info : FsInfo) (descs : Buffer) (inum : Nat) : Nat :=
  u64 ((bgInodeTable (sub32 inum 1 / info.inodesPerGroup.val)).get descs * info.blockSize.val +
    u32 (sub32 inum 1 % info.inodesPerGroup.val * info.inodeSize.val))

def inodeAt (info : FsInfo) (descs : Buffer) (d : Disk) (inum : Nat) : Buffer :=
  d.view (inodeAddr info descs inum) sizeofExt4Inode

structure InodeThere (info : FsInfo) (descs : Buffer) (d : Disk) (inum : Nat) : Prop where
  descThere : 32 * (sub32 inum 1 / info.inodesPerGroup.val) + 12 ≤ descs.size
  fits : inodeAddr info descs inum + sizeofExt4Inode ≤ d.size

theorem readInode_calm {inum : Nat} (hipg : 0 < v.info.inodesPerGroup.val)
    (hd : stored.1.size ≤ 9223372036854775808)
    (hthere : InodeThere v.info stored.2 stored.1 inum) (h : At calm stored m) :
    (readInode v inum).Ends
      (fun b m' => b = inodeAt v.info stored.2 stored.1 inum ∧ At calm stored m')
      (fun _ m' => Halted calm stored m') m := by
  have hdesc := hthere.descThere
  have hfits := hthere.fits
  rw [readInode, if_neg (by omega), Act.ends_bind]
  refine (getDesc_calm h (by simp only [bgInodeTable]; omega)).post fun table m1 ⟨ht, h1⟩ => ?_
  subst ht
  have haddr : inodeAddr v.info stored.2 inum < 9223372036854775808 := by
    simp only [sizeofExt4Inode] at hfits
    omega
  rw [Act.ends_bind]
  refine (lseekOr_calm _ haddr h1).post fun _ m2 ⟨hpos, h2⟩ => ?_
  exact readHere_calm _ _ hpos h2 hfits

end Volume

end MakeExt4fs

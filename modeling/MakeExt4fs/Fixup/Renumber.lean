import MakeExt4fs.Fixup.Shape
import Mathlib.Data.Nat.Bitwise

namespace MakeExt4fs

open ErrorLog Interrupt Words

section Numbers

def newInum (info : FsInfo) (newInodesPerGroup inum : Nat) : Nat :=
  (inum - 1) / info.inodesPerGroup.val * newInodesPerGroup +
    (inum - 1) % info.inodesPerGroup.val + 1

def Pass.before (pass : Pass) (inum : Nat) : Nat :=
  match pass with
  | .updateInodeNums => inum ||| pendingBit
  | _ => inum

def Pass.after (info : FsInfo) (newInodesPerGroup : Nat) (pass : Pass) (inum : Nat) : Nat :=
  match pass with
  | .sanityCheck => inum
  | .markInodeNums => inum ||| pendingBit
  | .updateInodeNums => newInum info newInodesPerGroup inum

variable {inum : Nat}

theorem pendingBit_eq : pendingBit = 2 ^ 31 := rfl

theorem or_pendingBit (h : inum < pendingBit) : inum ||| pendingBit = inum + pendingBit := by
  have hor : 2 ^ 31 * 1 + inum = 2 ^ 31 * 1 ||| inum := Nat.two_pow_add_eq_or_of_lt h 1
  rw [Nat.or_comm, Nat.add_comm]
  exact hor.symm

theorem and_pendingBit (h : inum < pendingBit) : inum &&& pendingBit = 0 := by
  rw [pendingBit_eq, Nat.and_two_pow, Nat.testBit_lt_two_pow h]
  rfl

theorem pending_and_pendingBit (h : inum < pendingBit) : (inum ||| pendingBit) &&& pendingBit ≠ 0 := by
  rw [Nat.and_or_distrib_right, and_pendingBit h, Nat.and_self]
  decide

theorem and_mask (n : Nat) : n &&& 0x7fffffff = n % 2147483648 := Nat.and_two_pow_sub_one_eq_mod n 31

theorem pending_and_mask (h : inum < pendingBit) : (inum ||| pendingBit) &&& 0x7fffffff = inum := by
  rw [or_pendingBit h, and_mask, pendingBit, Nat.add_mod_right]
  exact Nat.mod_eq_of_lt h

theorem plain_and_mask (h : inum < pendingBit) : inum &&& 0x7fffffff = inum := by
  rw [and_mask]
  exact Nat.mod_eq_of_lt h

theorem computeNewInum_eq {v : Volume} {newInodesPerGroup : Nat} (hpos : 0 < inum)
    (hold : inum < pendingBit) (hnew : newInum v.info newInodesPerGroup inum < pendingBit) :
    computeNewInum v inum newInodesPerGroup = newInum v.info newInodesPerGroup inum := by
  have hone : 1 ≤ inum := hpos
  simp only [pendingBit, newInum] at hold hnew
  have hfirst : (inum - 1) / v.info.inodesPerGroup.val * newInodesPerGroup < 4294967296 := by omega
  rw [computeNewInum, sub32_of_le (by omega) hone, newInum, u32_of_lt hfirst, u32_of_lt (by omega)]

variable {info : FsInfo} {newInodesPerGroup x : Nat} {pass : Pass}

theorem live_or_done (hold : inum < pendingBit) (hnew : newInum info newInodesPerGroup inum < pendingBit)
    (h : x = pass.before inum ∨ x = pass.after info newInodesPerGroup inum) :
    (x &&& 0x7fffffff = inum ∧ (pass = .updateInodeNums → x &&& pendingBit ≠ 0)) ∨
      (pass = .updateInodeNums ∧ x &&& pendingBit = 0 ∧
        x = pass.after info newInodesPerGroup inum) := by
  cases pass with
  | sanityCheck =>
    obtain rfl : x = inum := h.elim id id
    exact .inl ⟨plain_and_mask hold, nofun⟩
  | markInodeNums =>
    refine .inl ⟨?_, nofun⟩
    rcases h with rfl | rfl
    · exact plain_and_mask hold
    · exact pending_and_mask hold
  | updateInodeNums =>
    rcases h with rfl | rfl
    · exact .inl ⟨pending_and_mask hold, fun _ => pending_and_pendingBit hold⟩
    · exact .inr ⟨rfl, and_pendingBit hnew, rfl⟩

theorem pass_pos (hpos : 0 < inum)
    (h : x = pass.before inum ∨ x = pass.after info newInodesPerGroup inum) : x ≠ 0 := by
  have hor : inum ||| pendingBit ≠ 0 := fun h0 => by
    have := (Nat.or_eq_zero_iff.mp h0).1
    omega
  cases pass with
  | sanityCheck => exact h.elim (fun h => by rw [h]; exact hpos.ne') fun h => by rw [h]; exact hpos.ne'
  | markInodeNums => exact h.elim (fun h => by rw [h]; exact hpos.ne') fun h => by rw [h]; exact hor
  | updateInodeNums =>
    exact h.elim (fun h => by rw [h]; exact hor) fun h => by rw [h]; exact Nat.succ_ne_zero _

end Numbers

section Entry

variable {v : Volume} {newInodesPerGroup : Nat} {pass : Pass} {dirbuf : Buffer} {off inum : Nat}

theorem passEntry_size (v : Volume) (pass : Pass) (newInodesPerGroup : Nat) (dirbuf : Buffer)
    (off : Nat) : (passEntry v pass newInodesPerGroup dirbuf off).size = dirbuf.size := by
  unfold passEntry
  cases pass <;> dsimp only
  · rfl
  · split <;> rfl

theorem passEntry_apart {i : Nat} (h : i < off ∨ off + 4 ≤ i) :
    (passEntry v pass newInodesPerGroup dirbuf off).get i = dirbuf.get i := by
  have hput (x : Nat) : ((direntInode off).put dirbuf x).get i = dirbuf.get i :=
    Buffer.get_putLE_of_apart _ _ _ _ _ h
  unfold passEntry
  cases pass <;> dsimp only
  · exact hput _
  · split
    · exact hput _
    · rfl

theorem passEntry_after (hfits : off + 4 ≤ dirbuf.size) (hpos : 0 < inum)
    (hold : inum < pendingBit) (hnew : newInum v.info newInodesPerGroup inum < pendingBit)
    (h : (direntInode off).get dirbuf = pass.before inum ∨
      (direntInode off).get dirbuf = pass.after v.info newInodesPerGroup inum) :
    (direntInode off).get (passEntry v pass newInodesPerGroup dirbuf off) =
      pass.after v.info newInodesPerGroup inum := by
  have hput (x : Nat) (hx : x < 4294967296) : (direntInode off).get ((direntInode off).put dirbuf x) = x := by
    refine (Buffer.getLE_putLE dirbuf off 4 x hfits).trans (Nat.mod_eq_of_lt hx)
  have hlive := live_or_done hold hnew h
  unfold passEntry
  simp only [pendingBit] at hold hnew
  cases pass with
  | sanityCheck => exact h.elim id id
  | markInodeNums =>
    dsimp only
    have hor : (direntInode off).get dirbuf ||| pendingBit = inum ||| pendingBit := by
      rcases h with h | h <;> rw [h]
      · rfl
      · simp only [Pass.after, Nat.or_assoc, Nat.or_self]
    rw [hor, hput _ (by rw [or_pendingBit hold, pendingBit]; omega)]
    rfl
  | updateInodeNums =>
    dsimp only
    rcases hlive with ⟨hmask, hbit⟩ | ⟨-, hbit, hafter⟩
    · rw [if_pos (hbit rfl), hmask, computeNewInum_eq hpos hold hnew, hput _ (by omega)]
      rfl
    · rw [if_neg (by simp [hbit]), hafter]

structure EntryIn (data dirbuf : Buffer) (off : Nat) : Prop where
  size : dirbuf.size = data.size
  fits : off + (direntRecLen off).get data ≤ data.size
  same : ∀ i, off + 4 ≤ i → i < off + (direntRecLen off).get data → dirbuf.get i = data.get i

theorem EntryIn.field {data : Buffer} (h : EntryIn data dirbuf off) {f : Field}
    (h1 : off + 4 ≤ f.off) (h2 : f.off + f.size ≤ off + (direntRecLen off).get data) :
    f.get dirbuf = f.get data :=
  Buffer.getLE_congr fun i hi hi' => h.same i (by omega) (by omega)

theorem nameFrom_congr {b c : Buffer} {o n : Nat} (hb : o + n ≤ b.size) (hc : o + n ≤ c.size)
    (h : ∀ i, o ≤ i → i < o + n → b.get i = c.get i) : nameFrom b o n = nameFrom c o n := by
  induction n generalizing o with
  | zero => rfl
  | succ n ih =>
    have hb' : o < b.size := by omega
    have hc' : o < c.size := by omega
    rw [nameFrom, nameFrom, if_pos hb', if_pos hc', h o le_rfl (by omega),
      ih (by omega) (by omega) fun i h1 h2 => h i (by omega) (by omega)]

theorem exists_nameFrom {b : Buffer} {o n : Nat} (h : o + n ≤ b.size) :
    ∃ name, nameFrom b o n = some name := by
  induction n generalizing o with
  | zero => exact ⟨[], rfl⟩
  | succ n ih =>
    obtain ⟨name, hname⟩ := ih (show o + 1 + n ≤ b.size by omega)
    rw [nameFrom, if_pos (by omega), hname]
    split
    · exact ⟨_, rfl⟩
    · exact ⟨_, rfl⟩

section Visit

variable {calm : Prop} {d0 d : Disk} {descs data : Buffer} {all : List Nat} {m : Machine}

structure Ground (info : FsInfo) (d0 : Disk) (all : List Nat) : Prop where
  blockSize_pos : 0 < info.blockSize.val
  blockSize_le : info.blockSize.val ≤ maxExt4BlockSize
  inodesPerGroup_pos : 0 < info.inodesPerGroup.val
  size_le : d0.size ≤ 9223372036854775808
  fits : ∀ b ∈ all, b * info.blockSize.val + info.blockSize.val ≤ d0.size

instance (info : FsInfo) (d0 : Disk) (all : List Nat) : Decidable (Ground info d0 all) :=
  decidable_of_iff (0 < info.blockSize.val ∧ info.blockSize.val ≤ maxExt4BlockSize ∧
      0 < info.inodesPerGroup.val ∧ d0.size ≤ 9223372036854775808 ∧
      ∀ b ∈ all, b * info.blockSize.val + info.blockSize.val ≤ d0.size)
    ⟨fun ⟨h1, h2, h3, h4, h5⟩ => ⟨h1, h2, h3, h4, h5⟩,
      fun ⟨h1, h2, h3, h4, h5⟩ => ⟨h1, h2, h3, h4, h5⟩⟩

theorem Ground.there {info : FsInfo} (h : Ground info d0 all) {blocks : List Nat}
    (hsub : blocks ⊆ all) (hsize : d.size = d0.size) : BlocksThere info d blocks :=
  ⟨h.blockSize_pos, by rw [hsize]; exact h.size_le, fun b hb => by
    rw [hsize]
    exact h.fits b (hsub hb)⟩

theorem isEntryDir_live (hground : Ground v.info d0 all)
    (hent : DirentAt v.info newInodesPerGroup data off inum) (hin : EntryIn data dirbuf off)
    (hkept : (direntFileType off).get data = ext4FtUnknown → InodeKept v.info descs d0 all inum)
    (hout : Outside v.info.blockSize.val all d0 d) (h : At calm (d, descs) m)
    (hmask : (direntInode off).get dirbuf &&& 0x7fffffff = inum)
    (hbit : pass = .updateInodeNums → (direntInode off).get dirbuf &&& pendingBit ≠ 0) :
    (isEntryDir v dirbuf off pass).Ends
      (fun r m' => r = isDirAt v.info descs d0 data off inum ∧ At calm (d, descs) m')
      (fun _ m' => Halted calm (d, descs) m') m := by
  have hfits := hin.fits
  have hsize := hin.size
  have hname := hent.holdsName
  have htype : (direntFileType off).get dirbuf = (direntFileType off).get data :=
    hin.field (by simp only [direntFileType]; omega) (by simp only [direntFileType]; omega)
  rw [isEntryDir, memGet_eq (by simp only [direntFileType]; omega), pure_bind, htype]
  refine .ite (fun hdir => ?_) fun hdir => .ite (fun hunknown => ?_) fun hunknown => ?_
  · exact ⟨by simp [isDirAt, hdir], h⟩
  · rw [memGet_eq (by simp only [direntInode]; omega), pure_bind,
      if_neg (fun hc => hbit hc.1 hc.2), hmask, Act.ends_bind]
    refine (readInode_calm hground.inodesPerGroup_pos ?_ (hout.there (hkept hunknown)) h).post ?_
    · rw [hout.size]
      exact hground.size_le
    · rintro inode m1 ⟨rfl, h1⟩
      refine ⟨?_, h1⟩
      rw [hout.inode (hkept hunknown)]
      simp [isDirAt, hunknown, ext4FtUnknown, ext4FtDir]
  · exact ⟨by simp [isDirAt, hdir, hunknown], h⟩

theorem isEntryDir_done (hin : EntryIn data dirbuf off)
    (hrec : 8 ≤ (direntRecLen off).get data) (h : At calm (d, descs) m)
    (hbit : (direntInode off).get dirbuf &&& pendingBit = 0) {E : Stop FixupError → Machine → Prop} :
    (isEntryDir v dirbuf off .updateInodeNums).Ends (fun _ m' => At calm (d, descs) m') E m := by
  have hfits := hin.fits
  have hsize := hin.size
  rw [isEntryDir, memGet_eq (by simp only [direntFileType]; omega), pure_bind]
  refine .ite (fun _ => h) fun _ => .ite (fun _ => ?_) fun _ => h
  rw [memGet_eq (by simp only [direntInode]; omega), pure_bind, if_pos ⟨rfl, hbit⟩]
  exact h

theorem visitEntry_calm {enter : List UInt8 → Nat → Fixup Unit} {Q : Buffer → Machine → Prop}
    {E : Stop FixupError → Machine → Prop} (hground : Ground v.info d0 all)
    (hent : DirentAt v.info newInodesPerGroup data off inum) (hin : EntryIn data dirbuf off)
    (hkept : (direntFileType off).get data = ext4FtUnknown → InodeKept v.info descs d0 all inum)
    (hout : Outside v.info.blockSize.val all d0 d) (h : At calm (d, descs) m)
    (hslot : (direntInode off).get dirbuf = pass.before inum ∨
      (direntInode off).get dirbuf = pass.after v.info newInodesPerGroup inum)
    (hplain : ∀ m', At calm (d, descs) m' →
      (isDirAt v.info descs d0 data off inum && !isDotAt data off) = false ∨
        pass = .updateInodeNums ∧ (direntInode off).get dirbuf &&& pendingBit = 0 →
      Q (passEntry v pass newInodesPerGroup dirbuf off) m')
    (henter : ∀ name m', At calm (d, descs) m' →
      (isDirAt v.info descs d0 data off inum && !isDotAt data off) = true →
      (enter name inum).Ends
        (fun _ m'' => Q (passEntry v pass newInodesPerGroup dirbuf off) m'') E m')
    (hE : ∀ e m', Halted calm (d, descs) m' → E e m') :
    (visitEntry v pass newInodesPerGroup enter dirbuf off).Ends Q E m := by
  have hfits := hin.fits
  have hsize := hin.size
  have hholds := hent.holdsName
  have hlen : (direntNameLen off).get dirbuf = (direntNameLen off).get data :=
    hin.field (by simp only [direntNameLen]; omega) (by simp only [direntNameLen]; omega)
  obtain ⟨name, hname⟩ := exists_nameFrom (b := data) (o := off + 8) (n := (direntNameLen off).get data)
    (by omega)
  have hnamed : nameFrom dirbuf (off + 8) ((direntNameLen off).get data) = some name := by
    rw [← hname]
    exact nameFrom_congr (by omega) (by omega) fun i h1 h2 => hin.same i (by omega) (by omega)
  have hdot : isDotAt data off = isDotName name := by rw [isDotAt, hname]; rfl
  rw [visitEntry, memGet_eq (by simp only [direntInode]; omega), pure_bind,
    memGet_eq (by simp only [direntNameLen]; omega), pure_bind, hlen, hnamed, Act.expect, pure_bind,
    Act.ends_bind]
  rcases live_or_done hent.old_lt hent.new_lt hslot with ⟨hmask, hbit⟩ | ⟨rfl, hbit, -⟩
  · refine (isEntryDir_live hground hent hin hkept hout h hmask hbit).mono ?_ hE
    rintro _ m1 ⟨rfl, h1⟩
    have hcond : (pass ≠ .updateInodeNums || decide ((direntInode off).get dirbuf &&& pendingBit ≠ 0)) =
        true := by
      by_cases hp : pass = .updateInodeNums
      · simp [hbit hp]
      · simp [hp]
    rw [hcond, Bool.and_true, ← hdot, hmask]
    split
    · rename_i hdown
      exact Act.ends_bind.mpr (henter name m1 h1 hdown)
    · rename_i hdown
      exact hplain m1 h1 (.inl (by simpa using hdown))
  · refine (isEntryDir_done hin (by omega) h hbit).post fun r m1 h1 => ?_
    rw [if_neg (by simp [hbit])]
    exact hplain m1 h1 (.inr ⟨rfl, hbit⟩)

end Visit

end Entry

end MakeExt4fs

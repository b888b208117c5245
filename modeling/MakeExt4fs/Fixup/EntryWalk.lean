import Mathlib.Computability.StateTransition
import MakeExt4fs.Fixup.SanityPass
import MakeExt4fs.Fixup.Walk

namespace MakeExt4fs

open ErrorLog Interrupt Words StateTransition

structure EntryWalk where
  dirp : Nat
  prevDirp : Option Nat
  dirbuf : Buffer

namespace EntryWalk

def inum (w : EntryWalk) : Nat := (direntInode w.dirp).get w.dirbuf

def recLen (w : EntryWalk) : Nat := (direntRecLen w.dirp).get w.dirbuf

def Looks (pass : Pass) (w : EntryWalk) : Prop :=
  w.dirp < w.dirbuf.size ∧ shortEntry pass w.dirbuf.size w.dirp w.prevDirp = none

instance (pass : Pass) (w : EntryWalk) : Decidable (Looks pass w) := inferInstanceAs (Decidable (_ ∧ _))

-- Of an entry that is not in use only the inode number is read.
def HeaderInside (w : EntryWalk) : Prop :=
  w.dirp + 4 ≤ w.dirbuf.size ∧ (w.inum ≠ 0 → w.dirp + 8 ≤ w.dirbuf.size)

def next (v : Volume) (pass : Pass) (newInodesPerGroup : Nat) (w : EntryWalk) : EntryWalk :=
  let dirbuf := passEntry v pass newInodesPerGroup w.dirbuf w.dirp
  ⟨w.dirp + (direntRecLen w.dirp).get dirbuf, some w.dirp, dirbuf⟩

def turn (v : Volume) (pass : Pass) (newInodesPerGroup : Nat) (w : EntryWalk) : Option EntryWalk :=
  if w.Looks pass ∧ w.inum ≠ 0 then some (w.next v pass newInodesPerGroup) else none

end EntryWalk

-- The memory for a directory: whole blocks, and no more than an int counts.
structure DirBuffer extends Buffer where
  whole : size = 0 ∨ 1024 ≤ size
  counted : size < 2147483648

def DirBuffer.first (b : DirBuffer) : EntryWalk := ⟨0, none, b.toBuffer⟩

section Volume

variable (v : Volume) (pass : Pass) (newInodesPerGroup : Nat)

def EndsInside (w : EntryWalk) : Prop :=
  (∃ last, last ∈ eval (EntryWalk.turn v pass newInodesPerGroup) w) ∧
    ∀ w', Reaches (EntryWalk.turn v pass newInodesPerGroup) w w' → w'.Looks pass → w'.HeaderInside

def passInum (inum : Nat) : Nat :=
  match pass with
  | .sanityCheck => inum
  | .markInodeNums => inum ||| pendingBit
  | .updateInodeNums =>
    if inum &&& pendingBit ≠ 0 then computeNewInum v (inum &&& 0x7fffffff) newInodesPerGroup
    else inum

inductive EntryChain : Buffer → Nat → Prop
  | past {b : Buffer} {dirp : Nat} : b.size ≤ dirp → EntryChain b dirp
  | shortTail {b : Buffer} {dirp : Nat} :
      pass ≠ .markInodeNums → b.size ≤ dirp + 8 → EntryChain b dirp
  | unused {b : Buffer} {dirp : Nat} :
      dirp + 4 ≤ b.size → (direntInode dirp).get b = 0 → EntryChain b dirp
  | entry {b : Buffer} {dirp : Nat} :
      dirp + 8 ≤ b.size → (direntInode dirp).get b ≠ 0 → 0 < (direntRecLen dirp).get b →
      EntryChain (passEntry v pass newInodesPerGroup b dirp)
        (dirp + (direntRecLen dirp).get b) → EntryChain b dirp
  | renumberedToZero {b : Buffer} {dirp n : Nat} :
      dirp + 8 ≤ b.size → (direntRecLen dirp).get b = 0 →
      (passInum v pass newInodesPerGroup)^[n] ((direntInode dirp).get b) = 0 → EntryChain b dirp

end Volume

section Turns

variable {v : Volume} {pass : Pass} {newInodesPerGroup : Nat} {w : EntryWalk} {b : Buffer}
  {dirp : Nat} {prev : Option Nat}

theorem recLen_passEntry : (direntRecLen dirp).get (passEntry v pass newInodesPerGroup b dirp) =
    (direntRecLen dirp).get b :=
  Buffer.getLE_congr fun i h1 _ => passEntry_apart (.inr (by
    simp only [direntRecLen] at h1
    omega))

theorem inum_passEntry (h : dirp + 4 ≤ b.size) :
    (direntInode dirp).get (passEntry v pass newInodesPerGroup b dirp) =
      passInum v pass newInodesPerGroup ((direntInode dirp).get b) := by
  have hlt : (direntInode dirp).get b < 2 ^ 32 := Buffer.getLE_lt b dirp 4
  have hput (n : Nat) (hn : n < 2 ^ 32) :
      (direntInode dirp).get ((direntInode dirp).put b n) = n :=
    (Buffer.getLE_putLE b dirp 4 n h).trans (Nat.mod_eq_of_lt hn)
  cases pass with
  | sanityCheck => rfl
  | markInodeNums => exact hput _ (Nat.or_lt_two_pow hlt (by decide))
  | updateInodeNums =>
    unfold passEntry passInum
    dsimp only
    split
    · exact hput _ (u32_lt _)
    · rfl

theorem EntryWalk.next_eq (w : EntryWalk) : w.next v pass newInodesPerGroup =
    ⟨w.dirp + w.recLen, some w.dirp, passEntry v pass newInodesPerGroup w.dirbuf w.dirp⟩ := by
  rw [EntryWalk.next, EntryWalk.recLen]
  simp only [recLen_passEntry]

theorem shortEntry_isNone (hsize : b.size < 2147483648) (hlt : dirp < b.size) :
    shortEntry pass b.size dirp prev = none ↔
      pass = .markInodeNums ∨ dirp + 8 < b.size ∨ prev = none := by
  have hleft : ofInt32 ((b.size : Int) - dirp) = b.size - dirp := by
    simp only [ofInt32]
    omega
  rw [shortEntry, hleft]
  by_cases hpass : pass = .markInodeNums
  · simp [hpass]
  · by_cases hshort : b.size - dirp ≤ 8
    · rw [if_pos ⟨hpass, hshort⟩]
      have : ¬ dirp + 8 < b.size := by omega
      simp [hpass, this]
    · rw [if_neg fun h => hshort h.2]
      exact iff_of_true rfl (.inr (.inl (by omega)))

-- What is true of the loop wherever it stands.
structure EntryWalk.Standing (w : EntryWalk) : Prop where
  whole : w.dirbuf.size = 0 ∨ 1024 ≤ w.dirbuf.size
  counted : w.dirbuf.size < 2147483648
  first : w.prevDirp = none → w.dirp = 0

theorem DirBuffer.standing (b : DirBuffer) : b.first.Standing := ⟨b.whole, b.counted, fun _ => rfl⟩

theorem EntryWalk.Standing.next (h : w.Standing) : (w.next v pass newInodesPerGroup).Standing := by
  rw [EntryWalk.next_eq]
  refine ⟨?_, ?_, fun hnone => nomatch hnone⟩ <;> rw [passEntry_size]
  · exact h.whole
  · exact h.counted

theorem EntryWalk.Standing.looks_iff (h : w.Standing) : w.Looks pass ↔
    w.dirp < w.dirbuf.size ∧ (pass = .markInodeNums ∨ w.dirp + 8 < w.dirbuf.size) := by
  have hwhole := h.whole
  refine and_congr_right fun hlt => ?_
  rw [shortEntry_isNone h.counted hlt]
  refine ⟨?_, fun hmark => hmark.imp_right .inl⟩
  rintro (hmark | hlong | hnone)
  · exact .inl hmark
  · exact .inr hlong
  · have hzero := h.first hnone
    exact .inr (by omega)

theorem endsInside_of_stop (hstop : w.turn v pass newInodesPerGroup = none)
    (hhead : w.Looks pass → w.HeaderInside) : EndsInside v pass newInodesPerGroup w := by
  have hlast : w ∈ eval (EntryWalk.turn v pass newInodesPerGroup) w := mem_eval.mpr ⟨.refl, hstop⟩
  refine ⟨⟨w, hlast⟩, fun w' hreach hlook => ?_⟩
  obtain rfl := (eval_maximal hlast).mp hreach
  exact hhead hlook

theorem endsInside_of_turn (hlook : w.Looks pass) (hused : w.inum ≠ 0)
    (hlong : w.dirp + 8 ≤ w.dirbuf.size)
    (hrest : EndsInside v pass newInodesPerGroup (w.next v pass newInodesPerGroup)) :
    EndsInside v pass newInodesPerGroup w := by
  have hturn : w.next v pass newInodesPerGroup ∈ w.turn v pass newInodesPerGroup :=
    if_pos ⟨hlook, hused⟩
  obtain ⟨⟨last, hlast⟩, hinside⟩ := hrest
  refine ⟨⟨last, ?_⟩, fun w' hreach hlook' => ?_⟩
  · rw [reaches_eval (.single hturn)]
    exact hlast
  · rcases hreach.cases_head with rfl | ⟨w1, hw1, hreach⟩
    · exact ⟨by omega, fun _ => hlong⟩
    · obtain rfl := Option.mem_unique hturn hw1
      exact hinside w' hreach hlook'

theorem EndsInside.next (h : EndsInside v pass newInodesPerGroup w) (hlook : w.Looks pass)
    (hused : w.inum ≠ 0) :
    EndsInside v pass newInodesPerGroup (w.next v pass newInodesPerGroup) := by
  have hturn : w.next v pass newInodesPerGroup ∈ w.turn v pass newInodesPerGroup :=
    if_pos ⟨hlook, hused⟩
  obtain ⟨⟨last, hlast⟩, hinside⟩ := h
  rw [reaches_eval (.single hturn)] at hlast
  exact ⟨⟨last, hlast⟩, fun w' hreach => hinside w' (.head hturn hreach)⟩

theorem endsInside_of_unused {dirp : Nat} {prev : Option Nat} (hlong : dirp + 4 ≤ b.size)
    (hzero : (direntInode dirp).get b = 0) :
    EndsInside v pass newInodesPerGroup ⟨dirp, prev, b⟩ :=
  endsInside_of_stop (if_neg fun h => h.2 hzero) fun _ => ⟨hlong, fun hused => absurd hzero hused⟩

theorem endsInside_of_used {dirp : Nat} {prev : Option Nat} (hlong : dirp + 8 ≤ b.size)
    (hused : (direntInode dirp).get b ≠ 0)
    (hrest : EndsInside v pass newInodesPerGroup ⟨dirp + (direntRecLen dirp).get b, some dirp,
      passEntry v pass newInodesPerGroup b dirp⟩) :
    EndsInside v pass newInodesPerGroup ⟨dirp, prev, b⟩ := by
  by_cases hlook : EntryWalk.Looks pass ⟨dirp, prev, b⟩
  · exact endsInside_of_turn hlook hused hlong (by rwa [EntryWalk.next_eq])
  · exact endsInside_of_stop (if_neg fun h => hlook h.1) fun h => absurd h hlook

theorem endsInside_of_chain {dirp : Nat} {prev : Option Nat}
    (h : EntryChain v pass newInodesPerGroup b dirp) (hw : EntryWalk.Standing ⟨dirp, prev, b⟩) :
    EndsInside v pass newInodesPerGroup ⟨dirp, prev, b⟩ := by
  induction h generalizing prev with
  | @past b dirp hend =>
    have hlook : ¬ EntryWalk.Looks pass ⟨dirp, prev, b⟩ := fun hlook => by
      have := hlook.1
      dsimp only at this
      omega
    exact endsInside_of_stop (if_neg fun h => hlook h.1) fun h => absurd h hlook
  | @shortTail b dirp hpass hend =>
    have hlook : ¬ EntryWalk.Looks pass ⟨dirp, prev, b⟩ := fun hlook => by
      have := (hw.looks_iff.mp hlook).2.resolve_left hpass
      dsimp only at this
      omega
    exact endsInside_of_stop (if_neg fun h => hlook h.1) fun h => absurd h hlook
  | unused hlong hzero => exact endsInside_of_unused hlong hzero
  | entry hlong hused hpos hrest ih =>
    have hnext := @hw.next v pass newInodesPerGroup
    rw [EntryWalk.next_eq] at hnext
    exact endsInside_of_used hlong hused (ih hnext)
  | @renumberedToZero b dirp n hlong hself hzero =>
    induction n generalizing b prev with
    | zero => exact endsInside_of_unused (by omega) hzero
    | succ n ih =>
      by_cases hused : (direntInode dirp).get b = 0
      · exact endsInside_of_unused (by omega) hused
      · have hnext := @hw.next v pass newInodesPerGroup
        rw [EntryWalk.next_eq] at hnext
        refine endsInside_of_used hlong hused ?_
        rw [hself, Nat.add_zero]
        refine ih (by rw [passEntry_size]; exact hlong) (by rw [recLen_passEntry]; exact hself) ?_ ?_
        · rw [inum_passEntry (by omega)]
          exact hzero
        · simpa only [EntryWalk.recLen, hself, Nat.add_zero] using hnext

theorem chain_again {dirp : Nat} (hself : (direntRecLen dirp).get b = 0)
    (hlong : dirp + 8 ≤ b.size) (hgo : pass = .markInodeNums ∨ dirp + 8 < b.size)
    (hrest : EntryChain v pass newInodesPerGroup (passEntry v pass newInodesPerGroup b dirp) dirp) :
    EntryChain v pass newInodesPerGroup b dirp := by
  have hinside : dirp + 4 ≤ b.size := by omega
  have hstep := @inum_passEntry v pass newInodesPerGroup _ _ hinside
  cases hrest with
  | past hend =>
    rw [passEntry_size] at hend
    omega
  | shortTail hpass hend =>
    rw [passEntry_size] at hend
    have := hgo.resolve_left hpass
    omega
  | unused _ hzero => exact .renumberedToZero (n := 1) hlong hself (hstep.symm.trans hzero)
  | entry _ _ hpos =>
    rw [recLen_passEntry, hself] at hpos
    cases hpos
  | @renumberedToZero _ _ n _ _ hzero =>
    refine .renumberedToZero (n := n + 1) hlong hself ?_
    rw [Function.iterate_succ_apply, ← hstep]
    exact hzero

theorem chain_of_endsInside (h : EndsInside v pass newInodesPerGroup w) (hw : w.Standing) :
    EntryChain v pass newInodesPerGroup w.dirbuf w.dirp := by
  obtain ⟨last, hlast⟩ := h.1
  revert h hw
  refine evalInduction (C := fun w => EndsInside v pass newInodesPerGroup w → w.Standing →
    EntryChain v pass newInodesPerGroup w.dirbuf w.dirp) hlast ?_
  intro w _ ih h hw
  by_cases hlook : w.Looks pass
  · have hhead := h.2 w .refl hlook
    by_cases hused : w.inum = 0
    · exact .unused hhead.1 hused
    · have hrest := ih _ (if_pos ⟨hlook, hused⟩) (h.next hlook hused) hw.next
      rw [EntryWalk.next_eq] at hrest
      by_cases hself : w.recLen = 0
      · rw [hself, Nat.add_zero] at hrest
        exact chain_again hself (hhead.2 hused) (hw.looks_iff.mp hlook).2 hrest
      · exact .entry (hhead.2 hused) hused (Nat.pos_of_ne_zero hself) hrest
  · rw [hw.looks_iff] at hlook
    by_cases hend : w.dirbuf.size ≤ w.dirp
    · exact .past hend
    · refine .shortTail (fun hmark => hlook ⟨by omega, .inl hmark⟩) ?_
      by_contra hlong
      exact hlook ⟨by omega, .inr (by omega)⟩

theorem endsInside_iff (v : Volume) (pass : Pass) (newInodesPerGroup : Nat) (b : DirBuffer) :
    EndsInside v pass newInodesPerGroup b.first ↔
      EntryChain v pass newInodesPerGroup b.toBuffer 0 :=
  ⟨fun h => chain_of_endsInside h b.standing, fun h => endsInside_of_chain h b.standing⟩

end Turns

section Follows

variable {v : Volume} {pass : Pass} {newInodesPerGroup : Nat} {w : EntryWalk} {m : Machine}
  {enter : List UInt8 → Nat → Fixup Unit}

theorem memGet_ends {f : Field} {b : Buffer} {Q : Nat → Machine → Prop}
    {E : Stop FixupError → Machine → Prop} (hq : f.off + f.size ≤ b.size → Q (f.get b) m)
    (he : b.size < f.off + f.size → E .crash m) : (memGet f b).Ends Q E m :=
  .ite hq fun h => he (not_le.mp h)

theorem visitEntry_header {b : Buffer} {dirp : Nat} :
    (visitEntry v pass newInodesPerGroup enter b dirp).Ends
      (fun b' _ => dirp + 8 ≤ b.size ∧ b' = passEntry v pass newInodesPerGroup b dirp)
      (fun _ _ => True) m := by
  rw [visitEntry, Act.ends_bind]
  refine memGet_ends (fun _ => ?_) fun _ => trivial
  rw [Act.ends_bind]
  refine memGet_ends (fun _ => ?_) fun _ => trivial
  rw [Act.ends_bind, Act.ends_expect]
  refine ⟨fun name _ => ?_, fun _ => trivial⟩
  rw [Act.ends_bind]
  have hdir : (isEntryDir v b dirp pass).Ends (fun _ _ => dirp + 8 ≤ b.size)
      (fun _ _ => True) m := by
    rw [isEntryDir, Act.ends_bind]
    refine memGet_ends (fun hin => Act.ends_of_run (fun _ _ _ => ?_) fun _ _ _ => trivial)
      fun _ => trivial
    simp only [direntFileType] at hin
    omega
  refine hdir.post fun isDir m1 hin => .ite (fun _ => ?_) fun _ => ⟨hin, rfl⟩
  rw [Act.ends_bind]
  exact Act.ends_of_run (fun _ _ _ => ⟨hin, rfl⟩) fun _ _ _ => trivial

theorem walkDir_endsInside (turns : Nat) :
    (walkDir v pass newInodesPerGroup enter w.dirbuf.size turns w.dirp w.prevDirp w.dirbuf).Ends
      (fun _ _ => EndsInside v pass newInodesPerGroup w) (fun _ _ => True) m := by
  induction turns generalizing w m with
  | zero => trivial
  | succ turns ih =>
    rw [walkDir]
    refine .ite (fun hend => ?_) fun hend => ?_
    · refine endsInside_of_stop (if_neg fun h => ?_) fun h => ?_
      · have := h.1.1
        omega
      · have := h.1
        omega
    · cases hshort : shortEntry pass w.dirbuf.size w.dirp w.prevDirp with
      | some prev =>
        have hlook : ¬ w.Looks pass := fun h => by simp [h.2] at hshort
        exact endsInside_of_stop (if_neg fun h => hlook h.1) fun h => absurd h hlook
      | none =>
        simp only [nextEntry]
        rw [Act.ends_bind]
        refine memGet_ends (fun hin => .ite (fun hzero => ?_) fun hused => ?_) fun _ => trivial
        · exact endsInside_of_unused hin hzero
        · rw [Act.ends_bind]
          refine visitEntry_header.post ?_
          rintro b m1 ⟨hlong, rfl⟩
          rw [Act.ends_bind]
          refine memGet_ends (fun _ => ?_) fun _ => trivial
          have hrest := ih (w := w.next v pass newInodesPerGroup) (m := m1)
          rw [EntryWalk.next_eq] at hrest
          rw [recLen_passEntry]
          simp only [passEntry_size] at hrest
          exact hrest.post fun _ _ h => endsInside_of_used hlong hused h

-- Whatever it meets, it ends or gives an error.
def Unharmed {α : Type} (act : Fixup α) : Prop :=
  ∀ m : Machine, act.Ends (fun _ _ => True) (fun e _ => e ≠ .crash) m

def NameThere (w : EntryWalk) : Prop :=
  (nameFrom w.dirbuf (w.dirp + 8) ((direntNameLen w.dirp).get w.dirbuf)).isSome

theorem visitEntry_unharmed (henter : ∀ name inum, Unharmed (enter name inum))
    (hinode : ∀ inum, Unharmed (readInode v inum)) (hlong : w.dirp + 8 ≤ w.dirbuf.size)
    (hname : NameThere w) :
    Unharmed (visitEntry v pass newInodesPerGroup enter w.dirbuf w.dirp) := by
  intro m
  obtain ⟨name, hname⟩ := Option.isSome_iff_exists.mp hname
  have hfield (f : Field) (hf : f.off + f.size ≤ w.dirp + 8) :
      memGet f w.dirbuf = pure (f.get w.dirbuf) := memGet_eq (by omega)
  rw [visitEntry, hfield _ (by simp only [direntInode]; omega), pure_bind,
    hfield _ (by simp only [direntNameLen]; omega), pure_bind, hname, Act.expect, pure_bind,
    Act.ends_bind]
  have hdir : (isEntryDir v w.dirbuf w.dirp pass).Ends (fun _ _ => True) (fun e _ => e ≠ .crash) m := by
    rw [isEntryDir, hfield _ (by simp only [direntFileType]; omega), pure_bind]
    refine .ite (fun _ => trivial) fun _ => .ite (fun _ => ?_) fun _ => trivial
    rw [hfield _ (by simp only [direntInode]; omega), pure_bind]
    refine .ite (fun _ => trivial) fun _ => ?_
    rw [Act.ends_bind]
    exact (hinode _ m).post fun _ _ _ => trivial
  refine hdir.post fun isDir m1 _ => .ite (fun _ => ?_) fun _ => trivial
  rw [Act.ends_bind]
  exact (henter _ _ m1).post fun _ _ _ => trivial

theorem walkDir_unharmed (henter : ∀ name inum, Unharmed (enter name inum))
    (hinode : ∀ inum, Unharmed (readInode v inum)) (h : EndsInside v pass newInodesPerGroup w)
    (hnames : ∀ w', Reaches (EntryWalk.turn v pass newInodesPerGroup) w w' → w'.Looks pass →
      w'.inum ≠ 0 → NameThere w') :
    ∃ least, ∀ turns, least ≤ turns → Unharmed (walkDir v pass newInodesPerGroup enter
      w.dirbuf.size turns w.dirp w.prevDirp w.dirbuf) := by
  obtain ⟨last, hlast⟩ := h.1
  revert h hnames
  refine evalInduction (C := fun w => EndsInside v pass newInodesPerGroup w → (∀ w',
    Reaches (EntryWalk.turn v pass newInodesPerGroup) w w' → w'.Looks pass → w'.inum ≠ 0 →
      NameThere w') → ∃ least, ∀ turns, least ≤ turns → Unharmed (walkDir v pass newInodesPerGroup
        enter w.dirbuf.size turns w.dirp w.prevDirp w.dirbuf)) hlast ?_
  intro w _ ih h hnames
  by_cases hlook : w.Looks pass
  · have hlt := hlook.1
    have hhead := h.2 w .refl hlook
    by_cases hused : w.inum = 0
    · refine ⟨1, fun turns hturns m => ?_⟩
      obtain ⟨turns, rfl⟩ := Nat.exists_eq_succ_of_ne_zero (Nat.pos_iff_ne_zero.mp hturns)
      rw [walkDir, if_neg (by omega), hlook.2]
      simp only [nextEntry]
      rw [memGet_eq hhead.1, pure_bind]
      exact .ite (fun _ => trivial) fun h => absurd hused h
    · have hturn : w.next v pass newInodesPerGroup ∈ w.turn v pass newInodesPerGroup :=
        if_pos ⟨hlook, hused⟩
      obtain ⟨least, hleast⟩ := ih _ hturn (h.next hlook hused) fun w' hreach =>
        hnames w' (.head hturn hreach)
      refine ⟨least + 1, fun turns hturns m => ?_⟩
      obtain ⟨turns, rfl⟩ := Nat.exists_eq_succ_of_ne_zero (by omega : turns ≠ 0)
      have hlong := hhead.2 hused
      rw [walkDir, if_neg (by omega), hlook.2]
      simp only [nextEntry]
      rw [memGet_eq hhead.1, pure_bind]
      refine .ite (fun h => absurd h hused) fun _ => ?_
      rw [Act.ends_bind]
      refine ((visitEntry_header (m := m)).and (visitEntry_unharmed henter hinode hlong
        (hnames w .refl hlook hused) m)).mono ?_ fun _ _ h => h.2
      rintro b m1 ⟨⟨-, rfl⟩, -⟩
      have hrest := hleast turns (by omega) m1
      rw [EntryWalk.next_eq] at hrest
      rw [memGet_eq (by rw [passEntry_size]; simp only [direntRecLen]; omega), pure_bind,
        recLen_passEntry]
      simp only [passEntry_size] at hrest
      exact hrest
  · refine ⟨1, fun turns hturns m => ?_⟩
    obtain ⟨turns, rfl⟩ := Nat.exists_eq_succ_of_ne_zero (Nat.pos_iff_ne_zero.mp hturns)
    rw [walkDir]
    refine .ite (fun _ => trivial) fun hend => ?_
    cases hshort : shortEntry pass w.dirbuf.size w.dirp w.prevDirp with
    | some prev => trivial
    | none => exact absurd ⟨by omega, hshort⟩ hlook

end Follows

section Example

-- An entry in use whose rec_len is zero.
def selfEntry : DirBuffer where
  toBuffer := (direntInode 0).put (.zeros 1024) 2
  whole := .inr le_rfl
  counted := by decide

theorem selfEntry_walks_on : ¬ ∀ (v : Volume) (pass : Pass) (newInodesPerGroup : Nat)
    (b : DirBuffer), EndsInside v pass newInodesPerGroup b.first := by
  intro h
  have hused : (direntInode 0).get selfEntry.toBuffer = 2 := by decide
  have hself : (direntRecLen 0).get selfEntry.toBuffer = 0 := by decide
  have hsize : selfEntry.size = 1024 := rfl
  have hchain := chain_of_endsInside (h noVolume .sanityCheck 0 selfEntry) selfEntry.standing
  dsimp only [DirBuffer.first] at hchain
  cases hchain with
  | past hend => omega
  | shortTail _ hend => omega
  | unused _ hzero => omega
  | entry _ _ hpos => omega
  | @renumberedToZero _ _ n _ _ hzero =>
    have hid : (passInum noVolume .sanityCheck 0)^[n] 2 = 2 := congrFun (Function.iterate_id n) 2
    rw [hused, hid] at hzero
    cases hzero

end Example

end MakeExt4fs

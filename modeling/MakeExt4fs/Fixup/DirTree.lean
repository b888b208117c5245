import MakeExt4fs.Fixup.DirBlocks

namespace MakeExt4fs

open Words

inductive DirEntries where
  | nil
  | unused (off : Nat) (rest : DirEntries)
  | other (off inum : Nat) (rest : DirEntries)
  | dir (off inum : Nat) (blocks : List Nat) (sub rest : DirEntries)

namespace DirEntries

def own : DirEntries → List (Nat × Nat)
  | nil => []
  | unused _ _ => []
  | other off inum rest => (off, inum) :: rest.own
  | dir off inum _ _ rest => (off, inum) :: rest.own

def dirsDeeper : DirEntries → List (List Nat × DirEntries)
  | nil => []
  | unused _ _ => []
  | other _ _ rest => rest.dirsDeeper
  | dir _ _ blocks sub rest => (blocks, sub) :: sub.dirsDeeper ++ rest.dirsDeeper

def dirs (blocks : List Nat) (es : DirEntries) : List (List Nat × DirEntries) :=
  (blocks, es) :: es.dirsDeeper

def blocksDeeper (es : DirEntries) : List Nat := es.dirsDeeper.flatMap Prod.fst

def height : DirEntries → Nat
  | nil => 0
  | unused _ _ => 0
  | other _ _ rest => rest.height
  | dir _ _ _ sub rest => max (sub.height + 1) rest.height

@[simp] theorem blocksDeeper_nil : nil.blocksDeeper = [] := rfl

@[simp] theorem blocksDeeper_unused (off : Nat) (rest : DirEntries) :
    (unused off rest).blocksDeeper = [] := rfl

@[simp] theorem blocksDeeper_other (off inum : Nat) (rest : DirEntries) :
    (other off inum rest).blocksDeeper = rest.blocksDeeper := rfl

@[simp] theorem blocksDeeper_dir (off inum : Nat) (blocks : List Nat) (sub rest : DirEntries) :
    (dir off inum blocks sub rest).blocksDeeper =
      blocks ++ sub.blocksDeeper ++ rest.blocksDeeper := by
  simp [blocksDeeper, dirsDeeper]

theorem dirsDeeper_dir (off inum : Nat) (blocks : List Nat) (sub rest : DirEntries) :
    (dir off inum blocks sub rest).dirsDeeper = sub.dirs blocks ++ rest.dirsDeeper := rfl

theorem flatMap_dirs (blocks : List Nat) (es : DirEntries) :
    (es.dirs blocks).flatMap Prod.fst = blocks ++ es.blocksDeeper := rfl

end DirEntries

section Changes

variable (bs : Nat)

structure ChangedIn (blocks : List Nat) (d d' : Disk) : Prop where
  size : d'.size = d.size
  same : ∀ a, (∀ b ∈ blocks, a < b * bs ∨ b * bs + bs ≤ a) → d'.get a = d.get a

variable {bs} {blocks blocks' : List Nat} {d d' d'' : Disk}

theorem ChangedIn.refl (blocks : List Nat) (d : Disk) : ChangedIn bs blocks d d :=
  ⟨rfl, fun _ _ => rfl⟩

theorem ChangedIn.trans (h : ChangedIn bs blocks d d') (h' : ChangedIn bs blocks d' d'') :
    ChangedIn bs blocks d d'' :=
  ⟨h'.size.trans h.size, fun a ha => (h'.same a ha).trans (h.same a ha)⟩

theorem ChangedIn.mono (h : ChangedIn bs blocks d d') (hsub : blocks ⊆ blocks') :
    ChangedIn bs blocks' d d' :=
  ⟨h.size, fun a ha => h.same a fun b hb => ha b (hsub hb)⟩

theorem ChangedIn.data (h : ChangedIn bs blocks d d') {blks : List Nat} (hbs : 0 < bs)
    (hapart : blks.Disjoint blocks) {off : Nat} (hoff : off < blks.length * bs) :
    d'.get (dirAddr bs blks off) = d.get (dirAddr bs blks off) := by
  obtain ⟨i, k, hi, hk, rfl⟩ := exists_block hbs hoff
  rw [dirAddr_block hk]
  exact h.same _ fun b hb => apart_of_ne (fun heq => hapart (getD_mem hi) (heq ▸ hb)) hk

end Changes

def slotAt (bs : Nat) (d : Disk) (blocks : List Nat) (off : Nat) : Nat :=
  d.get32 (dirAddr bs blocks off)

namespace DirEntries

section Statuses

variable (bs : Nat) (before after : Nat → Nat)

def Done (d : Disk) (dirs : List (List Nat × DirEntries)) : Prop :=
  ∀ p ∈ dirs, ∀ e ∈ p.2.own, slotAt bs d p.1 e.1 = after e.2

def Ordered (d : Disk) : List Nat → DirEntries → Prop
  | _, nil => True
  | _, unused _ _ => True
  | blocks, other off inum rest =>
    (slotAt bs d blocks off = before inum ∨ slotAt bs d blocks off = after inum) ∧
      rest.Ordered d blocks
  | blocks, dir off inum blks sub rest =>
    (slotAt bs d blocks off = before inum ∧ sub.Ordered d blks ∨
      slotAt bs d blocks off = after inum ∧ Done bs after d (sub.dirs blks)) ∧
      rest.Ordered d blocks

variable {bs before after} {d d' : Disk} {blocks : List Nat}

theorem done_dirs {es : DirEntries} : Done bs after d (es.dirs blocks) ↔
    (∀ e ∈ es.own, slotAt bs d blocks e.1 = after e.2) ∧ Done bs after d es.dirsDeeper := by
  simp [Done, dirs]

theorem done_append {dirs dirs' : List (List Nat × DirEntries)} :
    Done bs after d (dirs ++ dirs') ↔ Done bs after d dirs ∧ Done bs after d dirs' := by
  simp only [Done, List.forall_mem_append]

theorem Done.congr {dirs : List (List Nat × DirEntries)} (h : Done bs after d dirs)
    (hsame : ∀ p ∈ dirs, ∀ e ∈ p.2.own, slotAt bs d' p.1 e.1 = slotAt bs d p.1 e.1) :
    Done bs after d' dirs :=
  fun p hp e he => (hsame p hp e he).trans (h p hp e he)

theorem Ordered.congr {es : DirEntries} (h : es.Ordered bs before after d blocks)
    (hsame : ∀ p ∈ es.dirs blocks, ∀ e ∈ p.2.own, slotAt bs d' p.1 e.1 = slotAt bs d p.1 e.1) :
    es.Ordered bs before after d' blocks := by
  induction es generalizing blocks with
  | nil => trivial
  | unused off rest => trivial
  | other off inum rest ih =>
    simp only [dirs, dirsDeeper, own, List.forall_mem_cons] at hsame ih
    obtain ⟨⟨hhere, hown⟩, hrest⟩ := hsame
    refine ⟨?_, ih h.2 ⟨hown, hrest⟩⟩
    rw [hhere]
    exact h.1
  | dir off inum blks sub rest ihsub ih =>
    simp only [dirs, dirsDeeper, own, List.forall_mem_cons, List.forall_mem_append,
      List.cons_append] at hsame ih ihsub
    obtain ⟨⟨hhere, hown⟩, hsubown, hsub, hrest⟩ := hsame
    refine ⟨?_, ih h.2 ⟨hown, hrest⟩⟩
    rw [hhere]
    refine h.1.imp (fun h1 => ⟨h1.1, ihsub h1.2 ⟨hsubown, hsub⟩⟩) fun h1 => ⟨h1.1, ?_⟩
    exact h1.2.congr (by simpa only [dirs, List.forall_mem_cons] using ⟨hsubown, hsub⟩)

theorem Ordered.own {es : DirEntries} (h : es.Ordered bs before after d blocks) :
    ∀ e ∈ es.own, slotAt bs d blocks e.1 = before e.2 ∨ slotAt bs d blocks e.1 = after e.2 := by
  induction es with
  | nil => simp [DirEntries.own]
  | unused _ _ => simp [DirEntries.own]
  | other off inum rest ih =>
    simp only [DirEntries.own, List.forall_mem_cons]
    exact ⟨h.1, ih h.2⟩
  | dir off inum blks sub rest _ ih =>
    simp only [DirEntries.own, List.forall_mem_cons]
    exact ⟨h.1.imp And.left And.left, ih h.2⟩

theorem ordered_of_deeper {es : DirEntries} (hdeeper : Done bs after d es.dirsDeeper)
    (hown : ∀ e ∈ es.own, slotAt bs d blocks e.1 = before e.2 ∨ slotAt bs d blocks e.1 = after e.2) :
    es.Ordered bs before after d blocks := by
  induction es generalizing blocks with
  | nil => trivial
  | unused off rest => trivial
  | other off inum rest ih =>
    simp only [own, List.forall_mem_cons] at hown
    exact ⟨hown.1, ih hdeeper hown.2⟩
  | dir off inum blks sub rest ihsub ih =>
    simp only [own, List.forall_mem_cons] at hown
    rw [dirsDeeper_dir, done_append] at hdeeper
    obtain ⟨hsub, hrest⟩ := hdeeper
    have hsub' := done_dirs.mp hsub
    refine ⟨hown.1.imp (fun h1 => ⟨h1, ihsub hsub'.2 fun e he => .inr (hsub'.1 e he)⟩)
      fun h1 => ⟨h1, hsub⟩, ih hrest hown.2⟩

theorem Done.ordered {es : DirEntries} (h : Done bs after d (es.dirs blocks)) :
    es.Ordered bs before after d blocks :=
  ordered_of_deeper (done_dirs.mp h).2 fun e he => .inr ((done_dirs.mp h).1 e he)

theorem done_of_ordered_same {es : DirEntries} (h : es.Ordered bs after after d blocks) :
    Done bs after d (es.dirs blocks) := by
  induction es generalizing blocks with
  | nil => simp [Done, dirs, own, dirsDeeper]
  | unused _ _ => simp [Done, dirs, own, dirsDeeper]
  | other off inum rest ih =>
    obtain ⟨hown, hdeeper⟩ := done_dirs.mp (ih h.2)
    refine done_dirs.mpr ⟨?_, hdeeper⟩
    simp only [own, List.forall_mem_cons]
    exact ⟨h.1.elim id id, hown⟩
  | dir off inum blks sub rest ihsub ih =>
    obtain ⟨hown, hdeeper⟩ := done_dirs.mp (ih h.2)
    refine done_dirs.mpr ⟨?_, ?_⟩
    · simp only [own, List.forall_mem_cons]
      exact ⟨h.1.elim And.left And.left, hown⟩
    · rw [dirsDeeper_dir, done_append]
      exact ⟨h.1.elim (fun h1 => ihsub h1.2) And.right, hdeeper⟩

theorem ordered_of_before {es : DirEntries} (h : Done bs before d (es.dirs blocks)) :
    es.Ordered bs before after d blocks := by
  induction es generalizing blocks with
  | nil => trivial
  | unused off rest => trivial
  | other off inum rest ih =>
    simp only [Done, dirs, dirsDeeper, own, List.forall_mem_cons] at h ih
    exact ⟨.inl h.1.1, ih ⟨h.1.2, h.2⟩⟩
  | dir off inum blks sub rest ihsub ih =>
    simp only [Done, dirs, dirsDeeper, own, List.forall_mem_cons, List.forall_mem_append,
      List.cons_append] at h ih ihsub
    obtain ⟨⟨hhere, hown⟩, hsubown, hsub, hrest⟩ := h
    exact ⟨.inl ⟨hhere, ihsub ⟨hsubown, hsub⟩⟩, ih ⟨hown, hrest⟩⟩

end Statuses

end DirEntries

end MakeExt4fs

import MakeExt4fs.Utils.Geometry

namespace MakeExt4fs

open ErrorLog Words

inductive Source where
  | sb
  | sbBlock
  | backupSb (group : Nat)
  | bgDesc
  | bitmaps (group : Nat)
  | inodeTable (group : Nat)
  | heap (buffer offset : Nat)
  deriving DecidableEq, Repr

inductive Chunk where
  | data (src : Source) (len block : Nat)
  | file (filename : List UInt8) (offset len block : Nat)
  deriving DecidableEq, Repr

namespace Chunk

def len : Chunk → Nat
  | data _ n _ => n
  | file _ _ n _ => n

def block : Chunk → Nat
  | data _ _ b => b
  | file _ _ _ b => b

end Chunk

-- What a run of the program changes: sparse lists the calls on the sparse file in order, heap
-- the blocks of memory those calls point into, dirs the inodes make_directory has filled.
structure Fs where
  aux : FsAuxInfo
  sparse : List Chunk
  heap : List Buffer
  dirs : List Nat

abbrev Build := Run Ext4Error Fs

def onAux {α : Type} (m : Run Ext4Error FsAuxInfo α) : Build α :=
  Run.zoom (fun fs => some fs.aux) (fun aux fs => { fs with aux }) m

def sparseFileAdd (c : Chunk) : Build Unit :=
  Run.update fun fs => { fs with sparse := fs.sparse ++ [c] }

def sparseFileAddData (src : Source) (len block : Nat) : Build Unit :=
  sparseFileAdd (.data src len block)

def sparseFileAddFile (filename : List UInt8) (offset len block : Nat) : Build Unit :=
  sparseFileAdd (.file filename offset len block)

def calloc (size : Nat) : Build Nat := do
  let fs ← Run.read
  Run.write { fs with heap := fs.heap ++ [Buffer.zeros size] }
  return fs.heap.length

section Meets

variable {α : Type} {bad : Ext4Error → Prop} {fs : Fs} {l : List Ext4Error}

@[simp] theorem onAux_meets {m : Run Ext4Error FsAuxInfo α} {Q : α → Fs → List Ext4Error → Prop} :
    Run.Meets bad (onAux m) Q fs l ↔
      Run.Meets bad m (fun a aux l' => Q a { fs with aux } l') fs.aux l :=
  Run.meets_zoom (fun fs : Fs => some fs.aux) rfl

@[simp] theorem sparseFileAddData_meets {src : Source} {len block : Nat}
    {Q : Unit → Fs → List Ext4Error → Prop} :
    Run.Meets bad (sparseFileAddData src len block) Q fs l ↔
      Q () { fs with sparse := fs.sparse ++ [.data src len block] } l := Iff.rfl

end Meets

theorem sparseFileAddData_quiet {P : Fs → Prop} {Q : Unit → Fs → Prop} {src : Source}
    {len block : Nat}
    (h : ∀ fs, P fs → Q () { fs with sparse := fs.sparse ++ [.data src len block] }) :
    Run.Quiet P (sparseFileAddData src len block) Q := Run.Quiet.update h

theorem onAux_quiet {α : Type} {P : Fs → Prop} {Q : α → Fs → Prop}
    {m : Run Ext4Error FsAuxInfo α}
    (h : ∀ fs, Run.Quiet (fun aux => aux = fs.aux ∧ P fs) m
      (fun a aux => Q a { fs with aux })) : Run.Quiet P (onAux m) Q := by
  refine Run.Quiet.zoom fun fs => (h fs).pre ?_
  rintro aux ⟨ha, hp⟩
  exact ⟨(Option.some.inj ha).symm, hp⟩

end MakeExt4fs

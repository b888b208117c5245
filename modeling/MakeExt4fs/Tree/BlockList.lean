import MakeExt4fs.Lib.Evolves
import MakeExt4fs.Tree.Make

namespace MakeExt4fs

open ErrorLog Words

section Files

mutual

def filesOf (fullPath : List UInt8) : Option (List HostEntry) → List (List UInt8)
  | none => []
  | some entries => filesAmong fullPath entries

def filesAmong (fullPath : List UInt8) : List HostEntry → List (List UInt8)
  | [] => []
  | e :: rest => filesIn fullPath e ++ filesAmong fullPath rest

def filesIn (fullPath : List UInt8) : HostEntry → List (List UInt8)
  | .mk name lstat _ _ _ listing =>
    match lstat with
    | none => []
    | some st =>
      if st.fileType = sIfdir then filesOf (fullPath ++ name ++ [47]) listing
      else if st.fileType = sIfreg ∧ 0 < st.size then [fullPath ++ name]
      else []

end

def treeFiles (args : MakeArgs) (listing : Option (List HostEntry)) : List (List UInt8) :=
  match args.directory with
  | some directory => filesOf (canonicalizeRelSlashes directory) (scandir listing)
  | none => []

def queuedBlocks (info : FsInfo) (fs : Fs) (filename : List UInt8) : List Nat :=
  fs.sparse.flatMap fun c =>
    match c with
    | .file name _ len block =>
      if name = filename then
        (List.range (divRoundUp len info.blockSize.val)).map fun i => block + i
      else []
    | .data _ _ _ => []

-- What the block list is for: each file that is not empty is on it once, with its blocks.
structure BlockListed (args : MakeArgs) (host : MakeHost) (info : FsInfo) (t : Tree) : Prop where
  names : ((walkedList t).map SavedAllocation.filename).Perm
    ((treeFiles args host.listing).map some)
  blocks : ∀ p ∈ walkedList t, ∀ name, p.filename = some name → ∀ b ∈ queuedBlocks info t.fs name,
    ∃ q ∈ p.alloc.pieces, q.block ≤ b ∧ b < q.block + q.len

end Files

section Growth

def SavedGrows (t t' : Tree) : Prop := t.saved <+: t'.saved

instance : IsPreorder Tree SavedGrows where
  refl _ := List.prefix_refl _
  trans _ _ _ h h' := h.trans h'

theorem onFs_grows {α : Type} (m : Build α) : Run.Evolves SavedGrows (onFs m) :=
  Run.Evolves.zoom (S := fun _ _ => True) (fun _ _ _ _ _ _ => trivial) fun _ _ _ _ _ =>
    List.prefix_refl _

theorem makeFile_grows (info : FsInfo) (force : Bool) (head : Option Nat) (filename : List UInt8)
    (len : Nat) : Run.Evolves SavedGrows (makeFile info force head filename len) := by
  refine (onFs_grows _).bind fun inodeNum => .ite (fun _ => ?_) fun _ => ?_
  · exact (Run.evolves_raise force _).bind fun _ => Run.evolves_pure _
  · refine (onFs_grows _).bind fun inode => ?_
    have hend : Run.Evolves SavedGrows (do
        onFs (initInode inode sIfreg)
        return inodeNum) := (onFs_grows _).bind fun _ => Run.evolves_pure _
    refine .ite (fun _ => (onFs_grows _).bind fun alloc => ?_) fun _ => hend
    cases alloc with
    | none => exact hend
    | some alloc =>
      refine .bind (Run.evolves_update fun t => ?_) fun _ => hend
      exact List.prefix_append t.saved _

theorem scanEntries_grows (args : BuildArgs) (fullPath dirPath : List UInt8)
    (entries : List HostEntry) :
    Run.Evolves SavedGrows (scanEntries args fullPath dirPath entries) := by
  induction entries with
  | nil => exact Run.evolves_pure _
  | cons e rest ih =>
    rw [scanEntries]
    split
    · exact ih.bind fun _ => Run.evolves_pure _
    · refine (Run.evolves_raise _ _).bind fun _ => .ite (fun _ => Run.evolves_pure _) fun _ => ?_
      exact Run.evolves_crash

theorem buildEmptyDirectory_grows (args : BuildArgs) (dirInode : Nat) :
    Run.Evolves SavedGrows (buildEmptyDirectory args dirInode) :=
  (onFs_grows _).bind fun _ => Run.evolves_pure _

mutual

theorem buildDirectoryStructure_grows (args : BuildArgs) (fullPath dirPath : List UInt8)
    (dirInode : Nat) : ∀ listing, Run.Evolves SavedGrows
      (buildDirectoryStructure args fullPath dirPath dirInode listing)
  | none => by
    rw [buildDirectoryStructure]
    exact (Run.evolves_raise _ _).bind fun _ => Run.evolves_pure _
  | some entries => by
    rw [buildDirectoryStructure]
    refine (scanEntries_grows args fullPath dirPath entries).bind fun dentries =>
      .ite (fun _ => ?_) fun _ => ?_
    · refine (onFs_grows _).bind fun ⟨inode, slots⟩ =>
        (buildEmptyDirectory_grows args inode).bind fun _ => (onFs_grows _).bind fun _ => ?_
      exact (buildEntries_grows args inode slots 1 dentries entries).bind fun _ =>
        Run.evolves_pure _
    · refine (onFs_grows _).bind fun ⟨inode, slots⟩ => ?_
      exact (buildEntries_grows args inode slots 0 dentries entries).bind fun _ =>
        Run.evolves_pure _

theorem buildEntries_grows (args : BuildArgs) (inode : Nat) (slots : Option InodeSlots) (i : Nat)
    (dentries : List Dentry) : ∀ entries, Run.Evolves SavedGrows
      (buildEntries args inode slots i dentries entries)
  | [] => by
    rw [buildEntries]
    exact Run.evolves_pure _
  | e :: rest => by
    cases dentries with
    | nil =>
      rw [buildEntries]
      exact Run.evolves_pure _
    | cons d ds =>
      rw [buildEntries]
      exact (buildEntry_grows args inode d e).bind fun _ => (onFs_grows _).bind fun _ =>
        buildEntries_grows args inode slots (i + 1) ds rest

theorem buildEntry_grows (args : BuildArgs) (inode : Nat) (d : Dentry) : ∀ e,
    Run.Evolves SavedGrows (buildEntry args inode d e)
  | .mk _ _ stat _ _ listing => by
    rw [buildEntry]
    refine .ite (fun _ => makeFile_grows _ _ _ _ _) fun _ => .ite (fun _ => ?_) fun _ =>
      .ite (fun _ => onFs_grows _) fun _ => .ite (fun _ => onFs_grows _) fun _ => ?_
    · exact buildDirectoryStructure_grows args _ _ inode listing
    · exact (Run.evolves_raise _ _).bind fun _ => Run.evolves_pure _

end

theorem buildImage_grows (args : MakeArgs) (info : FsInfo) (listing : Option (List HostEntry)) :
    Run.Evolves SavedGrows (buildImage args info listing) := by
  refine (onFs_grows _).bind fun _ => .bind ?_ fun _ => onFs_grows _
  rw [buildTree]
  split
  · exact buildDirectoryStructure_grows _ _ _ _ _
  · refine (onFs_grows _).bind fun ⟨rootInode, slots⟩ => ?_
    exact (buildEmptyDirectory_grows _ _).bind fun _ => (onFs_grows _).bind fun _ =>
      Run.evolves_pure _

end Growth

section Walk

variable {args : MakeArgs} {host : MakeHost} {info : FsInfo} {t : Tree}

theorem makeImage_run (h : makeImage args host = .ok (info, t)) :
    ∃ aux l, settleInfo args.req host.fdStat = .ok info ∧ ext4InitFsAuxInfo info = some aux ∧
      buildImage args info host.listing (startTree aux, []) = .ok ((), (t, l)) := by
  unfold makeImage at h
  rcases hsettle : settleInfo args.req host.fdStat with e | info'
  · simp [hsettle, bind, Except.bind] at h
  · rcases haux : ext4InitFsAuxInfo info' with _ | aux
    · simp [hsettle, haux, bind, Except.bind] at h
    · rcases hrun : buildImage args info' host.listing (startTree aux, []) with e | ⟨⟨⟩, t', l⟩
      · simp [hsettle, haux, hrun, bind, Except.bind] at h
      · simp only [hsettle, haux, hrun, bind, Except.bind, pure, Except.pure, Except.ok.injEq,
          Prod.mk.injEq] at h
        obtain ⟨rfl, rfl⟩ := h
        exact ⟨aux, l, rfl, haux, hrun⟩

theorem walkedList_eq (h : makeImage args host = .ok (info, t)) :
    walkedList t = [zeroAllocation] := by
  obtain ⟨aux, l, -, -, hrun⟩ := makeImage_run h
  obtain ⟨rest, hrest⟩ := buildImage_grows args info host.listing _ _ _ _ _ hrun
  have hsaved : t.saved = zeroAllocation :: rest := hrest.symm
  rw [walkedList, hsaved, List.length_cons]
  cases rest <;> rfl

theorem not_blockListed (h : makeImage args host = .ok (info, t)) :
    ¬ BlockListed args host info t := by
  intro hlisted
  have hnames := hlisted.names
  rw [walkedList_eq h] at hnames
  have hmem : none ∈ (treeFiles args host.listing).map some :=
    hnames.subset (List.mem_singleton.mpr rfl)
  simp at hmem

end Walk

section Example

def oneFileRequest : FsRequest := ⟨262144, 1024, 0, 16, 128, 0, 0, [], true, []⟩

def oneFileArgs : MakeArgs :=
  ⟨oneFileRequest, false, some [115], none, false, false, false, -1, true⟩

def oneFileHost : MakeHost where
  fdStat := none
  listing := some [.mk [97] (some ⟨0o100644, 5, 77, 0, 0⟩) (some ⟨0o100644, 5, 77, 0, 0⟩) none
    [65, 65, 65, 65, 65] none]
  place _ := 0
  output := ⟨fun _ => 0, fun _ _ => 0, fun _ _ => 0, fun _ => none⟩

theorem oneFile_made : ∃ p, makeImage oneFileArgs oneFileHost = .ok p :=
  exists_of_isOk (by decide +kernel)

theorem not_blockListed_oneFile : ∃ info t,
    makeImage oneFileArgs oneFileHost = .ok (info, t) ∧
      ¬ BlockListed oneFileArgs oneFileHost info t := by
  obtain ⟨⟨info, t⟩, h⟩ := oneFile_made
  exact ⟨info, t, h, not_blockListed h⟩

-- The walk finds an element without a name and no s/a.
theorem oneFile_not_on_list : ∃ info t, makeImage oneFileArgs oneFileHost = .ok (info, t) ∧
    ¬ BlockListed oneFileArgs oneFileHost info t := by
  obtain ⟨⟨info, t⟩, h⟩ := oneFile_made
  refine ⟨info, t, h, fun hlisted => ?_⟩
  have hnames := hlisted.names
  have hfiles : treeFiles oneFileArgs oneFileHost.listing = [[115, 47, 97]] := by decide +kernel
  rw [walkedList_eq h, hfiles] at hnames
  simp [zeroAllocation] at hnames

end Example

end MakeExt4fs

import MakeExt4fs.Contents.Makes

namespace MakeExt4fs

open ErrorLog Words

structure KeepsAccount (L : Layout) (aux aux' : FsAuxInfo) : Prop where
  blocks : BlocksOnly aux aux'
  keeps : L.Keeps aux → L.Keeps aux'

instance {L : Layout} : IsPreorder FsAuxInfo (KeepsAccount L) where
  refl aux := ⟨refl_of BlocksOnly aux, id⟩
  trans _ _ _ h h' := ⟨trans_of BlocksOnly h.blocks h'.blocks, h'.keeps ∘ h.keeps⟩

section Indirect

variable {L : Layout} {P : Nat → Nat → Prop} {D : Nat → Prop} {info : FsInfo} {force : Bool}
  {r : InodeRef} {fs fs' : Fs} {l l' : List Ext4Error}

theorem onAux_fills {α : Type} {m : Alloc α} (h : Run.Advances (KeepsAccount L) m) :
    Run.Advances (Fills L P D) (onAux m) := by
  intro fs l a fs' l' hm
  obtain ⟨aux, hrun, rfl⟩ := onAux_ok.mp hm
  obtain ⟨haccount, hlog⟩ := h _ _ _ _ _ hrun
  exact ⟨fills_of_blocks haccount.blocks haccount.keeps, hlog⟩

theorem allocateBlocks_account (len : Nat) :
    Run.Advances (KeepsAccount L) (allocateBlocks force len) := by
  intro aux l r aux' l' hm
  obtain ⟨hblocks, hlog⟩ := allocateBlocks_blocksOnly len _ _ _ _ _ hm
  exact ⟨⟨hblocks, fun hk => allocateBlocks_keeps hk hm⟩, hlog⟩

theorem indirectBlocksNeeded_advances {R : FsAuxInfo → FsAuxInfo → Prop} [IsPreorder FsAuxInfo R]
    (len : Nat) : Run.Advances R (indirectBlocksNeeded len) := by
  have hlevels (levels : List Nat) (ind len : Nat) :
      Run.Advances R (blocksNeeded levels ind len) := by
    induction levels generalizing ind len with
    | nil => exact (Run.advances_raise false _).bind fun _ => Run.advances_pure _
    | cons perBlock rest ih =>
      refine Run.Advances.ite (fun _ => Run.advances_crash) fun _ => ?_
      exact Run.Advances.ite (fun _ => Run.advances_pure _) fun _ => ih _ _
  apply Run.advances_read.bind
  intro aux
  exact Run.Advances.ite (fun _ => Run.advances_pure _) fun _ => hlevels _ _ _

theorem doInodeAllocateIndirect_account (blockLen : Nat) :
    Run.Advances (KeepsAccount L) (doInodeAllocateIndirect force blockLen) := by
  apply (indirectBlocksNeeded_advances blockLen).bind
  intro indirectLen
  apply (allocateBlocks_account _).bind
  intro found
  cases found with
  | none => exact (Run.advances_raise force _).bind fun _ => Run.advances_pure _
  | some alloc => exact Run.advances_pure _

theorem fillIndirectBlock_fills {d : Nat} (hd : D d) (len : Nat) (alloc : BlockAllocation) :
    Run.Advances (Fills L P D) (fillIndirectBlock d len alloc) :=
  Run.advances_each (fun _ => (Run.advances_expect _).bind fun _ => setHeap_fills hd _ _ _) _

theorem fillChildren_fills {d perBlock : Nat} (hd : D d)
    {below : Nat → Nat → BlockAllocation → Build (BlockAllocation × Bool)}
    (hbelow : ∀ (D' : Nat → Prop) d' len alloc, D' d' →
      Run.Advances (Fills L P D') (below d' len alloc)) (fuel i len : Nat)
    (alloc : BlockAllocation) :
    Run.Advances (Fills L P D) (fillChildren info force perBlock below d fuel i len alloc) := by
  induction fuel generalizing i len alloc D with
  | zero => cases len <;> first | exact Run.advances_pure _ | exact Run.advances_crash
  | succ fuel ih =>
    cases len with
    | zero => exact Run.advances_pure _
    | succ len =>
      apply (Run.advances_expect _).bind
      intro child
      apply (Run.advances_expect _).bind
      rintro ⟨alloc, res⟩
      refine Run.Advances.ite (fun _ => ?_) fun _ => ?_
      · exact (Run.advances_raise force _).bind fun _ => Run.advances_pure _
      · refine (setHeap_fills hd _ _ _).bind fun _ => ?_
        apply calloc_bind_fills
        intro data
        refine (sparseFileAdd_fills _).bind fun _ => ?_
        apply (hbelow _ data _ _ (Or.inr rfl)).bind
        rintro ⟨alloc, goOn⟩
        exact Run.Advances.ite (fun _ => ih (Or.inl hd) _ _ _) fun _ => Run.advances_pure _

theorem fillDindirectBlock_fills {d : Nat} (hd : D d) (len : Nat) (alloc : BlockAllocation) :
    Run.Advances (Fills L P D) (fillDindirectBlock info force d len alloc) := by
  apply Run.advances_read.bind
  intro fs
  refine fillChildren_fills hd (fun D' d' len alloc hd' => ?_) _ _ _ _
  apply (fillIndirectBlock_fills hd' _ _).bind
  intro _
  apply (Run.advances_expect _).bind
  rintro ⟨alloc, res⟩
  refine Run.Advances.ite (fun _ => ?_) fun _ => Run.advances_pure _
  exact (Run.advances_raise force _).bind fun _ => Run.advances_pure _

theorem fillTindirectBlock_fills {d : Nat} (hd : D d) (len : Nat) (alloc : BlockAllocation) :
    Run.Advances (Fills L P D) (fillTindirectBlock info force d len alloc) := by
  apply Run.advances_read.bind
  intro fs
  refine fillChildren_fills hd (fun D' d' len alloc hd' => ?_) _ _ _ _
  exact (fillDindirectBlock_fills hd' _ _).bind fun _ => Run.advances_pure _

theorem inodeAttachDirectBlocks_fills (hoff : ∀ i < 15, Off P r (iBlock i)) (alloc : BlockAllocation)
    (blockLen : Nat) :
    Run.Advances (Fills L P D) (inodeAttachDirectBlocks force r alloc blockLen) := by
  have heach (xs : List Nat) (hxs : ∀ i ∈ xs, i < 15) : Run.Advances (Fills L P D)
      (Run.each xs fun i => do
        let block ← Run.expect (getBlock alloc i)
        setField r (iBlock i) block) := by
    induction xs with
    | nil => exact Run.advances_pure ()
    | cons i rest ih =>
      have hi := hxs i List.mem_cons_self
      refine Run.Advances.bind ?_ fun _ => ih fun x hx => hxs x (List.mem_cons_of_mem i hx)
      exact (Run.advances_expect _).bind fun _ => setField_fills (hoff i hi) _
  have hrange : ∀ i ∈ List.range (min blockLen ext4NdirBlocks), i < 15 := by
    intro i hi
    have hlt := List.mem_range.mp hi
    have hle := Nat.min_le_right blockLen ext4NdirBlocks
    unfold ext4NdirBlocks at hlt hle
    omega
  refine (heach _ hrange).bind fun _ => ?_
  apply (Run.advances_expect _).bind
  rintro ⟨alloc, res⟩
  refine Run.Advances.ite (fun _ => ?_) fun _ => Run.advances_pure _
  exact (Run.advances_raise force _).bind fun _ => Run.advances_pure _

theorem attachLevel_fills {slot : Nat} (hoff : Off P r (iBlock slot))
    {fill : Nat → Nat → BlockAllocation → Build BlockAllocation}
    (hfill : ∀ (D' : Nat → Prop) d len alloc, D' d → Run.Advances (Fills L P D') (fill d len alloc))
    (perBlock : Nat) (alloc : BlockAllocation) (blockLen : Nat) :
    Run.Advances (Fills L P D) (attachLevel info force slot perBlock fill r alloc blockLen) := by
  apply (Run.advances_expect _).bind
  intro block
  refine (setField_fills hoff _).bind fun _ => ?_
  apply (Run.advances_expect _).bind
  rintro ⟨alloc, res⟩
  refine Run.Advances.ite (fun _ => ?_) fun _ => ?_
  · exact (Run.advances_raise force _).bind fun _ => Run.advances_pure _
  · apply calloc_bind_fills
    intro data
    refine (sparseFileAdd_fills _).bind fun _ => ?_
    apply (hfill _ data _ _ (Or.inr rfl)).bind
    intro alloc
    apply (Run.advances_expect _).bind
    rintro ⟨alloc, res⟩
    refine Run.Advances.ite (fun _ => ?_) fun _ => Run.advances_pure _
    exact (Run.advances_raise force _).bind fun _ => Run.advances_pure _

theorem attachStep_fills {attach : BlockAllocation → Nat → Build Attached}
    (h : ∀ alloc count, Run.Advances (Fills L P D) (attach alloc count)) (what : String)
    (alloc : BlockAllocation) (count : Nat) :
    Run.Advances (Fills L P D) (attachStep force what attach alloc count) := by
  apply (h alloc count).bind
  rintro ⟨alloc, count, res⟩
  refine Run.Advances.ite (fun _ => ?_) fun _ => Run.advances_pure _
  exact (Run.advances_raise force _).bind fun _ => Run.advances_pure _

theorem attachSteps_fills {steps : List (String × (BlockAllocation → Nat → Build Attached))}
    (h : ∀ s ∈ steps, ∀ alloc count, Run.Advances (Fills L P D) (s.2 alloc count))
    (alloc : BlockAllocation) (count : Nat) :
    Run.Advances (Fills L P D) (attachSteps force steps alloc count) := by
  induction steps generalizing alloc count with
  | nil =>
    refine Run.Advances.ite (fun _ => ?_) fun _ => Run.advances_pure _
    exact (Run.advances_raise force _).bind fun _ => Run.advances_pure _
  | cons s rest ih =>
    have hrest := ih fun s' hs' => h s' (List.mem_cons_of_mem s hs')
    refine Run.Advances.ite (fun _ => hrest _ _) fun _ => ?_
    apply (attachStep_fills (h s List.mem_cons_self) s.1 alloc count).bind
    rintro ⟨alloc, count, res⟩
    exact Run.Advances.ite (fun _ => Run.advances_pure _) fun _ => hrest _ _

theorem inodeAttachIndirectBlocks_fills (hoff : Off P r (iBlock ext4IndBlock))
    (alloc : BlockAllocation) (count : Nat) :
    Run.Advances (Fills L P D) (inodeAttachIndirectBlocks info force r alloc count) := by
  apply Run.advances_read.bind
  intro fs
  refine attachLevel_fills hoff (fun D' d len alloc hd => ?_) _ _ _
  exact (fillIndirectBlock_fills hd _ _).bind fun _ => Run.advances_pure _

theorem inodeAttachDindirectBlocks_fills (hoff : Off P r (iBlock ext4DindBlock))
    (alloc : BlockAllocation) (count : Nat) :
    Run.Advances (Fills L P D) (inodeAttachDindirectBlocks info force r alloc count) :=
  Run.advances_read.bind fun _ => attachLevel_fills hoff
    (fun _ _ len alloc hd => fillDindirectBlock_fills hd len alloc) _ _ _

theorem inodeAttachTindirectBlocks_fills (hoff : Off P r (iBlock ext4TindBlock))
    (alloc : BlockAllocation) (count : Nat) :
    Run.Advances (Fills L P D) (inodeAttachTindirectBlocks info force r alloc count) :=
  Run.advances_read.bind fun _ => attachLevel_fills hoff
    (fun _ _ len alloc hd => fillTindirectBlock_fills hd len alloc) _ _ _

theorem doInodeAttachIndirect_fills (hoff : ∀ i < 15, Off P r (iBlock i)) (alloc : BlockAllocation)
    (blockLen : Nat) :
    Run.Advances (Fills L P D) (doInodeAttachIndirect info force r alloc blockLen) := by
  apply (attachStep_fills (inodeAttachDirectBlocks_fills hoff) _ alloc blockLen).bind
  rintro ⟨alloc, count, res⟩
  refine Run.Advances.ite (fun _ => Run.advances_pure _) fun _ => ?_
  refine attachSteps_fills ?_ alloc count
  intro s hs
  simp only [List.mem_cons, List.not_mem_nil, or_false] at hs
  obtain rfl | rfl | rfl := hs
  · exact inodeAttachIndirectBlocks_fills (hoff _ (by decide))
  · exact inodeAttachDindirectBlocks_fills (hoff _ (by decide))
  · exact inodeAttachTindirectBlocks_fills (hoff _ (by decide))

theorem createBacking_fills (alloc : BlockAllocation) (backingLen : Nat) :
    Run.Advances (Fills L P D) (createBacking info alloc backingLen) :=
  Run.Advances.ite (fun _ => (Run.advances_raise false _).bind fun _ => Run.advances_crash)
    fun _ => extentCreateBacking_fills alloc backingLen

def attachedData (info : FsInfo) (force : Bool) (r : InodeRef) (len : Nat) (alloc : BlockAllocation)
    (data : Option Nat) : Build (Option Nat) := do
  let (_, _, res) ← doInodeAttachIndirect info force r (rewindAlloc alloc)
    (u32 (divRoundUp64 len info.blockSize.val))
  if res ≠ 0 then
    Run.raise force (.failedToAttach "blocks to indirect inode")
  return data

theorem attachedData_fills (hoff : ∀ i < 15, Off P r (iBlock i)) (len : Nat)
    (alloc : BlockAllocation) (data : Option Nat) :
    Run.Advances (Fills L P D) (attachedData info force r len alloc data) := by
  apply (doInodeAttachIndirect_fills hoff _ _).bind
  rintro ⟨_, _, res⟩
  dsimp only
  split
  · exact (Run.advances_raise force _).bind fun _ => Run.advances_pure _
  · exact Run.advances_pure _

theorem attachedData_ok {len : Nat} {alloc : BlockAllocation} {data res : Option Nat}
    (hoff : ∀ i < 15, Off P r (iBlock i))
    (h : attachedData info force r len alloc data (fs, l) = .ok (res, (fs', l'))) :
    data = res ∧ Fills L P (fun _ => False) fs fs' := by
  obtain ⟨⟨_, _, r1⟩, s1, k1, hattach, -, hrest⟩ :=
    (doInodeAttachIndirect_fills hoff _ _).next (refl_of (Fills L P fun _ => False) fs) h
  dsimp only at hrest
  split at hrest
  · obtain ⟨⟨⟩, s2, k2, hraise, -, hend⟩ := (Run.advances_raise force _).next hattach hrest
    cases hend
    exact ⟨rfl, hraise⟩
  · cases hrest
    exact ⟨rfl, hattach⟩

theorem inodeAllocateDataIndirect_fills (hoff : ∀ i < 15, Off P r (iBlock i))
    (len backingLen : Nat) :
    Run.Advances (Fills L P D) (inodeAllocateDataIndirect info force r len backingLen) := by
  have hattach (alloc : BlockAllocation) (data : Option Nat) :
      Run.Advances (Fills L P D) (attachedData info force r len alloc data) :=
    attachedData_fills hoff len alloc data
  apply (onAux_fills (doInodeAllocateIndirect_account _)).bind
  intro found
  cases found with
  | none => exact (Run.advances_raise force _).bind fun _ => Run.advances_pure _
  | some alloc =>
    simp only [pure_bind]
    refine Run.Advances.ite (fun _ => hattach alloc none) fun _ => ?_
    exact (createBacking_fills alloc backingLen).bind fun _ => hattach alloc _

end Indirect

end MakeExt4fs

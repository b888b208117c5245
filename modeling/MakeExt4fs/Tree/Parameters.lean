import MakeExt4fs.Tree.Make
import MakeExt4fs.Utils.Params

namespace MakeExt4fs

open ErrorLog Words

def prepareResize (info : FsInfo) (force : Bool) : Build (InodeRef × BlockAllocation) := do
  blockAllocatorInit info force
  ext4FillInSb info
  let ret ← onAux (reserveInodes 0 10)
  if ret = ext4AllocateFailed then
    Run.raise force .failedFirstInodes
  if info.featCompat.val &&& ext4FeatureCompatHasJournal ≠ 0 then
    ext4CreateJournalInode info force
  let inode ← getInode info ext4ResizeIno
  let fs ← Run.read
  let alloc ← Run.expect
    (resizeRegions info fs.aux (List.range fs.aux.groups) createAllocation)
  return (inode, alloc)

theorem prepareImage_eq {args : MakeArgs} {info : FsInfo}
    (h : info.featCompat.val &&& ext4FeatureCompatResizeInode ≠ 0) :
    prepareImage args info = onFs (prepareResize info args.force >>= fun p => do
      inodeAttachResize info args.force p.1 p.2
      setField p.1 iMode 0o100600
      setField p.1 iLinksCount 1) := by
  rw [prepareImage, prepareResize]
  simp only [if_pos h, ext4CreateResizeInode, bind_assoc]
  refine congrArg onFs (bind_congr fun _ => bind_congr fun _ => bind_congr fun ret => ?_)
  split
  · split <;> simp only [bind_assoc, pure_bind]
  · split <;> simp only [bind_assoc, pure_bind]

section Sound

variable {args : MakeArgs} {st : Option FdStat} {info : FsInfo} {aux : FsAuxInfo}

-- The run comes to inode_attach_resize, whose first division is by the reserved blocks.
def ComesToResize (info : FsInfo) (force : Bool) (aux : FsAuxInfo) : Prop :=
  info.featCompat.val &&& ext4FeatureCompatResizeInode ≠ 0 ∧
    ∃ r s, prepareResize info force ((startTree aux).fs, []) = .ok (r, s)

-- What is divided by is not zero and there is a group, or the run stops with a message.
def ParamsSound (args : MakeArgs) (st : Option FdStat) : Prop :=
  match settleInfo args.req st with
  | .error (.error _) => True
  | .error .crash => False
  | .ok info => ∃ aux, ext4InitFsAuxInfo info = some aux ∧ 1 ≤ aux.groups ∧
      (ComesToResize info args.force aux → info.bgDescReserveBlocks.val ≠ 0)

structure Workable (args : MakeArgs) (st : Option FdStat) : Prop where
  blocksPerGroup : 0 < args.req.wantedBlocksPerGroup
  blocks : 0 < args.req.paramBlocks st
  inWord : args.req.paramBlocks st + args.req.wantedBlocksPerGroup ≤ 4294967296
  inodeSize : args.req.wantedInodeSize ≤ args.req.wantedBlockSize
  group : ∀ info, settleInfo args.req st = .ok info → GroupLeft info
  reserve : ReserveLeft args.req.wantedBlockSize (args.req.paramGroups st) ∨
    ∀ info aux, settleInfo args.req st = .ok info → ext4InitFsAuxInfo info = some aux →
      ¬ ComesToResize info args.force aux

theorem fillResizeBlocks_divides {force : Bool} {alloc : BlockAllocation}
    (h : info.bgDescReserveBlocks.val = 0) (s : Fs × List Ext4Error) :
    fillResizeBlocks info force alloc s = .error .crash := by
  rw [fillResizeBlocks, Run.bind_run]
  cases blockAllocationLen alloc with
  | none => rfl
  | some n =>
    simp only [Run.expect, Run.pure_run, if_pos h]
    rfl

theorem prepareImage_divides (hok : ComesToResize info args.force aux)
    (hnone : info.bgDescReserveBlocks.val = 0) :
    prepareImage args info (startTree aux, []) = .error .crash := by
  obtain ⟨hcompat, ⟨r, alloc⟩, ⟨fs, l⟩, hrun⟩ := hok
  have hattach : inodeAttachResize info args.force r alloc (fs, l) = .error .crash := by
    rw [inodeAttachResize, Run.bind_run, Run.read_run]
    dsimp only
    rw [Run.bind_run, fillResizeBlocks_divides hnone]
  rw [prepareImage_eq hcompat, onFs, Run.zoom]
  dsimp only
  rw [Run.bind_run, hrun]
  dsimp only
  rw [Run.bind_run, hattach]

theorem paramsSound_iff (args : MakeArgs) (st : Option FdStat)
    (hlen : args.req.wantedLen st < 9223372036854775808) :
    ParamsSound args st ↔ args.req.wantedLen st ≤ 0 ∨ Workable args st := by
  rcases le_or_gt (args.req.wantedLen st) 0 with hle | hpos
  · have hstop : settleInfo args.req st = .error (.error .needSize) := if_pos hle
    simp only [ParamsSound, hstop, hle, true_or]
  rcases settleInfo_cases hlen hpos with ⟨hcounts, info, hok, hreserve⟩ | ⟨hcounts, hcrash⟩
  · obtain ⟨⟨hbpg, hblocks, hword⟩, hsize⟩ := hcounts
    have hgroups : 0 < args.req.paramGroups st := Nat.pos_of_ne_zero
      ((divRoundUp32_pos_iff (u32_lt _) args.req.wantedBlocksPerGroup_lt).mpr
        ⟨hbpg, hblocks, hword⟩)
    have hsettled := settleInfo_settled hok
    obtain ⟨aux, haux⟩ := ext4InitFsAuxInfo_exists info hsettled.blockSize hsettled.blocksPerGroup
    have hleft := computeBgDescReserveBlocks_pos_iff args.req st hgroups
    simp only [ParamsSound, hok, haux, Option.some.injEq, hreserve, hleft]
    constructor
    · rintro ⟨aux', rfl, hone, hres⟩
      refine Or.inr ⟨hbpg, hblocks, hword, hsize, ?_, ?_⟩
      · intro info' hinfo'
        cases hok.symm.trans hinfo'
        exact (groupLeft_iff haux).mp hone
      · rw [or_iff_not_imp_left]
        intro hnone info' aux' hinfo' haux' hcomes
        cases hok.symm.trans hinfo'
        cases haux.symm.trans haux'
        exact hnone (hres hcomes)
    · rintro (hle | hwork)
      · omega
      refine ⟨aux, rfl, (groupLeft_iff haux).mpr (hwork.group info hok), fun hcomes => ?_⟩
      rcases hwork.reserve with hres | hstops
      · exact hres
      · exact absurd hcomes (hstops info aux hok haux)
  · simp only [ParamsSound, hcrash, false_iff]
    rintro (hle | hwork)
    · omega
    · exact hcounts ⟨⟨hwork.blocksPerGroup, hwork.blocks, hwork.inWord⟩, hwork.inodeSize⟩

def argsOf (req : FsRequest) : MakeArgs where
  req
  force := false
  directory := none
  fsConfigFunc := none
  gzip := false
  sparse := false
  crc := false
  fixedTime := -1
  blockListFile := false

theorem paramsSound_iff_of_small : ParamsSound (argsOf smallRequest) none ↔
    smallRequest.wantedLen none ≤ 0 ∨ Workable (argsOf smallRequest) none :=
  paramsSound_iff (argsOf smallRequest) none (by decide)

-- make_ext4fs -l 16m -I 8k: a block holds no inode, and the inodes are rounded up to that many.
def wideInodeRequest : FsRequest := { smallRequest with inodeSize := 8192 }

theorem wide_inodes_divide_by_zero : 0 < wideInodeRequest.wantedLen none ∧
    ¬ ParamsSound (argsOf wideInodeRequest) none := by
  refine ⟨by decide, fun h => ?_⟩
  rcases (paramsSound_iff (argsOf wideInodeRequest) none (by decide)).mp h with hle | hwork
  · exact absurd hle (by decide)
  · exact absurd hwork.inodeSize (by decide)

end Sound

end MakeExt4fs

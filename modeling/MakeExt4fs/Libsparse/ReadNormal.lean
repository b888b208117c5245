import MakeExt4fs.Libsparse.Images
import MakeExt4fs.Libsparse.InOrder
import MakeExt4fs.Libsparse.Merging
import MakeExt4fs.Libsparse.Turns

namespace MakeExt4fs

open Interrupt Words
open Buffer (leBytes)

section Reading

variable (file : List UInt8) (fd : Int) (bs : Nat)

def sparseBlock (buf : List UInt8) : Bool :=
  (List.range (bs / 4 - 1)).all fun i => leValue buf 0 4 = leValue buf (4 * (i + 1)) 4

-- A block that is not there in full is never a fill. A block size of zero reads for ever.
def readNormalLoop : Nat → Nat → Nat → Nat → Read Unit
  | _, 0, _, _ => return ()
  | 0, _ + 1, _, _ => Act.crash
  | turns + 1, remain + 1, offset, block => do
    let toRead := min (remain + 1) bs
    let buf ← readAll file toRead
    if toRead = bs ∧ sparseBlock bs buf then
      addChunk (backedBlockAddFill · (leValue buf 0 4) toRead block)
    else
      addChunk (backedBlockAddFd · fd offset toRead block)
    readNormalLoop turns (remain + 1 - toRead) (offset + toRead) (u32 (block + 1))

def sparseFileReadNormal (len : Int) : Read Unit :=
  readNormalLoop file fd bs len.toNat len.toNat 0 0

def bufAt (i : Nat) : List UInt8 := (file.drop (i * bs)).take bs

def fillAt (i : Nat) : Option Nat :=
  if (bufAt file bs i).length = bs ∧ sparseBlock bs (bufAt file bs i) then
    some (leValue (bufAt file bs i) 0 4)
  else
    none

def normalCall (i : Nat) : AddCall :=
  match fillAt file bs i with
  | some val => .fill val bs (u32 i)
  | none => .fd fd (i * bs : Nat) (bufAt file bs i).length (u32 i)

def normalBlocks : Nat := divRoundUp file.length bs

def normalCalls : List AddCall := (List.range (normalBlocks file bs)).map (normalCall file fd bs)

end Reading

section Loop

variable {file : List UInt8} {fd : Int} {bs i : Nat}

theorem length_bufAt (file : List UInt8) (bs i : Nat) :
    (bufAt file bs i).length = min bs (file.length - i * bs) := by
  rw [bufAt, List.length_take, List.length_drop]

theorem addAll_cons (bbl : BackedBlockList) (c : AddCall) (cs : List AddCall) :
    addAll bbl (c :: cs) = (c.run bbl).bind (addAll · cs) := rfl

theorem addChunk_ends_addAll {c : AddCall} {cs : List AddCall} {rest : Unit → Read Unit}
    {r : SparseReader} (hrest : ∀ bbl, c.run r.bbl = some bbl → (rest ()).Ends
      (fun _ r' => addAll bbl cs = some r'.bbl) (fun _ _ => addAll bbl cs = none) { r with bbl }) :
    (addChunk (c.run ·) >>= rest).Ends (fun _ r' => addAll r.bbl (c :: cs) = some r'.bbl)
      (fun _ _ => addAll r.bbl (c :: cs) = none) r := by
  rw [Act.ends_bind, addChunk, Act.ends_bind, Act.ends_read, Act.ends_bind, Act.ends_expect,
    addAll_cons]
  refine ⟨fun bbl hbbl => ?_, fun hnone => ?_⟩
  · rw [hbbl]
    exact hrest bbl hbbl
  · rw [hnone]
    rfl

theorem readNormalLoop_ends (hbs : 0 < bs) {turns offset : Nat}
    (hturns : file.length - i * bs ≤ turns) (hoffset : i * bs < file.length → offset = i * bs)
    {r : SparseReader} (hpos : i * bs < file.length → r.pos = i * bs) :
    (readNormalLoop file fd bs turns (file.length - i * bs) offset (u32 i)).Ends
      (fun _ r' => addAll r.bbl ((List.range' i (normalBlocks file bs - i)).map
        (normalCall file fd bs)) = some r'.bbl)
      (fun _ _ => addAll r.bbl ((List.range' i (normalBlocks file bs - i)).map
        (normalCall file fd bs)) = none) r := by
  induction turns generalizing i offset r with
  | zero =>
    have hn : normalBlocks file bs ≤ i := (divRoundUp_le_iff hbs).mpr (by omega)
    rw [Nat.le_zero.mp hturns, Nat.sub_eq_zero_of_le hn]
    rfl
  | succ turns ih =>
    rcases Nat.lt_or_ge (i * bs) file.length with hlt | hge
    · have hn : i < normalBlocks file bs := (lt_divRoundUp_iff hbs).mpr hlt
      have hbuf : (file.drop r.pos).take (min (file.length - i * bs) bs) = bufAt file bs i := by
        rw [hpos hlt, bufAt, ← List.take_take, List.take_of_length_le (l := (file.drop (i * bs)).take bs)]
        rw [List.length_take, List.length_drop]
        exact Nat.min_le_right _ _
      have hnext : file.length - i * bs - min (file.length - i * bs) bs =
          file.length - (i + 1) * bs := by
        rw [Nat.succ_mul]
        omega
      have hword : u32 (u32 i + 1) = u32 (i + 1) := by
        simp only [u32]
        omega
      have hlist : List.range' i (normalBlocks file bs - i) =
          i :: List.range' (i + 1) (normalBlocks file bs - (i + 1)) := by
        rw [show normalBlocks file bs - i = normalBlocks file bs - (i + 1) + 1 by omega]
        exact List.range'_succ
      have hthere : r.pos + min (file.length - i * bs) bs ≤ file.length := by
        rw [hpos hlt]
        omega
      obtain ⟨m, hm⟩ : ∃ m, file.length - i * bs = m + 1 := ⟨file.length - i * bs - 1, by omega⟩
      rw [hlist, List.map_cons, hm, readNormalLoop, ← hm, Act.ends_bind]
      refine Act.ends_of_run (fun buf r1 hrun => ?_) fun e r1 hrun => ?_
      · rw [readAll_run hthere, hbuf] at hrun
        cases hrun
        rw [hoffset hlt, hnext, hword]
        have hmin : min (file.length - i * bs) bs = (bufAt file bs i).length := by
          rw [length_bufAt, Nat.min_comm]
        have hrest (bbl : BackedBlockList) := @ih (i + 1) (i * bs + (bufAt file bs i).length)
          (by rw [← hnext]; omega) (by rw [← hmin, Nat.succ_mul]; omega)
          ⟨r.pos + (bufAt file bs i).length, r.crc32, r.copybuf, bbl⟩
          (by rw [← hmin, hpos hlt, Nat.succ_mul]; dsimp only; omega)
        rw [hmin]
        refine .ite (fun hfill => ?_) fun hdata => ?_
        · have hcall : normalCall file fd bs i =
              .fill (leValue (bufAt file bs i) 0 4) (bufAt file bs i).length (u32 i) := by
            rw [normalCall, fillAt, if_pos hfill, hfill.1]
          rw [hcall]
          exact @addChunk_ends_addAll (.fill _ _ _) _ _
            ⟨r.pos + (bufAt file bs i).length, r.crc32, r.copybuf, r.bbl⟩ fun bbl _ => hrest bbl
        · have hcall : normalCall file fd bs i =
              .fd fd (i * bs : Nat) (bufAt file bs i).length (u32 i) := by
            rw [normalCall, fillAt, if_neg hdata]
          rw [hcall]
          exact @addChunk_ends_addAll (.fd _ _ _ _) _ _
            ⟨r.pos + (bufAt file bs i).length, r.crc32, r.copybuf, r.bbl⟩ fun bbl _ => hrest bbl
      · rw [readAll_run hthere] at hrun
        cases hrun
    · have hn : normalBlocks file bs ≤ i := (divRoundUp_le_iff hbs).mpr (by omega)
      rw [Nat.sub_eq_zero_of_le hge, Nat.sub_eq_zero_of_le hn]
      rfl

variable (file fd) in
theorem sparseFileReadNormal_ends (hbs : 0 < bs) (copybuf : List UInt8) :
    (sparseFileReadNormal file fd bs file.length).Ends
      (fun _ r => addAll (backedBlockListNew bs) (normalCalls file fd bs) = some r.bbl)
      (fun _ _ => addAll (backedBlockListNew bs) (normalCalls file fd bs) = none)
      ⟨0, 0, copybuf, backedBlockListNew bs⟩ := by
  have hends := @readNormalLoop_ends file fd bs 0 hbs file.length 0
    (Nat.sub_le _ _) (fun _ => (Nat.zero_mul bs).symm) ⟨0, 0, copybuf, backedBlockListNew bs⟩
    (fun _ => (Nat.zero_mul bs).symm)
  rw [Nat.zero_mul, Nat.sub_zero, Nat.sub_zero, ← List.range_eq_range'] at hends
  exact hends

end Loop

section Calls

variable {file : List UInt8} {fd : Int} {bs i : Nat}

theorem length_bufAt_of_succ_lt (hbs : 0 < bs) (hi : i + 1 < normalBlocks file bs) :
    (bufAt file bs i).length = bs := by
  have hlt : (i + 1) * bs < file.length := (lt_divRoundUp_iff hbs).mp hi
  rw [Nat.succ_mul] at hlt
  rw [length_bufAt]
  omega

@[simp] theorem block_normalCall (file : List UInt8) (fd : Int) (bs i : Nat) :
    (normalCall file fd bs i).block = u32 i := by
  rw [normalCall]
  cases fillAt file bs i <;> rfl

theorem len_normalCall (file : List UInt8) (fd : Int) (bs i : Nat) :
    (normalCall file fd bs i).len = (bufAt file bs i).length := by
  rw [normalCall, fillAt]
  by_cases hfill : (bufAt file bs i).length = bs ∧ sparseBlock bs (bufAt file bs i) = true
  · rw [if_pos hfill, hfill.1]
    rfl
  · rw [if_neg hfill]
    rfl

theorem joins_normalCall (hbs : 0 < bs) (hi : i + 1 < normalBlocks file bs) :
    (normalCall file fd bs i).Joins bs (normalCall file fd bs (i + 1)) ↔
      fillAt file bs i = fillAt file bs (i + 1) := by
  have hlen := length_bufAt_of_succ_lt hbs hi
  have hnear : u32 ((normalCall file fd bs i).block + (normalCall file fd bs i).len / bs) =
      (normalCall file fd bs (i + 1)).block := by
    rw [block_normalCall, block_normalCall, len_normalCall, hlen, Nat.div_self hbs]
    simp only [u32]
    omega
  rw [AddCall.Joins, and_iff_right hnear, normalCall, normalCall]
  cases fillAt file bs i <;> cases fillAt file bs (i + 1) <;>
    simp only [AddCall.backing, Backing.map, sameBacking, AddCall.len, hlen, Bool.false_eq_true,
      reduceCtorEq, decide_eq_true_eq, Option.some.injEq, true_and]
  exact iff_true_intro (by rw [Nat.succ_mul, Nat.cast_add])

theorem sorted_normalCalls (hn : normalBlocks file bs ≤ 4294967296) :
    (normalCalls file fd bs).Pairwise fun a b => a.block < b.block := by
  refine List.pairwise_map.mpr ?_
  refine List.pairwise_lt_range.imp_of_mem ?_
  intro i j hi hj hlt
  rw [List.mem_range] at hi hj
  rw [block_normalCall, block_normalCall, u32_of_lt (hi.trans_le hn), u32_of_lt (hj.trans_le hn)]
  exact hlt

def Unlike (file : List UInt8) (bs : Nat) : Prop :=
  ∀ i, i + 2 < normalBlocks file bs → fillAt file bs i ≠ fillAt file bs (i + 1)

theorem unlike_iff (hbs : 0 < bs) :
    (normalCalls file fd bs).dropLast.IsChain (fun a b => ¬ a.Joins bs b) ↔ Unlike file bs := by
  have hdrop (n : Nat) : (List.range n).dropLast = List.range (n - 1) := by
    cases n with
    | zero => rfl
    | succ n => rw [List.range_succ, List.dropLast_concat, Nat.add_sub_cancel]
  rw [normalCalls, ← List.map_dropLast, List.isChain_map, hdrop, List.isChain_range]
  constructor
  · intro h i hi
    exact fun heq => h i (by omega) ((joins_normalCall hbs (by omega)).mpr heq)
  · intro h i hi hj
    exact h i (by omega) ((joins_normalCall hbs (by omega)).mp hj)

theorem queueBb_zero {bbl : BackedBlockList} {first new : BackedBlock} {rest : List BackedBlock}
    (hblocks : bbl.dataBlocks = first :: rest) (hfirst : first.block = 0) (hnew : new.block = 0) :
    queueBb bbl new = none := by
  have hmerge {t hi : List BackedBlock} (h : mergeBb bbl.blockSize new hi = some t) :
      mergeBb bbl.blockSize first t = none := by
    obtain ⟨len, tail, rfl, -⟩ := mergeBb_head h
    rw [mergeBb, if_pos (by rw [hfirst, hnew])]
  have hins : insertFrom bbl.blockSize new first rest = none := by
    cases rest with
    | nil => exact @hmerge [new] [] rfl
    | cons next rest =>
      rw [insertFrom, if_neg (by rw [hnew]; exact Nat.not_lt_zero _)]
      cases hm : mergeBb bbl.blockSize new (next :: rest) with
      | none => rfl
      | some t => exact hmerge hm
  have hstart : ∀ pre bb post, searchStart bbl new first rest = some (pre, bb, post) →
      bb = first ∧ post = rest := by
    intro pre bb post h
    rw [searchStart] at h
    cases hlast : bbl.lastUsed with
    | none =>
      rw [hlast] at h
      cases h
      exact ⟨rfl, rfl⟩
    | some addr =>
      rw [hlast] at h
      simp only [hnew, Nat.not_lt_zero, if_false, Option.bind_eq_bind, Option.bind_eq_some_iff] at h
      obtain ⟨_, -, h⟩ := h
      cases h
      exact ⟨rfl, rfl⟩
  rw [queueBb, hblocks]
  dsimp only
  rw [hnew, hfirst, if_neg (lt_irrefl 0)]
  cases hs : searchStart bbl new first rest with
  | none => rfl
  | some found =>
    obtain ⟨pre, bb, post⟩ := found
    obtain ⟨rfl, rfl⟩ := hstart pre bb post hs
    simp only [Option.bind_eq_bind, Option.bind_some, hins, Option.bind_none]

theorem QueuedInOrder.first {c : AddCall} {cs : List AddCall} {bbl : BackedBlockList}
    (h : QueuedInOrder bs (c :: cs) bbl) :
    ∃ first rest, bbl.dataBlocks = first :: rest ∧ first.block = c.block := by
  generalize hcalls : c :: cs = calls at h
  cases h with
  | apart =>
    subst hcalls
    exact ⟨c.blockAt 0, _, List.mapIdx_cons, rfl⟩
  | @joined pre a b =>
    cases pre with
    | nil =>
      obtain ⟨rfl, -⟩ := List.cons.inj hcalls
      exact ⟨_, [], rfl, rfl⟩
    | cons d pre =>
      obtain ⟨rfl, -⟩ := List.cons.inj hcalls
      exact ⟨c.blockAt 0, _, congrArg (· ++ _) List.mapIdx_cons, rfl⟩

theorem addAll_normalCalls_of_wrap {wrap : Nat} (hwrap : u32 wrap = 0)
    (hbelow : ∀ j < wrap, u32 j = j) (hpos : 0 < wrap) (hn : wrap < normalBlocks file bs) :
    addAll (backedBlockListNew bs) (normalCalls file fd bs) = none := by
  have hsplit : normalCalls file fd bs = (List.range wrap).map (normalCall file fd bs) ++
      normalCall file fd bs wrap :: ((List.range' (wrap + 1) (normalBlocks file bs - (wrap + 1))).map
        (normalCall file fd bs)) := by
    have hrange : normalBlocks file bs = wrap + (1 + (normalBlocks file bs - (wrap + 1))) := by omega
    rw [normalCalls, hrange, List.range_eq_range', ← List.range'_append_1, List.map_append,
      ← List.range_eq_range', Nat.zero_add, Nat.add_comm 1, List.range'_succ, List.map_cons]
    congr 3
    rw [hrange]
    congr 1
    omega
  rw [hsplit, addAll, List.foldlM_append]
  change ((addAll (backedBlockListNew bs) _).bind fun bbl => (AddCall.run bbl _).bind _) = none
  cases hbefore : addAll (backedBlockListNew bs) ((List.range wrap).map (normalCall file fd bs)) with
  | none => rfl
  | some bbl =>
    obtain ⟨k, rfl⟩ : ∃ k, wrap = k + 1 := ⟨wrap - 1, by omega⟩
    have hsorted : ((List.range (k + 1)).map (normalCall file fd bs)).Pairwise
        fun a b => a.block ≤ b.block := by
      refine List.pairwise_map.mpr (List.pairwise_lt_range.imp_of_mem ?_)
      intro i j hi hj hlt
      rw [block_normalCall, block_normalCall, hbelow i (List.mem_range.mp hi),
        hbelow j (List.mem_range.mp hj)]
      exact hlt.le
    have hqueued := queuedInOrder_of_addAll hsorted hbefore
    rw [List.range_succ_eq_map, List.map_cons] at hqueued
    obtain ⟨first, rest, hblocks, hfirst⟩ := hqueued.first
    have hnone : (normalCall file fd bs (k + 1)).run bbl = none := by
      rw [run_eq_queueBb]
      refine @queueBb_zero { bbl with fresh := bbl.fresh + 1 } first _ rest hblocks ?_ ?_
      · rw [hfirst, block_normalCall]
        rfl
      · exact (block_normalCall file fd bs (k + 1)).trans hwrap
    rw [Option.bind_some, hnone, Option.bind_none]

theorem addAll_normalCalls_isSome_iff (hbs : 0 < bs) :
    (∃ bbl, addAll (backedBlockListNew bs) (normalCalls file fd bs) = some bbl) ↔
      normalBlocks file bs ≤ 4294967296 ∧ Unlike file bs := by
  by_cases hn : normalBlocks file bs ≤ 4294967296
  · rw [addAll_isSome_iff hbs (sorted_normalCalls hn), unlike_iff hbs, and_iff_right hn]
  · have hnone : addAll (backedBlockListNew bs) (normalCalls file fd bs) = none :=
      addAll_normalCalls_of_wrap rfl (fun j hj => u32_of_lt hj) (by decide) (not_le.mp hn)
    rw [hnone]
    exact iff_of_false (fun ⟨_, h⟩ => by cases h) fun h => hn h.1

end Calls

end MakeExt4fs

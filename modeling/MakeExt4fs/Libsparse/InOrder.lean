import MakeExt4fs.Libsparse.CanQueue

namespace MakeExt4fs

open Words

def AddCall.blockAt (addr : Nat) (c : AddCall) : BackedBlock :=
  ⟨addr, c.block, c.len, c.backing.map fun name => (addr, name)⟩

-- merge_bb makes the two one. Names are told apart by where they are, and no two are in one place.
def AddCall.Joins (bs : Nat) (a b : AddCall) : Prop :=
  u32 (a.block + a.len / bs) = b.block ∧
    sameBacking a.len (a.backing.map fun name => (0, name))
      (b.backing.map fun name => (1, name)) = true

instance (bs : Nat) : DecidableRel (AddCall.Joins bs) := fun _ _ => instDecidableAnd

def blocksOf (cs : List AddCall) : List BackedBlock := cs.mapIdx AddCall.blockAt

def queuedApart (bs : Nat) (cs : List AddCall) : BackedBlockList where
  dataBlocks := blocksOf cs
  lastUsed := if cs.length ≤ 1 then none else some (cs.length - 1)
  blockSize := bs
  fresh := cs.length

def queuedJoined (bs : Nat) (pre : List AddCall) (a b : AddCall) : BackedBlockList where
  dataBlocks := blocksOf pre ++ [{ a.blockAt pre.length with len := u32 (a.len + b.len) }]
  lastUsed := some (pre.length + 1)
  blockSize := bs
  fresh := pre.length + 2

section InOrder

variable {bs : Nat} {pre cs : List AddCall} {a c : AddCall}

theorem blocksOf_concat (cs : List AddCall) (c : AddCall) :
    blocksOf (cs ++ [c]) = blocksOf cs ++ [c.blockAt cs.length] := List.mapIdx_concat

@[simp] theorem length_blocksOf (cs : List AddCall) : (blocksOf cs).length = cs.length :=
  List.length_mapIdx

theorem mem_blocksOf {bb : BackedBlock} :
    bb ∈ blocksOf cs ↔ ∃ i, ∃ h : i < cs.length, (cs[i]).blockAt i = bb := List.mem_mapIdx

theorem call_of_mem_blocksOf {bb : BackedBlock} (h : bb ∈ blocksOf cs) :
    ∃ c ∈ cs, ∃ addr < cs.length, bb = c.blockAt addr := by
  obtain ⟨i, hi, rfl⟩ := mem_blocksOf.mp h
  exact ⟨cs[i], List.getElem_mem hi, i, hi, rfl⟩

theorem mem_blocksOf_of_mem (h : c ∈ cs) : ∃ addr < cs.length, c.blockAt addr ∈ blocksOf cs := by
  obtain ⟨i, hi, rfl⟩ := List.mem_iff_getElem.mp h
  exact ⟨i, hi, mem_blocksOf.mpr ⟨i, hi, rfl⟩⟩

theorem sorted_blocksOf (h : cs.Pairwise fun a b => a.block < b.block) :
    SortedBlocks (blocksOf cs) := by
  induction cs using List.reverseRecOn with
  | nil => exact .nil
  | append_singleton cs c ih =>
    obtain ⟨hcs, -, hlast⟩ := List.pairwise_append.mp h
    rw [blocksOf_concat]
    refine List.pairwise_append.mpr ⟨ih hcs, List.pairwise_singleton _ _, ?_⟩
    intro bb hbb bb' hbb'
    obtain ⟨d, hd, addr, -, rfl⟩ := call_of_mem_blocksOf hbb
    obtain rfl := List.mem_singleton.mp hbb'
    exact hlast d hd c (List.mem_singleton_self c)

theorem splitAt_last {l : List BackedBlock} {bb : BackedBlock} (h : ∀ x ∈ l, x.addr ≠ bb.addr) :
    splitAt bb.addr (l ++ [bb]) = some (l, bb, []) := by
  induction l with
  | nil => simp [splitAt]
  | cons x l ih =>
    have hne := h x List.mem_cons_self
    rw [List.cons_append, splitAt, if_neg hne, ih fun y hy => h y (List.mem_cons_of_mem x hy)]
    rfl

theorem mergeBb_calls {m n : Nat} (hne : m ≠ n) {l : List BackedBlock}
    (h : mergeBb bs (a.blockAt m) [c.blockAt n] = some l) :
    a.block < c.block ∧
      (¬ a.Joins bs c ∧ l = [a.blockAt m, c.blockAt n] ∨
        a.Joins bs c ∧ l = [{ a.blockAt m with len := u32 (a.len + c.len) }]) := by
  have hback : sameBacking a.len (a.blockAt m).backing (c.blockAt n).backing =
      sameBacking a.len (a.backing.map fun name => (0, name))
        (c.backing.map fun name => (1, name)) := by
    unfold AddCall.blockAt
    cases a <;> cases c <;> simp [AddCall.backing, Backing.map, sameBacking, hne, AddCall.len]
  have htype : sameType (a.blockAt m).backing (c.blockAt n).backing = false →
      sameBacking a.len (a.blockAt m).backing (c.blockAt n).backing = false := by
    unfold AddCall.blockAt
    cases a <;> cases c <;> simp [AddCall.backing, Backing.map, sameBacking, sameType]
  have hadjacent : u32 (a.block + a.len / bs) ≠ c.block → ¬ a.Joins bs c := fun h hj => h hj.1
  have hkept : ¬ a.Joins bs c → l = [a.blockAt m, c.blockAt n] →
      ¬ a.Joins bs c ∧ l = [a.blockAt m, c.blockAt n] ∨
        a.Joins bs c ∧ l = [{ a.blockAt m with len := u32 (a.len + c.len) }] := fun h h' =>
    .inl ⟨h, h'⟩
  rw [mergeBb] at h
  split at h
  · cases h
  rename_i hlt
  refine ⟨not_le.mp hlt, ?_⟩
  split at h
  · rename_i hdiff
    refine hkept (fun hj => ?_) (Option.some.inj h).symm
    rw [AddCall.Joins, ← hback, htype (eq_false_of_ne_true hdiff)] at hj
    exact Bool.false_ne_true hj.2
  split at h
  · cases h
  split at h
  · rename_i hfar
    exact hkept (hadjacent hfar) (Option.some.inj h).symm
  rename_i hnear
  split at h
  · rename_i hsame
    rw [show (a.blockAt m).len = a.len from rfl, hback] at hsame
    exact .inr ⟨⟨not_not.mp hnear, hsame⟩, (Option.some.inj h).symm⟩
  · rename_i hdiff
    rw [show (a.blockAt m).len = a.len from rfl, hback] at hdiff
    exact hkept (fun hj => hdiff hj.2) (Option.some.inj h).symm

theorem queueBb_behind {bbl bbl' : BackedBlockList} {l : List BackedBlock} {last new : BackedBlock}
    (hblocks : bbl.dataBlocks = l ++ [last]) (hsorted : SortedBlocks (l ++ [last]))
    (haddr : ∀ x ∈ l, x.addr ≠ last.addr)
    (hlast : bbl.lastUsed = if l = [] then none else some last.addr)
    (hle : last.block ≤ new.block) (h : queueBb bbl new = some bbl') :
    ∃ tail, mergeBb bbl.blockSize last [new] = some tail ∧
      bbl' = { bbl with dataBlocks := l ++ tail, lastUsed := some new.addr } := by
  have hend : insertFrom bbl.blockSize new last [] = mergeBb bbl.blockSize last [new] := rfl
  cases l with
  | nil =>
    rw [queueBb, hblocks] at h
    simp only [List.nil_append, if_neg (not_lt.mpr hle), searchStart, hlast, if_true, hend,
      Option.bind_eq_bind, Option.bind_some, Option.bind_eq_some_iff] at h
    obtain ⟨tail, htail, heq⟩ := h
    exact ⟨tail, htail, (Option.some.inj heq).symm⟩
  | cons first rest =>
    have hlt : first.block < last.block :=
      (List.pairwise_append.mp hsorted).2.2 first List.mem_cons_self last (List.mem_singleton_self last)
    have hfirst : ¬ new.block < first.block := by omega
    have hsplit : splitAt last.addr (first :: (rest ++ [last])) = some (first :: rest, last, []) :=
      splitAt_last haddr
    rw [queueBb, hblocks] at h
    rcases hle.lt_or_eq with hbehind | htaken
    · simp only [List.cons_append, if_neg hfirst, searchStart, hlast, reduceCtorEq, if_false, hsplit,
        Option.bind_eq_bind, Option.bind_some, if_pos hbehind, pure, hend,
        Option.bind_eq_some_iff] at h
      obtain ⟨tail, htail, heq⟩ := h
      exact ⟨tail, htail, (Option.some.inj heq).symm⟩
    · have hnone : insertFrom bbl.blockSize new first (rest ++ [last]) = none :=
        insertFrom_taken hsorted (not_lt.mp hfirst)
          (List.mem_append_right (first :: rest) (List.mem_singleton_self last)) htaken
      simp only [List.cons_append, if_neg hfirst, searchStart, hlast, reduceCtorEq, if_false, hsplit,
        Option.bind_eq_bind, Option.bind_some, htaken, lt_self_iff_false, pure, hnone,
        Option.bind_none] at h

theorem run_eq_queueBb (bbl : BackedBlockList) (c : AddCall) :
    c.run bbl = queueBb { bbl with fresh := bbl.fresh + 1 } (c.blockAt bbl.fresh) :=
  AddCall.run_eq bbl c

theorem queuedApart_two (bs : Nat) (cs : List AddCall) (a c : AddCall) :
    queuedApart bs (cs ++ [a] ++ [c]) = ⟨blocksOf cs ++ [a.blockAt cs.length,
      c.blockAt (cs.length + 1)], some (cs.length + 1), bs, cs.length + 2⟩ := by
  have hlen : (cs ++ [a]).length = cs.length + 1 := by simp
  have hlen' : (cs ++ [a] ++ [c]).length = cs.length + 1 + 1 := by simp
  have hlong : ¬ cs.length + 1 + 1 ≤ 1 := by omega
  rw [queuedApart, blocksOf_concat, blocksOf_concat, hlen', hlen, if_neg hlong, List.append_assoc]
  rfl

theorem run_queuedApart {bbl : BackedBlockList}
    (hsorted : (cs ++ [a]).Pairwise fun a b => a.block < b.block) (hle : a.block ≤ c.block)
    (h : c.run (queuedApart bs (cs ++ [a])) = some bbl) :
    a.block < c.block ∧
      (¬ a.Joins bs c ∧ bbl = queuedApart bs (cs ++ [a] ++ [c]) ∨
        a.Joins bs c ∧ bbl = queuedJoined bs cs a c) := by
  have hlen : (queuedApart bs (cs ++ [a])).fresh = cs.length + 1 := by
    rw [queuedApart, List.length_append, List.length_singleton]
  have hlast : (queuedApart bs (cs ++ [a])).lastUsed =
      if blocksOf cs = [] then none else some cs.length := by
    rw [queuedApart, List.length_append, List.length_singleton]
    cases cs with
    | nil => rfl
    | cons d cs =>
      rw [if_neg (by simp), if_neg]
      · rfl
      · exact List.ne_nil_of_length_eq_add_one (length_blocksOf _)
  rw [run_eq_queueBb, hlen] at h
  have haddr : ∀ x ∈ blocksOf cs, x.addr ≠ (a.blockAt cs.length).addr := by
    intro x hx
    obtain ⟨d, -, addr, haddr, rfl⟩ := call_of_mem_blocksOf hx
    exact haddr.ne
  obtain ⟨tail, htail, rfl⟩ := @queueBb_behind
    { queuedApart bs (cs ++ [a]) with fresh := cs.length + 1 + 1 } bbl (blocksOf cs)
    (a.blockAt cs.length) (c.blockAt (cs.length + 1)) (blocksOf_concat cs a)
    (blocksOf_concat cs a ▸ sorted_blocksOf hsorted) haddr hlast hle h
  obtain ⟨hlt, ⟨hapart, rfl⟩ | ⟨hjoins, rfl⟩⟩ := mergeBb_calls (Nat.ne_of_lt cs.length.lt_succ_self) htail
  · refine ⟨hlt, .inl ⟨hapart, ?_⟩⟩
    rw [queuedApart_two]
    rfl
  · exact ⟨hlt, .inr ⟨hjoins, rfl⟩⟩

theorem run_queuedJoined {d : AddCall} (hle : ∀ x ∈ cs ++ [a], x.block ≤ d.block) :
    d.run (queuedJoined bs cs a c) = none := by
  obtain ⟨first, l, hblocks⟩ : ∃ first l, (queuedJoined bs cs a c).dataBlocks = first :: l := by
    rw [queuedJoined]
    cases hcs : blocksOf cs with
    | nil => exact ⟨_, [], rfl⟩
    | cons first l => exact ⟨first, _, rfl⟩
  have hmem {x : BackedBlock} (hx : x ∈ first :: l) :
      (∃ e ∈ cs, ∃ addr < cs.length, x = e.blockAt addr) ∨
        x = { a.blockAt cs.length with len := u32 (a.len + c.len) } := by
    rw [← hblocks, queuedJoined] at hx
    rcases List.mem_append.mp hx with hx | hx
    · exact .inl (call_of_mem_blocksOf hx)
    · exact .inr (List.mem_singleton.mp hx)
  rw [run_eq_queueBb]
  refine queueBb_freed hblocks rfl (fun x hx => ?_) ?_
  · rcases hmem hx with ⟨e, -, addr, haddr, rfl⟩ | rfl
    · exact (haddr.trans cs.length.lt_succ_self).ne
    · exact Nat.ne_of_lt cs.length.lt_succ_self
  · rcases hmem List.mem_cons_self with ⟨e, he, addr, -, rfl⟩ | rfl
    · exact hle e (List.mem_append_left _ he)
    · exact hle a (List.mem_append_right _ (List.mem_singleton_self a))

inductive QueuedInOrder (bs : Nat) : List AddCall → BackedBlockList → Prop where
  | apart {cs : List AddCall} (hsorted : cs.Pairwise fun a b => a.block < b.block)
      (happart : cs.IsChain fun a b => ¬ a.Joins bs b) : QueuedInOrder bs cs (queuedApart bs cs)
  | joined {pre : List AddCall} {a b : AddCall}
      (hsorted : (pre ++ [a]).Pairwise fun a b => a.block < b.block)
      (happart : (pre ++ [a]).IsChain fun a b => ¬ a.Joins bs b) (hlt : a.block < b.block)
      (hjoins : a.Joins bs b) : QueuedInOrder bs (pre ++ [a] ++ [b]) (queuedJoined bs pre a b)

theorem addAll_concat (bbl : BackedBlockList) (cs : List AddCall) (c : AddCall) :
    addAll bbl (cs ++ [c]) = (addAll bbl cs).bind c.run := by
  rw [addAll, List.foldlM_append]
  simp only [List.foldlM_cons, List.foldlM_nil, bind_pure]
  rfl

theorem queuedInOrder_of_addAll {bbl : BackedBlockList}
    (hle : cs.Pairwise fun a b => a.block ≤ b.block)
    (h : addAll (backedBlockListNew bs) cs = some bbl) : QueuedInOrder bs cs bbl := by
  induction cs using List.reverseRecOn generalizing bbl with
  | nil =>
    obtain rfl := Option.some.inj h
    exact .apart .nil .nil
  | append_singleton cs c ih =>
    obtain ⟨hcs, -, hlast⟩ := List.pairwise_append.mp hle
    have hbehind : ∀ x ∈ cs, x.block ≤ c.block := fun x hx => hlast x hx c (List.mem_singleton_self c)
    rw [addAll_concat] at h
    obtain ⟨before, hbefore, hrun⟩ := Option.bind_eq_some_iff.mp h
    cases ih hcs hbefore with
    | joined hsorted happart hlt hjoins =>
      rw [run_queuedJoined fun x hx => hbehind x (List.mem_append_left _ hx)] at hrun
      cases hrun
    | apart hsorted happart =>
      rcases cs.eq_nil_or_concat with rfl | ⟨pre, a, rfl⟩
      · rw [run_eq_queueBb] at hrun
        obtain rfl := Option.some.inj hrun
        exact .apart (List.pairwise_singleton _ c) (.singleton c)
      rw [List.concat_eq_append] at *
      have ha : a ∈ pre ++ [a] := List.mem_append_right _ (List.mem_singleton_self a)
      obtain ⟨hlt, ⟨hkept, rfl⟩ | ⟨hjoins, rfl⟩⟩ := run_queuedApart hsorted (hbehind a ha) hrun
      · refine .apart (List.pairwise_append.mpr ⟨hsorted, List.pairwise_singleton _ c, ?_⟩) ?_
        · intro x hx y hy
          obtain rfl := List.mem_singleton.mp hy
          rcases List.mem_append.mp hx with hx | hx
          · exact ((List.pairwise_append.mp hsorted).2.2 x hx a (List.mem_singleton_self a)).trans hlt
          · rwa [List.mem_singleton.mp hx]
        · refine List.isChain_append.mpr ⟨happart, .singleton c, ?_⟩
          intro x hx y hy
          simp only [List.getLast?_append, List.getLast?_singleton, Option.some_or, List.head?_cons,
            Option.mem_some] at hx hy
          rw [← hx, ← hy]
          exact hkept
      · exact .joined hsorted happart hlt hjoins

theorem queueBb_isSome {bbl : BackedBlockList} {new : BackedBlock} (hbs : 0 < bbl.blockSize)
    (hs : SortedBlocks bbl.dataBlocks) (hall : ∀ x ∈ bbl.dataBlocks, x.block < new.block)
    (hlast : ∀ addr, bbl.lastUsed = some addr → ∃ bb ∈ bbl.dataBlocks, bb.addr = addr) :
    ∃ bbl', queueBb bbl new = some bbl' := by
  refine Option.isSome_iff_exists.mp ((queueBb_isSome_iff hs).mpr ⟨?_, fun _ => hlast, ?_⟩)
  · exact fun x hx => (hall x hx).ne
  · exact fun hzero => absurd hzero hbs.ne'

theorem run_queuedApart_isSome (hbs : 0 < bs) (hsorted : cs.Pairwise fun a b => a.block < b.block)
    (hlt : ∀ x ∈ cs, x.block < c.block) : ∃ bbl, c.run (queuedApart bs cs) = some bbl := by
  rw [run_eq_queueBb]
  refine queueBb_isSome hbs (sorted_blocksOf hsorted) (fun x hx => ?_) fun addr haddr => ?_
  · obtain ⟨d, hd, n, -, rfl⟩ := call_of_mem_blocksOf hx
    exact hlt d hd
  · have hlong : 1 < cs.length := by
      by_contra hshort
      rw [queuedApart] at haddr
      dsimp only at haddr
      rw [if_pos (by omega)] at haddr
      cases haddr
    rw [queuedApart] at haddr
    dsimp only at haddr
    rw [if_neg (by omega)] at haddr
    obtain rfl := Option.some.inj haddr
    exact ⟨_, mem_blocksOf.mpr ⟨cs.length - 1, by omega, rfl⟩, rfl⟩

theorem addAll_isSome_iff (hbs : 0 < bs) (hsorted : cs.Pairwise fun a b => a.block < b.block) :
    (∃ bbl, addAll (backedBlockListNew bs) cs = some bbl) ↔
      cs.dropLast.IsChain fun a b => ¬ a.Joins bs b := by
  have hle : cs.Pairwise fun a b => a.block ≤ b.block := hsorted.imp fun h => h.le
  constructor
  · rintro ⟨bbl, h⟩
    cases queuedInOrder_of_addAll hle h with
    | apart _ happart => exact happart.prefix (List.dropLast_prefix cs)
    | joined _ happart _ _ =>
      rw [List.dropLast_concat]
      exact happart
  · induction cs using List.reverseRecOn with
    | nil => exact fun _ => ⟨_, rfl⟩
    | append_singleton cs c ih =>
      intro happart
      rw [List.dropLast_concat] at happart
      obtain ⟨hcs, -, hlast⟩ := List.pairwise_append.mp hsorted
      have hbehind : ∀ x ∈ cs, x.block < c.block := fun x hx =>
        hlast x hx c (List.mem_singleton_self c)
      obtain ⟨before, hbefore⟩ := ih hcs (hcs.imp fun h => h.le)
        ( happart.prefix (List.dropLast_prefix cs))
      rw [addAll_concat, hbefore, Option.bind_some]
      cases queuedInOrder_of_addAll (hcs.imp fun h => h.le) hbefore with
      | apart => exact run_queuedApart_isSome hbs hcs hbehind
      | joined _ _ _ hjoins =>
        rw [List.append_assoc, List.singleton_append] at happart
        have hpair := (List.isChain_append.mp happart).2.1
        exact absurd hjoins (List.isChain_pair.mp hpair)

end InOrder

end MakeExt4fs

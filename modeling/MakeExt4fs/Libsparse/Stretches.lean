import MakeExt4fs.Libsparse.InOrder

namespace MakeExt4fs

open Words

structure Stretch where
  call : AddCall
  width : Nat

namespace Stretch

def Filled (bs : Nat) (bbl : BackedBlockList) (x : Stretch) : Prop :=
  ∀ i < x.width, ∃ bb ∈ bbl.dataBlocks,
    bb.sourceAt bs (x.call.block + i) = some (x.call.backing.advance (i * bs))

end Stretch

structure Laid (bs : Nat) (xs : List Stretch) : Prop where
  apart : xs.Pairwise fun x y => x.call.block + x.width ≤ y.call.block
  len_le : ∀ x ∈ xs, x.call.len ≤ x.width * bs
  len : ∀ x ∈ xs, x.call.len < 4294967296
  block : ∀ x ∈ xs, x.call.block < 4294967296

structure Lossless (bs : Nat) (xs : List Stretch) : Prop where
  whole : ∀ x ∈ xs, x.call.len = x.width * bs
  joined : (xs.map (·.call)).IsChain fun a b => a.Joins bs b → a.len + b.len < 4294967296

section Stretches

variable {bs n : Nat} {xs pre : List Stretch} {x y a b : Stretch} {bbl : BackedBlockList}

theorem Laid.width_le (h : Laid bs xs) (hx : x ∈ xs) : x.call.len / bs ≤ x.width :=
  Nat.div_le_of_le_mul (Nat.mul_comm bs _ ▸ h.len_le x hx)

theorem Laid.same (h : Laid bs xs) (hx : x ∈ xs) (hy : y ∈ xs)
    (hin : x.call.block ≤ n ∧ n < x.call.block + x.width)
    (hin' : y.call.block ≤ n ∧ n < y.call.block + y.width) : x = y := by
  obtain ⟨i, hi, rfl⟩ := List.mem_iff_getElem.mp hx
  obtain ⟨j, hj, rfl⟩ := List.mem_iff_getElem.mp hy
  have happart := List.pairwise_iff_getElem.mp h.apart
  rcases Nat.lt_trichotomy i j with hlt | rfl | hlt
  · have := happart i j hi hj hlt
    omega
  · rfl
  · have := happart j i hj hi hlt
    omega

theorem sourceAt_blockAt (addr : Nat) (c : AddCall) :
    (c.blockAt addr).sourceAt bs = c.sourceAt bs := by
  funext n
  have hmap : (c.backing.map fun name => (addr, name)).map Prod.snd = c.backing := by
    cases c <;> rfl
  rw [BackedBlock.sourceAt, AddCall.blockAt, hmap]
  rfl

theorem AddCall.Joins.backing {a b : AddCall} (h : a.Joins bs b) :
    b.backing = a.backing.advance a.len := by
  have hs := h.2
  cases a <;> cases b <;> simp only [AddCall.backing, Backing.map, sameBacking, Backing.advance,
    AddCall.len, Bool.false_eq_true, zero_ne_one, false_and, decide_false, decide_eq_true_eq] at hs ⊢
  · rw [hs]
  · obtain ⟨hfd, hoffset⟩ := of_decide_eq_true hs
    rw [hfd, hoffset]

theorem Laid.joins (h : Laid bs (pre ++ [a] ++ [b])) (hj : a.call.Joins bs b.call) :
    a.call.len = a.width * bs ∧ a.call.block + a.call.len / bs = b.call.block := by
  have ha : a ∈ pre ++ [a] ++ [b] := by simp
  have hb : b ∈ pre ++ [a] ++ [b] := by simp
  have happart : a.call.block + a.width ≤ b.call.block :=
    (List.pairwise_append.mp h.apart).2.2 a (by simp) b (by simp)
  have hwidth := h.width_le ha
  have hblock := h.block b hb
  have hend := hj.1
  rw [u32_of_lt (by omega)] at hend
  have hdiv : a.call.len / bs = a.width := by omega
  refine ⟨le_antisymm (h.len_le a ha) ?_, hend⟩
  rw [← hdiv]
  exact Nat.div_mul_le_self _ _

theorem QueuedInOrder.cases_map (hq : QueuedInOrder bs (xs.map (·.call)) bbl) :
    ((xs.map (·.call)).IsChain fun a b => ¬ a.Joins bs b) ∧
        bbl = queuedApart bs (xs.map (·.call)) ∨
      ∃ pre a b, xs = pre ++ [a] ++ [b] ∧
        (((pre ++ [a]).map (·.call)).IsChain fun a b => ¬ a.Joins bs b) ∧
        a.call.Joins bs b.call ∧ bbl = queuedJoined bs (pre.map (·.call)) a.call b.call := by
  generalize hcs : xs.map (·.call) = cs at hq
  cases hq with
  | apart hsorted happart => exact .inl ⟨happart, rfl⟩
  | joined hsorted happart hlt hjoins =>
    obtain ⟨front, back, rfl, hfront, hback⟩ := List.map_eq_append_iff.mp hcs
    obtain ⟨pre, mid, rfl, rfl, hmid⟩ := List.map_eq_append_iff.mp hfront
    obtain ⟨a, rfl, rfl⟩ := List.map_eq_singleton_iff.mp hmid
    obtain ⟨b, rfl, rfl⟩ := List.map_eq_singleton_iff.mp hback
    exact .inr ⟨pre, a, b, rfl, by rwa [List.map_append], hjoins, rfl⟩

theorem mem_queuedJoined {cs : List AddCall} {a b : AddCall} {bb : BackedBlock} :
    bb ∈ (queuedJoined bs cs a b).dataBlocks ↔
      bb ∈ blocksOf cs ∨ bb = { a.blockAt cs.length with len := u32 (a.len + b.len) } := by
  rw [queuedJoined, List.mem_append, List.mem_singleton]

theorem sourceAt_joined (addr len : Nat) (c : AddCall) :
    BackedBlock.sourceAt { c.blockAt addr with len } bs = rangeAt bs c.block len c.backing := by
  have hmap : (c.backing.map fun name => (addr, name)).map Prod.snd = c.backing := by
    cases c <;> rfl
  rw [BackedBlock.sourceAt, AddCall.blockAt, hmap]

theorem Laid.covered (h : Laid bs xs) (hq : QueuedInOrder bs (xs.map (·.call)) bbl)
    {bb : BackedBlock} {s : Backing (List UInt8)} (hbb : bb ∈ bbl.dataBlocks)
    (hs : bb.sourceAt bs n = some s) :
    ∃ x ∈ xs, x.call.block ≤ n ∧ n < x.call.block + x.call.len / bs := by
  have hcall {cs : List AddCall} (hmem : bb ∈ blocksOf cs) :
      ∃ c ∈ cs, c.block ≤ n ∧ n < c.block + c.len / bs := by
    obtain ⟨c, hc, addr, -, rfl⟩ := call_of_mem_blocksOf hmem
    rw [sourceAt_blockAt] at hs
    exact ⟨c, hc, (rangeAt_eq_some.mp hs).1⟩
  rcases hq.cases_map with ⟨-, rfl⟩ | ⟨pre, a, b, rfl, -, hj, rfl⟩
  · obtain ⟨c, hc, hin⟩ := hcall hbb
    obtain ⟨x, hx, rfl⟩ := List.mem_map.mp hc
    exact ⟨x, hx, hin⟩
  rcases mem_queuedJoined.mp hbb with hmem | rfl
  · obtain ⟨c, hc, hin⟩ := hcall hmem
    obtain ⟨x, hx, rfl⟩ := List.mem_map.mp hc
    exact ⟨x, by simp [hx], hin⟩
  · rw [sourceAt_joined] at hs
    obtain ⟨hlow, hhigh⟩ := (rangeAt_eq_some.mp hs).1
    obtain ⟨hwhole, hend⟩ := h.joins hj
    have hdiv : (a.call.len + b.call.len) / bs = a.call.len / bs + b.call.len / bs :=
      Nat.add_div_of_dvd_right (hwhole ▸ Nat.dvd_mul_left bs a.width)
    have hle : u32 (a.call.len + b.call.len) / bs ≤ (a.call.len + b.call.len) / bs :=
      Nat.div_le_div_right (Nat.mod_le _ _)
    rcases Nat.lt_or_ge n b.call.block with hlt | hge
    · exact ⟨a, by simp, hlow, by omega⟩
    · exact ⟨b, by simp, hge, by omega⟩

theorem Laid.whole_of_filled (h : Laid bs xs) (hbs : 0 < bs)
    (hq : QueuedInOrder bs (xs.map (·.call)) bbl) (hx : x ∈ xs) (hfilled : x.Filled bs bbl) :
    x.call.len = x.width * bs := by
  refine le_antisymm (h.len_le x hx) ?_
  rcases Nat.eq_zero_or_pos x.width with hzero | hpos
  · rw [hzero, Nat.zero_mul]
    exact Nat.zero_le _
  -- The last of its blocks is covered, and by its own call.
  obtain ⟨bb, hbb, hs⟩ := hfilled (x.width - 1) (by omega)
  obtain ⟨y, hy, hlow, hhigh⟩ := h.covered hq hbb hs
  have hwidth := h.width_le hy
  obtain rfl := h.same hx hy ⟨by omega, by omega⟩ ⟨hlow, by omega⟩
  have hdiv : x.width ≤ x.call.len / bs := by omega
  exact (Nat.le_div_iff_mul_le hbs).mp hdiv

theorem Laid.short_of_filled (h : Laid bs (pre ++ [a] ++ [b])) (hbs : 0 < bs) (hbs' : bs ≤ 4294967296)
    (hj : a.call.Joins bs b.call) (hwhole : b.call.len = b.width * bs)
    (hfilled : b.Filled bs (queuedJoined bs (pre.map (·.call)) a.call b.call)) :
    a.call.len + b.call.len < 4294967296 := by
  by_contra hlong
  have ha := h.len a (by simp)
  have hb := h.len b (by simp)
  obtain ⟨hawhole, hend⟩ := h.joins hj
  rw [hawhole, Nat.mul_div_cancel _ hbs] at hend
  have hpos : 0 < b.width := by
    by_contra hzero
    rw [Nat.eq_zero_of_not_pos hzero, Nat.zero_mul] at hwhole
    omega
  -- What is left of the two is too short for the last block of the second.
  have hsum : u32 (a.call.len + b.call.len) ≤ (a.width + b.width - 1) * bs := by
    have hwrap : u32 (a.call.len + b.call.len) = a.call.len + b.call.len - 4294967296 := by
      rw [u32, Nat.mod_eq_sub_mod (by omega), Nat.mod_eq_of_lt (by omega)]
    rw [hwrap, Nat.sub_mul, Nat.add_mul, Nat.one_mul, ← hawhole, ← hwhole]
    omega
  have hdiv : u32 (a.call.len + b.call.len) / bs ≤ a.width + b.width - 1 :=
    Nat.div_le_of_le_mul (Nat.mul_comm bs _ ▸ hsum)
  obtain ⟨bb, hbb, hs⟩ := hfilled (b.width - 1) (by omega)
  rcases mem_queuedJoined.mp hbb with hmem | rfl
  · obtain ⟨c, hc, addr, -, rfl⟩ := call_of_mem_blocksOf hmem
    obtain ⟨x, hx, rfl⟩ := List.mem_map.mp hc
    rw [sourceAt_blockAt] at hs
    have hin := (rangeAt_eq_some.mp hs).1
    have hxb := (List.pairwise_append.mp h.apart).2.2 x (by simp [hx]) b (by simp)
    have hwidth := h.width_le (show x ∈ pre ++ [a] ++ [b] by simp [hx])
    omega
  · rw [sourceAt_joined] at hs
    have hin := (rangeAt_eq_some.mp hs).1
    omega

theorem Lossless.short (h : Lossless bs (pre ++ [a] ++ [b])) (hj : a.call.Joins bs b.call) :
    a.call.len + b.call.len < 4294967296 := by
  have hjoined := h.joined
  rw [List.map_append] at hjoined
  exact (List.isChain_append.mp hjoined).2.2 a.call (by simp) b.call (by simp) hj

theorem sourceAt_whole (hbs : 0 < bs) (hwhole : x.call.len = x.width * bs) {i : Nat}
    (hi : i < x.width) : rangeAt bs x.call.block x.call.len x.call.backing (x.call.block + i) =
      some (x.call.backing.advance (i * bs)) := by
  rw [rangeAt_eq_some, hwhole, Nat.mul_div_cancel _ hbs, Nat.add_sub_cancel_left]
  exact ⟨⟨by omega, by omega⟩, rfl⟩

theorem Laid.filled_iff (h : Laid bs xs) (hbs : 0 < bs) (hbs' : bs ≤ 4294967296)
    (hq : QueuedInOrder bs (xs.map (·.call)) bbl) :
    (∀ x ∈ xs, x.Filled bs bbl) ↔ Lossless bs xs := by
  constructor
  · intro hfilled
    have hwhole : ∀ x ∈ xs, x.call.len = x.width * bs := fun x hx =>
      h.whole_of_filled hbs hq hx (hfilled x hx)
    refine ⟨hwhole, ?_⟩
    rcases hq.cases_map with ⟨happart, -⟩ | ⟨pre, a, b, rfl, happart, hj, rfl⟩
    · exact happart.imp fun _ _ hne hj => absurd hj hne
    · rw [List.map_append]
      refine List.isChain_append.mpr ⟨happart.imp fun _ _ hne hj => absurd hj hne, .singleton _, ?_⟩
      intro c hc d hd
      simp only [List.map_append, List.map_cons, List.map_nil, List.getLast?_append,
        List.getLast?_singleton, Option.some_or, List.head?_cons, Option.mem_some] at hc hd
      subst hc hd
      intro _
      exact h.short_of_filled hbs hbs' hj (hwhole b (by simp)) (hfilled b (by simp))
  · rintro ⟨hwhole, hjoined⟩ x hx i hi
    have hown {cs : List AddCall} (hmem : x.call ∈ cs) :
        ∃ bb ∈ blocksOf cs, bb.sourceAt bs (x.call.block + i) =
          some (x.call.backing.advance (i * bs)) := by
      obtain ⟨addr, -, hbb⟩ := mem_blocksOf_of_mem hmem
      refine ⟨_, hbb, ?_⟩
      rw [sourceAt_blockAt]
      exact sourceAt_whole hbs (hwhole x hx) hi
    rcases hq.cases_map with ⟨-, rfl⟩ | ⟨pre, a, b, rfl, -, hj, rfl⟩
    · exact hown (List.mem_map_of_mem hx)
    have hshort := Lossless.short ⟨hwhole, hjoined⟩ hj
    obtain ⟨hawhole, hend⟩ := h.joins hj
    have hdvd : bs ∣ a.call.len := hawhole ▸ Nat.dvd_mul_left bs a.width
    have happend {m : Nat} {s : Backing (List UInt8)} :
        rangeAt bs a.call.block (a.call.len + b.call.len) a.call.backing m = some s ↔
          rangeAt bs a.call.block a.call.len a.call.backing m = some s ∨
            rangeAt bs (a.call.block + a.call.len / bs) b.call.len
              (a.call.backing.advance a.call.len) m = some s := rangeAt_append hdvd hbs
    rcases List.mem_append.mp hx with hx' | hx'
    rcases List.mem_append.mp hx' with hx' | hx'
    · obtain ⟨bb, hbb, hs⟩ := hown (List.mem_map_of_mem hx')
      exact ⟨bb, mem_queuedJoined.mpr (.inl hbb), hs⟩
    all_goals
      refine ⟨_, mem_queuedJoined.mpr (.inr rfl), ?_⟩
      rw [sourceAt_joined, u32_of_lt hshort, happend]
    · obtain rfl := List.mem_singleton.mp hx'
      exact .inl (sourceAt_whole hbs hawhole hi)
    · obtain rfl := List.mem_singleton.mp hx'
      rw [hend, ← hj.backing]
      exact .inr (sourceAt_whole hbs (hwhole x hx) hi)

theorem Laid.below (h : Laid bs xs) (hq : QueuedInOrder bs (xs.map (·.call)) bbl)
    (hloss : Lossless bs xs) {total : Nat} (htotal : ∀ x ∈ xs, x.call.block + x.width ≤ total) :
    ∀ bb ∈ bbl.dataBlocks, bb.block + bb.len / bs ≤ total := by
  have hown {cs : List AddCall} (hcs : ∀ c ∈ cs, ∃ x ∈ xs, x.call = c) :
      ∀ bb ∈ blocksOf cs, bb.block + bb.len / bs ≤ total := by
    intro bb hbb
    obtain ⟨c, hc, addr, -, rfl⟩ := call_of_mem_blocksOf hbb
    obtain ⟨x, hx, rfl⟩ := hcs c hc
    exact (Nat.add_le_add_left (h.width_le hx) _).trans (htotal x hx)
  rcases hq.cases_map with ⟨-, rfl⟩ | ⟨pre, a, b, rfl, -, hj, rfl⟩
  · exact hown fun c hc => List.mem_map.mp hc
  intro bb hbb
  rcases mem_queuedJoined.mp hbb with hmem | rfl
  · refine hown (fun c hc => ?_) bb hmem
    obtain ⟨x, hx, rfl⟩ := List.mem_map.mp hc
    exact ⟨x, by simp [hx], rfl⟩
  · obtain ⟨hawhole, hend⟩ := h.joins hj
    have hdiv : (a.call.len + b.call.len) / bs = a.call.len / bs + b.call.len / bs :=
      Nat.add_div_of_dvd_right (hawhole ▸ Nat.dvd_mul_left bs a.width)
    have hb := htotal b (by simp)
    have hwidth := h.width_le (show b ∈ pre ++ [a] ++ [b] by simp)
    change a.call.block + u32 (a.call.len + b.call.len) / bs ≤ total
    rw [u32_of_lt (hloss.short hj), hdiv]
    omega

end Stretches

end MakeExt4fs

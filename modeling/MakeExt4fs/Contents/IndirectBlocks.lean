import MakeExt4fs.Contents.Indirect

namespace MakeExt4fs

open ErrorLog Words

def reserveIndirectBlock (force : Bool) (alloc : BlockAllocation) (len : Nat) :
    Build BlockAllocation := do
  let (alloc, r) ← Run.expect (reserveOobBlocks alloc 1)
  if r ≠ 0 then
    Run.raise force .failedToReserveOob
    return alloc
  else
    let (alloc, r) ← Run.expect (advanceBlocks alloc len)
    if r ≠ 0 then
      Run.raise force (.failedToAdvance len)
      return alloc
    else
      return alloc

-- The loop of reserve_dindirect_block and of reserve_tindirect_block: whatever becomes of one
-- child, the next one follows. It never ends where a child has no blocks.
def reserveChildren (perBlock : Nat) (below : BlockAllocation → Nat → Build BlockAllocation) :
    Nat → BlockAllocation → Nat → Build BlockAllocation
  | _, alloc, 0 => return alloc
  | 0, _, _ + 1 => Run.crash
  | fuel + 1, alloc, len + 1 => do
    let alloc ← below alloc (min perBlock (len + 1))
    reserveChildren perBlock below fuel alloc (len + 1 - min perBlock (len + 1))

def reserveWithChildren (force : Bool) (perBlock : Nat)
    (below : BlockAllocation → Nat → Build BlockAllocation) (alloc : BlockAllocation)
    (len : Nat) : Build BlockAllocation := do
  let (alloc, r) ← Run.expect (reserveOobBlocks alloc 1)
  if r ≠ 0 then
    Run.raise force .failedToReserveOob
    return alloc
  else
    reserveChildren perBlock below len alloc len

def reserveDindirectBlock (force : Bool) (alloc : BlockAllocation) (len : Nat) :
    Build BlockAllocation := do
  let fs ← Run.read
  reserveWithChildren force (s32 fs.aux.blocksPerInd).toNat (reserveIndirectBlock force) alloc len

def reserveTindirectBlock (force : Bool) (alloc : BlockAllocation) (len : Nat) :
    Build BlockAllocation := do
  let fs ← Run.read
  reserveWithChildren force (s32 fs.aux.blocksPerDind).toNat (reserveDindirectBlock force) alloc len

def reserveLevels (force : Bool) :
    List (Nat × (BlockAllocation → Nat → Build BlockAllocation)) → BlockAllocation → Nat →
      Build BlockAllocation
  | [], alloc, len => do
    Run.raise force (.blocksRemaining len)
    return alloc
  | (perBlock, reserve) :: rest, alloc, len => do
    let alloc ← reserve alloc (s32 (min perBlock len)).toNat
    if len - min perBlock len = 0 then
      return alloc
    else
      reserveLevels force rest alloc (len - min perBlock len)

-- Whether the direct blocks could be passed is not looked at.
def reserveAllIndirectBlocks (force : Bool) (alloc : BlockAllocation) (len : Nat) :
    Build BlockAllocation := do
  if len ≤ ext4NdirBlocks then
    return alloc
  else
    let fs ← Run.read
    let (alloc, _) ← Run.expect (advanceBlocks alloc ext4NdirBlocks)
    reserveLevels force
      [(fs.aux.blocksPerInd, reserveIndirectBlock force),
        (fs.aux.blocksPerDind, reserveDindirectBlock force),
        (fs.aux.blocksPerTind, reserveTindirectBlock force)] alloc (len - ext4NdirBlocks)

inductive Request where
  | reserve
  | advance (blocks : Nat)
  deriving DecidableEq, Repr

def Request.run (alloc : BlockAllocation) : Request → Option (BlockAllocation × Int)
  | .reserve => reserveOobBlocks alloc 1
  | .advance blocks => advanceBlocks alloc blocks

def Performs : List Request → BlockAllocation → BlockAllocation → Prop
  | [], alloc, alloc' => alloc' = alloc
  | q :: rest, alloc, alloc' => ∃ next, q.run alloc = some (next, 0) ∧ Performs rest next alloc'

def indirectRequests (len : Nat) : List Request := [.reserve, .advance len]

def childRequests (perBlock : Nat) (below : Nat → List Request) : Nat → Nat → List Request
  | 0, _ => []
  | fuel + 1, len =>
    if len = 0 then []
    else below (min perBlock len) ++ childRequests perBlock below fuel (len - min perBlock len)

def parentRequests (perBlock : Nat) (below : Nat → List Request) (len : Nat) : List Request :=
  .reserve :: childRequests perBlock below len len

def levelRequests : List (Nat × (Nat → List Request)) → Nat → List Request
  | [], _ => []
  | (perBlock, below) :: rest, len =>
    below (min perBlock len) ++
      if len - min perBlock len = 0 then [] else levelRequests rest (len - min perBlock len)

def allRequests (aux : FsAuxInfo) (len : Nat) : List Request :=
  if len ≤ ext4NdirBlocks then []
  else
    levelRequests
      [(aux.blocksPerInd, indirectRequests),
        (aux.blocksPerDind, parentRequests aux.blocksPerInd indirectRequests),
        (aux.blocksPerTind,
          parentRequests aux.blocksPerDind (parentRequests aux.blocksPerInd indirectRequests))]
      (len - ext4NdirBlocks)

theorem performs_append {xs ys : List Request} {a c : BlockAllocation} :
    Performs (xs ++ ys) a c ↔ ∃ b, Performs xs a b ∧ Performs ys b c := by
  induction xs generalizing a with
  | nil => exact ⟨fun h => ⟨a, rfl, h⟩, fun ⟨b, hb, h⟩ => by cases hb; exact h⟩
  | cons q rest ih =>
    constructor
    · rintro ⟨next, hq, h⟩
      obtain ⟨b, hrest, hys⟩ := ih.mp h
      exact ⟨b, ⟨next, hq, hrest⟩, hys⟩
    · rintro ⟨b, ⟨next, hq, hrest⟩, hys⟩
      exact ⟨next, hq, ih.mpr ⟨b, hrest, hys⟩⟩

structure Follows (aux : FsAuxInfo) (m : Build BlockAllocation) (reqs : List Request)
    (alloc : BlockAllocation) : Prop where
  keeps : ∀ fs, fs.aux = aux → ∀ l a st, m (fs, l) = .ok (a, st) → st.1 = fs
  quiet : ∀ fs, fs.aux = aux → ∀ l alloc',
    m (fs, l) = .ok (alloc', (fs, [])) ↔ l = [] ∧ Performs reqs alloc alloc'

section Following

variable {aux : FsAuxInfo} {alloc : BlockAllocation} {force : Bool}

theorem Follows.done (alloc : BlockAllocation) : Follows aux (pure alloc) [] alloc where
  keeps fs _ l a st h := by
    cases h
    rfl
  quiet fs _ l alloc' := by
    simp only [Run.pure_run, Except.ok.injEq, Prod.mk.injEq, true_and, Performs]
    exact ⟨fun ⟨ha, hl⟩ => ⟨hl, ha.symm⟩, fun ⟨hl, ha⟩ => ⟨ha.symm, hl⟩⟩

theorem Follows.bind {m : Build BlockAllocation} {k : BlockAllocation → Build BlockAllocation}
    {xs ys : List Request} (hm : Follows aux m xs alloc)
    (hk : ∀ next, Follows aux (k next) ys next) :
    Follows aux (m >>= k) (xs ++ ys) alloc where
  keeps fs hfs l a st h := by
    obtain ⟨next, ⟨fs1, l1⟩, h1, h2⟩ := Run.bind_ok.mp h
    obtain rfl : fs1 = fs := hm.keeps fs hfs l next _ h1
    exact (hk next).keeps fs1 hfs l1 a st h2
  quiet fs hfs l alloc' := by
    rw [Run.bind_ok, performs_append]
    constructor
    · rintro ⟨next, ⟨fs1, l1⟩, h1, h2⟩
      obtain rfl : fs1 = fs := hm.keeps fs hfs l next _ h1
      obtain ⟨rfl, hys⟩ := ((hk next).quiet fs1 hfs l1 alloc').mp h2
      obtain ⟨rfl, hxs⟩ := (hm.quiet fs1 hfs l next).mp h1
      exact ⟨rfl, next, hxs, hys⟩
    · rintro ⟨rfl, next, hxs, hys⟩
      exact ⟨next, (fs, []), (hm.quiet fs hfs [] next).mpr ⟨rfl, hxs⟩,
        ((hk next).quiet fs hfs [] alloc').mpr ⟨rfl, hys⟩⟩

theorem Follows.read {k : Fs → Build BlockAllocation} {reqs : List Request}
    (hk : ∀ fs, fs.aux = aux → Follows aux (k fs) reqs alloc) :
    Follows aux (Run.read >>= k) reqs alloc where
  keeps fs hfs l a st h := (hk fs hfs).keeps fs hfs l a st h
  quiet fs hfs l alloc' := (hk fs hfs).quiet fs hfs l alloc'

theorem Follows.call {q : Request} {reqs : List Request} {e : Ext4Error}
    {k : BlockAllocation → Build BlockAllocation} (hk : ∀ next, Follows aux (k next) reqs next) :
    Follows aux (do
      let (alloc, r) ← Run.expect (q.run alloc)
      if r ≠ 0 then
        Run.raise force e
        return alloc
      else
        k alloc) (q :: reqs) alloc where
  keeps fs hfs l a st h := by
    obtain ⟨⟨next, r⟩, ⟨fs1, l1⟩, h1, h2⟩ := Run.bind_ok.mp h
    obtain ⟨-, rfl, rfl⟩ := Run.expect_ok h1
    dsimp only at h2
    by_cases hr : r = 0
    · rw [if_neg (not_not.mpr hr)] at h2
      exact (hk next).keeps fs1 hfs l1 a st h2
    · rw [if_pos hr] at h2
      cases force
      · cases h2
      · cases h2
        rfl
  quiet fs hfs l alloc' := by
    constructor
    · intro h
      obtain ⟨⟨next, r⟩, ⟨fs1, l1⟩, h1, h2⟩ := Run.bind_ok.mp h
      obtain ⟨hrun, rfl, rfl⟩ := Run.expect_ok h1
      dsimp only at h2
      by_cases hr : r = 0
      · rw [if_neg (not_not.mpr hr)] at h2
        subst hr
        obtain ⟨rfl, hrest⟩ := ((hk next).quiet fs1 hfs l1 alloc').mp h2
        exact ⟨rfl, next, hrun, hrest⟩
      · rw [if_pos hr] at h2
        cases force
        · cases h2
        · simp [Run.bind_run, Run.raise] at h2
    · rintro ⟨rfl, next, hrun, hrest⟩
      rw [Run.bind_run, hrun]
      exact ((hk next).quiet fs hfs [] alloc').mpr ⟨rfl, hrest⟩

theorem reserveIndirectBlock_follows (alloc : BlockAllocation) (len : Nat) :
    Follows aux (reserveIndirectBlock force alloc len) (indirectRequests len) alloc :=
  Follows.call (q := .reserve) fun _ => Follows.call (q := .advance len) Follows.done

theorem reserveChildren_follows {perBlock : Nat}
    {below : BlockAllocation → Nat → Build BlockAllocation} {reqs : Nat → List Request}
    (hper : 0 < perBlock) (hbelow : ∀ alloc len, Follows aux (below alloc len) (reqs len) alloc)
    (fuel : Nat) (alloc : BlockAllocation) {len : Nat} (hlen : len ≤ fuel) :
    Follows aux (reserveChildren perBlock below fuel alloc len)
      (childRequests perBlock reqs fuel len) alloc := by
  induction fuel generalizing alloc len with
  | zero =>
    obtain rfl : len = 0 := by omega
    exact Follows.done alloc
  | succ fuel ih =>
    cases len with
    | zero => exact Follows.done alloc
    | succ len =>
      rw [childRequests, if_neg (Nat.succ_ne_zero len)]
      exact (hbelow alloc _).bind fun next => ih next (by omega)

theorem reserveWithChildren_follows {perBlock : Nat}
    {below : BlockAllocation → Nat → Build BlockAllocation} {reqs : Nat → List Request}
    (hper : 0 < perBlock) (hbelow : ∀ alloc len, Follows aux (below alloc len) (reqs len) alloc)
    (alloc : BlockAllocation) (len : Nat) :
    Follows aux (reserveWithChildren force perBlock below alloc len)
      (parentRequests perBlock reqs len) alloc :=
  Follows.call (q := .reserve) fun next => reserveChildren_follows hper hbelow len next le_rfl

theorem reserveDindirectBlock_follows (hind : 0 < aux.blocksPerInd)
    (hword : aux.blocksPerInd < 2147483648) (alloc : BlockAllocation) (len : Nat) :
    Follows aux (reserveDindirectBlock force alloc len)
      (parentRequests aux.blocksPerInd indirectRequests len) alloc := by
  apply Follows.read
  rintro fs rfl
  have hper : (s32 fs.aux.blocksPerInd).toNat = fs.aux.blocksPerInd := by
    rw [s32_of_lt hword, Int.toNat_natCast]
  rw [hper]
  exact reserveWithChildren_follows hind reserveIndirectBlock_follows alloc len

theorem reserveLevels_follows
    (levels : List ((Nat × (BlockAllocation → Nat → Build BlockAllocation)) ×
      (Nat → List Request)))
    (hlevels : ∀ c ∈ levels, c.1.1 < 2147483648 ∧
      ∀ alloc len, Follows aux (c.1.2 alloc len) (c.2 len) alloc)
    (alloc : BlockAllocation) {len : Nat} (hpos : 0 < len)
    (hlen : len ≤ (levels.map fun c => c.1.1).sum) :
    Follows aux (reserveLevels force (levels.map Prod.fst) alloc len)
      (levelRequests (levels.map fun c => (c.1.1, c.2)) len) alloc := by
  induction levels generalizing alloc len with
  | nil =>
    rw [List.map_nil, List.sum_nil] at hlen
    omega
  | cons c rest ih =>
    obtain ⟨⟨perBlock, reserve⟩, reqs⟩ := c
    rw [List.map_cons, List.sum_cons] at hlen
    obtain ⟨hword, hbelow⟩ := hlevels _ List.mem_cons_self
    dsimp only at hlen hword hbelow
    have hchild : (s32 (min perBlock len)).toNat = min perBlock len := by
      rw [s32_of_lt (by omega), Int.toNat_natCast]
    rw [List.map_cons, List.map_cons, reserveLevels, levelRequests, hchild]
    refine (hbelow alloc _).bind fun next => ?_
    split
    · exact Follows.done next
    · exact ih (fun d hd => hlevels d (List.mem_cons_of_mem _ hd)) next (by omega) (by omega)

theorem reserveTindirectBlock_follows (hind : 0 < aux.blocksPerInd) (hdind : 0 < aux.blocksPerDind)
    (hword : aux.blocksPerInd < 2147483648) (hdword : aux.blocksPerDind < 2147483648)
    (alloc : BlockAllocation) (len : Nat) :
    Follows aux (reserveTindirectBlock force alloc len)
      (parentRequests aux.blocksPerDind (parentRequests aux.blocksPerInd indirectRequests) len)
      alloc := by
  apply Follows.read
  rintro fs rfl
  have hper : (s32 fs.aux.blocksPerDind).toNat = fs.aux.blocksPerDind := by
    rw [s32_of_lt hdword, Int.toNat_natCast]
  rw [hper]
  exact reserveWithChildren_follows hdind (reserveDindirectBlock_follows hind hword) alloc len

theorem allLevels_follows (hind : 0 < aux.blocksPerInd) (hdind : 0 < aux.blocksPerDind)
    (hword : aux.blocksPerInd < 2147483648) (hdword : aux.blocksPerDind < 2147483648)
    (htword : aux.blocksPerTind < 2147483648) (alloc : BlockAllocation) {len : Nat}
    (hpos : 0 < len) (hlen : len ≤ aux.blocksPerInd + aux.blocksPerDind + aux.blocksPerTind) :
    Follows aux (reserveLevels force
      [(aux.blocksPerInd, reserveIndirectBlock force),
        (aux.blocksPerDind, reserveDindirectBlock force),
        (aux.blocksPerTind, reserveTindirectBlock force)] alloc len)
      (levelRequests
        [(aux.blocksPerInd, indirectRequests),
          (aux.blocksPerDind, parentRequests aux.blocksPerInd indirectRequests),
          (aux.blocksPerTind,
            parentRequests aux.blocksPerDind (parentRequests aux.blocksPerInd indirectRequests))]
        len) alloc := by
  refine reserveLevels_follows
    [((aux.blocksPerInd, reserveIndirectBlock force), indirectRequests),
      ((aux.blocksPerDind, reserveDindirectBlock force),
        parentRequests aux.blocksPerInd indirectRequests),
      ((aux.blocksPerTind, reserveTindirectBlock force),
        parentRequests aux.blocksPerDind
          (parentRequests aux.blocksPerInd indirectRequests))] ?_ alloc hpos (by simp; omega)
  simp only [List.forall_mem_cons, List.not_mem_nil, false_implies, implies_true, and_true]
  exact ⟨⟨hword, reserveIndirectBlock_follows⟩,
    ⟨hdword, reserveDindirectBlock_follows hind hword⟩,
    htword, reserveTindirectBlock_follows hind hdind hword hdword⟩

def passDirect (alloc : BlockAllocation) (len : Nat) : Option BlockAllocation :=
  if len ≤ ext4NdirBlocks then some alloc else (advanceBlocks alloc ext4NdirBlocks).map Prod.fst

theorem reserveAllIndirectBlocks_quiet {fs : Fs} {l : List Ext4Error} {len : Nat}
    {alloc' : BlockAllocation}
    (hind : 0 < fs.aux.blocksPerInd) (hdind : 0 < fs.aux.blocksPerDind)
    (hword : fs.aux.blocksPerInd < 2147483648) (hdword : fs.aux.blocksPerDind < 2147483648)
    (htword : fs.aux.blocksPerTind < 2147483648)
    (hlen : len ≤ ext4NdirBlocks + fs.aux.blocksPerInd + fs.aux.blocksPerDind +
      fs.aux.blocksPerTind) :
    reserveAllIndirectBlocks force alloc len (fs, l) = .ok (alloc', (fs, [])) ↔
      l = [] ∧ ∃ next, passDirect alloc len = some next ∧
        Performs (allRequests fs.aux len) next alloc' := by
  rw [reserveAllIndirectBlocks, passDirect, allRequests]
  split
  · simp only [Option.some.injEq, exists_eq_left']
    exact (Follows.done alloc).quiet fs rfl l alloc'
  · have hleft : 0 < len - ext4NdirBlocks := by omega
    have hlevels := fun next => @allLevels_follows _ force hind hdind hword hdword htword next _
      hleft (by omega)
    constructor
    · intro h
      obtain ⟨fs0, st0, hread, h⟩ := Run.bind_ok.mp h
      cases hread
      obtain ⟨⟨next, r⟩, ⟨fs1, l1⟩, h1, h2⟩ := Run.bind_ok.mp h
      obtain ⟨hrun, rfl, rfl⟩ := Run.expect_ok h1
      obtain ⟨rfl, hperforms⟩ := ((hlevels next).quiet fs1 rfl l1 alloc').mp h2
      exact ⟨rfl, next, by rw [hrun]; rfl, hperforms⟩
    · rintro ⟨rfl, next, hpass, hperforms⟩
      obtain ⟨⟨next', r⟩, hrun, rfl⟩ := Option.map_eq_some_iff.mp hpass
      refine Run.bind_ok.mpr ⟨fs, (fs, []), rfl, ?_⟩
      rw [Run.bind_run, hrun]
      exact ((hlevels next').quiet fs rfl [] alloc').mpr ⟨rfl, hperforms⟩

theorem reserveAllIndirectBlocks_keeps {fs : Fs} {l : List Ext4Error} {len : Nat}
    {st : Fs × List Ext4Error} {alloc' : BlockAllocation}
    (hind : 0 < fs.aux.blocksPerInd) (hdind : 0 < fs.aux.blocksPerDind)
    (hword : fs.aux.blocksPerInd < 2147483648) (hdword : fs.aux.blocksPerDind < 2147483648)
    (htword : fs.aux.blocksPerTind < 2147483648)
    (hlen : len ≤ ext4NdirBlocks + fs.aux.blocksPerInd + fs.aux.blocksPerDind +
      fs.aux.blocksPerTind)
    (h : reserveAllIndirectBlocks force alloc len (fs, l) = .ok (alloc', st)) : st.1 = fs := by
  rw [reserveAllIndirectBlocks] at h
  split at h
  · cases h
    rfl
  · obtain ⟨fs0, st0, hread, h⟩ := Run.bind_ok.mp h
    cases hread
    obtain ⟨⟨next, r⟩, ⟨fs1, l1⟩, h1, h2⟩ := Run.bind_ok.mp h
    obtain ⟨hrun, rfl, rfl⟩ := Run.expect_ok h1
    exact (allLevels_follows hind hdind hword hdword htword next (by omega) (by omega)).keeps fs1
      rfl _ _ _ h2

end Following

section Counting

variable {aux : FsAuxInfo} {l : List Ext4Error} {len n : Nat}

theorem divRoundUp_step {x y : Nat} (hx : 0 < x) (hy : 0 < y) :
    divRoundUp x y = 1 + divRoundUp (x - min y x) y := by
  rcases Nat.lt_or_ge y x with hlt | hge
  · have hsplit : x + y - 1 = (x - y + y - 1) + y := by omega
    rw [min_eq_left hlt.le, divRoundUp, divRoundUp, hsplit, Nat.add_div_right _ hy, Nat.add_comm]
  · have hzero : divRoundUp 0 y = 0 := by
      rw [divRoundUp, Nat.zero_add, Nat.div_eq_of_lt (by omega)]
    rw [min_eq_right hge, Nat.sub_self, hzero]
    exact divRoundUp_eq_of hy (by omega) (by omega)

theorem count_childRequests {perBlock : Nat} (hper : 0 < perBlock) (fuel : Nat)
    (hlen : len ≤ fuel) :
    (childRequests perBlock indirectRequests fuel len).count .reserve =
      divRoundUp len perBlock := by
  induction fuel generalizing len with
  | zero =>
    obtain rfl : len = 0 := by omega
    rw [divRoundUp, Nat.zero_add, Nat.div_eq_of_lt (by omega)]
    rfl
  | succ fuel ih =>
    rw [childRequests]
    split
    · subst_vars
      rw [divRoundUp, Nat.zero_add, Nat.div_eq_of_lt (by omega)]
      rfl
    · have hone : (indirectRequests (min perBlock len)).count .reserve = 1 := rfl
      rw [List.count_append, hone, ih (by omega), ← divRoundUp_step (by omega) hper]

theorem count_parentRequests {perBlock : Nat} (hper : 0 < perBlock) (len : Nat) :
    (parentRequests perBlock indirectRequests len).count .reserve =
      1 + divRoundUp len perBlock := by
  rw [parentRequests, List.count_cons_self, count_childRequests hper len le_rfl, Nat.add_comm]

theorem indirectBlocksNeeded_run (hind : aux.blocksPerInd = n) (hdind : aux.blocksPerDind = n * n)
    (hn : 0 < n) (hword : n + n * n + n * n < 4294967296)
    (hlen : len ≤ ext4NdirBlocks + n + n * n) :
    indirectBlocksNeeded len (aux, l) =
      .ok ((allRequests aux len).count .reserve, (aux, l)) := by
  have hsquare : n ≤ n * n := Nat.le_mul_of_pos_left n hn
  rw [indirectBlocksNeeded, allRequests, Run.bind_run, Run.read_run]
  dsimp only
  split
  · rfl
  · have hleft : 0 < len - ext4NdirBlocks := by omega
    have hbound : len - ext4NdirBlocks ≤ n + n * n := by omega
    generalize len - ext4NdirBlocks = left at hleft hbound
    have hround : divRoundUp left n ≤ left :=
      (divRoundUp_le_iff hn).mpr (Nat.le_mul_of_pos_right left hn)
    have hfirst : u32 (0 + divRoundUp32 left n) = divRoundUp left n := by
      rw [divRoundUp32_eq (by omega), Nat.zero_add, u32_of_lt (by omega)]
    rw [hind, hdind, blocksNeeded, if_neg (by omega), hfirst, levelRequests, List.count_append,
      show (indirectRequests (min n left)).count .reserve = 1 from rfl]
    rcases Nat.lt_or_ge n left with hlong | hshort
    · have hsecond : divRoundUp32 (left - n) (n * n) = 1 := by
        rw [divRoundUp32_eq (by omega)]
        exact divRoundUp_eq_of (by omega) (by omega) (by omega)
      have hstep := divRoundUp_step hleft hn
      rw [min_eq_left hlong.le] at hstep ⊢
      rw [if_neg (by omega), if_neg (by omega), blocksNeeded, if_neg (by omega), hsecond,
        if_pos (show left - n ≤ n * n by omega), levelRequests,
        min_eq_right (show left - n ≤ n * n by omega), Nat.sub_self, if_pos rfl, List.append_nil,
        count_parentRequests hn, u32_of_lt (by omega), Run.pure_run, hstep]
      congr 2
      omega
    · have hone : divRoundUp left n = 1 := divRoundUp_eq_of hn (by omega) (by omega)
      rw [if_pos hshort, min_eq_right hshort, Nat.sub_self, if_pos rfl, hone]
      rfl

theorem indirectBlocksNeeded_crash (hind : aux.blocksPerInd = n) (hdind : aux.blocksPerDind = n * n)
    (htind : aux.blocksPerTind = 0) (hlen : ext4NdirBlocks + n + n * n < len) :
    indirectBlocksNeeded len (aux, l) = .error .crash := by
  rw [indirectBlocksNeeded, Run.bind_run, Run.read_run]
  dsimp only
  rw [if_neg (by omega), hind, hdind, htind, blocksNeeded]
  split
  · rfl
  · rw [if_neg (by omega), blocksNeeded]
    split
    · rfl
    · rw [if_neg (by omega), blocksNeeded, if_pos rfl]
      rfl

end Counting

def CountsIndirect (aux : FsAuxInfo) (len : Nat) : Prop :=
  ∃ v, (∀ l, indirectBlocksNeeded len (aux, l) = .ok (v, (aux, l))) ∧
    (allRequests aux len).count .reserve = v ∧
    ∀ force alloc fs, fs.aux = aux → ∀ l alloc',
      reserveAllIndirectBlocks force alloc len (fs, l) = .ok (alloc', (fs, [])) ↔
        l = [] ∧ ∃ next, passDirect alloc len = some next ∧
          Performs (allRequests aux len) next alloc'

theorem levels_of_blockSize {info : FsInfo} {aux : FsAuxInfo}
    (hsize : info.blockSize.val = 1024 ∨ info.blockSize.val = 2048 ∨ info.blockSize.val = 4096)
    (haux : ext4InitFsAuxInfo info = some aux) :
    aux.blocksPerInd = info.blockSize.val / 4 ∧
      aux.blocksPerDind = info.blockSize.val / 4 * (info.blockSize.val / 4) ∧
      aux.blocksPerTind = 0 := by
  unfold ext4InitFsAuxInfo at haux
  split at haux
  · cases haux
  · simp only [Option.some.injEq] at haux
    subst haux
    rcases hsize with h | h | h <;> simp only [h] <;> decide

theorem countsIndirect_iff {info : FsInfo} {aux : FsAuxInfo} (len : Nat)
    (hsize : info.blockSize.val = 1024 ∨ info.blockSize.val = 2048 ∨ info.blockSize.val = 4096)
    (haux : ext4InitFsAuxInfo info = some aux) :
    CountsIndirect aux len ↔
      len ≤ ext4NdirBlocks + info.blockSize.val / 4 +
        info.blockSize.val / 4 * (info.blockSize.val / 4) := by
  obtain ⟨hind, hdind, htind⟩ := levels_of_blockSize hsize haux
  have hrange : 0 < info.blockSize.val / 4 ∧
      info.blockSize.val / 4 * (info.blockSize.val / 4) ≤ 1048576 ∧
      0 < info.blockSize.val / 4 * (info.blockSize.val / 4) ∧ info.blockSize.val / 4 ≤ 1024 := by
    rcases hsize with h | h | h <;> rw [h] <;> decide
  constructor
  · rintro ⟨v, hneeded, -⟩
    by_contra hlen
    have hcrash := indirectBlocksNeeded_crash (l := []) hind hdind htind (not_le.mp hlen)
    rw [hneeded []] at hcrash
    cases hcrash
  · intro hlen
    refine ⟨_, fun l => indirectBlocksNeeded_run hind hdind hrange.1 (by omega) hlen, rfl, ?_⟩
    rintro force alloc fs rfl l alloc'
    exact reserveAllIndirectBlocks_quiet (by omega) (by omega) (by omega) (by omega) (by omega)
      (by omega)

theorem countsIndirect_iff_of_small :
    CountsIndirect smallAux 5000 ↔ 5000 ≤ ext4NdirBlocks + 4096 / 4 + 4096 / 4 * (4096 / 4) :=
  @countsIndirect_iff smallInfo _ 5000 (Or.inr (Or.inr rfl)) rfl

-- With the first block that needs a triple-indirect block.
theorem triple_indirect_divides_by_zero : ext4InitFsAuxInfo smallInfo = some smallAux ∧
    (∀ l, indirectBlocksNeeded 1049613 (smallAux, l) = .error .crash) ∧
    ¬ CountsIndirect smallAux 1049613 := by
  have hcrash (l : List Ext4Error) : indirectBlocksNeeded 1049613 (smallAux, l) = .error .crash :=
    indirectBlocksNeeded_crash (n := 1024) rfl rfl rfl (by decide)
  refine ⟨rfl, hcrash, ?_⟩
  rintro ⟨v, hneeded, -⟩
  have hrun := hneeded []
  rw [hcrash []] at hrun
  cases hrun

end MakeExt4fs

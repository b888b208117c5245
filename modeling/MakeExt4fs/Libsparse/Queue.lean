import MakeExt4fs.Libsparse.BackedBlock

namespace MakeExt4fs

open Words

section Search

variable {bs : Nat} {new bb first : BackedBlock} {pre post rest l : List BackedBlock}

abbrev SortedBlocks (l : List BackedBlock) : Prop := l.Pairwise (fun a b => a.block < b.block)

theorem insertFrom_spec (bs : Nat) (new : BackedBlock) (hs : SortedBlocks (bb :: post)) (hlt : bb.block < new.block) :
    ∃ lo a hi, bb :: post = lo ++ a :: hi ∧ (∀ x ∈ lo, x.block < new.block) ∧
      a.block < new.block ∧ (∀ x ∈ hi, new.block ≤ x.block) ∧
      insertFrom bs new bb post = (do
        let tail ← mergeBb bs a (← mergeBb bs new hi)
        return lo ++ tail) := by
  induction post generalizing bb with
  | nil =>
    refine ⟨[], bb, [], rfl, by simp, hlt, by simp, ?_⟩
    simp [insertFrom]
  | cons next rest ih =>
    rw [insertFrom]
    split
    · rename_i hnext
      obtain ⟨lo, a, hi, heq, hlo, ha, hhi, hrun⟩ := ih hs.of_cons hnext
      refine ⟨bb :: lo, a, hi, by rw [heq, List.cons_append], ?_, ha, hhi, ?_⟩
      · intro x hx
        rcases List.mem_cons.mp hx with rfl | hx
        · exact hlt
        · exact hlo x hx
      · rw [hrun]
        simp only [bind_assoc, pure_bind, List.cons_append]
    · rename_i hnext
      refine ⟨[], bb, next :: rest, rfl, by simp, hlt, ?_, by simp⟩
      intro x hx
      rcases List.mem_cons.mp hx with rfl | hx
      · omega
      · have := List.rel_of_pairwise_cons (List.Pairwise.of_cons hs) hx
        omega

theorem insertFrom_append (hs : SortedBlocks (first :: rest))
    (heq : first :: rest = pre ++ bb :: post) (hlt : bb.block < new.block) :
    insertFrom bs new first rest = (insertFrom bs new bb post).map (pre ++ ·) := by
  induction pre generalizing first rest with
  | nil =>
    obtain ⟨rfl, rfl⟩ := List.cons.inj heq
    simp
  | cons x pre ih =>
    simp only [List.cons_append, List.cons.injEq] at heq
    obtain ⟨rfl, rfl⟩ := heq
    obtain ⟨y, tail, hy⟩ : ∃ y tail, pre ++ bb :: post = y :: tail := by
      cases pre with
      | nil => exact ⟨bb, post, rfl⟩
      | cons y pre => exact ⟨y, pre ++ bb :: post, rfl⟩
    have hnext : y.block < new.block := by
      have hmem : bb ∈ y :: tail := by
        rw [← hy]
        simp
      rcases List.mem_cons.mp hmem with rfl | hmem
      · exact hlt
      · rw [hy] at hs
        have := List.rel_of_pairwise_cons (List.Pairwise.of_cons hs) hmem
        omega
    rw [hy] at hs ⊢
    rw [insertFrom, if_pos hnext, ih hs.of_cons hy.symm]
    cases insertFrom bs new bb post <;> rfl

theorem splitAt_spec {addr : Nat} (h : ∃ x ∈ l, x.addr = addr) :
    ∃ pre bb post, splitAt addr l = some (pre, bb, post) ∧ l = pre ++ bb :: post := by
  induction l with
  | nil => simp at h
  | cons x rest ih =>
    rw [splitAt]
    split
    · exact ⟨[], x, rest, rfl, rfl⟩
    · rename_i hne
      obtain ⟨y, hy, haddr⟩ := h
      have hrest : y ∈ rest := by
        rcases List.mem_cons.mp hy with rfl | hy
        · exact absurd haddr hne
        · exact hy
      obtain ⟨pre, bb, post, hsplit, heq⟩ := ih ⟨y, hrest, haddr⟩
      exact ⟨x :: pre, bb, post, by rw [hsplit]; rfl, by rw [heq, List.cons_append]⟩

variable {bbl : BackedBlockList}

theorem searchStart_run (bs : Nat) (new : BackedBlock) (hs : SortedBlocks bbl.dataBlocks) (heq : bbl.dataBlocks = first :: rest)
    (hlast : ∀ addr, bbl.lastUsed = some addr → ∃ bb ∈ bbl.dataBlocks, bb.addr = addr) :
    ∃ pre bb post, searchStart bbl new first rest = some (pre, bb, post) ∧
      insertFrom bs new first rest = (insertFrom bs new bb post).map (pre ++ ·) := by
  have hhead : insertFrom bs new first rest =
      (insertFrom bs new first rest).map (([] : List BackedBlock) ++ ·) := by simp
  cases hu : bbl.lastUsed with
  | none => exact ⟨[], first, rest, by rw [searchStart, hu], hhead⟩
  | some addr =>
    obtain ⟨pre, bb, post, hsplit, hparts⟩ := splitAt_spec (hlast addr hu)
    rw [heq] at hsplit hparts hs
    by_cases hlt : bb.block < new.block
    · refine ⟨pre, bb, post, ?_, insertFrom_append hs hparts hlt⟩
      simp only [searchStart, hu, hsplit, Option.bind_eq_bind, Option.bind_some, if_pos hlt]
      rfl
    · refine ⟨[], first, rest, ?_, hhead⟩
      simp only [searchStart, hu, hsplit, Option.bind_eq_bind, Option.bind_some, if_neg hlt]
      rfl

theorem queueBb_first (bbl : BackedBlockList) (heq : bbl.dataBlocks = first :: rest)
    (hlt : new.block < first.block) :
    queueBb bbl new = some { bbl with dataBlocks := new :: first :: rest } := by
  simp only [queueBb, heq, if_pos hlt]

theorem queueBb_fromHead (bbl : BackedBlockList) (new : BackedBlock)
    (hs : SortedBlocks bbl.dataBlocks) (heq : bbl.dataBlocks = first :: rest)
    (hge : ¬ new.block < first.block) (hlast : ∀ addr, bbl.lastUsed = some addr →
      ∃ bb ∈ bbl.dataBlocks, bb.addr = addr) :
    queueBb bbl new = (insertFrom bbl.blockSize new first rest).map fun blocks =>
      { bbl with dataBlocks := blocks, lastUsed := some new.addr } := by
  obtain ⟨pre, bb, post, hstart, hins⟩ :=
    searchStart_run bbl.blockSize new hs heq hlast
  rw [queueBb, heq]
  simp only [if_neg hge, hstart, hins, Option.bind_eq_bind, Option.bind_some]
  cases insertFrom bbl.blockSize new bb post <;> rfl

end Search

section Calls

-- One call of a backed_block_add function.
inductive AddCall where
  | data (data len block : Nat)
  | fill (fillVal len block : Nat)
  | file (filename : List UInt8) (offset : Int) (len block : Nat)
  | fd (fd offset : Int) (len block : Nat)
  deriving DecidableEq, Repr

namespace AddCall

def run (bbl : BackedBlockList) : AddCall → Option BackedBlockList
  | data p len block => backedBlockAddData bbl p len block
  | fill val len block => backedBlockAddFill bbl val len block
  | file name offset len block => backedBlockAddFile bbl name offset len block
  | fd n offset len block => backedBlockAddFd bbl n offset len block

def backing : AddCall → Backing (List UInt8)
  | data p _ _ => .data p
  | fill val _ _ => .fill val
  | file name offset _ _ => .file name offset
  | fd n offset _ _ => .fd n offset

def len : AddCall → Nat
  | data _ n _ => n
  | fill _ n _ => n
  | file _ _ n _ => n
  | fd _ _ n _ => n

def block : AddCall → Nat
  | data _ _ b => b
  | fill _ _ b => b
  | file _ _ _ b => b
  | fd _ _ _ b => b

theorem run_eq (bbl : BackedBlockList) (c : AddCall) :
    c.run bbl = addBb bbl c.backing c.len c.block := by
  cases c <;> rfl

def newBlock (c : AddCall) (bbl : BackedBlockList) : BackedBlock :=
  newBb bbl c.backing c.len c.block

structure Fits (blockSize : Nat) (c : AddCall) : Prop where
  pos : 0 < c.len
  blocks : blockSize ∣ c.len
  len : c.len < 4294967296
  block : c.block < 4294967296

def Apart (blockSize : Nat) (c d : AddCall) : Prop :=
  c.block + c.len / blockSize ≤ d.block ∨ d.block + d.len / blockSize ≤ c.block

instance (blockSize : Nat) (c : AddCall) : Decidable (c.Fits blockSize) :=
  decidable_of_iff (0 < c.len ∧ blockSize ∣ c.len ∧ c.len < 4294967296 ∧ c.block < 4294967296)
    ⟨fun ⟨h1, h2, h3, h4⟩ => ⟨h1, h2, h3, h4⟩, fun h => ⟨h.pos, h.blocks, h.len, h.block⟩⟩

instance (blockSize : Nat) : DecidableRel (Apart blockSize) := fun c d =>
  inferInstanceAs (Decidable (c.block + c.len / blockSize ≤ d.block ∨
    d.block + d.len / blockSize ≤ c.block))

end AddCall

def addAll (bbl : BackedBlockList) (calls : List AddCall) : Option BackedBlockList :=
  calls.foldlM AddCall.run bbl

def rangeAt (blockSize block len : Nat) (backing : Backing (List UInt8)) (n : Nat) :
    Option (Backing (List UInt8)) :=
  if block ≤ n ∧ n < block + len / blockSize then
    some (backing.advance ((n - block) * blockSize))
  else
    none

def BackedBlock.sourceAt (bb : BackedBlock) (blockSize : Nat) : Nat → Option (Backing (List UInt8)) :=
  rangeAt blockSize bb.block bb.len (bb.backing.map Prod.snd)

def AddCall.sourceAt (c : AddCall) (blockSize : Nat) : Nat → Option (Backing (List UInt8)) :=
  rangeAt blockSize c.block c.len c.backing

structure Queued (bbl : BackedBlockList) (calls : List AddCall) : Prop where
  sorted : SortedBlocks bbl.dataBlocks
  lastUsed : ∀ addr, bbl.lastUsed = some addr → ∃ bb ∈ bbl.dataBlocks, bb.addr = addr
  search : ∀ c : AddCall, (c.run bbl).map (·.dataBlocks) =
    (c.run { bbl with lastUsed := none }).map (·.dataBlocks)
  image : ∀ n s, (∃ bb ∈ bbl.dataBlocks, bb.sourceAt bbl.blockSize n = some s) ↔
    ∃ c ∈ calls, c.sourceAt bbl.blockSize n = some s

def Merges (blockSize : Nat) (a b : BackedBlock) : Prop :=
  a.block + a.len / blockSize = b.block ∧ sameBacking a.len a.backing b.backing = true

-- The new block is not merged into the one before it, and what it is merged with leaves the sum
-- of the lengths in 32 bits.
structure KeepsNew (bbl : BackedBlockList) (new : BackedBlock) : Prop where
  before : ∀ a ∈ bbl.dataBlocks, ¬ Merges bbl.blockSize a new
  after : ∀ b ∈ bbl.dataBlocks, Merges bbl.blockSize new b →
    (∃ a ∈ bbl.dataBlocks, a.block < new.block) → new.len + b.len < 4294967296

end Calls

section Ranges

variable {bs block len n : Nat} {s t : Backing (List UInt8)}

theorem rangeAt_eq_some : rangeAt bs block len s n = some t ↔
    (block ≤ n ∧ n < block + len / bs) ∧ s.advance ((n - block) * bs) = t := by
  unfold rangeAt
  split <;> simp_all

theorem rangeAt_append {m : Nat} (hdvd : bs ∣ len) (hpos : 0 < bs) :
    rangeAt bs block (len + m) s n = some t ↔ rangeAt bs block len s n = some t ∨
      rangeAt bs (block + len / bs) m (s.advance len) n = some t := by
  have hdiv : (len + m) / bs = len / bs + m / bs := Nat.add_div_of_dvd_right hdvd
  obtain ⟨q, rfl⟩ := hdvd
  have hq : bs * q / bs = q := Nat.mul_div_cancel_left q hpos
  have hsplit (hle : block + q ≤ n) : (n - block) * bs = bs * q + (n - (block + q)) * bs := by
    rw [Nat.mul_comm bs q, ← Nat.add_mul]
    congr 1
    omega
  simp only [rangeAt_eq_some, hdiv, hq, Backing.advance_add]
  generalize m / bs = r
  constructor
  · rintro ⟨hin, hs⟩
    rcases Nat.lt_or_ge n (block + q) with hlt | hge
    · exact Or.inl ⟨by omega, hs⟩
    · exact Or.inr ⟨by omega, hsplit hge ▸ hs⟩
  · rintro (⟨hin, hs⟩ | ⟨hin, hs⟩)
    · exact ⟨by omega, hs⟩
    · exact ⟨by omega, (hsplit hin.1).symm ▸ hs⟩

end Ranges

section Merge

variable {bs : Nat} {a b new : BackedBlock} {l : List BackedBlock}

theorem mergeBb_kept (hbs : 0 < bs) (hlt : a.block < b.block)
    (hend : a.block + a.len / bs ≤ b.block) (hword : b.block < 4294967296)
    (hm : ¬ Merges bs a b) : mergeBb bs a (b :: l) = some (a :: b :: l) := by
  have hu : u32 (a.block + a.len / bs) = a.block + a.len / bs := u32_of_lt (by omega)
  rw [mergeBb, if_neg (by omega)]
  split
  · rfl
  · rw [if_neg (by omega)]
    split
    · rfl
    · rename_i hadj
      rw [hu, ne_eq, not_not] at hadj
      rw [if_neg fun hs => hm ⟨hadj, hs⟩]

theorem sameType_of_sameBacking {len : Nat} {s t : Backing (Nat × List UInt8)}
    (h : sameBacking len s t = true) : sameType s t = true := by
  cases s <;> cases t <;> simp_all [sameBacking, sameType]

theorem mergeBb_merged (hbs : 0 < bs) (hlt : a.block < b.block) (hword : b.block < 4294967296)
    (hm : Merges bs a b) :
    mergeBb bs a (b :: l) = some ({ a with len := u32 (a.len + b.len) } :: l) := by
  have hu : u32 (a.block + a.len / bs) = b.block := by rw [hm.1, u32_of_lt hword]
  rw [mergeBb, if_neg (by omega), if_neg (not_not.mpr (sameType_of_sameBacking hm.2)),
    if_neg (by omega), if_neg (not_not.mpr hu), if_pos hm.2]

end Merge

end MakeExt4fs

import MakeExt4fs.Contents.Resize
import MakeExt4fs.Utils.Backups

namespace MakeExt4fs

open ErrorLog Words

section Chains

variable {len : Nat} {ps : List Piece}

theorem locate_linkedCells (hlen : ∀ p ∈ ps, p.len = len) (n : Nat)
    (prev : Option Nat) {b : Nat} (hb : b < ps.length * len) :
    locate (linkedCells n prev ps) b = (some (n + b / len), b % len) := by
  induction ps generalizing n prev b with
  | nil => simp at hb
  | cons p rest ih =>
    have hp := hlen p (by simp)
    rw [List.length_cons, Nat.succ_mul] at hb
    rw [linkedCells, locate]
    simp only [hp]
    split
    · rename_i hlt
      rw [Nat.div_eq_of_lt hlt, Nat.mod_eq_of_lt hlt, Nat.add_zero]
    · rename_i hge
      have hpos : 0 < len := by
        rcases Nat.eq_zero_or_pos len with h0 | hpos
        · rw [h0, Nat.mul_zero] at hb
          omega
        · exact hpos
      have hdiv := Nat.div_eq_sub_div hpos (show len ≤ b by omega)
      have hmod := Nat.mod_eq_sub_mod (show b ≥ len by omega)
      rw [ih (fun q hq => hlen q (by simp [hq])) _ _ (by omega), hdiv, hmod]
      congr 2
      omega

def nthBlock (ps : List Piece) (j r : Nat) : Nat := u32 ((ps.map Piece.block).getD j 0 + r)

theorem getBlock_uniform {alloc : BlockAllocation} {c : Arena Region}
    (hlen : ∀ p ∈ ps, p.len = len) (hlist : alloc.list = (linkedAlloc ps).list)
    (hcells : alloc.regions = linkPieces 0 none ps ++ c) {j r : Nat} (hj : j < ps.length)
    (hr : r < len) (hword : ps.length * len ≤ 4294967296) :
    getBlock alloc (u32 (j * len + r)) = some (nthBlock ps j r) := by
  have hmul := Nat.mul_le_mul_right len (show j + 1 ≤ ps.length from hj)
  rw [Nat.succ_mul] at hmul
  have hlt : j * len + r < ps.length * len := by omega
  have hchain := chain_linkPieces [] none ps c
  have hiter : headOf 0 ps = some 0 := by
    cases ps with
    | nil => simp at hj
    | cons p rest => rfl
  have hdiv : (j * len + r) / len = j := by
    rw [Nat.mul_comm, Nat.mul_add_div (by omega), Nat.div_eq_of_lt hr, Nat.add_zero]
  have hmod : (j * len + r) % len = r := by
    rw [Nat.mul_comm, Nat.mul_add_mod, Nat.mod_eq_of_lt hr]
  have hseek : seek alloc.regions alloc.regions.length (some 0) (j * len + r) =
      some (some j, r) := by
    rw [hcells]
    simp only [List.nil_append, List.length_nil, hiter] at hchain
    rw [seek_of_chain hchain (by simp), locate_linkedCells hlen 0 none hlt, hdiv, hmod,
      Nat.zero_add]
  have hcell : alloc.regions.look (some j) = some (linkedRegion 0 none ps j ps[j]) := by
    rw [Arena.look_eq_some, hcells, List.getElem?_append_left (by simpa using hj),
      getElem?_linkPieces, List.getElem?_eq_getElem hj]
    rfl
  have hblock : (ps.map Piece.block).getD j 0 = ps[j].block := by
    simp [List.getD_eq_getElem?_getD, List.getElem?_eq_getElem hj]
  have hlist' : alloc.list.iter = some 0 ∧ alloc.list.partialIter = 0 := by
    rw [hlist]
    exact ⟨hiter, rfl⟩
  simp only [getBlock, getBlockFrom, hlist'.1, hlist'.2, Nat.add_zero,
    u32_of_lt (show j * len + r < 4294967296 by omega), hseek,
    Option.bind_eq_bind, Option.bind_some, hcell, nthBlock, hblock]
  rfl

theorem blockAllocationLen_linkedAlloc (hlen : ∀ p ∈ ps, p.len = len) :
    blockAllocationLen (linkedAlloc ps) = some (u32 (ps.length * len)) := by
  have hchain := chain_linkPieces [] none ps []
  simp only [List.nil_append, List.length_nil, List.append_nil] at hchain
  have hsum : (ps.map Piece.len).sum = ps.length * len := by
    rw [List.map_congr_left hlen, List.map_const', List.sum_replicate, smul_eq_mul]
  rw [blockAllocationLen, linkedAlloc, chainLen_of_chain Region.len hchain (by simp),
    linkedCells_map Region.len Piece.len (fun _ _ _ => rfl), hsum]
  rfl

end Chains

section Oob

variable {alloc : BlockAllocation} {aux : FsAuxInfo} {l : List Ext4Error} {n : Nat}

structure OobAppended (alloc alloc' : BlockAllocation) : Prop where
  list : alloc'.list = alloc.list
  cells : ∃ c, alloc'.regions = alloc.regions ++ c
  block : ∃ b, getOobBlock alloc' 0 = some b

theorem appendOobLoop_first {reg : Region} {rest : Arena Region} {alloc' : BlockAllocation}
    (hoob : alloc.oobList = .empty) {fuel : Nat} (h : appendOobLoop (fuel + 1)
      { alloc with regions := alloc.regions ++ some reg :: rest } (some alloc.regions.length) =
        some alloc') :
    alloc' = ⟨alloc.regions ++ some { reg with next := none, prev := none } :: rest, alloc.list,
      ⟨some alloc.regions.length, some alloc.regions.length, some alloc.regions.length, 0⟩⟩ := by
  have hat : (alloc.regions ++ some reg :: rest)[alloc.regions.length]? = some (some reg) := by
    simp
  have hmod := Arena.modify_of_look (fun r : Region => { r with next := none, prev := none }) hat
  rw [Arena.set_split] at hmod
  have happend : regionListAppend (alloc.regions ++ some reg :: rest) .empty alloc.regions.length =
      some (alloc.regions ++ some { reg with next := none, prev := none } :: rest,
        ⟨some alloc.regions.length, some alloc.regions.length, some alloc.regions.length, 0⟩) := by
    simp only [regionListAppend, RegionList.empty, hmod, Option.bind_eq_bind, Option.bind_some]
  have hlook : Arena.look (alloc.regions ++ some { reg with next := none, prev := none } :: rest)
      (some alloc.regions.length) = some { reg with next := none, prev := none } := by
    rw [Arena.look_eq_some]
    simp
  simp only [appendOobLoop, hoob, happend, hlook, Option.bind_eq_bind, Option.bind_some] at h
  cases fuel <;> exact (Option.some.inj h).symm

theorem getOobBlock_exists (h : alloc.oobList = .empty ∨ ∃ n reg, alloc.oobList =
      ⟨some n, some n, some n, 0⟩ ∧ alloc.regions[n]? = some (some reg) ∧ reg.next = none) :
    ∃ b, getOobBlock alloc 0 = some b := by
  rcases h with h | ⟨n, reg, h, hreg, hnext⟩
  · refine ⟨ext4AllocateFailed, ?_⟩
    simp only [getOobBlock, getBlockFrom, h, RegionList.empty]
    cases alloc.regions <;> rfl
  · obtain ⟨fuel, hfuel⟩ : ∃ fuel, alloc.regions.length = fuel + 1 := by
      have := (List.getElem?_eq_some_iff.mp hreg).1
      exact ⟨alloc.regions.length - 1, by omega⟩
    have hlook := Arena.look_eq_some.mpr hreg
    simp only [getOobBlock, getBlockFrom, h, hfuel, seek, hlook, Option.bind_eq_bind,
      Option.bind_some, hnext]
    split
    · exact ⟨u32 (reg.block + u32 (0 + 0)), by simp only [Option.bind_some, hlook]⟩
    · exact ⟨ext4AllocateFailed, by cases fuel <;> rfl⟩

theorem appendOobAllocation_appended (force : Bool) (hoob : alloc.oobList = .empty) :
    Run.Meets (fun _ => False) (appendOobAllocation force alloc n)
      (fun r _ _ => OobAppended alloc r.1) aux l := by
  rw [appendOobAllocation, Run.meets_bind]
  have hbest : Run.Meets (fun _ => False) (ext4AllocateBestFit force n) (fun _ _ _ => True) aux l := by
    unfold Run.Meets
    split <;> simp
  refine hbest.mono ?_
  rintro ps aux' l' -
  cases ps with
  | nil =>
    simp only [Run.meets_bind]
    exact Run.meets_raise id ⟨rfl, ⟨[], by simp⟩, getOobBlock_exists (Or.inl hoob)⟩
  | cons p rest =>
    simp only [Run.meets_bind, Run.meets_expect, Run.meets_pure]
    intro alloc' happ
    have hfuel : (alloc.regions ++ linkPieces alloc.regions.length none (p :: rest)).length =
        alloc.regions.length + rest.length + 1 := by simp; omega
    rw [hfuel] at happ
    obtain rfl := appendOobLoop_first hoob happ
    exact ⟨rfl, ⟨_, rfl⟩, getOobBlock_exists (Or.inr ⟨alloc.regions.length,
      ⟨p.block, p.len, p.bg, none, none⟩, rfl, by simp, rfl⟩)⟩

end Oob

end MakeExt4fs

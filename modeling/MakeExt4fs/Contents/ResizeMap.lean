import MakeExt4fs.Contents.Reserved

namespace MakeExt4fs

open ErrorLog Words

section Slots

variable {info : FsInfo} {aux : FsAuxInfo} {n b r : Nat}

theorem resizeSlot_eq (hn : 0 < info.bgDescReserveBlocks.val)
    (hle : info.bgDescReserveBlocks.val ≤ 2147483648) (i : Nat) :
    resizeSlot info aux i = sub32 i aux.bgDescBlocks % info.bgDescReserveBlocks.val := by
  have hlt := Nat.mod_lt (sub32 i aux.bgDescBlocks) hn
  have hword : u32 (sub32 i aux.bgDescBlocks % info.bgDescReserveBlocks.val) =
      sub32 i aux.bgDescBlocks % info.bgDescReserveBlocks.val := u32_of_lt (by omega)
  simp only [resizeSlot, s32, hword, if_pos (show sub32 i aux.bgDescBlocks %
    info.bgDescReserveBlocks.val < 2147483648 by omega)]
  rw [if_neg (by omega), ofInt32]
  omega

theorem sub32_rotate (hd : b = 0 ∨ n ∣ 4294967296) (hb : b < 4294967296) (hr : r < n)
    (hn : n ≤ 4294967296) : sub32 ((b + r) % n) b % n = r := by
  rcases hd with rfl | hd
  · have hmod : (0 + r) % n = r := by rw [Nat.zero_add, Nat.mod_eq_of_lt hr]
    rw [hmod, sub32_of_le (by omega) (by omega), Nat.sub_zero, Nat.mod_eq_of_lt hr]
  · obtain ⟨k, hk⟩ := hd
    have hsum : b + r + (4294967296 - b) = r + n * k := by omega
    rw [sub32, u32, Nat.mod_eq_of_lt hb, Nat.mod_mod_of_dvd _ ⟨k, hk⟩,
      Nat.add_sub_assoc (by omega), Nat.mod_add_mod, hsum, Nat.add_mul_mod_self_left,
      Nat.mod_eq_of_lt hr]

theorem dvd_of_sub32_rotate (hn : 0 < n) (hb : b < 4294967296)
    (h : ∀ r < n, sub32 ((b + r) % n) b % n = r) : b = 0 ∨ n ∣ 4294967296 := by
  rcases Nat.eq_zero_or_pos b with hz | hpos
  · exact Or.inl hz
  · right
    have hlt := Nat.mod_lt b hn
    have hr : (n - b % n) % n < n := Nat.mod_lt _ hn
    have hdvd : (b + (n - b % n) % n) % n = 0 := by
      rw [Nat.add_mod_mod, Nat.add_mod, ← Nat.add_mod_mod, Nat.mod_mod, Nat.add_mod_mod,
        Nat.add_sub_cancel' hlt.le, Nat.mod_self]
    have hzero := h _ hr
    rw [hdvd, sub32, u32, Nat.mod_eq_of_lt hb, Nat.zero_add,
      Nat.mod_eq_of_lt (by omega : 4294967296 - b < 4294967296)] at hzero
    rw [← hzero, Nat.add_mod_mod, Nat.add_sub_cancel' hb.le] at hdvd
    exact Nat.dvd_of_mod_eq_zero hdvd

theorem range_rotate_perm (n b : Nat) :
    ((List.range n).map fun r => (b + r) % n).Perm (List.range n) := by
  have hnodup : ((List.range n).map fun r => (b + r) % n).Nodup := by
    refine List.Nodup.map_on ?_ List.nodup_range
    intro x hx y hy hxy
    have hx := List.mem_range.mp hx
    have hy := List.mem_range.mp hy
    have hmod : x ≡ y [MOD n] := Nat.ModEq.add_left_cancel' b hxy
    rwa [Nat.ModEq, Nat.mod_eq_of_lt hx, Nat.mod_eq_of_lt hy] at hmod
  have hsub : ((List.range n).map fun r => (b + r) % n) ⊆ List.range n := by
    intro x hx
    obtain ⟨r, hr, rfl⟩ := List.mem_map.mp hx
    have := List.mem_range.mp hr
    exact List.mem_range.mpr (Nat.mod_lt _ (by omega))
  exact (hnodup.subperm hsub).perm_of_length_le (by simp)

end Slots

section Fill

variable {info : FsInfo} {alloc : BlockAllocation} {ps : List Piece} {c : Arena Region}
  {fs : Fs} {h : List Buffer} {d e : Buffer} {l : List Ext4Error}

theorem setHeap_run {id off n v : Nat} {b : Buffer} (hb : fs.heap[id]? = some b)
    (hoff : off + n ≤ b.size) : setHeap id off n v (fs, l) =
      .ok ((), ({ fs with heap := fs.heap.set id (b.putLE off n v) }, l)) := by
  simp only [setHeap, onHeap, Run.zoom, hb, pokeAt, pokeBuffer, Run.bind_run, Run.read_run,
    if_pos hoff, Run.write_run]

theorem get32_entry (hin : 4 * r + 4 ≤ e.size) {v : Nat} (hv : v < 4294967296) (i : Nat) :
    (e.putLE (4 * r) 4 v).get32 (4 * i) = if i = r then v else e.get32 (4 * i) := by
  split
  · rename_i hi
    subst hi
    exact (Buffer.get32_put32 e _ _ hin).trans (u32_of_lt hv)
  · rename_i hi
    exact Buffer.getLE_putLE_of_apart _ _ _ _ _ _ (by omega)

def withTables (fs : Fs) (h : List Buffer) (d e : Buffer) : Fs := { fs with heap := h ++ [d, e] }

theorem setHeap_dind {off n v : Nat} (hoff : off + n ≤ d.size) :
    setHeap h.length off n v (withTables fs h d e, l) =
      .ok ((), (withTables fs h (d.putLE off n v) e, l)) := by
  rw [setHeap_run (show (withTables fs h d e).heap[h.length]? = some d by simp [withTables]) hoff]
  simp [withTables]

theorem setHeap_ind {off n v : Nat} (hoff : off + n ≤ e.size) :
    setHeap (h.length + 1) off n v (withTables fs h d e, l) =
      .ok ((), (withTables fs h d (e.putLE off n v), l)) := by
  rw [setHeap_run (show (withTables fs h d e).heap[h.length + 1]? = some e by simp [withTables])
    hoff]
  simp [withTables, List.set_append_right]

structure TableFits (info : FsInfo) (bpi superblocks : Nat) : Prop where
  entries : 4 * bpi = info.blockSize.val
  backups : superblocks ≤ bpi + 1
  reserved : info.bgDescReserveBlocks.val ≤ bpi
  word : info.bgDescReserveBlocks.val * bpi ≤ 4294967296

structure ReservedAlloc (info : FsInfo) (alloc : BlockAllocation) (ps : List Piece) : Prop where
  lens : ∀ p ∈ ps, p.len = info.bgDescReserveBlocks.val
  list : alloc.list = (linkedAlloc ps).list
  cells : ∃ c, alloc.regions = linkPieces 0 none ps ++ c
  some_piece : 0 < ps.length
  word : ps.length * info.bgDescReserveBlocks.val ≤ 4294967296

theorem ReservedAlloc.getBlock (ha : ReservedAlloc info alloc ps) {j r : Nat} (hj : j < ps.length)
    (hr : r < info.bgDescReserveBlocks.val) :
    getBlock alloc (u32 (j * info.bgDescReserveBlocks.val + r)) = some (nthBlock ps j r) := by
  obtain ⟨c, hc⟩ := ha.cells
  exact getBlock_uniform ha.lens ha.list hc hj hr ha.word

theorem TableFits.slot {bpi superblocks r j : Nat} (ht : TableFits info bpi superblocks)
    (hr : r < info.bgDescReserveBlocks.val) (hj : 1 ≤ j) (hlt : j < superblocks) :
    sub32 (u32 (r * bpi + j)) 1 = r * bpi + (j - 1) ∧
      4 * (r * bpi + (j - 1)) + 4 ≤ info.blockSize.val * info.bgDescReserveBlocks.val := by
  have hbackups := ht.backups
  have hword := ht.word
  have hmul := Nat.mul_le_mul_right bpi (show r + 1 ≤ info.bgDescReserveBlocks.val from hr)
  rw [Nat.succ_mul] at hmul
  have hsize : info.blockSize.val * info.bgDescReserveBlocks.val =
      4 * (info.bgDescReserveBlocks.val * bpi) := by rw [← ht.entries]; ring
  refine ⟨?_, by omega⟩
  simp only [sub32, u32]
  omega

theorem slot_inj {bpi superblocks r r' j j' : Nat} (ht : TableFits info bpi superblocks)
    (hj : 1 ≤ j) (hlt : j < superblocks) (hj' : 1 ≤ j') (hlt' : j' < superblocks)
    (heq : r * bpi + (j - 1) = r' * bpi + (j' - 1)) : r = r' ∧ j = j' := by
  have hbackups := ht.backups
  have hdiv : ∀ {a k : Nat}, k < bpi → (a * bpi + k) / bpi = a := by
    intro a k hk
    rw [Nat.mul_comm, Nat.mul_add_div (by omega), Nat.div_eq_of_lt hk, Nat.add_zero]
  have hr : r = r' := by
    have hquot := congrArg (· / bpi) heq
    simpa only [hdiv (show j - 1 < bpi by omega), hdiv (show j' - 1 < bpi by omega)] using hquot
  subst hr
  exact ⟨rfl, by omega⟩

end Fill

end MakeExt4fs

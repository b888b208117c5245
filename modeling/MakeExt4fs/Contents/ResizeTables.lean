import MakeExt4fs.Allocate.Frames
import MakeExt4fs.Contents.ResizeMap

namespace MakeExt4fs

open ErrorLog Words

structure ResizeMapped (info : FsInfo) (bgDescBlocks : Nat) (ps : List Piece) (d e : Buffer) :
    Prop where
  entries : ∀ r < info.bgDescReserveBlocks.val,
    d.get32 (4 * ((bgDescBlocks + r) % info.bgDescReserveBlocks.val)) = nthBlock ps 0 r
  permutation : ((List.range info.bgDescReserveBlocks.val).map fun i => d.get32 (4 * i)).Perm
    ((List.range info.bgDescReserveBlocks.val).map (nthBlock ps 0))
  slots : ∀ r < info.bgDescReserveBlocks.val, ∀ j, 1 ≤ j → j < ps.length →
    e.get32 (info.blockSize.val * r + 4 * (j - 1)) = nthBlock ps j r

section Filling

variable {info : FsInfo} {alloc : BlockAllocation} {ps : List Piece} {fs : Fs} {h : List Buffer}
  {d e : Buffer} {l : List Ext4Error} {bpi : Nat}

structure SlotsFilled (ps : List Piece) (bpi s : Nat) (e : Buffer) (done : List Nat) (e' : Buffer) :
    Prop where
  size : e'.size = e.size
  filled : ∀ j ∈ done, e'.get32 (4 * (s * bpi + (j - 1))) = nthBlock ps j s
  left : ∀ r j, r ≠ s → 1 ≤ j → j < ps.length →
    e'.get32 (4 * (r * bpi + (j - 1))) = e.get32 (4 * (r * bpi + (j - 1)))

theorem nthBlock_lt (ps : List Piece) (j r : Nat) : nthBlock ps j r < 4294967296 := u32_lt _

theorem fillSlot_run (ht : TableFits info bpi ps.length) (ha : ReservedAlloc info alloc ps)
    {s j : Nat} (hs : s < info.bgDescReserveBlocks.val) (hj : 1 ≤ j) (hlt : j < ps.length)
    (he : e.size = info.blockSize.val * info.bgDescReserveBlocks.val) {done : List Nat}
    {e' : Buffer} (hdone : ∀ k ∈ done, 1 ≤ k ∧ k < ps.length)
    (hfilled : SlotsFilled ps bpi s e done e') :
    ∃ e'', (Run.expect (getBlock alloc (u32 (j * info.bgDescReserveBlocks.val + s))) >>= fun block =>
        setHeap (h.length + 1) (4 * sub32 (u32 (s * bpi + j)) 1) 4 block)
          (withTables fs h d e', l) = .ok ((), (withTables fs h d e'', l)) ∧
      SlotsFilled ps bpi s e (done ++ [j]) e'' := by
  obtain ⟨hslot, hin⟩ := ht.slot hs hj hlt
  have hin' : 4 * (s * bpi + (j - 1)) + 4 ≤ e'.size := by rw [hfilled.size, he]; exact hin
  refine ⟨e'.putLE (4 * (s * bpi + (j - 1))) 4 (nthBlock ps j s), ?_, hfilled.size, ?_, ?_⟩
  · rw [Run.bind_run, ha.getBlock hlt hs, hslot]
    exact setHeap_ind hin'
  · intro k hk
    rw [get32_entry hin' (nthBlock_lt ps j s)]
    split
    · next heq =>
      rcases List.mem_append.mp hk with hk | hk
      · obtain ⟨hk1, hk2⟩ := hdone k hk
        rw [(slot_inj ht hk1 hk2 hj hlt heq).2]
      · rw [List.mem_singleton.mp hk]
    · next hne =>
      rcases List.mem_append.mp hk with hk | hk
      · exact hfilled.filled k hk
      · exact absurd (by rw [List.mem_singleton.mp hk]) hne
  · intro r k hr hk1 hk2
    rw [get32_entry hin' (nthBlock_lt ps j s), if_neg, hfilled.left r k hr hk1 hk2]
    exact fun heq => hr (slot_inj ht hk1 hk2 hj hlt heq).1

theorem fillSlots_run (ht : TableFits info bpi ps.length) (ha : ReservedAlloc info alloc ps)
    {s : Nat} (hs : s < info.bgDescReserveBlocks.val)
    (he : e.size = info.blockSize.val * info.bgDescReserveBlocks.val) :
    ∃ e', Run.each (List.range' 1 (ps.length - 1)) (fun j => do
        let b := u32 (j * info.bgDescReserveBlocks.val + s)
        let block ← Run.expect (getBlock alloc b)
        setHeap (h.length + 1) (4 * sub32 (u32 (s * bpi + j)) 1) 4 block)
          (withTables fs h d e, l) = .ok ((), (withTables fs h d e', l)) ∧
      SlotsFilled ps bpi s e (List.range' 1 (ps.length - 1)) e' := by
  have hrange : ∀ j ∈ List.range' 1 (ps.length - 1), 1 ≤ j ∧ j < ps.length := by
    intro j hj
    rw [List.mem_range'_1] at hj
    omega
  have hstep : ∀ done, ∀ j ∈ List.range' 1 (ps.length - 1), ∀ st,
      ((∀ k ∈ done, 1 ≤ k ∧ k < ps.length) ∧ ∃ e', st = withTables fs h d e' ∧
        SlotsFilled ps bpi s e done e') →
      ∃ st', (Run.expect (getBlock alloc (u32 (j * info.bgDescReserveBlocks.val + s))) >>=
          fun block => setHeap (h.length + 1) (4 * sub32 (u32 (s * bpi + j)) 1) 4 block)
            (st, l) = .ok ((), (st', l)) ∧
        (∀ k ∈ done ++ [j], 1 ≤ k ∧ k < ps.length) ∧ ∃ e', st' = withTables fs h d e' ∧
          SlotsFilled ps bpi s e (done ++ [j]) e' := by
    rintro done j hj _ ⟨hdone, e1, rfl, hfilled⟩
    obtain ⟨hj1, hj2⟩ := hrange j hj
    obtain ⟨e2, hrun, hfilled2⟩ := fillSlot_run ht ha hs hj1 hj2 he hdone hfilled
    refine ⟨_, hrun, ?_, e2, rfl, hfilled2⟩
    intro k hk
    rcases List.mem_append.mp hk with hk | hk
    · exact hdone k hk
    · rw [List.mem_singleton.mp hk]
      exact ⟨hj1, hj2⟩
  obtain ⟨_, hrun, -, e', rfl, hfilled⟩ := @Run.each_run _ _ _ (fun done st =>
    (∀ k ∈ done, 1 ≤ k ∧ k < ps.length) ∧ ∃ e', st = withTables fs h d e' ∧
      SlotsFilled ps bpi s e done e') _ _ (List.range' 1 (ps.length - 1)) hstep []
    (withTables fs h d e) ⟨by simp, e, rfl, rfl, by simp, fun _ _ _ _ _ => rfl⟩
  rw [List.nil_append] at hfilled
  exact ⟨e', hrun, hfilled⟩

structure RowsFilled (info : FsInfo) (aux : FsAuxInfo) (ps : List Piece) (bpi k : Nat)
    (d e : Buffer) : Prop where
  dind : d.size = info.blockSize.val
  ind : e.size = info.blockSize.val * info.bgDescReserveBlocks.val
  entries : ∀ i < k, d.get32 (4 * i) = nthBlock ps 0 (resizeSlot info aux i)
  rows : ∀ i < k, ∀ j, 1 ≤ j → j < ps.length →
    e.get32 (4 * (resizeSlot info aux i * bpi + (j - 1))) = nthBlock ps j (resizeSlot info aux i)

theorem RowsFilled.of_slot {aux aux' : FsAuxInfo} {k : Nat} (h : RowsFilled info aux ps bpi k d e)
    (hslot : resizeSlot info aux = resizeSlot info aux') : RowsFilled info aux' ps bpi k d e := by
  obtain ⟨hdind, hind, hentries, hrows⟩ := h
  rw [hslot] at hentries hrows
  exact ⟨hdind, hind, hentries, hrows⟩

theorem expect_some (n : Nat) : (Run.expect (some n) : Build Nat) = pure n := rfl

theorem fillResizeEntry_run (ht : TableFits info bpi ps.length) (ha : ReservedAlloc info alloc ps)
    (hbpi : fs.aux.blocksPerInd = bpi) (hpos : 0 < info.bgDescReserveBlocks.val)
    (hle : info.bgDescReserveBlocks.val ≤ 2147483648) {k : Nat}
    (hk : k < info.bgDescReserveBlocks.val) (hfilled : RowsFilled info fs.aux ps bpi k d e) :
    ∃ d' e', fillResizeEntry info alloc ps.length h.length (h.length + 1) k
        (withTables fs h d e, l) = .ok ((), (withTables fs h d' e', l)) ∧
      RowsFilled info fs.aux ps bpi (k + 1) d' e' := by
  have hslot : resizeSlot info fs.aux k < info.bgDescReserveBlocks.val := by
    rw [resizeSlot_eq hpos hle]
    exact Nat.mod_lt _ hpos
  have hres := ht.reserved
  have hentries := ht.entries
  have hin : 4 * k + 4 ≤ d.size := by
    rw [hfilled.dind]
    omega
  have hblock : getBlock alloc (resizeSlot info fs.aux k) =
      some (nthBlock ps 0 (resizeSlot info fs.aux k)) := by
    have hget := ha.getBlock ha.some_piece hslot
    rwa [Nat.zero_mul, Nat.zero_add, u32_of_lt (by omega)] at hget
  obtain ⟨e', hrun, hslots⟩ := @fillSlots_run info alloc ps fs h
    (d.putLE (4 * k) 4 (nthBlock ps 0 (resizeSlot info fs.aux k))) e l bpi ht ha _ hslot hfilled.ind
  refine ⟨d.putLE (4 * k) 4 (nthBlock ps 0 (resizeSlot info fs.aux k)), e', ?_, hfilled.dind,
    hslots.size.trans hfilled.ind, ?_, ?_⟩
  · have haux : (withTables fs h d e).aux = fs.aux := rfl
    simp only [fillResizeEntry, Run.bind_run, Run.read_run, haux, hblock, expect_some,
      Run.pure_run, setHeap_dind hin, hbpi]
    exact hrun
  · intro i hi
    rw [get32_entry hin (nthBlock_lt ps _ _)]
    split
    · next heq => rw [heq]
    · next hne => exact hfilled.entries i (by omega)
  · intro i hi j hj hlt
    by_cases heq : resizeSlot info fs.aux i = resizeSlot info fs.aux k
    · rw [heq]
      exact hslots.filled j (by rw [List.mem_range'_1]; omega)
    · rw [hslots.left _ j heq hj hlt]
      have hne : i ≠ k := fun h => heq (by rw [h])
      exact hfilled.rows i (by omega) j hj hlt

theorem fillRows_run (ht : TableFits info bpi ps.length) (ha : ReservedAlloc info alloc ps)
    (hbpi : fs.aux.blocksPerInd = bpi) (hpos : 0 < info.bgDescReserveBlocks.val)
    (hle : info.bgDescReserveBlocks.val ≤ 2147483648)
    (hfilled : RowsFilled info fs.aux ps bpi 0 d e) :
    ∃ d' e', Run.each (List.range info.bgDescReserveBlocks.val)
        (fillResizeEntry info alloc ps.length h.length (h.length + 1))
          (withTables fs h d e, l) = .ok ((), (withTables fs h d' e', l)) ∧
      RowsFilled info fs.aux ps bpi info.bgDescReserveBlocks.val d' e' := by
  have hstep : ∀ k < info.bgDescReserveBlocks.val, ∀ st,
      (∃ d' e', st = withTables fs h d' e' ∧ RowsFilled info fs.aux ps bpi k d' e') →
      ∃ st', fillResizeEntry info alloc ps.length h.length (h.length + 1) k (st, l) =
          .ok ((), (st', l)) ∧
        ∃ d' e', st' = withTables fs h d' e' ∧ RowsFilled info fs.aux ps bpi (k + 1) d' e' := by
    rintro k hk _ ⟨d1, e1, rfl, hfilled⟩
    obtain ⟨d2, e2, hrun, hfilled2⟩ := fillResizeEntry_run ht ha hbpi hpos hle hk hfilled
    exact ⟨_, hrun, d2, e2, rfl, hfilled2⟩
  obtain ⟨_, hrun, d', e', rfl, hdone⟩ := Run.each_range_run
    (fun k st => ∃ d' e', st = withTables fs h d' e' ∧ RowsFilled info fs.aux ps bpi k d' e')
    hstep ⟨d, e, rfl, hfilled⟩
  exact ⟨d', e', hrun, hdone⟩

theorem nthBlock_inj {j r r' : Nat} (hr : r < 4294967296) (hr' : r' < 4294967296)
    (h : nthBlock ps j r = nthBlock ps j r') : r = r' := by
  simp only [nthBlock, u32] at h
  omega

theorem resizeMapped_of_filled (ht : TableFits info bpi ps.length)
    (hpos : 0 < info.bgDescReserveBlocks.val) (hle : info.bgDescReserveBlocks.val ≤ 2147483648)
    (hb : fs.aux.bgDescBlocks < 4294967296)
    (hfilled : RowsFilled info fs.aux ps bpi info.bgDescReserveBlocks.val d e)
    (hrot : fs.aux.bgDescBlocks = 0 ∨ info.bgDescReserveBlocks.val ∣ 4294967296) :
    ResizeMapped info fs.aux.bgDescBlocks ps d e := by
  have hslot : ∀ r < info.bgDescReserveBlocks.val, resizeSlot info fs.aux
      ((fs.aux.bgDescBlocks + r) % info.bgDescReserveBlocks.val) = r := by
    intro r hr
    rw [resizeSlot_eq hpos hle]
    exact sub32_rotate hrot hb hr (by omega)
  have hentries : ∀ r < info.bgDescReserveBlocks.val,
      d.get32 (4 * ((fs.aux.bgDescBlocks + r) % info.bgDescReserveBlocks.val)) =
        nthBlock ps 0 r := by
    intro r hr
    rw [hfilled.entries _ (Nat.mod_lt _ hpos), hslot r hr]
  refine ⟨hentries, ?_, ?_⟩
  · have hperm := (range_rotate_perm info.bgDescReserveBlocks.val fs.aux.bgDescBlocks).map
      fun i => d.get32 (4 * i)
    rw [List.map_map] at hperm
    refine hperm.symm.trans (List.Perm.of_eq (List.map_congr_left ?_))
    intro r hr
    exact hentries r (List.mem_range.mp hr)
  · intro r hr j hj hlt
    have hrow := hfilled.rows _ (Nat.mod_lt (fs.aux.bgDescBlocks + r) hpos) j hj hlt
    rw [hslot r hr] at hrow
    rw [← hrow, ← ht.entries]
    congr 1
    ring

theorem rotates_of_mapped (hpos : 0 < info.bgDescReserveBlocks.val)
    (hle : info.bgDescReserveBlocks.val ≤ 2147483648) (hb : fs.aux.bgDescBlocks < 4294967296)
    (hfilled : RowsFilled info fs.aux ps bpi info.bgDescReserveBlocks.val d e)
    (hmap : ResizeMapped info fs.aux.bgDescBlocks ps d e) :
    fs.aux.bgDescBlocks = 0 ∨ info.bgDescReserveBlocks.val ∣ 4294967296 := by
  apply dvd_of_sub32_rotate hpos hb
  intro r hr
  have hentry := hmap.entries r hr
  rw [hfilled.entries _ (Nat.mod_lt _ hpos), resizeSlot_eq hpos hle] at hentry
  have hlt := Nat.mod_lt (sub32 ((fs.aux.bgDescBlocks + r) % info.bgDescReserveBlocks.val)
    fs.aux.bgDescBlocks) hpos
  exact nthBlock_inj (by omega) (by omega) hentry

end Filling

theorem settleInfo_sparseSuper {req : FsRequest} {st : Option FdStat} {info : FsInfo}
    (h : settleInfo req st = .ok info) : info.SparseSuper := by
  unfold settleInfo at h
  split at h
  · cases h
  · split at h
    · split at h
      · cases h
      · simp only [Except.ok.injEq] at h
        subst h
        rw [FsInfo.SparseSuper, toU16_val]
        decide
    · cases h

section Attach

variable {info : FsInfo} {force : Bool} {fs : Fs} {l : List Ext4Error} {ps : List Piece}

def MapsReserved (info : FsInfo) (force : Bool) (ps : List Piece) (fs : Fs)
    (l : List Ext4Error) : Prop :=
  ∃ r fs' l' d e, fillResizeBlocks info force (linkedAlloc ps) (fs, l) = .ok (r, (fs', l')) ∧
    fs'.heap = fs.heap ++ [d, e] ∧ ResizeMapped info fs.aux.bgDescBlocks ps d e

theorem MapsReserved.mapped (h : MapsReserved info force ps fs l) {r : Nat × Nat × Nat} {fs' : Fs}
    {l' : List Ext4Error} {d e : Buffer}
    (hrun : fillResizeBlocks info force (linkedAlloc ps) (fs, l) = .ok (r, (fs', l')))
    (hheap : fs'.heap = fs.heap ++ [d, e]) : ResizeMapped info fs.aux.bgDescBlocks ps d e := by
  obtain ⟨r', fs2, l2, d', e', hrun', hheap', hmap⟩ := h
  rw [hrun] at hrun'
  cases hrun'
  rw [hheap] at hheap'
  obtain ⟨rfl, rfl⟩ : d = d' ∧ e = e' := by simpa using hheap'
  exact hmap

theorem reservedAlloc_of_appended {alloc : BlockAllocation}
    (hlens : ∀ p ∈ ps, p.len = info.bgDescReserveBlocks.val) (hpos : 0 < ps.length)
    (hword : ps.length * info.bgDescReserveBlocks.val ≤ 4294967296)
    (happ : OobAppended (linkedAlloc ps) alloc) : ReservedAlloc info alloc ps :=
  ⟨hlens, happ.list, happ.cells, hpos, hword⟩

theorem rowsFilled_zero (info : FsInfo) (aux : FsAuxInfo) (ps : List Piece) (bpi : Nat) :
    RowsFilled info aux ps bpi 0 (Buffer.zeros info.blockSize.val)
      (Buffer.zeros (info.blockSize.val * info.bgDescReserveBlocks.val)) :=
  ⟨Buffer.size_zeros _, Buffer.size_zeros _, by simp, by simp⟩

theorem fillResizeBlocks_run (ht : TableFits info fs.aux.blocksPerInd ps.length)
    (hpos : 0 < info.bgDescReserveBlocks.val) (hle : info.bgDescReserveBlocks.val ≤ 2147483648)
    (hlens : ∀ p ∈ ps, p.len = info.bgDescReserveBlocks.val) (hps : 0 < ps.length)
    (hword : ps.length * info.bgDescReserveBlocks.val < 4294967296)
    {alloc : BlockAllocation} {oob : Int} {aux' : FsAuxInfo} {l' : List Ext4Error}
    (hoob : appendOobAllocation force (linkedAlloc ps) 1 (fs.aux, l) =
      .ok ((alloc, oob), (aux', l'))) :
    ∃ r fs' d e, fillResizeBlocks info force (linkedAlloc ps) (fs, l) = .ok (r, (fs', l')) ∧
      fs'.heap = fs.heap ++ [d, e] ∧
      RowsFilled info fs.aux ps fs.aux.blocksPerInd info.bgDescReserveBlocks.val d e := by
  have happ := (appendOobAllocation_appended force (show (linkedAlloc ps).oobList = .empty from
    rfl)).ok hoob
  have ha := reservedAlloc_of_appended hlens hps hword.le happ
  have hsame := ((appendOobAllocation_blocksOnly (linkedAlloc ps) 1) _ _ _ _ _ hoob).1.same
  obtain ⟨dindBlock, hdind⟩ := happ.block
  have hlen := blockAllocationLen_linkedAlloc hlens
  rw [u32_of_lt hword] at hlen
  have hind := ha.getBlock hps hpos
  rw [Nat.zero_mul, Nat.zero_add, u32_of_lt (by omega)] at hind
  have hcount : ps.length * info.bgDescReserveBlocks.val / info.bgDescReserveBlocks.val =
      ps.length := Nat.mul_div_cancel _ hpos
  have hmod := Nat.mul_mod_left ps.length info.bgDescReserveBlocks.val
  have hbpi : aux'.blocksPerInd = fs.aux.blocksPerInd := by rw [hsame]
  have hslot : resizeSlot info aux' = resizeSlot info fs.aux := by
    rw [hsame]
    rfl
  have hrun : onAux (appendOobAllocation force (linkedAlloc ps) 1) (fs, l) =
      .ok ((alloc, oob), ({ fs with aux := aux' }, l')) := by
    simp only [onAux, Run.zoom, hoob]
  let fs2 : Fs := { fs with
    aux := aux'
    sparse := fs.sparse ++ [.data (.heap fs.heap.length 0) info.blockSize.val dindBlock] ++
      [.data (.heap (fs.heap.length + 1) 0)
        (u32 (info.blockSize.val * info.bgDescReserveBlocks.val)) (nthBlock ps 0 0)] }
  obtain ⟨d, e, hrows, hfilled⟩ := @fillRows_run info alloc ps fs2 fs.heap _ _ l'
    fs.aux.blocksPerInd ht ha hbpi hpos hle (rowsFilled_zero info aux' ps _)
  refine ⟨(dindBlock, ps.length * info.bgDescReserveBlocks.val, ps.length),
    withTables fs2 fs.heap d e, d, e, ?_, rfl, hfilled.of_slot hslot⟩
  simp only [fillResizeBlocks, hlen, Run.bind_run, expect_some, Run.pure_run,
    if_neg (show info.bgDescReserveBlocks.val ≠ 0 by omega), hcount, hmod, hrun, hdind, hind,
    calloc, sparseFileAddData, sparseFileAdd, Run.read_run, Run.write_run, Run.update_run,
    ne_eq, not_true_eq_false, if_false, List.length_append, List.length_singleton,
    List.append_assoc, List.singleton_append]
  simp only [fs2, withTables, List.append_assoc, List.singleton_append] at hrows ⊢
  rw [hrows]

theorem tableFits_of_settled {req : FsRequest} {st : Option FdStat} {groups : Nat}
    (hreq : settleInfo req st = .ok info) (hgroups : groups ≤ 4294967296)
    (hfour : 4 ∣ info.blockSize.val) (hmin : 176 ≤ info.blockSize.val)
    (hmax : info.blockSize.val ≤ 262144) :
    TableFits info (info.blockSize.val / 4) (backupGroups info groups).length := by
  have hsettled := settleInfo_settled hreq
  have hres := hsettled.reserve_le
  have hlen := length_backupGroups_le (settleInfo_sparseSuper hreq) hgroups
  have hquarter : info.blockSize.val / 4 ≤ 65536 := by omega
  refine ⟨Nat.mul_div_cancel' hfour, by omega, hres, ?_⟩
  calc info.bgDescReserveBlocks.val * (info.blockSize.val / 4)
      ≤ 65536 * 65536 := Nat.mul_le_mul (hres.trans hquarter) hquarter
    _ = 4294967296 := by norm_num

def NumberedBy (info : FsInfo) (aux : FsAuxInfo) : Prop :=
  ∃ aux0, ext4InitFsAuxInfo info = some aux0 ∧ aux.groups = aux0.groups ∧
    aux.bgDescBlocks = aux0.bgDescBlocks ∧ aux.blocksPerInd = aux0.blocksPerInd

theorem NumberedBy.bounds {aux : FsAuxInfo} (h : NumberedBy info aux) :
    aux.groups < 4294967296 ∧ aux.bgDescBlocks < 4294967296 ∧
      aux.blocksPerInd = info.blockSize.val / 4 := by
  obtain ⟨aux0, haux, hgroups, hdesc, hind⟩ := h
  obtain ⟨-, -, hgroups0, -, hdesc0⟩ := ext4InitFsAuxInfo_some haux
  have hind0 : aux0.blocksPerInd = info.blockSize.val / 4 := by
    unfold ext4InitFsAuxInfo at haux
    split at haux
    · cases haux
    · cases haux
      rfl
  rw [hgroups, hgroups0, hdesc, hdesc0, hind, hind0]
  refine ⟨?_, u32_lt _, rfl⟩
  split
  · exact u32_lt _
  · exact u32_lt _

theorem length_reservedPieces (info : FsInfo) (aux : FsAuxInfo) :
    (reservedPieces info aux).length = (backupGroups info aux.groups).length := by
  rw [reservedPieces, List.length_map, backupGroups]

theorem fillResizeBlocks_settled {req : FsRequest} {st : Option FdStat}
    (hreq : settleInfo req st = .ok info) (haux : NumberedBy info fs.aux)
    (hgroups : 0 < fs.aux.groups) (hres : 0 < info.bgDescReserveBlocks.val)
    (hfour : 4 ∣ info.blockSize.val) (hmin : 176 ≤ info.blockSize.val)
    (hmax : info.blockSize.val ≤ 262144)
    {alloc : BlockAllocation} {oob : Int} {aux' : FsAuxInfo} {l' : List Ext4Error}
    (hoob : appendOobAllocation force (linkedAlloc (reservedPieces info fs.aux)) 1 (fs.aux, l) =
      .ok ((alloc, oob), (aux', l'))) :
    TableFits info fs.aux.blocksPerInd (reservedPieces info fs.aux).length ∧
    ∃ r fs' d e, fillResizeBlocks info force (linkedAlloc (reservedPieces info fs.aux)) (fs, l) =
        .ok (r, (fs', l')) ∧ fs'.heap = fs.heap ++ [d, e] ∧
      RowsFilled info fs.aux (reservedPieces info fs.aux) fs.aux.blocksPerInd
        info.bgDescReserveBlocks.val d e := by
  obtain ⟨hcount, -, hind⟩ := haux.bounds
  have ht := tableFits_of_settled hreq hcount.le hfour hmin hmax
  rw [← hind, ← length_reservedPieces info fs.aux] at ht
  have hreserved := (settleInfo_settled hreq).reserve_le
  have hlen := length_backupGroups_le (settleInfo_sparseSuper hreq) hcount.le
  rw [← length_reservedPieces info fs.aux] at hlen
  have hps : 0 < (reservedPieces info fs.aux).length := by
    rw [length_reservedPieces]
    exact (List.getElem?_eq_some_iff.mp (backupGroups_head hgroups)).1
  have hlens : ∀ p ∈ reservedPieces info fs.aux, p.len = info.bgDescReserveBlocks.val := by
    intro p hp
    obtain ⟨i, -, rfl⟩ := List.mem_map.mp hp
    rfl
  have hword : (reservedPieces info fs.aux).length * info.bgDescReserveBlocks.val <
      4294967296 := by
    have hle := Nat.mul_le_mul hlen (show info.bgDescReserveBlocks.val ≤ 65536 by omega)
    omega
  exact ⟨ht, fillResizeBlocks_run ht hres (by omega) hlens hps hword hoob⟩

theorem mapsReserved_iff_dvd {req : FsRequest} {st : Option FdStat}
    (hreq : settleInfo req st = .ok info) (haux : NumberedBy info fs.aux)
    (hgroups : 0 < fs.aux.groups) (hres : 0 < info.bgDescReserveBlocks.val)
    (hfour : 4 ∣ info.blockSize.val) (hmin : 176 ≤ info.blockSize.val)
    (hmax : info.blockSize.val ≤ 262144) {r : (BlockAllocation × Int) × (FsAuxInfo × List Ext4Error)}
    (hoob : appendOobAllocation force (linkedAlloc (reservedPieces info fs.aux)) 1 (fs.aux, l) =
      .ok r) :
    MapsReserved info force (reservedPieces info fs.aux) fs l ↔
      fs.aux.bgDescBlocks = 0 ∨ info.bgDescReserveBlocks.val ∣ 4294967296 := by
  obtain ⟨⟨alloc, oob⟩, aux', l'⟩ := r
  obtain ⟨ht, r, fs', d, e, hrun, hheap, hfilled⟩ :=
    fillResizeBlocks_settled hreq haux hgroups hres hfour hmin hmax hoob
  obtain ⟨-, hdesc, -⟩ := haux.bounds
  have hle : info.bgDescReserveBlocks.val ≤ 2147483648 := by
    have := (settleInfo_settled hreq).reserve_le
    omega
  constructor
  · intro hmap
    exact rotates_of_mapped hres hle hdesc hfilled (hmap.mapped hrun hheap)
  · intro hrot
    exact ⟨r, fs', l', d, e, hrun, hheap, resizeMapped_of_filled ht hres hle hdesc hfilled hrot⟩

def smallFs : Fs :=
  ⟨{ smallAux with bgs := [⟨0, 75, 0, true, 0, 0, none, 4021, 75, 1024, 1, 0, 0⟩] }, [], [], []⟩

def smallOob : Option ((BlockAllocation × Int) × (FsAuxInfo × List Ext4Error)) :=
  (appendOobAllocation false (linkedAlloc (reservedPieces smallInfo smallFs.aux)) 1
    (smallFs.aux, [])).toOption

theorem smallOob_run : ∃ r, appendOobAllocation false
    (linkedAlloc (reservedPieces smallInfo smallFs.aux)) 1 (smallFs.aux, []) = .ok r := by
  have hsome : smallOob.isSome := by decide +kernel
  obtain ⟨r, hr⟩ := Option.isSome_iff_exists.mp hsome
  refine ⟨r, ?_⟩
  unfold smallOob at hr
  revert hr
  cases appendOobAllocation false (linkedAlloc (reservedPieces smallInfo smallFs.aux)) 1
    (smallFs.aux, []) with
  | error e => simp [Except.toOption]
  | ok p => simp [Except.toOption]

theorem smallFs_numbered : NumberedBy smallInfo smallFs.aux := ⟨smallAux, rfl, rfl, rfl, rfl⟩

theorem mapsReserved_iff_of_small :
    MapsReserved smallInfo false (reservedPieces smallInfo smallFs.aux) smallFs [] ↔
      smallFs.aux.bgDescBlocks = 0 ∨ smallInfo.bgDescReserveBlocks.val ∣ 4294967296 := by
  obtain ⟨r, hr⟩ := smallOob_run
  exact mapsReserved_iff_dvd (show settleInfo smallRequest none = .ok smallInfo from rfl)
    smallFs_numbered (by decide) (by decide) (by decide) (by decide) (by decide) hr

-- Entries 0 and 4 both name block 5, and no entry names block 8.
theorem small_reserved_scrambled :
    ∃ r fs' l' d e, fillResizeBlocks smallInfo false
        (linkedAlloc (reservedPieces smallInfo smallFs.aux)) (smallFs, []) = .ok (r, (fs', l')) ∧
      fs'.heap = smallFs.heap ++ [d, e] ∧ d.get32 (4 * 0) = 5 ∧ d.get32 (4 * 4) = 5 ∧
      (∀ i < 7, d.get32 (4 * i) ≠ 8) ∧
      ¬ MapsReserved smallInfo false (reservedPieces smallInfo smallFs.aux) smallFs [] := by
  obtain ⟨⟨⟨alloc, oob⟩, aux', l'⟩, hr⟩ := smallOob_run
  obtain ⟨-, r, fs', d, e, hrun, hheap, hfilled⟩ := fillResizeBlocks_settled
    (show settleInfo smallRequest none = .ok smallInfo from rfl) smallFs_numbered (by decide)
    (by decide) (by decide) (by decide) (by decide) hr
  refine ⟨r, fs', l', d, e, hrun, hheap, ?_, ?_, ?_, ?_⟩
  · rw [hfilled.entries 0 (by decide)]
    decide
  · rw [hfilled.entries 4 (by decide)]
    decide
  · intro i hi
    rw [hfilled.entries i hi]
    revert i
    decide
  · intro hmap
    have hrot := rotates_of_mapped (by decide) (by decide) (by decide) hfilled
      (hmap.mapped hrun hheap)
    revert hrot
    decide

end Attach

end MakeExt4fs

import MakeExt4fs.Allocate.Numbers

namespace MakeExt4fs

open ErrorLog Words

section Slots

variable {info : FsInfo} {m n : Nat}

theorem slot_lt {ipg k : Nat} (size : Nat) (hpos : 0 < ipg) :
    k % ipg * size + size ≤ ipg * size := by
  rw [← Nat.succ_mul]
  exact Nat.mul_le_mul_right _ (Nat.mod_lt _ hpos)

theorem inodeRef_eq (hpos : 0 < info.inodesPerGroup.val)
    (hslots : info.inodesPerGroup.val * info.inodeSize.val ≤ 4294967296) (h1 : 1 ≤ n)
    (hn : n < 4294967296) : inodeRef info n = ⟨(n - 1) / info.inodesPerGroup.val,
      (n - 1) % info.inodesPerGroup.val * info.inodeSize.val⟩ := by
  have hslot := @slot_lt info.inodesPerGroup.val (n - 1) info.inodeSize.val hpos
  have hlt : (n - 1) % info.inodesPerGroup.val * info.inodeSize.val < 4294967296 := by
    rcases Nat.eq_zero_or_pos info.inodeSize.val with h0 | hsize
    · rw [h0, Nat.mul_zero]
      decide
    · omega
  rw [inodeRef, sub32_of_le hn h1, u32_of_lt hlt]

def SlotsApart (info : FsInfo) (m n : Nat) : Prop :=
  (inodeRef info m).bg ≠ (inodeRef info n).bg ∨
    (inodeRef info m).off + info.inodeSize.val ≤ (inodeRef info n).off ∨
      (inodeRef info n).off + info.inodeSize.val ≤ (inodeRef info m).off

theorem slotsApart_of_ne (hpos : 0 < info.inodesPerGroup.val)
    (hslots : info.inodesPerGroup.val * info.inodeSize.val ≤ 4294967296) (hm1 : 1 ≤ m)
    (hm : m < 4294967296) (hn1 : 1 ≤ n) (hn : n < 4294967296) (hne : m ≠ n) :
    SlotsApart info m n := by
  rw [SlotsApart, inodeRef_eq hpos hslots hm1 hm, inodeRef_eq hpos hslots hn1 hn]
  by_cases hbg : (m - 1) / info.inodesPerGroup.val = (n - 1) / info.inodesPerGroup.val
  · have hdm := Nat.div_add_mod (m - 1) info.inodesPerGroup.val
    have hdn := Nat.div_add_mod (n - 1) info.inodesPerGroup.val
    rw [hbg] at hdm
    rcases Nat.lt_or_ge ((m - 1) % info.inodesPerGroup.val) ((n - 1) % info.inodesPerGroup.val) with
      hlt | hge
    · have hmul := Nat.mul_le_mul_right info.inodeSize.val (Nat.succ_le_of_lt hlt)
      rw [Nat.succ_mul] at hmul
      exact Or.inr (Or.inl hmul)
    · have hlt : (n - 1) % info.inodesPerGroup.val < (m - 1) % info.inodesPerGroup.val := by omega
      have hmul := Nat.mul_le_mul_right info.inodeSize.val (Nat.succ_le_of_lt hlt)
      rw [Nat.succ_mul] at hmul
      exact Or.inr (Or.inr hmul)
  · exact Or.inl hbg

end Slots

def granted (ns : List Nat) : List Nat := ns.filter fun n => n ≠ ext4AllocateFailed

def InUse (ns : List Nat) (n : Nat) : Prop := 1 ≤ n ∧ n ≤ 10 ∨ n ∈ granted ns

def SlotInTable (info : FsInfo) (aux : FsAuxInfo) (n : Nat) : Prop :=
  ∀ sparse heap dirs l, ∃ fs' b t,
    getInode info n (⟨aux, sparse, heap, dirs⟩, l) = .ok (inodeRef info n, (fs', l)) ∧
      fs'.aux.bgs[(inodeRef info n).bg]? = some b ∧ b.inodeTable = some t ∧
      (inodeRef info n).off + info.inodeSize.val ≤ t.size

-- What the results ns of allocate_inode have to be, and the groups afterwards.
structure InodesHandedOut (info : FsInfo) (ns : List Nat) (aux : FsAuxInfo) : Prop where
  increasing : (granted ns).Pairwise (· < ·)
  first : ∀ n, (granted ns).head? = some n → n = 11
  bounded : ∀ n ∈ granted ns, n ≤ info.inodesPerGroup.val * aux.groups
  fails : ∀ i < ns.length, (ns[i]? = some ext4AllocateFailed ↔
    10 + (granted (ns.take i)).length = info.inodesPerGroup.val * aux.groups)
  bits : ∀ (g : Nat) (b : BlockGroupInfo) i, aux.bgs[g]? = some b → (b.inodeBitmap.testBit i = true ↔
    i < info.inodesPerGroup.val ∧ InUse ns (g * info.inodesPerGroup.val + i + 1))
  apart : ∀ m n, InUse ns m → InUse ns n → m ≠ n → SlotsApart info m n
  inside : ∀ n, InUse ns n → SlotInTable info aux n

structure NoInodes (info : FsInfo) (aux : FsAuxInfo) : Prop where
  numbered : InodesNumbered info 0 aux
  tables : ∀ (g : Nat) (b : BlockGroupInfo), aux.bgs[g]? = some b → b.inodeTable = none
  blocks : aux.inodeTableBlocks = info.inodeTableBlocks

def HandsOutInodes (info : FsInfo) (aux : FsAuxInfo) : Prop :=
  ∀ k l, ∃ ns aux', takeInodes info k (aux, l) = .ok ((1, ns), (aux', l)) ∧
    ns.length = k ∧ InodesHandedOut info ns aux'

section Results

variable {c m n i : Nat}

def inodeResults (c m : Nat) : List Nat := List.range' 11 c ++ List.replicate m ext4AllocateFailed

theorem granted_results (hc : 10 + c < ext4AllocateFailed) (m : Nat) :
    granted (inodeResults c m) = List.range' 11 c := by
  have hrange : (List.range' 11 c).filter (fun n => n ≠ ext4AllocateFailed) = List.range' 11 c := by
    rw [List.filter_eq_self]
    intro n hn
    have hlt := (List.mem_range'_1.mp hn).2
    simp only [decide_eq_true_eq]
    omega
  rw [granted, inodeResults, List.filter_append, hrange]
  simp

theorem take_results (c m i : Nat) :
    (inodeResults c m).take i = inodeResults (min i c) (min (i - c) m) := by
  rw [inodeResults, inodeResults, List.take_append, List.length_range', List.take_replicate]
  congr 1
  rcases Nat.le_total i c with hle | hle
  · rw [Nat.min_eq_left hle, List.take_range'_of_length_ge hle]
  · rw [Nat.min_eq_right hle, List.take_of_length_le (by rw [List.length_range']; exact hle)]

theorem results_getElem (hi : i < c + m) :
    (inodeResults c m)[i]? = some (if i < c then 11 + i else ext4AllocateFailed) := by
  rw [inodeResults]
  split
  · rename_i hlt
    rw [List.getElem?_append_left (by rw [List.length_range']; exact hlt),
      List.getElem?_range' hlt, Nat.one_mul]
  · rename_i hge
    rw [List.getElem?_append_right (by rw [List.length_range']; omega), List.length_range',
      List.getElem?_replicate_of_lt (by omega)]

theorem inUse_results (hc : 10 + c < ext4AllocateFailed) :
    InUse (inodeResults c m) n ↔ 1 ≤ n ∧ n ≤ 10 + c := by
  rw [InUse, granted_results hc, List.mem_range'_1]
  omega

end Results

section Runs

variable {info : FsInfo} {aux aux' : FsAuxInfo} {k c m n : Nat} {l : List Ext4Error}

theorem takeInodes_run (h : NoInodes info aux) (hipg : 10 ≤ info.inodesPerGroup.val)
    (hgroups : 0 < aux.groups) (hc : 10 + c ≤ info.inodesPerGroup.val * aux.groups)
    (hfit : 10 + c < ext4AllocateFailed)
    (hm : m = 0 ∨ 10 + c = info.inodesPerGroup.val * aux.groups) :
    ∃ aux', takeInodes info (c + m) (aux, l) = .ok ((1, inodeResults c m), (aux', l)) ∧
      InodesNumbered info (10 + c) aux' ∧ InodesOnly aux aux' := by
  have hpos : 0 < info.inodesPerGroup.val := by omega
  obtain ⟨b, hb⟩ : ∃ b, aux.bgs[0]? = some b :=
    ⟨_, List.getElem?_eq_getElem (by rw [h.numbered.length]; exact hgroups)⟩
  have hfirst := reserveInodes_first (l := l) h.numbered hb (show 0 < 10 by decide) hipg
  have hten := h.numbered.reserve hb (show 0 < 10 by decide) hipg
  have honly : InodesOnly aux (aux.setBg 0 (b.giveInodes 10)) := setBg_inodesOnly hb
  obtain ⟨aux1, hrun, hnum, honly1⟩ := @allocateInodes_run info c 10 _ l hten hpos hc hfit
  have hall := trans_of InodesOnly honly honly1
  have hlast : allocateInodes info m (aux1, l) =
      .ok (List.replicate m ext4AllocateFailed, (aux1, l)) := by
    rcases hm with rfl | htotal
    · rfl
    · exact allocateInodes_full hnum (by rw [hall.groups]; omega) m
  refine ⟨aux1, ?_, hnum, hall⟩
  rw [takeInodes, Run.bind_run, hfirst]
  simp only [Run.bind_run, allocateInodes_add, hrun, hlast, Run.pure_run]
  rfl

theorem getInode_run (h : NoInodes info aux) (honly : InodesOnly aux aux')
    (hpos : 0 < info.inodesPerGroup.val) {r : InodeRef} (hr : inodeRef info n = r)
    (hbg : r.bg < aux.groups)
    (hin : r.off + info.inodeSize.val ≤ aux.inodeTableBlocks * info.blockSize.val) :
    SlotInTable info aux' n := by
  subst hr
  intro sparse heap dirs l
  have hget : ∃ b, aux.bgs[(inodeRef info n).bg]? = some b :=
    ⟨_, List.getElem?_eq_getElem (by rw [h.numbered.length]; exact hbg)⟩
  obtain ⟨b0, hb0⟩ := hget
  have htable := honly.inodeTable (inodeRef info n).bg
  rw [hb0, Option.map_some, h.tables _ b0 hb0, Option.map_eq_some_iff] at htable
  obtain ⟨b, hb, hnone⟩ := htable
  have hsame : aux'.inodeTableBlocks = aux.inodeTableBlocks := by rw [honly.same]
  have hlt := (List.getElem?_eq_some_iff.mp hb).1
  refine ⟨⟨aux'.setBg (inodeRef info n).bg (openedGroup info aux' b),
    sparse ++ [tableChunk info aux' (inodeRef info n).bg b], heap, dirs⟩,
    openedGroup info aux' b, .zeros (aux'.inodeTableBlocks * info.blockSize.val), ?_, ?_, ?_, ?_⟩
  · have hne : ¬ info.inodesPerGroup.val = 0 := by omega
    have hb' : aux'.bgs[sub32 n 1 / info.inodesPerGroup.val]? = some b := hb
    simp only [getInode, if_neg hne, allocateBgInodeTable, Run.bind_run, Run.read_run, hb', hnone,
      Option.isSome_none, Bool.false_eq_true, if_false, sparseFileAddData, sparseFileAdd,
      Run.update_run, onAux, onGroup, Run.zoom, Run.pure_run, openedGroup, tableChunk, inodeRef]
  · simp [FsAuxInfo.setBg, hlt]
  · simp [openedGroup, hnone]
  · rw [Buffer.size_zeros, hsame]
    exact hin

end Runs

section Exact

variable {info : FsInfo} {aux aux' : FsAuxInfo} {c m : Nat}

structure InodesFit (info : FsInfo) (groups : Nat) : Prop where
  some_group : 0 < groups
  numbers : info.inodesPerGroup.val * groups < ext4AllocateFailed
  tables : info.inodesPerGroup.val * info.inodeSize.val + info.blockSize.val ≤ 4294967296

theorem tableBlocks_mul_ge (hbs : 0 < info.blockSize.val)
    (h : info.inodesPerGroup.val * info.inodeSize.val + info.blockSize.val ≤ 4294967296) :
    info.inodesPerGroup.val * info.inodeSize.val ≤ info.inodeTableBlocks * info.blockSize.val := by
  rw [FsInfo.inodeTableBlocks, u32_of_lt (by omega), divRoundUp32_eq (by omega)]
  exact le_divRoundUp_mul _ hbs

theorem inodesHandedOut_of_fit (h : NoInodes info aux) (honly : InodesOnly aux aux')
    (hnum : InodesNumbered info (10 + c) aux') (hpos : 0 < info.inodesPerGroup.val)
    (hbs : 0 < info.blockSize.val) (hfit : InodesFit info aux.groups)
    (hc : 10 + c ≤ info.inodesPerGroup.val * aux.groups)
    (hm : m = 0 ∨ 10 + c = info.inodesPerGroup.val * aux.groups) :
    InodesHandedOut info (inodeResults c m) aux' := by
  have hnumbers := hfit.numbers
  have hgranted (m : Nat) := granted_results (show 10 + c < ext4AllocateFailed by omega) m
  have huse (n : Nat) := @inUse_results c m n (by omega)
  have htables := hfit.tables
  have hword : ext4AllocateFailed < 4294967296 := by decide
  refine ⟨?_, ?_, ?_, ?_, ?_, ?_, ?_⟩
  · rw [hgranted]
    exact List.pairwise_lt_range'
  · intro n hn
    rw [hgranted, List.head?_range'] at hn
    split at hn
    · cases hn
    · exact (Option.some.inj hn).symm
  · intro n hn
    rw [hgranted] at hn
    have hle := (List.mem_range'_1.mp hn).2
    rw [honly.groups]
    omega
  · intro i hi
    have hlen : i < c + m := by simpa [inodeResults] using hi
    rw [results_getElem hlen, take_results, granted_results (by omega), List.length_range',
      honly.groups]
    split <;> simp <;> omega
  · intro g b i hb
    rw [(hnum.taken g b hb).bits, decide_eq_true_eq, huse, takenIn]
    omega
  · intro i j hi hj hne
    rw [huse] at hi hj
    exact slotsApart_of_ne hpos (by omega) hi.1 (by omega) hj.1 (by omega) hne
  · intro n hn
    rw [huse] at hn
    have hslot := @slot_lt info.inodesPerGroup.val (n - 1) info.inodeSize.val hpos
    have hblocks := tableBlocks_mul_ge hbs htables
    refine getInode_run h honly hpos (inodeRef_eq hpos (by omega) hn.1 (by omega)) ?_ ?_
    · exact Nat.div_lt_of_lt_mul (by omega)
    · rw [h.blocks]
      exact hslot.trans hblocks

theorem reserveInodes_ok {g num v : Nat} {l l' : List Ext4Error}
    (h : reserveInodes g num (aux, l) = .ok (v, (aux', l'))) :
    v = ext4AllocateFailed ∧ aux' = aux ∨ ∃ b, aux.bgs[g]? = some b ∧
      aux' = aux.setBg g (b.giveInodes num) := by
  unfold reserveInodes onGroup Run.zoom at h
  cases hb : aux.bgs[g]? with
  | none => simp [hb] at h
  | some b =>
    simp only [hb, Run.bind_run, Run.read_run] at h
    split at h
    · rename_i hrun
      split at hrun
      · cases hrun
        cases h
        exact Or.inl ⟨rfl, setBg_self hb⟩
      · cases hrun
        cases h
        exact Or.inr ⟨b, rfl, rfl⟩
    · cases h

theorem allocateInodeFrom_ok {gs : List Nat} {v : Nat} {l l' : List Ext4Error}
    (h : allocateInodeFrom info gs (aux, l) = .ok (v, (aux', l'))) :
    v ≤ ext4AllocateFailed ∧ InodesOnly aux aux' := by
  induction gs generalizing aux l with
  | nil =>
    cases h
    exact ⟨le_rfl, refl_of InodesOnly _⟩
  | cons g rest ih =>
    obtain ⟨r, ⟨aux1, l1⟩, hres, hrest⟩ := Run.bind_ok.mp h
    have honly : InodesOnly aux aux1 := by
      obtain ⟨-, rfl⟩ | ⟨b, hb, rfl⟩ := reserveInodes_ok hres
      · exact refl_of InodesOnly _
      · exact setBg_inodesOnly hb
    split at hrest
    · cases hrest
      exact ⟨Nat.le_of_lt_succ (u32_lt _), honly⟩
    · obtain ⟨hv, honly'⟩ := ih hrest
      exact ⟨hv, trans_of InodesOnly honly honly'⟩

theorem allocateInode_ok {v : Nat} {l l' : List Ext4Error}
    (h : allocateInode info (aux, l) = .ok (v, (aux', l'))) :
    v ≤ ext4AllocateFailed ∧ InodesOnly aux aux' := by
  obtain ⟨a, st, hread, hfrom⟩ := Run.bind_ok.mp h
  cases hread
  exact allocateInodeFrom_ok hfrom

theorem takeInodes_succ (k : Nat) (st : FsAuxInfo × List Ext4Error) :
    takeInodes info (k + 1) st = (do
      let (first, ns) ← takeInodes info k
      return (first, ns ++ [← allocateInode info])) st := by
  simp only [takeInodes, allocateInodes, bind_assoc, pure_bind]

theorem numbers_of_handsOut (h : NoInodes info aux) (hipg : 10 ≤ info.inodesPerGroup.val)
    (hgroups : 0 < aux.groups) (hall : HandsOutInodes info aux) :
    info.inodesPerGroup.val * aux.groups < ext4AllocateFailed := by
  by_contra hge
  obtain ⟨c, hc⟩ : ∃ c, 10 + c + 1 = ext4AllocateFailed := ⟨4294967284, rfl⟩
  obtain ⟨aux1, hrun, -, honly⟩ := @takeInodes_run info aux c 0 [] h hipg hgroups (by omega)
    (by omega) (Or.inl rfl)
  obtain ⟨ns, aux2, htake, -, hout⟩ := hall (c + 1) []
  rw [Nat.add_zero] at hrun
  rw [takeInodes_succ, Run.bind_run, hrun] at htake
  obtain ⟨v, ⟨aux3, l3⟩, hone, hend⟩ := Run.bind_ok.mp htake
  cases hend
  obtain ⟨hv, honly2⟩ := allocateInode_ok hone
  have hgranted := granted_results (show 10 + c < ext4AllocateFailed by omega) 0
  have hlen : (inodeResults c 0).length = c := by simp [inodeResults]
  have hlast := hout.fails c (by rw [List.length_append, hlen, List.length_singleton]; omega)
  rw [List.getElem?_append_right (by rw [hlen]), hlen, Nat.sub_self, List.take_left' hlen, hgranted,
    List.length_range', honly2.groups, honly.groups, List.getElem?_cons_zero,
    Option.some.injEq] at hlast
  have hne : v ≠ ext4AllocateFailed := by
    intro heq
    have := hlast.mp heq
    omega
  have hinc := hout.increasing
  rw [granted, List.filter_append, ← granted, hgranted] at hinc
  have hmem : c + 10 ∈ List.range' 11 c := by
    rw [List.mem_range'_1]
    unfold ext4AllocateFailed at hc
    omega
  have hlt : c + 10 < v := (List.pairwise_append.mp hinc).2.2 _ hmem v (by simp [hne])
  omega

theorem tables_of_handsOut (h : NoInodes info aux) (hipg : 10 ≤ info.inodesPerGroup.val)
    (hgroups : 0 < aux.groups)
    (htable : info.inodesPerGroup.val * info.inodeSize.val < 4294967296)
    (hall : HandsOutInodes info aux) :
    info.inodesPerGroup.val * info.inodeSize.val + info.blockSize.val ≤ 4294967296 := by
  by_contra hgt
  have hbs := info.blockSize.isLt
  have hten : 10 + 0 ≤ info.inodesPerGroup.val * aux.groups :=
    hipg.trans (Nat.le_mul_of_pos_right _ hgroups)
  obtain ⟨aux1, hrun, -, honly⟩ := @takeInodes_run info aux 0 0 [] h hipg hgroups hten
    (by decide) (Or.inl rfl)
  obtain ⟨ns, aux2, htake, -, hout⟩ := hall 0 []
  rw [hrun] at htake
  cases htake
  have hsame : aux1.inodeTableBlocks = info.inodeTableBlocks := by rw [honly.same, h.blocks]
  obtain ⟨fs', b, t, hget, hb, ht, hin⟩ := hout.inside 1 (Or.inl ⟨le_rfl, by decide⟩) [] [] [] []
  obtain ⟨-, -, b0, hb0, rfl⟩ := getInode_ok hget
  have hzero : info.inodeTableBlocks = 0 := by
    rw [FsInfo.inodeTableBlocks, u32_of_lt htable, divRoundUp32]
    apply Nat.div_eq_of_lt
    simp only [u32]
    omega
  have hnone : b0.inodeTable = none := by
    have hsome := honly.inodeTable (inodeRef info 1).bg
    rw [hb0, Option.map_some, eq_comm, Option.map_eq_some_iff] at hsome
    obtain ⟨b1, hb1, heq⟩ := hsome
    rw [← heq, h.tables _ b1 hb1]
  have hlt := (List.getElem?_eq_some_iff.mp hb0).1
  rw [FsAuxInfo.setBg_bgs, List.getElem?_set_self hlt] at hb
  obtain rfl := Option.some.inj hb
  rw [openedGroup, hnone] at ht
  simp only [Option.isSome_none, Bool.false_eq_true, if_false, Option.some.injEq] at ht
  subst ht
  rw [Buffer.size_zeros, hsame, hzero, Nat.zero_mul] at hin
  have hsize : info.inodeSize.val = 0 := by omega
  rw [hsize, Nat.mul_zero] at hgt
  omega

theorem handsOutInodes_iff (h : NoInodes info aux) (hipg : 11 ≤ info.inodesPerGroup.val)
    (hbitmap : info.inodesPerGroup.val ≤ 8 * info.blockSize.val)
    (htable : info.inodesPerGroup.val * info.inodeSize.val < 4294967296) :
    HandsOutInodes info aux ↔ InodesFit info aux.groups := by
  constructor
  · intro hall
    have hgroups : 0 < aux.groups := by
      by_contra hnone
      obtain ⟨ns, aux', htake, -, -⟩ := hall 0 []
      have hlen := h.numbered.length
      have hempty : aux.bgs[0]? = none := List.getElem?_eq_none (by omega)
      simp [takeInodes, reserveInodes, onGroup, Run.zoom, Run.bind_run, hempty] at htake
    exact ⟨hgroups, numbers_of_handsOut h (by omega) hgroups hall,
      tables_of_handsOut h (by omega) hgroups htable hall⟩
  · intro hfit k l
    have htotal : 10 ≤ info.inodesPerGroup.val * aux.groups :=
      (show 10 ≤ info.inodesPerGroup.val by omega).trans
        (Nat.le_mul_of_pos_right _ hfit.some_group)
    have hnumbers := hfit.numbers
    obtain ⟨c, m, hcm, hc, hm⟩ : ∃ c m, c + m = k ∧
        10 + c ≤ info.inodesPerGroup.val * aux.groups ∧
        (m = 0 ∨ 10 + c = info.inodesPerGroup.val * aux.groups) := by
      rcases Nat.le_total (10 + k) (info.inodesPerGroup.val * aux.groups) with hle | hle
      · exact ⟨k, 0, rfl, hle, Or.inl rfl⟩
      · exact ⟨info.inodesPerGroup.val * aux.groups - 10,
          10 + k - info.inodesPerGroup.val * aux.groups, by omega, by omega, by omega⟩
    obtain ⟨aux', hrun, hnum, honly⟩ := @takeInodes_run info aux c m l h (by omega)
      hfit.some_group hc (by omega) hm
    rw [hcm] at hrun
    refine ⟨_, aux', hrun, ?_, inodesHandedOut_of_fit h honly hnum (by omega) (by omega) hfit hc hm⟩
    simp [inodeResults, hcm]

theorem noInodes_of_frames (hlen : aux.bgs.length = aux.groups)
    (hblocks : aux.inodeTableBlocks = info.inodeTableBlocks)
    (h : ∀ g (b : BlockGroupInfo), aux.bgs[g]? = some b → ∃ aux0 : FsAuxInfo,
      b.frame = (freshBg info aux0 g).frame) : NoInodes info aux := by
  refine ⟨⟨hlen, ?_⟩, ?_, hblocks⟩
  · intro g b hb
    obtain ⟨aux0, hframe⟩ := h g b hb
    rw [takenIn_of_empty (Nat.zero_le _)]
    have hfree := congrArg BlockGroupInfo.freeInodes hframe
    have hfirst := congrArg BlockGroupInfo.firstFreeInode hframe
    have hbits := congrArg BlockGroupInfo.inodeBitmap hframe
    change b.freeInodes = info.inodesPerGroup.val at hfree
    change b.firstFreeInode = 1 at hfirst
    change b.inodeBitmap = 0 at hbits
    exact ⟨hfree, fun _ => hfirst, by simp [hbits]⟩
  · intro g b hb
    obtain ⟨aux0, hframe⟩ := h g b hb
    exact congrArg BlockGroupInfo.inodeTable hframe

theorem noInodes_of_init {fs fs' : Fs} (h : InitTo info fs fs.aux.groups fs')
    (hblocks : fs.aux.inodeTableBlocks = info.inodeTableBlocks) : NoInodes info fs'.aux := by
  have haux := h.aux
  refine noInodes_of_frames ?_ (by rw [haux, hblocks]) ?_
  · rw [h.length, haux]
  · intro g b hb
    have hlt := (List.getElem?_eq_some_iff.mp hb).1
    rw [h.length] at hlt
    obtain ⟨b', hb', hmade⟩ := h.groups g hlt
    obtain rfl := Option.some.inj (hb.symm.trans hb')
    exact ⟨fs.aux, hmade.frame⟩

end Exact

section Example

def FsAuxInfo.fresh (info : FsInfo) (aux : FsAuxInfo) : FsAuxInfo :=
  { aux with bgs := (List.range aux.groups).map (freshBg info aux) }

theorem noInodes_fresh {info : FsInfo} {aux : FsAuxInfo}
    (h : aux.inodeTableBlocks = info.inodeTableBlocks) : NoInodes info (aux.fresh info) := by
  refine noInodes_of_frames (by simp [FsAuxInfo.fresh]) h ?_
  intro g b hb
  simp only [FsAuxInfo.fresh, List.getElem?_map, Option.map_eq_some_iff] at hb
  obtain ⟨i, hi, rfl⟩ := hb
  obtain ⟨hlt, rfl⟩ := List.getElem?_eq_some_iff.mp hi
  exact ⟨aux, by simp⟩

theorem handsOutInodes_iff_small : HandsOutInodes smallInfo (smallAux.fresh smallInfo) ↔
    InodesFit smallInfo 1 :=
  handsOutInodes_iff (noInodes_fresh rfl) (by decide) (by decide) (by decide)

-- make_ext4fs -J -l 8T -g 16384 -i 4294836224.
def allInodesRequest : FsRequest :=
  ⟨8796093022208, 0, 16384, 4294836224, 0, 0, 0, [], true, List.replicate 16 0⟩

def allInodesInfo : FsInfo :=
  ⟨8796093022208, 4096, 16384, 32768, 256, 0, 0, 19, 24, 66, 1024, 0, [], true,
    List.replicate 16 0⟩

-- The last group's last two inodes have the numbers of a failure and of no inode at all.
theorem inode_numbers_wrap : settleInfo allInodesRequest none = .ok allInodesInfo ∧
    ∃ aux, ext4InitFsAuxInfo allInodesInfo = some aux ∧
      ¬ HandsOutInodes allInodesInfo (aux.fresh allInodesInfo) := by
  obtain ⟨aux, haux⟩ := ext4InitFsAuxInfo_exists allInodesInfo (by decide) (by decide)
  obtain ⟨-, -, hgroups, hblocks, -⟩ := ext4InitFsAuxInfo_some haux
  refine ⟨rfl, aux, haux, fun hall => ?_⟩
  have hfit := (handsOutInodes_iff (noInodes_fresh hblocks) (by decide) (by decide)
    (by decide)).mp hall
  have hnumbers := hfit.numbers
  have hcount : (aux.fresh allInodesInfo).groups = 131072 := hgroups.trans (by decide)
  rw [hcount] at hnumbers
  exact absurd hnumbers (by decide)

end Example

end MakeExt4fs

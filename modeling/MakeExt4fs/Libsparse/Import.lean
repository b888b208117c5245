import MakeExt4fs.Libsparse.CanQueue
import MakeExt4fs.Libsparse.Turns

namespace MakeExt4fs

open ErrorLog Interrupt Words

section Found

variable (file : List UInt8) (fd : Int) (copybufSize bs hdrSz : Nat) (crc : Bool)

def foundFrom : Nat → FoundChunk → List FoundChunk
  | 0, _ => []
  | n + 1, c =>
    c :: match readChunk file fd copybufSize bs hdrSz crc c.curBlock c.reader.alone with
      | (.ok curBlock, r) => foundFrom n ⟨r, curBlock⟩
      | (.error _, _) => []

def callsOf (found : List FoundChunk) : List AddCall := found.filterMap (·.call file fd bs hdrSz)

def GoesOver (c : FoundChunk) : List FoundChunk → FoundChunk → Prop
  | [], last => last.reader.pos = c.reader.pos ∧ last.curBlock = c.curBlock
  | d :: rest, last => d = c ∧ ∃ next, c.GoesOn file bs hdrSz crc next ∧ GoesOver next rest last

end Found

section Run

variable {file : List UInt8} {fd : Int} {copybufSize bs hdrSz : Nat} {crc : Bool}

theorem foundFrom_stops {c : FoundChunk} {e : Stop Int} {r : SparseReader} (n : Nat)
    (hrun : readChunk file fd copybufSize bs hdrSz crc c.curBlock c.reader.alone = (.error e, r)) :
    foundFrom file fd copybufSize bs hdrSz crc (n + 1) c = [c] := by
  simp only [foundFrom, hrun]

theorem foundFrom_goesOn {c : FoundChunk} {curBlock : Nat} {r : SparseReader} (n : Nat)
    (hrun : readChunk file fd copybufSize bs hdrSz crc c.curBlock c.reader.alone =
      (.ok curBlock, r)) :
    foundFrom file fd copybufSize bs hdrSz crc (n + 1) c =
      c :: foundFrom file fd copybufSize bs hdrSz crc n ⟨r, curBlock⟩ := by
  simp only [foundFrom, hrun]

theorem addAll_callsOf_cons (bbl : BackedBlockList) (c : FoundChunk) (rest : List FoundChunk) :
    addAll bbl (callsOf file fd bs hdrSz (c :: rest)) =
      (addOne (c.call file fd bs hdrSz) bbl).bind
        (addAll · (callsOf file fd bs hdrSz rest)) := by
  rw [callsOf, List.filterMap_cons]
  cases c.call file fd bs hdrSz <;> rfl

def Clean (file : List UInt8) (fd : Int) (copybufSize bs hdrSz : Nat) (crc : Bool)
    (bbl : BackedBlockList) (found : List FoundChunk) : Prop :=
  (∀ c ∈ found, ¬ c.Faults file copybufSize bs hdrSz crc) ∧
    (addAll bbl (callsOf file fd bs hdrSz found)).isSome = true

theorem ends_crash_of_run {α : Type} {m : Read α} {r : SparseReader} {Q : α → SparseReader → Prop}
    {E : Stop Int → SparseReader → Prop} (hcrash : (m r).1 = .error .crash)
    (he : ∀ r', E .crash r') : m.Ends Q E r := by
  refine Act.ends_of_run (fun a r' hrun => ?_) fun e r' hrun => ?_
  · cases hcrash.symm.trans (congrArg Prod.fst hrun)
  · obtain rfl := Except.error.inj ((congrArg Prod.fst hrun).symm.trans hcrash)
    exact he r'

theorem fold_readChunk (hcopybuf : 0 < copybufSize) (hhdr : chunkHeaderLen ≤ hdrSz)
    (xs : List Nat) (c : FoundChunk) (bbl : BackedBlockList) :
    (Act.fold xs (fun cur _ => readChunk file fd copybufSize bs hdrSz crc cur) c.curBlock).Ends
      (fun cur r =>
        let found := foundFrom file fd copybufSize bs hdrSz crc xs.length c
        (∀ d ∈ found, ¬ d.Faults file copybufSize bs hdrSz crc) ∧ found.length = xs.length ∧
          addAll bbl (callsOf file fd bs hdrSz found) = some r.bbl ∧
          GoesOver file bs hdrSz crc c found ⟨r, cur⟩)
      (fun e _ => e = .crash ↔ ¬ Clean file fd copybufSize bs hdrSz crc bbl
        (foundFrom file fd copybufSize bs hdrSz crc xs.length c))
      { c.reader with bbl } := by
  induction xs generalizing c bbl with
  | nil =>
    refine ⟨fun d hd => ?_, rfl, rfl, rfl, rfl⟩
    cases hd
  | cons x xs ih =>
    have hmem : c ∈ foundFrom file fd copybufSize bs hdrSz crc (x :: xs).length c :=
      List.mem_cons_self
    rw [Act.fold, Act.ends_bind]
    by_cases hfaults : c.Faults file copybufSize bs hdrSz crc
    · refine ends_crash_of_run (readChunk_faults hhdr hfaults bbl) fun _ => ?_
      exact ⟨fun _ h => h.1 c hmem hfaults, fun _ => rfl⟩
    have hmakes := readChunk_makes fd hhdr hfaults bbl
    cases hadd : addOne (c.call file fd bs hdrSz) bbl with
    | none =>
      rw [hadd] at hmakes
      refine ends_crash_of_run hmakes fun _ => ⟨fun _ h => ?_, fun _ => rfl⟩
      have hsome := h.2
      rw [List.length_cons, foundFrom, addAll_callsOf_cons, hadd] at hsome
      cases hsome
    | some bbl' =>
      rw [hadd] at hmakes
      have halone := readChunk_ends_alone fd hcopybuf hhdr hfaults
      rcases hrun : readChunk file fd copybufSize bs hdrSz crc c.curBlock c.reader.alone
        with ⟨e | curBlock, r⟩ <;> rw [hrun] at hmakes <;> unfold Act.Ends <;> rw [hmakes]
      · have hne : e ≠ .crash := halone.stop hrun
        refine ⟨fun h => absurd h hne, fun h => absurd ?_ h⟩
        rw [List.length_cons, foundFrom_stops xs.length hrun]
        refine ⟨by simpa using hfaults, ?_⟩
        rw [addAll_callsOf_cons, hadd]
        rfl
      · have hgoes : c.GoesOn file bs hdrSz crc ⟨r, curBlock⟩ := halone.ok hrun
        rw [List.length_cons, foundFrom_goesOn xs.length hrun]
        refine (ih ⟨r, curBlock⟩ bbl').mono ?_ ?_
        · rintro cur r' ⟨hclean, hlen, hall, hover⟩
          refine ⟨List.forall_mem_cons.mpr ⟨hfaults, hclean⟩, by rw [List.length_cons, hlen], ?_, rfl,
            _, hgoes, hover⟩
          rw [addAll_callsOf_cons, hadd]
          exact hall
        · intro e r' hiff
          rw [hiff, Clean, Clean, List.forall_mem_cons, addAll_callsOf_cons, hadd, Option.bind_some]
          simp only [hfaults, not_false_eq_true, true_and]

end Run

section Import

variable (file : List UInt8) (fd : Int) (copybufSize : Nat) (crc : Bool) (copybuf : List UInt8)

def sparseHeader : SparseHeader := .ofBytes (file.take sparseHeaderLen)

def HasHeader : Prop := sparseHeaderLen ≤ file.length ∧ validHeader (sparseHeader file) = true

instance : Decidable (HasHeader file) := by
  unfold HasHeader
  infer_instance

def firstChunk : FoundChunk where
  reader := ⟨(sparseHeader file).fileHdrSz, 0, copybuf, backedBlockListNew (sparseHeader file).blkSz⟩
  curBlock := 0

def foundIn : List FoundChunk :=
  foundFrom file fd copybufSize (sparseHeader file).blkSz (sparseHeader file).chunkHdrSz crc
    (sparseHeader file).totalChunks (firstChunk file copybuf)

variable {file fd copybufSize crc copybuf}

theorem chunkHdrSz_le (h : HasHeader file) : chunkHeaderLen ≤ (sparseHeader file).chunkHdrSz := by
  have := h.2
  simp only [validHeader, decide_eq_true_eq] at this
  exact this.2.2.2

theorem sparseFileReadSparse_run (h : HasHeader file) (bs : Nat) (bbl : BackedBlockList) :
    sparseFileReadSparse file fd copybufSize bs crc ⟨0, 0, copybuf, bbl⟩ =
      (Act.fold (List.range (sparseHeader file).totalChunks) (fun cur _ =>
          readChunk file fd copybufSize bs (sparseHeader file).chunkHdrSz crc cur) 0 >>= fun cur =>
        if (sparseHeader file).totalBlks ≠ cur then Act.fail einval else pure ())
        ⟨(sparseHeader file).fileHdrSz, 0, copybuf, bbl⟩ := by
  obtain ⟨hlen, hvalid⟩ := h
  have hread : readAll file sparseHeaderLen ⟨0, 0, copybuf, bbl⟩ =
      (.ok (file.take sparseHeaderLen), ⟨sparseHeaderLen, 0, copybuf, bbl⟩) := by
    rw [readAll_run (by simpa using hlen), List.drop_zero, Nat.zero_add]
  have hfileSz : sparseHeaderLen ≤ (sparseHeader file).fileHdrSz := by
    simp only [validHeader, decide_eq_true_eq] at hvalid
    exact hvalid.2.2.1
  rw [sparseFileReadSparse, Act.bind_run, hread]
  have hhdr : SparseHeader.ofBytes (file.take sparseHeaderLen) = sparseHeader file := rfl
  simp only [hhdr, hvalid]
  rcases Nat.lt_or_ge sparseHeaderLen (sparseHeader file).fileHdrSz with hlong | hle
  · have hseek : sparseHeaderLen + ((sparseHeader file).fileHdrSz - sparseHeaderLen) =
      (sparseHeader file).fileHdrSz := Nat.add_sub_cancel' hfileSz
    simp only [Bool.not_true, Bool.false_eq_true, if_false, gt_iff_lt, if_pos hlong, seekCur,
      Act.bind_run, Act.update, hseek]
  · obtain heq : (sparseHeader file).fileHdrSz = sparseHeaderLen := Nat.le_antisymm hle hfileSz
    simp only [Bool.not_true, Bool.false_eq_true, if_false, gt_iff_lt, heq, lt_self_iff_false]

theorem import_of_not_hasHeader (h : ¬ HasHeader file) :
    sparseFileImport file fd copybufSize crc copybuf = .error (.error einval) := by
  rw [sparseFileImport]
  split
  · rfl
  · rename_i hlen
    rw [if_pos]
    rw [Bool.not_eq_true']
    exact eq_false_of_ne_true fun hvalid => h ⟨not_lt.mp hlen, hvalid⟩

theorem import_of_hasHeader (h : HasHeader file) :
    sparseFileImport file fd copybufSize crc copybuf =
      match sparseFileReadSparse file fd copybufSize (sparseHeader file).blkSz crc
        ⟨0, 0, copybuf, backedBlockListNew (sparseHeader file).blkSz⟩ with
      | (.ok (), r) => .ok ⟨(sparseHeader file).blkSz,
          (sparseHeader file).totalBlks * (sparseHeader file).blkSz, r.bbl.dataBlocks⟩
      | (.error e, _) => .error e := by
  obtain ⟨hlen, hvalid⟩ := h
  rw [sparseFileImport, if_neg (not_lt.mpr hlen), if_neg]
  · rfl
  · rw [Bool.not_eq_true', Bool.not_eq_false]
    exact hvalid

variable (fd crc copybuf) in
theorem readSparse_ends_found (hcopybuf : 0 < copybufSize) (h : HasHeader file) :
    (sparseFileReadSparse file fd copybufSize (sparseHeader file).blkSz crc).Ends
      (fun _ r =>
        let found := foundIn file fd copybufSize crc copybuf
        Clean file fd copybufSize (sparseHeader file).blkSz (sparseHeader file).chunkHdrSz crc
            (backedBlockListNew (sparseHeader file).blkSz) found ∧
          found.length = (sparseHeader file).totalChunks ∧
          addAll (backedBlockListNew (sparseHeader file).blkSz)
            (callsOf file fd (sparseHeader file).blkSz (sparseHeader file).chunkHdrSz found) =
              some r.bbl ∧
          GoesOver file (sparseHeader file).blkSz (sparseHeader file).chunkHdrSz crc
            (firstChunk file copybuf) found ⟨r, (sparseHeader file).totalBlks⟩)
      (fun e _ => e = .crash ↔ ¬ Clean file fd copybufSize (sparseHeader file).blkSz
        (sparseHeader file).chunkHdrSz crc (backedBlockListNew (sparseHeader file).blkSz)
        (foundIn file fd copybufSize crc copybuf))
      ⟨0, 0, copybuf, backedBlockListNew (sparseHeader file).blkSz⟩ := by
  unfold Act.Ends
  rw [sparseFileReadSparse_run h]
  change Act.Ends _ _ _ _
  rw [Act.ends_bind]
  refine (fold_readChunk hcopybuf (chunkHdrSz_le h)
    (List.range (sparseHeader file).totalChunks) (firstChunk file copybuf)
    (backedBlockListNew (sparseHeader file).blkSz)).mono ?_ ?_
  · rintro cur r ⟨hclean, hlen, hall, hover⟩
    rw [List.length_range] at hclean hlen hall hover
    have hclean' : Clean file fd copybufSize (sparseHeader file).blkSz
        (sparseHeader file).chunkHdrSz crc (backedBlockListNew (sparseHeader file).blkSz)
        (foundIn file fd copybufSize crc copybuf) := ⟨hclean, by rw [foundIn, hall]; rfl⟩
    refine .ite (fun _ => ⟨fun h => absurd h (error_ne_crash einval), fun h => absurd hclean' h⟩)
      fun htotal => ?_
    rw [not_not] at htotal
    rw [htotal]
    exact ⟨hclean', hlen, hall, hover⟩
  · intro e r hiff
    rw [List.length_range] at hiff
    exact hiff

end Import

end MakeExt4fs

import MakeExt4fs.Tree.Build
import MakeExt4fs.Utils.Uuid

namespace MakeExt4fs

open Words

structure FsConfigPath where
  path : List UInt8
  config : FsConfig
  deriving DecidableEq, Repr

structure FsConfigList where
  cannedData : List FsConfigPath
  cannedAlloc : Nat
  deriving DecidableEq, Repr

def FsConfigList.zero : FsConfigList := ⟨[], 0⟩

-- fs_config_path_compare: strcmp on the paths.
def pathLe (a b : FsConfigPath) : Prop := a.path.map UInt8.toNat ≤ b.path.map UInt8.toNat

instance : DecidableRel pathLe := fun a b =>
  inferInstanceAs (Decidable (a.path.map UInt8.toNat ≤ b.path.map UInt8.toNat))

-- qsort and bsearch over fs_config_path_compare, by what is documented of them.
structure SortSearch where
  qsort : List FsConfigPath → List FsConfigPath
  bsearch : List UInt8 → List FsConfigPath → Option FsConfigPath
  qsort_perm : ∀ l, (qsort l).Perm l
  qsort_sorted : ∀ l, (qsort l).Pairwise pathLe
  bsearch_some : ∀ key l p, l.Pairwise pathLe → bsearch key l = some p → p ∈ l ∧ p.path = key
  bsearch_none : ∀ key l, l.Pairwise pathLe → bsearch key l = none → ∀ p ∈ l, p.path ≠ key

def isDelim (c : UInt8) : Bool := c = 32 || c = 9

def strtok (rest : List UInt8) : Option (List UInt8 × List UInt8) :=
  match rest.dropWhile isDelim with
  | [] => none
  | c :: cs =>
    some ((c :: cs).takeWhile (! isDelim ·), ((c :: cs).dropWhile (! isDelim ·)).drop 1)

def digitValue (c : UInt8) : Nat :=
  if 48 ≤ c ∧ c ≤ 57 then c.toNat - 48
  else if 97 ≤ c ∧ c ≤ 122 then c.toNat - 87
  else if 65 ≤ c ∧ c ≤ 90 then c.toNat - 55
  else 36

def digits (base : Nat) (cs : List UInt8) : Nat :=
  (cs.takeWhile fun c => digitValue c < base).foldl (fun v c => v * base + digitValue c) 0

def detectBase : List UInt8 → Nat × List UInt8
  | 48 :: x :: d :: cs =>
    if (x = 120 ∨ x = 88) ∧ digitValue d < 16 then (16, d :: cs) else (8, 48 :: x :: d :: cs)
  | 48 :: cs => (8, 48 :: cs)
  | cs => (10, cs)

def strtol (base : Nat) (s : List UInt8) : Int :=
  let s := s.dropWhile isSpace
  let (negative, s) := match s with
    | 45 :: cs => (true, cs)
    | 43 :: cs => (false, cs)
    | cs => (false, cs)
  let (base, s) := if base = 0 then detectBase s else (base, s)
  let v : Int := if negative then - (digits base s : Int) else digits base s
  max (-9223372036854775808) (min 9223372036854775807 v)

def atoi (s : List UInt8) : Nat := ofInt32 (strtol 10 s)

def capabilitiesPrefix : List UInt8 :=
  [99, 97, 112, 97, 98, 105, 108, 105, 116, 105, 101, 115, 61]

def readCapabilities (token : List UInt8) : Nat := (strtol 0 (token.drop 13) % 18446744073709551616).toNat

def capabilitiesLoop : Nat → List UInt8 → Nat
  | 0, _ => 0
  | fuel + 1, rest =>
    match strtok rest with
    | none => 0
    | some (token, rest) =>
      if token.take 13 = capabilitiesPrefix then readCapabilities token
      else capabilitiesLoop fuel rest

-- One line as load_canned_fs_config takes it apart: no entry for a comment; strdup, atoi and
-- strtol on a token that is missing end the outer Option.
def parseLine (line : List UInt8) : Option (Option FsConfigPath) := do
  let (path, rest) ← strtok (line.takeWhile (· ≠ 0))
  if path = [] ∨ path.head? = some 35 then
    return none
  else
    let (uid, rest) ← strtok rest
    let (gid, rest) ← strtok rest
    let (mode, rest) ← strtok rest
    return some ⟨path, ⟨atoi uid, atoi gid, ofInt32 (strtol 8 mode),
      capabilitiesLoop (rest.length + 1) rest⟩⟩

def fsConfigListGrow (list : FsConfigList) : FsConfigList :=
  { list with cannedAlloc := (list.cannedAlloc + 1) * 2 }

-- Every turn makes room for another entry, so the number of entries bounds the turns.
def growLoop : Nat → FsConfigList → Option FsConfigList
  | 0, _ => none
  | fuel + 1, list =>
    if list.cannedData.length ≥ list.cannedAlloc then growLoop fuel (fsConfigListGrow list)
    else some list

-- PATH_MAX + 200.
def lineSize : Nat := 4296

def fgets : Nat → List UInt8 → List UInt8 × List UInt8
  | 0, input => ([], input)
  | _, [] => ([], [])
  | n + 1, c :: input =>
    if c = 10 then ([c], input) else (c :: (fgets n input).1, (fgets n input).2)

-- A turn reads at least a byte, so those of the file bound the turns.
def loadLoop : Nat → FsConfigList → List UInt8 → Option FsConfigList
  | _, list, [] => some list
  | 0, _, _ => none
  | fuel + 1, list, c :: input => do
    let (line, rest) := fgets (lineSize - 1) (c :: input)
    let list ← growLoop (list.cannedData.length + 2) list
    match ← parseLine line with
    | none => loadLoop fuel list rest
    | some p =>
      if list.cannedData.length < list.cannedAlloc then
        loadLoop fuel { list with cannedData := list.cannedData ++ [p] } rest
      else
        none

-- The outer Option is for a crash; file is nothing when it cannot be opened.
def loadCannedFsConfig (libc : SortSearch) (list : FsConfigList) (file : Option (List UInt8)) :
    Option (Int × FsConfigList) :=
  match file with
  | none => some (-1, list)
  | some text => do
    let list ← loadLoop text.length list text
    return (0, { list with cannedData := libc.qsort list.cannedData })

def cannedFsConfig (libc : SortSearch) (list : FsConfigList) (path : List UInt8) (_dir : Bool)
    (out : FsConfig) : Int × FsConfig :=
  match libc.bsearch path list.cannedData with
  | none => (0, out)
  | some p => (1, p.config)

def tokens (s : List UInt8) : List (List UInt8) := (s.splitOnP isDelim).filter (· ≠ [])

def lineTokens (line : List UInt8) : List (List UInt8) := tokens (line.takeWhile (· ≠ 0))

def textLines : List UInt8 → List (List UInt8)
  | [] => []
  | c :: cs =>
    if c = 10 then [c] :: textLines cs
    else match textLines cs with
      | [] => [[c]]
      | l :: ls => (c :: l) :: ls

def IsComment (line : List UInt8) : Prop := (lineTokens line).head?.bind List.head? = some 35

instance : DecidablePred IsComment := fun line =>
  inferInstanceAs (Decidable ((lineTokens line).head?.bind List.head? = some 35))

def Complete (line : List UInt8) : Prop :=
  IsComment line ∨ 4 ≤ (lineTokens line).length

def tokensConfig : List (List UInt8) → Option FsConfigPath
  | path :: uid :: gid :: mode :: rest =>
    some ⟨path, ⟨atoi uid, atoi gid, ofInt32 (strtol 8 mode),
      (rest.find? fun t => t.take 13 = capabilitiesPrefix).elim 0 readCapabilities⟩⟩
  | _ => none

def linesConfig (lines : List (List UInt8)) : List FsConfigPath :=
  (lines.filter (¬ IsComment ·)).filterMap fun line => tokensConfig (lineTokens line)

section Tokens

variable {s rest t line : List UInt8}

theorem tokens_delim {c : UInt8} (h : isDelim c = true) : tokens (c :: s) = tokens s := by
  simp [tokens, List.splitOnP_cons_eq_if_modifyHead, h]

theorem tokens_dropWhile (s : List UInt8) : tokens (s.dropWhile isDelim) = tokens s := by
  induction s with
  | nil => rfl
  | cons c cs ih =>
    cases hc : isDelim c with
    | true => rw [List.dropWhile_cons_of_pos hc, ih, tokens_delim hc]
    | false => rw [List.dropWhile_cons_of_neg (by simp [hc])]

theorem tokens_word {word : List UInt8} (hne : word ≠ []) (hword : ∀ x ∈ word, isDelim x = false)
    (hrest : ∀ d ∈ rest.head?, isDelim d = true) :
    tokens (word ++ rest) = word :: tokens (rest.drop 1) := by
  cases rest with
  | nil => simp [tokens, List.splitOnP_eq_singleton hword, hne]
  | cons d cs =>
    have hd : isDelim d = true := hrest d (by simp)
    simp [tokens, List.splitOnP_append_cons_of_forall_mem hword d hd, hne]

theorem strtok_tokens (s : List UInt8) : strtok s = none ∧ tokens s = [] ∨
    ∃ t rest, strtok s = some (t, rest) ∧ tokens s = t :: tokens rest ∧ rest.length < s.length := by
  have hlen := (List.dropWhile_suffix (l := s) isDelim).length_le
  rw [← tokens_dropWhile s, strtok]
  cases hs : s.dropWhile isDelim with
  | nil => exact Or.inl ⟨rfl, rfl⟩
  | cons c cs =>
    have hc : isDelim c = false := by
      have hhead := List.head?_dropWhile_not isDelim s
      simpa [hs] using hhead
    have hword : ∀ x ∈ (c :: cs).takeWhile (! isDelim ·), isDelim x = false := by
      intro x hx
      simpa using List.all_eq_true.mp List.all_takeWhile x hx
    have hrest : ∀ d ∈ ((c :: cs).dropWhile (! isDelim ·)).head?, isDelim d = true := by
      intro d hd
      have hhead := List.head?_dropWhile_not (! isDelim ·) (c :: cs)
      rw [hd] at hhead
      simpa using hhead
    have hsplit := tokens_word (by simp [hc]) hword hrest
    rw [List.takeWhile_append_dropWhile] at hsplit
    refine Or.inr ⟨_, _, rfl, hsplit, ?_⟩
    have := (List.dropWhile_suffix (l := c :: cs) (! isDelim ·)).length_le
    rw [hs, List.length_cons] at hlen
    simp only [List.length_drop, List.length_cons] at this ⊢
    omega

theorem capabilitiesLoop_eq {fuel : Nat} (s : List UInt8) (hfuel : s.length < fuel) :
    capabilitiesLoop fuel s =
      ((tokens s).find? fun t => t.take 13 = capabilitiesPrefix).elim 0 readCapabilities := by
  induction fuel generalizing s with
  | zero => omega
  | succ fuel ih =>
    rw [capabilitiesLoop]
    obtain ⟨hnone, htokens⟩ | ⟨t, rest, hsome, htokens, hlen⟩ := strtok_tokens s
    · rw [hnone, htokens]
      rfl
    · rw [hsome, htokens]
      dsimp only
      split
      · rename_i hcap
        simp [hcap]
      · rename_i hcap
        rw [ih rest (by omega), List.find?_cons_of_neg (by simpa using hcap)]

theorem parseLine_eq (line : List UInt8) : parseLine line =
    if IsComment line then some none else (tokensConfig (lineTokens line)).map some := by
  have hcomment : IsComment line ↔ (lineTokens line).head?.bind List.head? = some 35 := Iff.rfl
  rw [lineTokens] at hcomment ⊢
  rw [parseLine]
  obtain ⟨hnone, h0⟩ | ⟨path, r1, hpath, h1, -⟩ := strtok_tokens (line.takeWhile (· ≠ 0))
  · rw [h0] at hcomment
    rw [hnone, h0, if_neg (by simpa using hcomment)]
    rfl
  have hne : path ≠ [] := by
    have hmem : path ∈ tokens (line.takeWhile (· ≠ 0)) := h1 ▸ List.mem_cons_self
    simpa using (List.mem_filter.mp hmem).2
  rw [h1] at hcomment
  rw [hpath, h1]
  simp only [Option.bind_eq_bind, Option.bind_some, hne, false_or]
  by_cases hhash : path.head? = some 35
  · rw [if_pos hhash, if_pos (hcomment.mpr hhash)]
    rfl
  rw [if_neg hhash, if_neg fun hc => hhash (hcomment.mp hc)]
  obtain ⟨hnone, h2⟩ | ⟨uid, r2, huid, h2, -⟩ := strtok_tokens r1
  · rw [hnone, h2]
    rfl
  rw [huid, h2]
  simp only [Option.bind_some]
  obtain ⟨hnone, h3⟩ | ⟨gid, r3, hgid, h3, -⟩ := strtok_tokens r2
  · rw [hnone, h3]
    rfl
  rw [hgid, h3]
  simp only [Option.bind_some]
  obtain ⟨hnone, h4⟩ | ⟨mode, r4, hmode, h4, -⟩ := strtok_tokens r3
  · rw [hnone, h4]
    rfl
  rw [hmode, h4]
  simp only [Option.bind_some, capabilitiesLoop_eq r4 (Nat.lt_succ_self _)]
  rfl

theorem tokensConfig_isSome (ts : List (List UInt8)) : (tokensConfig ts).isSome ↔ 4 ≤ ts.length := by
  rcases ts with _ | ⟨_, _ | ⟨_, _ | ⟨_, _ | ⟨_, _⟩⟩⟩⟩ <;> simp [tokensConfig]

theorem parseLine_isSome (line : List UInt8) : (parseLine line).isSome ↔ Complete line := by
  rw [parseLine_eq, Complete]
  split
  · simp_all
  · rename_i hno
    simp [hno, tokensConfig_isSome]

end Tokens

section Lines

variable {input : List UInt8} {list : FsConfigList}

theorem textLines_cons (c : UInt8) (cs : List UInt8) : ∃ l ls, textLines (c :: cs) = l :: ls ∧
    0 < l.length := by
  rw [textLines]
  split
  · exact ⟨_, _, rfl, Nat.one_pos⟩
  · cases textLines cs with
    | nil => exact ⟨_, _, rfl, Nat.one_pos⟩
    | cons l ls => exact ⟨_, _, rfl, Nat.succ_pos _⟩

theorem fgets_line {n : Nat} {l : List UInt8} {ls : List (List UInt8)}
    (h : textLines input = l :: ls) (hn : l.length ≤ n) : (fgets n input).1 = l ∧
      textLines (fgets n input).2 = ls ∧ (fgets n input).2.length < input.length := by
  induction input generalizing n l with
  | nil => cases h
  | cons c cs ih =>
    obtain ⟨l', ls', hl, hpos⟩ := textLines_cons c cs
    obtain ⟨rfl, rfl⟩ := List.cons.inj (h.symm.trans hl)
    obtain ⟨n, rfl⟩ : ∃ m, n = m + 1 := ⟨n - 1, by omega⟩
    rw [textLines] at h
    by_cases hc : c = 10
    · rw [if_pos hc] at h
      obtain ⟨rfl, rfl⟩ := List.cons.inj h
      rw [fgets, if_pos hc]
      exact ⟨rfl, rfl, Nat.lt_succ_self _⟩
    · rw [if_neg hc] at h
      rw [fgets, if_neg hc]
      cases hcs : textLines cs with
      | nil =>
        rw [hcs] at h
        obtain ⟨rfl, rfl⟩ := List.cons.inj h
        cases cs with
        | nil => cases n <;> exact ⟨rfl, rfl, Nat.one_pos⟩
        | cons d ds =>
          obtain ⟨_, _, hsome, -⟩ := textLines_cons d ds
          rw [hcs] at hsome
          cases hsome
      | cons l1 ls1 =>
        rw [hcs] at h
        obtain ⟨rfl, rfl⟩ := List.cons.inj h
        obtain ⟨h1, h2, h3⟩ := ih hcs (by simpa using hn)
        exact ⟨by rw [h1], h2, Nat.lt_succ_of_lt h3⟩

theorem growLoop_ok {fuel : Nat} (h : list.cannedData.length < fuel + list.cannedAlloc) :
    ∃ n, growLoop (fuel + 1) list = some { list with cannedAlloc := n } ∧
      list.cannedData.length < n := by
  induction fuel generalizing list with
  | zero =>
    refine ⟨list.cannedAlloc, ?_, by omega⟩
    rw [growLoop, if_neg (by omega)]
  | succ fuel ih =>
    rw [growLoop]
    split
    · obtain ⟨n, hrun, hroom⟩ := @ih (fsConfigListGrow list) (by simp only [fsConfigListGrow]; omega)
      exact ⟨n, hrun, hroom⟩
    · exact ⟨list.cannedAlloc, rfl, by omega⟩

theorem linesConfig_cons {line : List UInt8} {ls : List (List UInt8)} {r : Option FsConfigPath}
    (h : parseLine line = some r) : linesConfig (line :: ls) = r.toList ++ linesConfig ls := by
  rw [parseLine_eq] at h
  by_cases hc : IsComment line
  · rw [if_pos hc] at h
    cases h
    simp [linesConfig, hc]
  · rw [if_neg hc] at h
    obtain ⟨p, hp, rfl⟩ := Option.map_eq_some_iff.mp h
    simp [linesConfig, hc, hp]

theorem loadLoop_turn (fuel : Nat) (list : FsConfigList) (c : UInt8) (cs : List UInt8) :
    ∃ n, loadLoop (fuel + 1) list (c :: cs) =
      (parseLine (fgets (lineSize - 1) (c :: cs)).1).bind fun r =>
        loadLoop fuel ⟨list.cannedData ++ r.toList, n⟩ (fgets (lineSize - 1) (c :: cs)).2 := by
  obtain ⟨n, hgrow, hroom⟩ := @growLoop_ok list (list.cannedData.length + 1) (by omega)
  refine ⟨n, ?_⟩
  rw [loadLoop]
  simp only [hgrow, Option.bind_eq_bind, Option.bind_some]
  congr 1
  funext r
  cases r with
  | none => simp
  | some p => simp [hroom]

theorem loadLoop_eq {fuel : Nat} {lines : List (List UInt8)} (hlines : textLines input = lines)
    (hshort : ∀ line ∈ lines, line.length < lineSize) (hfuel : input.length ≤ fuel) :
    (∀ line ∈ lines, Complete line) ∧ (∃ n, loadLoop fuel list input =
        some ⟨list.cannedData ++ linesConfig lines, n⟩) ∨
      (∃ line ∈ lines, ¬ Complete line) ∧ loadLoop fuel list input = none := by
  induction lines generalizing fuel input list with
  | nil =>
    cases input with
    | nil =>
      refine Or.inl ⟨by simp, list.cannedAlloc, ?_⟩
      cases fuel <;> simp [loadLoop, linesConfig]
    | cons c cs =>
      obtain ⟨_, _, hsome, -⟩ := textLines_cons c cs
      rw [hlines] at hsome
      cases hsome
  | cons line rest ih =>
    cases input with
    | nil => cases hlines
    | cons c cs =>
      obtain ⟨fuel, rfl⟩ : ∃ k, fuel = k + 1 := ⟨fuel - 1, by simp at hfuel; omega⟩
      have hlen := hshort line List.mem_cons_self
      obtain ⟨h1, h2, h3⟩ := fgets_line (n := lineSize - 1) hlines (by simp [lineSize] at *; omega)
      obtain ⟨n, hturn⟩ := loadLoop_turn fuel list c cs
      rw [hturn, h1]
      cases hparse : parseLine line with
      | none =>
        refine Or.inr ⟨⟨line, List.mem_cons_self, ?_⟩, rfl⟩
        rw [← parseLine_isSome, hparse]
        simp
      | some r =>
        have hcomplete : Complete line := (parseLine_isSome line).mp (by rw [hparse]; rfl)
        obtain ⟨hall, m, hrun⟩ | ⟨⟨bad, hmem, hbad⟩, hrun⟩ :=
          @ih _ ⟨list.cannedData ++ r.toList, n⟩ fuel h2
            (fun l hl => hshort l (List.mem_cons_of_mem line hl)) (by omega)
        · refine Or.inl ⟨List.forall_mem_cons.mpr ⟨hcomplete, hall⟩, m, ?_⟩
          rw [Option.bind_some, hrun, linesConfig_cons hparse, List.append_assoc]
        · exact Or.inr ⟨⟨bad, List.mem_cons_of_mem line hmem, hbad⟩, hrun⟩

end Lines

-- Nothing crashes, and afterwards every path is answered by the one line that has it.
def LoadsAsWritten (libc : SortSearch) (text : List UInt8) : Prop :=
  ∃ list, loadCannedFsConfig libc .zero (some text) = some (0, list) ∧
    (((linesConfig (textLines text)).map FsConfigPath.path).Nodup → ∀ dir out,
      (∀ p ∈ linesConfig (textLines text),
        cannedFsConfig libc list p.path dir out = (1, p.config)) ∧
      ∀ path, (∀ p ∈ linesConfig (textLines text), p.path ≠ path) →
        cannedFsConfig libc list path dir out = (0, out))

section Load

variable {libc : SortSearch} {text : List UInt8}

theorem cannedFsConfig_eq {data : List FsConfigPath} {n : Nat}
    (hnodup : (data.map FsConfigPath.path).Nodup) (path : List UInt8) (dir : Bool) (out : FsConfig) :
    (∀ p ∈ data, p.path = path →
      cannedFsConfig libc ⟨libc.qsort data, n⟩ path dir out = (1, p.config)) ∧
    ((∀ p ∈ data, p.path ≠ path) →
      cannedFsConfig libc ⟨libc.qsort data, n⟩ path dir out = (0, out)) := by
  have hmem (p : FsConfigPath) : p ∈ libc.qsort data ↔ p ∈ data := (libc.qsort_perm data).mem_iff
  have hsorted := libc.qsort_sorted data
  rw [cannedFsConfig]
  cases hfound : libc.bsearch path (libc.qsort data) with
  | none =>
    have hnone := libc.bsearch_none path _ hsorted hfound
    exact ⟨fun p hp heq => absurd heq (hnone p ((hmem p).mpr hp)), fun _ => rfl⟩
  | some q =>
    obtain ⟨hq, hpath⟩ := libc.bsearch_some path _ q hsorted hfound
    rw [hmem] at hq
    refine ⟨fun p hp heq => ?_, fun hno => absurd hpath (hno q hq)⟩
    obtain rfl : q = p := List.inj_on_of_nodup_map hnodup hq hp (hpath.trans heq.symm)
    rfl

theorem loadsAsWritten_iff (hshort : ∀ line ∈ textLines text, line.length < lineSize) :
    LoadsAsWritten libc text ↔ ∀ line ∈ textLines text, Complete line := by
  obtain ⟨hall, n, hrun⟩ | ⟨⟨bad, hmem, hbad⟩, hrun⟩ :=
    @loadLoop_eq text .zero text.length _ rfl hshort le_rfl
  · refine ⟨fun _ => hall, fun _ => ⟨_, by rw [loadCannedFsConfig, hrun]; rfl, ?_⟩⟩
    intro hnodup dir out
    exact ⟨fun p hp => (cannedFsConfig_eq hnodup p.path dir out).1 p hp rfl,
      fun path hno => (cannedFsConfig_eq hnodup path dir out).2 hno⟩
  · constructor
    · rintro ⟨list, hload, -⟩
      rw [loadCannedFsConfig, hrun] at hload
      cases hload
    · exact fun hall => absurd (hall bad hmem) hbad

end Load

instance : Std.Total pathLe := ⟨fun a b => le_total (a.path.map UInt8.toNat) (b.path.map UInt8.toNat)⟩

instance : IsTrans FsConfigPath pathLe := ⟨fun _ _ _ h h' => le_trans h h'⟩

def insertFind : SortSearch where
  qsort := List.insertionSort pathLe
  bsearch key l := l.find? fun p => p.path = key
  qsort_perm l := List.perm_insertionSort pathLe l
  qsort_sorted l := List.pairwise_insertionSort pathLe l
  bsearch_some key l p _ h := ⟨List.mem_of_find?_eq_some h, by simpa using List.find?_some h⟩
  bsearch_none key l _ h p hp := by simpa using List.find?_eq_none.mp h p hp

def someLines : List UInt8 :=
  [35, 97, 10, 98, 32, 49, 48, 48, 48, 32, 49, 32, 55, 53, 53, 32] ++ capabilitiesPrefix ++
    [48, 120, 50, 48, 10, 97, 9, 48, 32, 32, 48, 32, 54, 52, 52, 10]

example : linesConfig (textLines someLines) =
    [⟨[98], ⟨1000, 1, 0o755, 32⟩⟩, ⟨[97], ⟨0, 0, 0o644, 0⟩⟩] := by decide +kernel

theorem loadsAsWritten_iff_some : LoadsAsWritten insertFind someLines ↔
    ∀ line ∈ textLines someLines, Complete line :=
  loadsAsWritten_iff (by decide +kernel)

-- "a 0 0 644", and a blank line at the end: its token is the newline, and then none is left.
def blankEnd : List UInt8 := [97, 32, 48, 32, 48, 32, 54, 52, 52, 10, 10]

theorem blank_line_crashes : (∀ line ∈ textLines blankEnd, line.length < lineSize) ∧
    loadCannedFsConfig insertFind .zero (some blankEnd) = none ∧
    ¬ LoadsAsWritten insertFind blankEnd := by
  have hcrash : loadCannedFsConfig insertFind .zero (some blankEnd) = none := by decide +kernel
  refine ⟨by decide +kernel, hcrash, ?_⟩
  rintro ⟨list, hload, -⟩
  rw [hcrash] at hload
  cases hload

end MakeExt4fs

import MakeExt4fs.Tree.Build

namespace MakeExt4fs

open ErrorLog Words

-- The entry scan as the source runs it: one index into the names and the dentries, and a bound
-- on it. A freed name is nothing; so is a dentry that has not been filled in.
structure Scan where
  namelist : List (Option HostEntry)
  dentries : List (Option Dentry)
  i : Nat
  entries : Nat

section Loop

variable (args : BuildArgs) (fullPath dirPath : List UInt8)

def scanTurn (s : Scan) : BuildTree Scan := do
  let e ← Run.expect (s.namelist[s.i]?).join
  let s := { s with namelist := s.namelist.set s.i none }
  match scanEntry args fullPath dirPath e with
  | .ok d => return { s with dentries := s.dentries.set s.i (some d), i := s.i + 1 }
  | .error err => do
    Run.raise args.force err
    return { s with entries := s.entries - 1 }

def scanLoop : Nat → Scan → BuildTree Scan
  | 0, s => if s.i < s.entries then Run.crash else return s
  | fuel + 1, s =>
    if s.i < s.entries then do
      scanLoop fuel (← scanTurn args fullPath dirPath s)
    else
      return s

def Scan.result (s : Scan) : BuildTree (List Dentry) :=
  Run.expect ((s.dentries.take s.entries).mapM id)

def scanNames (entries : List HostEntry) : BuildTree (List Dentry) := do
  let s ← scanLoop args fullPath dirPath entries.length
    ⟨entries.map some, List.replicate entries.length none, 0, entries.length⟩
  s.result

end Loop

section Turns

variable {args : BuildArgs} {fullPath dirPath : List UInt8} {ds : List Dentry} {e : HostEntry}
  {rest : List HostEntry}

def Scan.after (ds : List Dentry) (es : List HostEntry) : Scan :=
  ⟨List.replicate ds.length none ++ es.map some, ds.map some ++ List.replicate es.length none,
    ds.length, ds.length + es.length⟩

theorem mapM_some {α : Type} (xs : List α) : (xs.map some).mapM id = some xs := by
  induction xs with
  | nil => rfl
  | cons x rest ih => simp [ih]

theorem Scan.after_result (ds : List Dentry) (t : Tree × List Ext4Error) :
    (Scan.after ds []).result t = .ok (ds, t) := by
  have htake : (Scan.after ds []).dentries.take (Scan.after ds []).entries = ds.map some := by
    simp [Scan.after]
  rw [Scan.result, htake, mapM_some]
  rfl

theorem Scan.after_name (ds : List Dentry) (e : HostEntry) (rest : List HostEntry) :
    ((Scan.after ds (e :: rest)).namelist[(Scan.after ds (e :: rest)).i]?).join = some e := by
  simp [Scan.after]

theorem set_after {α : Type} (xs ys : List α) (x y : α) :
    (xs ++ x :: ys).set xs.length y = xs ++ y :: ys := by
  simp

theorem Scan.after_append (ds : List Dentry) (d : Dentry) (rest : List HostEntry) :
    Scan.after (ds ++ [d]) rest = ⟨List.replicate ds.length none ++ none :: rest.map some,
      ds.map some ++ some d :: List.replicate rest.length none, ds.length + 1,
      ds.length + (rest.length + 1)⟩ := by
  have hlen : ds.length + 1 + rest.length = ds.length + (rest.length + 1) := by omega
  simp [Scan.after, List.replicate_succ', hlen]

theorem scanTurn_ok {d : Dentry} (h : scanEntry args fullPath dirPath e = .ok d)
    (t : Tree × List Ext4Error) :
    scanTurn args fullPath dirPath (Scan.after ds (e :: rest)) t =
      .ok (Scan.after (ds ++ [d]) rest, t) := by
  have hnames := set_after (List.replicate ds.length none) (rest.map some) (some e) none
  have hdentries := set_after (ds.map some) (List.replicate rest.length none) none (some d)
  rw [List.length_replicate] at hnames
  rw [List.length_map] at hdentries
  simp only [scanTurn, Scan.after_name, Run.expect, pure_bind, h, Scan.after_append]
  simp only [Scan.after, List.map_cons, List.length_cons, List.replicate_succ, hnames, hdentries,
    Run.pure_run]

def Scan.reread (ds : List Dentry) (rest : List HostEntry) : Scan :=
  ⟨List.replicate ds.length none ++ none :: rest.map some,
    ds.map some ++ List.replicate (rest.length + 1) none, ds.length, ds.length + rest.length⟩

theorem scanTurn_error {err : Ext4Error} (h : scanEntry args fullPath dirPath e = .error err)
    (t : Tree × List Ext4Error) :
    scanTurn args fullPath dirPath (Scan.after ds (e :: rest)) t =
      (Run.raise args.force err >>= fun _ => pure (Scan.reread ds rest)) t := by
  have hnames := set_after (List.replicate ds.length none) (rest.map some) (some e) none
  rw [List.length_replicate] at hnames
  simp only [scanTurn, Scan.after_name, Run.expect, pure_bind, h]
  simp only [Scan.after, List.map_cons, List.length_cons, hnames, Scan.reread, ← Nat.add_assoc,
    Nat.add_sub_cancel]

theorem scanLoop_reread (fuel : Nat) (t : Tree × List Ext4Error) :
    (scanLoop args fullPath dirPath fuel (Scan.reread ds rest) >>= Scan.result) t =
      (if rest = [] then (pure ds : BuildTree (List Dentry)) else Run.crash) t := by
  cases rest with
  | nil =>
    have hdone : scanLoop args fullPath dirPath fuel (Scan.reread ds []) =
        pure (Scan.reread ds []) := by
      cases fuel <;> simp [scanLoop, Scan.reread]
    have htake : (Scan.reread ds []).dentries.take (Scan.reread ds []).entries = ds.map some := by
      simp [Scan.reread]
    rw [hdone, pure_bind, Scan.result, htake, mapM_some]
    rfl
  | cons e rest =>
    have hmore : (Scan.reread ds (e :: rest)).i < (Scan.reread ds (e :: rest)).entries := by
      simp [Scan.reread]
    have hgone : (Scan.reread ds (e :: rest)).namelist[(Scan.reread ds (e :: rest)).i]?.join =
        none := by
      simp [Scan.reread]
    cases fuel with
    | zero => simp [scanLoop, hmore, Run.bind_run]
    | succ fuel => simp [scanLoop, hmore, scanTurn, hgone, Run.expect, Run.bind_run]

theorem scanLoop_run (es : List HostEntry) (ds : List Dentry) (t : Tree × List Ext4Error) :
    (scanLoop args fullPath dirPath es.length (Scan.after ds es) >>= Scan.result) t =
      (scanEntries args fullPath dirPath es >>= fun rest => pure (ds ++ rest)) t := by
  induction es generalizing ds t with
  | nil =>
    simp only [List.length_nil, scanLoop, scanEntries, pure_bind, List.append_nil, Scan.after,
      Nat.add_zero, Nat.lt_irrefl, if_false]
    exact Scan.after_result ds t
  | cons e rest ih =>
    have hmore : (Scan.after ds (e :: rest)).i < (Scan.after ds (e :: rest)).entries := by
      simp [Scan.after]
    simp only [List.length_cons, scanLoop, hmore, if_true, bind_assoc]
    cases h : scanEntry args fullPath dirPath e with
    | ok d =>
      rw [Run.bind_run, scanTurn_ok h]
      simp only [ih, scanEntries, h, bind_assoc, pure_bind, List.append_assoc,
        List.singleton_append]
    | error err =>
      rw [Run.bind_run, scanTurn_error h]
      simp only [scanEntries, h, Run.bind_run]
      cases Run.raise args.force err t with
      | error stop => rfl
      | ok p =>
        simp only [Run.pure_run, ← Run.bind_run]
        rw [scanLoop_reread]
        split <;> simp [Run.bind_run]

theorem scanNames_eq (entries : List HostEntry) :
    scanNames args fullPath dirPath entries = scanEntries args fullPath dirPath entries := by
  funext t
  have h := @scanLoop_run args fullPath dirPath entries [] t
  simpa [scanNames, Scan.after] using h

end Turns

section Remaining

variable {args : BuildArgs} {fullPath dirPath : List UInt8} {entries : List HostEntry}

def HostEntry.Scannable (e : HostEntry) : Prop := (e.lstat.bind fileTypeOf).isSome = true

instance (e : HostEntry) : Decidable e.Scannable := inferInstanceAs (Decidable (_ = _))

def dentryOf (args : BuildArgs) (fullPath dirPath : List UInt8) (e : HostEntry) : Option Dentry :=
  e.lstat.bind fun st => (fileTypeOf st).map (makeDentry args fullPath dirPath e st)

def LeavesRemaining (args : BuildArgs) (fullPath dirPath : List UInt8)
    (entries : List HostEntry) : Prop :=
  ∀ t l, ∃ l', scanNames { args with force := true } fullPath dirPath entries (t, l) =
    .ok (entries.filterMap (dentryOf args fullPath dirPath), (t, l'))

theorem scanEntry_of_scannable {e : HostEntry} (h : e.Scannable) (args : BuildArgs)
    (fullPath dirPath : List UInt8) : ∃ d, scanEntry args fullPath dirPath e = .ok d ∧
      dentryOf args fullPath dirPath e = some d := by
  unfold HostEntry.Scannable at h
  unfold scanEntry dentryOf
  cases hst : e.lstat with
  | none => simp [hst] at h
  | some st =>
    cases htype : fileTypeOf st with
    | none => simp [hst, htype] at h
    | some fileType =>
      refine ⟨makeDentry args fullPath dirPath e st fileType, ?_, ?_⟩ <;> simp [htype]

theorem scanEntry_of_not_scannable {e : HostEntry} (h : ¬ e.Scannable) (args : BuildArgs)
    (fullPath dirPath : List UInt8) : ∃ err, scanEntry args fullPath dirPath e = .error err ∧
      dentryOf args fullPath dirPath e = none := by
  unfold HostEntry.Scannable at h
  unfold scanEntry dentryOf
  cases hst : e.lstat with
  | none => exact ⟨_, rfl, rfl⟩
  | some st =>
    cases htype : fileTypeOf st with
    | none =>
      refine ⟨.unknownFileType (dirPath ++ e.name), ?_, ?_⟩ <;> simp [htype]
    | some fileType => simp [hst, htype] at h

theorem scanEntries_remaining (hforce : args.force = true)
    (h : ∀ e ∈ entries.dropLast, e.Scannable) (t : Tree) (l : List Ext4Error) :
    ∃ l', scanEntries args fullPath dirPath entries (t, l) =
      .ok (entries.filterMap (dentryOf args fullPath dirPath), (t, l')) := by
  induction entries with
  | nil => exact ⟨l, rfl⟩
  | cons e rest ih =>
    by_cases he : e.Scannable
    · obtain ⟨d, hd, hdentry⟩ := scanEntry_of_scannable he args fullPath dirPath
      obtain ⟨l', hrest⟩ := ih fun x hx => by
        cases rest with
        | nil => cases hx
        | cons y rest => exact h x (List.mem_cons_of_mem e hx)
      refine ⟨l', ?_⟩
      simp only [scanEntries, hd, Run.bind_run, hrest, Run.pure_run, List.filterMap_cons, hdentry]
    · obtain ⟨err, herr, hdentry⟩ := scanEntry_of_not_scannable he args fullPath dirPath
      obtain rfl : rest = [] := by
        cases rest with
        | nil => rfl
        | cons y rest => exact absurd (h e (by simp)) he
      refine ⟨l ++ [err], ?_⟩
      simp [scanEntries, herr, Run.bind_run, Run.raise, hforce, hdentry]

theorem scannable_of_scanEntries (hforce : args.force = true) {ds : List Dentry} {t t' : Tree}
    {l l' : List Ext4Error}
    (h : scanEntries args fullPath dirPath entries (t, l) = .ok (ds, (t', l'))) :
    ∀ e ∈ entries.dropLast, e.Scannable := by
  induction entries generalizing ds t l with
  | nil => simp
  | cons e rest ih =>
    by_cases he : e.Scannable
    · obtain ⟨d, hd, -⟩ := scanEntry_of_scannable he args fullPath dirPath
      simp only [scanEntries, hd] at h
      obtain ⟨ds', ⟨t1, l1⟩, hrest, hend⟩ := Run.bind_ok.mp h
      cases hend
      cases rest with
      | nil => simp
      | cons y rest =>
        intro x hx
        rcases List.mem_cons.mp hx with rfl | hx
        · exact he
        · exact ih hrest x hx
    · obtain ⟨err, herr, -⟩ := scanEntry_of_not_scannable he args fullPath dirPath
      cases rest with
      | nil => simp
      | cons y rest => simp [scanEntries, herr, Run.bind_run, Run.raise, hforce] at h

theorem leavesRemaining_iff (args : BuildArgs) (fullPath dirPath : List UInt8)
    (entries : List HostEntry) : LeavesRemaining args fullPath dirPath entries ↔
      ∀ e ∈ entries.dropLast, e.Scannable := by
  constructor
  · intro h
    obtain ⟨l', hrun⟩ := h ⟨⟨⟨.zero, [], [], [], [], 0, 0, 0, 0, 0, 0, 0, 0, 0⟩, [], [], []⟩, []⟩ []
    rw [scanNames_eq] at hrun
    exact scannable_of_scanEntries rfl hrun
  · intro h t l
    obtain ⟨l', hrun⟩ := @scanEntries_remaining { args with force := true }
      fullPath dirPath _ rfl h t l
    refine ⟨l', ?_⟩
    rw [scanNames_eq, hrun]
    rfl

-- A name that is gone when lstat asks for it, and a file.
def vanishing : List HostEntry :=
  [.mk [97] none none none [] none,
    .mk [98] (some ⟨0o100644, 0, 0, 0, 0⟩) (some ⟨0o100644, 0, 0, 0, 0⟩) none [] none]

theorem vanished_name_reread :
    ¬ LeavesRemaining ⟨smallInfo, true, none, -1, none⟩ [47] [] vanishing := by
  intro h
  have hlast := (leavesRemaining_iff _ _ _ _).mp h (.mk [97] none none none [] none)
    (by simp [vanishing])
  exact absurd hlast (by decide)

end Remaining

end MakeExt4fs

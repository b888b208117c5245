import MakeExt4fs.Tree.Host

namespace MakeExt4fs

section Times

def HostStat.untimed (st : HostStat) : HostStat := { st with mtime := 0 }

mutual

def HostEntry.untimed : HostEntry → HostEntry
  | .mk name lstat stat readlink contents listing =>
    .mk name (lstat.map HostStat.untimed) (stat.map HostStat.untimed) readlink contents
      (untimedListing listing)

def untimedListing : Option (List HostEntry) → Option (List HostEntry)
  | none => none
  | some entries => some (untimedAll entries)

def untimedAll : List HostEntry → List HostEntry
  | [] => []
  | e :: rest => e.untimed :: untimedAll rest

end

theorem HostEntry.scanned_mk (name : List UInt8) (lstat stat : Option HostStat)
    (readlink : Option (List UInt8)) (contents : List UInt8) (listing : Option (List HostEntry)) :
    (HostEntry.mk name lstat stat readlink contents listing).scanned =
      .mk name lstat stat readlink contents (scandir listing) := by
  cases listing <;> rfl

theorem untimedAll_eq_map (l : List HostEntry) : untimedAll l = l.map HostEntry.untimed := by
  induction l with
  | nil => rfl
  | cons e rest ih => rw [untimedAll, ih, List.map_cons]

theorem scannedAll_eq_map (l : List HostEntry) : scannedAll l = l.map HostEntry.scanned := by
  induction l with
  | nil => rfl
  | cons e rest ih => rw [scannedAll, ih, List.map_cons]

@[simp] theorem HostEntry.name_untimed (e : HostEntry) : e.untimed.name = e.name := by
  cases e
  rfl

@[simp] theorem HostEntry.name_scanned (e : HostEntry) : e.scanned.name = e.name := by
  cases e
  rw [HostEntry.scanned_mk]
  rfl

end Times

section Agreement

mutual

def SameEntry : HostEntry → HostEntry → Prop
  | .mk name lstat stat readlink contents listing, e =>
    e.name = name ∧ e.lstat.map HostStat.untimed = lstat.map HostStat.untimed ∧
      e.stat.map HostStat.untimed = stat.map HostStat.untimed ∧ e.readlink = readlink ∧
      e.contents = contents ∧ SameListing listing e.listing

def SameListing : Option (List HostEntry) → Option (List HostEntry) → Prop
  | none, listing => listing = none
  | some entries, listing => (entries.map HostEntry.name).Nodup ∧
      ∃ l l', listing = some l ∧ l.Perm l' ∧ SameAll entries l'

def SameAll : List HostEntry → List HostEntry → Prop
  | [], l => l = []
  | e :: rest, l => ∃ e' rest', l = e' :: rest' ∧ SameEntry e e' ∧ SameAll rest rest'

end

instance : Std.Total alphasortLe where
  total a b := le_total (a.name.map UInt8.toNat) (b.name.map UInt8.toNat)

instance : IsTrans HostEntry alphasortLe where
  trans _ _ _ hab hbc := le_trans hab hbc

theorem alphasortLe_antisymm {a b : HostEntry} (hab : alphasortLe a b) (hba : alphasortLe b a) :
    a.name = b.name :=
  List.map_injective_iff.mpr (fun _ _ h => UInt8.toNat_inj.mp h) (le_antisymm hab hba)

theorem sortListing_perm {l l' : List HostEntry} (h : l.Perm l')
    (hnames : (l.map HostEntry.name).Nodup) : sortListing l = sortListing l' := by
  refine List.Perm.eq_of_pairwise ?_ (List.pairwise_insertionSort alphasortLe _)
    (List.pairwise_insertionSort alphasortLe _) ?_
  · intro a b ha hb hab hba
    have hmem : ∀ x ∈ sortListing l, x ∈ l := fun x hx =>
      (List.mem_filter.mp ((List.mem_insertionSort _).mp hx)).1
    have hb' : b ∈ l := h.symm.subset ((List.mem_filter.mp ((List.mem_insertionSort _).mp hb)).1)
    exact List.inj_on_of_nodup_map hnames (hmem a ha) hb' (alphasortLe_antisymm hab hba)
  · exact (List.perm_insertionSort _ _).trans
      ((h.filter _).trans (List.perm_insertionSort _ _).symm)

theorem sortListing_untimed (l : List HostEntry) :
    sortListing (untimedAll l) = untimedAll (sortListing l) := by
  have hfilter : (l.map HostEntry.untimed).filter (fun e => filterDot e.name) =
      (l.filter fun e => filterDot e.name).map HostEntry.untimed := by
    rw [List.filter_map]
    congr 1
    apply List.filter_congr
    intro e _
    simp
  rw [untimedAll_eq_map, untimedAll_eq_map, sortListing, sortListing, hfilter]
  refine (List.map_insertionSort alphasortLe alphasortLe HostEntry.untimed _ ?_).symm
  intro a _ b _
  simp [alphasortLe]

def normalAll (l : List HostEntry) : List HostEntry := untimedAll (scannedAll l)

theorem normalAll_perm {l l' : List HostEntry} (h : l.Perm l') :
    (normalAll l).Perm (normalAll l') := by
  simp only [normalAll, untimedAll_eq_map, scannedAll_eq_map]
  exact (h.map _).map _

theorem names_normalAll (l : List HostEntry) :
    (normalAll l).map HostEntry.name = l.map HostEntry.name := by
  simp [normalAll, untimedAll_eq_map, scannedAll_eq_map]

mutual

theorem SameEntry.normal : ∀ {e e' : HostEntry}, SameEntry e e' →
    e.scanned.untimed = e'.scanned.untimed
  | .mk name lstat stat readlink contents listing, .mk name' lstat' stat' readlink' contents'
      listing', h => by
    obtain ⟨hname, hlstat, hstat, hreadlink, hcontents, hlisting⟩ := h
    have hsame := SameListing.normal hlisting
    obtain rfl : name' = name := hname
    obtain rfl : readlink' = readlink := hreadlink
    obtain rfl : contents' = contents := hcontents
    rw [HostEntry.scanned_mk, HostEntry.scanned_mk, HostEntry.untimed, HostEntry.untimed, hsame]
    exact congrArg₂ (fun l s => HostEntry.mk _ l s _ _ _) hlstat.symm hstat.symm

theorem SameListing.normal : ∀ {l l' : Option (List HostEntry)}, SameListing l l' →
    untimedListing (scandir l) = untimedListing (scandir l')
  | none, _, h => by
    rw [SameListing] at h
    rw [h]
  | some entries, _, h => by
    rw [SameListing] at h
    obtain ⟨hnames, l, l', rfl, hperm, hall⟩ := h
    have hnormal : normalAll entries = normalAll l' := SameAll.normal hall
    have hnodup : ((normalAll l').map HostEntry.name).Nodup := by
      rw [← hnormal, names_normalAll]
      exact hnames
    have hsort := sortListing_perm (normalAll_perm hperm.symm) hnodup
    simp only [scandir, Option.map_some, untimedListing, ← sortListing_untimed]
    exact congrArg some ((congrArg sortListing hnormal).trans hsort)

theorem SameAll.normal : ∀ {l l' : List HostEntry}, SameAll l l' →
    normalAll l = normalAll l'
  | [], _, h => by
    rw [SameAll] at h
    rw [h]
  | e :: rest, _, h => by
    rw [SameAll] at h
    obtain ⟨e', rest', rfl, he, hrest⟩ := h
    have hfirst := SameEntry.normal he
    have htail : normalAll rest = normalAll rest' := SameAll.normal hrest
    simp only [normalAll, scannedAll, untimedAll] at htail ⊢
    rw [hfirst, htail]

end

end Agreement

end MakeExt4fs

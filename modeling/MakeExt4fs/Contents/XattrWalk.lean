import MakeExt4fs.Allocate.Frames
import MakeExt4fs.Contents.XattrRange

namespace MakeExt4fs

open ErrorLog Words

section Sane

variable {force : Bool}

theorem peekAt_advances (off n : Nat) : Run.Advances Eq (peekAt off n) :=
  Run.advances_read.bind fun _ =>
    Run.Advances.ite (fun _ => Run.advances_pure _) fun _ => Run.advances_crash

theorem isLastEntry_advances (entry : Nat) : Run.Advances Eq (isLastEntry entry) :=
  (peekAt_advances entry 4).bind fun _ => Run.advances_pure _

theorem xattrNext_advances (entry : Nat) : Run.Advances Eq (xattrNext entry) :=
  (peekAt_advances entry 1).bind fun _ => Run.advances_pure _

theorem xattrCompare_advances (next entry : Nat) : Run.Advances Eq (xattrCompare next entry) := by
  apply (peekAt_advances (next + 1) 1).bind
  intro index
  apply (peekAt_advances (entry + 1) 1).bind
  intro index'
  apply (peekAt_advances next 1).bind
  intro len
  apply (peekAt_advances entry 1).bind
  intro len'
  exact Run.advances_read.bind fun b => Run.Advances.ite (fun _ => Run.advances_pure _) fun _ =>
    Run.Advances.ite (fun _ => Run.advances_pure _) fun _ => Run.advances_pure _

theorem xattrSaneLoop_advances (fuel entry : Nat) :
    Run.Advances Eq (xattrSaneLoop force fuel entry) := by
  induction fuel generalizing entry with
  | zero => exact Run.advances_crash
  | succ fuel ih =>
    rw [xattrSaneLoop]
    apply (isLastEntry_advances entry).bind
    intro last
    apply Run.Advances.ite
    · exact fun _ => Run.advances_pure _
    intro _
    apply (xattrNext_advances entry).bind
    intro next
    apply (isLastEntry_advances next).bind
    intro last'
    apply Run.Advances.ite
    · exact fun _ => Run.advances_pure _
    intro _
    apply (xattrCompare_advances next entry).bind
    intro cmp
    apply Run.Advances.ite
    · exact fun _ => Run.advances_raise _ _
    intro _
    apply Run.Advances.ite
    · exact fun _ => Run.advances_raise _ _
    · exact fun _ => ih next

theorem xattrAssertSane_advances (entry : Nat) : Run.Advances Eq (xattrAssertSane force entry) :=
  Run.advances_read.bind fun _ => xattrSaneLoop_advances _ _

end Sane

section Adding

variable {force : Bool} {start first stop : Nat} {as : List XAttr} {a : XAttr} {b b' : Buffer}
  {l l' : List Ext4Error}

theorem xattrAddtoRange_ok {r : Option Nat}
    (h : xattrAddtoRange force start stop first a.nameIndex a.name a.value (b, l) =
      .ok (r, (b', l'))) :
    r = none ∧ b' = b ∧ ¬ RangeFits b first stop a ∨
      ∃ (e s : Nat), r = some e ∧ RangeFits b first stop a ∧
        freeRange b first stop = some (e, (s : Int)) ∧
        first ≤ e ∧ s ≤ stop ∧ s ≤ b.size ∧ e + a.entryLen + a.valueLen ≤ s ∧
        b' = putXattr b start e (s - a.valueLen) a := by
  have hlen := a.entryLen_spec
  rw [xattrAddtoRange] at h
  split at h
  · rename_i hname
    cases h
    exact Or.inl ⟨rfl, rfl, fun hfits => by have := hfits.1; omega⟩
  rename_i hname
  obtain ⟨n, ⟨b1, l1⟩, hfree, hadd⟩ := Run.bind_ok.mp h
  obtain ⟨rfl, e, s, hloop, hrange, he, hs, rfl⟩ := xattrFreeSpace_ok hfree
  split at hadd
  · rename_i hfull
    change a.entryLen + a.valueLen > (s - e).toNat at hfull
    cases hadd
    refine Or.inl ⟨rfl, rfl, ?_⟩
    rintro ⟨-, e', s', hrange', hroom⟩
    rw [hrange] at hrange'
    cases hrange'
    omega
  rename_i hroom
  change ¬ a.entryLen + a.valueLen > (s - e).toNat at hroom
  have hlast : xattrGetLast first (b1, l1) = .ok (e, (b1, l1)) := by
    rw [xattrGetLast, Run.bind_run, Run.read_run]
    exact xattrLastLoop_of_free (xattrFreeLoop_log hloop l1) (by omega)
  obtain ⟨s, rfl⟩ : ∃ k : Nat, s = k := ⟨s.toNat, by omega⟩
  rw [Run.bind_run, hlast] at hadd
  obtain ⟨⟨⟩, ⟨c1, k1⟩, h1, hadd1⟩ := Run.bind_ok.mp hadd
  obtain ⟨⟨⟩, ⟨c2, k2⟩, h2, hadd2⟩ := Run.bind_ok.mp hadd1
  obtain ⟨⟨⟩, ⟨c3, k3⟩, h3, hadd3⟩ := Run.bind_ok.mp hadd2
  obtain ⟨⟨⟩, ⟨c4, k4⟩, h4, hadd4⟩ := Run.bind_ok.mp hadd3
  obtain ⟨⟨⟩, ⟨c5, k5⟩, h5, hadd5⟩ := Run.bind_ok.mp hadd4
  obtain ⟨⟨⟩, ⟨c6, k6⟩, h6, hadd6⟩ := Run.bind_ok.mp hadd5
  obtain ⟨⟨⟩, ⟨c7, k7⟩, h7, hadd7⟩ := Run.bind_ok.mp hadd6
  obtain ⟨⟨⟩, ⟨c8, k8⟩, h8, hadd8⟩ := Run.bind_ok.mp hadd7
  obtain ⟨⟨⟩, ⟨c9, k9⟩, h9, hadd9⟩ := Run.bind_ok.mp hadd8
  obtain ⟨⟨⟩, ⟨c10, k10⟩, h10, hend⟩ := Run.bind_ok.mp hadd9
  have hsame := (xattrAssertSane_advances first c9 k9 _ c10 k10 h10).1
  cases hend
  obtain ⟨-, rfl, rfl⟩ := pokeBytes_ok.mp h1
  obtain ⟨-, rfl, rfl⟩ := pokeAt_ok.mp h2
  obtain ⟨-, rfl, rfl⟩ := pokeAt_ok.mp h3
  obtain ⟨-, rfl, rfl⟩ := pokeBytes_ok.mp h4
  obtain ⟨-, rfl, rfl⟩ := pokeAt_ok.mp h5
  obtain ⟨-, rfl, rfl⟩ := pokeAt_ok.mp h6
  obtain ⟨-, rfl, rfl⟩ := pokeAt_ok.mp h7
  obtain ⟨hin, rfl, rfl⟩ := pokeBytes_ok.mp h8
  obtain ⟨-, rfl, rfl⟩ := pokeBytes_ok.mp h9
  have hval : e + ((s : Int) - (e : Int)).toNat - ext4XattrSize a.value.length = s - a.valueLen := by
    change _ - a.valueLen = _
    omega
  rw [hval, List.length_replicate] at hin
  change s - a.valueLen + a.valueLen ≤ _ at hin
  simp only [Buffer.size_put, Buffer.size_putLE] at hin
  refine Or.inr ⟨e, s, rfl, ⟨by omega, e, s, hrange, by omega⟩, hrange, he, by omega, by omega,
    by omega, hsame.symm.trans ?_⟩
  rw [hval]
  rfl

theorem xattrAddtoRange_some (hw : Written b start first stop as) (hnames : ∀ a ∈ as, a.Small)
    {entry : Nat}
    (h : xattrAddtoRange force start stop first a.nameIndex a.name a.value (b, l) =
      .ok (some entry, (b', l'))) :
    a.name.length ≤ 255 ∧
      first + XAttr.entriesLen as + a.entryLen + a.valueLen ≤ stop - XAttr.valuesLen as ∧
      b' = putXattr b start (first + XAttr.entriesLen as)
        (stop - XAttr.valuesLen as - a.valueLen) a := by
  have hlen := a.entryLen_spec
  obtain ⟨hnone, -, -⟩ | ⟨e, s, -, hfits, hrange, -, -, -, hroom, rfl⟩ := xattrAddtoRange_ok h
  · cases hnone
  -- An entry alone takes 16 bytes, so the word behind the last entry was free.
  obtain ⟨-, rfl, hs⟩ | hsmall := hw.range hnames hrange
  · obtain rfl : s = stop - XAttr.valuesLen as := by omega
    exact ⟨hfits.1, hroom, rfl⟩
  · omega

def addXattrs (force : Bool) (start stop first : Nat) : List XAttr → OnBuffer Bool
  | [] => return true
  | a :: rest => do
    match ← xattrAddtoRange force start stop first a.nameIndex a.name a.value with
    | none => return false
    | some _ => addXattrs force start stop first rest

theorem addXattrs_written (hw : Written b start first stop as) (hnames : ∀ a ∈ as, a.Small)
    {more : List XAttr} (hmore : ∀ a ∈ more, a.Small)
    (h : addXattrs force start stop first more (b, l) = .ok (true, (b', l'))) :
    Written b' start first stop (as ++ more) := by
  induction more generalizing as b l with
  | nil =>
    cases h
    simpa using hw
  | cons a rest ih =>
    obtain ⟨added, ⟨b1, l1⟩, h1, hrest⟩ := Run.bind_ok.mp h
    cases added with
    | none => cases hrest
    | some entry =>
      obtain ⟨hname, hroom, rfl⟩ := xattrAddtoRange_some hw hnames h1
      have hsmall := hmore a List.mem_cons_self
      have hnext := ih (hw.add hname hsmall.2 hroom) ?_
        (fun x hx => hmore x (List.mem_cons_of_mem a hx)) hrest
      · simpa using hnext
      · intro x hx
        rcases List.mem_append.mp hx with hx | hx
        · exact hnames x hx
        · rw [List.mem_singleton.mp hx]
          exact hsmall

end Adding

structure XEntry where
  pos : Nat
  attr : XAttr
  valueAt : Nat
  deriving DecidableEq, Repr

def readEntry (b : Buffer) (start pos : Nat) : XEntry where
  pos := pos
  attr :=
    { nameIndex := b.get (pos + 1)
      name := b.slice (pos + 16) (b.get pos)
      value := b.slice (start + b.get16 (pos + 2)) (b.get32 (pos + 8)) }
  valueAt := start + b.get16 (pos + 2)

def walkEntries (b : Buffer) (start stop : Nat) : Nat → Nat → Option (List XEntry × Nat)
  | 0, _ => none
  | fuel + 1, pos =>
    if stop < pos + 4 then
      none
    else if b.getLE pos 4 = 0 then
      some ([], pos)
    else
      (walkEntries b start stop fuel (pos + ext4XattrLen (b.get pos))).map fun r =>
        (readEntry b start pos :: r.1, r.2)

def ValuesAt : Nat → List XEntry → Prop
  | _, [] => True
  | top, e :: rest => (e.attr.value ≠ [] → e.valueAt = top - e.attr.valueLen) ∧
      ValuesAt (top - e.attr.valueLen) rest

def XEntry.spans (e : XEntry) : List Span :=
  [⟨e.pos, e.attr.entryLen⟩, ⟨e.valueAt, e.attr.value.length⟩]

structure Decodes (b : Buffer) (start first stop : Nat) (as : List XAttr) (es : List XEntry)
    (last : Nat) : Prop where
  walk : walkEntries b start stop (b.size + 1) first = some (es, last)
  attrs : es.map XEntry.attr = as
  values : ValuesAt stop es
  apart : (⟨last, 4⟩ :: es.flatMap XEntry.spans).Pairwise Span.Apart

def OffsetsFit (start : Nat) : Nat → List XAttr → Prop
  | _, [] => True
  | top, a :: rest => (a.value ≠ [] → top - a.valueLen - start < 65536) ∧
      OffsetsFit start (top - a.valueLen) rest

structure Encodable (start first stop : Nat) (as : List XAttr) : Prop where
  terminator : first + XAttr.entriesLen as + XAttr.valuesLen as + 4 ≤ stop
  indices : ∀ a ∈ as, a.nameIndex < 256
  sizes : ∀ a ∈ as, a.value.length < 4294967296
  offsets : OffsetsFit start stop as

section Walking

variable {start pos top first stop fuel last : Nat} {as : List XAttr} {es : List XEntry} {b : Buffer}

theorem walkEntries_some (h : walkEntries b start stop fuel pos = some (es, last)) :
    last = pos + XAttr.entriesLen (es.map XEntry.attr) ∧ last + 4 ≤ stop ∧
      ∀ e ∈ es, e.attr.nameIndex < 256 ∧ e.attr.value.length < 4294967296 ∧
        e.valueAt < start + 65536 := by
  induction fuel generalizing pos es with
  | zero => cases h
  | succ fuel ih =>
    rw [walkEntries] at h
    split at h
    · cases h
    split at h
    · cases h
      exact ⟨by simp, by omega, by simp⟩
    obtain ⟨⟨es', last'⟩, hrest, heq⟩ := Option.map_eq_some_iff.mp h
    cases heq
    obtain ⟨hlast, hstop, hall⟩ := ih hrest
    have hlen : (readEntry b start pos).attr.entryLen = ext4XattrLen (b.get pos) := by
      simp [readEntry, XAttr.entryLen]
    refine ⟨?_, hstop, ?_⟩
    · rw [List.map_cons, XAttr.entriesLen_cons, hlen, hlast, Nat.add_assoc]
    · intro e he
      rcases List.mem_cons.mp he with rfl | he
      · have hsize : b.get32 (pos + 8) < 4294967296 := b.getLE_lt (pos + 8) 4
        have hoffs : b.get16 (pos + 2) < 65536 := b.getLE_lt (pos + 2) 2
        refine ⟨b.get_lt (pos + 1), ?_, ?_⟩
        · simpa [readEntry] using hsize
        · exact Nat.add_lt_add_left hoffs start
      · exact hall e he

theorem ValuesAt.offsetsFit (h : ValuesAt top es) (hall : ∀ e ∈ es, e.valueAt < start + 65536) :
    OffsetsFit start top (es.map XEntry.attr) := by
  induction es generalizing top with
  | nil => trivial
  | cons e rest ih =>
    refine ⟨?_, ih h.2 fun x hx => hall x (List.mem_cons_of_mem e hx)⟩
    intro hvalue
    have hat := h.1 hvalue
    have := hall e List.mem_cons_self
    omega

theorem ValuesAt.lowest (h : ValuesAt top es)
    (hpos : 0 < XAttr.valuesLen (es.map XEntry.attr)) :
    ∃ e ∈ es, e.attr.value ≠ [] ∧ e.valueAt = top - XAttr.valuesLen (es.map XEntry.attr) := by
  induction es generalizing top with
  | nil => simp at hpos
  | cons e rest ih =>
    rw [List.map_cons, XAttr.valuesLen_cons] at hpos ⊢
    rcases Nat.eq_zero_or_pos (XAttr.valuesLen (rest.map XEntry.attr)) with hzero | hrest
    · have hvalue := e.attr.valueLen_pos_iff.mp (by omega)
      refine ⟨e, List.mem_cons_self, hvalue, ?_⟩
      rw [h.1 hvalue, hzero, Nat.add_zero]
    · obtain ⟨x, hx, hvalue, hat⟩ := ih h.2 hrest
      exact ⟨x, List.mem_cons_of_mem e hx, hvalue, by rw [hat, Nat.sub_sub]⟩

theorem Decodes.encodable (h : Decodes b start first stop as es last)
    (hfits : first + XAttr.entriesLen as + XAttr.valuesLen as ≤ stop) :
    Encodable start first stop as := by
  obtain ⟨hlast, hstop, hall⟩ := walkEntries_some h.walk
  have hattrs := h.attrs
  rw [hattrs] at hlast
  constructor
  · rcases Nat.eq_zero_or_pos (XAttr.valuesLen as) with hzero | hpos
    · omega
    · obtain ⟨e, he, hvalue, hat⟩ := h.values.lowest (by rw [hattrs]; exact hpos)
      rw [hattrs] at hat
      have hspan : (⟨e.valueAt, e.attr.value.length⟩ : Span) ∈ es.flatMap XEntry.spans :=
        List.mem_flatMap.mpr ⟨e, he, by simp [XEntry.spans]⟩
      have hlen := List.length_pos_iff.mpr hvalue
      have hapart := (List.pairwise_cons.mp h.apart).1 _ hspan e.valueAt
      by_contra hno
      apply hapart
      · exact ⟨by simp only; omega, by simp only; omega⟩
      · exact ⟨le_rfl, by simp only; omega⟩
  · intro a ha
    rw [← hattrs] at ha
    obtain ⟨e, he, rfl⟩ := List.mem_map.mp ha
    exact (hall e he).1
  · intro a ha
    rw [← hattrs] at ha
    obtain ⟨e, he, rfl⟩ := List.mem_map.mp ha
    exact (hall e he).2.1
  · rw [← hattrs]
    exact h.values.offsetsFit fun e he => (hall e he).2.2

theorem apart_of_ends {s t : Span} (h : s.len = 0 ∨ t.len = 0 ∨ s.first + s.len ≤ t.first ∨
    t.first + t.len ≤ s.first) : s.Apart t := by
  intro i hs ht
  have := hs.1
  have := hs.2
  have := ht.1
  have := ht.2
  omega

def Between (pos mid low top : Nat) (s : Span) : Prop :=
  s.len = 0 ∨ pos ≤ s.first ∧ s.first + s.len ≤ mid ∨ low ≤ s.first ∧ s.first + s.len ≤ top

theorem readEntry_attr {a : XAttr} (h : IsXattr b start pos top a) (hindex : a.nameIndex < 256)
    (hoff : a.value ≠ [] → top - a.valueLen - start < 65536) (hstart : start ≤ top - a.valueLen) :
    (readEntry b start pos).attr = a ∧
      (a.value ≠ [] → (readEntry b start pos).valueAt = top - a.valueLen) := by
  have hat : a.value ≠ [] → start + b.get16 (pos + 2) = top - a.valueLen := by
    intro hvalue
    rw [h.valueOffs, u16_of_lt (hoff hvalue)]
    omega
  have hvalue : b.slice (start + b.get16 (pos + 2)) (b.get32 (pos + 8)) = a.value := by
    rw [h.valueSize]
    by_cases hnil : a.value = []
    · simp [hnil, Buffer.slice]
    · rw [hat hnil, h.value]
  refine ⟨?_, hat⟩
  rw [readEntry, hvalue, h.nameLen, h.name, h.nameIndex, Nat.mod_eq_of_lt hindex]

theorem walkEntries_written (hat : XattrsAt b start pos top as) (hnames : ∀ a ∈ as, a.Small)
    (hindex : ∀ a ∈ as, a.nameIndex < 256) (hoff : OffsetsFit start top as)
    (hstart : start + XAttr.valuesLen as ≤ top)
    (hroom : pos + XAttr.entriesLen as + 4 ≤ stop)
    (hfits : pos + XAttr.entriesLen as + XAttr.valuesLen as ≤ top)
    (hzero : b.getLE (pos + XAttr.entriesLen as) 4 = 0) (hfuel : as.length < fuel) :
    ∃ es, walkEntries b start stop fuel pos = some (es, pos + XAttr.entriesLen as) ∧
      es.map XEntry.attr = as ∧ ValuesAt top es ∧
      (∀ s ∈ es.flatMap XEntry.spans,
        Between pos (pos + XAttr.entriesLen as) (top - XAttr.valuesLen as) top s) ∧
      (es.flatMap XEntry.spans).Pairwise Span.Apart := by
  obtain ⟨fuel, rfl⟩ : ∃ k, fuel = k + 1 := ⟨fuel - 1, by omega⟩
  induction as generalizing pos top fuel with
  | nil =>
    simp only [XAttr.entriesLen_nil, Nat.add_zero] at hroom hzero
    refine ⟨[], ?_, rfl, trivial, by simp, by simp⟩
    rw [walkEntries, if_neg (by omega), if_pos hzero]
    rfl
  | cons a rest ih =>
    obtain ⟨hentry, hrest⟩ := hat
    have hlen := a.entryLen_spec
    have hval := a.valueLen_spec
    have hname := hnames a List.mem_cons_self
    rw [XAttr.entriesLen_cons, ← Nat.add_assoc] at hroom hfits hzero
    rw [XAttr.valuesLen_cons] at hstart hfits
    rw [List.length_cons] at hfuel
    obtain ⟨fuel, rfl⟩ : ∃ k, fuel = k + 1 := ⟨fuel - 1, by omega⟩
    obtain ⟨es, hwalk, hattrs, hvalues, hwhere, hapart⟩ := ih hrest
      (fun x hx => hnames x (List.mem_cons_of_mem a hx))
      (fun x hx => hindex x (List.mem_cons_of_mem a hx)) hoff.2 (by omega) hroom (by omega) hzero
      fuel (by omega)
    obtain ⟨hattr, hplace⟩ := readEntry_attr hentry (hindex a List.mem_cons_self) hoff.1 (by omega)
    have hword : b.getLE pos 4 ≠ 0 := word_ne_zero (by
      rw [hentry.nameLen]
      have := hname.1
      omega)
    have hvalueSpan : a.value.length = 0 ∨
        (readEntry b start pos).valueAt + a.valueLen = top := by
      by_cases hnil : a.value = []
      · exact Or.inl (by simp [hnil])
      · rw [hplace hnil]
        omega
    refine ⟨readEntry b start pos :: es, ?_, ?_, ?_, ?_, ?_⟩
    · rw [walkEntries, if_neg (by omega), if_neg hword, hentry.nameLen]
      change Option.map _ (walkEntries b start stop (fuel + 1) (pos + a.entryLen)) = _
      rw [hwalk, XAttr.entriesLen_cons, Nat.add_assoc]
      rfl
    · rw [List.map_cons, hattr, hattrs]
    · refine ⟨?_, ?_⟩
      · rw [hattr]
        exact hplace
      · rw [hattr]
        exact hvalues
    · intro s hs
      rw [List.flatMap_cons, XEntry.spans, hattr] at hs
      rw [XAttr.entriesLen_cons, XAttr.valuesLen_cons, Between]
      rcases List.mem_append.mp hs with hs | hs
      · simp only [List.mem_cons, List.not_mem_nil, or_false] at hs
        rcases hs with rfl | rfl
        · simp only [readEntry]
          omega
        · simp only
          omega
      · have := hwhere s hs
        rw [Between] at this
        omega
    · rw [List.flatMap_cons, XEntry.spans, hattr]
      simp only [List.cons_append, List.nil_append, List.pairwise_cons, List.mem_cons]
      refine ⟨?_, ?_, hapart⟩
      · intro s hs
        apply apart_of_ends
        rcases hs with rfl | hs
        · simp only [readEntry] at hvalueSpan ⊢
          omega
        · have := hwhere s hs
          simp only [Between, readEntry] at this ⊢
          omega
      · intro s hs
        apply apart_of_ends
        have := hwhere s hs
        simp only [Between] at this ⊢
        omega

end Walking

section Region

variable {b : Buffer} {start first stop : Nat} {as : List XAttr}

theorem Written.decodes (hw : Written b start first stop as) (hnames : ∀ a ∈ as, a.Small)
    (hstart : start ≤ first) (h : Encodable start first stop as) :
    ∃ es last, Decodes b start first stop as es last := by
  have hroom := h.terminator
  have hin := hw.inside
  have hcount := length_le_entriesLen as
  have hzero : b.getLE (first + XAttr.entriesLen as) 4 = 0 :=
    word_eq_zero fun i h1 h2 => hw.free i h1 (by omega)
  obtain ⟨es, hwalk, hattrs, hvalues, hwhere, hapart⟩ := @walkEntries_written start first stop
    stop (b.size + 1) as b hw.entries hnames h.indices h.offsets (by omega) (by omega) (by omega)
    hzero (by omega)
  refine ⟨es, _, hwalk, hattrs, hvalues, List.pairwise_cons.mpr ⟨?_, hapart⟩⟩
  intro s hs
  have := hwhere s hs
  apply apart_of_ends
  simp only [Between] at this ⊢
  omega

theorem written_of_zeros (hfirst : first ≤ stop) (hin : stop ≤ b.size)
    (hzero : ∀ i, first ≤ i → i < stop → b.get i = 0) : Written b start first stop [] where
  entries := trivial
  fits := by simpa using hfirst
  inside := hin
  free i h1 h2 := hzero i (by simpa using h1) (by simpa using h2)

theorem addXattrs_decodes_iff {b b' : Buffer} {start first stop : Nat} {as : List XAttr}
    {l l' : List Ext4Error} {force : Bool} (hstart : start ≤ first) (hfirst : first ≤ stop)
    (hin : stop ≤ b.size) (hzero : ∀ i, first ≤ i → i < stop → b.get i = 0)
    (hname : ∀ a ∈ as, 1 ≤ a.name.length)
    (h : addXattrs force start stop first as (b, l) = .ok (true, (b', l'))) :
    (∃ es last, Decodes b' start first stop as es last) ↔ Encodable start first stop as := by
  have hempty : Written b start first stop [] := written_of_zeros hfirst hin hzero
  have hrun : (∀ a ∈ as, a.value.length < 4294967296) → Written b' start first stop as := by
    intro hsizes
    simpa using addXattrs_written hempty (by simp) (fun a ha => ⟨hname a ha, hsizes a ha⟩) h
  constructor
  · rintro ⟨es, last, hdec⟩
    obtain ⟨-, -, hall⟩ := walkEntries_some hdec.walk
    have hsizes : ∀ a ∈ as, a.value.length < 4294967296 := by
      intro a ha
      rw [← hdec.attrs] at ha
      obtain ⟨e, he, rfl⟩ := List.mem_map.mp ha
      exact (hall e he).2.1
    exact hdec.encodable (hrun hsizes).fits
  · intro henc
    exact (hrun henc.sizes).decodes (fun a ha => ⟨hname a ha, henc.sizes a ha⟩) hstart henc

def addsAll (b : Buffer) (start first stop : Nat) (as : List XAttr) : Bool :=
  match addXattrs false start stop first as (b, []) with
  | .ok (r, _) => r
  | .error _ => false

theorem addsAll_run (b : Buffer) (start first stop : Nat) (as : List XAttr)
    (h : addsAll b start first stop as = true) :
    ∃ b' l', addXattrs false start stop first as (b, []) = .ok (true, (b', l')) := by
  unfold addsAll at h
  cases hrun : addXattrs false start stop first as (b, []) with
  | error e => simp [hrun] at h
  | ok p =>
    obtain ⟨r, b', l'⟩ := p
    simp only [hrun] at h
    exact ⟨b', l', by rw [h]⟩

def severalXattrs : List XAttr :=
  [⟨1, [110, 111, 116, 101], [104, 105]⟩,
    ⟨6, [115, 101, 108, 105, 110, 117, 120], List.replicate 21 117⟩,
    ⟨6, xattrCapsSuffix, capData 1⟩]

theorem addXattrs_decodes_iff_several :
    ∃ b' l', addXattrs false 160 512 160 severalXattrs (Buffer.zeros 512, []) =
        .ok (true, (b', l')) ∧
      ((∃ es last, Decodes b' 160 160 512 severalXattrs es last) ↔
        Encodable 160 160 512 severalXattrs) := by
  obtain ⟨b', l', hrun⟩ := addsAll_run (Buffer.zeros 512) 160 160 512 severalXattrs
    (by decide +kernel)
  exact ⟨b', l', hrun, addXattrs_decodes_iff (by decide) (by decide) (by decide)
    (fun i _ _ => Buffer.get_zeros 512 i) (by decide) hrun⟩

-- 28 bytes of entry and 68 of value leave no word of zeros, so the value is read as an entry.
def exactFit : XAttr := ⟨6, xattrCapsSuffix, [1, 7] ++ List.replicate 66 0⟩

theorem exactFit_not_decoded :
    ∃ b' l', addXattrs false 0 96 0 [exactFit] (Buffer.zeros 96, []) = .ok (true, (b', l')) ∧
      ¬ ∃ es last, Decodes b' 0 0 96 [exactFit] es last := by
  obtain ⟨b', l', hrun⟩ := addsAll_run (Buffer.zeros 96) 0 0 96 [exactFit] (by decide +kernel)
  refine ⟨b', l', hrun, ?_⟩
  rintro ⟨es, last, hdec⟩
  have hno := (hdec.encodable (by decide +kernel)).terminator
  revert hno
  decide +kernel

end Region

end MakeExt4fs

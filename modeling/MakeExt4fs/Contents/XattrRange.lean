import MakeExt4fs.Contents.Xattr
import MakeExt4fs.Contents.Directory
import MakeExt4fs.Lib.Evolves
import MakeExt4fs.Lib.Spans

namespace MakeExt4fs

open ErrorLog Words

structure XAttr where
  nameIndex : Nat
  name : List UInt8
  value : List UInt8
  deriving DecidableEq, Repr

namespace XAttr

def entryLen (a : XAttr) : Nat := ext4XattrLen a.name.length

def valueLen (a : XAttr) : Nat := ext4XattrSize a.value.length

def entriesLen (as : List XAttr) : Nat := (as.map entryLen).sum

def valuesLen (as : List XAttr) : Nat := (as.map valueLen).sum

@[simp] theorem entriesLen_nil : entriesLen [] = 0 := rfl

@[simp] theorem valuesLen_nil : valuesLen [] = 0 := rfl

@[simp] theorem entriesLen_cons (a : XAttr) (as : List XAttr) :
    entriesLen (a :: as) = a.entryLen + entriesLen as := by simp [entriesLen]

@[simp] theorem valuesLen_cons (a : XAttr) (as : List XAttr) :
    valuesLen (a :: as) = a.valueLen + valuesLen as := by simp [valuesLen]

@[simp] theorem entriesLen_append (as bs : List XAttr) :
    entriesLen (as ++ bs) = entriesLen as + entriesLen bs := by simp [entriesLen]

@[simp] theorem valuesLen_append (as bs : List XAttr) :
    valuesLen (as ++ bs) = valuesLen as + valuesLen bs := by simp [valuesLen]

theorem entryLen_spec (a : XAttr) : 16 + a.name.length ≤ a.entryLen ∧ 16 ≤ a.entryLen ∧
    a.entryLen < 20 + a.name.length ∧ a.entryLen % 4 = 0 := by
  simp only [entryLen, ext4XattrLen, sizeofXattrEntry]
  omega

theorem valueLen_spec (a : XAttr) : a.value.length ≤ a.valueLen ∧
    a.valueLen < a.value.length + 4 ∧ a.valueLen % 4 = 0 := by
  simp only [valueLen, ext4XattrSize]
  omega

theorem valueLen_pos_iff (a : XAttr) : 0 < a.valueLen ↔ a.value ≠ [] := by
  rw [ne_eq, ← List.length_eq_zero_iff]
  simp only [valueLen, ext4XattrSize]
  omega

end XAttr

structure IsXattr (b : Buffer) (start pos top : Nat) (a : XAttr) : Prop where
  nameLen : b.get pos = a.name.length
  nameIndex : b.get (pos + 1) = a.nameIndex % 256
  valueOffs : b.get16 (pos + 2) = u16 (top - a.valueLen - start)
  valueSize : b.get32 (pos + 8) = a.value.length
  name : b.slice (pos + 16) a.name.length = a.name
  value : b.slice (top - a.valueLen) a.value.length = a.value

def XattrsAt (b : Buffer) (start : Nat) : Nat → Nat → List XAttr → Prop
  | _, _, [] => True
  | pos, top, a :: rest => IsXattr b start pos top a ∧
      XattrsAt b start (pos + a.entryLen) (top - a.valueLen) rest

structure Written (b : Buffer) (start first stop : Nat) (as : List XAttr) : Prop where
  entries : XattrsAt b start first stop as
  fits : first + XAttr.entriesLen as + XAttr.valuesLen as ≤ stop
  inside : stop ≤ b.size
  free : ∀ i, first + XAttr.entriesLen as ≤ i → i < stop - XAttr.valuesLen as → b.get i = 0

def XAttr.Small (a : XAttr) : Prop := 1 ≤ a.name.length ∧ a.value.length < 4294967296

section Reading

variable {b : Buffer} {start pos top first stop : Nat} {a : XAttr} {as : List XAttr}
  {l : List Ext4Error} {force : Bool}

theorem getLE_one (b : Buffer) (i : Nat) : b.getLE i 1 = b.get i := by simp [Buffer.getLE]

theorem peekAt_run {off n : Nat} (h : off + n ≤ b.size) :
    peekAt off n (b, l) = .ok (b.getLE off n, (b, l)) := by
  simp only [peekAt, Run.bind_run, Run.read_run, if_pos h, Run.pure_run]

theorem isLastEntry_run (h : pos + 4 ≤ b.size) :
    isLastEntry pos (b, l) = .ok (decide (b.getLE pos 4 = 0), (b, l)) := by
  simp only [isLastEntry, Run.bind_run, peekAt_run h, Run.pure_run]

theorem xattrNext_run (h : pos < b.size) :
    xattrNext pos (b, l) = .ok (pos + ext4XattrLen (b.get pos), (b, l)) := by
  simp only [xattrNext, Run.bind_run, peekAt_run (show pos + 1 ≤ b.size by omega), getLE_one,
    Run.pure_run]

theorem word_ne_zero (h : b.get pos ≠ 0) : b.getLE pos 4 ≠ 0 := by
  rw [Buffer.getLE]
  omega

theorem word_eq_zero (h : ∀ i, pos ≤ i → i < pos + 4 → b.get i = 0) : b.getLE pos 4 = 0 := by
  rw [← Buffer.getLE_zeros 0 pos 4]
  exact Buffer.getLE_congr fun i h1 h2 => by rw [h i h1 h2, Buffer.get_zeros]

theorem xattrFreeLoop_written (hat : XattrsAt b start pos top as) (hnames : ∀ a ∈ as, a.Small)
    (hfits : pos + XAttr.entriesLen as + XAttr.valuesLen as ≤ top) (hin : top ≤ b.size) (fuel : Nat) :
    xattrFreeLoop (fuel + as.length) pos top (b, l) =
      xattrFreeLoop fuel (pos + XAttr.entriesLen as) ((top - XAttr.valuesLen as : Nat) : Int)
        (b, l) := by
  induction as generalizing pos top with
  | nil => simp
  | cons a rest ih =>
    obtain ⟨hentry, hrest⟩ := hat
    have hname := hnames a List.mem_cons_self
    have hlen := a.entryLen_spec
    rw [XAttr.entriesLen_cons, XAttr.valuesLen_cons] at hfits
    have hword : b.getLE pos 4 ≠ 0 := word_ne_zero (by
      rw [hentry.nameLen]
      have := hname.1
      omega)
    have hmore : (pos : Int) < (top : Int) := by omega
    have hsize : (top : Int) - (ext4XattrSize (b.getLE (pos + 8) 4) : Nat) =
        ((top - a.valueLen : Nat) : Int) := by
      have : b.getLE (pos + 8) 4 = a.value.length := hentry.valueSize
      rw [this]
      change (top : Int) - (a.valueLen : Nat) = _
      omega
    rw [List.length_cons, ← Nat.add_assoc, xattrFreeLoop]
    simp only [Run.bind_run, isLastEntry_run (show pos + 4 ≤ b.size by omega), hword, decide_false,
      Bool.not_false, Bool.true_and, decide_eq_true_eq, hmore, if_true,
      peekAt_run (show pos + 8 + 4 ≤ b.size by omega), xattrNext_run (show pos < b.size by omega),
      hsize, hentry.nameLen]
    have hstep := ih hrest (fun x hx => hnames x (List.mem_cons_of_mem a hx)) (by omega) (by omega)
    change xattrFreeLoop (fuel + rest.length) (pos + a.entryLen) _ (b, l) = _
    rw [hstep, XAttr.entriesLen_cons, XAttr.valuesLen_cons, Nat.add_assoc, Nat.sub_sub]

theorem peekAt_ok {off n v : Nat} {b' : Buffer} {l' : List Ext4Error}
    (h : peekAt off n (b, l) = .ok (v, (b', l'))) : b' = b ∧ l' = l := by
  simp only [peekAt, Run.bind_run, Run.read_run] at h
  split at h
  · cases h
    exact ⟨rfl, rfl⟩
  · cases h

theorem isLastEntry_ok {v : Bool} {b' : Buffer} {l' : List Ext4Error}
    (h : isLastEntry pos (b, l) = .ok (v, (b', l'))) : b' = b ∧ l' = l := by
  obtain ⟨w, st, hpeek, hend⟩ := Run.bind_ok.mp h
  cases hend
  exact peekAt_ok hpeek

theorem xattrNext_ok {v : Nat} {b' : Buffer} {l' : List Ext4Error}
    (h : xattrNext pos (b, l) = .ok (v, (b', l'))) : b' = b ∧ l' = l ∧ pos ≤ v := by
  obtain ⟨w, st, hpeek, hend⟩ := Run.bind_ok.mp h
  cases hend
  exact ⟨(peekAt_ok hpeek).1, (peekAt_ok hpeek).2, Nat.le_add_right _ _⟩

end Reading

section Range

variable {b b' : Buffer} {start first stop entry fuel e : Nat} {end_ s : Int} {a : XAttr}
  {l l' : List Ext4Error} {force : Bool}

def freeRange (b : Buffer) (first stop : Nat) : Option (Nat × Int) :=
  match xattrFreeLoop (b.size + 1) first stop (b, []) with
  | .ok (r, _) => some r
  | .error _ => none

theorem peekAt_log {off n v : Nat} (h : peekAt off n (b, l) = .ok (v, (b', l')))
    (k : List Ext4Error) : peekAt off n (b, k) = .ok (v, (b, k)) := by
  simp only [peekAt, Run.bind_run, Run.read_run] at h ⊢
  split at h
  · rename_i hin
    cases h
    rw [if_pos hin]
    rfl
  · cases h

theorem isLastEntry_log {v : Bool} (h : isLastEntry entry (b, l) = .ok (v, (b', l')))
    (k : List Ext4Error) : isLastEntry entry (b, k) = .ok (v, (b, k)) := by
  obtain ⟨w, st, hpeek, hend⟩ := Run.bind_ok.mp h
  cases hend
  exact Run.bind_ok.mpr ⟨w, _, peekAt_log hpeek k, rfl⟩

theorem xattrNext_log {v : Nat} (h : xattrNext entry (b, l) = .ok (v, (b', l')))
    (k : List Ext4Error) : xattrNext entry (b, k) = .ok (v, (b, k)) := by
  obtain ⟨w, st, hpeek, hend⟩ := Run.bind_ok.mp h
  cases hend
  exact Run.bind_ok.mpr ⟨w, _, peekAt_log hpeek k, rfl⟩

theorem xattrFreeLoop_succ
    (h : xattrFreeLoop (fuel + 1) entry end_ (b, l) = .ok ((e, s), (b', l'))) :
    ∃ last, isLastEntry entry (b, l) = .ok (last, (b, l)) ∧
      ((last = true ∨ end_ ≤ entry) ∧ e = entry ∧ s = end_ ∧ b' = b ∧ l' = l ∨
        last = false ∧ (entry : Int) < end_ ∧ ∃ size next,
          peekAt (entry + 8) 4 (b, l) = .ok (size, (b, l)) ∧
          xattrNext entry (b, l) = .ok (next, (b, l)) ∧
          xattrFreeLoop fuel next (end_ - ext4XattrSize size) (b, l) = .ok ((e, s), (b', l'))) := by
  rw [xattrFreeLoop] at h
  obtain ⟨last, ⟨b1, l1⟩, hlast, hturn⟩ := Run.bind_ok.mp h
  obtain ⟨rfl, rfl⟩ := isLastEntry_ok hlast
  clear h
  refine ⟨last, hlast, ?_⟩
  split at hturn
  · rename_i hmore
    obtain ⟨size, ⟨b2, l2⟩, hsize, hgo⟩ := Run.bind_ok.mp hturn
    obtain ⟨rfl, rfl⟩ := peekAt_ok hsize
    obtain ⟨next, ⟨b3, l3⟩, hnext, hrest⟩ := Run.bind_ok.mp hgo
    obtain ⟨rfl, rfl, hle⟩ := xattrNext_ok hnext
    simp only [Bool.and_eq_true, Bool.not_eq_true', decide_eq_true_eq] at hmore
    exact Or.inr ⟨hmore.1, hmore.2, size, next, hsize, hnext, hrest⟩
  · rename_i hmore
    cases hturn
    refine Or.inl ⟨?_, rfl, rfl, rfl, rfl⟩
    cases last
    · exact Or.inr (by simpa using hmore)
    · exact Or.inl rfl

theorem xattrFreeLoop_ok (h : xattrFreeLoop fuel entry end_ (b, l) = .ok ((e, s), (b', l'))) :
    b' = b ∧ l' = l ∧ entry ≤ e ∧ s ≤ end_ := by
  induction fuel generalizing entry end_ with
  | zero => cases h
  | succ fuel ih =>
    obtain ⟨last, -, ⟨-, rfl, rfl, rfl, rfl⟩ | ⟨-, -, size, next, -, hnext, hrest⟩⟩ :=
      xattrFreeLoop_succ h
    · exact ⟨rfl, rfl, le_rfl, le_rfl⟩
    · obtain ⟨-, -, hle⟩ := xattrNext_ok hnext
      obtain ⟨hb, hl, he, hs⟩ := ih hrest
      exact ⟨hb, hl, by omega, by omega⟩

theorem xattrFreeLoop_log (h : xattrFreeLoop fuel entry end_ (b, l) = .ok ((e, s), (b', l')))
    (k : List Ext4Error) : xattrFreeLoop fuel entry end_ (b, k) = .ok ((e, s), (b, k)) := by
  induction fuel generalizing entry end_ with
  | zero => cases h
  | succ fuel ih =>
    obtain ⟨last, hlast, ⟨hdone, rfl, rfl, -, -⟩ | ⟨rfl, hmore, size, next, hsize, hnext, hrest⟩⟩ :=
      xattrFreeLoop_succ h
    · have hno : ¬ ((!last && decide ((e : Int) < s)) = true) := by
        rcases hdone with rfl | hle
        · simp
        · simp
          omega
      rw [xattrFreeLoop, Run.bind_run, isLastEntry_log hlast k]
      simp only [if_neg hno, Run.pure_run]
    · have hyes : (!false && decide ((entry : Int) < end_)) = true := by simpa using hmore
      rw [xattrFreeLoop, Run.bind_run, isLastEntry_log hlast k]
      simp only [if_pos hyes, Run.bind_run, peekAt_log hsize k, xattrNext_log hnext k, ih hrest]

theorem freeRange_of_run (h : xattrFreeLoop (b.size + 1) first stop (b, l) =
    .ok ((e, s), (b', l'))) : freeRange b first stop = some (e, s) := by
  rw [freeRange, xattrFreeLoop_log h []]

theorem freeRange_bounds (h : freeRange b first stop = some (e, s)) : first ≤ e ∧ s ≤ stop := by
  rw [freeRange] at h
  cases hloop : xattrFreeLoop (b.size + 1) first stop (b, []) with
  | error err => simp [hloop] at h
  | ok p =>
    obtain ⟨r, b1, l1⟩ := p
    simp only [hloop, Option.some.injEq] at h
    subst h
    obtain ⟨-, -, he, hs⟩ := xattrFreeLoop_ok hloop
    exact ⟨he, hs⟩

theorem xattrLastLoop_of_free (h : xattrFreeLoop fuel entry end_ (b, l) = .ok ((e, s), (b', l')))
    (hroom : (e : Int) < s) : xattrLastLoop fuel entry (b, l) = .ok (e, (b, l)) := by
  induction fuel generalizing entry end_ with
  | zero => cases h
  | succ fuel ih =>
    obtain ⟨last, hlast, ⟨hdone, rfl, rfl, -, -⟩ | ⟨rfl, hmore, size, next, hsize, hnext, hrest⟩⟩ :=
      xattrFreeLoop_succ h
    · obtain rfl : last = true := by
        rcases hdone with hd | hd
        · exact hd
        · omega
      rw [xattrLastLoop, Run.bind_run, hlast]
      rfl
    · rw [xattrLastLoop, Run.bind_run, hlast]
      simp only [Bool.false_eq_true, if_false, Run.bind_run, hnext, ih hrest]

def RangeFits (b : Buffer) (first stop : Nat) (a : XAttr) : Prop :=
  a.name.length ≤ 255 ∧ ∃ e s, freeRange b first stop = some (e, s) ∧
    (e : Int) + a.entryLen + a.valueLen ≤ s

theorem xattrFreeSpace_ok {n : Nat}
    (h : xattrFreeSpace force first stop (b, l) = .ok (n, (b', l'))) : b' = b ∧
      ∃ e s, xattrFreeLoop (b.size + 1) first stop (b, l) = .ok ((e, s), (b, l)) ∧
        freeRange b first stop = some (e, s) ∧ first ≤ e ∧ s ≤ stop ∧ n = (s - e).toNat := by
  obtain ⟨b0, ⟨b1, l1⟩, hread, hgo⟩ := Run.bind_ok.mp h
  cases hread
  obtain ⟨⟨e, s⟩, ⟨b2, l2⟩, hloop, hend⟩ := Run.bind_ok.mp hgo
  obtain ⟨rfl, rfl, he, hs⟩ := xattrFreeLoop_ok hloop
  dsimp only at hend
  split at hend
  · rename_i hlt
    obtain ⟨⟨⟩, ⟨b3, l3⟩, hraise, hpure⟩ := Run.bind_ok.mp hend
    cases hpure
    have hb := Run.evolves_raise (R := Eq) force _ _ _ _ _ _ hraise
    exact ⟨hb.symm, e, s, hloop, freeRange_of_run hloop, he, hs, by omega⟩
  · cases hend
    exact ⟨rfl, e, s, hloop, freeRange_of_run hloop, he, hs, rfl⟩

end Range

section Room

variable {b : Buffer} {start first stop e : Nat} {s : Int} {as : List XAttr}

theorem length_le_entriesLen (as : List XAttr) : as.length ≤ XAttr.entriesLen as := by
  induction as with
  | nil => simp
  | cons a rest ih =>
    have := a.entryLen_spec
    rw [XAttr.entriesLen_cons, List.length_cons]
    omega

theorem Written.range (hw : Written b start first stop as) (hnames : ∀ a ∈ as, a.Small)
    (h : freeRange b first stop = some (e, s)) :
    first + XAttr.entriesLen as + 4 ≤ stop - XAttr.valuesLen as ∧
      e = first + XAttr.entriesLen as ∧ s = (stop - XAttr.valuesLen as : Nat) ∨ s < e + 4 := by
  have hfits := hw.fits
  have hin := hw.inside
  have hcount := length_le_entriesLen as
  obtain ⟨fuel, hfuel⟩ : ∃ k, b.size + 1 = k + 1 + as.length := ⟨b.size - as.length, by omega⟩
  rw [freeRange, hfuel, xattrFreeLoop_written hw.entries hnames hfits hin] at h
  rcases Nat.lt_or_ge (stop - XAttr.valuesLen as) (first + XAttr.entriesLen as + 4) with hlt | hroom
  · cases hloop : xattrFreeLoop (fuel + 1) (first + XAttr.entriesLen as)
        ((stop - XAttr.valuesLen as : Nat) : Int) (b, []) with
    | error err => simp [hloop] at h
    | ok p =>
      obtain ⟨⟨e1, s1⟩, ⟨b1, l1⟩⟩ := p
      obtain ⟨-, -, he, hs⟩ := xattrFreeLoop_ok hloop
      simp only [hloop, Option.some.injEq, Prod.mk.injEq] at h
      exact Or.inr (by omega)
  · have hzero : b.getLE (first + XAttr.entriesLen as) 4 = 0 :=
      word_eq_zero fun i h1 h2 => hw.free i h1 (by omega)
    have hlast := isLastEntry_run (b := b) (l := [])
      (show first + XAttr.entriesLen as + 4 ≤ b.size by omega)
    simp only [xattrFreeLoop, Run.bind_run, hlast, hzero, decide_true, Bool.not_true,
      Bool.false_and, Bool.false_eq_true, if_false, Run.pure_run, Option.some.injEq,
      Prod.mk.injEq] at h
    exact Or.inl ⟨hroom, h.1.symm, h.2.symm⟩

end Room

section Adding

variable {b : Buffer} {start pos top first stop entry val : Nat} {a : XAttr} {as : List XAttr}
  {l : List Ext4Error} {force : Bool}

theorem pokeBytes_ok {b' : Buffer} {l' : List Ext4Error} {off : Nat} {bs : List UInt8} :
    pokeBytes off bs (b, l) = .ok ((), (b', l')) ↔
      off + bs.length ≤ b.size ∧ b' = b.put off bs ∧ l' = l := by
  simp only [pokeBytes, Run.bind_run, Run.read_run]
  split
  · simp_all [eq_comm]
  · simp_all

def putEntry (b : Buffer) (entry offs : Nat) (a : XAttr) : Buffer :=
  ((((((b.put entry (List.replicate a.entryLen 0)).putLE entry 1 a.name.length).putLE
    (entry + 1) 1 a.nameIndex).put (entry + 16) a.name).putLE (entry + 4) 4 0).putLE
    (entry + 8) 4 a.value.length).putLE (entry + 2) 2 offs

def putValue (b : Buffer) (val : Nat) (a : XAttr) : Buffer :=
  (b.put val (List.replicate a.valueLen 0)).put val a.value

theorem get_putEntry_of_apart {offs i : Nat} (h : i < entry ∨ entry + a.entryLen ≤ i) :
    (putEntry b entry offs a).get i = b.get i := by
  have hlen := a.entryLen_spec
  have hzeros : (List.replicate a.entryLen (0 : UInt8)).length = a.entryLen := List.length_replicate
  simp (disch := omega) only [putEntry, Buffer.get_putLE_of_apart, Buffer.get_put_of_not_mem]

theorem get_putValue_of_apart {i : Nat} (h : i < val ∨ val + a.valueLen ≤ i) :
    (putValue b val a).get i = b.get i := by
  have hlen := a.valueLen_spec
  have hzeros : (List.replicate a.valueLen (0 : UInt8)).length = a.valueLen := List.length_replicate
  simp (disch := omega) only [putValue, Buffer.get_put_of_not_mem]

@[simp] theorem size_putEntry {offs : Nat} : (putEntry b entry offs a).size = b.size := rfl

@[simp] theorem size_putValue : (putValue b val a).size = b.size := rfl

theorem getLE_of_get {c d : Buffer} {n v : Nat} (h : c.getLE pos n = v)
    (hd : ∀ i, pos ≤ i → i < pos + n → d.get i = c.get i) : d.getLE pos n = v := by
  rw [Buffer.getLE_congr hd, h]

theorem IsXattr.congr {b' : Buffer} (h : IsXattr b start pos top a) (hfit : a.valueLen ≤ top)
    (hentry : ∀ i, pos ≤ i → i < pos + a.entryLen → i < pos + 12 ∨ pos + 16 ≤ i →
      b'.get i = b.get i)
    (hvalue : ∀ i, top - a.valueLen ≤ i → i < top → b'.get i = b.get i) :
    IsXattr b' start pos top a := by
  have hlen := a.entryLen_spec
  have hval := a.valueLen_spec
  constructor
  · rw [hentry pos le_rfl (by omega) (by omega), h.nameLen]
  · rw [hentry (pos + 1) (by omega) (by omega) (by omega), h.nameIndex]
  · exact getLE_of_get h.valueOffs fun i h1 h2 => hentry i (by omega) (by omega) (by omega)
  · exact getLE_of_get h.valueSize fun i h1 h2 => hentry i (by omega) (by omega) (by omega)
  · rw [Buffer.slice_congr fun i h1 h2 => hentry i (by omega) (by omega) (by omega), h.name]
  · rw [Buffer.slice_congr fun i h1 h2 => hvalue i (by omega) (by omega), h.value]

theorem XattrsAt.congr {b' : Buffer} (h : XattrsAt b start pos top as)
    (hfit : XAttr.valuesLen as ≤ top)
    (hentry : ∀ i, pos ≤ i → i < pos + XAttr.entriesLen as → b'.get i = b.get i)
    (hvalue : ∀ i, top - XAttr.valuesLen as ≤ i → i < top → b'.get i = b.get i) :
    XattrsAt b' start pos top as := by
  induction as generalizing pos top with
  | nil => trivial
  | cons a rest ih =>
    obtain ⟨hfirst, hrest⟩ := h
    rw [XAttr.entriesLen_cons] at hentry
    rw [XAttr.valuesLen_cons] at hvalue hfit
    refine ⟨hfirst.congr (by omega) ?_ ?_, ih hrest (by omega) ?_ ?_⟩
    · intro i h1 h2 _
      exact hentry i h1 (by omega)
    · intro i h1 h2
      exact hvalue i (by omega) h2
    · intro i h1 h2
      exact hentry i (by omega) (by omega)
    · intro i h1 h2
      exact hvalue i (by omega) (by omega)

theorem XattrsAt.append {bs : List XAttr} (h : XattrsAt b start pos top as)
    (hbs : XattrsAt b start (pos + XAttr.entriesLen as) (top - XAttr.valuesLen as) bs) :
    XattrsAt b start pos top (as ++ bs) := by
  induction as generalizing pos top with
  | nil => simpa using hbs
  | cons a rest ih =>
    obtain ⟨hfirst, hrest⟩ := h
    rw [XAttr.entriesLen_cons, XAttr.valuesLen_cons, ← Nat.add_assoc, ← Nat.sub_sub] at hbs
    exact ⟨hfirst, ih hrest hbs⟩

def putXattr (b : Buffer) (start entry val : Nat) (a : XAttr) : Buffer :=
  putValue (putEntry b entry (val - start) a) val a

theorem get_putXattr_of_apart {i : Nat} (hentry : i < entry ∨ entry + a.entryLen ≤ i)
    (hval : i < val ∨ val + a.valueLen ≤ i) : (putXattr b start entry val a).get i = b.get i := by
  rw [putXattr, get_putValue_of_apart hval, get_putEntry_of_apart hentry]

theorem isXattr_putXattr (happart : entry + a.entryLen ≤ val) (hsize : val + a.valueLen ≤ b.size)
    (hname : a.name.length ≤ 255) (hvalue : a.value.length < 4294967296) :
    IsXattr (putXattr b start entry val a) start entry (val + a.valueLen) a := by
  have hlen := a.entryLen_spec
  have hval := a.valueLen_spec
  have hzeros : (List.replicate a.entryLen (0 : UInt8)).length = a.entryLen := List.length_replicate
  have hbyte : ∀ (c : Buffer) (i v : Nat), i + 1 ≤ c.size → (c.putLE i 1 v).get i = v % 256 := by
    intro c i v hi
    rw [← getLE_one, Buffer.getLE_putLE c i 1 v hi, pow_one]
  have hbelow : ∀ i, entry ≤ i → i < entry + a.entryLen →
      (putXattr b start entry val a).get i = (putEntry b entry (val - start) a).get i :=
    fun i h1 h2 => get_putValue_of_apart (by omega)
  constructor
  · rw [hbelow entry le_rfl (by omega)]
    simp (disch := omega) only [putEntry, Buffer.get_putLE_of_apart, Buffer.get_put_of_not_mem]
    rw [hbyte _ _ _ (by simp; omega)]
    omega
  · rw [hbelow (entry + 1) (by omega) (by omega)]
    simp (disch := omega) only [putEntry, Buffer.get_putLE_of_apart, Buffer.get_put_of_not_mem]
    exact hbyte _ _ _ (by simp; omega)
  · rw [Nat.add_sub_cancel]
    apply getLE_of_get _ fun i h1 h2 => hbelow i (by omega) (by omega)
    exact Buffer.getLE_putLE _ _ 2 _ (by simp; omega)
  · apply getLE_of_get _ fun i h1 h2 => hbelow i (by omega) (by omega)
    rw [putEntry, Buffer.getLE_putLE_of_apart _ _ _ _ _ _ (by omega),
      Buffer.getLE_putLE _ _ 4 _ (by simp; omega)]
    exact Nat.mod_eq_of_lt hvalue
  · rw [Buffer.slice_congr fun i h1 h2 => hbelow i (by omega) (by omega)]
    have hfields : (putEntry b entry (val - start) a).slice (entry + 16) a.name.length =
        ((((b.put entry (List.replicate a.entryLen 0)).putLE entry 1 a.name.length).putLE
          (entry + 1) 1 a.nameIndex).put (entry + 16) a.name).slice (entry + 16) a.name.length := by
      apply Buffer.slice_congr
      intro i h1 h2
      simp (disch := omega) only [putEntry, Buffer.get_putLE_of_apart]
    rw [hfields]
    exact Buffer.slice_put _ _ _ (by simp; omega)
  · rw [Nat.add_sub_cancel]
    exact Buffer.slice_put _ _ _ (by simp; omega)

theorem Written.add (hw : Written b start first stop as) (hname : a.name.length ≤ 255)
    (hvalue : a.value.length < 4294967296)
    (hroom : first + XAttr.entriesLen as + a.entryLen + a.valueLen ≤ stop - XAttr.valuesLen as) :
    Written (putXattr b start (first + XAttr.entriesLen as)
      (stop - XAttr.valuesLen as - a.valueLen) a) start first stop (as ++ [a]) := by
  have hfits := hw.fits
  have hinside := hw.inside
  obtain ⟨entry, hentry⟩ : ∃ e, e = first + XAttr.entriesLen as := ⟨_, rfl⟩
  obtain ⟨val, hval⟩ : ∃ v, v = stop - XAttr.valuesLen as - a.valueLen := ⟨_, rfl⟩
  rw [← hentry, ← hval]
  have hnew : IsXattr (putXattr b start entry val a) start entry (val + a.valueLen) a :=
    isXattr_putXattr (by omega) (by omega) hname hvalue
  constructor
  · apply XattrsAt.append
    · apply hw.entries.congr (by omega)
      · intro i h1 h2
        exact get_putXattr_of_apart (by omega) (by omega)
      · intro i h1 h2
        exact get_putXattr_of_apart (by omega) (by omega)
    · rw [← hentry, show stop - XAttr.valuesLen as = val + a.valueLen by omega]
      exact ⟨hnew, trivial⟩
  · simp
    omega
  · simpa [putXattr] using hinside
  · intro i h1 h2
    simp only [XAttr.entriesLen_append, XAttr.entriesLen_cons, XAttr.entriesLen_nil,
      XAttr.valuesLen_append, XAttr.valuesLen_cons, XAttr.valuesLen_nil] at h1 h2
    rw [get_putXattr_of_apart (by omega) (by omega)]
    exact hw.free i (by omega) (by omega)

end Adding

end MakeExt4fs

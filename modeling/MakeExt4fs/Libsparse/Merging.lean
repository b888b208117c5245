import MakeExt4fs.Libsparse.Queue

namespace MakeExt4fs

open Words

structure BlockFits (blockSize fresh : Nat) (bb : BackedBlock) : Prop where
  pos : 0 < bb.len
  blocks : blockSize ∣ bb.len
  len : bb.len < 4294967296
  block : bb.block < 4294967296
  addr : bb.addr < fresh
  name : ∀ name offset, bb.backing = .file name offset → name.1 < fresh

structure ListInv (bbl : BackedBlockList) (calls : List AddCall) : Prop where
  size : 0 < bbl.blockSize
  apart : bbl.dataBlocks.Pairwise fun a b => a.block + a.len / bbl.blockSize ≤ b.block
  fits : ∀ bb ∈ bbl.dataBlocks, BlockFits bbl.blockSize bbl.fresh bb
  lastUsed : ∀ addr, bbl.lastUsed = some addr → ∃ bb ∈ bbl.dataBlocks, bb.addr = addr
  image : ∀ n s, (∃ bb ∈ bbl.dataBlocks, bb.sourceAt bbl.blockSize n = some s) ↔
    ∃ c ∈ calls, c.sourceAt bbl.blockSize n = some s

section Placing

variable {bs fresh : Nat} {new b : BackedBlock} {lo hi t l : List BackedBlock}

theorem BlockFits.div_pos {bb : BackedBlock} (hbs : 0 < bs) (h : BlockFits bs fresh bb) :
    0 < bb.len / bs := Nat.div_pos (Nat.le_of_dvd h.pos h.blocks) hbs

theorem BlockFits.mono {fresh' : Nat} {bb : BackedBlock} (hle : fresh ≤ fresh')
    (h : BlockFits bs fresh bb) : BlockFits bs fresh' bb :=
  { h with
    addr := h.addr.trans_le hle
    name := fun name offset hb => (h.name name offset hb).trans_le hle }

theorem sorted_of_apart (hbs : 0 < bs) (hfits : ∀ bb ∈ l, BlockFits bs fresh bb)
    (h : l.Pairwise fun a b => a.block + a.len / bs ≤ b.block) : SortedBlocks l := by
  refine h.imp_of_mem ?_
  intro a b ha _ hab
  have := (hfits a ha).div_pos hbs
  omega

inductive Placed (bs : Nat) (new : BackedBlock) : List BackedBlock → List BackedBlock → Prop where
  | kept (hi : List BackedBlock) : Placed bs new hi (new :: hi)
  | merged {b : BackedBlock} (rest : List BackedBlock) (h : Merges bs new b)
      (hsum : new.len + b.len < 4294967296) :
      Placed bs new (b :: rest) ({ new with len := new.len + b.len } :: rest)

theorem mergeBb_placed (hbs : 0 < bs) (hpos : 0 < new.len / bs)
    (hafter : ∀ x ∈ hi, new.block + new.len / bs ≤ x.block ∧ x.block < 4294967296)
    (hlen : ∀ x ∈ hi, Merges bs new x → new.len + x.len < 4294967296) :
    ∃ t, mergeBb bs new hi = some t ∧ Placed bs new hi t := by
  cases hi with
  | nil => exact ⟨[new], rfl, .kept []⟩
  | cons b rest =>
    obtain ⟨hend, hword⟩ := hafter b (by simp)
    by_cases hm : Merges bs new b
    · refine ⟨_, mergeBb_merged hbs (by omega) hword hm, ?_⟩
      rw [u32_of_lt (hlen b (by simp) hm)]
      exact .merged rest hm (hlen b (by simp) hm)
    · exact ⟨_, mergeBb_kept hbs (by omega) hend hword hm, .kept _⟩

theorem Merges.backing (hm : Merges bs new b)
    (hname : ∀ name offset name' offset', new.backing = .file name offset →
      b.backing = .file name' offset' → name.1 ≠ name'.1) :
    b.backing.map Prod.snd = (new.backing.map Prod.snd).advance new.len := by
  have hs := hm.2
  cases hn : new.backing <;> cases hb : b.backing <;> simp only [hn, hb, sameBacking,
    decide_eq_true_eq, Bool.false_eq_true] at hs
  · exact absurd hs.1 (hname _ _ _ _ hn hb)
  · simp only [Backing.map, Backing.advance, hs.1, hs.2]
  · simp only [Backing.map, Backing.advance, hs]

theorem mergeBb_head {a : BackedBlock} (h : mergeBb bs a l = some t) :
    ∃ len tail, t = { a with len } :: tail ∧ ∀ x ∈ tail, x ∈ l := by
  cases l with
  | nil =>
    obtain rfl := Option.some.inj h
    exact ⟨a.len, [], rfl, by simp⟩
  | cons b rest =>
    have hkept : ∀ t, t = a :: b :: rest →
        ∃ len tail, t = { a with len } :: tail ∧ ∀ x ∈ tail, x ∈ b :: rest := by
      rintro t rfl
      exact ⟨a.len, b :: rest, rfl, fun x hx => hx⟩
    rw [mergeBb] at h
    split at h
    · cases h
    split at h
    · exact hkept t (Option.some.inj h).symm
    split at h
    · cases h
    split at h
    · exact hkept t (Option.some.inj h).symm
    split at h
    · obtain rfl := Option.some.inj h
      exact ⟨_, rest, rfl, fun x hx => by simp [hx]⟩
    · exact hkept t (Option.some.inj h).symm

theorem Placed.head (h : Placed bs new hi t) : ∃ len rest, t = { new with len } :: rest := by
  cases h with
  | kept hi => exact ⟨new.len, hi, rfl⟩
  | @merged b rest h hsum => exact ⟨new.len + b.len, rest, rfl⟩

theorem Placed.fits (h : Placed bs new hi t) (hnew : BlockFits bs fresh new)
    (hhi : ∀ x ∈ hi, BlockFits bs fresh x) : ∀ x ∈ t, BlockFits bs fresh x := by
  cases h with
  | kept hi =>
    intro x hx
    rcases List.mem_cons.mp hx with rfl | hx
    · exact hnew
    · exact hhi x hx
  | @merged b rest h hsum =>
    intro x hx
    rcases List.mem_cons.mp hx with rfl | hx
    · exact { hnew with
        pos := Nat.add_pos_left hnew.pos _
        blocks := Nat.dvd_add hnew.blocks (hhi b (by simp)).blocks
        len := hsum }
    · exact hhi x (by simp [hx])

theorem Placed.apart (h : Placed bs new hi t) (hdvd : bs ∣ new.len)
    (hhi : hi.Pairwise fun a b => a.block + a.len / bs ≤ b.block)
    (hafter : ∀ x ∈ hi, new.block + new.len / bs ≤ x.block) :
    t.Pairwise fun a b => a.block + a.len / bs ≤ b.block := by
  cases h with
  | kept hi => exact List.pairwise_cons.mpr ⟨hafter, hhi⟩
  | @merged b rest h hsum =>
    refine List.pairwise_cons.mpr ⟨?_, hhi.of_cons⟩
    intro x hx
    have hbx := List.rel_of_pairwise_cons hhi hx
    have hadj := h.1
    simp only [Nat.add_div_of_dvd_right hdvd]
    omega

theorem Placed.image (h : Placed bs new hi t) (hbs : 0 < bs) (hdvd : bs ∣ new.len)
    (hname : ∀ x ∈ hi, ∀ name offset name' offset', new.backing = .file name offset →
      x.backing = .file name' offset' → name.1 ≠ name'.1)
    (n : Nat) (s : Backing (List UInt8)) : (∃ x ∈ t, x.sourceAt bs n = some s) ↔
      new.sourceAt bs n = some s ∨ ∃ x ∈ hi, x.sourceAt bs n = some s := by
  cases h with
  | kept hi => simp
  | @merged b rest h hsum =>
    have hback := h.backing (hname b (by simp))
    have hb : b.sourceAt bs n = some s ↔ rangeAt bs (new.block + new.len / bs) b.len
        ((new.backing.map Prod.snd).advance new.len) n = some s := by
      rw [BackedBlock.sourceAt, hback, h.1]
    simp only [List.mem_cons, exists_eq_or_imp, ← or_assoc, hb]
    rw [BackedBlock.sourceAt, rangeAt_append hdvd hbs]
    rfl

end Placing

section Step

variable {bbl : BackedBlockList} {calls : List AddCall} {c : AddCall}
  {lo hi t : List BackedBlock}

theorem ListInv.sorted (h : ListInv bbl calls) : SortedBlocks bbl.dataBlocks :=
  sorted_of_apart h.size h.fits h.apart

@[simp] theorem sourceAt_newBlock (n : Nat) :
    (c.newBlock bbl).sourceAt bbl.blockSize n = c.sourceAt bbl.blockSize n := by
  cases c <;> rfl

theorem AddCall.Fits.newBlock (hc : c.Fits bbl.blockSize) :
    BlockFits bbl.blockSize (bbl.fresh + 1) (c.newBlock bbl) where
  pos := hc.pos
  blocks := hc.blocks
  len := hc.len
  block := hc.block
  addr := Nat.lt_succ_self _
  name := by
    intro name offset hb
    cases c <;> simp only [AddCall.newBlock, newBb, AddCall.backing, Backing.map, reduceCtorEq,
      Backing.file.injEq] at hb
    rw [← hb.1]
    exact Nat.lt_succ_self _

theorem ListInv.apart_new (h : ListInv bbl calls) (hc : c.Fits bbl.blockSize)
    (hapart : ∀ d ∈ calls, d.Apart bbl.blockSize c) {bb : BackedBlock}
    (hbb : bb ∈ bbl.dataBlocks) : bb.block + bb.len / bbl.blockSize ≤ c.block ∨
      c.block + c.len / bbl.blockSize ≤ bb.block := by
  have hpos := (h.fits bb hbb).div_pos h.size
  have hcpos := hc.newBlock.div_pos h.size
  have hclen : (c.newBlock bbl).len = c.len := rfl
  rw [hclen] at hcpos
  by_contra hmeet
  obtain ⟨n, hn⟩ : ∃ n, n = max bb.block c.block := ⟨_, rfl⟩
  have hsource : bb.sourceAt bbl.blockSize n = some ((bb.backing.map Prod.snd).advance
      ((n - bb.block) * bbl.blockSize)) := rangeAt_eq_some.mpr ⟨by omega, rfl⟩
  obtain ⟨d, hd, hdn⟩ := (h.image n _).mp ⟨bb, hbb, hsource⟩
  have hin := (rangeAt_eq_some.mp hdn).1
  have hdc := hapart d hd
  rw [AddCall.Apart] at hdc
  omega

theorem ListInv.place (h : ListInv bbl calls) (lo hi : List BackedBlock) (hc : c.Fits bbl.blockSize)
    (heq : bbl.dataBlocks = lo ++ hi)
    (hlo : ∀ x ∈ lo, x.block + x.len / bbl.blockSize ≤ c.block)
    (hhi : ∀ x ∈ hi, c.block + c.len / bbl.blockSize ≤ x.block)
    (hp : Placed bbl.blockSize (c.newBlock bbl) hi t) {last : Option Nat}
    (hlast : ∀ addr, last = some addr → ∃ x ∈ lo ++ t, x.addr = addr) :
    ListInv ⟨lo ++ t, last, bbl.blockSize, bbl.fresh + 1⟩ (calls ++ [c]) := by
  have hfits : ∀ x ∈ lo ++ hi, BlockFits bbl.blockSize bbl.fresh x := fun x hx =>
    h.fits x (heq ▸ hx)
  have hpair := h.apart
  rw [heq, List.pairwise_append] at hpair
  obtain ⟨hplo, hphi, hcross⟩ := hpair
  refine ⟨h.size, ?_, ?_, hlast, ?_⟩
  · refine List.pairwise_append.mpr ⟨hplo, hp.apart hc.blocks hphi hhi, ?_⟩
    intro x hx y hy
    cases hp with
    | kept hi =>
      rcases List.mem_cons.mp hy with rfl | hy
      · exact hlo x hx
      · exact hcross x hx y hy
    | @merged b rest hm hsum =>
      rcases List.mem_cons.mp hy with rfl | hy
      · exact hlo x hx
      · exact hcross x hx y (by simp [hy])
  · intro x hx
    rcases List.mem_append.mp hx with hx | hx
    · exact (hfits x (by simp [hx])).mono (Nat.le_succ _)
    · exact hp.fits hc.newBlock (fun y hy => (hfits y (by simp [hy])).mono (Nat.le_succ _)) x hx
  · intro n s
    have hname : ∀ x ∈ hi, ∀ name offset name' offset', (c.newBlock bbl).backing =
        .file name offset → x.backing = .file name' offset' → name.1 ≠ name'.1 := by
      intro x hx name offset name' offset' hb hx'
      have hold := (hfits x (by simp [hx])).name name' offset' hx'
      have hnew : name.1 = bbl.fresh := by
        cases c <;> simp only [AddCall.newBlock, newBb, AddCall.backing, Backing.map, reduceCtorEq,
          Backing.file.injEq] at hb
        rw [← hb.1]
      omega
    have himage := h.image n s
    rw [heq] at himage
    simp only [List.mem_append, or_and_right, exists_or, hp.image h.size hc.blocks hname n s,
      sourceAt_newBlock, List.mem_singleton, exists_eq_left] at himage ⊢
    rw [← himage, or_assoc]
    exact or_congr Iff.rfl or_comm

theorem addBb_run (bbl : BackedBlockList) (c : AddCall) :
    c.run bbl = queueBb { bbl with fresh := bbl.fresh + 1 } (c.newBlock bbl) := by
  rw [AddCall.run_eq]
  rfl

theorem ListInv.search (h : ListInv bbl calls) (d : AddCall) :
    (d.run bbl).map (·.dataBlocks) =
      (d.run { bbl with lastUsed := none }).map (·.dataBlocks) := by
  rw [addBb_run, addBb_run]
  by_cases hnil : bbl.dataBlocks = []
  · simp [queueBb, hnil, AddCall.newBlock, newBb]
  · obtain ⟨first, rest, heq⟩ := List.exists_cons_of_ne_nil hnil
    by_cases hlt : d.block < first.block
    · rw [queueBb_first { bbl with fresh := bbl.fresh + 1 } heq hlt,
        queueBb_first { bbl with lastUsed := none, fresh := bbl.fresh + 1 } heq hlt]
      rfl
    · rw [queueBb_fromHead { bbl with fresh := bbl.fresh + 1 } _ h.sorted heq hlt h.lastUsed,
        queueBb_fromHead { bbl with lastUsed := none, fresh := bbl.fresh + 1 } _ h.sorted heq hlt
          (by simp)]
      simp only [Option.map_map]
      rfl

structure Landing (bbl : BackedBlockList) (c : AddCall) (lo : List BackedBlock) (a : BackedBlock)
    (hi : List BackedBlock) : Prop where
  parts : bbl.dataBlocks = lo ++ a :: hi
  before : ∀ x ∈ lo ++ [a], x.block + x.len / bbl.blockSize ≤ c.block
  below : a.block < c.block
  after : ∀ x ∈ hi, c.block + c.len / bbl.blockSize ≤ x.block
  run : c.run bbl = (do
    let tail ← mergeBb bbl.blockSize a (← mergeBb bbl.blockSize (c.newBlock bbl) hi)
    return ⟨lo ++ tail, some bbl.fresh, bbl.blockSize, bbl.fresh + 1⟩)

theorem ListInv.landing (h : ListInv bbl calls) (hc : c.Fits bbl.blockSize)
    (hapart : ∀ d ∈ calls, d.Apart bbl.blockSize c) {a : BackedBlock} (ha : a ∈ bbl.dataBlocks)
    (hlt : a.block < c.block) : ∃ lo a hi, Landing bbl c lo a hi := by
  have hpos : 0 < c.len / bbl.blockSize := hc.newBlock.div_pos h.size
  have hmeet : ∀ bb ∈ bbl.dataBlocks, 0 < bb.len / bbl.blockSize ∧
      (bb.block + bb.len / bbl.blockSize ≤ c.block ∨
        c.block + c.len / bbl.blockSize ≤ bb.block) := fun bb hbb =>
    ⟨(h.fits bb hbb).div_pos h.size, h.apart_new hc hapart hbb⟩
  obtain ⟨first, rest, heq⟩ := List.exists_cons_of_ne_nil (List.ne_nil_of_mem ha)
  have hs := h.sorted
  rw [heq] at hs ha
  have hfirst : first.block < c.block := by
    rcases List.mem_cons.mp ha with rfl | ha
    · exact hlt
    · exact (List.rel_of_pairwise_cons hs ha).trans hlt
  obtain ⟨lo, a, hi, hparts, hlo, ha, hhi, hrun⟩ :=
    insertFrom_spec bbl.blockSize (c.newBlock bbl) hs hfirst
  rw [← heq] at hparts
  have hmem : ∀ x, x ∈ bbl.dataBlocks ↔ x ∈ lo ∨ x = a ∨ x ∈ hi := by simp [hparts]
  refine ⟨lo, a, hi, hparts, ?_, ha, ?_, ?_⟩
  · intro x hx
    have hlow : x.block < c.block := by
      rcases List.mem_append.mp hx with hx | hx
      · exact hlo x hx
      · exact List.mem_singleton.mp hx ▸ ha
    have := hmeet x ((hmem x).mpr (by simpa [or_assoc] using Or.inl hx))
    omega
  · intro x hx
    have hhigh : c.block ≤ x.block := hhi x hx
    have := hmeet x ((hmem x).mpr (Or.inr (Or.inr hx)))
    omega
  · rw [addBb_run, queueBb_fromHead { bbl with fresh := bbl.fresh + 1 } _ h.sorted heq
      (show ¬ (c.newBlock bbl).block < first.block from Nat.lt_asymm hfirst) h.lastUsed, hrun]
    cases mergeBb bbl.blockSize (c.newBlock bbl) hi with
    | none => rfl
    | some t =>
      cases hback : mergeBb bbl.blockSize a t with
      | none => simp [hback]
      | some tail => simp only [hback, Option.bind_eq_bind, Option.bind_some]; rfl

theorem ListInv.step (h : ListInv bbl calls) (hc : c.Fits bbl.blockSize)
    (hapart : ∀ d ∈ calls, d.Apart bbl.blockSize c) (hk : KeepsNew bbl (c.newBlock bbl)) :
    ∃ bbl', c.run bbl = some bbl' ∧ bbl'.blockSize = bbl.blockSize ∧
      ListInv bbl' (calls ++ [c]) := by
  have hpos : 0 < c.len / bbl.blockSize := hc.newBlock.div_pos h.size
  by_cases hfirst : ∃ a ∈ bbl.dataBlocks, a.block < c.block
  · obtain ⟨x, hx, hlt⟩ := hfirst
    obtain ⟨lo, a, hi, hl⟩ := h.landing hc hapart hx hlt
    have hmem : ∀ x, x ∈ bbl.dataBlocks ↔ x ∈ lo ∨ x = a ∨ x ∈ hi := by simp [hl.parts]
    have ha := (hmem a).mpr (Or.inr (Or.inl rfl))
    obtain ⟨t, hforward, hp⟩ := mergeBb_placed h.size hpos
      (fun x hx => ⟨hl.after x hx, (h.fits x ((hmem x).mpr (Or.inr (Or.inr hx)))).block⟩)
      (fun x hx hm => hk.after x ((hmem x).mpr (Or.inr (Or.inr hx))) hm ⟨a, ha, hl.below⟩)
    obtain ⟨len, tail, ht⟩ := hp.head
    have hback : mergeBb bbl.blockSize a t = some (a :: t) := by
      rw [ht]
      exact mergeBb_kept h.size hl.below (hl.before a (by simp)) hc.block (hk.before a ha)
    refine ⟨⟨(lo ++ [a]) ++ t, some bbl.fresh, bbl.blockSize, bbl.fresh + 1⟩, ?_, rfl, ?_⟩
    · simp [hl.run, hforward, hback]
    · refine h.place (lo ++ [a]) hi hc (by simpa using hl.parts) hl.before hl.after hp ?_
      rintro addr ⟨rfl⟩
      exact ⟨{ c.newBlock bbl with len }, by simp [ht], rfl⟩
  · have hafter : ∀ x ∈ bbl.dataBlocks, c.block + c.len / bbl.blockSize ≤ x.block := by
      intro x hx
      have hxpos := (h.fits x hx).div_pos h.size
      have hxlow : ¬ x.block < c.block := fun hlt => hfirst ⟨x, hx, hlt⟩
      have := h.apart_new hc hapart hx
      omega
    have hrun : c.run bbl = some ⟨c.newBlock bbl :: bbl.dataBlocks, bbl.lastUsed, bbl.blockSize,
        bbl.fresh + 1⟩ := by
      rw [addBb_run]
      by_cases hnil : bbl.dataBlocks = []
      · simp only [queueBb, hnil]
      · obtain ⟨first, rest, heq⟩ := List.exists_cons_of_ne_nil hnil
        have hlt : c.block < first.block := by
          have := hafter first (by simp [heq])
          omega
        rw [queueBb_first { bbl with fresh := bbl.fresh + 1 } heq hlt, heq]
    refine ⟨_, hrun, rfl, ?_⟩
    refine h.place [] bbl.dataBlocks hc rfl (by simp) hafter (.kept _) ?_
    intro addr haddr
    obtain ⟨bb, hbb, hb⟩ := h.lastUsed addr haddr
    exact ⟨bb, by simp [hbb], hb⟩

theorem ListInv.before_of_queued (h : ListInv bbl calls) (hc : c.Fits bbl.blockSize)
    (hapart : ∀ d ∈ calls, d.Apart bbl.blockSize c) {bbl' : BackedBlockList}
    (hrun : c.run bbl = some bbl') (hq : Queued bbl' (calls ++ [c])) {x : BackedBlock}
    (hx : x ∈ bbl.dataBlocks) : ¬ Merges bbl.blockSize x (c.newBlock bbl) := by
  intro hm
  have hxpos := (h.fits x hx).div_pos h.size
  have hcpos : 0 < c.len / bbl.blockSize := hc.newBlock.div_pos h.size
  have hadj : x.block + x.len / bbl.blockSize = c.block := hm.1
  obtain ⟨lo, a, hi, hl⟩ := h.landing hc hapart hx (by omega)
  have hmem : ∀ x, x ∈ bbl.dataBlocks ↔ x ∈ lo ∨ x = a ∨ x ∈ hi := by simp [hl.parts]
  have hpair := h.apart
  rw [hl.parts, List.pairwise_append] at hpair
  obtain rfl : x = a := by
    rcases (hmem x).mp hx with hx | rfl | hx
    · have := hpair.2.2 x hx a (by simp)
      have := hl.below
      omega
    · rfl
    · have := hl.after x hx
      omega
  rw [hl.run] at hrun
  cases hforward : mergeBb bbl.blockSize (c.newBlock bbl) hi with
  | none => simp [hforward] at hrun
  | some t =>
    obtain ⟨len, tail, rfl, htail⟩ := mergeBb_head hforward
    have hback := mergeBb_merged (l := tail) (b := { c.newBlock bbl with len }) h.size hl.below
      hc.block hm
    simp only [hforward, hback, Option.bind_eq_bind, Option.bind_some, Option.pure_def,
      Option.some.injEq] at hrun
    subst hrun
    obtain ⟨bb, hbb, haddr⟩ := hq.lastUsed bbl.fresh rfl
    have hold : ∀ y ∈ bbl.dataBlocks, y.addr ≠ bbl.fresh := fun y hy => (h.fits y hy).addr.ne
    rcases List.mem_append.mp hbb with hbb | hbb
    · exact hold bb ((hmem bb).mpr (Or.inl hbb)) haddr
    · rcases List.mem_cons.mp hbb with rfl | hbb
      · exact hold x hx haddr
      · exact hold bb ((hmem bb).mpr (Or.inr (Or.inr (htail bb hbb)))) haddr

theorem ListInv.after_of_queued (h : ListInv bbl calls) (hc : c.Fits bbl.blockSize)
    (hapart : ∀ d ∈ calls, d.Apart bbl.blockSize c) {bbl' : BackedBlockList}
    (hrun : c.run bbl = some bbl') (hq : Queued bbl' (calls ++ [c])) {b x : BackedBlock}
    (hb : b ∈ bbl.dataBlocks) (hm : Merges bbl.blockSize (c.newBlock bbl) b)
    (hx : x ∈ bbl.dataBlocks) (hlt : x.block < c.block) : c.len + b.len < 4294967296 := by
  by_contra hsum
  have hbfits := h.fits b hb
  have hbpos := hbfits.div_pos h.size
  have hcpos : 0 < c.len / bbl.blockSize := hc.newBlock.div_pos h.size
  have hadj : c.block + c.len / bbl.blockSize = b.block := hm.1
  obtain ⟨lo, a, hi, hl⟩ := h.landing hc hapart hx hlt
  have hmem : ∀ x, x ∈ bbl.dataBlocks ↔ x ∈ lo ∨ x = a ∨ x ∈ hi := by simp [hl.parts]
  have hpair := h.apart
  rw [hl.parts, List.pairwise_append, List.pairwise_cons] at hpair
  have hhi : ∃ rest, hi = b :: rest := by
    cases hi with
    | nil =>
      rcases (hmem b).mp hb with hb | rfl | hb
      · have := hl.before b (by simp [hb])
        omega
      · have := hl.below
        omega
      · simp at hb
    | cons first rest =>
      refine ⟨rest, ?_⟩
      have hfirst := hl.after first (by simp)
      rcases (hmem b).mp hb with hb | rfl | hb
      · have := hl.before b (by simp [hb])
        omega
      · have := hl.below
        omega
      · rcases List.mem_cons.mp hb with rfl | hb
        · rfl
        · have := List.rel_of_pairwise_cons hpair.2.1.2 hb
          have := (h.fits first ((hmem first).mpr (by simp))).div_pos h.size
          omega
  obtain ⟨rest, rfl⟩ := hhi
  obtain ⟨merged, hmerged⟩ : ∃ m, m = { c.newBlock bbl with len := u32 (c.len + b.len) } :=
    ⟨_, rfl⟩
  have hforward : mergeBb bbl.blockSize (c.newBlock bbl) (b :: rest) = some (merged :: rest) := by
    rw [hmerged]
    exact mergeBb_merged h.size (show c.block < b.block by omega) hbfits.block hm
  have hback : mergeBb bbl.blockSize a (merged :: rest) = some (a :: merged :: rest) := by
    rw [hmerged]
    exact mergeBb_kept h.size hl.below (hl.before a (by simp)) hc.block
      (h.before_of_queued hc hapart hrun hq ((hmem a).mpr (by simp)))
  rw [hl.run, hforward] at hrun
  simp only [hback, Option.bind_eq_bind, Option.bind_some, Option.pure_def,
    Option.some.injEq] at hrun
  subst hrun
  -- the last block of b has a source before the call and none after it
  obtain ⟨n, hn⟩ : ∃ n, n + 1 = b.block + b.len / bbl.blockSize :=
    ⟨b.block + b.len / bbl.blockSize - 1, by omega⟩
  have hsource : b.sourceAt bbl.blockSize n = some ((b.backing.map Prod.snd).advance
      ((n - b.block) * bbl.blockSize)) := rangeAt_eq_some.mpr ⟨by omega, rfl⟩
  obtain ⟨d, hd, hdn⟩ := (h.image n _).mp ⟨b, hb, hsource⟩
  obtain ⟨y, hy, hyn⟩ := (hq.image n _).mpr ⟨d, by simp [hd], hdn⟩
  have hin : y.block ≤ n ∧ n < y.block + y.len / bbl.blockSize := (rangeAt_eq_some.mp hyn).1
  rcases List.mem_append.mp hy with hy | hy
  · have := hl.before y (by simp [hy])
    omega
  rcases List.mem_cons.mp hy with rfl | hy
  · have := hl.before y (by simp)
    omega
  rcases List.mem_cons.mp hy with rfl | hy
  · have hcut : u32 (c.len + b.len) + bbl.blockSize ≤ c.len + b.len := by
      have := Nat.le_of_dvd hc.pos hc.blocks
      have := hc.len
      have := hbfits.len
      simp only [u32]
      omega
    have hquot := Nat.div_le_div_right (c := bbl.blockSize) hcut
    rw [Nat.add_div_right _ h.size, Nat.add_div_of_dvd_right hc.blocks] at hquot
    have hlt : n < c.block + u32 (c.len + b.len) / bbl.blockSize := by
      rw [hmerged] at hin
      exact hin.2
    omega
  · have hby := List.rel_of_pairwise_cons hpair.2.1.2 hy
    omega

end Step

end MakeExt4fs

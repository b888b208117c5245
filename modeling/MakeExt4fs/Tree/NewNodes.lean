import MakeExt4fs.Tree.Nodes

namespace MakeExt4fs

open ErrorLog Numbering Words

theorem Roomy.inside {info : FsInfo} {L : Layout} (hr : Roomy info L) {spans : Stretches}
    (h : ∀ s ∈ spans, s.2 ≤ 128) : ∀ s ∈ spans, s.2 ≤ info.inodeSize.val :=
  fun s hs => (h s hs).trans hr.record

theorem Roomy.xattr {info : FsInfo} {L : Layout} (hr : Roomy info L) :
    ∀ s ∈ xattrSpans info, s.2 ≤ info.inodeSize.val := by
  have := hr.record
  intro s hs
  simp only [xattrSpans, List.mem_cons, List.not_mem_nil, or_false] at hs
  obtain rfl | rfl | rfl := hs <;> simp only <;> omega

section Finishing

variable {L : Layout} {info : FsInfo} {fs fs' : Fs} {l l' : List Ext4Error} {n : Nat}
  {mode uid gid mtime : Nat} {ret : Int}

theorem orField_field {r : InodeRef} {f : Field} {v : Nat}
    (h : orField r f v (fs, l) = .ok ((), (fs', l'))) :
    fs'.field r f = (fs.field r f ||| v) % 256 ^ f.size := by
  obtain ⟨old, ⟨fs1, l1⟩, hget, hset⟩ := Run.bind_ok.mp h
  obtain ⟨rfl, rfl, rfl⟩ := getField_run r f hget
  exact field_setField hset

theorem inodeSetPermissions_permits
    (h : inodeSetPermissions info n mode uid gid mtime (fs, l) = .ok (ret, (fs', l'))) :
    ret = 0 ∧ Owned fs' (inodeRef info n) uid gid mtime ∧
      fs'.field (inodeRef info n) iMode = (fs.field (inodeRef info n) iMode ||| mode) % 65536 := by
  obtain ⟨r, ⟨fs1, l1⟩, hget, h1⟩ := Run.bind_ok.mp h
  obtain ⟨rfl, rfl, b, hb, rfl⟩ := getInode_ok hget
  obtain ⟨⟨⟩, ⟨fs2, l2⟩, hmode, h2⟩ := Run.bind_ok.mp h1
  obtain ⟨⟨⟩, ⟨fs3, l3⟩, huid, h3⟩ := Run.bind_ok.mp h2
  obtain ⟨⟨⟩, ⟨fs4, l4⟩, hgid, h4⟩ := Run.bind_ok.mp h3
  obtain ⟨⟨⟩, ⟨fs5, l5⟩, hmtime, h5⟩ := Run.bind_ok.mp h4
  obtain ⟨⟨⟩, ⟨fs6, l6⟩, hatime, h6⟩ := Run.bind_ok.mp h5
  obtain ⟨⟨⟩, ⟨fs7, l7⟩, hctime, hend⟩ := Run.bind_ok.mp h6
  cases hend
  refine ⟨rfl, ⟨?_, ?_, ?_, ?_, field_setField hctime⟩, ?_⟩
  · rw [setField_keeps (f := iUid) (by decide) hctime, setField_keeps (f := iUid) (by decide) hatime,
      setField_keeps (f := iUid) (by decide) hmtime, setField_keeps (f := iUid) (by decide) hgid]
    exact field_setField huid
  · rw [setField_keeps (f := iGid) (by decide) hctime, setField_keeps (f := iGid) (by decide) hatime,
      setField_keeps (f := iGid) (by decide) hmtime]
    exact field_setField hgid
  · rw [setField_keeps (f := iMtime) (by decide) hctime,
      setField_keeps (f := iMtime) (by decide) hatime]
    exact field_setField hmtime
  · rw [setField_keeps (f := iAtime) (by decide) hctime]
    exact field_setField hatime
  · rw [setField_keeps (f := iMode) (by decide) hctime, setField_keeps (f := iMode) (by decide) hatime,
      setField_keeps (f := iMode) (by decide) hmtime, setField_keeps (f := iMode) (by decide) hgid,
      setField_keeps (f := iMode) (by decide) huid, orField_field hmode]
    refine congrArg (fun v => (v ||| mode) % 65536) ?_
    exact Buffer.getLE_congr fun i _ _ => table_openedGroup hb _ i

theorem mod_or_mod (a b : Nat) : (a % 65536 ||| b) % 65536 = (a ||| b) % 65536 := by
  rw [show 65536 = 2 ^ 16 by rfl, Nat.or_mod_two_pow, Nat.mod_mod, ← Nat.or_mod_two_pow]

theorem Built.permit {p : Place Node} {lo : Nat} {D : Nat → Prop} (h : Built p info lo fs)
    (ha : LeavesAlone (Beside (inodeRef info p.number) permissionSpans) D fs fs')
    (hD : ∀ id, D id → id < lo)
    (howned : Owned fs' (inodeRef info p.number) p.label.dentry.uid p.label.dentry.gid
      p.label.dentry.mtime)
    (hmode : fs'.field (inodeRef info p.number) iMode =
      (fs.field (inodeRef info p.number) iMode ||| p.label.dentry.mode) % 65536) :
    Holds p info lo fs' := by
  have hcarries : Carries p info lo fs' := h.carries.keep ha (names_beside (by decide)) hD
  have hlinks : fs'.field (inodeRef info p.number) iLinksCount =
      fs.field (inodeRef info p.number) iLinksCount :=
    ha.field (names_beside (show Distinct countSpans permissionSpans by decide)) (by decide)
  refine ⟨hcarries, ?_, hlinks.trans h.links, howned⟩
  rw [hmode, h.mode]
  exact mod_or_mod _ _

theorem distinct_xattr (info : FsInfo) : Distinct heldSpans (xattrSpans info) := by
  intro s hs t ht
  simp only [heldSpans, xattrSpans, List.mem_cons, List.not_mem_nil, or_false] at hs ht
  obtain rfl | rfl | rfl := hs <;> obtain rfl | rfl | rfl := ht <;> simp

theorem finishEntry_holds {args : BuildArgs} {slots : InodeSlots} {i k lo old len : Nat} {d : Dentry}
    {b : Buffer} {p : Place Node} (hr : Roomy args.info L) (hs : Standing L args.info k fs)
    (h1 : 1 ≤ p.number) (hn : p.number ≤ k)
    (hd : p.label.dentry = d) (hbuilt : Built p args.info lo fs) (hlo : slots.data < lo)
    (hdata : InMemory old fs slots.data len b)
    (h : finishEntry args (some slots) i d p.number (fs, []) = .ok ((), (fs', []))) :
    Holds p args.info lo fs' ∧ Standing L args.info k fs' ∧
      LeavesAlone (OffSlots args.info (· = p.number)) (· = slots.data) fs fs' ∧
      CountsDirs args.info [] fs fs' ∧ ∃ off, slots.offsets[i]? = some off ∧ off + 4 ≤ b.size ∧
        InMemory old fs' slots.data len (b.putLE off 4 p.number) := by
  obtain ⟨⟨⟩, ⟨fs1, l1⟩, hpatch, h2⟩ := Run.bind_ok.mp h
  obtain ⟨ret, ⟨fs2, l2⟩, hperm, h3⟩ := Run.bind_ok.mp h2
  obtain ⟨rfl, howned, hmode⟩ := inodeSetPermissions_permits hperm
  rw [if_neg (by decide)] at h3
  obtain ⟨ret, ⟨fs3, l3⟩, hcap, h4⟩ := Run.bind_ok.mp h3
  split at h4
  · exact absurd h4 raise_not_quiet
  cases h4
  obtain ⟨rfl, hthird⟩ := (inodeSetCapabilities_fills (L := L) (D := fun _ => False)
    apartFrom_beside _).quiet hcap
  obtain ⟨rfl, hsecond⟩ := (inodeSetPermissions_fills (L := L) (D := fun _ => False)
    apartFrom_beside _ _ _ _).quiet hperm
  -- the entry itself
  rw [patchEntry] at hpatch
  obtain ⟨_, st, hexpect, h5⟩ := Run.bind_ok.mp hpatch
  cases hexpect
  obtain ⟨off, ⟨fs0, l0⟩, hoffset, hset⟩ := Run.bind_ok.mp h5
  obtain ⟨hoff, rfl, rfl⟩ := Run.expect_ok hoffset
  obtain ⟨hfirst, -⟩ := setHeap_fills (L := L) (P := fun _ _ => True) (D := (· = slots.data)) rfl
    _ _ _ _ _ _ _ _ hset
  obtain ⟨b0, b1, hb0, hpoke, rfl⟩ := onHeap_ok.mp hset
  obtain ⟨hin, rfl, -⟩ := pokeAt_ok.mp hpoke
  rw [hdata.bytes] at hb0
  cases hb0
  have hc1 := hfirst hs.keeps
  have hpatched : Contained L (Beside (inodeRef args.info p.number) []) (· = slots.data) _ _ :=
    ⟨hc1.toLeavesAlone.mono (fun _ _ _ => trivial) fun _ => id, hc1.keeps, hc1.same, hc1.inodes⟩
  have hs1 := hs.fills hr hpatched (by simp) h1 hn
  have hc2 := hsecond hs1.keeps
  have hs2 := hs1.fills hr hc2 (hr.inside (by decide)) h1 hn
  have hc3 := hthird hs2.keeps
  have hs3 := hs2.fills hr hc3 hr.xattr h1 hn
  have hbuilt1 : Built p args.info lo _ := hbuilt.keep hc1.toLeavesAlone
    (fun _ _ _ _ _ => trivial) fun id hid => hid ▸ hlo
  subst hd
  have hholds := hbuilt1.permit hc2.toLeavesAlone (fun _ => False.elim) howned hmode
  refine ⟨hholds.keep hc3.toLeavesAlone (names_beside (distinct_xattr args.info))
    fun _ => False.elim, hs3, ?_, hc1.counts.trans (hc2.counts.trans hc3.counts), off, hoff, hin, ?_⟩
  · have ha1 := hpatched.toLeavesAlone.slot (by simp)
    have ha2 := (hc2.toLeavesAlone.slot (hr.inside (by decide))).allow (· = slots.data)
    have ha3 := (hc3.toLeavesAlone.slot hr.xattr).allow (· = slots.data)
    exact trans_of (LeavesAlone _ _) ha1 (trans_of (LeavesAlone _ _) ha2 ha3)
  · exact ((hdata.write _).keep hc2.toLeavesAlone id).keep hc3.toLeavesAlone id

end Finishing

section Making

variable {L : Layout} {info : FsInfo} {force : Bool} {k n up : Nat} {fs fs' : Fs}
  {l l' : List Ext4Error} {d : Dentry} {stat : Option HostStat} {below : List (Nat × Node)}

theorem initInode_sets {r : InodeRef} {mode : Nat}
    (h : initInode r mode (fs, l) = .ok ((), (fs', l'))) :
    fs'.field r iMode = mode % 65536 ∧ fs'.field r iLinksCount = 1 := by
  obtain ⟨fs0, st, hread, h1⟩ := Run.bind_ok.mp h
  cases hread
  obtain ⟨⟨⟩, ⟨fs1, l1⟩, hmode, h2⟩ := Run.bind_ok.mp h1
  obtain ⟨⟨⟩, ⟨fs2, l2⟩, hlinks, hflags⟩ := Run.bind_ok.mp h2
  obtain ⟨old, ⟨fs3, l3⟩, hget, hset⟩ := Run.bind_ok.mp hflags
  obtain ⟨rfl, rfl, -⟩ := getField_run r iFlags hget
  constructor
  · rw [setField_keeps (f := iMode) (by decide) hset, setField_keeps (f := iMode) (by decide) hlinks]
    exact field_setField hmode
  · rw [setField_keeps (f := iLinksCount) (by decide) hset]
    exact field_setField hlinks

theorem linkCount_file {p : Place Node} (h : p.label.dentry.fileType ≠ ext4FtDirectory) :
    linkCount p = 1 := by
  rw [linkCount, if_neg]
  simpa [Node.isDir] using h

theorem typeBits_special {x : Node} {s : HostStat} (hstat : x.stat = some s)
    (h : x.dentry.fileType = ext4FtChrdev ∨ x.dentry.fileType = ext4FtBlkdev ∨
      x.dentry.fileType = ext4FtSock ∨ x.dentry.fileType = ext4FtFifo) :
    x.typeBits = s.fileType ∧ x.dentry.fileType ≠ ext4FtDirectory := by
  rw [Node.typeBits, hstat]
  obtain h | h | h | h := h <;> rw [h] <;> exact ⟨rfl, by decide⟩

theorem makeSpecial_built (hr : Roomy info L) (hs : Standing L info k fs)
    (htype : d.fileType = ext4FtChrdev ∨ d.fileType = ext4FtBlkdev ∨ d.fileType = ext4FtSock ∨
      d.fileType = ext4FtFifo)
    (h : makeSpecial info force stat (fs, []) = .ok (n, (fs', []))) :
    n = k + 1 ∧ Added L info (fun _ => False) k 1 [] fs fs' ∧
      Built ⟨up, k + 1, ⟨d, stat⟩, below⟩ info fs.heap.length fs' := by
  cases stat with
  | none =>
    obtain ⟨⟨⟩, ⟨fs1, l1⟩, hraise, hend⟩ := Run.bind_ok.mp h
    cases hend
    exact absurd hraise raise_not_quiet
  | some s =>
    obtain ⟨rfl, hk, fs1, hs1, hopens, -, h1⟩ := newInode_quiet hs hr h
    obtain ⟨⟨⟩, ⟨fs2, l2⟩, hinit, h2⟩ := Run.bind_ok.mp h1
    obtain ⟨⟨⟩, ⟨fs3, l3⟩, hmajor, hminor⟩ := Run.bind_ok.mp h2
    have hspans := @apartFrom_beside (inodeRef info (k + 1)) madeSpans
    have hset (f : Field) (hf : f.Within madeSpans) (v : Nat) :
        Run.Advances (Fills L (Beside (inodeRef info (k + 1)) madeSpans) fun _ => False)
          (setField (inodeRef info (k + 1)) f v) := setField_fills (hspans.off hf) v
    obtain ⟨rfl, hthird⟩ := (hset _ (by decide) _).quiet hminor
    obtain ⟨rfl, hsecond⟩ := (hset _ (by decide) _).quiet hmajor
    obtain ⟨-, hfirst⟩ := (initInode_fills (L := L) (D := fun _ => False) apartFrom_beside _).quiet
      hinit
    have hfills := trans_of (Fills L _ _) (fun hk => (hfirst hk).within (by decide))
      (trans_of (Fills L _ _) hsecond hthird)
    obtain ⟨hmode, hlinks⟩ := initInode_sets hinit
    obtain ⟨hbits, hnot⟩ := @typeBits_special ⟨d, some s⟩ s rfl htype
    refine ⟨rfl, hs1.added hr hk hopens (hfills hs1.keeps) (hr.inside (by decide)),
      .special s htype rfl ?_ (field_setField hminor), ?_, ?_⟩
    · rw [setField_keeps (by decide) hminor]
      exact field_setField hmajor
    · rw [hbits, setField_keeps (f := iMode) (by decide) hminor,
        setField_keeps (f := iMode) (by decide) hmajor, hmode]
    · rw [linkCount_file hnot, setField_keeps (f := iLinksCount) (by decide) hminor,
        setField_keeps (f := iLinksCount) (by decide) hmajor, hlinks]

def linkTarget (info : FsInfo) (force : Bool) (r : InodeRef) (link : List UInt8) (len : Nat) :
    Build Unit :=
  if u32 (len + 1) ≤ 60 then
    onTable r (pokeBytes (r.off + (iBlock 0).off) (link.take len))
  else do
    match ← inodeAllocateDataIndirect info force r info.blockSize.val info.blockSize.val with
    | none => Run.crash
    | some data =>
      onHeap data (pokeBytes 0 (link.take len))
      setField r iBlocksLo (info.blockSize.val / 512)

variable {r : InodeRef} {link : List UInt8}

theorem linkTarget_advances (r : InodeRef) (link : List UInt8) (len : Nat) :
    Run.Advances Anything (linkTarget info force r link len) := by
  have hspans := @apartFrom_beside r blockSpans
  have halloc : Run.Advances Anything
      (inodeAllocateDataIndirect info force r info.blockSize.val info.blockSize.val) :=
    (inodeAllocateDataIndirect_fills (L := emptyLayout) (D := fun _ => False) hspans.off_iBlock _
      _).mono fun _ _ _ => trivial
  have hset : Run.Advances Anything (setField r iBlocksLo (info.blockSize.val / 512)) :=
    (setField_fills (L := emptyLayout) (D := fun _ => False) (hspans.off (by decide)) _).mono
      fun _ _ _ => trivial
  refine Run.Advances.ite (fun _ => ?_) fun _ => halloc.bind fun data => ?_
  · exact (onTable_fills (L := emptyLayout) (P := fun _ _ => False) (D := fun _ => False)
      ((pokeBytes_advances _ _).mono fun _ _ _ _ => False.elim)).mono fun _ _ _ => trivial
  · cases data with
    | none => exact Run.advances_crash
    | some d =>
      refine Run.Advances.bind ?_ fun _ => hset
      exact (pokeBytes_advances 0 _).zoom fun _ _ _ _ _ => trivial

theorem linkTarget_short (hk : L.Keeps fs.aux) (hlen : link.length < 60)
    (h : linkTarget info force r link link.length (fs, []) = .ok ((), (fs', []))) :
    Contained L (Beside r blockSpans) (fun _ => False) fs fs' ∧
      (fs'.aux.table r.bg).slice (r.off + (iBlock 0).off) link.length = link := by
  rw [linkTarget, u32_of_lt (by omega), if_pos (by omega), List.take_length] at h
  obtain ⟨hfills, -⟩ := onTable_pokeBytes_fills (L := L) (D := fun _ => False) apartFrom_beside
    (by omega) _ _ _ _ _ h
  refine ⟨hfills hk, ?_⟩
  obtain ⟨b, t, t', hb, ht, hrun, rfl⟩ := onTable_ok.mp h
  obtain ⟨hin, rfl, -⟩ := pokeBytes_ok.mp hrun
  rw [table_withTable hb, if_pos rfl]
  exact Buffer.slice_put _ _ _ hin

theorem linkTarget_long (hk : L.Keeps fs.aux) (hknown : fs.Known) (hge : 60 ≤ link.length)
    (hlen : link.length < info.blockSize.val)
    (h : linkTarget info force r link link.length (fs, []) = .ok ((), (fs', []))) :
    Contained L (Beside r blockSpans) (fun _ => False) fs fs' ∧
      ∃ data b, InMemory fs.heap.length fs' data info.blockSize.val b ∧
        b.slice 0 link.length = link := by
  have hword := info.blockSize.isLt
  have hspans := @apartFrom_beside r blockSpans
  rw [linkTarget, u32_of_lt (by omega), if_neg (by omega), List.take_length] at h
  obtain ⟨found, ⟨fs1, l1⟩, halloc, h1⟩ := Run.bind_ok.mp h
  cases found with
  | none => cases h1
  | some data =>
    obtain ⟨⟨⟩, ⟨fs2, l2⟩, hpoke, hset⟩ := Run.bind_ok.mp h1
    obtain ⟨hfirst, -⟩ := inodeAllocateDataIndirect_fills (L := L) (D := fun _ => False)
      hspans.off_iBlock _ _ _ _ _ _ _ halloc
    obtain ⟨hsecond, -⟩ := onHeap_fills (L := L) (P := Beside r blockSpans)
      (D := fun id => False ∨ id = data) (pokeBytes_advances 0 link) (Or.inr rfl) _ _ _ _ _ hpoke
    obtain ⟨hthird, -⟩ := setField_fills (L := L) (D := fun _ => False)
      (hspans.off (by decide)) _ _ _ _ _ _ hset
    have hnew := inodeAllocateDataIndirect_data hspans.off_iBlock hk hknown halloc
    have hwritten := hfirst.trans_new hsecond hnew.young
    refine ⟨trans_of (Fills L _ _) hwritten hthird hk, data, _,
      InMemory.keep (b := (Buffer.zeros info.blockSize.val).put 0 link) ?_
        (hthird (hwritten hk).keeps).toLeavesAlone id, Buffer.slice_put _ _ _ ?_⟩
    · obtain ⟨b0, b1, hb0, hrun, rfl⟩ := onHeap_ok.mp hpoke
      obtain ⟨-, rfl, -⟩ := pokeBytes_ok.mp hrun
      rw [hnew.bytes] at hb0
      cases hb0
      exact hnew.write _
    · rw [Nat.zero_add]
      exact hlen.le

theorem makeLink_built (hr : Roomy info L) (hs : Standing L info k fs)
    (htype : d.fileType = ext4FtSymlink) (hlen : d.link.length < info.blockSize.val)
    (h : makeLink info force d.link (fs, []) = .ok (n, (fs', []))) :
    n = k + 1 ∧ Added L info (fun _ => False) k 1 [] fs fs' ∧
      Built ⟨up, k + 1, ⟨d, stat⟩, below⟩ info fs.heap.length fs' := by
  have hword := info.blockSize.isLt
  have hu : u32 d.link.length = d.link.length := u32_of_lt (by omega)
  obtain ⟨rfl, hk, fs1, hs1, hopens, hblank, h1⟩ := newInode_quiet hs hr h
  rw [hu] at h1
  obtain ⟨⟨⟩, ⟨fs2, l2⟩, hinit, h2⟩ := Run.bind_ok.mp h1
  obtain ⟨⟨⟩, ⟨fs3, l3⟩, hsize, h3⟩ := Run.bind_ok.mp h2
  have htarget : linkTarget info force (inodeRef info (k + 1)) d.link d.link.length (fs3, l3) =
      .ok ((), (fs', [])) := h3
  obtain ⟨rfl, -⟩ := (linkTarget_advances _ _ _).quiet htarget
  obtain ⟨rfl, hsecond⟩ := (setField_fills (L := L) (D := fun _ => False)
    (P := Beside (inodeRef info (k + 1)) [(4, 8)]) (apartFrom_beside.off (by decide)) _).quiet hsize
  obtain ⟨-, hfirst⟩ := (initInode_fills (L := L) (D := fun _ => False) apartFrom_beside _).quiet
    hinit
  have hc2 := hfirst hs1.keeps
  have hc3 := hsecond hc2.keeps
  obtain ⟨hc4, hbody⟩ : Contained L (Beside (inodeRef info (k + 1)) blockSpans) (fun _ => False)
      fs3 fs' ∧ ((fs'.inodeSize (inodeRef info (k + 1)) = d.link.length) →
        Carries ⟨up, k + 1, ⟨d, stat⟩, below⟩ info fs.heap.length fs') := by
    rcases Nat.lt_or_ge d.link.length 60 with hshort | hlong
    · obtain ⟨hc, hslice⟩ := linkTarget_short hc3.keeps hshort htarget
      exact ⟨hc, fun hsize => .shortLink htype hsize hshort hslice⟩
    · obtain ⟨hc, data, b, hmem, hslice⟩ := linkTarget_long hc3.keeps
        (hc3.known (hc2.known hs1.known)) hlong hlen htarget
      have hle : fs.heap.length ≤ fs3.heap.length :=
        (hopens.alone (fun _ _ => True) fun _ => False).longer.trans (hc2.longer.trans hc3.longer)
      exact ⟨hc, fun hsize => .longLink data b htype hsize hlong (hmem.older hle) hslice⟩
  obtain ⟨hmode, hlinks⟩ := initInode_sets hinit
  have hlast (f : Field) (hf : ∀ s ∈ blockSpans, f.off + f.size ≤ s.1 ∨ s.2 ≤ f.off) :
      fs'.field (inodeRef info (k + 1)) f = fs3.field (inodeRef info (k + 1)) f :=
    hc4.toLeavesAlone.aside hf
  refine ⟨rfl, ?_, hbody ?_, ?_, ?_⟩
  · have hgrown : Contained L (Beside (inodeRef info (k + 1)) madeSpans) _ _ _ :=
      hc2.within (by decide)
    have hall := trans_of (Fills L _ _) (fun _ => hgrown)
      (trans_of (Fills L _ _) (fun _ => hc3.within (by decide)) fun _ => hc4.within (by decide))
    exact hs1.added hr hk hopens (hall hs1.keeps) (hr.inside (by decide))
  · have hhigh : fs'.field (inodeRef info (k + 1)) iSizeHigh = 0 := by
      rw [hlast iSizeHigh (by decide), setField_keeps (f := iSizeHigh) (by decide) hsize,
        hc2.toLeavesAlone.aside (f := iSizeHigh) (by decide)]
      exact hblank.field (hr.record.trans' (by decide))
    have hlow : fs'.field (inodeRef info (k + 1)) iSizeLo = d.link.length := by
      rw [hlast iSizeLo (by decide), field_setField hsize]
      exact Nat.mod_eq_of_lt (by simp only [iSizeLo]; omega)
    rw [Fs.inodeSize, hhigh, hlow, Nat.zero_mul, Nat.zero_add]
  · rw [hlast iMode (by decide), setField_keeps (f := iMode) (by decide) hsize, hmode,
      Node.typeBits, htype]
    rfl
  · rw [hlast iLinksCount (by decide), setField_keeps (f := iLinksCount) (by decide) hsize, hlinks,
      linkCount_file (by rw [htype]; decide)]

theorem onFs_ok {α : Type} {m : Build α} {a : α} {t t' : Tree} :
    onFs m (t, l) = .ok (a, (t', l')) ↔
      m (t.fs, l) = .ok (a, (t'.fs, l')) ∧ t'.saved = t.saved := by
  unfold onFs Run.zoom
  cases hm : m (t.fs, l) with
  | error e => simp [hm]
  | ok p =>
    obtain ⟨b, fs1, l1⟩ := p
    obtain ⟨fs2, saved⟩ := t'
    simp only [hm, Except.ok.injEq, Prod.mk.injEq, Tree.mk.injEq]
    constructor
    · rintro ⟨rfl, ⟨rfl, rfl⟩, rfl⟩
      exact ⟨⟨rfl, rfl, rfl⟩, rfl⟩
    · rintro ⟨⟨rfl, rfl, rfl⟩, rfl⟩
      exact ⟨rfl, ⟨rfl, rfl⟩, rfl⟩

theorem makeFile_built {t t' : Tree} {head : Option Nat} (hr : Roomy info L)
    (hs : Standing L info k t.fs) (htype : d.fileType = ext4FtRegFile)
    (hsize : d.size < 18446744073709551616)
    (h : makeFile info force head (d.fullPath.getD []) d.size (t, []) = .ok (n, (t', []))) :
    n = k + 1 ∧ Added L info (fun _ => False) k 1 [] t.fs t'.fs ∧
      Built ⟨up, k + 1, ⟨d, stat⟩, below⟩ info t.fs.heap.length t'.fs := by
  obtain ⟨inodeNum, ⟨t1, l1⟩, halloc, h1⟩ := Run.bind_ok.mp h
  split at h1
  · obtain ⟨_, ⟨t2, l2⟩, hraise, hend⟩ := Run.bind_ok.mp h1
    cases hend
    exact absurd hraise raise_not_quiet
  · rename_i hne
    obtain ⟨r, ⟨t2, l2⟩, hget, h2⟩ := Run.bind_ok.mp h1
    obtain ⟨rfl, hk, rfl, rfl, hs2, hopens, hblank⟩ :=
      hs.next hr (onFs_ok.mp halloc).1 hne (onFs_ok.mp hget).1
    have hend {t3 : Tree} {l3 : List Ext4Error}
        (hc3 : Contained L (Beside (inodeRef info (k + 1)) madeSpans) (fun _ => False) t2.fs t3.fs)
        (hinode : t3.fs.inodeSize (inodeRef info (k + 1)) = d.size)
        (hqueued : FileQueued t3.fs (d.fullPath.getD []) d.size)
        (hinit : initInode (inodeRef info (k + 1)) sIfreg (t3.fs, l3) = .ok ((), (t'.fs, []))) :
        Added L info (fun _ => False) k 1 [] t.fs t'.fs ∧
          Built ⟨up, k + 1, ⟨d, stat⟩, below⟩ info t.fs.heap.length t'.fs := by
      obtain ⟨-, hlast⟩ := (initInode_fills (L := L) (D := fun _ => False) apartFrom_beside _).quiet
        hinit
      have hc4 := hlast hc3.keeps
      have hall := trans_of (Fills L _ _) (fun _ => hc3) (fun _ => hc4.within (by decide)) hs2.keeps
      obtain ⟨hmode, hlinks⟩ := initInode_sets hinit
      refine ⟨hs2.added hr hk hopens hall (hr.inside (by decide)), .file htype ?_ ?_, ?_, ?_⟩
      · exact (hc4.toLeavesAlone.inodeSize (names_beside (by decide))).trans hinode
      · exact hqueued.keep hc4.queue
      · rw [hmode, Node.typeBits, htype]
        rfl
      · rw [hlinks, linkCount_file (by rw [htype]; decide)]
    split at h2
    · obtain ⟨found, ⟨t3, l3⟩, hfile, h3⟩ := Run.bind_ok.mp h2
      obtain ⟨hfile, -⟩ := onFs_ok.mp hfile
      obtain ⟨hfills, -⟩ := inodeAllocateFileExtents_fills (D := fun _ => False) apartFrom_beside
        hr.positive _ _ _ _ _ _ _ hfile
      cases found with
      | none =>
        obtain ⟨⟨⟩, ⟨t4, l4⟩, hinit, hret⟩ := Run.bind_ok.mp h3
        cases hret
        obtain ⟨rfl, -⟩ := (initInode_fills (L := L) (D := fun _ => False) apartFrom_beside _).quiet
          (onFs_ok.mp hinit).1
        exact (inodeAllocateFileExtents_none hfile).elim
      | some alloc =>
        obtain ⟨⟨⟩, ⟨t4, l4⟩, hupdate, h4⟩ := Run.bind_ok.mp h3
        cases hupdate
        obtain ⟨⟨⟩, ⟨t5, l5⟩, hinit, hret⟩ := Run.bind_ok.mp h4
        cases hret
        obtain ⟨hqueued, hinode⟩ := inodeAllocateFileExtents_data hfile
        exact ⟨rfl, hend (hfills hs2.keeps) (hinode hsize) hqueued (onFs_ok.mp hinit).1⟩
    · obtain ⟨⟨⟩, ⟨t3, l3⟩, hinit, hret⟩ := Run.bind_ok.mp h2
      cases hret
      have hnone : d.size = 0 := by omega
      refine ⟨rfl, hend (refl_of (Fills L _ _) t2.fs hs2.keeps) ?_ ?_ (onFs_ok.mp hinit).1⟩
      · rw [Fs.inodeSize, hblank.field (hr.record.trans' (by decide)),
          hblank.field (hr.record.trans' (by decide)), hnone]
      · exact ⟨[], hnone ▸ rfl, by simp⟩

end Making

section Directories

variable {L : Layout} {info : FsInfo} {force : Bool} {k n parent dirs : Nat} {fs fs' : Fs}
  {l l' : List Ext4Error} {dentries : List Dentry} {slots : Option InodeSlots}

structure Begun (info : FsInfo) (lo n parent dirs : Nat) (dentries : List Dentry) (fs : Fs)
    (s : InodeSlots) (b : Buffer) : Prop where
  data : InMemory lo fs s.data b.size b
  size : fs.inodeSize (inodeRef info n) = b.size
  mode : fs.field (inodeRef info n) iMode = sIfdir
  links : fs.field (inodeRef info n) iLinksCount = (dirs + 2) % 65536
  places : s.offsets.length = dentries.length
  entries : Links info.blockSize.val b 0 (newLinks n parent s.offsets dentries) b.size

theorem directoryAt_begun (hr : Roomy info L) (hbs : SmallBlocks info.blockSize.val)
    (hnames : NamesFit dentries) (hs : Standing L info k fs) (h1 : 1 ≤ n) (hn : n ≤ k)
    {m : Nat}
    (h : directoryAt info force n parent dentries dirs (fs, []) = .ok ((m, slots), (fs', []))) :
    m = n ∧ Standing L info k fs' ∧ LeavesAlone (OffSlots info (· = n)) (fun _ => False) fs fs' ∧
      CountsDirs info [n] fs fs' ∧
        ∃ s b, slots = some s ∧ Begun info fs.heap.length n parent dirs dentries fs' s b := by
  obtain ⟨⟨⟩, ⟨fs1, l1⟩, hadd, h2⟩ := Run.bind_ok.mp h
  obtain ⟨rfl, hs1, hadded, hcount⟩ := addDirectory_standing hs hadd
  obtain ⟨r, ⟨fs2, l2⟩, hget, h3⟩ := Run.bind_ok.mp h2
  obtain ⟨rfl, rfl, hs2, hopens, -⟩ := hs1.opened hget
  obtain ⟨found, ⟨fs3, l3⟩, halloc, h4⟩ := Run.bind_ok.mp h3
  cases found with
  | none =>
    obtain ⟨_, ⟨fs4, l4⟩, hraise, hend⟩ := Run.bind_ok.mp h4
    cases hend
    exact absurd hraise raise_not_quiet
  | some data =>
    obtain ⟨aux0, st, hread, h5⟩ := Run.bind_ok.mp h4
    cases hread
    obtain ⟨⟨⟩, ⟨fs4, l4⟩, hmode, h6⟩ := Run.bind_ok.mp h5
    obtain ⟨⟨⟩, ⟨fs5, l5⟩, hlinks, h7⟩ := Run.bind_ok.mp h6
    obtain ⟨⟨⟩, ⟨fs6, l6⟩, hflags, h8⟩ := Run.bind_ok.mp h7
    obtain ⟨⟨off, offsets⟩, ⟨fs7, l7⟩, hheap, h9⟩ := Run.bind_ok.mp h8
    cases h9
    have hspans := @apartFrom_beside (inodeRef info n) madeSpans
    have hset (f : Field) (hf : f.Within initSpans) (v : Nat) :
        Run.Advances (Fills L (Beside (inodeRef info n) initSpans) fun _ => False)
          (setField (inodeRef info n) f v) := setField_fills (apartFrom_beside.off hf) v
    have hor (v : Nat) : Run.Advances (Fills L (Beside (inodeRef info n) initSpans) fun _ => False)
        (orField (inodeRef info n) iFlags v) := orField_fills (apartFrom_beside.off (by decide)) v
    obtain ⟨hthird, -⟩ := inodeAllocateDataExtents_fills (D := fun _ => False) hspans hr.positive
      _ _ _ _ _ _ _ halloc
    have hc3 := hthird hs2.keeps
    have hnew := inodeAllocateDataExtents_data hspans hr.positive hs2.keeps hs2.known halloc
    have hsize := inodeAllocateDataExtents_size ((u32_lt _).trans (by decide)) halloc
    have hc6 := trans_of (Fills L _ _) (hset _ (by decide) _ _ _ _ _ _ hmode).1
      (trans_of (Fills L _ _) (hset _ (by decide) _ _ _ _ _ _ hlinks).1
        (hor _ _ _ _ _ _ hflags).1) hc3.keeps
    -- the entries are put into the new memory
    obtain ⟨hseventh, -⟩ := onHeap_fills (L := L) (P := Beside (inodeRef info n) madeSpans)
      (D := fun id => False ∨ id = data) (fillDirectory_advances _ _ _ _) (Or.inr rfl) _ _ _ _ _
      hheap
    obtain ⟨b0, b, hb0, hfill, rfl⟩ := onHeap_ok.mp hheap
    have hbefore := hnew.keep hc6.toLeavesAlone id
    rw [hbefore.bytes] at hb0
    cases hb0
    obtain ⟨rfl, hbsize, hlength, hentries⟩ := fillDirectory_links hbs hnames rfl hfill
    have hwritten := trans_of (Fills L _ _) (fun _ => hc3) (fun _ => hc6.within (by decide))
      |>.trans_new hseventh hnew.young
    have hdirs := fills_dirs (L := L) (P := Beside (inodeRef info n) madeSpans)
      (D := fun _ => False) { fs6 with heap := fs6.heap.set data b } n
    have hall := trans_of (Fills L _ _) hwritten hdirs hs2.keeps
    refine ⟨rfl, hs2.fills hr hall (hr.inside (by decide)) h1 hn, ?_,
      hcount.trans (hopens.counts.trans hall.counts), ⟨data, offsets⟩, b, rfl, ?_⟩
    · have hlast : LeavesAlone (OffSlots info (· = n)) (fun _ => False) fs2 _ :=
        hall.toLeavesAlone.slot (hr.inside (by decide))
      exact trans_of (LeavesAlone _ _) (hadded _ _)
        (trans_of (LeavesAlone _ _) (hopens.alone _ _) hlast)
    · have hold : fs.heap.length ≤ fs2.heap.length :=
        (hadded (fun _ _ => True) fun _ => False).longer.trans
          (hopens.alone (fun _ _ => True) fun _ => False).longer
      obtain ⟨old, ⟨fs5', l5'⟩, hget', hput⟩ := Run.bind_ok.mp hflags
      obtain ⟨rfl, -, -⟩ := getField_run _ iFlags hget'
      have hstill : fs6.inodeSize (inodeRef info n) = b.size := by
        rw [hc6.toLeavesAlone.inodeSize (names_beside (by decide)), hsize, hbsize]
        rfl
      have hmode6 : fs6.field (inodeRef info n) iMode = sIfdir := by
        rw [setField_keeps (f := iMode) (by decide) hput,
          setField_keeps (f := iMode) (by decide) hlinks, field_setField hmode]
        rfl
      have hlinks6 : fs6.field (inodeRef info n) iLinksCount = (dirs + 2) % 65536 := by
        rw [setField_keeps (f := iLinksCount) (by decide) hput, field_setField hlinks]
        exact Nat.mod_mod_of_dvd _ (by decide)
      have hmem : InMemory fs.heap.length { fs6 with
          heap := fs6.heap.set data b
          dirs := fs6.dirs ++ [n] } data b.size b := by
        have hsame := (hbefore.write b).older hold
        rw [show directoryLen info dentries = b.size by rw [hbsize]; rfl] at hsame
        exact hsame.keep (hdirs (hwritten hs2.keeps).keeps).toLeavesAlone id
      exact ⟨hmem, hstill, hmode6, hlinks6, hlength, hentries⟩

theorem makeDirectory_next (hr : Roomy info L) (hbs : SmallBlocks info.blockSize.val)
    (hnames : NamesFit dentries) (hs : Standing L info k fs) (hparent : parent ≠ 0) {m : Nat}
    (h : makeDirectory info force parent dentries dirs (fs, []) = .ok ((m, slots), (fs', []))) :
    m = k + 1 ∧ Added L info (fun _ => False) k 1 [k + 1] fs fs' ∧
      ∃ s b, slots = some s ∧ Begun info fs.heap.length (k + 1) parent dirs dentries fs' s b := by
  rw [makeDirectory] at h
  dsimp only at h
  rw [if_pos hparent, if_pos hparent] at h
  obtain ⟨n, ⟨fs1, l1⟩, halloc, h1⟩ := Run.bind_ok.mp h
  split at h1
  · obtain ⟨_, ⟨fs2, l2⟩, hraise, hend⟩ := Run.bind_ok.mp h1
    cases hend
    exact absurd hraise raise_not_quiet
  · rename_i hne
    obtain ⟨rfl, -⟩ | ⟨rfl, hk, rfl, hs1, hopens, -⟩ := allocateInode_standing hs hr halloc
    · exact absurd rfl hne
    · have hat : directoryAt info force (k + 1) parent dentries dirs (fs1, []) =
          .ok ((m, slots), (fs', [])) := h1
      obtain ⟨rfl, hs', halone, hcount, s, b, rfl, hbegun⟩ := directoryAt_begun hr hbs hnames hs1
        (Nat.le_add_left 1 k) le_rfl hat
      have hold : fs.heap.length ≤ fs1.heap.length :=
        (hopens.alone (fun _ _ => True) fun _ => False).longer
      refine ⟨rfl, ⟨hs', ?_, hk, hopens.counts.trans hcount⟩, s, b, rfl,
        { hbegun with data := hbegun.data.older hold }⟩
      refine (trans_of (LeavesAlone _ _) (hopens.alone _ _) halone).grow ?_
      rintro n rfl
      exact ⟨Nat.lt_succ_self k, le_rfl⟩

theorem makeDirectory_root (hr : Roomy info L) (hbs : SmallBlocks info.blockSize.val)
    (hnames : NamesFit dentries) (hs : Standing L info k fs) (h2 : 2 ≤ k)
    {m : Nat}
    (h : makeDirectory info force 0 dentries dirs (fs, []) = .ok ((m, slots), (fs', []))) :
    m = 2 ∧ Standing L info k fs' ∧ LeavesAlone (OffSlots info (· = 2)) (fun _ => False) fs fs' ∧
      CountsDirs info [2] fs fs' ∧
        ∃ s b, slots = some s ∧ Begun info fs.heap.length 2 2 dirs dentries fs' s b := by
  have hat : directoryAt info force 2 2 dentries dirs (fs, []) = .ok ((m, slots), (fs', [])) := h
  exact directoryAt_begun hr hbs hnames hs (by decide) h2 hat

end Directories

section Quietly

variable {info : FsInfo} {force : Bool}

theorem anything_of_fills {α : Type} {P : Nat → Nat → Prop} {D : Nat → Prop} {m : Build α}
    (h : Run.Advances (Fills emptyLayout P D) m) : Run.Advances Anything m :=
  h.mono fun _ _ _ => trivial

theorem onFs_advances {α : Type} {m : Build α} (h : Run.Advances Anything m) :
    Run.Advances Anything (onFs m) := h.zoom fun _ _ _ _ _ => trivial

theorem allocateInode_advances : Run.Advances Anything (allocateInode info) := by
  have hreserve (bg : Nat) : Run.Advances Anything (reserveInodes bg 1) := by
    rw [reserveInodes, onGroup]
    refine Run.Advances.zoom (S := Anything) ?_ fun _ _ _ _ _ => trivial
    refine Run.advances_read.bind fun b => Run.Advances.ite (fun _ => Run.advances_pure _) fun _ => ?_
    refine Run.Advances.bind ?_ fun _ => Run.advances_pure _
    intro s l a s' l' hm
    cases hm
    exact ⟨trivial, List.prefix_refl _⟩
  have hfrom (bgs : List Nat) : Run.Advances Anything (allocateInodeFrom info bgs) := by
    induction bgs with
    | nil => exact Run.advances_pure _
    | cons bg rest ih =>
      exact (hreserve bg).bind fun _ => Run.Advances.ite (fun _ => Run.advances_pure _) fun _ => ih
  exact Run.advances_read.bind fun _ => hfrom _

theorem onAllocateInode_advances : Run.Advances Anything (onAux (allocateInode info)) :=
  (@allocateInode_advances info).zoom fun _ _ _ _ _ => trivial

theorem getInode_advances (n : Nat) : Run.Advances Anything (getInode info n) :=
  anything_of_fills (P := fun _ _ => False) (D := fun _ => False) (getInode_fills info n)

theorem setField_advances (r : InodeRef) (f : Field) (v : Nat) :
    Run.Advances Anything (setField r f v) :=
  anything_of_fills (P := fun _ _ => False) (D := fun _ => False)
    (setField_fills (fun _ _ _ => id) v)

theorem orField_advances (r : InodeRef) (f : Field) (v : Nat) :
    Run.Advances Anything (orField r f v) :=
  anything_of_fills (P := fun _ _ => False) (D := fun _ => False)
    (orField_fills (fun _ _ _ => id) v)

theorem initInode_advances (r : InodeRef) (mode : Nat) :
    Run.Advances Anything (initInode r mode) :=
  anything_of_fills (P := fun _ _ => False) (D := fun _ => False)
    (initInode_fills (fun _ _ _ => False.elim) mode)

theorem newInode_advances {fill : InodeRef → Build Unit}
    (h : ∀ r, Run.Advances Anything (fill r)) : Run.Advances Anything (newInode info force fill) := by
  apply onAllocateInode_advances.bind
  intro n
  refine Run.Advances.ite (fun _ => ?_) fun _ => ?_
  · exact (Run.advances_raise force _).bind fun _ => Run.advances_pure _
  · apply (getInode_advances n).bind
    intro r
    exact (h r).bind fun _ => Run.advances_pure _

theorem makeLink_advances (link : List UInt8) :
    Run.Advances Anything (makeLink info force link) := by
  apply newInode_advances
  intro r
  refine (initInode_advances r _).bind fun _ => (setField_advances r _ _).bind fun _ => ?_
  exact linkTarget_advances r link (u32 link.length)

theorem makeSpecial_advances (stat : Option HostStat) :
    Run.Advances Anything (makeSpecial info force stat) := by
  cases stat with
  | none => exact (Run.advances_raise force _).bind fun _ => Run.advances_pure _
  | some s =>
    apply newInode_advances
    intro r
    refine (initInode_advances r _).bind fun _ => (setField_advances r _ _).bind fun _ => ?_
    exact setField_advances r _ _

theorem makeFile_advances (head : Option Nat) (filename : List UInt8) (len : Nat) :
    Run.Advances Anything (makeFile info force head filename len) := by
  apply (onFs_advances onAllocateInode_advances).bind
  intro n
  refine Run.Advances.ite (fun _ => ?_) fun _ => ?_
  · exact (Run.advances_raise force _).bind fun _ => Run.advances_pure _
  · apply (onFs_advances (getInode_advances n)).bind
    intro r
    have hinit : Run.Advances Anything (do
        onFs (initInode r sIfreg)
        return n : BuildTree Nat) :=
      (onFs_advances (initInode_advances r _)).bind fun _ => Run.advances_pure _
    refine Run.Advances.ite (fun _ => ?_) fun _ => hinit
    apply (onFs_advances _).bind
    · intro found
      cases found with
      | none => exact hinit
      | some alloc => exact (Run.advances_update fun _ => trivial).bind fun _ => hinit
    · apply anything_of_fills (P := fun _ _ => False) (D := fun _ => False)
      exact inodeAllocateFileExtents_fills (fun _ _ _ => False.elim) emptyLayout_positive _ _

theorem directoryAt_advances (n parent : Nat) (dentries : List Dentry) (dirs : Nat) :
    Run.Advances Anything (directoryAt info force n parent dentries dirs) := by
  have hadd : Run.Advances Anything (onAux (addDirectory info n)) := by
    refine Run.Advances.zoom (S := Anything) ?_ fun _ _ _ _ _ => trivial
    refine Run.Advances.ite (fun _ => Run.advances_crash) fun _ => ?_
    exact Run.Advances.zoom (S := Anything) (Run.advances_update fun _ => trivial)
      fun _ _ _ _ _ => trivial
  have halloc (r : InodeRef) (len : Nat) :
      Run.Advances Anything (inodeAllocateDataExtents info force r len len) :=
    anything_of_fills (P := fun _ _ => False) (D := fun _ => False)
      (inodeAllocateDataExtents_fills (fun _ _ _ => False.elim) emptyLayout_positive _ _)
  refine hadd.bind fun _ => (getInode_advances n).bind fun r => (halloc r _).bind fun found => ?_
  cases found with
  | none => exact (Run.advances_raise force _).bind fun _ => Run.advances_pure _
  | some data =>
    refine Run.advances_read.bind fun fs => (setField_advances r _ _).bind fun _ => ?_
    refine (setField_advances r _ _).bind fun _ => (orField_advances r _ _).bind fun _ => ?_
    apply ((fillDirectory_advances _ _ _ _).zoom fun _ _ _ _ _ => trivial).bind
    rintro ⟨off, offsets⟩
    exact (Run.advances_update fun _ => trivial).bind fun _ => Run.advances_pure _

theorem makeDirectory_advances (parent : Nat) (dentries : List Dentry) (dirs : Nat) :
    Run.Advances Anything (makeDirectory info force parent dentries dirs) := by
  have hall (n p : Nat) : Run.Advances Anything (if n = ext4AllocateFailed then do
      Run.raise force .failedInode
      return (ext4AllocateFailed, none)
    else directoryAt info force n p dentries dirs) := by
    refine Run.Advances.ite (fun _ => ?_) fun _ => directoryAt_advances n p dentries dirs
    exact (Run.advances_raise force _).bind fun _ => Run.advances_pure _
  rw [makeDirectory]
  dsimp only
  split
  · exact onAllocateInode_advances.bind fun n => hall n _
  · rw [pure_bind]
    exact hall _ _

theorem patchEntry_advances (slots : Option InodeSlots) (i n : Nat) :
    Run.Advances Anything (patchEntry slots i n) := by
  apply (Run.advances_expect slots).bind
  intro s
  apply (Run.advances_expect _).bind
  intro off
  exact anything_of_fills (P := fun _ _ => False) (D := fun _ => True) (setHeap_fills trivial _ _ _)

theorem inodeSetPermissions_advances (n mode uid gid mtime : Nat) :
    Run.Advances Anything (inodeSetPermissions info n mode uid gid mtime) :=
  anything_of_fills (P := fun _ _ => False) (D := fun _ => False)
    (inodeSetPermissions_fills (fun _ _ _ => False.elim) _ _ _ _)

theorem finishEntry_advances (args : BuildArgs) (slots : Option InodeSlots) (i : Nat) (d : Dentry)
    (n : Nat) : Run.Advances Anything (finishEntry args slots i d n) := by
  have hcap : Run.Advances Anything (inodeSetCapabilities args.info args.force n d.capabilities) :=
    anything_of_fills (P := fun _ _ => False) (D := fun _ => False)
      (inodeSetCapabilities_fills (fun _ _ _ => False.elim) _)
  refine (patchEntry_advances slots i n).bind fun _ =>
    (inodeSetPermissions_advances _ _ _ _ _).bind fun ret => ?_
  have hend : Run.Advances Anything (do
      let ret ← inodeSetCapabilities args.info args.force n d.capabilities
      if ret ≠ 0 then
        Run.raise args.force (.failedSetCapability d.path) : Build Unit) := by
    apply hcap.bind
    intro ret
    exact Run.Advances.ite (fun _ => Run.advances_raise _ _) fun _ => Run.advances_pure _
  dsimp only
  split
  · exact (Run.advances_raise _ _).bind fun _ => hend
  · exact hend

end Quietly

end MakeExt4fs

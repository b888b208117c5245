import MakeExt4fs.Allocate.Inodes

namespace MakeExt4fs

open ErrorLog Words

structure Dentry where
  path : List UInt8
  fullPath : Option (List UInt8)
  filename : List UInt8
  link : List UInt8
  size : Nat
  fileType : UInt8
  mode : Nat
  uid : Nat
  gid : Nat
  mtime : Nat
  capabilities : Nat
  deriving DecidableEq

def ext4FtDir : Nat := 2

def ext4Align (x y : Nat) : Nat := y * divRoundUp x y

def dentryLen (nameLen : Nat) : Nat := 8 + ext4Align nameLen 4

def dentrySizeLoop (bs : Nat) : Nat → List Dentry → Nat
  | len, [] => len
  | len, d :: rest =>
    let n := u32 (dentryLen d.filename.length)
    let len := if u32 (len % bs + n) > bs then u32 (len + (bs - len % bs)) else len
    dentrySizeLoop bs (u32 (len + n)) rest

def dentrySize (info : FsInfo) (dentries : List Dentry) : Nat :=
  dentrySizeLoop info.blockSize.val 24 dentries

def directoryLen (info : FsInfo) (dentries : List Dentry) : Nat :=
  u32 (divRoundUp32 (dentrySize info dentries) info.blockSize.val * info.blockSize.val)

def pokeBytes (off : Nat) (bs : List UInt8) : Run Ext4Error Buffer Unit := do
  let b ← Run.read
  if off + bs.length ≤ b.size then Run.write (b.put off bs) else Run.crash

def growDentry (pos gap : Nat) : Run Ext4Error Buffer Unit := do
  let b ← Run.read
  pokeAt (pos + 4) 2 (b.get16 (pos + 4) + gap)

def placeDentry (bs offset recLen : Nat) (prev : Option Nat) : Run Ext4Error Buffer Nat := do
  let endBlock := u32 (offset + recLen - 1) / bs
  if offset / bs ≠ endBlock then
    match prev with
    | none => Run.raise false .noPrev
    | some p => growDentry p (sub32 (endBlock * bs) offset)
    return u32 (endBlock * bs)
  else
    return offset

def writeDentry (pos inode recLen : Nat) (name : List UInt8) (fileType : Nat) :
    Run Ext4Error Buffer Unit := do
  pokeAt pos 4 inode
  pokeAt (pos + 4) 2 recLen
  pokeAt (pos + 6) 1 name.length
  pokeAt (pos + 7) 1 fileType
  pokeBytes (pos + 8) name

def addDentry (info : FsInfo) (offset : Nat) (prev : Option Nat) (inode : Nat) (name : List UInt8)
    (fileType : Nat) : Run Ext4Error Buffer (Nat × Nat) := do
  let nameLen := name.length % 256
  let recLen := u16 (dentryLen nameLen)
  let pos ← placeDentry info.blockSize.val offset recLen prev
  writeDentry pos inode recLen (name.take nameLen) fileType
  return (pos, u32 (pos + recLen))

def addEntries (info : FsInfo) (len : Nat) :
    List Dentry → Nat → Nat → Run Ext4Error Buffer (Nat × Nat × List Nat)
  | [], offset, prev => return (offset, prev, [])
  | d :: rest, offset, prev => do
    let (pos, offset) ← addDentry info offset (some prev) 0 d.filename d.fileType.toNat
    if offset > len ∨ (offset = len ∧ rest ≠ []) then
      Run.raise false (.dentryPastEnd d.filename offset len)
    let (offset, last, inodes) ← addEntries info len rest offset pos
    return (offset, last, pos :: inodes)

-- The part of make_directory that fills the data of the new directory.
def fillDirectory (info : FsInfo) (len inodeNum dirInodeNum : Nat) (dentries : List Dentry) :
    Run Ext4Error Buffer (Nat × List Nat) := do
  let (dot, offset) ← addDentry info 0 none inodeNum [46] ext4FtDir
  let (dotdot, offset) ← addDentry info offset (some dot) dirInodeNum [46, 46] ext4FtDir
  let (offset, last, inodes) ← addEntries info len dentries offset dotdot
  growDentry last (sub32 len offset)
  return (offset, inodes)

section Placement

def room (bs off : Nat) : Nat := bs - off % bs

def placeOf (bs off n : Nat) : Nat := if n ≤ room bs off then off else off + room bs off

def endOf (bs : Nat) : Nat → List Dentry → Nat
  | off, [] => off
  | off, d :: rest =>
    endOf bs (placeOf bs off (dentryLen d.filename.length) + dentryLen d.filename.length) rest

variable {bs off n : Nat}

theorem room_le (bs off : Nat) : room bs off ≤ bs := Nat.sub_le _ _

theorem add_room (hbs : 0 < bs) (off : Nat) : off + room bs off = (off / bs + 1) * bs := by
  have h := Nat.div_add_mod off bs
  have hm := Nat.mod_lt off hbs
  rw [Nat.succ_mul, Nat.mul_comm]
  unfold room
  omega

theorem room_of_dvd (h : bs ∣ off) : room bs off = bs := by
  rw [room, Nat.mod_eq_zero_of_dvd h, Nat.sub_zero]

theorem dvd_add_room (hbs : 0 < bs) (off : Nat) : bs ∣ off + room bs off := by
  rw [add_room hbs]
  exact Nat.dvd_mul_left _ _

theorem room_add (hbs : 0 < bs) (hn : n < room bs off) : room bs (off + n) = room bs off - n := by
  have hm := Nat.mod_lt off hbs
  unfold room at hn ⊢
  have hmod : (off + n) % bs = off % bs + n := by
    rw [Nat.add_mod, Nat.mod_eq_of_lt (show n < bs by omega), Nat.mod_eq_of_lt (by omega)]
  rw [hmod]
  omega

theorem endBlock_eq (hpos : 0 < n) (hn : n ≤ bs) (off : Nat) :
    (off + n - 1) / bs = if n ≤ room bs off then off / bs else off / bs + 1 := by
  have hbs : 0 < bs := by omega
  have h := Nat.div_add_mod off bs
  have hm := Nat.mod_lt off hbs
  have hnext : bs * (off / bs + 1) = bs * (off / bs) + bs := Nat.mul_succ _ _
  have hnext2 : bs * (off / bs + 1 + 1) = bs * (off / bs + 1) + bs := Nat.mul_succ _ _
  unfold room
  split
  · rw [Nat.div_eq_iff hbs, Nat.mul_comm]
    omega
  · rw [Nat.div_eq_iff hbs, Nat.mul_comm]
    omega

theorem placeOf_le (hbs : 0 < bs) (hn : n ≤ bs) (off : Nat) : n ≤ room bs (placeOf bs off n) := by
  unfold placeOf
  split
  · assumption
  · rw [room_of_dvd (dvd_add_room hbs off)]
    exact hn

theorem le_placeOf (bs off n : Nat) : off ≤ placeOf bs off n := by
  unfold placeOf
  split <;> omega

theorem ext4Align_spec (x : Nat) : x ≤ ext4Align x 4 ∧ ext4Align x 4 < x + 4 ∧
    ext4Align x 4 % 4 = 0 := by
  simp only [ext4Align, divRoundUp]
  omega

theorem endOf_ge (bs off : Nat) (dentries : List Dentry) :
    off + 8 * dentries.length ≤ endOf bs off dentries := by
  induction dentries generalizing off with
  | nil => simp [endOf]
  | cons d rest ih =>
    have hplace := le_placeOf bs off (dentryLen d.filename.length)
    have hrest := ih (placeOf bs off (dentryLen d.filename.length) + dentryLen d.filename.length)
    rw [endOf, List.length_cons]
    have hlen : 8 ≤ dentryLen d.filename.length := Nat.le_add_right _ _
    omega

end Placement

structure IsDentry (bs : Nat) (data : Buffer) (pos recLen : Nat) (e : List UInt8 × Nat) : Prop where
  recLen_eq : data.get16 (pos + 4) = recLen
  nameLen : data.get (pos + 6) = e.1.length
  fileType : data.get (pos + 7) = e.2
  name : data.slice (pos + 8) e.1.length = e.1
  aligned : recLen % 4 = 0
  holds : 8 + e.1.length ≤ recLen
  in_block : recLen ≤ room bs pos

-- Going from entry to entry by rec_len from start to stop.
inductive Walk (bs : Nat) (data : Buffer) : Nat → List (List UInt8 × Nat) → Nat → Prop
  | nil (pos : Nat) : Walk bs data pos [] pos
  | cons {pos recLen stop : Nat} {e : List UInt8 × Nat} {es : List (List UInt8 × Nat)}
      (head : IsDentry bs data pos recLen e) (tail : Walk bs data (pos + recLen) es stop) :
      Walk bs data pos (e :: es) stop

def readEntries (bs : Nat) (data : Buffer) : Nat → Nat → Option (List (List UInt8 × Nat))
  | fuel, pos =>
    if pos = data.size then some []
    else
      match fuel with
      | 0 => none
      | fuel + 1 =>
        let recLen := data.get16 (pos + 4)
        let nameLen := data.get (pos + 6)
        if recLen % 4 = 0 ∧ 8 + nameLen ≤ recLen ∧ pos % bs + recLen ≤ bs then do
          let rest ← readEntries bs data fuel (pos + recLen)
          some ((data.slice (pos + 8) nameLen, data.get (pos + 7)) :: rest)
        else none

def readDirectory (bs : Nat) (data : Buffer) : Option (List (List UInt8 × Nat)) :=
  readEntries bs data data.size 0

section Data

variable {bs : Nat} {data data' : Buffer} {pos recLen start stop : Nat} {e : List UInt8 × Nat}
  {es : List (List UInt8 × Nat)} {l : List Ext4Error}

theorem IsDentry.congr (h : IsDentry bs data pos recLen e)
    (hsame : ∀ i, pos ≤ i → i < pos + recLen → data'.get i = data.get i) :
    IsDentry bs data' pos recLen e := by
  have hlen := h.holds
  refine ⟨?_, ?_, ?_, ?_, h.aligned, h.holds, h.in_block⟩
  · rw [← h.recLen_eq]
    exact Buffer.getLE_congr fun i h1 h2 => hsame i (by omega) (by omega)
  · rw [← h.nameLen]
    exact hsame _ (by omega) (by omega)
  · rw [← h.fileType]
    exact hsame _ (by omega) (by omega)
  · conv_rhs => rw [← h.name]
    exact Buffer.slice_congr fun i h1 h2 => hsame i (by omega) (by omega)

theorem Walk.le (h : Walk bs data start es stop) : start ≤ stop := by
  induction h with
  | nil pos => exact le_rfl
  | cons head tail ih => omega

theorem Walk.congr (h : Walk bs data start es stop)
    (hsame : ∀ i, start ≤ i → i < stop → data'.get i = data.get i) :
    Walk bs data' start es stop := by
  induction h with
  | nil pos => exact .nil pos
  | cons head tail ih =>
    have hle := tail.le
    exact .cons (head.congr fun i h1 h2 => hsame i h1 (by omega))
      (ih fun i h1 h2 => hsame i (by omega) h2)

theorem Walk.snoc (h : Walk bs data start es pos) (hlast : IsDentry bs data pos recLen e) :
    Walk bs data start (es ++ [e]) (pos + recLen) := by
  induction h with
  | nil pos => exact .cons hlast (.nil _)
  | cons head tail ih => exact .cons head (ih hlast)

theorem Walk.read (hbs : 0 < bs) (h : Walk bs data pos es data.size) (fuel : Nat)
    (hfuel : data.size ≤ pos + fuel) : readEntries bs data fuel pos = some es := by
  generalize hstop : data.size = stop at h
  induction h generalizing fuel with
  | nil pos =>
    unfold readEntries
    rw [if_pos hstop.symm]
  | @cons pos recLen stop e es head tail ih =>
    have hle := tail.le
    have hholds := head.holds
    have hin := head.in_block
    have hm := Nat.mod_lt pos hbs
    have hne : pos ≠ data.size := by omega
    obtain ⟨fuel, rfl⟩ : ∃ k, fuel = k + 1 := ⟨fuel - 1, by omega⟩
    unfold room at hin
    unfold readEntries
    rw [if_neg hne]
    simp only [head.recLen_eq, head.nameLen, head.fileType, head.name, head.aligned,
      ih fuel (by omega) hstop]
    rw [if_pos ⟨trivial, hholds, by omega⟩]
    rfl

theorem pokeAt_run {off n v : Nat} (h : off + n ≤ data.size) :
    pokeAt off n v (data, l) = .ok ((), (data.putLE off n v, l)) := by
  simp only [pokeAt, pokeBuffer, Run.bind_run, Run.read_run, if_pos h, Run.write_run]

theorem pokeBytes_run {off : Nat} {xs : List UInt8} (h : off + xs.length ≤ data.size) :
    pokeBytes off xs (data, l) = .ok ((), (data.put off xs, l)) := by
  simp only [pokeBytes, Run.bind_run, Run.read_run, if_pos h, Run.write_run]

theorem growDentry_run (gap : Nat) (h : IsDentry bs data pos recLen e)
    (hsize : pos + recLen ≤ data.size) (hword : recLen + gap < 65536)
    (haligned : (recLen + gap) % 4 = 0) (hroom : recLen + gap ≤ room bs pos) :
    ∃ data', growDentry pos gap (data, l) = .ok ((), (data', l)) ∧ data'.size = data.size ∧
      IsDentry bs data' pos (recLen + gap) e ∧
      ∀ i, i < pos ∨ pos + recLen ≤ i → data'.get i = data.get i := by
  have hlen := h.holds
  have hread : data.get16 (pos + 4) + gap = recLen + gap := by rw [h.recLen_eq]
  refine ⟨data.putLE (pos + 4) 2 (recLen + gap), ?_, rfl, ?_, ?_⟩
  · simp only [growDentry, Run.bind_run, Run.read_run, hread]
    exact pokeAt_run (by omega)
  · refine ⟨?_, ?_, ?_, ?_, haligned, by omega, hroom⟩
    · exact (Buffer.getLE_putLE data _ _ _ (by omega)).trans (Nat.mod_eq_of_lt hword)
    · rw [← h.nameLen]
      exact Buffer.get_putLE_of_apart _ _ _ _ _ (by omega)
    · rw [← h.fileType]
      exact Buffer.get_putLE_of_apart _ _ _ _ _ (by omega)
    · conv_rhs => rw [← h.name]
      exact Buffer.slice_congr fun i h1 h2 => Buffer.get_putLE_of_apart _ _ _ _ _ (by omega)
  · intro i hi
    exact Buffer.get_putLE_of_apart _ _ _ _ _ (by omega)

theorem writeDentry_run (inode : Nat) (name : List UInt8) {fileType : Nat}
    (hsize : pos + recLen ≤ data.size) (hword : recLen < 65536) (hname : name.length < 256)
    (htype : fileType < 256) (haligned : recLen % 4 = 0) (hholds : 8 + name.length ≤ recLen)
    (hroom : recLen ≤ room bs pos) :
    ∃ data', writeDentry pos inode recLen name fileType (data, l) = .ok ((), (data', l)) ∧
      data'.size = data.size ∧ IsDentry bs data' pos recLen (name, fileType) ∧
      ∀ i, i < pos ∨ pos + recLen ≤ i → data'.get i = data.get i := by
  let d1 := data.putLE pos 4 inode
  let d2 := d1.putLE (pos + 4) 2 recLen
  let d3 := d2.putLE (pos + 6) 1 name.length
  let d4 := d3.putLE (pos + 7) 1 fileType
  have hs4 : d4.size = data.size := rfl
  have hone (b : Buffer) (i : Nat) : b.getLE i 1 = b.get i := by simp [Buffer.getLE]
  refine ⟨d4.put (pos + 8) name, ?_, rfl, ⟨?_, ?_, ?_, ?_, haligned, hholds, hroom⟩, ?_⟩
  · simp only [writeDentry, Run.bind_run]
    rw [pokeAt_run (by omega)]
    simp only
    rw [pokeAt_run (by simp only [Buffer.size_putLE]; omega)]
    simp only
    rw [pokeAt_run (by simp only [Buffer.size_putLE]; omega)]
    simp only
    rw [pokeAt_run (by simp only [Buffer.size_putLE]; omega)]
    exact pokeBytes_run (by simp only [Buffer.size_putLE]; omega)
  · rw [Buffer.get16, Buffer.getLE_put_of_apart _ _ _ _ _ (by omega),
      Buffer.getLE_putLE_of_apart _ _ _ _ _ _ (by omega),
      Buffer.getLE_putLE_of_apart _ _ _ _ _ _ (by omega)]
    exact (Buffer.getLE_putLE d1 _ _ _ (by simp only [d1, Buffer.size_putLE]; omega)).trans
      (Nat.mod_eq_of_lt hword)
  · rw [Buffer.get_put_of_not_mem _ _ _ _ (by omega), Buffer.get_putLE_of_apart _ _ _ _ _ (by omega),
      ← hone]
    exact (Buffer.getLE_putLE d2 _ _ _ (by simp only [d2, d1, Buffer.size_putLE]; omega)).trans
      (Nat.mod_eq_of_lt hname)
  · rw [Buffer.get_put_of_not_mem _ _ _ _ (by omega), ← hone]
    exact (Buffer.getLE_putLE d3 _ _ _ (by simp only [d3, d2, d1, Buffer.size_putLE]; omega)).trans
      (Nat.mod_eq_of_lt htype)
  · exact Buffer.slice_put _ _ _ (by omega)
  · intro i hi
    rw [Buffer.get_put_of_not_mem _ _ _ _ (by omega), Buffer.get_putLE_of_apart _ _ _ _ _ (by omega),
      Buffer.get_putLE_of_apart _ _ _ _ _ (by omega), Buffer.get_putLE_of_apart _ _ _ _ _ (by omega),
      Buffer.get_putLE_of_apart _ _ _ _ _ (by omega)]

end Data

end MakeExt4fs

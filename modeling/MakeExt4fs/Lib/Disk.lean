import MakeExt4fs.Lib.Buffer

namespace Buffer

def view (b : Buffer) (off len : Nat) : Buffer := ⟨len, fun i => UInt8.ofNat (b.get (off + i))⟩

def blit (b : Buffer) (off : Nat) (src : Buffer) : Buffer :=
  { b with byte := fun i =>
    if off ≤ i ∧ i < off + src.size then UInt8.ofNat (src.get (i - off)) else b.byte i }

@[simp] theorem size_view (b : Buffer) (off len : Nat) : (b.view off len).size = len := rfl

@[simp] theorem size_blit (b : Buffer) (off : Nat) (src : Buffer) :
    (b.blit off src).size = b.size := rfl

@[simp] theorem toNat_ofNat_get (b : Buffer) (i : Nat) : (UInt8.ofNat (b.get i)).toNat = b.get i := by
  have := b.get_lt i
  simp only [UInt8.toNat_ofNat']
  omega

theorem get_of_le {b : Buffer} {i : Nat} (h : b.size ≤ i) : b.get i = 0 := by
  rw [get, if_neg (by omega)]

theorem get_view {b : Buffer} {off len i : Nat} (h : i < len) :
    (b.view off len).get i = b.get (off + i) := by
  rw [get, if_pos (by simpa using h)]
  exact toNat_ofNat_get b (off + i)

theorem getLE_view {b : Buffer} {off len o n : Nat} (h : o + n ≤ len) :
    (b.view off len).getLE o n = b.getLE (off + o) n := by
  induction n generalizing o with
  | zero => rfl
  | succ n ih =>
    rw [getLE, getLE, get_view (by omega), ih (by omega)]
    rfl

theorem get_blit_of_mem {b : Buffer} {off : Nat} {src : Buffer} {i : Nat}
    (h : off ≤ i ∧ i < off + src.size) (hi : i < b.size) :
    (b.blit off src).get i = src.get (i - off) := by
  have hb : (b.blit off src).byte i = UInt8.ofNat (src.get (i - off)) := if_pos h
  rw [get, if_pos (by simpa using hi), hb, toNat_ofNat_get]

theorem get_blit_of_not_mem {b : Buffer} {off : Nat} {src : Buffer} {i : Nat}
    (h : i < off ∨ off + src.size ≤ i) : (b.blit off src).get i = b.get i := by
  have hb : (b.blit off src).byte i = b.byte i := if_neg (by omega)
  simp only [get, size_blit, hb]

end Buffer

-- The content of a file or a device; past its end there is nothing.
structure Disk extends Buffer where
  rest : ∀ i, size ≤ i → byte i = 0

namespace Disk

def ofBuffer (b : Buffer) : Disk where
  size := b.size
  byte := fun i => if i < b.size then b.byte i else 0
  rest := fun _ h => if_neg (by omega)

-- A write past the end makes the file longer.
def writeAt (d : Disk) (off : Nat) (src : Buffer) : Disk where
  size := max d.size (off + src.size)
  byte := fun i =>
    if off ≤ i ∧ i < off + src.size then UInt8.ofNat (src.get (i - off)) else d.byte i
  rest := fun i h => by
    rw [if_neg (by omega)]
    exact d.rest i (by omega)

theorem ext_get {c d : Disk} (hsize : c.size = d.size) (h : ∀ i, c.get i = d.get i) : c = d := by
  have hbyte : c.byte = d.byte := by
    funext i
    by_cases hi : i < c.size
    · have hg := h i
      simp only [Buffer.get, if_pos hi, if_pos (hsize ▸ hi)] at hg
      exact UInt8.toNat.inj hg
    · rw [c.rest i (by omega), d.rest i (by omega)]
  obtain ⟨⟨n, f⟩, _⟩ := c
  obtain ⟨⟨m, g⟩, _⟩ := d
  simp only at hsize hbyte
  subst hsize hbyte
  rfl

@[simp] theorem size_writeAt (d : Disk) (off : Nat) (src : Buffer) :
    (d.writeAt off src).size = max d.size (off + src.size) := rfl

theorem get_writeAt_of_mem {d : Disk} {off : Nat} {src : Buffer} {i : Nat}
    (h : off ≤ i ∧ i < off + src.size) : (d.writeAt off src).get i = src.get (i - off) := by
  have hb : (d.writeAt off src).byte i = UInt8.ofNat (src.get (i - off)) := if_pos h
  rw [Buffer.get, if_pos (by rw [size_writeAt]; omega), hb, Buffer.toNat_ofNat_get]

theorem get_writeAt_of_not_mem {d : Disk} {off : Nat} {src : Buffer} {i : Nat}
    (h : i < off ∨ off + src.size ≤ i) : (d.writeAt off src).get i = d.get i := by
  have hb : (d.writeAt off src).byte i = d.byte i := if_neg (by omega)
  by_cases hi : i < d.size
  · rw [Buffer.get, Buffer.get, if_pos hi, if_pos (by rw [size_writeAt]; omega), hb]
  · have hd : d.get i = 0 := Buffer.get_of_le (Nat.not_lt.mp hi)
    rw [hd, Buffer.get, hb, d.rest i (Nat.not_lt.mp hi)]
    exact ite_self _

theorem getLE_writeAt_of_apart {d : Disk} {off : Nat} {src : Buffer} {o n : Nat}
    (h : o + n ≤ off ∨ off + src.size ≤ o) : (d.writeAt off src).getLE o n = d.getLE o n :=
  Buffer.getLE_congr fun i h1 h2 => get_writeAt_of_not_mem (by omega)

theorem getLE_writeAt_within {d : Disk} {off : Nat} {src : Buffer} {o n : Nat} (h1 : off ≤ o)
    (h2 : o + n ≤ off + src.size) : (d.writeAt off src).getLE o n = src.getLE (o - off) n := by
  induction n generalizing o with
  | zero => rfl
  | succ n ih =>
    have hnext : o + 1 - off = o - off + 1 := by omega
    rw [Buffer.getLE, Buffer.getLE, get_writeAt_of_mem (by omega), ih (by omega) (by omega), hnext]

theorem writeAt_same {d : Disk} {off : Nat} {src : Buffer} (hend : off + src.size ≤ d.size)
    (h : ∀ i < src.size, src.get i = d.get (off + i)) : d.writeAt off src = d := by
  apply ext_get
  · rw [size_writeAt]
    omega
  · intro i
    by_cases hi : off ≤ i ∧ i < off + src.size
    · rw [get_writeAt_of_mem hi, h _ (by omega), Nat.add_sub_cancel' hi.1]
    · exact get_writeAt_of_not_mem (by omega)

end Disk

import MakeExt4fs.Lib.Words

-- A block of memory of a known size: reads past its end give zero, writes past it are lost.
structure Buffer where
  size : Nat
  byte : Nat → UInt8

namespace Buffer

def zeros (size : Nat) : Buffer := ⟨size, fun _ => 0⟩

def get (b : Buffer) (i : Nat) : Nat := if i < b.size then (b.byte i).toNat else 0

def put (b : Buffer) (off : Nat) (bs : List UInt8) : Buffer :=
  { b with byte := fun i => if off ≤ i ∧ i < off + bs.length then bs.getD (i - off) 0 else b.byte i }

def leBytes : Nat → Nat → List UInt8
  | 0, _ => []
  | n + 1, v => UInt8.ofNat v :: leBytes n (v / 256)

def getLE (b : Buffer) : Nat → Nat → Nat
  | _, 0 => 0
  | off, n + 1 => b.get off + 256 * b.getLE (off + 1) n

def putLE (b : Buffer) (off n v : Nat) : Buffer := b.put off (leBytes n v)

def get16 (b : Buffer) (off : Nat) : Nat := b.getLE off 2

def get32 (b : Buffer) (off : Nat) : Nat := b.getLE off 4

def put16 (b : Buffer) (off v : Nat) : Buffer := b.putLE off 2 v

def put32 (b : Buffer) (off v : Nat) : Buffer := b.putLE off 4 v

def slice (b : Buffer) (off len : Nat) : List UInt8 :=
  (List.range len).map fun i => UInt8.ofNat (b.get (off + i))

@[simp] theorem size_zeros (size : Nat) : (zeros size).size = size := rfl

@[simp] theorem size_put (b : Buffer) (off : Nat) (bs : List UInt8) :
    (b.put off bs).size = b.size := rfl

@[simp] theorem size_putLE (b : Buffer) (off n v : Nat) : (b.putLE off n v).size = b.size := rfl

@[simp] theorem size_put16 (b : Buffer) (off v : Nat) : (b.put16 off v).size = b.size := rfl

@[simp] theorem size_put32 (b : Buffer) (off v : Nat) : (b.put32 off v).size = b.size := rfl

@[simp] theorem length_leBytes (n v : Nat) : (leBytes n v).length = n := by
  induction n generalizing v with
  | zero => rfl
  | succ n ih => simp [leBytes, ih]

theorem getD_leBytes (n v i : Nat) (hi : i < n) :
    ((leBytes n v).getD i 0).toNat = v / 256 ^ i % 256 := by
  induction n generalizing v i with
  | zero => omega
  | succ n ih =>
    cases i with
    | zero => simp [leBytes]
    | succ i =>
      simp only [leBytes, List.getD_cons_succ]
      rw [ih _ _ (by omega), Nat.div_div_eq_div_mul, Nat.pow_succ, Nat.mul_comm]

theorem get_zeros (size i : Nat) : (zeros size).get i = 0 := by simp [get, zeros]

theorem get_lt (b : Buffer) (i : Nat) : b.get i < 256 := by
  unfold get
  split
  · exact (b.byte i).toNat_lt
  · decide

theorem getLE_lt (b : Buffer) (off n : Nat) : b.getLE off n < 256 ^ n := by
  induction n generalizing off with
  | zero => exact Nat.one_pos
  | succ n ih =>
    have hbyte := b.get_lt off
    have hrest := ih (off + 1)
    rw [getLE, pow_succ]
    omega

theorem get_put_of_mem (b : Buffer) (off : Nat) (bs : List UInt8) (i : Nat)
    (hi : off ≤ i ∧ i < off + bs.length) (hs : i < b.size) :
    (b.put off bs).get i = (bs.getD (i - off) 0).toNat := by
  simp [get, put, hi, hs]

theorem get_put_of_not_mem (b : Buffer) (off : Nat) (bs : List UInt8) (i : Nat)
    (hi : i < off ∨ off + bs.length ≤ i) : (b.put off bs).get i = b.get i := by
  have hn : ¬(off ≤ i ∧ i < off + bs.length) := by omega
  simp only [get, put, if_neg hn]

theorem getLE_congr {b c : Buffer} {off n : Nat}
    (h : ∀ i, off ≤ i → i < off + n → b.get i = c.get i) : b.getLE off n = c.getLE off n := by
  induction n generalizing off with
  | zero => rfl
  | succ n ih =>
    rw [getLE, getLE, h off le_rfl (by omega), ih (fun i h1 h2 => h i (by omega) (by omega))]

theorem getLE_put_of_apart (b : Buffer) (off : Nat) (bs : List UInt8) (o n : Nat)
    (h : o + n ≤ off ∨ off + bs.length ≤ o) : (b.put off bs).getLE o n = b.getLE o n :=
  getLE_congr fun i h1 h2 => get_put_of_not_mem b off bs i (by omega)

theorem getLE_zeros (size off n : Nat) : (zeros size).getLE off n = 0 := by
  induction n generalizing off with
  | zero => rfl
  | succ n ih => simp [getLE, get_zeros, ih]

theorem getLE_of_digits {b : Buffer} {off n v : Nat}
    (h : ∀ i, i < n → b.get (off + i) = v / 256 ^ i % 256) : b.getLE off n = v % 256 ^ n := by
  induction n generalizing off v with
  | zero => simp [getLE, Nat.mod_one]
  | succ n ih =>
    have h0 := h 0 (by omega)
    have hs : b.getLE (off + 1) n = v / 256 % 256 ^ n := by
      apply ih
      intro i hi
      have hi' := h (i + 1) (by omega)
      rw [show off + 1 + i = off + (i + 1) by omega, hi', Nat.pow_succ, Nat.mul_comm,
        Nat.div_div_eq_div_mul]
    simp only [Nat.add_zero, Nat.pow_zero, Nat.div_one] at h0
    rw [getLE, h0, hs, Nat.pow_succ, Nat.mul_comm (256 ^ n), Nat.mod_mul]

theorem getLE_putLE (b : Buffer) (off n v : Nat) (h : off + n ≤ b.size) :
    (b.putLE off n v).getLE off n = v % 256 ^ n := by
  apply getLE_of_digits
  intro i hi
  rw [putLE, get_put_of_mem b off _ _ (by simp; omega) (by omega), Nat.add_sub_cancel_left,
    getD_leBytes n v i hi]

theorem get32_put32 (b : Buffer) (off v : Nat) (h : off + 4 ≤ b.size) :
    (b.put32 off v).get32 off = Words.u32 v := getLE_putLE b off 4 v h

theorem getLE_putLE_of_apart (b : Buffer) (off n v o m : Nat) (h : o + m ≤ off ∨ off + n ≤ o) :
    (b.putLE off n v).getLE o m = b.getLE o m :=
  getLE_put_of_apart b off _ o m (by simpa using h)

theorem get_putLE_of_apart (b : Buffer) (off n v i : Nat) (h : i < off ∨ off + n ≤ i) :
    (b.putLE off n v).get i = b.get i :=
  get_put_of_not_mem b off _ i (by simpa using h)

theorem get_put_name (b : Buffer) (off : Nat) (bs : List UInt8) (i : Nat) (hi : i < bs.length)
    (hs : off + i < b.size) : (b.put off bs).get (off + i) = (bs.getD i 0).toNat := by
  rw [get_put_of_mem b off bs _ (by omega) hs, Nat.add_sub_cancel_left]

@[simp] theorem length_slice (b : Buffer) (off len : Nat) : (b.slice off len).length = len := by
  simp [slice]

theorem slice_congr {b c : Buffer} {off len : Nat}
    (h : ∀ i, off ≤ i → i < off + len → b.get i = c.get i) : b.slice off len = c.slice off len := by
  unfold slice
  apply List.map_congr_left
  intro i hi
  rw [h (off + i) (by omega) (by simp at hi; omega)]

theorem slice_put (b : Buffer) (off : Nat) (bs : List UInt8) (h : off + bs.length ≤ b.size) :
    (b.put off bs).slice off bs.length = bs := by
  apply List.ext_getElem
  · simp
  · intro i h1 h2
    simp only [slice, List.getElem_map, List.getElem_range]
    rw [get_put_name b off bs i h2 (by omega), List.getD_eq_getElem?_getD, List.getElem?_eq_getElem h2]
    simp

end Buffer

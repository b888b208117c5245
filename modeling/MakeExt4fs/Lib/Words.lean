import Mathlib.Tactic

namespace Words

def u16 (n : Nat) : Nat := n % 65536

def u32 (n : Nat) : Nat := n % 4294967296

def u64 (n : Nat) : Nat := n % 18446744073709551616

def sub32 (a b : Nat) : Nat := u32 (a + 4294967296 - b % 4294967296)

def sub64 (a b : Nat) : Nat := u64 (a + 18446744073709551616 - b % 18446744073709551616)

def ofInt32 (n : Int) : Nat := (n % 4294967296).toNat

-- C's conversion of a 32-bit word to int.
def s32 (n : Nat) : Int := if u32 n < 2147483648 then u32 n else (u32 n : Int) - 4294967296

theorem u16_lt (n : Nat) : u16 n < 65536 := Nat.mod_lt _ (by decide)

theorem u32_lt (n : Nat) : u32 n < 4294967296 := Nat.mod_lt _ (by decide)

theorem u64_lt (n : Nat) : u64 n < 18446744073709551616 := Nat.mod_lt _ (by decide)

theorem u16_of_lt {n : Nat} (h : n < 65536) : u16 n = n := Nat.mod_eq_of_lt h

theorem u32_of_lt {n : Nat} (h : n < 4294967296) : u32 n = n := Nat.mod_eq_of_lt h

theorem u64_of_lt {n : Nat} (h : n < 18446744073709551616) : u64 n = n := Nat.mod_eq_of_lt h

theorem s32_of_lt {n : Nat} (h : n < 2147483648) : s32 n = n := by
  rw [s32, u32_of_lt (by omega), if_pos h]

theorem ofInt32_natCast (n : Nat) : ofInt32 n = u32 n := by
  simp only [ofInt32, u32]
  omega

theorem ofInt32_s32 (n : Nat) : ofInt32 (s32 n) = u32 n := by
  have hlt := u32_lt n
  rw [ofInt32, s32]
  split_ifs <;> omega

theorem u32_le (n : Nat) : u32 n ≤ n := Nat.mod_le _ _

theorem sub32_of_le {a b : Nat} (ha : a < 4294967296) (h : b ≤ a) : sub32 a b = a - b := by
  simp only [sub32, u32]
  omega

theorem sub64_of_le {a b : Nat} (ha : a < 18446744073709551616) (h : b ≤ a) :
    sub64 a b = a - b := by
  simp only [sub64, u64]
  omega

theorem u32_modEq (a : Nat) : u32 a ≡ a [MOD 4294967296] := Nat.mod_modEq a 4294967296

theorem modEq_of_u32 {a b : Nat} (h : u32 a = u32 b) : a ≡ b [MOD 4294967296] := h

theorem sub32_add_modEq (a b : Nat) : sub32 a b + b ≡ a [MOD 4294967296] := by
  simp only [sub32, u32, Nat.ModEq]
  omega

-- DIV_ROUND_UP where nothing overflows; zero divisors are the callers' business.
def divRoundUp (x y : Nat) : Nat := (x + y - 1) / y

def divRoundUp32 (x y : Nat) : Nat := u32 (x + y - 1) / y

def divRoundUp64 (x y : Nat) : Nat := u64 (x + y - 1) / y

theorem divRoundUp32_eq {x y : Nat} (h : x + y - 1 < 4294967296) :
    divRoundUp32 x y = divRoundUp x y := by
  rw [divRoundUp32, u32_of_lt h, divRoundUp]

theorem divRoundUp64_eq {x y : Nat} (h : x + y - 1 < 18446744073709551616) :
    divRoundUp64 x y = divRoundUp x y := by
  rw [divRoundUp64, u64_of_lt h, divRoundUp]

theorem le_divRoundUp_mul (x : Nat) {y : Nat} (hy : 0 < y) : x ≤ divRoundUp x y * y := by
  have h := Nat.div_add_mod (x + y - 1) y
  have hm := Nat.mod_lt (x + y - 1) hy
  have hc : divRoundUp x y * y = y * ((x + y - 1) / y) := Nat.mul_comm _ _
  omega

theorem divRoundUp_mul_lt (x : Nat) {y : Nat} (hy : 0 < y) : divRoundUp x y * y < x + y := by
  have h := Nat.div_add_mod (x + y - 1) y
  have hc : divRoundUp x y * y = y * ((x + y - 1) / y) := Nat.mul_comm _ _
  omega

theorem divRoundUp_le_iff {x y n : Nat} (hy : 0 < y) : divRoundUp x y ≤ n ↔ x ≤ n * y := by
  constructor
  · intro h
    exact (le_divRoundUp_mul x hy).trans (Nat.mul_le_mul_right y h)
  · intro h
    have hlt := divRoundUp_mul_lt x hy
    by_contra hn
    have hmul : (n + 1) * y ≤ divRoundUp x y * y := Nat.mul_le_mul_right y (by omega)
    have hexp : (n + 1) * y = n * y + y := Nat.succ_mul n y
    omega

theorem lt_divRoundUp_iff {x y n : Nat} (hy : 0 < y) : n < divRoundUp x y ↔ n * y < x := by
  rw [← not_le, divRoundUp_le_iff hy, not_le]

theorem divRoundUp_eq_of {x y n : Nat} (hy : 0 < y) (h1 : x ≤ n * y) (h2 : n * y < x + y) :
    divRoundUp x y = n := by
  apply le_antisymm ((divRoundUp_le_iff hy).mpr h1)
  by_contra hn
  have hmul : divRoundUp x y * y + y ≤ n * y := by
    rw [← Nat.succ_mul]
    exact Nat.mul_le_mul_right y (by omega)
  have hle := le_divRoundUp_mul x hy
  omega

theorem divRoundUp_mul_self (n : Nat) {y : Nat} (hy : 0 < y) : divRoundUp (n * y) y = n :=
  divRoundUp_eq_of hy le_rfl (by omega)

theorem divRoundUp_mono {x z : Nat} (y : Nat) (h : x ≤ z) : divRoundUp x y ≤ divRoundUp z y :=
  Nat.div_le_div_right (by omega)

theorem divRoundUp_pos {x y : Nat} (hx : 0 < x) (hy : 0 < y) : 0 < divRoundUp x y :=
  (lt_divRoundUp_iff hy).mpr (by omega)

def spanMask (start len : Nat) : Nat := (2 ^ len - 1) <<< start

@[simp] theorem testBit_spanMask (start len k : Nat) :
    (spanMask start len).testBit k = decide (start ≤ k ∧ k < start + len) := by
  rw [spanMask, Nat.testBit_shiftLeft, Nat.testBit_two_pow_sub_one]
  by_cases h : start ≤ k
  · simp [h]
    omega
  · simp [h]

theorem spanMask_zero (start : Nat) : spanMask start 0 = 0 := by simp [spanMask]

theorem or_spanMask_append (b start m n : Nat) :
    (b ||| spanMask start m) ||| spanMask (start + m) n = b ||| spanMask start (m + n) := by
  apply Nat.eq_of_testBit_eq
  intro k
  simp only [Nat.testBit_or, testBit_spanMask, Bool.or_assoc]
  congr 1
  rw [← Bool.decide_or]
  congr 1
  apply propext
  omega

end Words

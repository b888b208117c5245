import Mathlib.Data.List.GetD
import Mathlib.Tactic

-- A file that is written from its start to its end: what is skipped stays zero.
@[ext] structure Image where
  bytes : Nat → UInt8
  size : Nat
  pos : Nat

namespace Image

def empty : Image := ⟨fun _ => 0, 0, 0⟩

def write (img : Image) (data : List UInt8) : Image where
  bytes i := if img.pos ≤ i ∧ i < img.pos + data.length then data.getD (i - img.pos) 0
    else img.bytes i
  size := if data = [] then img.size else max img.size (img.pos + data.length)
  pos := img.pos + data.length

def skip (img : Image) (n : Nat) : Image := { img with pos := img.pos + n }

def truncate (img : Image) (n : Nat) : Image :=
  { img with bytes := fun i => if i < n then img.bytes i else 0, size := n }

def content (img : Image) : List UInt8 := (List.range img.size).map img.bytes

def Fresh (img : Image) : Prop := ∀ i, img.pos ≤ i → img.bytes i = 0

structure Extends (img img' : Image) : Prop where
  pos : img.pos ≤ img'.pos
  bytes : ∀ i < img.pos, img'.bytes i = img.bytes i

section Writing

variable {img img' img'' : Image} {data : List UInt8} {i n : Nat}

@[simp] theorem pos_write : (img.write data).pos = img.pos + data.length := rfl

@[simp] theorem pos_skip : (img.skip n).pos = img.pos + n := rfl

@[simp] theorem bytes_skip : (img.skip n).bytes = img.bytes := rfl

@[simp] theorem skip_zero : img.skip 0 = img := rfl

@[simp] theorem write_nil : img.write [] = img := by
  apply Image.ext
  · funext i
    have hnone : ¬ (img.pos ≤ i ∧ i < img.pos + 0) := by omega
    exact if_neg hnone
  · rfl
  · rfl

theorem bytes_write_of_mem (h : img.pos ≤ i) (h' : i < img.pos + data.length) :
    (img.write data).bytes i = data.getD (i - img.pos) 0 := if_pos ⟨h, h'⟩

theorem bytes_write_of_le (h : i < img.pos ∨ img.pos + data.length ≤ i) :
    (img.write data).bytes i = img.bytes i := by
  have hout : ¬ (img.pos ≤ i ∧ i < img.pos + data.length) := by omega
  exact if_neg hout

theorem write_append (a b : List UInt8) : (img.write a).write b = img.write (a ++ b) := by
  have hlen : (a ++ b).length = a.length + b.length := List.length_append
  have hpos : (img.write a).pos = img.pos + a.length := pos_write
  apply Image.ext
  · funext i
    by_cases hout : i < img.pos ∨ img.pos + (a ++ b).length ≤ i
    · rw [bytes_write_of_le hout, bytes_write_of_le (by omega), bytes_write_of_le (by omega)]
    rw [@bytes_write_of_mem img (a ++ b) i (by omega) (by omega)]
    by_cases hi : i < img.pos + a.length
    · rw [bytes_write_of_le (by omega), bytes_write_of_mem (by omega) hi,
        List.getD_append _ _ _ _ (by omega)]
    · rw [bytes_write_of_mem (by omega) (by omega), List.getD_append_right _ _ _ _ (by omega), hpos,
        Nat.sub_sub]
  · simp only [write, List.append_eq_nil_iff, hlen]
    by_cases ha : a = [] <;> by_cases hb : b = [] <;> simp only [ha, hb, true_and, and_false,
      false_and, if_true, if_false, List.length_nil, Nat.add_zero, Nat.zero_add]
    omega
  · simp only [pos_write, hlen, Nat.add_assoc]

theorem fresh_empty : empty.Fresh := fun _ _ => rfl

theorem Fresh.write (h : img.Fresh) : (img.write data).Fresh := by
  intro i hi
  rw [pos_write] at hi
  rw [bytes_write_of_le (Or.inr hi)]
  exact h i (by omega)

theorem Fresh.skip (h : img.Fresh) : (img.skip n).Fresh := by
  intro i hi
  rw [pos_skip] at hi
  exact h i (by omega)

theorem Extends.refl (img : Image) : img.Extends img := ⟨le_rfl, fun _ _ => rfl⟩

theorem Extends.trans (h : img.Extends img') (h' : img'.Extends img'') : img.Extends img'' :=
  ⟨h.pos.trans h'.pos, fun i hi => (h'.bytes i (hi.trans_le h.pos)).trans (h.bytes i hi)⟩

theorem extends_write : img.Extends (img.write data) :=
  ⟨Nat.le_add_right _ _, fun _ hi => bytes_write_of_le (Or.inl hi)⟩

theorem extends_skip : img.Extends (img.skip n) := ⟨Nat.le_add_right _ _, fun _ _ => rfl⟩

end Writing

end Image

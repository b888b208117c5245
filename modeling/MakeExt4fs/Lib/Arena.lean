import Mathlib.Tactic

-- Cells that pointers name by their position; a freed cell holds nothing.
abbrev Arena (α : Type) := List (Option α)

namespace Arena

variable {α β : Type}

def look (a : Arena α) : Option Nat → Option α
  | none => none
  | some i => (a[i]?).join

def modify (a : Arena α) (p : Option Nat) (f : α → α) : Option (Arena α) :=
  match p, a.look p with
  | some i, some x => some (a.set i (some (f x)))
  | _, _ => none

def free (a : Arena α) (p : Option Nat) : Option (Arena α) :=
  match p, a.look p with
  | some i, some _ => some (a.set i none)
  | _, _ => none

def live (a : Arena α) : List α := a.filterMap id

theorem look_eq_some {a : Arena α} {i : Nat} {x : α} :
    a.look (some i) = some x ↔ a[i]? = some (some x) := by
  simp only [look]
  cases a[i]? with
  | none => simp
  | some y => simp

theorem modify_some {a b : Arena α} {p : Option Nat} {f : α → α} (h : a.modify p f = some b) :
    ∃ i x, p = some i ∧ a[i]? = some (some x) ∧ b = a.set i (some (f x)) := by
  cases p with
  | none => simp [modify] at h
  | some i =>
    cases hx : a.look (some i) with
    | none => simp [modify, hx] at h
    | some x =>
      simp only [modify, hx, Option.some.injEq] at h
      exact ⟨i, x, rfl, look_eq_some.mp hx, h.symm⟩

theorem modify_of_look {a : Arena α} {i : Nat} {x : α} (f : α → α) (h : a[i]? = some (some x)) :
    a.modify (some i) f = some (a.set i (some (f x))) := by
  simp only [modify, look_eq_some.mpr h]

theorem free_some {a b : Arena α} {p : Option Nat} (h : a.free p = some b) :
    ∃ i x, p = some i ∧ a[i]? = some (some x) ∧ b = a.set i none := by
  cases p with
  | none => simp [free] at h
  | some i =>
    cases hx : a.look (some i) with
    | none => simp [free, hx] at h
    | some x =>
      simp only [free, hx, Option.some.injEq] at h
      exact ⟨i, x, rfl, look_eq_some.mp hx, h.symm⟩

theorem split_at {a : List β} {i : Nat} {x : β} (h : a[i]? = some x) :
    ∃ u v, a = u ++ x :: v ∧ u.length = i := by
  obtain ⟨hi, rfl⟩ := List.getElem?_eq_some_iff.mp h
  exact ⟨a.take i, a.drop (i + 1), by simp, by simp; omega⟩

theorem set_split (u v : List β) (x y : β) : (u ++ x :: v).set u.length y = u ++ y :: v := by
  simp

theorem live_map_modify {a b : Arena α} {p : Option Nat} {f : α → α} {g : α → β}
    (h : a.modify p f = some b) (hg : ∀ x, g (f x) = g x) :
    b.live.map g = a.live.map g := by
  obtain ⟨i, x, -, hx, rfl⟩ := modify_some h
  obtain ⟨u, v, rfl, rfl⟩ := split_at hx
  rw [set_split]
  simp [live, hg]

@[simp] theorem live_cons_some (x : α) (a : Arena α) : live (some x :: a) = x :: a.live := rfl

@[simp] theorem live_append (a b : Arena α) : live (a ++ b) = a.live ++ b.live := by
  simp [live]

@[simp] theorem live_map_some (xs : List α) : live (xs.map some) = xs := by
  simp [live, List.filterMap_map]

end Arena

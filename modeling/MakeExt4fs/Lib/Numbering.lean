import Mathlib.Tactic

namespace Numbering

inductive Rose (α : Type) where
  | node (label : α) (branches : List (Rose α))

structure Place (α : Type) where
  up : Nat
  number : Nat
  label : α
  below : List (Nat × α)

def Place.edge {α : Type} (p : Place α) : Nat × Nat × α := (p.up, p.number, p.label)

def Place.edges {α : Type} (p : Place α) : List (Nat × Nat × α) :=
  p.below.map fun x => (p.number, x)

namespace Rose

variable {α : Type}

def label : Rose α → α
  | node a _ => a

def branches : Rose α → List (Rose α)
  | node _ ts => ts

mutual

def size : Rose α → Nat
  | node _ ts => sizes ts + 1

def sizes : List (Rose α) → Nat
  | [] => 0
  | t :: ts => t.size + sizes ts

end

def heads (n : Nat) : List (Rose α) → List (Nat × α)
  | [] => []
  | t :: ts => (n, t.label) :: heads (n + t.size) ts

mutual

def places (up n : Nat) : Rose α → List (Place α)
  | node a ts => ⟨up, n, a, heads (n + 1) ts⟩ :: placesAll n (n + 1) ts

def placesAll (up n : Nat) : List (Rose α) → List (Place α)
  | [] => []
  | t :: ts => t.places up n ++ placesAll up (n + t.size) ts

end

theorem size_pos (t : Rose α) : 0 < t.size := by
  cases t
  rw [size]
  exact Nat.succ_pos _

theorem places_head (up n : Nat) (t : Rose α) :
    t.places up n = ⟨up, n, t.label, heads (n + 1) t.branches⟩ ::
      placesAll n (n + 1) t.branches := by
  cases t
  rw [places]
  rfl

theorem size_eq (t : Rose α) : t.size = sizes t.branches + 1 := by
  cases t
  rw [size]
  rfl

mutual

theorem numbers_places (up n : Nat) : ∀ t : Rose α,
    (t.places up n).map Place.number = List.range' n t.size
  | node a ts => by
    rw [places, size, List.range'_succ, List.map_cons, numbers_placesAll]

theorem numbers_placesAll (up n : Nat) : ∀ ts : List (Rose α),
    (placesAll up n ts).map Place.number = List.range' n (sizes ts)
  | [] => rfl
  | t :: ts => by
    rw [placesAll, sizes, List.map_append, numbers_places, numbers_placesAll,
      List.range'_append_1]

end

theorem number_mem {up n : Nat} {ts : List (Rose α)} {p : Place α}
    (h : p ∈ placesAll up n ts) : n ≤ p.number ∧ p.number < n + sizes ts := by
  have hmem := List.mem_map_of_mem (f := Place.number) h
  rw [numbers_placesAll] at hmem
  exact List.mem_range'_1.mp hmem

theorem number_mem_places {up n : Nat} {t : Rose α} {p : Place α} (h : p ∈ t.places up n) :
    n ≤ p.number ∧ p.number < n + t.size := by
  have hmem := List.mem_map_of_mem (f := Place.number) h
  rw [numbers_places] at hmem
  exact List.mem_range'_1.mp hmem

mutual

theorem edges_places (up n : Nat) : ∀ t : Rose α, ((t.places up n).map Place.edge).Perm
    ((up, n, t.label) :: (t.places up n).flatMap Place.edges)
  | node a ts => by
    rw [places, List.map_cons, List.flatMap_cons]
    exact (edges_placesAll n (n + 1) ts).cons _

theorem edges_placesAll (up n : Nat) : ∀ ts : List (Rose α),
    ((placesAll up n ts).map Place.edge).Perm
      ((heads n ts).map (fun x => (up, x)) ++ (placesAll up n ts).flatMap Place.edges)
  | [] => .nil
  | t :: ts => by
    have hfirst := edges_places up n t
    have hrest := edges_placesAll up (n + t.size) ts
    rw [placesAll, heads, List.map_append, List.flatMap_append, List.map_cons, List.cons_append]
    refine (hfirst.append hrest).trans (.cons _ ?_)
    have hswap : ((t.places up n).flatMap Place.edges ++
        (heads (n + t.size) ts).map (fun x => (up, x))).Perm _ := List.perm_append_comm
    have hall := hswap.append_right ((placesAll up (n + t.size) ts).flatMap Place.edges)
    rw [List.append_assoc, List.append_assoc] at hall
    exact hall

end

theorem listed_placesAll (up n : Nat) (ts : List (Rose α)) :
    ((heads n ts).map Prod.fst ++ (placesAll up n ts).flatMap fun p => p.below.map Prod.fst).Perm
      (List.range' n (sizes ts)) := by
  have hedges := (edges_placesAll up n ts).map fun e => e.2.1
  rw [List.map_map, List.map_append, List.map_map, List.map_flatMap] at hedges
  have hlisted (p : Place α) : p.edges.map (fun e => e.2.1) = p.below.map Prod.fst := by
    rw [Place.edges, List.map_map]
    rfl
  simp only [hlisted] at hedges
  rw [← numbers_placesAll up n ts]
  exact hedges.symm

theorem countP_edges {ps : List (Place α)} {q : Place α} (hnodup : (ps.map Place.number).Nodup)
    (hq : q ∈ ps) (f : α → Bool) :
    (ps.flatMap Place.edges).countP (fun e => decide (e.1 = q.number) && f e.2.2) =
      q.below.countP fun x => f x.2 := by
  have hone (p : Place α) : p.edges.countP (fun e => decide (e.1 = q.number) && f e.2.2) =
      if p.number = q.number then p.below.countP (fun x => f x.2) else 0 := by
    rw [Place.edges, List.countP_map]
    split
    · rename_i heq
      simp [Function.comp_def, heq]
    · rename_i hne
      simp [Function.comp_def, hne]
  induction ps with
  | nil => cases hq
  | cons p rest ih =>
    rw [List.map_cons, List.nodup_cons] at hnodup
    rw [List.flatMap_cons, List.countP_append, hone]
    rcases List.mem_cons.mp hq with rfl | hq
    · have hnone : (rest.flatMap Place.edges).countP
          (fun e => decide (e.1 = q.number) && f e.2.2) = 0 := by
        rw [List.countP_eq_zero]
        intro e he
        obtain ⟨p, hp, hep⟩ := List.mem_flatMap.mp he
        obtain ⟨x, -, rfl⟩ := List.mem_map.mp hep
        have hne : p.number ≠ q.number := fun heq =>
          hnodup.1 (heq ▸ List.mem_map_of_mem hp)
        simp [hne]
      rw [if_pos rfl, hnone, Nat.add_zero]
    · have hne : p.number ≠ q.number := fun heq =>
        hnodup.1 (heq ▸ List.mem_map_of_mem hq)
      rw [if_neg hne, Nat.zero_add, ih hnodup.2 hq]

end Rose

end Numbering

import Mathlib.Tactic

structure Span where
  first : Nat
  len : Nat
  deriving DecidableEq, Repr

namespace Span

def Holds (s : Span) (b : Nat) : Prop := s.first ≤ b ∧ b < s.first + s.len

def Apart (s t : Span) : Prop := ∀ b, s.Holds b → ¬ t.Holds b

theorem Apart.symm {s t : Span} (h : s.Apart t) : t.Apart s := fun b ht hs => h b hs ht

theorem apart_of_le {s t : Span} (h : s.first + s.len ≤ t.first) : s.Apart t := by
  intro b hs ht
  have := hs.2
  have := ht.1
  omega

-- The spans lie one behind the other, the first at start and the last one's end at stop; where an
-- empty span lies does not matter.
def Tiles : Nat → List Span → Nat → Prop
  | start, [], stop => start = stop
  | start, s :: rest, stop => (s.len = 0 ∨ s.first = start) ∧ Tiles (start + s.len) rest stop

end Span

import Mathlib.Tactic

namespace ErrorLog

inductive Stop (ε : Type) where
  | error (e : ε)
  | crash
  deriving DecidableEq, Repr

-- A computation over σ that may log an error and go on, stop with one, or crash.
abbrev Run (ε σ : Type) := StateT (σ × List ε) (Except (Stop ε))

namespace Run

variable {ε σ τ α β : Type}

def raise (force : Bool) (e : ε) : Run ε σ Unit := fun st =>
  if force then .ok ((), (st.1, st.2 ++ [e])) else .error (.error e)

def crash : Run ε σ α := fun _ => .error .crash

def read : Run ε σ σ := fun st => .ok (st.1, st)

def write (s : σ) : Run ε σ Unit := fun st => .ok ((), (s, st.2))

def update (f : σ → σ) : Run ε σ Unit := fun st => .ok ((), (f st.1, st.2))

def expect : Option α → Run ε σ α
  | some a => pure a
  | none => crash

def zoom (part : σ → Option τ) (put : τ → σ → σ) (m : Run ε τ α) : Run ε σ α := fun st =>
  match part st.1 with
  | none => .error .crash
  | some t =>
    match m (t, st.2) with
    | .ok (a, (t', l)) => .ok (a, (put t' st.1, l))
    | .error e => .error e

def each {ι : Type} (xs : List ι) (f : ι → Run ε σ Unit) : Run ε σ Unit :=
  match xs with
  | [] => pure ()
  | x :: rest => do
    f x
    each rest f

theorem bind_run (m : Run ε σ α) (f : α → Run ε σ β) (st : σ × List ε) :
    (m >>= f) st = match m st with
      | .ok (a, st') => f a st'
      | .error e => .error e := by
  simp only [bind, StateT.bind, Except.bind]
  rcases m st with e | ⟨a, st'⟩ <;> rfl

@[simp] theorem pure_run (a : α) (st : σ × List ε) :
    (pure a : Run ε σ α) st = .ok (a, st) := rfl

@[simp] theorem read_run (st : σ × List ε) : (read : Run ε σ σ) st = .ok (st.1, st) := rfl

@[simp] theorem write_run (s : σ) (st : σ × List ε) :
    (write s : Run ε σ Unit) st = .ok ((), (s, st.2)) := rfl

@[simp] theorem update_run (f : σ → σ) (st : σ × List ε) :
    (update f : Run ε σ Unit) st = .ok ((), (f st.1, st.2)) := rfl

@[simp] theorem crash_run (st : σ × List ε) : (crash : Run ε σ α) st = .error .crash := rfl

theorem bind_congr_run {m m' : Run ε σ α} {st st' : σ × List ε} (h : m st = m' st')
    (f : α → Run ε σ β) : (m >>= f) st = (m' >>= f) st' := by
  rw [bind_run, bind_run, h]

theorem bind_ok {m : Run ε σ α} {f : α → Run ε σ β} {st : σ × List ε} {r : β × (σ × List ε)} :
    (m >>= f) st = .ok r ↔ ∃ a st', m st = .ok (a, st') ∧ f a st' = .ok r := by
  rw [bind_run]
  cases m st with
  | error e => simp
  | ok p => exact ⟨fun h => ⟨p.1, p.2, rfl, h⟩, fun ⟨_, _, hp, h⟩ => by cases hp; exact h⟩

theorem expect_ok {o : Option α} {a : α} {s s' : σ} {l l' : List ε}
    (h : expect o (s, l) = .ok (a, (s', l'))) : o = some a ∧ s' = s ∧ l' = l := by
  cases o with
  | none => cases h
  | some b =>
    cases h
    exact ⟨rfl, rfl, rfl⟩

theorem each_append {ι : Type} (xs ys : List ι) (f : ι → Run ε σ Unit) (st : σ × List ε) :
    each (xs ++ ys) f st = (each xs f >>= fun _ => each ys f) st := by
  induction xs generalizing st with
  | nil => rfl
  | cons x rest ih =>
    simp only [List.cons_append, each, bind_run]
    cases f x st with
    | error e => rfl
    | ok p => simpa only [bind_run] using ih p.2

theorem each_range_run (Inv : Nat → σ → Prop) {f : Nat → Run ε σ Unit} {n : Nat} {l : List ε}
    (step : ∀ i < n, ∀ s, Inv i s → ∃ s', f i (s, l) = .ok ((), (s', l)) ∧ Inv (i + 1) s')
    {s : σ} (h : Inv 0 s) :
    ∃ s', each (List.range n) f (s, l) = .ok ((), (s', l)) ∧ Inv n s' := by
  induction n with
  | zero => exact ⟨s, rfl, h⟩
  | succ n ih =>
    obtain ⟨s1, h1, i1⟩ := ih fun i hi => step i (by omega)
    obtain ⟨s2, h2, i2⟩ := step n (by omega) s1 i1
    refine ⟨s2, ?_, i2⟩
    rw [List.range_succ, each_append, bind_run, h1]
    simp only [each, bind_run, h2, pure_run]

theorem each_run {ι : Type} (Inv : List ι → σ → Prop) {f : ι → Run ε σ Unit} {l : List ε}
    (xs : List ι) (step : ∀ ys, ∀ x ∈ xs, ∀ s, Inv ys s →
      ∃ s', f x (s, l) = .ok ((), (s', l)) ∧ Inv (ys ++ [x]) s')
    {ys : List ι} {s : σ} (h : Inv ys s) :
    ∃ s', each xs f (s, l) = .ok ((), (s', l)) ∧ Inv (ys ++ xs) s' := by
  induction xs generalizing ys s with
  | nil => exact ⟨s, rfl, by simpa using h⟩
  | cons x rest ih =>
    obtain ⟨s1, h1, i1⟩ := step ys x (by simp) s h
    obtain ⟨s2, h2, i2⟩ := ih (fun ys y hy => step ys y (by simp [hy])) i1
    refine ⟨s2, ?_, by simpa using i2⟩
    simp only [each, bind_run, h1, h2]

section Outcomes

variable (bad : ε → Prop)

-- What every way out of `m` satisfies; a stop with a `bad` error satisfies nothing.
def Meets (m : Run ε σ α) (Q : α → σ → List ε → Prop) (s : σ) (l : List ε) : Prop :=
  match m (s, l) with
  | .ok (a, (s', l')) => Q a s' l'
  | .error (.error e) => ¬ bad e
  | .error .crash => True

variable {bad}

@[simp] theorem meets_pure {a : α} {Q : α → σ → List ε → Prop} {s : σ} {l : List ε} :
    Meets bad (pure a : Run ε σ α) Q s l ↔ Q a s l := Iff.rfl

@[simp] theorem meets_read {Q : σ → σ → List ε → Prop} {s : σ} {l : List ε} :
    Meets bad (read : Run ε σ σ) Q s l ↔ Q s s l := Iff.rfl

@[simp] theorem meets_write {s' : σ} {Q : Unit → σ → List ε → Prop} {s : σ} {l : List ε} :
    Meets bad (write s' : Run ε σ Unit) Q s l ↔ Q () s' l := Iff.rfl

@[simp] theorem meets_update {f : σ → σ} {Q : Unit → σ → List ε → Prop} {s : σ} {l : List ε} :
    Meets bad (update f : Run ε σ Unit) Q s l ↔ Q () (f s) l := Iff.rfl

@[simp] theorem meets_crash {Q : α → σ → List ε → Prop} {s : σ} {l : List ε} :
    Meets bad (crash : Run ε σ α) Q s l ↔ True := Iff.rfl

@[simp] theorem meets_bind {m : Run ε σ α} {f : α → Run ε σ β} {Q : β → σ → List ε → Prop}
    {s : σ} {l : List ε} :
    Meets bad (m >>= f) Q s l ↔ Meets bad m (fun a s' l' => Meets bad (f a) Q s' l') s l := by
  simp only [Meets, bind_run]
  rcases m (s, l) with e | ⟨a, s', l'⟩
  · rcases e with e | _ <;> rfl
  · rfl

-- Without force an error ends the run, whatever was to come.
@[simp] theorem meets_raise_false {e : ε} {Q : Unit → σ → List ε → Prop} {s : σ} {l : List ε} :
    Meets bad (raise false e : Run ε σ Unit) Q s l ↔ ¬ bad e := Iff.rfl

theorem meets_raise {force : Bool} {e : ε} {Q : Unit → σ → List ε → Prop} {s : σ} {l : List ε}
    (hb : ¬ bad e) (hq : Q () s (l ++ [e])) : Meets bad (raise force e : Run ε σ Unit) Q s l := by
  cases force
  · exact hb
  · exact hq

theorem Meets.mono {m : Run ε σ α} {Q Q' : α → σ → List ε → Prop} {s : σ} {l : List ε}
    (h : Meets bad m Q s l) (hq : ∀ a s' l', Q a s' l' → Q' a s' l') : Meets bad m Q' s l := by
  unfold Meets at h ⊢
  cases hm : m (s, l) with
  | error e =>
    rw [hm] at h
    cases e <;> exact h
  | ok p =>
    obtain ⟨a, s', l'⟩ := p
    simp only [hm] at h
    exact hq a s' l' h

theorem meets_congr_run {m m' : Run ε σ α} {Q : α → σ → List ε → Prop} {s s' : σ} {l l' : List ε}
    (h : m (s, l) = m' (s', l')) : Meets bad m Q s l ↔ Meets bad m' Q s' l' := by
  rw [Meets, Meets, h]

theorem meets_expect {o : Option α} {Q : α → σ → List ε → Prop} {s : σ} {l : List ε} :
    Meets bad (expect o : Run ε σ α) Q s l ↔ ∀ a, o = some a → Q a s l := by
  cases o with
  | none => simp [Meets, expect]
  | some a => simp [expect]

theorem meets_zoom (part : σ → Option τ) {put : τ → σ → σ} {m : Run ε τ α}
    {Q : α → σ → List ε → Prop} {s : σ} {l : List ε} {t : τ} (ht : part s = some t) :
    Meets bad (zoom part put m) Q s l ↔ Meets bad m (fun a t' l' => Q a (put t' s) l') t l := by
  unfold Meets zoom
  simp only [ht]
  cases m (t, l) with
  | error e => cases e <;> rfl
  | ok p => rfl

theorem meets_each {ι : Type} {Q : σ → List ε → Prop} {f : ι → Run ε σ Unit} (xs : List ι)
    (step : ∀ x ∈ xs, ∀ s l, Q s l → Meets bad (f x) (fun _ => Q) s l) {s : σ} {l : List ε}
    (h : Q s l) : Meets bad (each xs f) (fun _ => Q) s l := by
  induction xs generalizing s l with
  | nil => exact h
  | cons x rest ih =>
    rw [each, meets_bind]
    refine (step x (by simp) s l h).mono ?_
    intro _ s' l' h'
    exact ih (fun y hy => step y (by simp [hy])) h'

theorem meets_each_range (Inv : Nat → σ → List ε → Prop) {f : Nat → Run ε σ Unit} {n : Nat}
    (step : ∀ i < n, ∀ s l, Inv i s l → Meets bad (f i) (fun _ => Inv (i + 1)) s l)
    {s : σ} {l : List ε} (h : Inv 0 s l) :
    Meets bad (each (List.range n) f) (fun _ => Inv n) s l := by
  induction n with
  | zero => exact h
  | succ n ih =>
    have hfirst := ih fun i hi => step i (by omega)
    rw [List.range_succ]
    have happend : Meets bad (each (List.range n ++ [n]) f) (fun _ => Inv (n + 1)) s l ↔
        Meets bad (each (List.range n) f >>= fun _ => each [n] f) (fun _ => Inv (n + 1)) s l := by
      simp only [Meets, each_append]
    rw [happend, meets_bind]
    refine hfirst.mono fun _ s' l' h' => ?_
    rw [each, meets_bind]
    exact (step n (by omega) s' l' h').mono fun _ _ _ h => h

theorem Meets.ok {m : Run ε σ α} {Q : α → σ → List ε → Prop} {s s' : σ} {l l' : List ε} {a : α}
    (h : Meets bad m Q s l) (hm : m (s, l) = .ok (a, (s', l'))) : Q a s' l' := by
  simpa [Meets, hm] using h

def Spares (bad : ε → Prop) (m : Run ε σ α) : Prop :=
  ∀ s l, Meets bad m (fun _ _ _ => True) s l

theorem spares_pure (a : α) : Spares bad (pure a : Run ε σ α) := fun _ _ => trivial

theorem spares_read : Spares bad (read : Run ε σ σ) := fun _ _ => trivial

theorem spares_write (s : σ) : Spares bad (write s : Run ε σ Unit) := fun _ _ => trivial

theorem spares_update (f : σ → σ) : Spares bad (update f : Run ε σ Unit) := fun _ _ => trivial

theorem spares_crash : Spares bad (crash : Run ε σ α) := fun _ _ => trivial

theorem spares_raise (force : Bool) {e : ε} (h : ¬ bad e) :
    Spares bad (raise force e : Run ε σ Unit) := fun _ _ => meets_raise h trivial

theorem spares_expect (o : Option α) : Spares bad (expect o : Run ε σ α) :=
  fun _ _ => meets_expect.mpr fun _ _ => trivial

theorem Spares.bind {m : Run ε σ α} {f : α → Run ε σ β} (hm : Spares bad m)
    (hf : ∀ a, Spares bad (f a)) : Spares bad (m >>= f) :=
  fun s l => meets_bind.mpr ((hm s l).mono fun a s' l' _ => hf a s' l')

theorem Spares.ite {c : Prop} [Decidable c] {m n : Run ε σ α} (hm : Spares bad m)
    (hn : Spares bad n) : Spares bad (if c then m else n) := by
  split
  · exact hm
  · exact hn

theorem Spares.zoom {part : σ → Option τ} {put : τ → σ → σ} {m : Run ε τ α}
    (h : Spares bad m) : Spares bad (zoom part put m) := by
  intro s l
  cases ht : part s with
  | none => simp [Meets, Run.zoom, ht]
  | some t =>
    rw [meets_zoom part ht]
    exact h t l

theorem Spares.meets {m : Run ε σ α} {Q : α → σ → List ε → Prop} {s : σ} {l : List ε}
    (h : Spares bad m) (hok : ∀ a s' l', m (s, l) = .ok (a, (s', l')) → Q a s' l') :
    Meets bad m Q s l := by
  have hs := h s l
  unfold Meets at hs ⊢
  cases hm : m (s, l) with
  | error e =>
    rw [hm] at hs
    cases e with
    | error e => exact hs
    | crash => trivial
  | ok p => exact hok p.1 p.2.1 p.2.2 hm

end Outcomes

section Quiet

-- Partial correctness of the runs that end with nothing logged.
def Quiet (P : σ → Prop) (m : Run ε σ α) (Q : α → σ → Prop) : Prop :=
  ∀ s l a s', m (s, l) = .ok (a, (s', [])) → l = [] ∧ (P s → Q a s')

variable {P P' : σ → Prop} {Q Q' : α → σ → Prop}

theorem Quiet.mono {m : Run ε σ α} (h : Quiet P m Q) (hp : ∀ s, P' s → P s)
    (hq : ∀ a s, Q a s → Q' a s) : Quiet P' m Q' := by
  intro s l a s' hm
  obtain ⟨hl, hpq⟩ := h s l a s' hm
  exact ⟨hl, fun h' => hq a s' (hpq (hp s h'))⟩

theorem Quiet.pre {m : Run ε σ α} (h : Quiet P m Q) (hp : ∀ s, P' s → P s) : Quiet P' m Q :=
  h.mono hp (fun _ _ hq => hq)

theorem Quiet.absurd {m : Run ε σ α} (h : Quiet P m Q) : Quiet (fun _ => False) m Q' :=
  fun s l a s' hm => ⟨(h s l a s' hm).1, False.elim⟩

theorem Quiet.pure {a : α} (h : ∀ s, P s → Q a s) : Quiet P (Pure.pure a : Run ε σ α) Q := by
  intro s l b s' hm
  simp only [pure_run, Except.ok.injEq, Prod.mk.injEq] at hm
  obtain ⟨rfl, rfl, rfl⟩ := hm
  exact ⟨rfl, h s⟩

theorem Quiet.bind {m : Run ε σ α} {f : α → Run ε σ β} {R : β → σ → Prop}
    (hm : Quiet P m Q) (hf : ∀ a, Quiet (Q a) (f a) R) : Quiet P (m >>= f) R := by
  intro s l b s' hr
  obtain ⟨a, ⟨s1, l1⟩, h1, h2⟩ := bind_ok.mp hr
  obtain ⟨rfl, hq⟩ := hf a s1 l1 b s' h2
  obtain ⟨rfl, hp⟩ := hm s l a s1 h1
  exact ⟨rfl, fun h => hq (hp h)⟩

theorem Quiet.read_bind {f : σ → Run ε σ β} {R : β → σ → Prop}
    (hf : ∀ s0, Quiet (fun s => s = s0 ∧ P s) (f s0) R) : Quiet P (read >>= f) R := by
  intro s l b s' hr
  rw [bind_run] at hr
  obtain ⟨hl, hp⟩ := hf s s l b s' hr
  exact ⟨hl, fun h => hp ⟨rfl, h⟩⟩

theorem Quiet.zoom {part : σ → Option τ} {put : τ → σ → σ} {m : Run ε τ α}
    (h : ∀ s0, Quiet (fun t => part s0 = some t ∧ P s0) m (fun a t' => Q a (put t' s0))) :
    Quiet P (Run.zoom part put m) Q := by
  intro s l a s' hr
  unfold Run.zoom at hr
  cases ht : part s with
  | none => simp [ht] at hr
  | some t =>
    cases hm : m (t, l) with
    | error e => simp [ht, hm] at hr
    | ok p =>
      obtain ⟨b, t', l'⟩ := p
      simp only [ht, hm, Except.ok.injEq, Prod.mk.injEq] at hr
      obtain ⟨rfl, rfl, rfl⟩ := hr
      obtain ⟨hl, hp⟩ := h s t l b t' hm
      exact ⟨hl, fun hs => hp ⟨ht, hs⟩⟩

theorem Quiet.update {f : σ → σ} {Q : Unit → σ → Prop} (h : ∀ s, P s → Q () (f s)) :
    Quiet P (Run.update f : Run ε σ Unit) Q := by
  intro s l a s' hm
  simp only [update_run, Except.ok.injEq, Prod.mk.injEq] at hm
  obtain ⟨-, rfl, rfl⟩ := hm
  exact ⟨rfl, h s⟩

theorem Quiet.write {s' : σ} {Q : Unit → σ → Prop} (h : ∀ s, P s → Q () s') :
    Quiet P (Run.write s' : Run ε σ Unit) Q := by
  intro s l a t hm
  simp only [write_run, Except.ok.injEq, Prod.mk.injEq] at hm
  obtain ⟨-, rfl, rfl⟩ := hm
  exact ⟨rfl, h s⟩

theorem Quiet.raise {force : Bool} {e : ε} {Q : Unit → σ → Prop} :
    Quiet P (Run.raise force e : Run ε σ Unit) Q := by
  intro s l a s' hm
  cases force <;> simp [Run.raise] at hm

theorem Quiet.expect (o : Option α) :
    Quiet P (Run.expect o : Run ε σ α) (fun a s => o = some a ∧ P s) := by
  intro s l a s' hm
  obtain ⟨ho, rfl, rfl⟩ := expect_ok hm
  exact ⟨rfl, fun h => ⟨ho, h⟩⟩

theorem Quiet.orRaise {force : Bool} {e : ε} {c : Prop} [Decidable c] {b : α} {m : Run ε σ α}
    (h : ¬ c → Quiet P m Q) :
    Quiet P (if c then do
        Run.raise force e
        return b
      else m) Q := by
  split
  · exact Quiet.bind (Q := fun _ _ => False) Quiet.raise fun _ => Quiet.pure fun _ => False.elim
  · exact h ‹_›

theorem Quiet.each_all {ι : Type} {xs : List ι} {f : ι → Run ε σ Unit} {F : ι → Prop}
    (step : ∀ x ∈ xs, Quiet P (f x) (fun _ s => P s ∧ F x)) :
    Quiet P (Run.each xs f) (fun _ s => P s ∧ ∀ x ∈ xs, F x) := by
  induction xs with
  | nil => exact Quiet.pure fun _ h => ⟨h, by simp⟩
  | cons x rest ih =>
    refine Quiet.bind (step x (by simp)) fun _ => ?_
    intro s l a s' hm
    obtain ⟨hl, hrest⟩ := ih (fun y hy => step y (by simp [hy])) s l a s' hm
    refine ⟨hl, fun h => ⟨(hrest h.1).1, ?_⟩⟩
    intro y hy
    rcases List.mem_cons.mp hy with rfl | hy
    · exact h.2
    · exact (hrest h.1).2 y hy

end Quiet

section Returning

def Returns (m : Run ε σ α) (st : σ × List ε) : Prop := ∃ a st', m st = .ok (a, st')

variable {m : Run ε σ α} {f : α → Run ε σ β} {st : σ × List ε}

@[simp] theorem returns_pure (a : α) : Returns (pure a : Run ε σ α) st ↔ True :=
  ⟨fun _ => trivial, fun _ => ⟨a, st, rfl⟩⟩

@[simp] theorem returns_crash : Returns (crash : Run ε σ α) st ↔ False := by
  simp [Returns]

theorem returns_bind : Returns (m >>= f) st ↔ ∃ a st', m st = .ok (a, st') ∧ Returns (f a) st' := by
  constructor
  · rintro ⟨b, st2, h⟩
    obtain ⟨a, st1, hm, hf⟩ := bind_ok.mp h
    exact ⟨a, st1, hm, b, st2, hf⟩
  · rintro ⟨a, st1, hm, b, st2, hf⟩
    exact ⟨b, st2, bind_ok.mpr ⟨a, st1, hm, hf⟩⟩

theorem returns_bind_of_ok {a : α} {st' : σ × List ε} (h : m st = .ok (a, st')) :
    Returns (m >>= f) st ↔ Returns (f a) st' := by
  rw [returns_bind]
  constructor
  · rintro ⟨b, st1, hm, hf⟩
    rw [h] at hm
    cases hm
    exact hf
  · exact fun hf => ⟨a, st', h, hf⟩

@[simp] theorem returns_read_bind {f : σ → Run ε σ β} :
    Returns (read >>= f) st ↔ Returns (f st.1) st := returns_bind_of_ok rfl

theorem returns_raise_bind {force : Bool} {e : ε} {f : Unit → Run ε σ β} :
    Returns (raise force e >>= f) st ↔ force = true ∧ Returns (f ()) (st.1, st.2 ++ [e]) := by
  cases force
  · simp [returns_bind, raise]
  · simp only [true_and]
    exact returns_bind_of_ok rfl

@[simp] theorem returns_raise {force : Bool} {e : ε} :
    Returns (raise force e : Run ε σ Unit) st ↔ force = true := by
  cases force <;> simp [Returns, raise]

theorem returns_bind_iff (h : ∀ a st', m st = .ok (a, st') → Returns (f a) st') :
    Returns (m >>= f) st ↔ Returns m st := by
  rw [returns_bind]
  exact ⟨fun ⟨a, st', hm, _⟩ => ⟨a, st', hm⟩, fun ⟨a, st', hm⟩ => ⟨a, st', hm, h a st' hm⟩⟩

theorem returns_zoom {part : σ → Option τ} {put : τ → σ → σ} {m : Run ε τ α} {s : σ}
    {l : List ε} : Returns (zoom part put m) (s, l) ↔
      ∃ t, part s = some t ∧ Returns m (t, l) := by
  unfold Returns zoom
  cases part s with
  | none => simp
  | some t =>
    cases hm : m (t, l) with
    | error e => simp [hm]
    | ok p =>
      obtain ⟨a, t', l'⟩ := p
      simp [hm]

end Returning

end Run

end ErrorLog

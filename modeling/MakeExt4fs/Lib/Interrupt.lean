import MakeExt4fs.Lib.ErrorLog

namespace Interrupt

open ErrorLog

-- A computation over σ that may stop; what it did before it stopped stays done.
abbrev Act (ε σ : Type) := ExceptT (Stop ε) (StateM σ)

namespace Act

variable {ε σ α β : Type}

def fail (e : ε) : Act ε σ α := fun s => (.error (.error e), s)

def crash : Act ε σ α := fun s => (.error .crash, s)

def read : Act ε σ σ := fun s => (.ok s, s)

def update (f : σ → σ) : Act ε σ Unit := fun s => (.ok (), f s)

def expect : Option α → Act ε σ α
  | some a => pure a
  | none => crash

def each {ι : Type} (xs : List ι) (f : ι → Act ε σ Unit) : Act ε σ Unit :=
  match xs with
  | [] => pure ()
  | x :: rest => do
    f x
    each rest f

def fold {ι : Type} (xs : List ι) (f : α → ι → Act ε σ α) (a : α) : Act ε σ α :=
  match xs with
  | [] => pure a
  | x :: rest => do
    let a ← f a x
    fold rest f a

def Ends (m : Act ε σ α) (Q : α → σ → Prop) (E : Stop ε → σ → Prop) (s : σ) : Prop :=
  match m s with
  | (.ok a, s') => Q a s'
  | (.error e, s') => E e s'

variable {Q Q' : α → σ → Prop} {E E' : Stop ε → σ → Prop} {s : σ}

@[simp] theorem ends_pure {a : α} : Ends (pure a : Act ε σ α) Q E s ↔ Q a s := Iff.rfl

@[simp] theorem ends_read {Q : σ → σ → Prop} : Ends (read : Act ε σ σ) Q E s ↔ Q s s := Iff.rfl

@[simp] theorem ends_update {f : σ → σ} {Q : Unit → σ → Prop} :
    Ends (update f : Act ε σ Unit) Q E s ↔ Q () (f s) := Iff.rfl

@[simp] theorem ends_fail {e : ε} : Ends (fail e : Act ε σ α) Q E s ↔ E (.error e) s := Iff.rfl

@[simp] theorem ends_crash : Ends (crash : Act ε σ α) Q E s ↔ E .crash s := Iff.rfl

theorem bind_run (m : Act ε σ α) (f : α → Act ε σ β) (s : σ) :
    (m >>= f) s = match m s with
      | (.ok a, s') => f a s'
      | (.error e, s') => (.error e, s') := by
  simp only [bind, ExceptT.bind, ExceptT.mk, StateT.bind, ExceptT.bindCont]
  rcases m s with ⟨e | a, s'⟩ <;> rfl

theorem bind_ok {m : Act ε σ α} {f : α → Act ε σ β} {s s'' : σ} {b : β} :
    (m >>= f) s = (.ok b, s'') ↔ ∃ a s', m s = (.ok a, s') ∧ f a s' = (.ok b, s'') := by
  rw [bind_run]
  rcases m s with ⟨e | a, s'⟩
  · refine ⟨fun h => ?_, fun ⟨_, _, h, _⟩ => ?_⟩ <;> cases h
  · refine ⟨fun h => ⟨a, s', rfl, h⟩, ?_⟩
    rintro ⟨_, _, heq, h⟩
    cases heq
    exact h

@[simp] theorem ends_bind {m : Act ε σ α} {f : α → Act ε σ β} {Q : β → σ → Prop} :
    Ends (m >>= f) Q E s ↔ Ends m (fun a s' => Ends (f a) Q E s') E s := by
  simp only [Ends, bind_run]
  rcases m s with ⟨e | a, s'⟩ <;> rfl

theorem ends_expect {o : Option α} :
    Ends (expect o : Act ε σ α) Q E s ↔ (∀ a, o = some a → Q a s) ∧ (o = none → E .crash s) := by
  cases o <;> simp [expect]

theorem Ends.mono {m : Act ε σ α} (h : Ends m Q E s) (hq : ∀ a s', Q a s' → Q' a s')
    (he : ∀ e s', E e s' → E' e s') : Ends m Q' E' s := by
  unfold Ends at h ⊢
  rcases hm : m s with ⟨e | a, s'⟩
  · rw [hm] at h
    exact he e s' h
  · rw [hm] at h
    exact hq a s' h

theorem Ends.ite {c : Prop} [Decidable c] {m n : Act ε σ α} (hm : c → Ends m Q E s)
    (hn : ¬ c → Ends n Q E s) : Ends (if c then m else n) Q E s := by
  split
  · exact hm ‹_›
  · exact hn ‹_›

theorem Ends.post {m : Act ε σ α} (h : Ends m Q E s) (hq : ∀ a s', Q a s' → Q' a s') :
    Ends m Q' E s :=
  h.mono hq fun _ _ he => he

theorem Ends.and {m : Act ε σ α} (h : Ends m Q E s) (h' : Ends m Q' E' s) :
    Ends m (fun a s' => Q a s' ∧ Q' a s') (fun e s' => E e s' ∧ E' e s') s := by
  unfold Ends at h h' ⊢
  rcases hm : m s with ⟨e | a, s'⟩ <;> rw [hm] at h h' <;> exact ⟨h, h'⟩

theorem Ends.ok {m : Act ε σ α} {a : α} {s' : σ} (h : Ends m Q E s) (hm : m s = (.ok a, s')) :
    Q a s' := by
  simpa [Ends, hm] using h

theorem Ends.stop {m : Act ε σ α} {e : Stop ε} {s' : σ} (h : Ends m Q E s)
    (hm : m s = (.error e, s')) : E e s' := by
  simpa [Ends, hm] using h

theorem Ends.exists_run {m : Act ε σ α} (h : Ends m Q (fun _ _ => False) s) :
    ∃ a s', m s = (.ok a, s') ∧ Q a s' := by
  unfold Ends at h
  rcases hm : m s with ⟨e | a, s'⟩ <;> rw [hm] at h
  · exact h.elim
  · exact ⟨a, s', rfl, h⟩

theorem Ends.false {m : Act ε σ α} (h : Ends m (fun _ _ => False) (fun _ _ => False) s) : False := by
  unfold Ends at h
  rcases hm : m s with ⟨e | a, s'⟩ <;> rw [hm] at h <;> exact h

theorem ends_of_run {m : Act ε σ α} (hq : ∀ a s', m s = (.ok a, s') → Q a s')
    (he : ∀ e s', m s = (.error e, s') → E e s') : Ends m Q E s := by
  unfold Ends
  rcases hm : m s with ⟨e | a, s'⟩
  · exact he e s' hm
  · exact hq a s' hm

theorem ends_each {ι : Type} {P : σ → Prop} {f : ι → Act ε σ Unit} (xs : List ι)
    (step : ∀ x ∈ xs, ∀ s, P s → Ends (f x) (fun _ => P) E s) (h : P s) :
    Ends (each xs f) (fun _ => P) E s := by
  induction xs generalizing s with
  | nil => exact h
  | cons x rest ih =>
    rw [each, ends_bind]
    exact (step x (by simp) s h).post fun _ s' h' => ih (fun y hy => step y (by simp [hy])) h'

theorem each_append {ι : Type} (xs ys : List ι) (f : ι → Act ε σ Unit) (s : σ) :
    each (xs ++ ys) f s = (each xs f >>= fun _ => each ys f) s := by
  induction xs generalizing s with
  | nil => rfl
  | cons x rest ih =>
    simp only [List.cons_append, each, bind_run]
    rcases f x s with ⟨e | a, s'⟩
    · rfl
    · simpa only [bind_run] using ih s'

theorem each_congr {ι : Type} {xs : List ι} {f g : ι → Act ε σ Unit} (h : ∀ x ∈ xs, f x = g x) :
    each xs f = each xs g := by
  induction xs with
  | nil => rfl
  | cons x rest ih =>
    rw [each, each, h x List.mem_cons_self, ih fun y hy => h y (List.mem_cons_of_mem x hy)]

theorem each_map {ι κ : Type} (k : κ → ι) (xs : List κ) (f : ι → Act ε σ Unit) :
    each (xs.map k) f = each xs fun x => f (k x) := by
  induction xs with
  | nil => rfl
  | cons x rest ih => rw [List.map_cons, each, each, ih]

theorem ends_each_range {f : Nat → Act ε σ Unit} {n : Nat} (Inv : Nat → σ → Prop)
    (step : ∀ i < n, ∀ s, Inv i s → Ends (f i) (fun _ => Inv (i + 1)) E s) (h : Inv 0 s) :
    Ends (each (List.range n) f) (fun _ => Inv n) E s := by
  induction n with
  | zero => exact h
  | succ n ih =>
    have hfirst := ih fun i hi => step i (by omega)
    have hsplit : Ends (each (List.range n ++ [n]) f) (fun _ => Inv (n + 1)) E s ↔
        Ends (each (List.range n) f >>= fun _ => each [n] f) (fun _ => Inv (n + 1)) E s := by
      simp only [Ends, each_append]
    rw [List.range_succ, hsplit, ends_bind]
    refine hfirst.post fun _ s' h' => ?_
    rw [each, ends_bind]
    exact (step n (by omega) s' h').post fun _ _ h => h

theorem fold_append {ι : Type} (xs ys : List ι) (f : α → ι → Act ε σ α) (a : α) (s : σ) :
    fold (xs ++ ys) f a s = (fold xs f a >>= fun b => fold ys f b) s := by
  induction xs generalizing a s with
  | nil => rfl
  | cons x rest ih =>
    simp only [List.cons_append, fold, bind_run]
    rcases f a x s with ⟨e | b, s'⟩
    · rfl
    · simpa only [bind_run] using ih b s'

theorem ends_fold {ι : Type} {P : α → σ → Prop} {f : α → ι → Act ε σ α} (xs : List ι)
    (step : ∀ x ∈ xs, ∀ a s, P a s → Ends (f a x) P E s) {a : α} (h : P a s) :
    Ends (fold xs f a) P E s := by
  induction xs generalizing a s with
  | nil => exact h
  | cons x rest ih =>
    rw [fold, ends_bind]
    exact (step x (by simp) a s h).post fun b s' h' => ih (fun y hy => step y (by simp [hy])) h'

theorem fold_congr {ι : Type} {xs : List ι} {f g : α → ι → Act ε σ α}
    (h : ∀ x ∈ xs, ∀ a, f a x = g a x) (a : α) : fold xs f a = fold xs g a := by
  induction xs generalizing a with
  | nil => rfl
  | cons x rest ih =>
    rw [fold, fold, h x List.mem_cons_self]
    exact congrArg _ (funext fun b => ih (fun y hy => h y (List.mem_cons_of_mem x hy)) b)

theorem fold_map {ι κ : Type} (k : κ → ι) (xs : List κ) (f : α → ι → Act ε σ α) (a : α) :
    fold (xs.map k) f a = fold xs (fun a x => f a (k x)) a := by
  induction xs generalizing a with
  | nil => rfl
  | cons x rest ih =>
    rw [List.map_cons, fold, fold]
    exact congrArg _ (funext fun b => ih b)

theorem ends_fold_range {f : α → Nat → Act ε σ α} {n : Nat} (Inv : Nat → α → σ → Prop)
    (step : ∀ i < n, ∀ a s, Inv i a s → Ends (f a i) (Inv (i + 1)) E s) {a : α} (h : Inv 0 a s) :
    Ends (fold (List.range n) f a) (Inv n) E s := by
  induction n with
  | zero => exact h
  | succ n ih =>
    have hfirst := ih fun i hi => step i (by omega)
    have hsplit : Ends (fold (List.range n ++ [n]) f a) (Inv (n + 1)) E s ↔
        Ends (fold (List.range n) f a >>= fun b => fold [n] f b) (Inv (n + 1)) E s := by
      simp only [Ends, fold_append]
    rw [List.range_succ, hsplit, ends_bind]
    refine hfirst.post fun b s' h' => ?_
    rw [fold, ends_bind]
    exact (step n (by omega) b s' h').post fun _ _ h => h

section Keeps

variable {γ : Type}

def Keeps (g : σ → γ) (m : Act ε σ α) : Prop := ∀ s, g (m s).2 = g s

variable {g : σ → γ}

theorem Keeps.ends {m : Act ε σ α} (h : Keeps g m) (s : σ) :
    Ends m (fun _ s' => g s' = g s) (fun _ s' => g s' = g s) s := by
  have hs := h s
  unfold Ends
  rcases hm : m s with ⟨e | a, s'⟩ <;> rw [hm] at hs <;> exact hs

theorem Keeps.run {m : Act ε σ α} {r : Except (Stop ε) α} {s s' : σ} (h : Keeps g m)
    (hm : m s = (r, s')) : g s' = g s := by
  have hs := h s
  rwa [hm] at hs

theorem Keeps.map {δ : Type} {m : Act ε σ α} (h : Keeps g m) (f : γ → δ) :
    Keeps (fun s => f (g s)) m := fun s => congrArg f (h s)

theorem keeps_pure (a : α) : Keeps g (pure a : Act ε σ α) := fun _ => rfl

theorem keeps_read : Keeps g (read : Act ε σ σ) := fun _ => rfl

theorem keeps_fail (e : ε) : Keeps g (fail e : Act ε σ α) := fun _ => rfl

theorem keeps_crash : Keeps g (crash : Act ε σ α) := fun _ => rfl

theorem keeps_update {f : σ → σ} (h : ∀ s, g (f s) = g s) : Keeps g (update f : Act ε σ Unit) := h

theorem keeps_expect (o : Option α) : Keeps g (expect o : Act ε σ α) := by
  cases o with
  | none => exact keeps_crash
  | some a => exact keeps_pure a

theorem Keeps.bind {m : Act ε σ α} {f : α → Act ε σ β} (hm : Keeps g m)
    (hf : ∀ a, Keeps g (f a)) : Keeps g (m >>= f) := by
  intro s
  have h1 := hm s
  rw [bind_run]
  rcases hs : m s with ⟨e | a, s'⟩ <;> rw [hs] at h1
  · exact h1
  · exact (hf a s').trans h1

theorem Keeps.ite {c : Prop} [Decidable c] {m n : Act ε σ α} (hm : c → Keeps g m)
    (hn : ¬ c → Keeps g n) : Keeps g (if c then m else n) := by
  split
  · exact hm ‹_›
  · exact hn ‹_›

theorem keeps_each {ι : Type} {f : ι → Act ε σ Unit} (h : ∀ x, Keeps g (f x)) (xs : List ι) :
    Keeps g (each xs f) := by
  induction xs with
  | nil => exact keeps_pure ()
  | cons x rest ih => exact (h x).bind fun _ => ih

theorem keeps_fold {ι : Type} {f : α → ι → Act ε σ α} (h : ∀ a x, Keeps g (f a x)) (xs : List ι)
    (a : α) : Keeps g (fold xs f a) := by
  induction xs generalizing a with
  | nil => exact keeps_pure a
  | cons x rest ih => exact (h a x).bind ih

end Keeps

end Act

end Interrupt

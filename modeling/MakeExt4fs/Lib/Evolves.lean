import MakeExt4fs.Lib.ErrorLog

namespace ErrorLog.Run

variable {ε σ τ α β : Type}

def Evolves (R : σ → σ → Prop) (m : Run ε σ α) : Prop :=
  ∀ s l a s' l', m (s, l) = .ok (a, (s', l')) → R s s'

section Rules

variable {R : σ → σ → Prop}

theorem Evolves.mono {R' : σ → σ → Prop} {m : Run ε σ α} (h : Evolves R m)
    (hr : ∀ s s', R s s' → R' s s') : Evolves R' m :=
  fun s l a s' l' hm => hr s s' (h s l a s' l' hm)

theorem evolves_crash : Evolves R (crash : Run ε σ α) := fun _ _ _ _ _ hm => by cases hm

theorem evolves_update {f : σ → σ} (h : ∀ s, R s (f s)) :
    Evolves R (update f : Run ε σ Unit) := by
  intro s l a s' l' hm
  cases hm
  exact h s

theorem Evolves.ite {c : Prop} [Decidable c] {m n : Run ε σ α} (hm : c → Evolves R m)
    (hn : ¬ c → Evolves R n) : Evolves R (if c then m else n) := by
  split
  · exact hm ‹_›
  · exact hn ‹_›

theorem Evolves.zoom {S : τ → τ → Prop} {part : σ → Option τ} {put : τ → σ → σ} {m : Run ε τ α}
    (h : Evolves S m) (hr : ∀ s t t', part s = some t → S t t' → R s (put t' s)) :
    Evolves R (zoom part put m) := by
  intro s l a s' l' hm
  unfold Run.zoom at hm
  cases hp : part s with
  | none => simp [hp] at hm
  | some t =>
    cases hrun : m (t, l) with
    | error e => simp [hp, hrun] at hm
    | ok p =>
      obtain ⟨b, t', l1⟩ := p
      simp only [hp, hrun, Except.ok.injEq, Prod.mk.injEq] at hm
      obtain ⟨rfl, rfl, rfl⟩ := hm
      exact hr s t t' hp (h t l b t' l1 hrun)

variable [IsPreorder σ R]

theorem evolves_pure (a : α) : Evolves R (pure a : Run ε σ α) := by
  intro s l b s' l' hm
  cases hm
  exact refl_of R s

theorem evolves_raise (force : Bool) (e : ε) : Evolves R (raise force e : Run ε σ Unit) := by
  intro s l b s' l' hm
  cases force
  · cases hm
  · cases hm
    exact refl_of R s

theorem evolves_expect (o : Option α) : Evolves R (expect o : Run ε σ α) := by
  cases o with
  | none => exact evolves_crash
  | some a => exact evolves_pure a

theorem Evolves.bind {m : Run ε σ α} {f : α → Run ε σ β} (hm : Evolves R m)
    (hf : ∀ a, Evolves R (f a)) : Evolves R (m >>= f) := by
  intro s l b s' l' hr
  obtain ⟨a, ⟨s1, l1⟩, h1, h2⟩ := bind_ok.mp hr
  exact trans_of R (hm s l a s1 l1 h1) (hf a s1 l1 b s' l' h2)

end Rules

def Advances (R : σ → σ → Prop) (m : Run ε σ α) : Prop :=
  ∀ s l a s' l', m (s, l) = .ok (a, (s', l')) → R s s' ∧ l <+: l'

section Advancing

variable {R : σ → σ → Prop}

theorem Advances.evolves {m : Run ε σ α} (h : Advances R m) : Evolves R m :=
  fun s l a s' l' hm => (h s l a s' l' hm).1

theorem Advances.mono {R' : σ → σ → Prop} {m : Run ε σ α} (h : Advances R m)
    (hr : ∀ s s', R s s' → R' s s') : Advances R' m :=
  fun s l a s' l' hm => ⟨hr s s' (h s l a s' l' hm).1, (h s l a s' l' hm).2⟩

theorem Advances.quiet {m : Run ε σ α} (h : Advances R m) {s s' : σ} {l : List ε} {a : α}
    (hm : m (s, l) = .ok (a, (s', []))) : l = [] ∧ R s s' :=
  ⟨List.prefix_nil.mp (h s l a s' [] hm).2, (h s l a s' [] hm).1⟩

theorem advances_crash : Advances R (crash : Run ε σ α) := fun _ _ _ _ _ hm => by cases hm

theorem advances_update {f : σ → σ} (h : ∀ s, R s (f s)) :
    Advances R (update f : Run ε σ Unit) := by
  intro s l a s' l' hm
  cases hm
  exact ⟨h s, List.prefix_refl l⟩

theorem Advances.ite {c : Prop} [Decidable c] {m n : Run ε σ α} (hm : c → Advances R m)
    (hn : ¬ c → Advances R n) : Advances R (if c then m else n) := by
  split
  · exact hm ‹_›
  · exact hn ‹_›

theorem Advances.zoom {S : τ → τ → Prop} {part : σ → Option τ} {put : τ → σ → σ} {m : Run ε τ α}
    (h : Advances S m) (hr : ∀ s t t', part s = some t → S t t' → R s (put t' s)) :
    Advances R (zoom part put m) := by
  intro s l a s' l' hm
  refine ⟨h.evolves.zoom hr s l a s' l' hm, ?_⟩
  unfold Run.zoom at hm
  cases hp : part s with
  | none => simp [hp] at hm
  | some t =>
    cases hrun : m (t, l) with
    | error e => simp [hp, hrun] at hm
    | ok p =>
      obtain ⟨b, t', l1⟩ := p
      simp only [hp, hrun, Except.ok.injEq, Prod.mk.injEq] at hm
      obtain ⟨rfl, rfl, rfl⟩ := hm
      exact (h t l b t' l1 hrun).2

variable [IsPreorder σ R]

theorem advances_pure (a : α) : Advances R (pure a : Run ε σ α) := by
  intro s l b s' l' hm
  cases hm
  exact ⟨refl_of R s, List.prefix_refl l⟩

theorem advances_read : Advances R (read : Run ε σ σ) := by
  intro s l b s' l' hm
  cases hm
  exact ⟨refl_of R s, List.prefix_refl l⟩

theorem advances_raise (force : Bool) (e : ε) : Advances R (raise force e : Run ε σ Unit) := by
  intro s l b s' l' hm
  cases force
  · cases hm
  · cases hm
    exact ⟨refl_of R s, List.prefix_append l [e]⟩

theorem advances_expect (o : Option α) : Advances R (expect o : Run ε σ α) := by
  cases o with
  | none => exact advances_crash
  | some a => exact advances_pure a

theorem Advances.bind {m : Run ε σ α} {f : α → Run ε σ β} (hm : Advances R m)
    (hf : ∀ a, Advances R (f a)) : Advances R (m >>= f) := by
  intro s l b s' l' hr
  obtain ⟨a, ⟨s1, l1⟩, h1, h2⟩ := bind_ok.mp hr
  have hfirst := hm s l a s1 l1 h1
  have hrest := hf a s1 l1 b s' l' h2
  exact ⟨trans_of R hfirst.1 hrest.1, hfirst.2.trans hrest.2⟩

theorem Advances.next {m : Run ε σ α} {f : α → Run ε σ β} (hm : Advances R m) {s0 s : σ}
    {l : List ε} {r : β × (σ × List ε)} (h0 : R s0 s) (h : (m >>= f) (s, l) = .ok r) :
    ∃ a s1 l1, R s0 s1 ∧ m (s, l) = .ok (a, (s1, l1)) ∧ f a (s1, l1) = .ok r := by
  obtain ⟨a, ⟨s1, l1⟩, h1, h2⟩ := bind_ok.mp h
  exact ⟨a, s1, l1, trans_of R h0 (hm s l a s1 l1 h1).1, h1, h2⟩

theorem advances_each {ι : Type} {f : ι → Run ε σ Unit} (h : ∀ x, Advances R (f x)) (xs : List ι) :
    Advances R (each xs f) := by
  induction xs with
  | nil => exact advances_pure ()
  | cons x rest ih => exact (h x).bind fun _ => ih

end Advancing

end ErrorLog.Run

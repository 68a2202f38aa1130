/-!
# What computations end with

A computation over a state that can fail ends with a result or an error. What is known of the end is put
together from what is known of the parts.
-/

namespace ChainFeed

section Runs

variable {σ ε α β : Type} {x : ExceptT ε (StateM σ) α} {f : α → ExceptT ε (StateM σ) β} {s : σ}

theorem stateM_bind_apply (y : StateM σ α) (g : α → StateM σ β) (s : σ) :
    (y >>= g) s = g (y s).1 (y s).2 := rfl

theorem stateM_run_bind_ok {a : α} (h : (x.run s).1 = .ok a) : (x >>= f).run s = (f a).run (x.run s).2 := by
  simp only [ExceptT.run_bind, stateM_bind_apply, h]

theorem stateM_run_bind_error {e : ε} (h : (x.run s).1 = .error e) :
    (x >>= f).run s = (.error e, (x.run s).2) := by
  simp only [ExceptT.run_bind, stateM_bind_apply, h]
  rfl

theorem bind_run_eq_ok {b : β} (h : ((x >>= f).run s).1 = .ok b) :
    ∃ a, (x.run s).1 = .ok a ∧ ((f a).run (x.run s).2).1 = .ok b := by
  cases hresult : (x.run s).1 with
  | ok a =>
    rw [stateM_run_bind_ok hresult] at h
    exact ⟨a, rfl, h⟩
  | error e =>
    rw [stateM_run_bind_error hresult] at h
    cases h

end Runs

/-- Wherever it is run, the computation ends with a result or an error of which `P` holds. -/
def Ends {σ ε α : Type} (x : ExceptT ε (StateM σ) α) (P : Except ε α → Prop) : Prop :=
  ∀ s, P (x.run s).1

def Gives {σ ε α : Type} (x : ExceptT ε (StateM σ) α) (P : α → Prop) : Prop :=
  ∀ s, ∃ a, (x.run s).1 = .ok a ∧ P a

section Gives

variable {σ ε α β : Type} {P : α → Prop} {Q : β → Prop} {R : Except ε β → Prop}
  {x : ExceptT ε (StateM σ) α} {f : α → ExceptT ε (StateM σ) β}

theorem gives_pure {a : α} (h : P a) : Gives (pure a : ExceptT ε (StateM σ) α) P :=
  fun _ => ⟨a, rfl, h⟩

theorem gives_mapError {ε' : Type} (g : ε' → ε) {call : StateM σ (Except ε' α)}
    (h : ∀ s, ∃ a, (call s).1 = .ok a ∧ P a) :
    Gives (.mk do return (← call).mapError g : ExceptT ε (StateM σ) α) P := by
  intro s
  obtain ⟨a, ha, hP⟩ := h s
  refine ⟨a, ?_, hP⟩
  change (call s).1.mapError _ = _
  rw [ha]
  rfl

theorem Gives.next (hx : Gives x P) (ok : ∀ a, P a → Ends (f a) R) : Ends (x >>= f) R := by
  intro s
  obtain ⟨a, ha, hP⟩ := hx s
  rw [stateM_run_bind_ok ha]
  exact ok a hP _

theorem Gives.bind (hx : Gives x P) (hf : ∀ a, P a → Gives (f a) Q) : Gives (x >>= f) Q := by
  intro s
  obtain ⟨a, ha, hP⟩ := hx s
  rw [stateM_run_bind_ok ha]
  exact hf a hP _

end Gives

section Ends

variable {σ ε α β : Type} {P : Except ε α → Prop} {Q : Except ε β → Prop} {r : Except ε α}
  {x : ExceptT ε (StateM σ) α} {f : α → ExceptT ε (StateM σ) β}

theorem ends_pure {a : α} (h : P (.ok a)) : Ends (pure a : ExceptT ε (StateM σ) α) P := fun _ => h

theorem ends_throw {e : ε} (h : P (.error e)) : Ends (throw e : ExceptT ε (StateM σ) α) P := fun _ => h

theorem Ends.bind (hx : Ends x P) (ok : ∀ a, P (.ok a) → Ends (f a) Q)
    (error : ∀ e, P (.error e) → Q (.error e)) : Ends (x >>= f) Q := by
  intro s
  have hP := hx s
  cases hresult : (x.run s).1 with
  | ok a =>
    rw [stateM_run_bind_ok hresult]
    exact ok a (hresult ▸ hP) _
  | error e =>
    rw [stateM_run_bind_error hresult]
    exact error e (hresult ▸ hP)

/-- What ends in one way only is followed by what comes after its result. -/
theorem Ends.fixed {g : α → Except ε β} (hx : Ends x (· = r))
    (ok : ∀ a, r = .ok a → Ends (f a) (· = g a)) : Ends (x >>= f) (· = r.bind g) := by
  refine hx.bind ?_ ?_
  · rintro a rfl
    exact ok a rfl
  · rintro e rfl
    rfl

theorem Ends.map {g : α → β} (hx : Ends x (· = r)) : Ends (do return g (← x)) (· = r.map g) := by
  refine hx.bind ?_ ?_
  · rintro a rfl
    exact ends_pure rfl
  · rintro e rfl
    rfl

end Ends

/-- The computation ends the same way wherever it is run. -/
def Settled {σ ε α : Type} (x : ExceptT ε (StateM σ) α) : Prop := ∀ s s', (x.run s).1 = (x.run s').1

section Settled

variable {σ ε α β : Type} {x : ExceptT ε (StateM σ) α} {f : α → ExceptT ε (StateM σ) β}

theorem Ends.settled {r : Except ε α} (h : Ends x (· = r)) : Settled x :=
  fun s s' => (h s).trans (h s').symm

theorem Settled.bind (hx : Settled x) (hf : ∀ a, Settled (f a)) : Settled (x >>= f) := by
  intro s s'
  cases hresult : (x.run s).1 with
  | ok a =>
    rw [stateM_run_bind_ok hresult, stateM_run_bind_ok ((hx s' s).trans hresult)]
    exact hf a _ _
  | error e =>
    rw [stateM_run_bind_error hresult, stateM_run_bind_error ((hx s' s).trans hresult)]

end Settled

end ChainFeed

import ChainFeed.Proofs.List

/-!
# Runs

A machine makes moves, each of which may be impossible in the state it is in. A run is any sequence
of possible moves; its trail keeps every move together with the state in which it was made, so that
what happened can be read off it.
-/

namespace ChainFeed

/-- The moves of the trail lead from `first` to the last state. -/
inductive Run {σ μ : Type} (step? : σ → μ → Option σ) (first : σ) : List (σ × μ) → σ → Prop
  | start : Run step? first [] first
  | step {trail : List (σ × μ)} {s t : σ} {m : μ} (before : Run step? first trail s)
      (move : step? s m = some t) : Run step? first (trail ++ [(s, m)]) t

variable {σ μ : Type} {step? : σ → μ → Option σ} {first last : σ} {trail : List (σ × μ)}

/-- What holds at the start and is kept by every move holds at the end of every run. -/
theorem Run.invariant {P : List (σ × μ) → σ → Prop} (h : Run step? first trail last)
    (start : P [] first)
    (step : ∀ trail s m t, P trail s → step? s m = some t → P (trail ++ [(s, m)]) t) :
    P trail last := by
  induction h with
  | start => exact start
  | step _ move ih => exact step _ _ _ _ ih move

theorem Run.invariant_of_forall {P : σ → Prop} {Q : σ × μ → Prop} (h : Run step? first trail last)
    (all : ∀ p ∈ trail, Q p) (start : P first)
    (step : ∀ s m t, P s → Q (s, m) → step? s m = some t → P t) : P last := by
  refine h.invariant (P := fun trail s => (∀ p ∈ trail, Q p) → P s) (fun _ => start) ?_ all
  intro trail s m t hbefore move all
  rw [List.forall_mem_append, List.forall_mem_singleton] at all
  exact step s m t (hbefore all.1) all.2 move

/-- Every move of a run was made in a state that the run had come to, and the run went on from
there. -/
theorem Run.cut {before after : List (σ × μ)} {p : σ × μ}
    (h : Run step? first (before ++ p :: after) last) :
    Run step? first before p.1 ∧ ∃ next, step? p.1 p.2 = some next ∧ Run step? next after last := by
  generalize hwhole : before ++ p :: after = whole at h
  induction h generalizing after with
  | start => simp at hwhole
  | @step trail s t m earlier move ih =>
    rcases concat_eq_append_cons hwhole.symm with ⟨rfl, rfl, rfl⟩ | ⟨start, rfl, rfl⟩
    · exact ⟨earlier, t, move, .start⟩
    · obtain ⟨hbefore, next, hnext, hstart⟩ := ih rfl
      exact ⟨hbefore, next, hnext, hstart.step move⟩

theorem Run.append {s : σ} {later : List (σ × μ)} (h : Run step? first trail s)
    (after : Run step? s later last) : Run step? first (trail ++ later) last := by
  induction after with
  | start => simpa using h
  | step _ move ih =>
    rw [← List.append_assoc]
    exact ih.step move

theorem Run.split {before after : List (σ × μ)} (h : Run step? first (before ++ after) last) :
    ∃ s, Run step? first before s ∧ Run step? s after last := by
  generalize hwhole : before ++ after = whole at h
  induction h generalizing after with
  | start =>
    obtain ⟨rfl, rfl⟩ := List.append_eq_nil_iff.mp hwhole
    exact ⟨first, .start, .start⟩
  | @step trail s t m earlier move ih =>
    rcases List.eq_nil_or_concat after with rfl | ⟨rest, p, rfl⟩
    · rw [List.append_nil] at hwhole
      exact ⟨t, hwhole ▸ earlier.step move, .start⟩
    · rw [List.concat_eq_append, ← List.append_assoc] at hwhole
      obtain ⟨hrest, hlast⟩ := List.append_inj' hwhole rfl
      cases hlast
      obtain ⟨mid, hbefore, hafter⟩ := ih hrest
      rw [List.concat_eq_append]
      exact ⟨mid, hbefore, hafter.step move⟩

/-- The trail and the last state when these moves are made, if all of them are possible. -/
def replay? (step? : σ → μ → Option σ) (s : σ) : List μ → Option (List (σ × μ) × σ)
  | [] => some ([], s)
  | m :: moves =>
    match step? s m with
    | some t => (replay? step? t moves).map fun (trail, last) => ((s, m) :: trail, last)
    | none => none

theorem Run.of_replay {moves : List μ} (h : replay? step? first moves = some (trail, last)) :
    Run step? first trail last := by
  induction moves generalizing first trail with
  | nil =>
    cases h
    exact .start
  | cons m moves ih =>
    simp only [replay?] at h
    split at h
    · next t move =>
      obtain ⟨⟨later, _⟩, hlater, hpair⟩ := Option.map_eq_some_iff.mp h
      cases hpair
      exact (Run.start.step move).append (ih hlater)
    · cases h

end ChainFeed

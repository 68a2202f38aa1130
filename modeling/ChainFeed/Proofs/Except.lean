import Mathlib.Data.List.Forall2

/-!
# Results and errors

Laws of `Except`: what is left of a result when the error is forgotten, and what becomes of a list that is
read item by item, all or nothing.
-/

namespace ChainFeed

section Results

variable {ε α β γ : Type} {r : Except ε α} {a : α}

theorem except_map_map (g : α → β) (k : β → γ) (r : Except ε α) :
    (r.map g).map k = r.map fun a => k (g a) := by
  cases r <;> rfl

theorem toOption_map (g : α → β) (r : Except ε α) : (r.map g).toOption = r.toOption.map g := by
  cases r <;> rfl

theorem toOption_eq_some_iff : r.toOption = some a ↔ r = .ok a := by
  cases r <;> simp [Except.toOption]

theorem exists_ok_iff : (∃ a, r = .ok a) ↔ r.toOption.isSome = true := by
  cases r <;> simp [Except.toOption]

theorem mapM_cons_ok {g : α → Except ε β} {x : α} {y : β} (h : g x = .ok y) (xs : List α) :
    (x :: xs).mapM g = (xs.mapM g).map (y :: ·) := by
  rw [List.mapM_cons, h]
  cases xs.mapM g <;> rfl

theorem mapM_cons_error {g : α → Except ε β} {x : α} {e : ε} (h : g x = .error e) (xs : List α) :
    (x :: xs).mapM g = .error e := by
  rw [List.mapM_cons, h]
  rfl

end Results

section Traversal

variable {ε α β γ : Type} {g : α → Except ε β} {xs : List α} {ys : List β}

theorem mapM_eq_ok_iff : xs.mapM g = .ok ys ↔ List.Forall₂ (fun x y => g x = .ok y) xs ys := by
  induction xs generalizing ys with
  | nil => simp [pure, Except.pure, eq_comm]
  | cons x xs ih =>
    rw [List.mapM_cons, List.forall₂_cons_left_iff]
    cases hx : g x with
    | error e => simp [bind, Except.bind]
    | ok y =>
      simp only [← ih]
      cases xs.mapM g <;> simp [bind, Except.bind, pure, Except.pure, eq_comm]

theorem exists_mapM_iff : (∃ ys, xs.mapM g = .ok ys) ↔ ∀ x ∈ xs, ∃ y, g x = .ok y := by
  induction xs with
  | nil => simp [pure, Except.pure]
  | cons x xs ih =>
    rw [List.mapM_cons, List.forall_mem_cons, ← ih]
    cases g x with
    | error e => simp [bind, Except.bind]
    | ok y => cases xs.mapM g <;> simp [bind, Except.bind, pure, Except.pure]

/-- The first that cannot be read fails them all. -/
theorem mapM_eq_error_iff {e : ε} : xs.mapM g = .error e ↔
    ∃ (i : Nat) (x : α), xs[i]? = some x ∧ g x = .error e ∧ ∀ j < i, ∀ y, xs[j]? = some y → ∃ b, g y = .ok b := by
  induction xs with
  | nil => simp [pure, Except.pure]
  | cons x xs ih =>
    rw [List.mapM_cons]
    cases hx : g x with
    | error e' =>
      constructor
      · intro h
        cases h
        exact ⟨0, x, rfl, hx, by simp⟩
      · rintro ⟨i, y, hy, herror, hearlier⟩
        cases i with
        | zero =>
          cases hy
          cases hx.symm.trans herror
          rfl
        | succ i =>
          obtain ⟨b, hb⟩ := hearlier 0 (Nat.succ_pos i) x rfl
          cases hx.symm.trans hb
    | ok b =>
      have hrest : xs.mapM g = .error e ↔ (do let ys ← xs.mapM g; pure (b :: ys)) = Except.error e := by
        cases xs.mapM g <;> simp [bind, Except.bind, pure, Except.pure]
      -- The first element succeeds, so every failure is one place further on than in the rest.
      refine hrest.symm.trans (ih.trans ?_)
      constructor
      · rintro ⟨i, y, hy, herror, hearlier⟩
        refine ⟨i + 1, y, hy, herror, fun j hj z hz => ?_⟩
        cases j with
        | zero =>
          cases hz
          exact ⟨b, hx⟩
        | succ j => exact hearlier j (Nat.lt_of_succ_lt_succ hj) z hz
      · rintro ⟨i, y, hy, herror, hearlier⟩
        cases i with
        | zero =>
          cases hy
          simp [hx] at herror
        | succ i =>
          exact ⟨i, y, hy, herror, fun j hj z hz => hearlier (j + 1) (Nat.succ_lt_succ hj) z hz⟩

theorem mem_mapM (h : xs.mapM g = .ok ys) {y : β} : y ∈ ys ↔ ∃ x ∈ xs, g x = .ok y := by
  have hall := mapM_eq_ok_iff.mp h
  clear h
  induction hall with
  | nil => simp
  | @cons x y' xs ys hx _ ih =>
    simp only [List.mem_cons, ih, exists_eq_or_imp, hx, Except.ok.injEq]
    exact or_congr_left eq_comm

/-- Reading everything succeeds just if each can be read, and gives what is read of each. -/
theorem mapM_eq_ok_map_iff {readable : α → Prop} {f : α → β}
    (reads : ∀ x ∈ xs, ∀ y, g x = .ok y ↔ readable x ∧ y = f x) :
    xs.mapM g = .ok ys ↔ (∀ x ∈ xs, readable x) ∧ ys = xs.map f := by
  rw [mapM_eq_ok_iff]
  induction xs generalizing ys with
  | nil => simp
  | cons x xs ih =>
    obtain ⟨hx, hxs⟩ := List.forall_mem_cons.mp reads
    simp only [List.forall₂_cons_left_iff, hx, ih hxs, List.forall_mem_cons, List.map_cons]
    constructor
    · rintro ⟨_, _, ⟨hreadable, rfl⟩, ⟨hothers, rfl⟩, rfl⟩
      exact ⟨⟨hreadable, hothers⟩, rfl⟩
    · rintro ⟨⟨hreadable, hothers⟩, rfl⟩
      exact ⟨_, _, ⟨hreadable, rfl⟩, ⟨hothers, rfl⟩, rfl⟩

theorem map_mapM {p : α → γ} {q : β → γ} (keeps : ∀ x y, g x = .ok y → q y = p x)
    (h : xs.mapM g = .ok ys) : ys.map q = xs.map p := by
  have hall := mapM_eq_ok_iff.mp h
  clear h
  induction hall with
  | nil => rfl
  | cons hx _ ih => rw [List.map_cons, List.map_cons, keeps _ _ hx, ih]

end Traversal

end ChainFeed

import ChainFeed.Policy.Breaker

/-!
# Uses of a breaker

A breaker is looked at, asked for admission, and told of outcomes. `Step` says everything that one use
can do to it. What keeps a call out is always one moment: that of the opening, or the start of the
trial under way.
-/

namespace ChainFeed.Breaker

inductive Use where
  | observe
  | acquire
  | succeed
  | fail
  deriving DecidableEq, Repr

def Use.isRecord : Use → Bool
  | .succeed | .fail => true
  | .observe | .acquire => false

def Use.ofOutcome (ok : Bool) : Use := if ok then .succeed else .fail

def after (c : Config) (now : Nat) (b : Breaker) : Use → Breaker
  | .observe => (b.observe c now).2
  | .acquire => (b.acquire c now).2
  | .succeed => b.succeed c
  | .fail => b.fail c now

def admits (c : Config) (now : Nat) (b : Breaker) : Bool := (b.acquire c now).1

inductive Step (c : Config) (now : Nat) : Breaker → Use → Breaker → Prop
  | passed (n : Nat) (u : Use) (quiet : u.isRecord = false) : Step c now (.closed n) u (.closed n)
  | reset (n : Nat) : Step c now (.closed n) .succeed (.closed 0)
  | counted (n : Nat) (few : n + 1 < c.failureThreshold) : Step c now (.closed n) .fail (.closed (n + 1))
  | tripped (n : Nat) (enough : c.failureThreshold ≤ n + 1) : Step c now (.closed n) .fail (.opened now)
  | barred (since : Nat) (u : Use) (early : u.isRecord = false → now < since + c.openFor) :
      Step c now (.opened since) u (.opened since)
  | thawed (since : Nat) (due : since + c.openFor ≤ now) :
      Step c now (.opened since) .observe (.halfOpen 0 none)
  | probed (since : Nat) (due : since + c.openFor ≤ now) :
      Step c now (.opened since) .acquire (.halfOpen 0 (some now))
  | seen (n : Nat) (trial : Option Nat) : Step c now (.halfOpen n trial) .observe (.halfOpen n trial)
  | busy (n started : Nat) (under : now < started + c.openFor) :
      Step c now (.halfOpen n (some started)) .acquire (.halfOpen n (some started))
  | tried (n : Nat) (trial : Option Nat) (free : ∀ started ∈ trial, started + c.openFor ≤ now) :
      Step c now (.halfOpen n trial) .acquire (.halfOpen n (some now))
  | trusted (n : Nat) (trial : Option Nat) (few : n + 1 < c.successThreshold) :
      Step c now (.halfOpen n trial) .succeed (.halfOpen (n + 1) none)
  | recovered (n : Nat) (trial : Option Nat) (enough : c.successThreshold ≤ n + 1) :
      Step c now (.halfOpen n trial) .succeed (.closed 0)
  | reopened (n : Nat) (trial : Option Nat) : Step c now (.halfOpen n trial) .fail (.opened now)

theorem step_after (c : Config) (now : Nat) (b : Breaker) (u : Use) : Step c now b u (b.after c now u) := by
  cases b with
  | closed n =>
    cases u with
    | observe | acquire => exact .passed n _ rfl
    | succeed => exact .reset n
    | fail =>
      simp only [after, fail]
      split
      · next enough => exact .tripped n enough
      · next few => exact .counted n (Nat.lt_of_not_le few)
  | opened since =>
    cases u with
    | observe =>
      simp only [after, observe, refresh]
      split
      · next due => exact .thawed since due
      · next early => exact .barred since _ fun _ => Nat.lt_of_not_le early
    | acquire =>
      simp only [after, acquire, refresh]
      by_cases due : since + c.openFor ≤ now
      · rw [if_pos due]
        exact .probed since due
      · rw [if_neg due]
        exact .barred since _ fun _ => Nat.lt_of_not_le due
    | succeed => exact .barred since _ (by simp [Use.isRecord])
    | fail => exact .barred since _ (by simp [Use.isRecord])
  | halfOpen n trial =>
    cases u with
    | observe => exact .seen n trial
    | acquire =>
      cases trial with
      | none => exact .tried n none (by simp)
      | some started =>
        simp only [after, acquire, refresh]
        split
        · next under => exact .busy n started under
        · next due => exact .tried n _ (by simpa using Nat.le_of_not_lt due)
    | succeed =>
      simp only [after, succeed]
      split
      · next enough => exact .recovered n trial enough
      · next few => exact .trusted n trial (Nat.lt_of_not_le few)
    | fail => exact .reopened n trial

/-- The moment that keeps calls out: that of the opening, or the start of the trial under way. -/
def blockedSince : Breaker → Option Nat
  | .closed _ => none
  | .opened since => some since
  | .halfOpen _ trial => trial

/-- A call is admitted unless a cool-down is running. -/
theorem admits_iff {c : Config} {now : Nat} {b : Breaker} :
    b.admits c now = true ↔ ∀ t ∈ b.blockedSince, t + c.openFor ≤ now := by
  cases b with
  | closed n => simp [admits, acquire, refresh, blockedSince]
  | opened since =>
    by_cases due : since + c.openFor ≤ now <;> simp [admits, acquire, refresh, blockedSince, due]
  | halfOpen n trial =>
    cases trial with
    | none => simp [admits, acquire, refresh, blockedSince]
    | some started =>
      by_cases under : now < started + c.openFor
      · simp [admits, acquire, refresh, blockedSince, under]
      · simp [admits, acquire, refresh, blockedSince, under, Nat.le_of_not_lt under]

theorem Step.halfOpen_count {c : Config} {now n : Nat} {b : Breaker} {u : Use} {trial : Option Nat}
    (h : Step c now b u (.halfOpen n trial)) :
    (b.phase ≠ .halfOpen ∧ n = 0) ∨
      ∃ k old, b = .halfOpen k old ∧ n = k + (if u = .succeed then 1 else 0) ∧
        (k < max 1 c.successThreshold → n < max 1 c.successThreshold) := by
  cases h with
  | thawed | probed => exact .inl ⟨by simp [phase], rfl⟩
  | seen | busy | tried => exact .inr ⟨_, _, rfl, rfl, id⟩
  | trusted n trial few => exact .inr ⟨n, trial, rfl, rfl, fun _ => by omega⟩

theorem Step.recovered_of_closes {c : Config} {now : Nat} {b b' : Breaker} {u : Use}
    (h : Step c now b u b') (before : b.phase = .halfOpen) (closes : b'.phase = .closed) :
    u = .succeed ∧ ∃ n trial, b = .halfOpen n trial ∧ c.successThreshold ≤ n + 1 := by
  cases h with
  | recovered n trial enough => exact ⟨rfl, n, trial, rfl, enough⟩
  | passed | reset | counted | tripped | barred | thawed | probed => cases before
  | seen | busy | tried | trusted | reopened => cases closes

theorem acquire_trial {c : Config} {now : Nat} {b : Breaker} (admits : b.admits c now = true)
    (half : (b.after c now .acquire).phase = .halfOpen) :
    ∃ n, b.after c now .acquire = .halfOpen n (some now) := by
  have hfree := admits_iff.mp admits
  have step := step_after c now b .acquire
  generalize b.after c now .acquire = b' at half step
  cases step with
  | probed => exact ⟨0, rfl⟩
  | tried n => exact ⟨n, rfl⟩
  | busy n started under => exact absurd under (Nat.not_lt_of_le (hfree started rfl))
  | passed | barred => cases half

/-- A trial is under way until a success is recorded or a failure ends the spell, unless a later one
takes its place. -/
theorem Step.trial_kept {c : Config} {now n started : Nat} {b : Breaker} {u : Use}
    (h : Step c now (.halfOpen n (some started)) u b) (unsettled : u ≠ .succeed) :
    (∃ latest, b = .halfOpen n (some latest) ∧ (latest = started ∨ latest = now)) ∨
      u = .fail ∧ b.phase = .opened := by
  cases h with
  | seen | busy => exact .inl ⟨started, rfl, .inl rfl⟩
  | tried => exact .inl ⟨now, rfl, .inr rfl⟩
  | reopened => exact .inr ⟨rfl, rfl⟩
  | trusted | recovered => exact absurd rfl unsettled

theorem Step.blockedSince {c : Config} {now : Nat} {b b' : Breaker} {u : Use} (h : Step c now b u b') :
    ∀ t ∈ b'.blockedSince, t = now ∨ t ∈ b.blockedSince := by
  intro t ht
  cases h with
  | passed | reset | counted | thawed | trusted | recovered => cases ht
  | tripped | probed | tried | reopened => exact .inl (Option.mem_some.mp ht).symm
  | barred | seen | busy => exact .inr ht

end ChainFeed.Breaker

import ChainFeed.Proofs.Policy.Uses

/-!
# A breaker in registers

A breaker can be kept in one flat record of a phase, two counters of 32 bits and two times, none of
which is cleared whenever the phase changes. Such a record behaves like the breaker that is read off
it: what is left over from another phase never counts, and no counter wraps.
-/

namespace ChainFeed.Breaker

structure Registers where
  phase : Phase := .closed
  failures : UInt32 := 0
  successes : UInt32 := 0
  openedAt : Option Nat := none
  trialAt : Option Nat := none
  deriving DecidableEq, Repr

namespace Registers

def refresh (c : Config) (now : Nat) (r : Registers) : Registers :=
  if r.phase = .opened ∧ r.openedAt.any (· + c.openFor ≤ now) then
    { r with phase := .halfOpen, successes := 0, trialAt := none }
  else r

def acquire (c : Config) (now : Nat) (r : Registers) : Bool × Registers :=
  let r := r.refresh c now
  match r.phase with
  | .closed => (true, r)
  | .opened => (false, r)
  | .halfOpen =>
    if r.trialAt.any (now < · + c.openFor) then (false, r) else (true, { r with trialAt := some now })

def succeed (c : Config) (r : Registers) : Registers :=
  match r.phase with
  | .closed => { r with failures := 0 }
  | .opened => r
  | .halfOpen =>
    let r := { r with trialAt := none, successes := r.successes + 1 }
    if c.successThreshold ≤ r.successes.toNat then
      { r with phase := .closed, failures := 0, successes := 0, openedAt := none }
    else r

def fail (c : Config) (now : Nat) (r : Registers) : Registers :=
  match r.phase with
  | .closed =>
    let r := { r with failures := r.failures + 1 }
    if c.failureThreshold ≤ r.failures.toNat then { r with phase := .opened, openedAt := some now } else r
  | .opened => r
  | .halfOpen => { r with phase := .opened, openedAt := some now, successes := 0, trialAt := none }

def after (c : Config) (now : Nat) (r : Registers) : Use → Registers
  | .observe => r.refresh c now
  | .acquire => (r.acquire c now).2
  | .succeed => r.succeed c
  | .fail => r.fail c now

/-- The breaker that is kept in the record. -/
def breaker (r : Registers) : Breaker :=
  match r.phase with
  | .closed => .closed r.failures.toNat
  | .opened => .opened (r.openedAt.getD 0)
  | .halfOpen => .halfOpen r.successes.toNat r.trialAt

/-- The thresholds fit into the counters. -/
structure Fits (c : Config) : Prop where
  failures : c.failureThreshold < UInt32.size
  successes : c.successThreshold < UInt32.size

structure Sound (c : Config) (r : Registers) : Prop where
  trial : r.trialAt.isSome → r.phase = .halfOpen
  opened : r.phase = .opened → r.openedAt.isSome
  failures : r.failures.toNat ≤ max 1 c.failureThreshold
  successes : r.successes.toNat < max 1 c.successThreshold
  room : r.phase = .closed → r.failures.toNat < max 1 c.failureThreshold

private theorem room_at_zero (k : Nat) : (0 : UInt32).toNat < max 1 k :=
  Nat.lt_of_lt_of_le Nat.one_pos (Nat.le_max_left 1 k)

theorem sound_initial (c : Config) : Sound c {} :=
  ⟨by simp, by simp, by simp, room_at_zero _, fun _ => room_at_zero _⟩

private theorem toNat_succ {n : UInt32} {k : Nat} (h : n.toNat < max 1 k) (hk : k < UInt32.size) :
    (n + 1).toNat = n.toNat + 1 := by
  have hsize : UInt32.size = 2 ^ 32 := rfl
  rw [UInt32.toNat_add, UInt32.toNat_one, Nat.mod_eq_of_lt (by omega)]

variable {c : Config} {now : Nat} {r : Registers}

private theorem refresh_sound (h : r.Sound c) : (r.refresh c now).Sound c := by
  unfold refresh
  split
  · exact ⟨fun _ => rfl, by simp, h.failures, room_at_zero _, by simp⟩
  · exact h

private theorem acquire_sound (h : r.Sound c) : (r.acquire c now).2.Sound c := by
  have hr : (r.refresh c now).Sound c := refresh_sound h
  unfold acquire
  generalize r.refresh c now = r at hr
  dsimp only
  split
  · exact hr
  · exact hr
  · next hphase =>
    split
    · exact hr
    · exact ⟨fun _ => hphase, hr.opened, hr.failures, hr.successes, hr.room⟩

private theorem succeed_sound (h : r.Sound c) (fits : Fits c) : (r.succeed c).Sound c := by
  unfold succeed
  split
  · exact ⟨h.trial, h.opened, by simp, h.successes, fun _ => room_at_zero _⟩
  · exact h
  · next hphase =>
    have hsucc := toNat_succ h.successes fits.successes
    dsimp only
    split
    · exact ⟨by simp, by simp, by simp, room_at_zero _, fun _ => room_at_zero _⟩
    · next few =>
      refine ⟨by simp, h.opened, h.failures, ?_, h.room⟩
      dsimp only at few ⊢
      omega

private theorem fail_sound (h : r.Sound c) (fits : Fits c) : (r.fail c now).Sound c := by
  unfold fail
  split
  · next hphase =>
    have hsucc := toNat_succ (h.room hphase) fits.failures
    have hroom := h.room hphase
    have htrial : ¬ r.trialAt.isSome := fun hsome => by
      rw [h.trial hsome] at hphase
      cases hphase
    dsimp only
    split
    · refine ⟨fun hsome => absurd hsome htrial, by simp, ?_, h.successes, by simp⟩
      dsimp only
      omega
    · next few =>
      exact ⟨h.trial, h.opened, by dsimp only; omega, h.successes, fun _ => by dsimp only; omega⟩
  · exact h
  · exact ⟨by simp, by simp, h.failures, room_at_zero _, by simp⟩

theorem Sound.after (h : r.Sound c) (fits : Fits c) (u : Use) : (r.after c now u).Sound c := by
  cases u with
  | observe => exact refresh_sound h
  | acquire => exact acquire_sound h
  | succeed => exact succeed_sound h fits
  | fail => exact fail_sound h fits

private theorem refresh_breaker (h : r.Sound c) :
    (r.refresh c now).breaker = r.breaker.refresh c now := by
  cases hphase : r.phase with
  | closed | halfOpen => simp [refresh, breaker, hphase, Breaker.refresh]
  | opened =>
    obtain ⟨since, hsince⟩ := Option.isSome_iff_exists.mp (h.opened hphase)
    by_cases due : since + c.openFor ≤ now <;>
      simp [refresh, breaker, hphase, hsince, due, Breaker.refresh]

private theorem acquire_breaker (h : r.Sound c) :
    ((r.acquire c now).1, (r.acquire c now).2.breaker) = r.breaker.acquire c now := by
  have hbreaker : (r.refresh c now).breaker = r.breaker.refresh c now := refresh_breaker h
  unfold acquire Breaker.acquire
  rw [← hbreaker]
  generalize r.refresh c now = r
  cases hphase : r.phase with
  | closed | opened => simp [breaker, hphase]
  | halfOpen =>
    cases htrial : r.trialAt with
    | none => simp [breaker, hphase, htrial]
    | some started => by_cases under : now < started + c.openFor <;> simp [breaker, hphase, htrial, under]

/-- A sound record behaves like the breaker that is kept in it. -/
theorem after_breaker (h : r.Sound c) (fits : Fits c) (u : Use) :
    (r.after c now u).breaker = r.breaker.after c now u := by
  cases u with
  | observe => exact refresh_breaker h
  | acquire => exact congrArg Prod.snd (acquire_breaker h)
  | succeed =>
    cases hphase : r.phase with
    | closed | opened => simp [after, succeed, breaker, hphase, Breaker.after, Breaker.succeed]
    | halfOpen =>
      have hsucc := toNat_succ h.successes fits.successes
      by_cases enough : c.successThreshold ≤ r.successes.toNat + 1 <;>
        simp [after, succeed, breaker, hphase, Breaker.after, Breaker.succeed, hsucc, enough]
  | fail =>
    cases hphase : r.phase with
    | opened | halfOpen => simp [after, fail, breaker, hphase, Breaker.after, Breaker.fail]
    | closed =>
      have hsucc := toNat_succ (h.room hphase) fits.failures
      by_cases enough : c.failureThreshold ≤ r.failures.toNat + 1 <;>
        simp [after, fail, breaker, hphase, Breaker.after, Breaker.fail, hsucc, enough]

theorem acquire_admits (h : r.Sound c) : (r.acquire c now).1 = r.breaker.admits c now :=
  congrArg Prod.fst (acquire_breaker h)

/-- The next outcome that is counted does not make a counter wrap. -/
theorem Sound.no_wrap (h : r.Sound c) (fits : Fits c) :
    (r.phase = .closed → (r.failures + 1).toNat = r.failures.toNat + 1) ∧
      (r.successes + 1).toNat = r.successes.toNat + 1 :=
  ⟨fun hphase => toNat_succ (h.room hphase) fits.failures, toNat_succ h.successes fits.successes⟩

end Registers

end ChainFeed.Breaker

import ChainFeed.Proofs.Policy.Registers
import ChainFeed.Proofs.Run

/-!
# When a breaker lets calls in

The laws of a breaker that is used in any way, at times that do not go back: when it opens, how long it
stays shut, and that it never stays shut for good.
-/

namespace ChainFeed.Breaker

structure Event where
  time : Nat
  use : Use
  deriving DecidableEq, Repr

structure Timed where
  now : Nat
  breaker : Breaker := .initial
  deriving DecidableEq, Repr

namespace Timed

/-- Uses the breaker, but not before its last use. -/
def step? (c : Config) (s : Timed) (e : Event) : Option Timed :=
  if s.now ≤ e.time then some ⟨e.time, s.breaker.after c e.time e.use⟩ else none

def result (c : Config) (p : Timed × Event) : Breaker := p.1.breaker.after c p.2.time p.2.use

theorem step_eq {c : Config} {s t : Timed} {e : Event} (h : step? c s e = some t) :
    s.now ≤ e.time ∧ t = ⟨e.time, result c (s, e)⟩ := by
  unfold step? at h
  split at h
  · next later =>
    cases h
    exact ⟨later, rfl⟩
  · cases h

theorem step_cases {c : Config} {s t : Timed} {e : Event} (h : step? c s e = some t) :
    s.now ≤ e.time ∧ t.now = e.time ∧ Step c e.time s.breaker e.use t.breaker := by
  obtain ⟨later, rfl⟩ := step_eq h
  exact ⟨later, rfl, step_after c e.time s.breaker e.use⟩

def Opens (c : Config) (p : Timed × Event) : Prop :=
  p.1.breaker.phase ≠ .opened ∧ (result c p).phase = .opened

def Admits (c : Config) (p : Timed × Event) : Prop :=
  p.2.use = .acquire ∧ p.1.breaker.admits c p.2.time = true

def StartsTrial (c : Config) (p : Timed × Event) : Prop := Admits c p ∧ (result c p).phase = .halfOpen

/-- The failures in a row: those that were recorded since the breaker was last found not closed, was
told of a success, or was started. -/
def failuresInARow (trail : List (Timed × Event)) : Nat :=
  ((trail.reverse.takeWhile fun p => p.1.breaker.phase == .closed && p.2.use != .succeed).filter
    fun p => p.2.use == .fail).length

theorem failuresInARow_concat (trail : List (Timed × Event)) (p : Timed × Event) :
    failuresInARow (trail ++ [p]) =
      if p.1.breaker.phase = .closed ∧ p.2.use ≠ .succeed then
        failuresInARow trail + if p.2.use = .fail then 1 else 0
      else 0 := by
  simp only [failuresInARow, List.reverse_append, List.reverse_singleton, List.singleton_append,
    List.takeWhile_cons]
  by_cases hrow : p.1.breaker.phase = .closed ∧ p.2.use ≠ .succeed
  · by_cases hfail : p.2.use = .fail <;> simp [hrow, hfail]
  · rw [if_neg hrow, if_neg (by simpa [not_and] using hrow)]
    rfl

variable {c : Config} {first s : Timed} {trail : List (Timed × Event)}

theorem closed_count {start : Nat} (h : Run (step? c) { now := start } trail s) :
    ∀ n, s.breaker = .closed n → n = failuresInARow trail ∧ n < max 1 c.failureThreshold := by
  have hroom : 0 < max 1 c.failureThreshold := Nat.lt_of_lt_of_le Nat.one_pos (Nat.le_max_left _ _)
  refine h.invariant (P := fun trail s => ∀ n, s.breaker = .closed n →
    n = failuresInARow trail ∧ n < max 1 c.failureThreshold) ?_ ?_
  · intro n hn
    cases hn
    exact ⟨rfl, hroom⟩
  · intro trail s e t ih move n hn
    obtain ⟨-, -, step⟩ := step_cases move
    rw [hn] at step
    rw [failuresInARow_concat]
    -- Of all steps only four leave a breaker closed.
    generalize hs : s.breaker = b at step
    generalize hu : e.use = u at step
    cases step with
    | passed n u quiet =>
      obtain ⟨hcount, hfew⟩ := ih n hs
      have hsucceed : u ≠ .succeed := by rintro rfl; cases quiet
      have hfail : u ≠ .fail := by rintro rfl; cases quiet
      simp only [phase, ne_eq, hsucceed, hfail, not_false_eq_true, and_self, if_true, if_false]
      exact ⟨hcount, hfew⟩
    | reset n => simp [hroom]
    | counted n few =>
      obtain ⟨hcount, -⟩ := ih n hs
      simp only [phase, ne_eq, reduceCtorEq, not_false_eq_true, and_self, if_true]
      omega
    | recovered n trial => simp [hroom]

theorem opens_iff {start : Nat} {before : List (Timed × Event)} {p : Timed × Event}
    (h : Run (step? c) { now := start } before p.1) (closed : p.1.breaker.phase = .closed) :
    Opens c p ↔ p.2.use = .fail ∧ failuresInARow before + 1 = max 1 c.failureThreshold := by
  have hphase : p.1.breaker.phase ≠ .opened := by rw [closed]; decide
  have step := step_after c p.2.time p.1.breaker p.2.use
  have hcount := closed_count h
  unfold Opens result
  generalize p.1.breaker.after c p.2.time p.2.use = b' at step
  generalize p.1.breaker = b at closed hphase step hcount
  generalize p.2.use = u at step
  cases step with
  | passed n u quiet =>
    constructor
    · intro hopens
      exact absurd hopens.2 hphase
    · rintro ⟨hfail, -⟩
      rw [hfail] at quiet
      cases quiet
  | reset n => exact ⟨fun hopens => absurd hopens.2 (by simp [phase]), fun hfail => absurd hfail.1 (by decide)⟩
  | counted n few =>
    obtain ⟨hn, hroom⟩ := hcount n rfl
    constructor
    · intro hopens
      exact absurd hopens.2 (by simp [phase])
    · rintro ⟨-, hfull⟩
      omega
  | tripped n enough =>
    obtain ⟨hn, hroom⟩ := hcount n rfl
    exact ⟨fun _ => ⟨rfl, by omega⟩, fun _ => ⟨hphase, rfl⟩⟩
  | barred | thawed | probed | seen | busy | tried | trusted | recovered | reopened => cases closed

theorem blockedSince_le {start : Nat} (h : Run (step? c) { now := start } trail s) :
    ∀ t ∈ s.breaker.blockedSince, t ≤ s.now := by
  refine h.invariant (P := fun _ s => ∀ t ∈ s.breaker.blockedSince, t ≤ s.now) ?_ ?_
  · intro t ht
    cases ht
  · intro trail s e s' ih move t ht
    obtain ⟨hlater, hnow, step⟩ := step_cases move
    rcases step.blockedSince t ht with rfl | hbefore
    · exact Nat.le_of_eq hnow.symm
    · exact hnow ▸ Nat.le_trans (ih t hbefore) hlater

/-- A breaker that has opened stays so until the cool-down is over, whatever it is told. -/
theorem stays_opened {since : Nat} (h : Run (step? c) first trail s)
    (opened : first.breaker = .opened since) :
    s.breaker = .opened since ∨ since + c.openFor ≤ s.now := by
  refine h.invariant (P := fun _ s => s.breaker = .opened since ∨ since + c.openFor ≤ s.now)
    (.inl opened) ?_
  rintro trail s e t (hs | hover) move
  · obtain ⟨-, hnow, step⟩ := step_cases move
    rw [hs] at step
    generalize t.breaker = b at step
    generalize e.use = u at step
    cases step with
    | barred => exact .inl rfl
    | thawed _ due | probed _ due => exact .inr (hnow ▸ due)
  · obtain ⟨hlater, hnow, -⟩ := step_cases move
    exact .inr (Nat.le_trans hover (hnow ▸ hlater))

/-- As long as no outcome is recorded, a trial is followed by later trials only. -/
theorem stays_on_trial {n started : Nat} (h : Run (step? c) first trail s)
    (trial : first.breaker = .halfOpen n (some started)) (dated : started ≤ first.now)
    (silent : ∀ p ∈ trail, p.2.use.isRecord = false) :
    ∃ latest, s.breaker = .halfOpen n (some latest) ∧ started ≤ latest ∧ started ≤ s.now := by
  refine h.invariant_of_forall silent (P := fun s =>
    ∃ latest, s.breaker = .halfOpen n (some latest) ∧ started ≤ latest ∧ started ≤ s.now)
    ⟨started, trial, Nat.le_refl _, dated⟩ ?_
  intro s e t ⟨latest, hs, hlatest, hstarted⟩ hquiet move
  obtain ⟨hlater, hnow, step⟩ := step_cases move
  have hreached : started ≤ t.now := hnow ▸ Nat.le_trans hstarted hlater
  rw [hs] at step
  rcases step.trial_kept (fun hsucceed => by rw [hsucceed] at hquiet; cases hquiet) with
    ⟨next, ht, rfl | rfl⟩ | ⟨hfail, -⟩
  · exact ⟨next, ht, hlatest, hreached⟩
  · exact ⟨e.time, ht, hnow ▸ hreached, hreached⟩
  · rw [hfail] at hquiet
    cases hquiet

theorem Opens.result_eq {p : Timed × Event} (h : Opens c p) : result c p = .opened p.2.time := by
  obtain ⟨hbefore, hafter⟩ := h
  have step := step_after c p.2.time p.1.breaker p.2.use
  unfold result at hafter ⊢
  generalize p.1.breaker.after c p.2.time p.2.use = b' at hafter step
  generalize p.1.breaker = b at hbefore step
  generalize p.2.use = u at step
  cases step with
  | tripped | reopened => rfl
  | barred => exact absurd rfl hbefore
  | passed | reset | counted | thawed | probed | seen | busy | tried | trusted | recovered => cases hafter

end Timed

namespace Registers

def run (c : Config) (events : List Event) : Registers :=
  events.foldl (fun r e => r.after c e.time e.use) {}

theorem run_sound {c : Config} (fits : Fits c) {start : Nat} {trail : List (Timed × Event)} {s : Timed}
    (h : Run (Timed.step? c) { now := start } trail s) :
    (run c (trail.map Prod.snd)).Sound c ∧ (run c (trail.map Prod.snd)).breaker = s.breaker := by
  refine h.invariant (P := fun trail s => (run c (trail.map Prod.snd)).Sound c ∧
    (run c (trail.map Prod.snd)).breaker = s.breaker) ⟨sound_initial c, rfl⟩ ?_
  intro trail s e t ⟨hsound, hbreaker⟩ move
  have hrun : run c ((trail ++ [(s, e)]).map Prod.snd) =
      (run c (trail.map Prod.snd)).after c e.time e.use := by
    simp [run, List.foldl_append]
  obtain ⟨-, rfl⟩ := Timed.step_eq move
  rw [hrun, Timed.result, ← hbreaker]
  exact ⟨hsound.after fits e.use, after_breaker hsound fits e.use⟩

end Registers

namespace Timed

/-- A breaker that is used in any way, at times that do not go back, obeys these laws. It goes from
closed to open at the failure that makes as many in a row as its threshold says, of which none counts
as one. From then until its cool-down is over it admits no call. When nobody has used it for as long as
a cool-down, it admits the next call. Without an outcome between them, two trials start at least a
cool-down apart. Kept in registers, it remembers a trial only while it is half-open and the time of its
opening while it is open, and its counters stay within their thresholds and do not wrap. -/
theorem admission_laws (c : Config) {start : Nat} {trail : List (Timed × Event)} {s : Timed}
    (h : Run (step? c) { now := start } trail s) :
    (∀ before p after, trail = before ++ p :: after → p.1.breaker.phase = .closed →
      (Opens c p ↔ p.2.use = .fail ∧ failuresInARow before + 1 = max 1 c.failureThreshold)) ∧
    (∀ before p between q after, trail = before ++ p :: (between ++ q :: after) → Opens c p →
      q.2.time < p.2.time + c.openFor → ¬ Admits c q) ∧
    (∀ now, s.now + c.openFor ≤ now → s.breaker.admits c now = true) ∧
    (∀ before p between q after, trail = before ++ p :: (between ++ q :: after) → StartsTrial c p →
      Admits c q → (∀ r ∈ between, r.2.use.isRecord = false) → p.2.time + c.openFor ≤ q.2.time) ∧
    (Registers.Fits c →
      let r := Registers.run c (trail.map Prod.snd)
      r.breaker = s.breaker ∧ (∀ now, (r.acquire c now).1 = s.breaker.admits c now) ∧
        (r.trialAt.isSome → r.phase = .halfOpen) ∧ (r.phase = .opened → r.openedAt.isSome) ∧
        r.failures.toNat ≤ max 1 c.failureThreshold ∧ r.successes.toNat ≤ max 1 c.successThreshold ∧
        (r.phase = .closed → (r.failures + 1).toNat = r.failures.toNat + 1) ∧
        (r.successes + 1).toNat = r.successes.toNat + 1) := by
  refine ⟨?_, ?_, ?_, ?_, ?_⟩
  · rintro before p after rfl closed
    exact opens_iff h.cut.1 closed
  · rintro before p between q after rfl opens early ⟨-, hadmits⟩
    obtain ⟨-, next, move, later⟩ := h.cut
    obtain ⟨hbetween, t, hmove, -⟩ := later.cut
    obtain ⟨-, rfl⟩ := step_eq move
    obtain ⟨hlater, -, -⟩ := step_cases hmove
    -- At `q` the breaker is still open, or the time of `q` is past the cool-down.
    rcases stays_opened hbetween opens.result_eq with hopened | hover
    · have hover := admits_iff.mp hadmits p.2.time (by rw [hopened]; rfl)
      omega
    · omega
  · intro now hnow
    refine admits_iff.mpr fun t ht => ?_
    have hdated := blockedSince_le h t ht
    omega
  · rintro before p between q after rfl trial ⟨-, hadmits⟩ silent
    obtain ⟨-, next, move, later⟩ := h.cut
    obtain ⟨-, rfl⟩ := step_eq move
    obtain ⟨⟨huse, hstart⟩, half⟩ := trial
    have hresult : result c p = p.1.breaker.after c p.2.time .acquire := by rw [result, huse]
    obtain ⟨n, htrial⟩ := acquire_trial hstart (hresult ▸ half)
    obtain ⟨latest, hlast, hlatest, -⟩ :=
      stays_on_trial later.cut.1 (hresult.trans htrial) (Nat.le_refl p.2.time) silent
    have hover := admits_iff.mp hadmits latest (by rw [hlast]; rfl)
    omega
  · intro fits
    obtain ⟨hsound, hbreaker⟩ := Registers.run_sound fits h
    obtain ⟨hfailures, hsuccesses⟩ := hsound.no_wrap fits
    exact ⟨hbreaker, fun _ => hbreaker ▸ Registers.acquire_admits hsound, hsound.trial, hsound.opened,
      hsound.failures, Nat.le_of_lt hsound.successes, hfailures, hsuccesses⟩

private def roughDay : List (Timed × Event) :=
  [(⟨0, .closed 0⟩, ⟨0, .fail⟩), (⟨0, .closed 1⟩, ⟨5, .fail⟩), (⟨5, .opened 5⟩, ⟨24, .acquire⟩),
    (⟨24, .opened 5⟩, ⟨24, .succeed⟩), (⟨24, .opened 5⟩, ⟨25, .acquire⟩),
    (⟨25, .halfOpen 0 (some 25)⟩, ⟨30, .observe⟩), (⟨30, .halfOpen 0 (some 25)⟩, ⟨45, .acquire⟩),
    (⟨45, .halfOpen 0 (some 45)⟩, ⟨46, .succeed⟩), (⟨46, .halfOpen 1 none⟩, ⟨47, .fail⟩)]

theorem rough_day_obeys_admission_laws :
    let c : Config := { failureThreshold := 2, openFor := 20, successThreshold := 2 }
    Run (step? c) { now := 0 } roughDay ⟨47, .opened 47⟩ ∧
      Opens c (⟨0, .closed 1⟩, ⟨5, .fail⟩) ∧ ¬ Admits c (⟨24, .opened 5⟩, ⟨24, .acquire⟩) ∧
      (Breaker.opened 47).admits c 67 = true ∧ Registers.Fits c ∧
      Registers.run c (roughDay.map Prod.snd) = ⟨.opened, 2, 0, some 47, none⟩ ∧
      (Registers.run c (roughDay.map Prod.snd)).breaker = .opened 47 := by
  intro c
  have hreplay : replay? (step? c) { now := 0 } (roughDay.map Prod.snd) =
      some (roughDay, ⟨47, .opened 47⟩) := by decide
  have hrun := Run.of_replay hreplay
  have fits : Registers.Fits c := ⟨by decide, by decide⟩
  obtain ⟨hopens, hshut, hfree, -, hkept⟩ := admission_laws c hrun
  have hfailed : Opens c (⟨0, .closed 1⟩, ⟨5, .fail⟩) :=
    (hopens (roughDay.take 1) _ (roughDay.drop 2) rfl rfl).mpr ⟨rfl, by decide⟩
  have hbarred := hshut (roughDay.take 1) _ [] (⟨5, .opened 5⟩, ⟨24, .acquire⟩) (roughDay.drop 3) rfl
    hfailed (by decide)
  exact ⟨hrun, hfailed, hbarred, hfree 67 (by decide), fits, by decide, (hkept fits).1⟩

end Timed

end ChainFeed.Breaker

import ChainFeed.Proofs.Keyed
import ChainFeed.Proofs.Policy.Uses
import ChainFeed.Proofs.Run

/-!
# Callers of a breaker

Calls that share a breaker overlap: each asks for admission and, if it is admitted, tells of its outcome
once, sooner or later. A breaker does not know which call an outcome belongs to, so that while it is
half-open the outcome of any call counts like that of a trial.
-/

namespace ChainFeed.Breaker

structure Caller where
  /-- Which call it is, of those that asked. -/
  number : Nat
  /-- The half-open spell as a trial of which it was admitted, if it was. -/
  trialOf : Option Nat := none
  deriving DecidableEq, Repr

structure Traffic where
  now : Nat := 0
  breaker : Breaker := .initial
  /-- How often the breaker has become half-open. -/
  spells : Nat := 0
  asked : Nat := 0
  callers : List Caller := []
  deriving DecidableEq, Repr

namespace Traffic

inductive Move where
  | pass (ms : Nat)
  | look
  | ask
  | report (number : Nat) (ok : Bool)
  deriving DecidableEq, Repr

def use (c : Config) (s : Traffic) (u : Use) : Traffic :=
  let b := s.breaker.after c s.now u
  { s with
    breaker := b
    spells := s.spells + if s.breaker.phase ≠ .halfOpen ∧ b.phase = .halfOpen then 1 else 0 }

def newcomer (c : Config) (s : Traffic) : Caller :=
  let t := s.use c .acquire
  { number := s.asked, trialOf := if t.breaker.phase = .halfOpen then some t.spells else none }

/-- A move, if it is possible. A call tells of its outcome once. -/
def step? (c : Config) (s : Traffic) : Move → Option Traffic
  | .pass ms => some { s with now := s.now + ms }
  | .look => some (s.use c .observe)
  | .ask =>
    some { s.use c .acquire with
      asked := s.asked + 1
      callers := s.callers ++ if s.breaker.admits c s.now then [s.newcomer c] else [] }
  | .report number ok =>
    if s.callers.any (·.number == number) then
      some { s.use c (.ofOutcome ok) with callers := s.callers.filter (·.number != number) }
    else none

def succeeding : Traffic × Move → List Caller
  | (s, .report number true) => s.callers.filter (·.number == number)
  | _ => []

/-- The calls that have told of a success since the breaker became half-open for the `k`-th time. -/
def successes (k : Nat) (trail : List (Traffic × Move)) : List Caller :=
  (trail.filter (·.1.spells == k)).flatMap succeeding

/-- The move admits a trial to the `k`-th half-open spell. -/
def StartsTrial (c : Config) (k : Nat) (p : Traffic × Move) : Prop :=
  p.2 = .ask ∧ p.1.breaker.admits c p.1.now = true ∧ (p.1.newcomer c).trialOf = some k

instance (c : Config) (k : Nat) (p : Traffic × Move) : Decidable (StartsTrial c k p) :=
  inferInstanceAs (Decidable (_ ∧ _ ∧ _))

inductive Step (c : Config) (s : Traffic) : Move → Traffic → Prop
  | pass (ms : Nat) : Step c s (.pass ms) { s with now := s.now + ms }
  | look : Step c s .look (s.use c .observe)
  | admitted (admits : s.breaker.admits c s.now = true) :
      Step c s .ask { s.use c .acquire with
        asked := s.asked + 1
        callers := s.callers ++ [s.newcomer c] }
  | refused (barred : s.breaker.admits c s.now = false) :
      Step c s .ask { s.use c .acquire with asked := s.asked + 1 }
  | told (x : Caller) (under : x ∈ s.callers) (ok : Bool) :
      Step c s (.report x.number ok) { s.use c (.ofOutcome ok) with
        callers := s.callers.filter (·.number != x.number) }

theorem Step.of_step? {c : Config} {s t : Traffic} {m : Move} (h : s.step? c m = some t) :
    Step c s m t := by
  cases m with
  | pass ms =>
    cases h
    exact .pass ms
  | look =>
    cases h
    exact .look
  | ask =>
    cases hadmits : s.breaker.admits c s.now with
    | true =>
      simp only [step?, hadmits, if_true, Option.some.injEq] at h
      exact h ▸ .admitted hadmits
    | false =>
      simp only [step?, hadmits, Bool.false_eq_true, if_false, List.append_nil, Option.some.injEq] at h
      exact h ▸ .refused hadmits
  | report number ok =>
    simp only [step?] at h
    split at h
    · next hany =>
      obtain ⟨x, hx, hnumber⟩ := List.any_eq_true.mp hany
      obtain rfl := eq_of_beq hnumber
      cases h
      exact .told x hx ok
    · cases h

theorem successes_concat (k : Nat) (trail : List (Traffic × Move)) (p : Traffic × Move) :
    successes k (trail ++ [p]) = successes k trail ++ if p.1.spells = k then succeeding p else [] := by
  by_cases hspell : p.1.spells = k <;> simp [successes, List.filter_append, hspell]

structure Counted (c : Config) (trail : List (Traffic × Move)) (s : Traffic) : Prop where
  distinct : (s.callers.map (·.number)).Nodup
  asked : ∀ x ∈ s.callers, x.number < s.asked
  past : ∀ p ∈ trail, p.1.spells ≤ s.spells
  count : ∀ n trial, s.breaker = .halfOpen n trial →
    n = (successes s.spells trail).length ∧ n < max 1 c.successThreshold

variable {c : Config} {s t : Traffic} {trail : List (Traffic × Move)} {m : Move}

theorem use_spells (c : Config) (s : Traffic) (u : Use) : s.spells ≤ (s.use c u).spells :=
  Nat.le_add_right _ _

private theorem Counted.past_concat (h : Counted c trail s) (later : s.spells ≤ t.spells) :
    ∀ p ∈ trail ++ [(s, m)], p.1.spells ≤ t.spells := by
  intro p hp
  rcases List.mem_append.mp hp with hp | hp
  · exact Nat.le_trans (h.past p hp) later
  · rw [List.mem_singleton.mp hp]
    exact later

private theorem Counted.count_use (h : Counted c trail s) {u : Use}
    (told : (succeeding (s, m)).length = if u = .succeed then 1 else 0) :
    ∀ n trial, (s.use c u).breaker = .halfOpen n trial →
      n = (successes (s.use c u).spells (trail ++ [(s, m)])).length ∧ n < max 1 c.successThreshold := by
  intro n trial half
  have step := step_after c s.now s.breaker u
  rw [show s.breaker.after c s.now u = .halfOpen n trial from half] at step
  have hphase : (s.breaker.after c s.now u).phase = .halfOpen := by
    rw [show s.breaker.after c s.now u = .halfOpen n trial from half, phase]
  rcases step.halfOpen_count with ⟨hbefore, rfl⟩ | ⟨k, old, hbefore, hn, hroom⟩
  -- The breaker has just become half-open, and nothing has been told since.
  · have hspells : (s.use c u).spells = s.spells + 1 := by simp [use, hbefore, hphase]
    have hnone : successes (s.spells + 1) (trail ++ [(s, m)]) = [] := by
      rw [successes, List.filter_eq_nil_iff.mpr, List.flatMap_nil]
      intro p hp hspell
      have hpast := h.past_concat (t := s) (m := m) (Nat.le_refl _) p hp
      have hspell := eq_of_beq hspell
      omega
    rw [hspells, hnone]
    exact ⟨rfl, Nat.lt_of_lt_of_le Nat.one_pos (Nat.le_max_left _ _)⟩
  · have hspells : (s.use c u).spells = s.spells := by simp [use, hbefore, phase]
    obtain ⟨hk, hfew⟩ := h.count k old hbefore
    rw [hspells, successes_concat, if_pos rfl, List.length_append, told, ← hk]
    exact ⟨hn, hroom hfew⟩

theorem Counted.step (h : Counted c trail s) (move : s.step? c m = some t) :
    Counted c (trail ++ [(s, m)]) t := by
  cases Step.of_step? move with
  | pass ms =>
    refine ⟨h.distinct, h.asked, h.past_concat (Nat.le_refl _), fun n trial half => ?_⟩
    have hnone : succeeding (s, .pass ms) = [] := rfl
    rw [successes_concat, if_pos rfl, hnone, List.append_nil]
    exact h.count n trial half
  | look =>
    exact ⟨h.distinct, h.asked, h.past_concat (use_spells c s _), h.count_use rfl⟩
  | admitted =>
    refine ⟨?_, ?_, h.past_concat (use_spells c s _), h.count_use (u := .acquire) rfl⟩
    · rw [List.map_append, List.nodup_append]
      refine ⟨h.distinct, List.nodup_singleton _, fun i hi j hj => ?_⟩
      obtain ⟨x, hx, rfl⟩ := List.mem_map.mp hi
      rw [List.mem_singleton.mp hj]
      exact Nat.ne_of_lt (h.asked x hx)
    · intro x hx
      rcases List.mem_append.mp hx with hx | hx
      · exact Nat.lt_succ_of_lt (h.asked x hx)
      · rw [List.mem_singleton.mp hx]
        exact Nat.lt_succ_self _
  | refused =>
    exact ⟨h.distinct, fun x hx => Nat.lt_succ_of_lt (h.asked x hx), h.past_concat (use_spells c s _),
      h.count_use (u := .acquire) rfl⟩
  | told x under ok =>
    refine ⟨h.distinct.sublist (List.filter_sublist.map _), ?_, h.past_concat (use_spells c s _),
      h.count_use (u := .ofOutcome ok) ?_⟩
    · exact fun y hy => h.asked y (List.mem_of_mem_filter hy)
    · cases ok with
      | false => rfl
      | true =>
        rw [succeeding, filter_key_eq h.distinct under]
        rfl

theorem counted (h : Run (step? c) {} trail s) : Counted c trail s := by
  refine h.invariant ⟨List.nodup_nil, by simp, by simp, fun n trial half => ?_⟩
    fun trail s m t hs move => hs.step move
  cases half

/-- The trial that was admitted to the `k`-th spell at time `start`, or a later one, is under way,
unless that spell is over. -/
def Trying (k start : Nat) (s : Traffic) : Prop :=
  start ≤ s.now ∧ (k < s.spells ∨ s.spells = k ∧ (s.breaker.phase ≠ .halfOpen ∨
    ∃ n latest, s.breaker = .halfOpen n (some latest) ∧ start ≤ latest))

private theorem Trying.use {k start : Nat} (h : Trying k start s) {u : Use} (unsettled : u ≠ .succeed) :
    Trying k start (s.use c u) := by
  obtain ⟨hnow, hover | ⟨hspell, hphase | ⟨n, latest, hbreaker, hlatest⟩⟩⟩ := h
  · exact ⟨hnow, .inl (Nat.lt_of_lt_of_le hover (use_spells c s u))⟩
  -- The spell has ended, so a breaker that is half-open again begins the next one.
  · refine ⟨hnow, ?_⟩
    by_cases half : (s.breaker.after c s.now u).phase = .halfOpen
    · exact .inl (by simp [Traffic.use, hphase, half, hspell])
    · exact .inr ⟨by simp [Traffic.use, half, hspell], .inl half⟩
  · refine ⟨hnow, .inr ⟨by simp [Traffic.use, hbreaker, phase, hspell], ?_⟩⟩
    have step := step_after c s.now s.breaker u
    nth_rewrite 1 [hbreaker] at step
    rcases step.trial_kept unsettled with ⟨next, hnext, rfl | rfl⟩ | ⟨-, hopened⟩
    · exact .inr ⟨n, next, hnext, hlatest⟩
    · exact .inr ⟨n, s.now, hnext, hnow⟩
    · exact .inl fun half => by
        rw [show (s.use c u).breaker.phase = .opened from hopened] at half
        cases half

private theorem Trying.step {k start : Nat} (h : Trying k start s) (move : s.step? c m = some t)
    (silent : succeeding (s, m) = []) : Trying k start t := by
  cases Step.of_step? move with
  | pass ms => exact ⟨Nat.le_trans h.1 (Nat.le_add_right _ _), h.2⟩
  | look | admitted | refused => exact h.use (by simp)
  | told x under ok =>
    cases ok with
    | false => exact h.use (by simp [Use.ofOutcome])
    | true =>
      have hmem : x ∈ s.callers.filter (·.number == x.number) :=
        List.mem_filter.mpr ⟨under, beq_self_eq_true x.number⟩
      rw [show s.callers.filter (·.number == x.number) = [] from silent] at hmem
      cases hmem

private theorem trying {first : Traffic} {k start : Nat} (h : Run (step? c) first trail s)
    (trial : Trying k start first) (silent : ∀ p ∈ trail, succeeding p = []) : Trying k start s :=
  h.invariant_of_forall silent trial fun _ _ _ ih hsilent move => ih.step move hsilent

private theorem trialOf_newcomer {k : Nat} (h : (s.newcomer c).trialOf = some k) :
    (s.breaker.after c s.now .acquire).phase = .halfOpen ∧ (s.use c .acquire).spells = k := by
  unfold newcomer at h
  dsimp only at h
  split at h
  · next half => exact ⟨half, Option.some.inj h⟩
  · cases h

private theorem StartsTrial.trying {k : Nat} {p : Traffic × Move} (h : StartsTrial c k p)
    (move : p.1.step? c p.2 = some t) : Trying k p.1.now t := by
  obtain ⟨hask, hadmits, htrial⟩ := h
  obtain ⟨half, hspells⟩ := trialOf_newcomer htrial
  obtain ⟨n, hbreaker⟩ := acquire_trial hadmits half
  rw [hask] at move
  cases move
  exact ⟨Nat.le_refl _, .inr ⟨hspells, .inr ⟨n, p.1.now, hbreaker, Nat.le_refl _⟩⟩⟩

/-- While a trial is under way there is no other one in its spell before a cool-down is over. -/
private theorem Trying.next_trial {k start : Nat} {q : Traffic × Move} (h : Trying k start q.1)
    (trial : StartsTrial c k q) : start + c.openFor ≤ q.1.now := by
  obtain ⟨-, hadmits, htrial⟩ := trial
  obtain ⟨half, hspells⟩ := trialOf_newcomer htrial
  have hbefore := use_spells c q.1 .acquire
  obtain ⟨-, hover | ⟨hspell, hphase | ⟨n, latest, hbreaker, hlatest⟩⟩⟩ := h
  · omega
  · simp only [Traffic.use, hphase, half, ne_eq, not_false_eq_true, and_self, if_true] at hspells
    omega
  · have hover := admits_iff.mp hadmits latest (by rw [hbreaker]; rfl)
    omega

/-- A half-open breaker closes when calls have told of as many successes since it became half-open as its
threshold says, of which none counts as one; any calls, trials or not. A trial that starts less than a
cool-down after another one of its spell follows on the success of some call in between. -/
theorem closes_after_successes (c : Config) (h : Run (step? c) {} trail s) :
    (∀ before p after t, trail = before ++ p :: after → p.1.step? c p.2 = some t →
      p.1.breaker.phase = .halfOpen → t.breaker.phase = .closed →
      ∃ x ∈ p.1.callers, p.2 = .report x.number true ∧
        (successes p.1.spells before).length + 1 = max 1 c.successThreshold) ∧
    (∀ before p between q after k, trail = before ++ p :: (between ++ q :: after) → StartsTrial c k p →
      StartsTrial c k q → q.1.now < p.1.now + c.openFor →
      ∃ r ∈ between, ∃ x ∈ r.1.callers, r.2 = .report x.number true) := by
  constructor
  · rintro before p after t rfl move half closes
    have hcount := (counted h.cut.1).count
    have closing : ∀ u, (p.1.use c u).breaker.phase = .closed →
        u = .succeed ∧ (successes p.1.spells before).length + 1 = max 1 c.successThreshold := by
      intro u hclosed
      obtain ⟨hsucceed, n, trial, hbreaker, enough⟩ :=
        (step_after c p.1.now p.1.breaker u).recovered_of_closes half hclosed
      obtain ⟨hn, hfew⟩ := hcount n trial hbreaker
      exact ⟨hsucceed, by omega⟩
    generalize p.2 = m at move
    cases Step.of_step? move with
    | pass ms => exact absurd (half.symm.trans closes) (by decide)
    | look => exact absurd (closing .observe closes).1 (by decide)
    | admitted | refused => exact absurd (closing .acquire closes).1 (by decide)
    | told x under ok =>
      obtain ⟨hsucceed, henough⟩ := closing _ closes
      cases ok with
      | false => cases hsucceed
      | true => exact ⟨x, under, rfl, henough⟩
  · rintro before p between q after k rfl first second early
    obtain ⟨-, next, move, later⟩ := h.cut
    by_contra hnone
    have silent : ∀ r ∈ between, succeeding r = [] := by
      rintro ⟨s', m⟩ hr
      cases m with
      | pass | look | ask => rfl
      | report number ok =>
        cases ok with
        | false => rfl
        | true =>
          refine List.filter_eq_nil_iff.mpr fun x hx hnumber => hnone ⟨_, hr, x, hx, ?_⟩
          rw [eq_of_beq hnumber]
    -- Nobody has told of a success, so the first trial keeps its slot for as long as a cool-down.
    have hover := (trying later.cut.1 (first.trying move) silent).next_trial second
    omega

private def overlapping : Config := { failureThreshold := 1, openFor := 20, successThreshold := 2 }

private def strays : List (Traffic × Move) :=
  [(⟨0, .closed 0, 0, 0, []⟩, .ask), (⟨0, .closed 0, 0, 1, [⟨0, none⟩]⟩, .ask),
    (⟨0, .closed 0, 0, 2, [⟨0, none⟩, ⟨1, none⟩]⟩, .ask),
    (⟨0, .closed 0, 0, 3, [⟨0, none⟩, ⟨1, none⟩, ⟨2, none⟩]⟩, .report 2 false),
    (⟨0, .opened 0, 0, 3, [⟨0, none⟩, ⟨1, none⟩]⟩, .pass 20),
    (⟨20, .opened 0, 0, 3, [⟨0, none⟩, ⟨1, none⟩]⟩, .ask),
    (⟨20, .halfOpen 0 (some 20), 1, 4, [⟨0, none⟩, ⟨1, none⟩, ⟨3, some 1⟩]⟩, .report 0 true),
    (⟨20, .halfOpen 1 none, 1, 4, [⟨1, none⟩, ⟨3, some 1⟩]⟩, .ask),
    (⟨20, .halfOpen 1 (some 20), 1, 5, [⟨1, none⟩, ⟨3, some 1⟩, ⟨4, some 1⟩]⟩, .report 1 true)]

private theorem strays_run :
    Run (step? overlapping) {} strays ⟨20, .closed 0, 1, 5, [⟨3, some 1⟩, ⟨4, some 1⟩]⟩ := by
  have hreplay : replay? (step? overlapping) {} (strays.map Prod.snd) =
      some (strays, ⟨20, .closed 0, 1, 5, [⟨3, some 1⟩, ⟨4, some 1⟩]⟩) := by decide
  exact Run.of_replay hreplay

theorem strays_close_after_successes :
    ∃ s, Run (step? overlapping) {} strays s ∧ s.breaker = .closed 0 ∧
      (successes 1 (strays.take 8)).length + 1 = max 1 overlapping.successThreshold ∧
      ∃ r ∈ (strays.drop 6).take 1, ∃ x ∈ r.1.callers, r.2 = .report x.number true := by
  obtain ⟨hcloses, hfollows⟩ := closes_after_successes overlapping strays_run
  obtain ⟨x, -, -, henough⟩ := hcloses (strays.take 8) _ [] _ rfl rfl rfl rfl
  exact ⟨_, strays_run, rfl, henough,
    hfollows (strays.take 5) _ ((strays.drop 6).take 1) _ (strays.drop 8) 1 rfl (by decide) (by decide)
      (by decide)⟩

/-- A half-open breaker closes only after enough trials of its spell have succeeded. -/
def ClosesByTrials (c : Config) (trail : List (Traffic × Move)) : Prop :=
  ∀ before p after t, trail = before ++ p :: after → p.1.step? c p.2 = some t →
    p.1.breaker.phase = .halfOpen → t.breaker.phase = .closed →
    c.successThreshold ≤
      ((successes p.1.spells before ++ succeeding p).filter (·.trialOf == some p.1.spells)).length

/-- A trial that starts less than a cool-down after another one of its spell follows on the outcome of
that one. -/
def KeepsTrialsApart (c : Config) (trail : List (Traffic × Move)) : Prop :=
  ∀ before p between q after k, trail = before ++ p :: (between ++ q :: after) → StartsTrial c k p →
    StartsTrial c k q → q.1.now < p.1.now + c.openFor →
    ∃ r ∈ between, ∃ ok, r.2 = .report p.1.asked ok

/-- Calls that were admitted while the breaker was closed can free the slot of a trial and close the
breaker, although no trial has told of anything. -/
theorem stray_successes_count :
    ∃ c trail s, 0 < c.openFor ∧ Run (step? c) {} trail s ∧ ¬ ClosesByTrials c trail ∧
      ¬ KeepsTrialsApart c trail := by
  refine ⟨overlapping, strays, _, by decide, strays_run, fun hcloses => ?_, fun hapart => ?_⟩
  · exact absurd (hcloses (strays.take 8) _ [] _ rfl rfl rfl rfl) (by decide)
  · obtain ⟨r, hr, ok, hreport⟩ := hapart (strays.take 5) _ ((strays.drop 6).take 1) _ (strays.drop 8) 1
      rfl (by decide) (by decide) (by decide)
    rw [List.mem_singleton.mp hr] at hreport
    cases hreport

end Traffic
end ChainFeed.Breaker

import ChainFeed.Proofs.Chain.Calls

/-!
# Refused calls

A guard refuses a round when its breaker keeps calls out or its bucket is empty, and a call returns the
outcome of its last round. A refusal speaks of that round alone: in the rounds before it the call may have
been made, and have failed in a way that may pass.
-/

namespace ChainFeed

open Rehearsal (Finding)
open Rpc (TransportError)

variable {σ β : Type}

/-- Never says itself what a guard says: that a breaker is open, or that a bucket is empty. -/
def Repository.Unguarded (inner : Repository (StateM σ)) : Prop :=
  ∀ (op : Operation) s chain, (op.perform inner s).1 ≠ .error (.circuitOpen chain) ∧
    (op.perform inner s).1 ≠ .error (.rateLimited chain)

namespace GuardPost

namespace Round

def made? : Round β → Option (Except RepositoryError β)
  | .made _ _ _ outcome _ => some outcome
  | .barred _ | .dry _ _ | .unadmitted _ _ _ => none

def isDry : Round β → Bool
  | .dry _ _ => true
  | .barred _ | .unadmitted _ _ _ | .made _ _ _ _ _ => false

def isShut : Round β → Bool
  | .barred _ | .unadmitted _ _ _ => true
  | .dry _ _ | .made _ _ _ _ _ => false

theorem filterMap_invocation? (chain method : String) (r : Round β) :
    (r.deeds chain method).filterMap Deed.invocation? = r.made?.toList := by
  cases r <;> rfl

theorem made?_of_isDry (r : Round β) (h : r.isDry = true) : r.made? = none := by
  cases r with
  | dry => rfl
  | barred | unadmitted | made => cases h

theorem made?_of_isShut (r : Round β) (h : r.isShut = true) : r.made? = none := by
  cases r with
  | barred | unadmitted => rfl
  | dry | made => cases h

theorem isDry_or_made {r : Round β} {chain : String} {e : RepositoryError} (outcome : r.outcome chain = .error e)
    (transient : e.Transient) : r.isDry = true ∨ r.made? = some (.error e) := by
  cases r with
  | barred | unadmitted =>
    cases outcome
    cases transient
  | dry => exact .inl rfl
  | made => exact .inr (congrArg some outcome)

section

variable {r : Round β} {chain : String}

theorem outcome_circuitOpen_iff (own : r.made? ≠ some (.error (.circuitOpen chain))) :
    r.outcome chain = .error (.circuitOpen chain) ↔ r.isShut = true := by
  cases r with
  | barred | unadmitted => exact ⟨fun _ => rfl, fun _ => rfl⟩
  | dry => exact ⟨nofun, nofun⟩
  | made => exact ⟨fun h => absurd (congrArg some h) own, nofun⟩

theorem outcome_rateLimited_iff (own : r.made? ≠ some (.error (.rateLimited chain))) :
    r.outcome chain = .error (.rateLimited chain) ↔ r.isDry = true := by
  cases r with
  | dry => exact ⟨fun _ => rfl, fun _ => rfl⟩
  | barred | unadmitted => exact ⟨nofun, nofun⟩
  | made => exact ⟨fun h => absurd (congrArg some h) own, nofun⟩

end

end Round

/-- The outcomes that a call writes down are those of the rounds in which it was made. -/
theorem trail_invocations (c : Resilience) (chain method : String) (attempt : Nat) (rounds : List (Round β)) :
    (trail c chain method attempt rounds).filterMap Deed.invocation? = rounds.filterMap Round.made? := by
  induction rounds generalizing attempt with
  | nil => rfl
  | cons r rounds ih =>
    have hround := r.filterMap_invocation? chain method
    cases rounds with
    | nil =>
      rw [trail, hround]
      cases hmade : r.made? <;> simp [hmade]
    | cons next rounds =>
      rw [trail, List.filterMap_append, hround, List.filterMap_cons_none rfl, ih]
      cases hmade : r.made? <;> simp [List.filterMap_cons, hmade]

/-- An outcome that is written down is one of these. -/
def Deed.IsFrom (answers : Except RepositoryError β → Prop) : Deed β → Prop
  | .invoked outcome => answers outcome
  | .read _ | .used _ _ | .counted _ | .slept _ => True

section

variable [Clock (StateM σ)] {answers : Except RepositoryError β → Prop} (c : Resilience) (w : Surroundings σ)
  (chain method : String)

theorem only_on {α : Type} (f : Nat → Guard → α × Guard) :
    Journal.Only (Deed.IsFrom answers) ((watched c w).on chain f) := by
  refine (Journal.only_watch fun _ => trivial).bind fun now s d hd => ?_
  rw [List.mem_singleton.mp hd]
  trivial

variable {α : Type} {call : Journal (Deed β) σ (Except RepositoryError α)}

theorem only_round (own : call.Only (Deed.IsFrom answers)) :
    Journal.Only (Deed.IsFrom answers) ((watched c w).round chain method call) := by
  refine (only_on c w chain _).bind fun phase => ?_
  split
  · exact Journal.only_pure _
  refine (only_on c w chain _).bind fun given => ?_
  split
  · exact Journal.only_pure _
  refine (only_on c w chain _).bind fun admitted => ?_
  split
  · exact Journal.only_pure _
  have hcount : ∀ m, Journal.Only (Deed.IsFrom answers) ((watched c w).count m) := by
    intro m
    rw [watched_count]
    exact Journal.only_watch fun _ => trivial
  refine own.bind fun result => (only_on c w chain _).bind fun _ => ?_
  exact (hcount _).bind fun _ => Journal.only_pure _

theorem only_repeatFrom (retry : Retry) (own : call.Only (Deed.IsFrom answers)) (left attempt : Nat) :
    Journal.Only (Deed.IsFrom answers)
      (retry.repeatFrom RepositoryError.isRetryable ((watched c w).round chain method call) left attempt) := by
  induction left generalizing attempt with
  | zero => exact only_round c w chain method own
  | succ left ih =>
    refine (only_round c w chain method own).bind fun result => ?_
    cases result with
    | ok value => exact Journal.only_pure _
    | error e =>
      dsimp only
      split
      · have hsleep : Journal.Only (Deed.IsFrom answers)
            (Clock.sleep (retry.delay attempt) : Journal (Deed β) σ PUnit) :=
          Journal.only_watch fun _ => trivial
        exact hsleep.bind fun _ => ih (attempt + 1)
      · exact Journal.only_pure _

end

/-- Every outcome that a guarded operation writes down is one that the repository behind it gives. -/
theorem only_perform [Clock (StateM σ)] (c : Resilience) (w : Surroundings σ) (inner : Repository (StateM σ))
    (op : Operation) :
    Journal.Only (Deed.IsFrom fun outcome => ∃ s, outcome = (op.perform inner s).1)
      (op.perform ((watched c w).repository (invoked inner))) := by
  have hinvoking : ∀ {α : Type} (form : α → Finding) (x : StateM σ (Except RepositoryError α)),
      (∀ s, (op.perform inner s).1 = (x s).1.map form) →
        Journal.Only (Deed.IsFrom fun outcome => ∃ s, outcome = (op.perform inner s).1) (invoking form x) :=
    fun form x h => Journal.only_watch fun s => ⟨s, (h s).symm⟩
  cases op with
  | height | blocks | block | logs | receipts =>
    refine Journal.Only.bind (only_repeatFrom c w _ _ _ ?_ _ _) fun _ => Journal.only_pure _
    exact hinvoking _ _ fun _ => rfl

/-- What comes of an operation of a guarded repository, with all that is written down of it. -/
def performed [Clock (StateM σ)] (c : Resilience) (w : Surroundings σ) (inner : Repository (StateM σ))
    (op : Operation) (s : σ) : Journal.Page (Deed Finding) σ (Except RepositoryError Finding) :=
  (op.perform ((watched c w).repository (invoked inner))).run s

theorem performed_account [Clock (StateM σ)] (c : Resilience) (w : Surroundings σ)
    (inner : Repository (StateM σ)) (op : Operation) (s : σ) :
    ∃ rounds, Account c op.chain op.method c.attempts 1 (performed c w inner op s).deeds
      (performed c w inner op s).result rounds :=
  perform_account c w inner op s

theorem made?_ne_refusal [Clock (StateM σ)] {c : Resilience} {w : Surroundings σ}
    {inner : Repository (StateM σ)} (unguarded : inner.Unguarded) {op : Operation} {s : σ}
    {rounds : List (Round Finding)}
    (deeds : (performed c w inner op s).deeds = trail c op.chain op.method 1 rounds) {r : Round Finding}
    (hr : r ∈ rounds) (chain : String) :
    r.made? ≠ some (.error (.circuitOpen chain)) ∧ r.made? ≠ some (.error (.rateLimited chain)) := by
  have hfrom : ∀ outcome, r.made? = some outcome → ∃ s', outcome = (op.perform inner s').1 := by
    intro outcome hmade
    have hinvoked : outcome ∈ (trail c op.chain op.method 1 rounds).filterMap Deed.invocation? := by
      rw [trail_invocations]
      exact List.mem_filterMap.mpr ⟨r, hr, hmade⟩
    rw [← deeds] at hinvoked
    obtain ⟨d, hd, houtcome⟩ := List.mem_filterMap.mp hinvoked
    have hgiven := only_perform c w inner op s d hd
    cases d with
    | invoked =>
      cases houtcome
      exact hgiven
    | read | used | counted | slept => cases houtcome
  constructor
  · intro hmade
    obtain ⟨s', hs'⟩ := hfrom _ hmade
    exact (unguarded op s' chain).1 hs'.symm
  · intro hmade
    obtain ⟨s', hs'⟩ := hfrom _ hmade
    exact (unguarded op s' chain).2 hs'.symm

theorem Account.isDry_or_failed {c : Resilience} {chain method : String} {left attempt : Nat}
    {deeds : List (Deed β)} {result : Except RepositoryError β} {rounds : List (Round β)}
    (account : Account c chain method left attempt deeds result rounds)
    (own : ∀ r ∈ rounds, ∀ chain, r.made? ≠ some (.error (.rateLimited chain))) :
    ∀ r ∈ rounds.dropLast, r.isDry = true ∨
      ∃ e : TransportError, r.made? = some (.error (.transport e)) ∧ e.isRetryable = true := by
  intro r hr
  obtain ⟨e, houtcome, htransient⟩ := account.repeated r hr
  refine (Round.isDry_or_made houtcome htransient).imp_right fun hmade => ?_
  cases htransient with
  | refused chain => exact absurd hmade (own r (List.dropLast_subset rounds hr) chain)
  | http message | timeout ms | throttled provider => exact ⟨_, hmade, rfl⟩

/-- A call that returns that the breaker is open, or that the bucket is empty, says so of its last round
only. Each round before it was dry too, or the call was made in it and failed in a way that may pass; so
the call was not made at all just if all these rounds were dry. -/
theorem refused_calls [Clock (StateM σ)] (c : Resilience) (w : Surroundings σ) (inner : Repository (StateM σ))
    (unguarded : inner.Unguarded) (op : Operation) (s : σ) :
    let page := performed c w inner op s
    let invocations := page.deeds.filterMap Deed.invocation?
    ∃ rounds : List (Round Finding),
      page.deeds = trail c op.chain op.method 1 rounds ∧ (∀ r ∈ rounds, r.Lawful c op.chain) ∧
      (page.result = .error (.circuitOpen op.chain) ↔ ∃ r, rounds.getLast? = some r ∧ r.isShut = true) ∧
      (page.result = .error (.rateLimited op.chain) ↔ ∃ r, rounds.getLast? = some r ∧ r.isDry = true) ∧
      (page.result = .error (.rateLimited op.chain) → rounds.length = c.attempts + 1) ∧
      (page.result = .error (.circuitOpen op.chain) ∨ page.result = .error (.rateLimited op.chain) →
        invocations.length < rounds.length ∧
        (∀ o ∈ invocations, ∃ e : TransportError, o = .error (.transport e) ∧ e.isRetryable = true) ∧
        (invocations = [] ↔ ∀ r ∈ rounds.dropLast, r.isDry = true)) := by
  intro page invocations
  obtain ⟨rounds, haccount⟩ := performed_account c w inner op s
  obtain ⟨last, hlast, hresult⟩ := haccount.last
  have hown := fun r hr => made?_ne_refusal unguarded haccount.deeds_eq (r := r) hr
  have hearlier := haccount.isDry_or_failed fun r hr chain => (hown r hr chain).2
  have hthrottled := fun h : page.result = .error (.rateLimited op.chain) =>
    haccount.exhausted _ h (.refused op.chain)
  have hinvocations : invocations = rounds.filterMap Round.made? := by
    rw [← trail_invocations c op.chain op.method 1 rounds, ← haccount.deeds_eq]
  have hmem : last ∈ rounds := List.mem_of_getLast? hlast
  have hshut := Round.outcome_circuitOpen_iff (hown last hmem op.chain).1
  have hdry := Round.outcome_rateLimited_iff (hown last hmem op.chain).2
  rw [← hresult] at hshut hdry
  refine ⟨rounds, haccount.deeds_eq, haccount.lawful, ?_, ?_, hthrottled, fun refused => ?_⟩
  · rw [hshut, hlast]
    simp
  · rw [hdry, hlast]
    simp
  -- The call was not made in the last round, so wherever it was made there is a round to come.
  have hunmade : last.made? = none := by
    rcases refused with h | h
    · exact last.made?_of_isShut (hshut.mp h)
    · exact last.made?_of_isDry (hdry.mp h)
  obtain ⟨earlier, rfl⟩ := List.getLast?_eq_some_iff.mp hlast
  rw [List.filterMap_append, List.filterMap_cons_none hunmade, List.filterMap_nil, List.append_nil]
    at hinvocations
  rw [List.dropLast_concat] at hearlier ⊢
  rw [hinvocations]
  refine ⟨?_, fun o ho => ?_, ?_⟩
  · rw [List.length_append, List.length_singleton]
    exact Nat.lt_succ_of_le (List.length_filterMap_le Round.made? earlier)
  · obtain ⟨r, hr, hmade⟩ := List.mem_filterMap.mp ho
    rcases hearlier r hr with hdry | ⟨e, hfailed, hretryable⟩
    · rw [r.made?_of_isDry hdry] at hmade
      cases hmade
    · rw [hfailed] at hmade
      exact ⟨e, (Option.some.inj hmade).symm, hretryable⟩
  · rw [List.filterMap_eq_nil_iff]
    refine forall₂_congr fun r hr => ⟨fun hnone => ?_, r.made?_of_isDry⟩
    rcases hearlier r hr with hdry | ⟨e, hfailed, -⟩
    · exact hdry
    · rw [hfailed] at hnone
      cases hnone

@[reducible] private def standstill : Clock (StateM Guards) where
  now := pure 0
  sleep _ := pure ()
  wall := pure ⟨2024, 1, 1, 0, 0⟩
  unixTime := pure 1704067200

private def bareGuards : Surroundings Guards := ⟨id, fun gs _ => gs, fun _ => pure ()⟩

private def unreachable : Repository (StateM Guards) where
  height _ _ := pure (.error (.transport (.http "refused")))
  blocks _ _ _ := pure (.error (.transport (.http "refused")))
  block _ _ _ := pure (.error (.transport (.http "refused")))
  logs _ _ := pure (.error (.transport (.http "refused")))
  receipts _ _ := pure (.error (.transport (.http "refused")))

private theorem unreachable_unguarded : unreachable.Unguarded := by
  intro op s chain
  cases op <;> exact ⟨nofun, nofun⟩

private def brittle : Resilience := { attempts := 1, breaker := { failureThreshold := 1 } }

private def scarce : Resilience := { period := 60000, limit := 1, attempts := 1 }

private abbrev headOf (c : Resilience) : Journal.Page (Deed Finding) Guards (Except RepositoryError Finding) :=
  letI := standstill
  performed c bareGuards unreachable (.height "eth" .latest) []

private def refusal? : Except RepositoryError Finding → Option (Bool × String)
  | .error (.circuitOpen chain) => some (true, chain)
  | .error (.rateLimited chain) => some (false, chain)
  | _ => none

private theorem eq_of_refusal? {r : Except RepositoryError Finding} {shut : Bool} {chain : String}
    (h : refusal? r = some (shut, chain)) :
    r = .error (if shut then .circuitOpen chain else .rateLimited chain) := by
  unfold refusal? at h
  split at h <;> cases h <;> rfl

private theorem brittle_shut : (headOf brittle).result = .error (.circuitOpen "eth") :=
  have hrefusal : refusal? (headOf brittle).result = some (true, "eth") := by decide +kernel
  eq_of_refusal? hrefusal

private theorem brittle_invocations : (headOf brittle).deeds.filterMap Deed.invocation? ≠ [] := by
  have hlength : ((headOf brittle).deeds.filterMap Deed.invocation?).length = 1 := by decide +kernel
  exact List.ne_nil_of_length_eq_add_one hlength

private theorem scarce_throttled : (headOf scarce).result = .error (.rateLimited "eth") :=
  have hrefusal : refusal? (headOf scarce).result = some (false, "eth") := by decide +kernel
  eq_of_refusal? hrefusal

private theorem scarce_invocations : (headOf scarce).deeds.filterMap Deed.invocation? ≠ [] := by
  have hlength : ((headOf scarce).deeds.filterMap Deed.invocation?).length = 1 := by decide +kernel
  exact List.ne_nil_of_length_eq_add_one hlength

theorem brittle_call_refused : unreachable.Unguarded ∧ ∃ rounds : List (Round Finding),
    (headOf brittle).deeds = trail brittle "eth" "get_block_height" 1 rounds ∧
      (∃ r, rounds.getLast? = some r ∧ r.isShut = true) ∧ ¬ ∀ r ∈ rounds.dropLast, r.isDry = true := by
  let _ := standstill
  obtain ⟨rounds, hdeeds, -, hshut, -, -, hrefused⟩ :=
    refused_calls brittle bareGuards unreachable unreachable_unguarded (.height "eth" .latest) []
  obtain ⟨-, -, hunmade⟩ := hrefused (.inl brittle_shut)
  exact ⟨unreachable_unguarded, rounds, hdeeds, hshut.mp brittle_shut, fun hdry =>
    brittle_invocations (hunmade.mpr hdry)⟩

/-- A call that returns that the breaker is open was not made. -/
def UnmadeIfShut (chain : String) (page : Journal.Page (Deed Finding) σ (Except RepositoryError Finding)) :
    Prop :=
  page.result = .error (.circuitOpen chain) → page.deeds.filterMap Deed.invocation? = []

/-- A call that returns that the bucket is empty found it so in all its rounds. -/
def DryIfThrottled (c : Resilience) (chain method : String)
    (page : Journal.Page (Deed Finding) σ (Except RepositoryError Finding)) : Prop :=
  page.result = .error (.rateLimited chain) → ∀ rounds, page.deeds = trail c chain method 1 rounds →
    (∀ r ∈ rounds, r.Lawful c chain) → ∀ r ∈ rounds, r.isDry = true

/-- Calls that were made once, and failed, return that the breaker is open or that the bucket is empty. -/
theorem refusals_hide_calls : letI := standstill
    ∃ (inner : Repository (StateM Guards)) (c c' : Resilience) (op : Operation) (gs : Guards),
      inner.Unguarded ∧
      ¬ UnmadeIfShut op.chain (performed c bareGuards inner op gs) ∧
      ¬ DryIfThrottled c' op.chain op.method (performed c' bareGuards inner op gs) := by
  let _ := standstill
  refine ⟨unreachable, brittle, scarce, .height "eth" .latest, [], unreachable_unguarded,
    fun unmade => brittle_invocations (unmade brittle_shut), fun dry => scarce_invocations ?_⟩
  obtain ⟨rounds, haccount⟩ := performed_account scarce bareGuards unreachable (.height "eth" .latest) []
  have hdeeds : (headOf scarce).deeds = trail scarce "eth" "get_block_height" 1 rounds := haccount.deeds_eq
  rw [hdeeds, trail_invocations, List.filterMap_eq_nil_iff]
  exact fun r hr => r.made?_of_isDry (dry scarce_throttled rounds hdeeds haccount.lawful r hr)

end GuardPost
end ChainFeed

import ChainFeed.Proofs.Chain.Rounds
import ChainFeed.Rehearsal.Question

/-!
# Watched calls

A guarded call is a number of rounds, each of which runs as `Rounds` says, with waits in between. The
rounds go on only after errors that may pass and as long as there are tries left, and the last one
decides what the call returns.
-/

namespace ChainFeed

namespace RepositoryError

inductive Transient : RepositoryError → Prop
  | refused (chain : String) : Transient (.rateLimited chain)
  | http (message : String) : Transient (.transport (.http message))
  | timeout (ms : UInt64) : Transient (.transport (.timeout ms))
  | throttled (provider : String) : Transient (.transport (.rateLimited provider))

theorem isRetryable_iff (e : RepositoryError) : e.isRetryable = true ↔ e.Transient := by
  constructor
  · intro h
    cases e with
    | transport e =>
      cases e with
      | http message => exact .http message
      | timeout ms => exact .timeout ms
      | rateLimited provider => exact .throttled provider
      | rpc | allProvidersDown | undecodable | other => cases h
    | rateLimited chain => exact .refused chain
    | protocol | unknownChain | circuitOpen | invalidArgument | endlessHistory => cases h
  · intro h
    cases h <;> rfl

end RepositoryError

namespace GuardPost

variable {σ α β : Type}

/-- The deeds of a call: those of its rounds, the first of them try number `attempt`, and a wait
before each next one. -/
def trail (c : Resilience) (chain method : String) : Nat → List (Round β) → List (Deed β)
  | _, [] => []
  | _, [r] => r.deeds chain method
  | attempt, r :: next :: rounds =>
    r.deeds chain method ++ .slept ((Retry.fixed c.attempts c.interval).delay attempt) ::
      trail c chain method (attempt + 1) (next :: rounds)

/-- What the rounds of a call, from try number `attempt` with `left` to go, say about its deeds and its
result. -/
structure Account (c : Resilience) (chain method : String) (left attempt : Nat)
    (deeds : List (Deed β)) (result : Except RepositoryError β) (rounds : List (Round β)) : Prop where
  deeds_eq : deeds = trail c chain method attempt rounds
  lawful : ∀ r ∈ rounds, r.Lawful c chain
  bounded : rounds.length ≤ left + 1
  repeated : ∀ r ∈ rounds.dropLast, ∃ e, r.outcome chain = .error e ∧ e.Transient
  exhausted : ∀ e, result = .error e → e.Transient → rounds.length = left + 1
  last : ∃ r, rounds.getLast? = some r ∧ result = r.outcome chain

namespace Account

variable {c : Resilience} {chain method : String} {left attempt : Nat} {r : Round β}

theorem final (lawful : r.Lawful c chain)
    (stops : ∀ e, r.outcome chain = .error e → e.Transient → left = 0) :
    Account c chain method left attempt (r.deeds chain method) (r.outcome chain) [r] where
  deeds_eq := rfl
  lawful r' hr' := List.mem_singleton.mp hr' ▸ lawful
  bounded := Nat.le_add_left 1 left
  repeated r' hr' := (List.not_mem_nil hr').elim
  exhausted e he htransient := by
    rw [stops e he htransient]
    rfl
  last := ⟨r, rfl, rfl⟩

theorem again {e : RepositoryError} {deeds : List (Deed β)} {result : Except RepositoryError β}
    {rounds : List (Round β)} (lawful : r.Lawful c chain) (outcome : r.outcome chain = .error e)
    (transient : e.Transient) (rest : Account c chain method left (attempt + 1) deeds result rounds) :
    Account c chain method (left + 1) attempt
      (r.deeds chain method ++ .slept ((Retry.fixed c.attempts c.interval).delay attempt) :: deeds)
      result (r :: rounds) := by
  obtain ⟨final, hfinal, hresult⟩ := rest.last
  cases rounds with
  | nil => cases hfinal
  | cons next rounds =>
    refine ⟨?_, ?_, ?_, ?_, ?_, ?_⟩
    · rw [trail, rest.deeds_eq]
    · exact List.forall_mem_cons.mpr ⟨lawful, rest.lawful⟩
    · exact Nat.succ_le_succ rest.bounded
    · rw [List.dropLast_cons_cons]
      exact List.forall_mem_cons.mpr ⟨⟨e, outcome, transient⟩, rest.repeated⟩
    · intro e' he' htransient'
      rw [List.length_cons, rest.exhausted e' he' htransient']
    · exact ⟨final, by rw [List.getLast?_cons_cons, hfinal], hresult⟩

end Account

section

variable [Clock (StateM σ)] (c : Resilience) (w : Surroundings σ) (chain method : String) (form : α → β)
  (x : StateM σ (Except RepositoryError α))

structure Course (s : σ) (turn : Journal.Page (Deed β) σ (Except RepositoryError α)) (r : Round β) : Prop where
  run : ((watched c w).round chain method (invoking form x)).run s = turn
  lawful : r.Lawful c chain
  deeds_eq : turn.deeds = r.deeds chain method
  outcome_eq : turn.result.map form = r.outcome chain

variable {P : Nat → σ → Except RepositoryError α → σ → List (Round β) → Prop}

/-- What holds of a round after which there is none, and is carried back over every round that is
followed by others, holds of the rounds of a call. -/
theorem repeat_rounds
    (final : ∀ left s turn r, Course c w chain method form x s turn r →
      (∀ e, turn.result = .error e → e.Transient → left = 0) → P left s turn.result turn.after [r])
    (again : ∀ left s turn r e ms result after rounds, Course c w chain method form x s turn r →
      turn.result = .error e → e.Transient →
        P left ((Clock.sleep ms : StateM σ PUnit) turn.after).2 result after rounds →
          P (left + 1) s result after (r :: rounds)) (left attempt : Nat) (s : σ) :
    let page := ((Retry.fixed c.attempts c.interval).repeatFrom RepositoryError.isRetryable
      ((watched c w).round chain method (invoking form x)) left attempt).run s
    ∃ rounds, Account c chain method left attempt page.deeds (page.result.map form) rounds ∧
      P left s page.result page.after rounds := by
  induction left generalizing attempt s with
  | zero =>
    obtain ⟨r, hlawful, hdeeds, houtcome⟩ := round_course c w chain method form x s
    refine ⟨[r], ?_, final 0 s _ r ⟨rfl, hlawful, hdeeds, houtcome⟩ fun _ _ _ => rfl⟩
    simp only [Retry.repeatFrom, hdeeds, houtcome]
    exact .final hlawful fun _ _ _ => rfl
  | succ left ih =>
    obtain ⟨r, hlawful, hdeeds, houtcome⟩ := round_course c w chain method form x s
    simp only [Retry.repeatFrom, Journal.run_bind]
    generalize hrun : ((watched c w).round chain method (invoking form x)).run s = turn at hdeeds houtcome ⊢
    have hcourse : Course c w chain method form x s turn r := ⟨hrun, hlawful, hdeeds, houtcome⟩
    have hlast := final (left + 1) s turn r hcourse
    cases hresult : turn.result with
    | ok value =>
      rw [hresult] at houtcome hlast
      rw [Journal.run_pure, hdeeds, List.append_nil]
      refine ⟨[r], ?_, hlast fun e he _ => by cases he⟩
      rw [houtcome]
      refine .final hlawful fun e he _ => ?_
      rw [← houtcome] at he
      cases he
    | error e =>
      rw [hresult] at houtcome hlast
      have herror : r.outcome chain = .error e := houtcome.symm
      dsimp only
      by_cases hretry : e.isRetryable = true
      -- The rest of the call has one try less, and goes on from wherever the wait has led.
      · let wait : StateM σ PUnit := Clock.sleep ((Retry.fixed c.attempts c.interval).delay attempt)
        obtain ⟨rounds, hrest, hkept⟩ := ih (attempt + 1) (wait turn.after).2
        have htransient := (RepositoryError.isRetryable_iff e).mp hretry
        rw [if_pos hretry, Journal.run_bind, hdeeds]
        refine ⟨r :: rounds, .again hlawful herror htransient hrest, ?_⟩
        exact again left s turn r e _ _ _ rounds hcourse hresult htransient hkept
      · have hstops : ∀ e', .error e = (.error e' : Except RepositoryError α) → e'.Transient → left + 1 = 0 := by
          intro e' he' htransient
          cases he'
          exact absurd ((RepositoryError.isRetryable_iff e).mpr htransient) hretry
        rw [if_neg hretry, Journal.run_pure, hdeeds, List.append_nil]
        refine ⟨[r], ?_, hlast hstops⟩
        rw [houtcome]
        refine .final hlawful fun e' he' htransient => ?_
        rw [herror] at he'
        cases he'
        exact hstops e rfl htransient

end

private theorem repeat_account [Clock (StateM σ)] (c : Resilience) (w : Surroundings σ)
    (chain method : String) (form : α → β) (x : StateM σ (Except RepositoryError α)) (left attempt : Nat)
    (s : σ) :
    let page := ((Retry.fixed c.attempts c.interval).repeatFrom RepositoryError.isRetryable
      ((watched c w).round chain method (invoking form x)) left attempt).run s
    ∃ rounds, Account c chain method left attempt page.deeds (page.result.map form) rounds := by
  obtain ⟨rounds, haccount, -⟩ := repeat_rounds c w chain method form x (P := fun _ _ _ _ _ => True)
    (by intros; trivial) (by intros; trivial) left attempt s
  exact ⟨rounds, haccount⟩

private theorem Round.counts (chain method : String) (r : Round β) :
    (r.deeds chain method).filterMap Deed.metric? =
        ((r.deeds chain method).filterMap Deed.invocation?).map (fun o => .rpc chain method o.isOk) ∧
      ((r.deeds chain method).filterMap Deed.invocation?).length ≤ 1 := by
  cases r with
  | barred | dry | unadmitted => exact ⟨rfl, Nat.zero_le 1⟩
  | made => exact ⟨rfl, Nat.le_refl 1⟩

private theorem trail_counts (c : Resilience) (chain method : String) (attempt : Nat)
    (rounds : List (Round β)) :
    (trail c chain method attempt rounds).filterMap Deed.metric? =
        ((trail c chain method attempt rounds).filterMap Deed.invocation?).map
          (fun o => .rpc chain method o.isOk) ∧
      ((trail c chain method attempt rounds).filterMap Deed.invocation?).length ≤ rounds.length := by
  induction rounds generalizing attempt with
  | nil => exact ⟨rfl, Nat.le_refl 0⟩
  | cons r rounds ih =>
    obtain ⟨hmetrics, hlength⟩ := r.counts chain method
    cases rounds with
    | nil => exact ⟨hmetrics, hlength⟩
    | cons next rounds =>
      obtain ⟨hlater, hmore⟩ := ih (attempt + 1)
      simp only [trail, List.filterMap_append, List.filterMap_cons, Deed.metric?, Deed.invocation?,
        List.map_append, List.length_append, List.length_cons, hmetrics, hlater] at hmore ⊢
      exact ⟨trivial, by omega⟩

end GuardPost

open Rehearsal (Finding)

inductive Operation where
  | height (chain : String) (tag : BlockTag)
  | blocks (chain : String) (numbers : BlockSet) (full : Bool)
  | block (chain : String) (tag : BlockTag) (full : Bool)
  | logs (chain : String) (filter : LogFilter)
  | receipts (chain : String) (refs : TxRefSet)

namespace Operation

def chain : Operation → String
  | .height chain _ | .blocks chain _ _ | .block chain _ _ | .logs chain _ | .receipts chain _ => chain

def method : Operation → String
  | .height _ _ => "get_block_height"
  | .blocks _ _ _ => "get_blocks"
  | .block _ _ _ => "get_block"
  | .logs _ _ => "get_filtered_logs"
  | .receipts _ _ => "get_transaction_receipts"

def perform {m : Type → Type} [Monad m] (repo : Repository m) :
    Operation → m (Except RepositoryError Finding)
  | .height chain tag => do return (← repo.height chain tag).map .height
  | .blocks chain numbers full => do return (← repo.blocks chain numbers full).map .blocks
  | .block chain tag full => do return (← repo.block chain tag full).map .block
  | .logs chain filter => do return (← repo.logs chain filter).map .logs
  | .receipts chain refs => do return (← repo.receipts chain refs).map .receipts

end Operation

namespace GuardPost

variable {σ : Type}

/-- A repository in its surroundings, every operation of which is written down when it is made. -/
def invoked (inner : Repository (StateM σ)) : Repository (Journal (Deed Finding) σ) where
  height chain tag := invoking .height (inner.height chain tag)
  blocks chain numbers full := invoking .blocks (inner.blocks chain numbers full)
  block chain tag full := invoking .block (inner.block chain tag full)
  logs chain filter := invoking .logs (inner.logs chain filter)
  receipts chain refs := invoking .receipts (inner.receipts chain refs)

theorem perform_account [Clock (StateM σ)] (c : Resilience) (w : Surroundings σ)
    (inner : Repository (StateM σ)) (op : Operation) (s : σ) :
    let page := (op.perform ((watched c w).repository (invoked inner))).run s
    ∃ rounds, Account c op.chain op.method c.attempts 1 page.deeds page.result rounds := by
  cases op with
  | height | blocks | block | logs | receipts =>
    simp only [Operation.perform, Journal.run_bind, Journal.run_pure, List.append_nil]
    exact repeat_account c w _ _ _ _ c.attempts 1 s

private theorem outcome_ok {chain : String} {r : Round Finding} {v : Finding}
    (h : r.outcome chain = .ok v) : ∃ look draw enter record, r = .made look draw enter (.ok v) record := by
  cases r with
  | barred | dry | unadmitted => cases h
  | made look draw enter outcome record =>
    cases h
    exact ⟨look, draw, enter, record, rfl⟩

/-- Every operation of a guarded repository, in surroundings that answer in any way they like, is a
number of lawful rounds, one more than there are retries at most, with waits in between. The operation
itself is made at most that often; each time it is made, its outcome is counted. A round in which the
bucket gives no token changes the counts of no breaker. There is a next round only after an error that
may pass, and then always while there are tries left. The last round gives the result, which is a value
exactly when the operation was made in that round and gave it. -/
theorem operation_rounds [Clock (StateM σ)] (c : Resilience) (w : Surroundings σ)
    (inner : Repository (StateM σ)) (op : Operation) (s : σ) :
    let page := (op.perform ((watched c w).repository (invoked inner))).run s
    let invocations := page.deeds.filterMap Deed.invocation?
    ∃ rounds : List (Round Finding),
      page.deeds = trail c op.chain op.method 1 rounds ∧
      (∀ r ∈ rounds, r.Lawful c op.chain) ∧
      rounds.length ≤ c.attempts + 1 ∧ invocations.length ≤ c.attempts + 1 ∧
      page.deeds.filterMap Deed.metric? = invocations.map (fun o => .rpc op.chain op.method o.isOk) ∧
      (∀ look draw, .dry look draw ∈ rounds → ∀ chain,
        look.after.tally chain = look.before.tally chain ∧
          draw.after.tally chain = draw.before.tally chain) ∧
      (∀ r ∈ rounds.dropLast, ∃ e, r.outcome op.chain = .error e ∧ e.Transient) ∧
      (∀ e, page.result = .error e → e.Transient → rounds.length = c.attempts + 1) ∧
      (∃ r, rounds.getLast? = some r ∧ page.result = r.outcome op.chain) ∧
      ∀ v, page.result = .ok v ↔
        ∃ look draw enter record, rounds.getLast? = some (.made look draw enter (.ok v) record) := by
  intro page invocations
  obtain ⟨rounds, haccount⟩ := perform_account c w inner op s
  obtain ⟨hmetrics, hinvocations⟩ := trail_counts c op.chain op.method 1 rounds
  rw [← haccount.deeds_eq] at hmetrics hinvocations
  obtain ⟨last, hlast, hresult⟩ := haccount.last
  refine ⟨rounds, haccount.deeds_eq, haccount.lawful, haccount.bounded, ?_, hmetrics, ?_,
    haccount.repeated, haccount.exhausted, ⟨last, hlast, hresult⟩, ?_⟩
  · exact Nat.le_trans hinvocations haccount.bounded
  · intro look draw hdry chain
    exact (haccount.lawful _ hdry).dry_keeps chain
  · intro v
    constructor
    · intro hok
      obtain ⟨look, draw, enter, record, rfl⟩ := outcome_ok (hresult.symm.trans hok)
      exact ⟨look, draw, enter, record, hlast⟩
    · rintro ⟨look, draw, enter, record, hmade⟩
      rw [hlast] at hmade
      cases hmade
      exact hresult

end GuardPost

end ChainFeed

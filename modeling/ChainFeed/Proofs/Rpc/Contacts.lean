import Mathlib.Data.List.Perm.Subperm
import ChainFeed.Chain.Guard
import ChainFeed.Proofs.Ends
import ChainFeed.Proofs.Family.Links
import ChainFeed.Proofs.Rpc.Picks

/-!
# Failing providers

Some providers of a pool fail every call, in a way that a retry may mend; the others give the same
answers. As long as no cool-down has gone by, a provider that has failed is not asked again, so what a
call still has to go through is the failing providers that have not been asked.
-/

namespace ChainFeed.Rpc

variable {ω σ α β : Type}

/-- What goes on outside: how much time passes before a look at the clock, and in a wait. -/
class Outside (ω : Type) where
  elapse : StateM ω Nat
  wait : Nat → StateM ω Nat
  wall : StateM ω Timestamp
  unixTime : StateM ω Int64
  count : Metric → StateM ω PUnit

/-- Where guarded calls through a pool are made. -/
structure Scene (ω : Type) where
  now : Nat
  guards : Guards
  pool : Pool
  contacts : List Nat
  outside : ω

namespace Scene

def outer (x : StateM ω α) : StateM (Scene ω) α := fun s =>
  ((x s.outside).1, { s with outside := (x s.outside).2 })

def pass (x : StateM ω Nat) : StateM (Scene ω) PUnit := fun s =>
  ((), { s with now := s.now + (x s.outside).1, outside := (x s.outside).2 })

instance [Outside ω] : Clock (StateM (Scene ω)) where
  now := do
    pass Outside.elapse
    return (← get).now
  sleep ms := pass (Outside.wait ms)
  wall := outer Outside.wall
  unixTime := outer Outside.unixTime

/-- The time at which a call made now picks its provider. -/
def pickTime [Outside ω] (s : Scene ω) : Nat := ((Clock.now : StateM (Scene ω) Nat) s).1

theorem now_le_pickTime [Outside ω] (s : Scene ω) : s.now ≤ s.pickTime := Nat.le_add_right _ _

def poolCell : Shared (StateM (Scene ω)) Pool where
  update f := fun s => ((f s.pool).1, { s with pool := (f s.pool).2 })

structure Calm (s t : Scene ω) : Prop where
  providers : t.pool.providers = s.pool.providers
  contacts : t.contacts = s.contacts
  later : s.now ≤ t.now

theorem Calm.trans {s t u : Scene ω} (h : s.Calm t) (h' : t.Calm u) : s.Calm u where
  providers := h'.providers.trans h.providers
  contacts := h'.contacts.trans h.contacts
  later := Nat.le_trans h.later h'.later

end Scene

/-- The answers of a node to single requests and to batches. -/
structure Answers where
  send : Request → Response
  batch : List Request → List Response

def Answers.GivenBy (answers : Answers) (t : Transport (StateM σ)) : Prop :=
  (∀ r s, (t.send r s).1 = .ok (answers.send r)) ∧ ∀ rs s, (t.batch rs s).1 = .ok (answers.batch rs)

/-- A provider, with the time that a call to it takes. -/
inductive Peer (ω : Type) where
  | correct (pace : List Request → StateM ω Nat)
  | failing (pace : List Request → StateM ω Nat)
      (error : List Request → ω → { e : TransportError // e.isRetryable = true })

namespace Peer

def isFailing : Peer ω → Bool
  | .correct _ => false
  | .failing _ _ => true

def pace : Peer ω → List Request → StateM ω Nat
  | .correct pace | .failing pace _ => pace

/-- What a call gives that a correct provider answers with `reply`. -/
def result (rs : List Request) (reply : α) (outside : ω) : Peer ω → Except TransportError α
  | .correct _ => .ok reply
  | .failing _ error => .error (error rs outside).1

def contact (place : Nat) (peer : Peer ω) (rs : List Request) (reply : α) :
    StateM (Scene ω) (Except TransportError α) := fun s =>
  let passed := (Scene.pass (peer.pace rs) s).2
  (peer.result rs reply passed.outside, { passed with contacts := s.contacts ++ [place] })

def transport (answers : Answers) (place : Nat) (peer : Peer ω) : Transport (StateM (Scene ω)) where
  url := ""
  send r := peer.contact place [r] (answers.send r)
  batch rs := peer.contact place rs (answers.batch rs)
  health := pure .unknown

def transports (answers : Answers) (peers : List (Peer ω)) : List (Transport (StateM (Scene ω))) :=
  peers.mapIdx (transport answers)

def failures (peers : List (Peer ω)) (contacts : List Nat) : List Nat :=
  contacts.filter fun i => (peers[i]?).any isFailing

variable {peers : List (Peer ω)} {peer : Peer ω} {i : Nat} {contacts : List Nat}

theorem failures_append_correct (at_place : peers[i]? = some peer) (correct : peer.isFailing = false) :
    failures peers (contacts ++ [i]) = failures peers contacts := by
  simp [failures, List.filter_append, at_place, correct]

theorem failures_append_failing (at_place : peers[i]? = some peer) (failing : peer.isFailing = true) :
    failures peers (contacts ++ [i]) = failures peers contacts ++ [i] := by
  simp [failures, List.filter_append, at_place, failing]

theorem length_failures_le (nodup : (failures peers contacts).Nodup) :
    (failures peers contacts).length ≤ peers.countP isFailing := by
  rw [← List.length_findIdxs]
  refine (List.subperm_of_subset nodup fun i hi => ?_).length_le
  obtain ⟨-, hfails⟩ := List.mem_filter.mp hi
  obtain ⟨peer, hpeer, hfailing⟩ := (Option.any_eq_true _ _).mp hfails
  obtain ⟨hlt, rfl⟩ := List.getElem?_eq_some_iff.mp hpeer
  exact List.mem_findIdxs_iff_exists_getElem_pos.mpr ⟨hlt, hfailing⟩

end Peer

def Pool.Spent (p : Pool) (start i : Nat) : Prop :=
  ∃ q t, p.providers[i]? = some q ∧ q.healthy = false ∧ q.failedAt = some t ∧ start ≤ t

/-- `k` calls have failed since `start`; as long as that is not a cool-down ago, they were calls to
different providers. -/
structure Standing (peers : List (Peer ω)) (cooldown start k : Nat) (s : Scene ω) : Prop where
  size : s.pool.providers.length = peers.length
  healthy : ∀ (i : Nat) (peer : Peer ω) (q : Provider), peers[i]? = some peer → peer.isFailing = false →
    s.pool.providers[i]? = some q → q.healthy = true
  later : start ≤ s.now
  count : (Peer.failures peers s.contacts).length = k
  once : s.now < start + cooldown → (Peer.failures peers s.contacts).Nodup ∧
    ∀ i ∈ Peer.failures peers s.contacts, s.pool.Spent start i

variable {peers : List (Peer ω)} {cooldown start k i : Nat} {peer : Peer ω} {s t : Scene ω}

theorem Pool.Spent.not_eligible {p : Pool} {now : Nat} (h : p.Spent start i)
    (early : now < start + cooldown) : ¬ p.Eligible cooldown now i := by
  obtain ⟨q, t, hq, hunhealthy, hfailed, hlate⟩ := h
  rintro ⟨q', hq', heligible⟩
  rw [hq] at hq'
  cases hq'
  rcases heligible with hhealthy | hover
  · rw [hunhealthy] at hhealthy
    cases hhealthy
  · have := hover t hfailed
    omega

namespace Standing

theorem calm (h : Standing peers cooldown start k s) (same : s.Calm t) :
    Standing peers cooldown start k t where
  size := by rw [same.providers, h.size]
  healthy := by rw [same.providers]; exact h.healthy
  later := Nat.le_trans h.later same.later
  count := by rw [same.contacts, h.count]
  once early := by
    obtain ⟨hnodup, hspent⟩ := h.once (Nat.lt_of_le_of_lt same.later early)
    rw [same.contacts]
    refine ⟨hnodup, fun i hi => ?_⟩
    obtain ⟨q, hq⟩ := hspent i hi
    exact ⟨q, same.providers ▸ hq⟩

theorem le_countP (h : Standing peers cooldown start k s) (early : s.now < start + cooldown) :
    k ≤ peers.countP Peer.isFailing :=
  h.count ▸ Peer.length_failures_le (h.once early).1

theorem count_le_one (h : Standing peers cooldown start k s) (early : s.now < start + cooldown)
    (at_place : peers[i]? = some peer) (failing : peer.isFailing = true) : s.contacts.count i ≤ 1 := by
  have hcount := List.nodup_iff_count_le_one.mp (h.once early).1 i
  rwa [Peer.failures, List.count_filter (by simp [at_place, failing])] at hcount

theorem exists_eligible (h : Standing peers cooldown start k s)
    (correct : ∃ peer ∈ peers, peer.isFailing = false) (now : Nat) : ∃ i, s.pool.Eligible cooldown now i := by
  obtain ⟨peer, hmem, hcorrect⟩ := correct
  obtain ⟨i, hi, rfl⟩ := List.getElem_of_mem hmem
  have hlt : i < s.pool.providers.length := h.size.symm ▸ hi
  have hget := List.getElem?_eq_getElem hlt
  exact ⟨i, _, hget, .inl (h.healthy i _ _ (List.getElem?_eq_getElem hi) hcorrect hget)⟩

theorem answered (h : Standing peers cooldown start k s) (at_place : peers[i]? = some peer)
    (correct : peer.isFailing = false) (pool : t.pool.providers = (s.pool.markOnline i).providers)
    (contacts : t.contacts = s.contacts ++ [i]) (later : s.now ≤ t.now) :
    Standing peers cooldown start k t := by
  have hfailures : Peer.failures peers t.contacts = Peer.failures peers s.contacts := by
    rw [contacts, Peer.failures_append_correct at_place correct]
  refine ⟨?_, ?_, Nat.le_trans h.later later, ?_, ?_⟩
  · rw [pool, Pool.markOnline, List.length_modify, h.size]
  · intro j other q hother hcorrect hq
    rw [pool, Pool.markOnline, List.getElem?_modify] at hq
    obtain ⟨q', hq', rfl⟩ := Option.map_eq_some_iff.mp hq
    split
    · rfl
    · exact h.healthy j other q' hother hcorrect hq'
  · rw [hfailures, h.count]
  · intro early
    obtain ⟨hnodup, hspent⟩ := h.once (Nat.lt_of_le_of_lt later early)
    rw [hfailures]
    refine ⟨hnodup, fun j hj => ?_⟩
    -- The provider that answered is none of those that have failed.
    have hne : i ≠ j := by
      rintro rfl
      obtain ⟨-, hfails⟩ := List.mem_filter.mp hj
      simp [at_place, correct] at hfails
    obtain ⟨q, t₀, hq, hrest⟩ := hspent j hj
    refine ⟨q, t₀, ?_, hrest⟩
    rw [pool, Pool.markOnline, List.getElem?_modify, hq]
    simp [hne]

theorem failed {now after : Nat} (h : Standing peers cooldown start k s) (at_place : peers[i]? = some peer)
    (failing : peer.isFailing = true) (eligible : s.pool.Eligible cooldown now i) (asked : now ≤ after)
    (pool : t.pool.providers = (s.pool.markOffline after i).providers)
    (contacts : t.contacts = s.contacts ++ [i]) (passed : s.now ≤ now) (later : after ≤ t.now) :
    Standing peers cooldown start (k + 1) t := by
  have hfailures : Peer.failures peers t.contacts = Peer.failures peers s.contacts ++ [i] := by
    rw [contacts, Peer.failures_append_failing at_place failing]
  have hstart := h.later
  refine ⟨?_, ?_, by omega, ?_, ?_⟩
  · rw [pool, Pool.markOffline, List.length_modify, h.size]
  · intro j other q hother hcorrect hq
    have hne : i ≠ j := by
      rintro rfl
      rw [at_place] at hother
      cases hother
      rw [failing] at hcorrect
      cases hcorrect
    rw [pool, Pool.markOffline, List.getElem?_modify] at hq
    obtain ⟨q', hq', rfl⟩ := Option.map_eq_some_iff.mp hq
    rw [if_neg hne]
    exact h.healthy j other q' hother hcorrect hq'
  · rw [hfailures, List.length_append, h.count, List.length_singleton]
  · intro early
    obtain ⟨hnodup, hspent⟩ := h.once (by omega)
    rw [hfailures]
    constructor
    · -- A provider that has failed could not have been used again.
      refine List.nodup_append.mpr ⟨hnodup, List.nodup_singleton i, ?_⟩
      rintro j hj _ hi rfl
      rw [List.mem_singleton.mp hi] at hj
      exact (hspent i hj).not_eligible (by omega) eligible
    · intro j hj
      rw [Pool.Spent, pool, Pool.markOffline, List.getElem?_modify]
      by_cases hsame : i = j
      · subst hsame
        obtain ⟨q, hq, -⟩ := eligible
        exact ⟨{ q with healthy := false, failedAt := some after }, after, by simp [hq], rfl, rfl, by omega⟩
      · have hearlier : j ∈ Peer.failures peers s.contacts := by
          rcases List.mem_append.mp hj with hj | hj
          · exact hj
          · exact absurd (List.mem_singleton.mp hj).symm hsame
        obtain ⟨q, t₀, hq, hrest⟩ := hspent j hearlier
        exact ⟨q, t₀, by simp [hq, hsame], hrest⟩

end Standing

/-- A computation gives something that is `Q`, or fails at one more provider. -/
def Serves (peers : List (Peer ω)) (cooldown start : Nat) (Q : α → Prop)
    (x : StateM (Scene ω) (Except RepositoryError α)) : Prop :=
  ∀ k s, Standing peers cooldown start k s → (x s).2.guards = s.guards ∧ s.now ≤ (x s).2.now ∧
    ((∃ a, (x s).1 = .ok a ∧ Q a ∧ Standing peers cooldown start k (x s).2) ∨
      ∃ e, (x s).1 = .error (.transport e) ∧ e.isRetryable = true ∧
        Standing peers cooldown start (k + 1) (x s).2)

/-- Where `y` gives a result, `x` gives a related one or fails at one more provider. -/
def Tracks (peers : List (Peer ω)) (cooldown start : Nat) (R : α → β → Prop)
    (x : ExceptT RepositoryError (StateM (Scene ω)) α) (y : ExceptT RepositoryError (StateM σ) β) : Prop :=
  ∀ s' b, (y.run s').1 = .ok b → Serves peers cooldown start (R · b) x.run

theorem ofTransport_of_isRetryable {e : TransportError} (h : e.isRetryable = true) :
    RepositoryError.ofTransport e = .transport e := by
  cases e with
  | undecodable => cases h
  | http | rpc | rateLimited | allProvidersDown | timeout | other => rfl

private theorem run_carried (x : StateM σ (Except TransportError α)) (s : σ) :
    (Family.carried x).run s = ((x s).1.mapError RepositoryError.ofTransport, (x s).2) :=
  rfl

section

variable [Outside ω]

theorem call_of_pick {transports : List (Transport (StateM (Scene ω)))} {t : Transport (StateM (Scene ω))}
    (use : Transport (StateM (Scene ω)) → StateM (Scene ω) (Except TransportError α))
    (some_provider : s.pool.providers ≠ []) (pick : (s.pool.pick cooldown s.pickTime).1 = some i)
    (at_place : transports[i]? = some t) :
    let picked : Scene ω :=
      { ((Clock.now : StateM (Scene ω) Nat) s).2 with pool := { s.pool with cursor := s.pool.cursor + 1 } }
    let asked := use t picked
    let seen := ((Clock.now : StateM (Scene ω) Nat) asked.2).2
    Pool.call Scene.poolCell transports cooldown use s =
      (asked.1, { seen with pool := seen.pool.learn seen.now i asked.1 }) := by
  intro picked asked seen
  let looked := ((Clock.now : StateM (Scene ω) Nat) s).2
  have hnow : (Clock.now : StateM (Scene ω) Nat) s = (s.pickTime, looked) := rfl
  have hpicked : Scene.poolCell.update (fun p => p.pick cooldown s.pickTime) looked = (some i, picked) := by
    let p := s.pool.pick cooldown s.pickTime
    change (p.1, { looked with pool := p.2 }) = (some i, picked)
    rw [pick, Pool.pick_after some_provider]
  simp only [Pool.call, stateM_bind_apply, hnow, hpicked, at_place]
  rfl

/-- A call asks one provider that can be used, and the pool learns from what it gives. -/
theorem call_contact {answers : Answers} {rs : List Request} {reply : α}
    {use : Transport (StateM (Scene ω)) → StateM (Scene ω) (Except TransportError α)}
    (use_eq : ∀ i peer, use (Peer.transport answers i peer) = peer.contact i rs reply)
    (correct : ∃ peer ∈ peers, peer.isFailing = false) (standing : Standing peers cooldown start k s) :
    ∃ i peer outside outside' now after, peers[i]? = some peer ∧ s.pool.Eligible cooldown now i ∧
      s.now ≤ now ∧ now ≤ after ∧
      Pool.call Scene.poolCell (Peer.transports answers peers) cooldown use s =
        (peer.result rs reply outside,
          { now := after, guards := s.guards, contacts := s.contacts ++ [i], outside := outside'
            pool := { s.pool with cursor := s.pool.cursor + 1 }.learn after i
              (peer.result rs reply outside) }) := by
  let looked := ((Clock.now : StateM (Scene ω) Nat) s).2
  obtain ⟨j, heligible⟩ := standing.exists_eligible correct s.pickTime
  obtain ⟨i, hpick, hnext⟩ := Pool.pick_next heligible
  obtain ⟨-, -, -, hi, -⟩ := hnext
  have hsome : s.pool.providers ≠ [] := List.ne_nil_of_length_pos (Nat.zero_lt_of_lt hi.lt_size)
  have hlt : i < peers.length := standing.size ▸ hi.lt_size
  have hpeer := List.getElem?_eq_getElem hlt
  let picked : Scene ω := { looked with pool := { s.pool with cursor := s.pool.cursor + 1 } }
  let asked := (peers[i].contact i rs reply picked).2
  let seen := ((Clock.now : StateM (Scene ω) Nat) asked).2
  have hlater : s.pickTime ≤ seen.now := Nat.le_trans (Nat.le_add_right _ _) (Nat.le_add_right _ _)
  have htransport : (Peer.transports answers peers)[i]? = some (Peer.transport answers i peers[i]) := by
    rw [Peer.transports, List.getElem?_mapIdx, hpeer, Option.map_some]
  refine ⟨i, peers[i], asked.outside, seen.outside, s.pickTime, seen.now, hpeer, hi, s.now_le_pickTime, hlater, ?_⟩
  rw [call_of_pick use hsome hpick htransport, use_eq]
  rfl

theorem call_tracks {answers : Answers} {rs : List Request} {reply : α}
    {use : Transport (StateM (Scene ω)) → StateM (Scene ω) (Except TransportError α)}
    (use_eq : ∀ i peer, use (Peer.transport answers i peer) = peer.contact i rs reply)
    (correct : ∃ peer ∈ peers, peer.isFailing = false) {y : StateM σ (Except TransportError α)}
    (given : ∀ s', (y s').1 = .ok reply) :
    Tracks peers cooldown start Eq
      (Family.carried (Pool.call Scene.poolCell (Peer.transports answers peers) cooldown use))
      (Family.carried y) := by
  intro s' b hb k s standing
  obtain ⟨i, peer, outside, outside', now, after, hpeer, heligible, hnow, hafter, hcall⟩ :=
    call_contact use_eq correct standing
  rw [run_carried, given] at hb
  cases hb
  rw [run_carried, hcall]
  have hpassed := Nat.le_trans hnow hafter
  refine ⟨rfl, hpassed, ?_⟩
  cases peer with
  | correct pace => exact .inl ⟨reply, rfl, rfl, standing.answered hpeer rfl rfl rfl hpassed⟩
  | failing pace error =>
    have hretryable := (error rs outside).2
    have hlearned : ∀ p : Pool, p.learn after i ((Peer.failing pace error).result rs reply outside) =
        p.markOffline after i := by
      intro p
      simp only [Peer.result, Pool.learn, hretryable, if_true]
    rw [hlearned]
    refine .inr ⟨_, ?_, hretryable, standing.failed hpeer rfl heligible hafter rfl rfl hnow (Nat.le_refl _)⟩
    simp only [Peer.result, Except.mapError, ofTransport_of_isRetryable hretryable]

end

namespace Tracks

variable {α' β' : Type} {R : α → β → Prop} {S : α' → β' → Prop}

theorem pure {a : α} {b : β} (h : R a b) :
    Tracks peers cooldown start R (σ := σ) (Pure.pure a) (Pure.pure b) := by
  intro s' b' hb k s standing
  cases hb
  exact ⟨rfl, Nat.le_refl _, .inl ⟨a, rfl, h, standing⟩⟩

theorem throw (x : ExceptT RepositoryError (StateM (Scene ω)) α) (e : RepositoryError) :
    Tracks peers cooldown start R (σ := σ) x (MonadExcept.throw e) := by
  intro s' b hb
  cases hb

theorem bind {x : ExceptT RepositoryError (StateM (Scene ω)) α} {y : ExceptT RepositoryError (StateM σ) β}
    {f : α → ExceptT RepositoryError (StateM (Scene ω)) α'} {g : β → ExceptT RepositoryError (StateM σ) β'}
    (h : Tracks peers cooldown start R x y) (next : ∀ a b, R a b → Tracks peers cooldown start S (f a) (g b)) :
    Tracks peers cooldown start S (x >>= f) (y >>= g) := by
  intro s' c hc k s standing
  cases hy : (y.run s').1 with
  | error e =>
    rw [stateM_run_bind_error hy] at hc
    cases hc
  | ok b =>
    rw [stateM_run_bind_ok hy] at hc
    obtain ⟨hguards, hlater, ⟨a, ha, hrel, hkept⟩ | ⟨e, he, hretryable, hkept⟩⟩ := h s' b hy k s standing
    · rw [stateM_run_bind_ok ha]
      obtain ⟨hguards', hlater', hrest⟩ := next a b hrel _ c hc k _ hkept
      exact ⟨hguards'.trans hguards, Nat.le_trans hlater hlater', hrest⟩
    · rw [stateM_run_bind_error he]
      exact ⟨hguards, hlater, .inr ⟨e, rfl, hretryable, hkept⟩⟩

end Tracks

def tracking (peers : List (Peer ω)) (cooldown start : Nat) :
    Family.Link (StateM (Scene ω)) (StateM σ) where
  rel := Tracks peers cooldown start
  pure := .pure
  throw := .throw
  bind := .bind

section

variable [Outside ω]

theorem tracking_nodes {answers : Answers} (correct : ∃ peer ∈ peers, peer.isFailing = false)
    {t : Transport (StateM σ)} (given : answers.GivenBy t) (chain : String) :
    (tracking peers cooldown start).Nodes
      (Pool.transport Scene.poolCell (Peer.transports answers peers) cooldown chain) t where
  send r := call_tracks (fun _ _ => rfl) correct (given.1 r)
  batch rs := call_tracks (fun _ _ => rfl) correct (given.2 rs)

theorem tracking_clocks [Clock (StateM σ)] :
    (tracking (σ := σ) peers cooldown start).Clocks := by
  intro s' b hb k s standing
  exact ⟨rfl, Nat.le_refl _, .inl ⟨_, rfl, trivial, standing.calm ⟨rfl, rfl, Nat.le_refl _⟩⟩⟩

end

end ChainFeed.Rpc

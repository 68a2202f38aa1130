import ChainFeed.Proofs.Chain.Refusals
import ChainFeed.Proofs.Rpc.Contacts

/-!
# Failing over

A guarded call goes through a pool in which some providers fail every call. Every failure ends a round
and takes one failing provider out of the turns, so the rounds come to an end at the correct ones: before
the tries are used up if the failing providers are no more than the retries, and before the breaker opens
if they are fewer than the failures it bears. Tokens are counted in doubles, so whether a round had one is
read off the rounds that were made.
-/

namespace ChainFeed

open Rpc
open Rehearsal (Finding)

/-- What was found, without the times of placeholders. -/
def Rehearsal.Finding.timeless : Finding → Finding
  | .blocks found => .blocks (ChainFamily.timeless found)
  | found => found

def Guards.breaker (gs : Guards) (chain : String) : Breaker :=
  ((Table.get? gs chain).map fun g => g.breaker).getD .initial

theorem Guards.breaker_on {α : Type} (c : Resilience) (now : Nat) (chain : String) (f : Guard → α × Guard)
    (gs : Guards) : ∃ g : Guard, g.breaker = gs.breaker chain ∧ (gs.on c now chain f).1 = (f g).1 ∧
      (gs.on c now chain f).2.breaker chain = (f g).2.breaker := by
  refine ⟨(Table.get? gs chain).getD (.fresh c now), ?_, rfl, ?_⟩
  · unfold breaker
    cases Table.get? gs chain <;> rfl
  · simp only [Guards.on, breaker, Table.get?_insert_self, Option.map_some, Option.getD_some]

namespace GuardPost

variable {ω α β γ : Type} {peers : List (Peer ω)} {cooldown start k : Nat} {s : Scene ω}

/-- What is known of the providers stays true, and time does not go back. -/
def Keeps (peers : List (Peer ω)) (cooldown start : Nat) {δ : Type} (x : Journal δ (Scene ω) α) : Prop :=
  ∀ k s, Standing peers cooldown start k s → s.now ≤ (x.run s).after.now ∧
    ∃ k', Standing peers cooldown start k' (x.run s).after

theorem Keeps.bind {δ : Type} {x : Journal δ (Scene ω) α} {f : α → Journal δ (Scene ω) β}
    (hx : Keeps peers cooldown start x) (hf : ∀ a, Keeps peers cooldown start (f a)) :
    Keeps peers cooldown start (x >>= f) := by
  intro k s standing
  obtain ⟨hlater, k', hkept⟩ := hx k s standing
  obtain ⟨hlater', hkept'⟩ := hf _ k' _ hkept
  exact ⟨Nat.le_trans hlater hlater', hkept'⟩

theorem keeps_of_calm {δ : Type} {x : Journal δ (Scene ω) α} (h : ∀ s : Scene ω, s.Calm (x.run s).after) :
    Keeps peers cooldown start x :=
  fun k s standing => ⟨(h s).later, k, standing.calm (h s)⟩

theorem keeps_pure {δ : Type} (a : α) : Keeps peers cooldown start (pure a : Journal δ (Scene ω) α) :=
  keeps_of_calm fun _ => ⟨rfl, rfl, Nat.le_refl _⟩

variable {x : StateM (Scene ω) (Except RepositoryError α)} {Q : α → Prop}

theorem keeps_invoking (form : α → β) (serves : Serves peers cooldown start Q x) :
    Keeps peers cooldown start (invoking form x) := by
  intro k s standing
  obtain ⟨-, hlater, ⟨-, -, -, hkept⟩ | ⟨-, -, -, hkept⟩⟩ := serves k s standing
  · exact ⟨hlater, k, hkept⟩
  · exact ⟨hlater, k + 1, hkept⟩

variable [Outside ω]

def scenery : Surroundings (Scene ω) where
  look s := s.guards
  put guards s := { s with guards }
  count m := Scene.outer (Outside.count m)

variable (c : Resilience) (chain method : String)

theorem on_scenery (f : Nat → Guard → γ × Guard) (s : Scene ω) :
    let page := ((watched (β := β) c scenery).on chain f).run s
    s.Calm page.after ∧ page.deeds.filterMap Deed.invocation? = [] ∧
      ∃ now g, g.breaker = s.guards.breaker chain ∧ page.result = (f now g).1 ∧
        page.after.guards.breaker chain = (f now g).2.breaker := by
  let looked := ((Clock.now : StateM (Scene ω) Nat) s).2
  obtain ⟨g, hg, hresult, hafter⟩ := Guards.breaker_on c looked.now chain (f looked.now) s.guards
  exact ⟨⟨rfl, rfl, Nat.le_add_right _ _⟩, rfl, looked.now, g, hg, hresult, hafter⟩

theorem phase_closed (closed : s.guards.breaker chain = .closed k) :
    let page := ((watched (β := β) c scenery).phase chain).run s
    s.Calm page.after ∧ page.deeds.filterMap Deed.invocation? = [] ∧ page.result = .closed ∧
      page.after.guards.breaker chain = .closed k := by
  obtain ⟨hcalm, hdeeds, now, g, hg, hresult, hafter⟩ := on_scenery (β := β) c chain
    (fun now => Guard.onBreaker (·.observe c.breaker now)) s
  rw [closed] at hg
  refine ⟨hcalm, hdeeds, hresult.trans ?_, hafter.trans ?_⟩
  · simp only [Guard.onBreaker, hg]
    rfl
  · simp only [Guard.onBreaker, hg]
    rfl

theorem takeToken_closed (s : Scene ω) :
    let page := ((watched (β := β) c scenery).takeToken chain).run s
    s.Calm page.after ∧ page.deeds.filterMap Deed.invocation? = [] ∧
      page.after.guards.breaker chain = s.guards.breaker chain := by
  obtain ⟨hcalm, hdeeds, now, g, hg, -, hafter⟩ := on_scenery (β := β) c chain
    (fun now => Guard.onBucket (·.acquire now)) s
  exact ⟨hcalm, hdeeds, hafter.trans hg⟩

theorem enter_closed (closed : s.guards.breaker chain = .closed k) :
    let page := ((watched (β := β) c scenery).enter chain).run s
    s.Calm page.after ∧ page.result = true ∧ page.after.guards.breaker chain = .closed k := by
  obtain ⟨hcalm, -, now, g, hg, hresult, hafter⟩ := on_scenery (β := β) c chain
    (fun now => Guard.onBreaker (·.acquire c.breaker now)) s
  rw [closed] at hg
  refine ⟨hcalm, hresult.trans ?_, hafter.trans ?_⟩
  · simp only [Guard.onBreaker, hg]
    rfl
  · simp only [Guard.onBreaker, hg]
    rfl

theorem record_closed (closed : s.guards.breaker chain = .closed k)
    (bearable : k + 1 < c.breaker.failureThreshold) :
    ((((watched (β := β) c scenery).record chain false).run s).after.guards.breaker chain) =
      .closed (k + 1) := by
  obtain ⟨-, -, now, g, hg, -, hafter⟩ := on_scenery (β := β) c chain
    (fun now => Guard.onBreaker fun b => ((), b.record c.breaker now false)) s
  rw [closed] at hg
  refine hafter.trans ?_
  simp only [Guard.onBreaker, hg, Breaker.record, Breaker.fail]
  rw [if_neg (by simp), if_neg (by omega)]

theorem round_keeps (form : α → β) (serves : Serves peers cooldown start Q x) :
    Keeps peers cooldown start ((watched c scenery).round chain method (invoking form x)) := by
  have hon : ∀ {γ : Type} (f : Nat → Guard → γ × Guard),
      Keeps peers cooldown start ((watched (β := β) c scenery).on chain f) :=
    fun f => keeps_of_calm fun s => (on_scenery c chain f s).1
  apply (hon _).bind
  intro phase
  split
  · exact keeps_pure _
  apply (hon _).bind
  intro given
  split
  · exact keeps_pure _
  apply (hon _).bind
  intro admitted
  split
  · exact keeps_pure _
  apply (keeps_invoking form serves).bind
  intro result
  apply (hon _).bind
  intro _
  exact (keeps_of_calm fun _ => ⟨rfl, rfl, Nat.le_refl _⟩).bind fun _ => keeps_pure _

theorem round_closed (form : α → β) (serves : Serves peers cooldown start Q x)
    (standing : Standing peers cooldown start k s) (closed : s.guards.breaker chain = .closed k) :
    let turn := ((watched c scenery).round chain method (invoking form x)).run s
    (turn.result = .error (.rateLimited chain) ∧ turn.deeds.filterMap Deed.invocation? = []) ∨
      (∃ a, turn.result = .ok a ∧ Q a) ∨
      ∃ e, turn.result = .error (.transport e) ∧ e.isRetryable = true ∧
        Standing peers cooldown start (k + 1) turn.after ∧
        (k + 1 < c.breaker.failureThreshold → turn.after.guards.breaker chain = .closed (k + 1)) := by
  obtain ⟨hcalm, hquiet, hphase, hclosed⟩ := phase_closed (β := β) c chain closed
  rw [round, Journal.run_bind]
  generalize ((watched c scenery).phase chain).run s = looked at hcalm hquiet hphase hclosed ⊢
  rw [if_neg (by simp [hphase]), Journal.run_bind]
  obtain ⟨hcalm', hquiet', hsame⟩ := takeToken_closed (β := β) c chain looked.after
  generalize ((watched c scenery).takeToken chain).run looked.after = drawn at hcalm' hquiet' hsame ⊢
  cases hgiven : drawn.result with
  | false =>
    refine .inl ⟨rfl, ?_⟩
    simp [hquiet, hquiet']
  | true =>
    right
    rw [if_neg (by simp), Journal.run_bind]
    obtain ⟨hcalm'', hadmitted, hclosed'⟩ := enter_closed (β := β) c chain (hsame.trans hclosed)
    generalize ((watched c scenery).enter chain).run drawn.after = entered at hcalm'' hadmitted hclosed' ⊢
    rw [if_neg (by simp [hadmitted]), Journal.run_bind, run_invoking]
    have hstanding := standing.calm ((hcalm.trans hcalm').trans hcalm'')
    obtain ⟨hguards, -, ⟨a, ha, hQ, -⟩ | ⟨e, he, hretryable, hfailed⟩⟩ := serves k entered.after hstanding
    · exact .inl ⟨a, ha, hQ⟩
    · have hnot : (x entered.after).1.isOk = false := by rw [he]; rfl
      refine .inr ⟨e, he, hretryable, ?_, fun bearable => ?_⟩
      · obtain ⟨hrecorded, -⟩ := on_scenery (β := β) c chain
          (fun now => Guard.onBreaker fun b => ((), b.record c.breaker now false)) (x entered.after).2
        rw [Journal.run_bind, Journal.run_bind, hnot]
        exact hfailed.calm (hrecorded.trans ⟨rfl, rfl, Nat.le_refl _⟩)
      · rw [Journal.run_bind, Journal.run_bind, hnot]
        have hcounted : (x entered.after).2.guards.breaker chain = .closed k := by rw [hguards, hclosed']
        exact record_closed (β := β) c chain hcounted bearable

theorem Course.dry {form : α → β} {turn : Journal.Page (Deed β) (Scene ω) (Except RepositoryError α)}
    {r : Round β} (course : Course c scenery chain method form x s turn r)
    (refused : turn.result = .error (.rateLimited chain))
    (unmade : turn.deeds.filterMap Deed.invocation? = []) : ∃ look draw, r = .dry look draw := by
  obtain ⟨-, -, hdeeds, houtcome⟩ := course
  rw [refused] at houtcome
  cases r with
  | barred | unadmitted => cases houtcome
  | dry look draw => exact ⟨look, draw, rfl⟩
  | made =>
    rw [hdeeds] at unmade
    cases unmade

/-- What the rounds come to from a state with `k` failures, with `left` tries to go. -/
structure Recovers (c : Resilience) (chain : String) (peers : List (Peer ω)) (cooldown start : Nat)
    (Q : α → Prop) (left k : Nat) (s : Scene ω) (result : Except RepositoryError α) (after : Scene ω)
    (rounds : List (Round β)) : Prop where
  later : s.now ≤ after.now
  standing : ∃ k', Standing peers cooldown start k' after
  succeeds : s.guards.breaker chain = .closed k → peers.countP Peer.isFailing ≤ k + left →
    peers.countP Peer.isFailing < c.breaker.failureThreshold → after.now < start + cooldown →
    (∀ look draw, .dry look draw ∉ rounds) → ∃ a, result = .ok a ∧ Q a

theorem repeat_recovers (form : α → β) (serves : Serves peers cooldown start Q x) (left attempt : Nat)
    (s : Scene ω) :
    let page := ((Retry.fixed c.attempts c.interval).repeatFrom RepositoryError.isRetryable
      ((watched c scenery).round chain method (invoking form x)) left attempt).run s
    ∃ rounds, Account c chain method left attempt page.deeds (page.result.map form) rounds ∧
      ∀ k, Standing peers cooldown start k s →
        Recovers c chain peers cooldown start Q left k s page.result page.after rounds := by
  refine repeat_rounds c scenery chain method form x
    (P := fun left s result after rounds => ∀ k, Standing peers cooldown start k s →
      Recovers c chain peers cooldown start Q left k s result after rounds) ?_ ?_ left attempt s
  · intro left s turn r course stops k standing
    have hkeeps := round_keeps c chain method form serves k s standing
    have hclosed := round_closed c chain method form serves standing
    rw [course.run] at hkeeps hclosed
    obtain ⟨hlater, hkept⟩ := hkeeps
    refine ⟨hlater, hkept, fun closed few bearable early undried => ?_⟩
    rcases hclosed closed with ⟨hrefused, hunmade⟩ | hok | ⟨e, he, hretryable, hfailed, -⟩
    · obtain ⟨look, draw, rfl⟩ := course.dry c chain method hrefused hunmade
      exact absurd List.mem_cons_self (undried look draw)
    · exact hok
    · -- One more provider has failed than there are.
      have hcount := hfailed.le_countP early
      have hleft := stops _ he ((RepositoryError.isRetryable_iff _).mp hretryable)
      omega
  · intro left s turn r e ms result after rounds course herror transient rest k standing
    have hkeeps := round_keeps c chain method form serves k s standing
    have hclosed := round_closed c chain method form serves standing
    rw [course.run] at hkeeps hclosed
    obtain ⟨hlater, k', hkept⟩ := hkeeps
    have hslept : turn.after.Calm ((Clock.sleep ms : StateM (Scene ω) PUnit) turn.after).2 :=
      ⟨rfl, rfl, Nat.le_add_right _ _⟩
    have hrest := rest k' (hkept.calm hslept)
    have hlater' := Nat.le_trans hslept.later hrest.later
    refine ⟨Nat.le_trans hlater hlater', hrest.standing, fun closed few bearable early undried => ?_⟩
    rcases hclosed closed with ⟨hrefused, hunmade⟩ | ⟨a, ha, -⟩ | ⟨e', he', -, hfailed, hcounted⟩
    · obtain ⟨look, draw, rfl⟩ := course.dry c chain method hrefused hunmade
      exact absurd List.mem_cons_self (undried look draw)
    · rw [herror] at ha
      cases ha
    · have hcount := hfailed.le_countP (Nat.lt_of_le_of_lt hlater' early)
      refine (rest (k + 1) (hfailed.calm hslept)).succeeds (hcounted (by omega)) (by omega) bearable early ?_
      exact fun look draw hdry => undried look draw (List.mem_cons_of_mem r hdry)

variable {σ : Type}

private theorem call_recovers {y : StateM σ (Except RepositoryError β)} {R : α → β → Prop} {form : α → Finding}
    {form' : β → Finding} {s' : σ} {v : Finding} (tracks : Tracks peers cooldown s.now R (.mk x) (.mk y))
    (same : ∀ a b, R a b → (form a).timeless = (form' b).timeless)
    (standing : Standing peers cooldown s.now 0 s) (closed : s.guards.breaker chain = .closed 0)
    (few : peers.countP Peer.isFailing ≤ c.attempts)
    (bearable : peers.countP Peer.isFailing < c.breaker.failureThreshold)
    (ok : ((do return (← y).map form' : StateM σ (Except RepositoryError Finding)) s').1 = .ok v) :
    let page := (do return (← (watched c scenery).call chain method (invoking form x)).map form :
      Journal (Deed Finding) (Scene ω) (Except RepositoryError Finding)).run s
    ∃ rounds : List (Round Finding),
      page.deeds = trail c chain method 1 rounds ∧ (∀ r ∈ rounds, r.Lawful c chain) ∧
      (page.after.now < s.now + cooldown →
        (∀ i peer, peers[i]? = some peer → peer.isFailing = true → page.after.contacts.count i ≤ 1) ∧
        ((∀ look draw, .dry look draw ∉ rounds) → page.result.map Finding.timeless = .ok v.timeless)) := by
  obtain ⟨b, hb, rfl⟩ : ∃ b, (y s').1 = .ok b ∧ form' b = v := by
    change (y s').1.map form' = .ok v at ok
    cases hy : (y s').1 with
    | error e =>
      rw [hy] at ok
      cases ok
    | ok b =>
      rw [hy] at ok
      exact ⟨b, rfl, Except.ok.inj ok⟩
  have hserves : Serves peers cooldown s.now (R · b) x := tracks s' b hb
  obtain ⟨rounds, haccount, hrecovers⟩ := repeat_recovers c chain method form hserves c.attempts 1 s
  obtain ⟨-, ⟨k', hkept⟩, hsucceeds⟩ := hrecovers 0 standing
  simp only [Journal.run_bind, Journal.run_pure, List.append_nil]
  refine ⟨rounds, haccount.deeds_eq, haccount.lawful, fun early => ⟨?_, fun undried => ?_⟩⟩
  · exact fun i peer => hkept.count_le_one early
  · obtain ⟨a, ha, hrel⟩ := hsucceeds closed (by omega) bearable early undried
    have hresult : (((watched c scenery).call chain method (invoking form x)).run s).result = .ok a := ha
    rw [hresult]
    exact congrArg Except.ok (same a b hrel)

/-- Some providers of a pool fail every call, with errors that a retry may mend, and the others give the
same answers. Let the failing ones be no more than the retries and fewer than the failures that the
breaker bears. Then, as long as no cool-down goes by, a guarded operation asks each of them once at most,
whoever's turn it is and whatever is known of the failing providers; and if the bucket gives a token in
every round, it finds what it finds at a single correct provider, but for the times of placeholders. -/
theorem fails_over [Clock (StateM σ)] (f : ChainFamily) (op : Operation) {answers : Answers}
    {chains : Registry (StateM (Scene ω))} {chains' : Registry (StateM σ)} {chainId : UInt64}
    {t : Transport (StateM σ)} {s' : σ} {v : Finding}
    (known : chains.get op.chain = .ok ⟨chainId,
      Pool.transport Scene.poolCell (Peer.transports answers peers) cooldown op.chain⟩)
    (known' : chains'.get op.chain = .ok ⟨chainId, t⟩) (given : answers.GivenBy t)
    (ok : (op.perform (f.repository chains') s').1 = .ok v)
    (size : s.pool.providers.length = peers.length) (correct : ∃ peer ∈ peers, peer.isFailing = false)
    (healthy : ∀ (i : Nat) (peer : Peer ω) (q : Provider), peers[i]? = some peer → peer.isFailing = false →
      s.pool.providers[i]? = some q → q.healthy = true)
    (unasked : s.contacts = []) (closed : s.guards.breaker op.chain = .closed 0)
    (few : peers.countP Peer.isFailing ≤ c.attempts)
    (bearable : peers.countP Peer.isFailing < c.breaker.failureThreshold) :
    let page := (op.perform ((watched c scenery).repository (invoked (f.repository chains)))).run s
    ∃ rounds : List (Round Finding),
      page.deeds = trail c op.chain op.method 1 rounds ∧ (∀ r ∈ rounds, r.Lawful c op.chain) ∧
      (page.after.now < s.now + cooldown →
        (∀ i peer, peers[i]? = some peer → peer.isFailing = true → page.after.contacts.count i ≤ 1) ∧
        ((∀ look draw, .dry look draw ∉ rounds) → page.result.map Finding.timeless = .ok v.timeless)) := by
  have standing : Standing peers cooldown s.now 0 s :=
    ⟨size, healthy, Nat.le_refl _, by simp [Peer.failures, unasked], fun _ => by simp [Peer.failures, unasked]⟩
  have hrepositories := f.repositories_linked (l := tracking (σ := σ) peers cooldown s.now)
    ⟨chainId, _, t, known, known', tracking_nodes correct given op.chain⟩ tracking_clocks
  cases op with
  | height chain tag =>
    exact call_recovers c _ _ (hrepositories.height tag) (fun _ _ => congrArg _) standing closed few bearable ok
  | blocks chain numbers full =>
    have hsame : ∀ found found', SameBlocks found found' →
        (Finding.blocks found).timeless = (Finding.blocks found').timeless :=
      fun _ _ h => congrArg Finding.blocks h
    exact call_recovers c _ _ (hrepositories.blocks numbers full) hsame standing closed few bearable ok
  | block chain tag full =>
    exact call_recovers c _ _ (hrepositories.block tag full) (fun _ _ => congrArg _) standing closed few
      bearable ok
  | logs chain filter =>
    exact call_recovers c _ _ (hrepositories.logs filter) (fun _ _ => congrArg _) standing closed few bearable ok
  | receipts chain refs =>
    exact call_recovers c _ _ (hrepositories.receipts refs) (fun _ _ => congrArg _) standing closed few
      bearable ok

def Deed.isWait {β : Type} : Deed β → Bool
  | .slept _ => true
  | .read _ | .used _ _ | .invoked _ | .counted _ => false

theorem countP_isWait_deeds (chain method : String) (r : Round β) :
    (r.deeds chain method).countP Deed.isWait = 0 := by
  cases r <;> rfl

theorem length_le_waits (c : Resilience) (chain method : String) (attempt : Nat) (rounds : List (Round β)) :
    rounds.length ≤ (trail c chain method attempt rounds).countP Deed.isWait + 1 := by
  induction rounds generalizing attempt with
  | nil => exact Nat.zero_le _
  | cons r rounds ih =>
    cases rounds with
    | nil => simp
    | cons next rounds =>
      have hlater := ih (attempt + 1)
      rw [trail, List.countP_append, countP_isWait_deeds, List.countP_cons_of_pos rfl, List.length_cons]
      omega

theorem dry_notMem_of_trail {c : Resilience} {chain method : String} {attempt : Nat} {rounds : List (Round β)}
    (calls : (trail c chain method attempt rounds).countP Deed.isWait <
      ((trail c chain method attempt rounds).filterMap Deed.invocation?).length) (look draw : Use) :
    .dry look draw ∉ rounds := by
  intro hdry
  have hmade : (rounds.filterMap Round.made?).length < rounds.length :=
    List.length_filterMap_lt_length_iff_exists.mpr ⟨_, hdry, rfl⟩
  have hlength := length_le_waits c chain method attempt rounds
  rw [trail_invocations] at calls
  omega

theorem Finding.eq_height_of_timeless {result : Except RepositoryError Finding} {n : UInt64}
    (h : result.map Finding.timeless = .ok (.height n)) : result = .ok (.height n) := by
  cases result with
  | error e => cases h
  | ok found =>
    have htimeless : found.timeless = .height n := Except.ok.inj h
    cases found <;> simp_all [Finding.timeless]

@[reducible] private def stillness : Outside Unit where
  elapse := pure 0
  wait ms := pure ms
  wall := pure ⟨2024, 1, 1, 0, 0⟩
  unixTime := pure 1704067200
  count _ := pure ()

@[reducible] private def midnight : Clock (StateM Unit) where
  now := pure 0
  sleep _ := pure ()
  wall := pure ⟨2024, 1, 1, 0, 0⟩
  unixTime := pure 1704067200

private def sixteen : Answers where
  send r := { id := r.id
              result := some (.obj [("number", .str "0x10"), ("hash", .str "0xab"), ("timestamp", .str "0x5")]) }
  batch _ := []

private def company : List (Peer Unit) :=
  [.failing (fun _ => pure 5) fun _ _ => ⟨.timeout 30000, rfl⟩, .correct fun _ => pure 7,
    .failing (fun _ => pure 1) fun _ _ => ⟨.http "refused", rfl⟩]

private def outage : Scene Unit where
  now := 100000
  guards := []
  pool := ⟨[⟨"a", true, none⟩, ⟨"b", true, none⟩, ⟨"c", false, some 20000⟩], 5⟩
  contacts := []
  outside := ()

private def alone : Transport (StateM Unit) where
  url := "b"
  send r := pure (.ok (sixteen.send r))
  batch rs := pure (.ok (sixteen.batch rs))
  health := pure .healthy

theorem two_of_three_fail_over : letI := stillness; letI := midnight
    let op := Operation.height "eth" .latest
    let pool := Pool.transport Scene.poolCell (Peer.transports sixteen company) 30000 "eth"
    (op.perform (ChainFamily.evm.repository [("eth", ⟨1, alone⟩)]) ()).1 = .ok (.height 16) ∧
      let page := (op.perform ((watched {} scenery).repository
        (invoked (ChainFamily.evm.repository [("eth", ⟨1, pool⟩)])))).run outage
      (∃ rounds : List (Round Finding), page.deeds = trail {} "eth" "get_block_height" 1 rounds ∧
        ∀ look draw, .dry look draw ∉ rounds) ∧
      page.after.now < 130000 ∧ page.after.contacts = [2, 0, 1] ∧ page.after.contacts.count 0 ≤ 1 ∧
      page.after.contacts.count 2 ≤ 1 ∧ page.result = .ok (.height 16) := by
  let _ := stillness
  let _ := midnight
  intro op pool
  have ok : (op.perform (ChainFamily.evm.repository [("eth", ⟨1, alone⟩)]) ()).1 = .ok (.height 16) := rfl
  have correct : ∃ peer ∈ company, peer.isFailing = false :=
    ⟨.correct fun _ => pure 7, List.mem_cons_of_mem _ List.mem_cons_self, rfl⟩
  have healthy : ∀ (i : Nat) (peer : Peer Unit) (q : Provider), company[i]? = some peer →
      peer.isFailing = false → outage.pool.providers[i]? = some q → q.healthy = true := by
    intro i peer q hpeer hcorrect hq
    match i with
    | 0 | 2 =>
      cases hpeer
      cases hcorrect
    | 1 =>
      cases hq
      rfl
    | _ + 3 => cases hpeer
  have known : Registry.get [("eth", ⟨1, pool⟩)] "eth" = .ok ⟨1, pool⟩ := rfl
  have known' : Registry.get [("eth", ⟨1, alone⟩)] "eth" = .ok ⟨1, alone⟩ := rfl
  have given : sixteen.GivenBy alone := ⟨fun _ _ => rfl, fun _ _ => rfl⟩
  have size : outage.pool.providers.length = company.length := rfl
  obtain ⟨rounds, htrail, -, hrest⟩ := fails_over {} .evm op known known' given ok size correct healthy rfl rfl
    (by decide) (by decide)
  refine ⟨ok, ?_⟩
  intro page
  have early : page.after.now < 130000 := by decide +kernel
  have hcontacts : page.after.contacts = [2, 0, 1] := by decide +kernel
  have calls : page.deeds.countP Deed.isWait < (page.deeds.filterMap Deed.invocation?).length := by
    decide +kernel
  have tokens : ∀ look draw, .dry look draw ∉ rounds := by
    rw [htrail] at calls
    exact dry_notMem_of_trail calls
  obtain ⟨honce, hfinds⟩ := hrest early
  exact ⟨⟨rounds, htrail, tokens⟩, early, hcontacts, honce 0 _ rfl rfl, honce 2 _ rfl rfl,
    Finding.eq_height_of_timeless (hfinds tokens)⟩

end GuardPost

end ChainFeed

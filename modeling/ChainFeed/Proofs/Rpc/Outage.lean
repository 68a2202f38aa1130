import ChainFeed.Proofs.List
import ChainFeed.Proofs.Rpc.Contacts
import ChainFeed.Proofs.Run

/-!
# Total outages

When no provider of a pool can be used, each call still goes to one that failed longest ago. If it fails
again it has failed last, so as long as the outage goes on the providers are asked in rotation: a series of
as many failing calls as there are providers reaches each of them once.
-/

namespace ChainFeed.Rpc

variable {ω α : Type}

/-- A provider, by the time that a call to it takes and what it gives. -/
structure Endpoint (ω : Type) where
  send : Request → StateM ω (Nat × Except TransportError Response)
  batch : List Request → StateM ω (Nat × Except TransportError (List Response))

namespace Endpoint

def contact (place : Nat) (call : StateM ω (Nat × Except TransportError α)) :
    StateM (Scene ω) (Except TransportError α) := fun s =>
  let ((ms, result), outside) := call s.outside
  (result, { s with now := s.now + ms, contacts := s.contacts ++ [place], outside })

def transport (place : Nat) (e : Endpoint ω) : Transport (StateM (Scene ω)) where
  url := ""
  send r := contact place (e.send r)
  batch rs := contact place (e.batch rs)
  health := pure .unknown

def transports (endpoints : List (Endpoint ω)) : List (Transport (StateM (Scene ω))) :=
  endpoints.mapIdx transport

end Endpoint

inductive Sending where
  | single (r : Request)
  | batch (rs : List Request)

/-- A call of which only the failure is kept. -/
def outcomeOf (x : StateM (Scene ω) (Except TransportError α)) :
    StateM (Scene ω) (Except TransportError PUnit) := do
  return (← x).map fun _ => ⟨⟩

def Sending.via (t : Transport (StateM (Scene ω))) : Sending → StateM (Scene ω) (Except TransportError PUnit)
  | .single r => outcomeOf (t.send r)
  | .batch rs => outcomeOf (t.batch rs)

namespace Scene

variable [Outside ω]

/-- A call through the pool, if it fails in a way that a retry may mend. -/
def failing? (endpoints : List (Endpoint ω)) (cooldown : Nat) (chain : String) (s : Scene ω) (sending : Sending) :
    Option (Scene ω) :=
  match sending.via (Pool.transport poolCell (Endpoint.transports endpoints) cooldown chain) s with
  | (.error e, t) => if e.isRetryable then some t else none
  | (.ok _, _) => none

end Scene

theorem Pool.learn_map {β : Type} (p : Pool) (now i : Nat) (f : α → β) (result : Except TransportError α) :
    p.learn now i (result.map f) = p.learn now i result := by
  cases result <;> rfl

section

variable [Outside ω] {endpoints : List (Endpoint ω)} {cooldown i : Nat} {chain : String}
  {s t first last : Scene ω} {sending : Sending} {trail : List (Scene ω × Sending)}

theorem call_picked (use : Transport (StateM (Scene ω)) → StateM (Scene ω) (Except TransportError α))
    (call : Endpoint ω → StateM ω (Nat × Except TransportError α))
    (use_eq : ∀ i e, use (Endpoint.transport i e) = Endpoint.contact i (call e))
    (some_provider : s.pool.providers ≠ []) (pick : (s.pool.pick cooldown s.pickTime).1 = some i)
    (at_place : i < endpoints.length) :
    ∃ result after outside, s.pickTime ≤ after ∧
      Pool.call Scene.poolCell (Endpoint.transports endpoints) cooldown use s =
        (result, { now := after, guards := s.guards, contacts := s.contacts ++ [i], outside
                   pool := { s.pool with cursor := s.pool.cursor + 1 }.learn after i result }) := by
  let picked : Scene ω :=
    { ((Clock.now : StateM (Scene ω) Nat) s).2 with pool := { s.pool with cursor := s.pool.cursor + 1 } }
  let asked := Endpoint.contact i (call endpoints[i]) picked
  let seen := ((Clock.now : StateM (Scene ω) Nat) asked.2).2
  have hlater : s.pickTime ≤ seen.now := Nat.le_trans (Nat.le_add_right _ _) (Nat.le_add_right _ _)
  have htransport : (Endpoint.transports endpoints)[i]? = some (Endpoint.transport i endpoints[i]) := by
    rw [Endpoint.transports, List.getElem?_mapIdx, List.getElem?_eq_getElem at_place, Option.map_some]
  refine ⟨asked.1, seen.now, seen.outside, hlater, ?_⟩
  rw [call_of_pick use some_provider pick htransport, use_eq]
  rfl

theorem via_picked (sending : Sending) (chain : String) (some_provider : s.pool.providers ≠ [])
    (pick : (s.pool.pick cooldown s.pickTime).1 = some i) (at_place : i < endpoints.length) :
    ∃ result after outside, s.pickTime ≤ after ∧
      sending.via (Pool.transport Scene.poolCell (Endpoint.transports endpoints) cooldown chain) s =
        (result, { now := after, guards := s.guards, contacts := s.contacts ++ [i], outside
                   pool := { s.pool with cursor := s.pool.cursor + 1 }.learn after i result }) := by
  cases sending with
  | single r =>
    obtain ⟨result, after, outside, hafter, hcall⟩ :=
      call_picked (·.send r) (·.send r) (fun _ _ => rfl) some_provider pick at_place
    refine ⟨result.map fun _ => ⟨⟩, after, outside, hafter, ?_⟩
    change outcomeOf (Pool.call _ _ cooldown (·.send r)) s = _
    rw [outcomeOf, stateM_bind_apply, hcall, Pool.learn_map]
    rfl
  | batch rs =>
    obtain ⟨result, after, outside, hafter, hcall⟩ :=
      call_picked (·.batch rs) (·.batch rs) (fun _ _ => rfl) some_provider pick at_place
    refine ⟨result.map fun _ => ⟨⟩, after, outside, hafter, ?_⟩
    change outcomeOf (Pool.call _ _ cooldown (·.batch rs)) s = _
    rw [outcomeOf, stateM_bind_apply, hcall, Pool.learn_map]
    rfl

theorem Scene.failing?_eq_some (size : endpoints.length = s.pool.size) (some_provider : s.pool.providers ≠ [])
    (skipped : ∀ i, ¬ s.pool.Eligible cooldown s.pickTime i)
    (h : s.failing? endpoints cooldown chain sending = some t) :
    ∃ i, s.pool.FailedFirst i ∧ t.contacts = s.contacts ++ [i] ∧ s.pickTime ≤ t.now ∧
      t.pool.providers = (s.pool.markOffline t.now i).providers := by
  obtain ⟨i, hpick, hfirst⟩ := Pool.pick_failedFirst some_provider skipped
  obtain ⟨result, after, outside, hafter, hvia⟩ :=
    via_picked sending chain some_provider hpick (size ▸ hfirst.lt_size)
  rw [failing?, hvia] at h
  cases result with
  | ok => cases h
  | error e =>
    simp only at h
    split at h
    · next hretryable =>
      cases h
      refine ⟨i, hfirst, rfl, hafter, ?_⟩
      simp only [Pool.learn, hretryable, if_true]
      rfl
    · cases h

/-- The providers at the places `probed` have failed one after the other since the first call; the others are
as they were then. -/
structure Probing (first s : Scene ω) (probed : List Nat) : Prop where
  size : s.pool.size = first.pool.size
  contacts : s.contacts = first.contacts ++ probed
  places : ∀ i ∈ probed, i < first.pool.size
  nodup : probed.Nodup
  late : ∀ i ∈ probed, ∃ q t, s.pool.providers[i]? = some q ∧ q.failedAt = some t ∧ first.pickTime ≤ t
  untouched : ∀ i, i ∉ probed → s.pool.providers[i]? = first.pool.providers[i]?
  later : first.pickTime ≤ s.pickTime

namespace Probing

variable {probed : List Nat}

protected theorem start (first : Scene ω) : Probing first first [] where
  size := rfl
  contacts := (List.append_nil _).symm
  places := by simp
  nodup := List.nodup_nil
  late := by simp
  untouched := fun _ _ => rfl
  later := Nat.le_refl _

theorem failedFirst_left (h : Probing first s probed) (few : probed.length < first.pool.size)
    (before : ∀ q ∈ first.pool.providers, ∀ t, q.failedAt = some t → t < first.pickTime)
    (failedFirst : s.pool.FailedFirst i) : i ∉ probed := by
  intro hi
  obtain ⟨j, hj, hleft⟩ := exists_left few
  obtain ⟨q, t, hq, ht, hleast⟩ := failedFirst
  obtain ⟨q', t', hq', ht', hlate⟩ := h.late i hi
  have hother : s.pool.providers[j]? = some first.pool.providers[j] := by
    rw [h.untouched j hleft, List.getElem?_eq_getElem hj]
  obtain ⟨tj, htj, hle⟩ := hleast _ (List.mem_of_getElem? hother)
  have hearly := before _ (List.getElem_mem hj) tj htj
  rw [hq] at hq'
  cases hq'
  rw [ht] at ht'
  cases ht'
  omega

/-- A failing call probes one more provider. -/
theorem step (h : Probing first s probed) (size : endpoints.length = first.pool.size)
    (few : probed.length < first.pool.size)
    (before : ∀ q ∈ first.pool.providers, ∀ t, q.failedAt = some t → t < first.pickTime)
    (skipped : ∀ i, ¬ s.pool.Eligible cooldown s.pickTime i)
    (move : s.failing? endpoints cooldown chain sending = some t) : ∃ i, Probing first t (probed ++ [i]) := by
  have hsome : s.pool.providers ≠ [] := by
    refine List.ne_nil_of_length_pos ?_
    rw [← Pool.size, h.size]
    omega
  obtain ⟨i, hfirst, hcontacts, hlater, hproviders⟩ :=
    Scene.failing?_eq_some (size.trans h.size.symm) hsome skipped move
  have hleft := h.failedFirst_left few before hfirst
  have hlt : i < first.pool.size := h.size ▸ hfirst.lt_size
  obtain ⟨q, -, hq, -⟩ := hfirst
  -- Nothing changes but the provider that was asked, which has now failed last.
  have hget : ∀ j, t.pool.providers[j]? =
      if i = j then some { q with healthy := false, failedAt := some t.now } else s.pool.providers[j]? := by
    intro j
    rw [hproviders, Pool.markOffline, List.getElem?_modify]
    split
    · next hsame =>
      subst hsame
      rw [hq]
      rfl
    · exact Option.map_id'
  have hpassed : first.pickTime ≤ t.now := Nat.le_trans h.later hlater
  refine ⟨i, ?_, ?_, ?_, ?_, ?_, ?_, ?_⟩
  · rw [← h.size, Pool.size, hproviders, Pool.markOffline, List.length_modify, Pool.size]
  · rw [hcontacts, h.contacts, List.append_assoc]
  · exact List.forall_mem_append.mpr ⟨h.places, by simpa using hlt⟩
  · rw [← List.concat_eq_append]
    exact h.nodup.concat hleft
  · intro j hj
    rw [hget]
    by_cases hsame : i = j
    · exact ⟨_, t.now, if_pos hsame, rfl, hpassed⟩
    · rw [if_neg hsame]
      refine h.late j ?_
      simpa [Ne.symm hsame] using hj
  · intro j hj
    have hne : i ≠ j := by
      rintro rfl
      simp at hj
    rw [hget, if_neg hne]
    refine h.untouched j fun hmem => hj ?_
    exact List.mem_append_left _ hmem
  · exact Nat.le_trans hpassed t.now_le_pickTime

end Probing

/-- The calls of a series of failing calls probe different providers, as long as some are left. -/
theorem probing_run (size : endpoints.length = first.pool.size)
    (h : Run (Scene.failing? endpoints cooldown chain) first trail last) (few : trail.length ≤ first.pool.size)
    (before : ∀ q ∈ first.pool.providers, ∀ t, q.failedAt = some t → t < first.pickTime)
    (skipped : ∀ p ∈ trail, ∀ i, ¬ p.1.pool.Eligible cooldown p.1.pickTime i) :
    ∃ probed, probed.length = trail.length ∧ Probing first last probed := by
  induction h with
  | start => exact ⟨[], rfl, .start first⟩
  | @step trail s t sending _ move ih =>
    rw [List.length_append, List.length_singleton] at few
    obtain ⟨hskipped, hlast⟩ := List.forall_mem_append.mp skipped
    obtain ⟨probed, hlength, hprobing⟩ := ih (by omega) hskipped
    obtain ⟨i, hnext⟩ := hprobing.step size (by omega) before (hlast _ (List.mem_singleton_self _)) move
    exact ⟨probed ++ [i], by simp [hlength], hnext⟩

/-- When every provider is being skipped, as many failing calls as there are providers, single ones or
batches, contact each provider once. It is enough that the first of them comes after all the failures before
and that no provider is done with its cool-down at any of them. -/
theorem probes_every_provider (size : endpoints.length = first.pool.size)
    (h : Run (Scene.failing? endpoints cooldown chain) first trail last) (whole : trail.length = first.pool.size)
    (before : ∀ q ∈ first.pool.providers, ∀ t, q.failedAt = some t → t < first.pickTime)
    (skipped : ∀ p ∈ trail, ∀ i, ¬ p.1.pool.Eligible cooldown p.1.pickTime i) :
    ∃ probed, last.contacts = first.contacts ++ probed ∧ probed.Perm (List.range first.pool.size) := by
  obtain ⟨probed, hlength, hprobing⟩ := probing_run size h whole.le before skipped
  have hsubset : probed ⊆ List.range first.pool.size := fun i hi => List.mem_range.mpr (hprobing.places i hi)
  refine ⟨probed, hprobing.contacts, (List.subperm_of_subset hprobing.nodup hsubset).perm_of_length_le ?_⟩
  rw [List.length_range, hlength, whole]

end

@[reducible] private def ticking : Outside Unit where
  elapse := pure 1
  wait ms := pure ms
  wall := pure ⟨2024, 1, 1, 21600, 0⟩
  unixTime := pure 1704088800
  count _ := pure ⟨⟩

private def down (e : TransportError) : Endpoint Unit where
  send _ := pure (2, .error e)
  batch _ := pure (3, .error e)

private def dark : List (Endpoint Unit) := [down (.http "down"), down (.timeout 3), down (.rateLimited "c")]

private def dusk : Scene Unit where
  now := 20
  guards := {}
  pool := ⟨[⟨"a", false, some 15⟩, ⟨"b", false, some 15⟩, ⟨"c", false, some 10⟩], 7⟩
  contacts := [2, 0, 1]
  outside := ()

private def calls : List Sending := [.batch [], .single (.positional 1 "eth_chainId" []), .batch []]

private def night : List (Scene Unit × Sending) × Scene Unit :=
  letI := ticking
  (replay? (Scene.failing? dark 30 "chain") dusk calls).getD ([], dusk)

theorem night_probes_every_provider : letI := ticking
    dark.length = dusk.pool.size ∧ Run (Scene.failing? dark 30 "chain") dusk night.1 night.2 ∧
      night.1.length = dusk.pool.size ∧
      (∀ q ∈ dusk.pool.providers, ∀ t ∈ q.failedAt, t < dusk.pickTime) ∧
      (∀ p ∈ night.1, ∀ q ∈ p.1.pool.providers, q.isEligible 30 p.1.pickTime = false) ∧
      night.2.contacts = [2, 0, 1, 2, 0, 1] ∧
      ∃ probed, night.2.contacts = dusk.contacts ++ probed ∧ probed.Perm (List.range 3) := by
  have hreplay : replay? (@Scene.failing? Unit ticking dark 30 "chain") dusk calls = some (night.1, night.2) := rfl
  have hrun := Run.of_replay hreplay
  have hbefore : ∀ q ∈ dusk.pool.providers, ∀ t ∈ q.failedAt, t < @Scene.pickTime Unit ticking dusk := by decide
  have hskipped : ∀ p ∈ night.1, ∀ q ∈ p.1.pool.providers,
      q.isEligible 30 (@Scene.pickTime Unit ticking p.1) = false := by decide
  let _ := ticking
  refine ⟨rfl, hrun, rfl, hbefore, hskipped, rfl, probes_every_provider rfl hrun rfl hbefore ?_⟩
  rintro p hp i ⟨q, hq, heligible⟩
  have hnot := hskipped p hp q (List.mem_of_getElem? hq)
  rw [Provider.isEligible_iff.mpr heligible] at hnot
  cases hnot

end ChainFeed.Rpc

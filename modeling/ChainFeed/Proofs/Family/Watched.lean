import ChainFeed.Proofs.Family.Answers
import ChainFeed.Proofs.Journal

/-!
# Watched nodes

The chains of a repository are watched while their nodes answer in any way they like: every call to a
node is written down. Blocks are asked for in one batch.
-/

namespace ChainFeed

open Rpc (Request Response TransportError)

namespace Registry

variable {σ : Type}

inductive Deed where
  | sent (chain : String) (r : Request) (answer : Except TransportError Response)
  | batched (chain : String) (rs : List Request) (answer : Except TransportError (List Response))
  | checked (chain : String) (health : Rpc.Health)

/-- The same chain, with the calls to its node written down. -/
def watchedChain (chain : String) (c : ChainSettings (StateM σ)) : ChainSettings (Journal Deed σ) where
  chainId := c.chainId
  transport :=
    { url := c.transport.url
      send r := .watch (.sent chain r) (c.transport.send r)
      batch rs := .watch (.batched chain rs) (c.transport.batch rs)
      health := .watch (.checked chain) c.transport.health }

def watched (chains : Registry (StateM σ)) : Registry (Journal Deed σ) :=
  chains.map fun c => (c.1, watchedChain c.1 c.2)

instance [Clock (StateM σ)] : Clock (Journal Deed σ) where
  now := .quiet Clock.now
  sleep ms := .quiet (Clock.sleep ms)
  wall := .quiet Clock.wall
  unixTime := .quiet Clock.unixTime

theorem get_watched {chains : Registry (StateM σ)} {chain : String} {c : ChainSettings (StateM σ)}
    (known : chains.get chain = .ok c) : chains.watched.get chain = .ok (watchedChain chain c) := by
  have hfind : chains.find? (·.1 == chain) = some (chain, c) := by
    unfold get at known
    split at known
    · next name settings hfound =>
      cases known
      have hname := List.find?_some hfound
      have hsame : name = chain := eq_of_beq hname
      rw [hfound, hsame]
    · cases known
  have hwatched : chains.watched.find? (·.1 == chain) = some (chain, watchedChain chain c) := by
    rw [watched, List.find?_map]
    exact congrArg (Option.map fun c => (c.1, watchedChain c.1 c.2)) hfind
  rw [get, hwatched]

theorem run_askAll (chain : String) (c : ChainSettings (StateM σ)) (rs : List Request)
    (something : rs ≠ []) (s : σ) : (Family.askAll (watchedChain chain c).transport rs).run.run s =
      let (answer, after) := c.transport.batch rs s
      ⟨answer.mapError RepositoryError.ofTransport, [.batched chain rs answer], after⟩ := by
  have hasked : rs.isEmpty = false := by simpa using something
  obtain ⟨⟨answer, after⟩, hanswer⟩ : ∃ p, c.transport.batch rs s = p := ⟨_, rfl⟩
  simp [Family.askAll, hasked, Family.carried, watchedChain, hanswer]

theorem run_ask (chain : String) (c : ChainSettings (StateM σ)) (r : Request) (s : σ) :
    (Family.ask (watchedChain chain c).transport r).run.run s =
      let (answer, after) := c.transport.send r s
      ⟨(answer.mapError RepositoryError.ofTransport).bind Family.result, [.sent chain r answer], after⟩ := by
  obtain ⟨⟨answer, after⟩, hanswer⟩ : ∃ p, c.transport.send r s = p := ⟨_, rfl⟩
  cases answer <;> simp [Family.ask, Family.carried, Family.having, watchedChain, hanswer, ExceptT.run_bind,
    Except.mapError, Except.bind]

variable {β : Type} (d : Family.BlockDialect β) (chain : String) (c : ChainSettings (StateM σ))

theorem run_fetch_nil {numbers : BlockSet} (nothing : numbers.toList = []) (s : σ) :
    (d.fetch (watchedChain chain c).transport numbers).run.run s = ⟨.ok [], [], s⟩ := by
  simp [Family.BlockDialect.fetch, Family.askAll, nothing, Family.having,
    Family.BlockDialect.readAnswers, ExceptT.run_bind]

theorem run_fetch {numbers : BlockSet} (something : numbers.toList ≠ []) (s : σ) :
    (d.fetch (watchedChain chain c).transport numbers).run.run s =
      let (answer, after) := c.transport.batch (numbers.toList.map d.request) s
      ⟨(answer.mapError RepositoryError.ofTransport).bind fun rs => d.readAnswers rs numbers.toList,
        [.batched chain (numbers.toList.map d.request) answer], after⟩ := by
  have hcarried := run_askAll chain c (numbers.toList.map d.request) (by simp [something]) s
  obtain ⟨⟨answer, after⟩, hanswer⟩ : ∃ p, c.transport.batch (numbers.toList.map d.request) s = p := ⟨_, rfl⟩
  rw [hanswer] at hcarried ⊢
  exact Journal.run_bind_mk hcarried fun responses => d.readAnswers responses numbers.toList

/-- What is made of a block does not change how it is asked for. -/
theorem run_fetch_map {γ : Type} (g : β → γ) (numbers : BlockSet) (s : σ) :
    ((d.map g).fetch (watchedChain chain c).transport numbers).run.run s =
      let page := (d.fetch (watchedChain chain c).transport numbers).run.run s
      ⟨page.result.map (List.map fun p => (p.1, p.2.map g)), page.deeds, page.after⟩ := by
  by_cases hnumbers : numbers.toList = []
  · rw [run_fetch_nil d chain c hnumbers, run_fetch_nil (d.map g) chain c hnumbers]
    rfl
  · rw [run_fetch d chain c hnumbers, run_fetch (d.map g) chain c hnumbers]
    have hrequest : (d.map g).request = d.request := rfl
    rw [hrequest]
    obtain ⟨⟨answer, after⟩, hanswer⟩ : ∃ p, c.transport.batch (numbers.toList.map d.request) s = p := ⟨_, rfl⟩
    rw [hanswer]
    cases answer with
    | error e => rfl
    | ok responses =>
      simp only [Except.mapError, Except.bind, Family.BlockDialect.readAnswers_map]

theorem run_stamped [Clock (StateM σ)] {α γ : Type}
    {x : ExceptT RepositoryError (Journal Deed σ) α} {found : Except RepositoryError α} {deeds : List Deed}
    {s s₁ : σ} (hx : x.run.run s = ⟨found, deeds, s₁⟩) (g : Int64 → α → γ) :
    ∃ now after, (do
      let a ← x
      let now ← (Clock.unixTime : Journal Deed σ Int64)
      return g now a : ExceptT RepositoryError (Journal Deed σ) γ).run.run s =
        ⟨found.map (g now), deeds, after⟩ := by
  let clock := (Clock.unixTime : StateM σ Int64) s₁
  have hquiet : (liftM (Clock.unixTime : Journal Deed σ Int64) :
      ExceptT RepositoryError (Journal Deed σ) Int64).run.run s₁ = ⟨.ok clock.1, [], clock.2⟩ := rfl
  refine ⟨clock.1, ?_⟩
  cases found with
  | error e => exact ⟨s₁, Journal.run_bind_error hx⟩
  | ok a =>
    refine ⟨clock.2, ?_⟩
    rw [← List.append_nil deeds]
    exact Journal.run_bind_ok hx (Journal.run_bind_ok hquiet rfl)

end Registry
end ChainFeed

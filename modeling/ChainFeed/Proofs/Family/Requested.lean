import ChainFeed.Proofs.Ends
import ChainFeed.Proofs.Family.Links
import ChainFeed.Proofs.Family.Watched

/-!
# Requested blocks

A watched node answers what it answers unwatched. So what is known of the results holds of the watched
computations too, and there it can be said which blocks are asked for, in which batches.
-/

namespace ChainFeed

open Rpc (Request Transport)

variable {σ α β : Type}

namespace Journal

variable {δ ε γ : Type} {R : α → β → Prop} {x : ExceptT ε (Journal δ σ) α} {y : ExceptT ε (StateM σ) β}

/-- Where the second computation gives a result, the first one gives one like it and leaves the same
surroundings. -/
def Erases (R : α → β → Prop) (x : ExceptT ε (Journal δ σ) α) (y : ExceptT ε (StateM σ) β) : Prop :=
  ∀ s b, (y.run s).1 = .ok b →
    ∃ a, (x.run.run s).result = .ok a ∧ R a b ∧ (x.run.run s).after = (y.run s).2

theorem Erases.bind {γ' : Type} {S : γ → γ' → Prop} {f : α → ExceptT ε (Journal δ σ) γ}
    {g : β → ExceptT ε (StateM σ) γ'} (h : Erases R x y) (next : ∀ a b, R a b → Erases S (f a) (g b)) :
    Erases S (x >>= f) (y >>= g) := by
  intro s c hc
  obtain ⟨b, hb, hg⟩ := bind_run_eq_ok hc
  obtain ⟨a, ha, hrel, hafter⟩ := h s b hb
  rw [← hafter] at hg
  obtain ⟨d, hd, hrel', hafter'⟩ := next a b hrel _ c hg
  have hx : x.run.run s = ⟨.ok a, (x.run.run s).deeds, (x.run.run s).after⟩ := by rw [← ha]
  rw [run_bind_ok hx rfl, stateM_run_bind_ok hb, ← hafter]
  exact ⟨d, hd, hrel', hafter'⟩

end Journal

open Journal (Erases)

def erasing {δ : Type} : Family.Link (Journal δ σ) (StateM σ) where
  rel := Erases
  pure h := fun _ _ hb => ⟨_, rfl, Except.ok.inj hb ▸ h, rfl⟩
  throw _ _ := fun _ _ hb => by cases hb
  bind := Erases.bind

namespace Registry

variable {chains : Registry (StateM σ)} {chain : String} {c : ChainSettings (StateM σ)}

theorem erases_carried {δ : Type} (name : Except Rpc.TransportError α → δ)
    (call : StateM σ (Except Rpc.TransportError α)) :
    Erases Eq (Family.carried (.watch name call)) (Family.carried call) :=
  fun _ a ha => ⟨a, ha, rfl, rfl⟩

theorem erasing_registries (known : chains.get chain = .ok c) :
    erasing.Registries chains.watched chains chain :=
  ⟨c.chainId, _, c.transport, get_watched known, known, fun _ => erases_carried _ _, fun _ => erases_carried _ _⟩

theorem erasing_clocks [Clock (StateM σ)] : (erasing (σ := σ) (δ := Deed)).Clocks :=
  fun _ _ _ => ⟨_, rfl, trivial, rfl⟩

/-- The requests for blocks that were sent together. -/
def Deed.blocksAsked : Deed → Option (List Request)
  | .sent _ r _ => if r.method = Near.blockMethod then some [r] else none
  | .batched _ rs _ => if rs.any (·.method == Near.blockMethod) then some rs else none
  | .checked .. => none

end Registry

open Registry (Deed watchedChain)

/-- Whatever is answered, these blocks are asked for. -/
def Asks (x : ExceptT RepositoryError (Journal Deed σ) α) (asked : List (List Request)) : Prop :=
  ∀ s, (x.run.run s).deeds.filterMap Deed.blocksAsked = asked

section Asks

variable {x : ExceptT RepositoryError (Journal Deed σ) α} {f : α → ExceptT RepositoryError (Journal Deed σ) β}
  {asked others : List (List Request)}

theorem asks_pure (a : α) : Asks (pure a : ExceptT RepositoryError (Journal Deed σ) α) [] := fun _ => rfl

theorem asks_throw (e : RepositoryError) : Asks (throw e : ExceptT RepositoryError (Journal Deed σ) α) [] :=
  fun _ => rfl

theorem asks_having (e : Except RepositoryError α) :
    Asks (Family.having e : ExceptT RepositoryError (Journal Deed σ) α) [] := fun _ => rfl

/-- What comes after a result asks for more blocks. -/
theorem Asks.next (hx : Asks x asked) (succeeds : ∀ s, ∃ a, (x.run.run s).result = .ok a)
    (hf : ∀ a, Asks (f a) others) : Asks (x >>= f) (asked ++ others) := by
  intro s
  obtain ⟨a, ha⟩ := succeeds s
  have hpage : x.run.run s = ⟨.ok a, (x.run.run s).deeds, (x.run.run s).after⟩ := by rw [← ha]
  rw [Journal.run_bind_ok hpage rfl, List.filterMap_append, hx s, hf a]

theorem Asks.last (hx : Asks x asked) (hf : ∀ a, Asks (f a) []) : Asks (x >>= f) asked := by
  intro s
  cases hresult : (x.run.run s).result with
  | error e =>
    have hpage : x.run.run s = ⟨.error e, (x.run.run s).deeds, (x.run.run s).after⟩ := by rw [← hresult]
    rw [Journal.run_bind_error hpage]
    exact hx s
  | ok a =>
    have hpage : x.run.run s = ⟨.ok a, (x.run.run s).deeds, (x.run.run s).after⟩ := by rw [← hresult]
    rw [Journal.run_bind_ok hpage rfl, List.filterMap_append, hx s, hf a, List.append_nil]

variable {chain : String} {c : ChainSettings (StateM σ)}

theorem asks_askAll {rs : List Request} (other : ∀ r ∈ rs, r.method ≠ Near.blockMethod) :
    Asks (Family.askAll (watchedChain chain c).transport rs) [] := by
  unfold Family.askAll
  split
  · exact asks_pure []
  · intro s
    have hnone : rs.any (·.method == Near.blockMethod) = false := by simpa using other
    change List.filterMap _ [Deed.batched chain rs _] = []
    rw [List.filterMap_cons_none, List.filterMap_nil]
    simp [Deed.blocksAsked, hnone]

theorem asks_lookup {κ : Type} {lookup : Family.Lookup κ β} (other : lookup.method ≠ Near.blockMethod)
    (keys : List κ) : Asks (lookup.fetch (watchedChain chain c).transport keys) [] := by
  have hrequests : ∀ keys, ∀ r ∈ lookup.requests keys, r.method ≠ Near.blockMethod := by
    intro keys r hr
    obtain ⟨p, -, rfl⟩ := List.mem_map.mp hr
    exact other
  unfold Family.Lookup.fetch
  induction Family.pieces Family.batchSize keys with
  | nil => exact asks_pure []
  | cons keys rest ih =>
    apply (asks_askAll (hrequests keys)).last
    intro responses
    apply (asks_having _).last
    intro found
    exact ih.last fun _ => asks_pure _

end Asks

namespace Near

open Family

variable [Clock (StateM σ)] {chains : Registry (StateM σ)} {chain : String} {c : ChainSettings (StateM σ)}

omit [Clock (StateM σ)] in
theorem asks_complete (full : Bool) (blocks : List (Block × List String)) :
    Asks (complete (watchedChain chain c).transport full blocks) [] := by
  cases full with
  | false => exact asks_pure _
  | true =>
    have hchunks : ∀ r ∈ chunkRequests blocks, r.method ≠ blockMethod := by
      intro r hr
      obtain ⟨p, -, rfl⟩ := List.mem_map.mp hr
      exact fun hsame : chunkMethod = blockMethod => absurd hsame (by decide)
    exact (asks_askAll hchunks).last fun _ => asks_having _

theorem asks_blocks (known : chains.get chain = .ok c) {numbers : BlockSet} (something : numbers.toList ≠ [])
    (full : Bool) :
    Asks (blocks chains.watched chain numbers full) [numbers.toList.map dialect.request] := by
  have hfetch : Asks (dialect.fetch (watchedChain chain c).transport numbers)
      [numbers.toList.map dialect.request] := by
    intro s
    have hblocks : (numbers.toList.map dialect.request).any (·.method == blockMethod) = true := by
      obtain ⟨n, hn⟩ := List.exists_mem_of_ne_nil _ something
      exact List.any_eq_true.mpr ⟨_, List.mem_map_of_mem hn, beq_self_eq_true _⟩
    obtain ⟨⟨answer, after⟩, hanswer⟩ :
      ∃ p, c.transport.batch (numbers.toList.map dialect.request) s = p := ⟨_, rfl⟩
    rw [Registry.run_fetch dialect chain c something, hanswer, List.filterMap_cons_some]
    · rfl
    · rw [Deed.blocksAsked, if_pos hblocks]
  simp only [blocks, serving, Registry.get_watched known]
  apply hfetch.last
  intro found
  have hclock : Asks (liftM (Clock.unixTime : Journal Deed σ Int64) :
      ExceptT RepositoryError (Journal Deed σ) Int64) [] := fun _ => rfl
  apply hclock.last
  intro now
  exact (asks_complete full _).last fun _ => asks_pure _

omit [Clock (StateM σ)] in
theorem asks_receipts (known : chains.get chain = .ok c) (refs : TxRefSet) :
    Asks (receipts chains.watched chain refs) [] := by
  simp only [receipts, serving, Registry.get_watched known]
  split
  · exact asks_throw _
  · have hother : (receiptLookup c.chainId).method ≠ blockMethod :=
      fun hsame : "EXPERIMENTAL_tx_status" = blockMethod => absurd hsame (by decide)
    exact (asks_lookup hother _).last fun _ => asks_pure _

def numbersBetween (first last : Nat) : List UInt64 := (List.range' first (last + 1 - first)).map UInt64.ofNat

theorem numbersBetween_append {a b c : Nat} (hab : a ≤ b) (hbc : b < c) :
    numbersBetween a b ++ numbersBetween (b + 1) c = numbersBetween a c := by
  unfold numbersBetween
  rw [← List.map_append]
  congr 1
  have hnext : b + 1 = a + (b + 1 - a) := by omega
  have hall : c + 1 - a = (b + 1 - a) + (c + 1 - (b + 1)) := by omega
  rw [hall, ← List.range'_append_1, ← hnext]

theorem toList_range {first last : Nat} (fits : last < UInt64.size) :
    (BlockSet.range first last).toList = numbersBetween first last := by
  have hascending : (numbersBetween first last).Pairwise fun a b => numberBefore a b = true := by
    unfold numbersBetween
    rw [List.pairwise_map]
    refine List.Pairwise.imp_of_mem ?_ List.pairwise_lt_range'
    intro a b ha hb hlt
    have ha' := List.mem_range'_1.mp ha
    have hb' := List.mem_range'_1.mp hb
    have hword : UInt64.ofNat a < UInt64.ofNat b := by
      rw [UInt64.lt_iff_toNat_lt, Json.toNat_ofNat_word (by omega), Json.toNat_ofNat_word (by omega)]
      exact hlt
    exact decide_eq_true hword
  exact Ascending.toList_ofList _ hascending

omit [Clock (StateM σ)] in
/-- A scan asks for every block of its range once, in consecutive batches. -/
theorem asks_scan {fetch : BlockSet → ExceptT RepositoryError (Journal Deed σ) BlockMap} {filter : LogFilter}
    {size last : Nat} (first : Nat) (hsize : 0 < size) (hrange : first ≤ last)
    (batch : ∀ a b, first ≤ a → a ≤ b → b ≤ last → b < a + size →
      Asks (fetch (.range a b)) [(numbersBetween a b).map dialect.request] ∧
        ∀ s, ∃ found, ((fetch (.range a b)).run.run s).result = .ok found) :
    ∃ batches : List (List UInt64),
      Asks (scan fetch filter size last first) (batches.map (List.map dialect.request)) ∧
      batches.flatten = numbersBetween first last ∧ ∀ batch ∈ batches, batch ≠ [] ∧ batch.length ≤ size := by
  induction first using scan.induct size last with
  | case1 first stop ih =>
    rw [scan]
    have hfirst : first ≤ stop := Nat.le_min.mpr ⟨Nat.le_add_right _ _, hrange⟩
    have hlast : stop ≤ last := Nat.min_le_right _ _
    have hshort : stop < first + size := by omega
    have hlength : (numbersBetween first stop).length = stop + 1 - first := by simp [numbersBetween]
    have hpiece : numbersBetween first stop ≠ [] ∧ (numbersBetween first stop).length ≤ size := by
      constructor
      · apply List.ne_nil_of_length_pos
        omega
      · omega
    obtain ⟨hasks, hsucceeds⟩ := batch first stop (Nat.le_refl _) hfirst hlast hshort
    by_cases hdone : last ≤ stop
    · have hstop : stop = last := Nat.le_antisymm hlast hdone
      refine ⟨[numbersBetween first stop], ?_, ?_, ?_⟩
      · apply hasks.last
        intro found
        rw [dif_pos hdone]
        exact asks_pure _
      · rw [hstop, List.flatten_singleton]
      · simpa using hpiece
    · obtain ⟨batches, hrest, hflatten, hbatches⟩ := ih hdone (by omega) fun a b ha => batch a b (by omega)
      refine ⟨numbersBetween first stop :: batches, ?_, ?_, ?_⟩
      · apply hasks.next hsucceeds
        intro found
        rw [dif_neg hdone]
        exact hrest.last fun _ => asks_pure _
      · rw [List.flatten_cons, hflatten, numbersBetween_append hfirst (Nat.not_le.mp hdone)]
      · exact List.forall_mem_cons.mpr ⟨hpiece, hbatches⟩

end Near
end ChainFeed

import ChainFeed.Proofs.Family.Watched

/-!
# Blocks by their numbers

A family asks for blocks in one batch and finds each in the response with its number. What it returns
depends on nothing else of the answer, and every number that was asked for has one block under a key of
its own.
-/

namespace ChainFeed

open Rpc (Response)
open Rpc.Response (Distinct Agree Varied)

namespace Block

/-- The block, without its time if it is a placeholder. -/
def timeless (b : Block) : Block := if b.isPlaceholder then { b with timestamp := 0 } else b

@[simp] theorem isPlaceholder_placeholder (n : UInt64) (now : Int64) :
    (placeholder n now).isPlaceholder = true := rfl

theorem key_of_served {b : Block} (h : b.isPlaceholder = false) : b.key = b.hash := by
  rw [key, h]
  rfl

theorem timeless_key (b : Block) : b.timeless.key = b.key := by
  unfold timeless
  split <;> rfl

end Block

namespace ChainFamily

variable {σ : Type} [Clock (StateM σ)] {chains : Registry (StateM σ)} {chain : String}
  {c : ChainSettings (StateM σ)}

/-- The blocks that a family returns, in its order; `now` is the time of the clock on the wall. -/
def arranged (f : ChainFamily) (now : Int64) (found : List (UInt64 × Option Block)) : List Block :=
  match f with
  | .evm | .solana => found.map fun p => p.2.getD (.placeholder p.1 now)
  | .near => found.filterMap (·.2) ++
      found.filterMap fun p => if p.2.isNone then some (.placeholder p.1 now) else none

theorem arranged_near {β : Type} (g : β → Block) (now : Int64) (found : List (UInt64 × Option β)) :
    arranged .near now (found.map fun p => (p.1, p.2.map g)) = (found.filterMap (·.2)).map g ++
      found.filterMap fun p => if p.2.isNone then some (.placeholder p.1 now) else none := by
  simp only [arranged, List.filterMap_map, List.map_filterMap, Function.comp_def, Option.isNone_map]

/-- What comes of fetching blocks is what comes of asking for them, arranged. -/
theorem run_blocks (f : ChainFamily) (known : chains.get chain = .ok c) {numbers : BlockSet} {s s₁ : σ}
    {found : Except RepositoryError (List (UInt64 × Option Block))} {deeds : List Registry.Deed}
    (fetched : (f.dialect.fetch (Registry.watchedChain chain c).transport numbers).run.run s =
      ⟨found, deeds, s₁⟩) :
    ∃ now after, ((f.repository chains.watched).blocks chain numbers false).run s =
      ⟨found.map fun found => .ofBlocks (f.arranged now found), deeds, after⟩ := by
  have hget := Registry.get_watched known
  cases f with
  | evm =>
    have hblocks : Evm.blocks chains.watched chain numbers false = (do
      let found ← (dialect .evm).fetch (Registry.watchedChain chain c).transport numbers
      let now ← (Clock.unixTime : Journal Registry.Deed σ Int64)
      return .ofBlocks (arranged .evm now found)) := by
        simp only [Evm.blocks, Family.serving, hget]
        rfl
    change ∃ now after, (Evm.blocks chains.watched chain numbers false).run.run s = _
    rw [hblocks]
    exact Registry.run_stamped fetched fun now found => BlockMap.ofBlocks (arranged .evm now found)
  | solana =>
    have hblocks : Solana.blocks chains.watched chain numbers false = (do
      let found ← (dialect .solana).fetch (Registry.watchedChain chain c).transport numbers
      let now ← (Clock.unixTime : Journal Registry.Deed σ Int64)
      return .ofBlocks (arranged .solana now found)) := by
        simp only [Solana.blocks, Family.serving, hget]
        rfl
    change ∃ now after, (Solana.blocks chains.watched chain numbers false).run.run s = _
    rw [hblocks]
    exact Registry.run_stamped fetched fun now found => BlockMap.ofBlocks (arranged .solana now found)
  | near =>
    have hblocks : Near.blocks chains.watched chain numbers false = (do
      let found ← Near.dialect.fetch (Registry.watchedChain chain c).transport numbers
      let now ← (Clock.unixTime : Journal Registry.Deed σ Int64)
      return .ofBlocks (arranged .near now (found.map fun p => (p.1, p.2.map Prod.fst)))) := by
        simp only [Near.blocks, Family.serving, hget, Near.complete, arranged_near]
        rfl
    -- Near also reads the hashes of chunks, so what `dialect` finds is a part of what is read.
    obtain ⟨⟨read, asked, between⟩, hfetch⟩ :
      ∃ page, (Near.dialect.fetch (Registry.watchedChain chain c).transport numbers).run.run s = page :=
        ⟨_, rfl⟩
    rw [dialect, Registry.run_fetch_map, hfetch] at fetched
    obtain ⟨rfl, rfl, rfl⟩ := Journal.Page.mk.inj fetched
    obtain ⟨now, after, hrun⟩ := Registry.run_stamped hfetch
      fun now found => BlockMap.ofBlocks (arranged .near now (found.map fun p => (p.1, p.2.map Prod.fst)))
    refine ⟨now, after, ?_⟩
    change (Near.blocks chains.watched chain numbers false).run.run s = _
    rw [hblocks, hrun]
    cases read <;> rfl

def fetched (f : ChainFamily) (chains : Registry (StateM σ)) (chain : String) (numbers : BlockSet) (s : σ) :
    Journal.Page Registry.Deed σ (Except RepositoryError BlockMap) :=
  ((f.repository chains.watched).blocks chain numbers false).run s

private theorem fetched_nil (f : ChainFamily) (known : chains.get chain = .ok c) {numbers : BlockSet}
    (nothing : numbers.toList = []) (s : σ) :
    (f.fetched chains chain numbers s).deeds = [] ∧
      (f.fetched chains chain numbers s).result = .ok [] := by
  obtain ⟨now, after, hrun⟩ := f.run_blocks known (Registry.run_fetch_nil f.dialect chain c nothing s)
  rw [fetched, hrun]
  cases f <;> exact ⟨rfl, rfl⟩

private theorem fetched_some (f : ChainFamily) (known : chains.get chain = .ok c) {numbers : BlockSet}
    (something : numbers.toList ≠ []) (s : σ) :
    let answer := (c.transport.batch (numbers.toList.map f.question) s).1
    (f.fetched chains chain numbers s).deeds = [.batched chain (numbers.toList.map f.question) answer] ∧
      ∃ now, (f.fetched chains chain numbers s).result =
        ((answer.mapError RepositoryError.ofTransport).bind fun responses =>
          f.dialect.readAnswers responses numbers.toList).map
            fun found => .ofBlocks (f.arranged now found) := by
  have hfetch := Registry.run_fetch f.dialect chain c something s
  rw [dialect_request] at hfetch
  obtain ⟨now, after, hrun⟩ := f.run_blocks known hfetch
  rw [fetched, hrun]
  exact ⟨rfl, now, rfl⟩

/-- The node of the chain answers the question for these blocks. -/
def Answered (f : ChainFamily) (chains : Registry (StateM σ)) (chain : String) (numbers : BlockSet) (s : σ)
    (responses : List Response) : Prop :=
  ∃ c, chains.get chain = .ok c ∧ (c.transport.batch (numbers.toList.map f.question) s).1 = .ok responses ∧
    Distinct responses

private theorem Answered.result {f : ChainFamily} {numbers : BlockSet} {s : σ} {responses : List Response}
    (h : f.Answered chains chain numbers s responses) :
    ∃ now, (f.fetched chains chain numbers s).result =
      (f.dialect.readAnswers responses numbers.toList).map fun found => .ofBlocks (f.arranged now found) := by
  obtain ⟨c, known, hanswer, -⟩ := h
  by_cases hnumbers : numbers.toList = []
  · refine ⟨0, (f.fetched_nil known hnumbers s).2.trans ?_⟩
    rw [hnumbers]
    cases f <;> rfl
  · obtain ⟨now, hresult⟩ := (f.fetched_some known hnumbers s).2
    rw [hanswer] at hresult
    exact ⟨now, hresult⟩

def timeless (blocks : BlockMap) : BlockMap := blocks.map fun e => (e.1, e.2.timeless)

theorem timeless_ofBlocks (blocks : List Block) :
    timeless (.ofBlocks blocks) = .ofBlocks (blocks.map Block.timeless) := by
  rw [timeless, BlockMap.ofBlocks, ← Table.ofList_map Block.timeless, BlockMap.ofBlocks, List.map_map,
    List.map_map]
  simp only [Function.comp_def, Block.timeless_key]

theorem timeless_arranged (f : ChainFamily) (now : Int64) (found : List (UInt64 × Option Block)) :
    timeless (.ofBlocks (f.arranged now found)) = timeless (.ofBlocks (f.arranged 0 found)) := by
  have hstamp : ∀ (n : UInt64) (b : Option Block),
      (b.getD (.placeholder n now)).timeless = (b.getD (.placeholder n 0)).timeless := by
    intro n b
    cases b <;> rfl
  have hmissing : ∀ (n : UInt64) (b : Option Block),
      (if b.isNone then some (Block.placeholder n now) else none).map Block.timeless =
        (if b.isNone then some (Block.placeholder n 0) else none).map Block.timeless := by
    intro n b
    cases b <;> rfl
  rw [timeless_ofBlocks, timeless_ofBlocks]
  cases f with
  | evm | solana => simp only [arranged, List.map_map, Function.comp_def, hstamp]
  | near => simp only [arranged, List.map_append, List.map_filterMap, hmissing]

/-- The served blocks have different hashes, none of them the quantity of a number that was asked for. -/
def Separate (f : ChainFamily) (numbers : BlockSet) (responses : List Response) : Prop :=
  ∀ n ∈ numbers.toList, ∀ b, f.Finds responses n (.ok (some b)) →
    (∀ k ∈ numbers.toList, b.hash ≠ Quantity.render k) ∧
      ∀ k ∈ numbers.toList, k ≠ n → ∀ b', f.Finds responses k (.ok (some b')) → b'.hash ≠ b.hash

private theorem numbers_sorted (numbers : BlockSet) : numbers.toList.Pairwise (· < ·) :=
  numbers.sorted.imp of_decide_eq_true

theorem numbers_nodup (numbers : BlockSet) : numbers.toList.Nodup := by
  refine (numbers_sorted numbers).imp fun hlt => ?_
  rintro rfl
  exact UInt64.lt_irrefl _ hlt

variable {f : ChainFamily} {numbers : BlockSet} {responses : List Response}
  {found : List (UInt64 × Option Block)}

private structure Found (f : ChainFamily) (numbers : BlockSet) (responses : List Response)
    (found : List (UInt64 × Option Block)) : Prop where
  numbers_eq : found.map Prod.fst = numbers.toList
  finds : ∀ p ∈ found, f.Finds responses p.1 (.ok p.2)

theorem arranged_perm (f : ChainFamily) (now : Int64) (found : List (UInt64 × Option Block)) :
    (f.arranged now found).Perm (found.map fun p => p.2.getD (.placeholder p.1 now)) := by
  cases f with
  | evm | solana => exact List.Perm.refl _
  | near =>
    induction found with
    | nil => exact List.Perm.refl _
    | cons p found ih =>
      obtain ⟨n, b⟩ := p
      cases b with
      | some b => exact ih.cons b
      | none => exact List.perm_middle.trans (ih.cons _)

namespace Found

private theorem of_readAnswers (distinct : Distinct responses)
    (read : f.dialect.readAnswers responses numbers.toList = .ok found) : Found f numbers responses found := by
  obtain ⟨hnumbers, hread⟩ := f.dialect.readAnswers_ok read
  exact ⟨hnumbers, fun p hp => (finds_iff distinct).mpr (hread p hp)⟩

private theorem inj (h : Found f numbers responses found) {p q : UInt64 × Option Block} (hp : p ∈ found)
    (hq : q ∈ found) (hnumber : p.1 = q.1) : p = q := by
  have hnodup := numbers_nodup numbers
  rw [← h.numbers_eq] at hnodup
  exact List.inj_on_of_nodup_map hnodup hp hq hnumber

private theorem mem_numbers (h : Found f numbers responses found) {p : UInt64 × Option Block}
    (hp : p ∈ found) : p.1 ∈ numbers.toList :=
  h.numbers_eq ▸ List.mem_map_of_mem hp

private theorem mem_iff (h : Found f numbers responses found) (distinct : Distinct responses) {n : UInt64}
    {b : Option Block} : (n, b) ∈ found ↔ n ∈ numbers.toList ∧ f.Finds responses n (.ok b) := by
  constructor
  · exact fun hmem => ⟨h.mem_numbers hmem, h.finds _ hmem⟩
  · rintro ⟨hn, finds⟩
    rw [← h.numbers_eq] at hn
    obtain ⟨⟨k, b'⟩, hmem, rfl⟩ := List.mem_map.mp hn
    have hsame := (finds_iff distinct).mp (h.finds _ hmem)
    rw [(finds_iff distinct).mp finds] at hsame
    cases hsame
    exact hmem

private theorem keys_nodup (h : Found f numbers responses found)
    (separate : f.Separate numbers responses) (now : Int64) :
    (((f.arranged now found).map Block.key)).Nodup := by
  rw [((f.arranged_perm now found).map Block.key).nodup_iff, List.map_map]
  refine List.Nodup.map_on ?_ ?_
  · intro p hp q hq hkey
    refine h.inj hp hq ?_
    have hpn := h.mem_numbers hp
    have hqn := h.mem_numbers hq
    have hpf := h.finds p hp
    have hqf := h.finds q hq
    obtain ⟨n, b⟩ := p
    obtain ⟨k, b'⟩ := q
    cases b with
    | none =>
      cases b' with
      | none => exact Quantity.render_injective hkey
      | some b' =>
        have hclear := (separate k hqn b' hqf).1 n hpn
        exact absurd (hkey.trans (Block.key_of_served hqf.isPlaceholder)).symm hclear
    | some b =>
      have hb := Block.key_of_served hpf.isPlaceholder
      cases b' with
      | none => exact absurd (hb.symm.trans hkey) ((separate n hpn b hpf).1 k hqn)
      | some b' =>
        by_contra hne
        have hdiffer := (separate n hpn b hpf).2 k hqn (Ne.symm hne) b' hqf
        exact hdiffer ((Block.key_of_served hqf.isPlaceholder).symm.trans (hkey.symm.trans hb))
  · have hnodup := numbers_nodup numbers
    rw [← h.numbers_eq] at hnodup
    exact List.Nodup.of_map _ hnodup

private theorem ofBlocks_eq (h : Found f numbers responses found) (separate : f.Separate numbers responses)
    (now : Int64) : BlockMap.ofBlocks (f.arranged now found) =
      (f.arranged now found).map fun b => (b.key, b) := by
  refine Table.ofList_eq_self ?_
  rw [List.map_map]
  exact h.keys_nodup separate now

private theorem served_iff (h : Found f numbers responses found) (distinct : Distinct responses)
    (now : Int64) (b : Block) : (b ∈ f.arranged now found ∧ b.isPlaceholder = false) ↔
      ∃ n ∈ numbers.toList, f.Finds responses n (.ok (some b)) := by
  rw [(f.arranged_perm now found).mem_iff, List.mem_map]
  constructor
  · rintro ⟨⟨⟨n, kept⟩, hp, rfl⟩, hserved⟩
    cases kept with
    | none => cases hserved
    | some b => exact ⟨n, (h.mem_iff distinct).mp hp⟩
  · rintro ⟨n, hn, finds⟩
    exact ⟨⟨(n, some b), (h.mem_iff distinct).mpr ⟨hn, finds⟩, rfl⟩, finds.isPlaceholder⟩

private theorem placeholders (h : Found f numbers responses found) (now : Int64) :
    ((f.arranged now found).filter (·.isPlaceholder)).Perm
      (((found.filter (·.2.isNone)).map Prod.fst).map (Block.placeholder · now)) := by
  refine ((f.arranged_perm now found).filter _).trans (.of_eq ?_)
  have hserved : ∀ p ∈ found, ∀ b, p.2 = some b → b.isPlaceholder = false := by
    rintro ⟨n, b⟩ hp b' rfl
    exact (h.finds _ hp).isPlaceholder
  clear h
  induction found with
  | nil => rfl
  | cons p found ih =>
    obtain ⟨hp, hfound⟩ := List.forall_mem_cons.mp hserved
    obtain ⟨n, b⟩ := p
    cases b with
    | some b => simp [hp b rfl, ih hfound]
    | none => simp [List.filter_cons, ih hfound]

private theorem mem_absent (h : Found f numbers responses found) (distinct : Distinct responses)
    (n : UInt64) : n ∈ (found.filter (·.2.isNone)).map Prod.fst ↔
      n ∈ numbers.toList ∧ f.Finds responses n (.ok none) := by
  rw [← h.mem_iff distinct, List.mem_map]
  constructor
  · rintro ⟨⟨k, b⟩, hp, rfl⟩
    obtain ⟨hmem, hnone⟩ := List.mem_filter.mp hp
    have hb : b = none := Option.isNone_iff_eq_none.mp hnone
    exact hb ▸ hmem
  · exact fun hmem => ⟨(n, none), List.mem_filter.mpr ⟨hmem, rfl⟩, rfl⟩

end Found

/-- However a node orders its answer, and whatever else it puts into it, a family returns one block for
each number that it was asked for, under a key of its own; the first number for which there is none
fails the call. -/
theorem blocks_by_numbers (f : ChainFamily) (known : chains.get chain = .ok c) (numbers : BlockSet) (s : σ) :
    (numbers.toList = [] → (f.fetched chains chain numbers s).deeds = [] ∧
      (f.fetched chains chain numbers s).result = .ok []) ∧
    (numbers.toList ≠ [] → (f.fetched chains chain numbers s).deeds =
      [.batched chain (numbers.toList.map f.question)
        (c.transport.batch (numbers.toList.map f.question) s).1]) ∧
    (∀ n, (f.question n).id = .number n) ∧
    ∀ responses, f.Answered chains chain numbers s responses →
      (∀ (chains' : Registry (StateM σ)) (chain' : String) (s' : σ) (responses' : List Response),
        f.Answered chains' chain' numbers s' responses' →
          Agree numbers.toList responses responses' ∨ Varied numbers.toList responses responses' →
            (f.fetched chains' chain' numbers s').result.map timeless =
              (f.fetched chains chain numbers s).result.map timeless) ∧
      (∀ e, (f.fetched chains chain numbers s).result = .error e ↔
        ∃ n ∈ numbers.toList, f.Finds responses n (.error e) ∧
          ∀ k ∈ numbers.toList, k < n → ∀ e', ¬ f.Finds responses k (.error e')) ∧
      ∀ blocks, (f.fetched chains chain numbers s).result = .ok blocks → f.Separate numbers responses →
        (blocks.map Prod.fst).Nodup ∧ blocks.length = numbers.toList.length ∧
        (∀ e ∈ blocks, e.1 = e.2.key) ∧
        (∀ b, (b ∈ blocks.values ∧ b.isPlaceholder = false) ↔
          ∃ n ∈ numbers.toList, f.Finds responses n (.ok (some b))) ∧
        ∃ (now : Int64) (absent : List UInt64), absent.Nodup ∧
          (∀ n, n ∈ absent ↔ n ∈ numbers.toList ∧ f.Finds responses n (.ok none)) ∧
          (blocks.values.filter (·.isPlaceholder)).Perm (absent.map (Block.placeholder · now)) := by
  refine ⟨fun nothing => f.fetched_nil known nothing s, fun something => (f.fetched_some known something s).1,
    fun n => by cases f <;> rfl, fun responses answered => ?_⟩
  obtain ⟨now, hresult⟩ := answered.result
  obtain ⟨-, -, -, distinct⟩ := answered
  refine ⟨?_, ?_, ?_⟩
  · intro chains' chain' s' responses' answered' hsame
    obtain ⟨now', hresult'⟩ := answered'.result
    obtain ⟨-, -, -, distinct'⟩ := answered'
    have hagree := hsame.elim id Varied.agree
    rw [hresult, hresult', readAnswers_agree distinct distinct' hagree]
    cases f.dialect.readAnswers responses' numbers.toList with
    | error e => rfl
    | ok found =>
      have htimeless := (timeless_arranged f now' found).trans (timeless_arranged f now found).symm
      exact congrArg Except.ok htimeless
  · intro e
    rw [hresult, Family.map_eq_error_iff, f.dialect.readAnswers_error_iff (numbers_sorted numbers)]
    simp only [← finds_iff distinct, ne_eq]
  · intro blocks hblocks separate
    rw [hresult] at hblocks
    cases hread : f.dialect.readAnswers responses numbers.toList with
    | error e =>
      rw [hread] at hblocks
      cases hblocks
    | ok found =>
      rw [hread] at hblocks
      have hfound := Found.of_readAnswers distinct hread
      have hnumbers := numbers_nodup numbers
      have hblocks' := (Except.ok.inj hblocks).symm.trans (hfound.ofBlocks_eq separate now)
      have hvalues : blocks.values = f.arranged now found := by
        rw [hblocks', Table.values, List.map_map]
        exact List.map_id _
      rw [← hfound.numbers_eq] at hnumbers
      rw [hvalues]
      refine ⟨?_, ?_, ?_, fun b => hfound.served_iff distinct now b, now,
        (found.filter (·.2.isNone)).map Prod.fst, ?_, hfound.mem_absent distinct, hfound.placeholders now⟩
      · rw [hblocks', List.map_map]
        exact hfound.keys_nodup separate now
      · rw [hblocks', List.length_map, (f.arranged_perm now found).length_eq, List.length_map,
          ← hfound.numbers_eq, List.length_map]
      · rw [hblocks', List.forall_mem_map]
        exact fun _ _ => rfl
      · exact hnumbers.sublist (List.filter_sublist.map _)

@[reducible] private def noon : Clock (StateM Unit) where
  now := pure 0
  sleep _ := pure ()
  wall := pure ⟨2024, 1, 1, 43200, 0⟩
  unixTime := pure 1704110400

private def wanted : BlockSet := ⟨[7, 9, 12], by decide⟩

private def mixed : List Response :=
  [{ id := .text "12"
     error := some { code := -32000, message := "", cause := some (.obj [("name", .str "UNKNOWN_BLOCK")]) } },
   { id := .number 5, result := some (.bool true) },
   { id := .number 7
     result := some (.obj [("header",
       .obj [("height", .int 7), ("hash", .str "Ab"), ("timestamp", .int 2000000000)])]) },
   { id := .number 9 }]

private def steady : ChainSettings (StateM Unit) where
  chainId := 1
  transport := ⟨"", fun _ => pure (.error .allProvidersDown), fun _ => pure (.ok mixed), pure .healthy⟩

theorem mixed_answer_by_numbers : letI := noon
    near.Answered [("near", steady)] "near" wanted () mixed ∧ near.Separate wanted mixed ∧
      ∃ blocks, (near.fetched [("near", steady)] "near" wanted ()).result = .ok blocks ∧
        (blocks.map Prod.fst).Nodup ∧ blocks.length = 3 ∧
        ∃ (now : Int64) (absent : List UInt64), absent.Nodup ∧
          (∀ n, n ∈ absent ↔ n ∈ wanted.toList ∧ near.Finds mixed n (.ok none)) ∧
          (blocks.values.filter (·.isPlaceholder)).Perm (absent.map (Block.placeholder · now)) := by
  let _ := noon
  have known : Registry.get [("near", steady)] "near" = .ok steady := rfl
  have distinct : Distinct mixed := by
    change (mixed.filterMap (·.id.number?)).Nodup
    decide
  have answered : near.Answered [("near", steady)] "near" wanted () mixed := ⟨_, known, rfl, distinct⟩
  have hserved : near.dialect.readAnswer mixed 7 = .ok (some ⟨7, "Ab", 2, none⟩) := rfl
  have hnull : near.dialect.readAnswer mixed 9 = .ok none := rfl
  have hunknown : near.dialect.readAnswer mixed 12 = .ok none := rfl
  have only : ∀ n ∈ wanted.toList, ∀ b, near.Finds mixed n (.ok (some b)) → n = 7 ∧ b.hash = "Ab" := by
    intro n hn b hb
    have hread := (finds_iff distinct).mp hb
    rcases List.mem_cons.mp hn with rfl | hn
    · cases hserved.symm.trans hread
      exact ⟨rfl, rfl⟩
    · rcases List.mem_cons.mp hn with rfl | hn
      · cases hnull.symm.trans hread
      · rw [List.mem_singleton.mp hn] at hread
        cases hunknown.symm.trans hread
  have hclear : wanted.toList.all (fun k => "Ab" != Quantity.render k) = true := by decide +kernel
  have separate : near.Separate wanted mixed := by
    intro n hn b hb
    obtain ⟨rfl, hhash⟩ := only n hn b hb
    rw [hhash]
    refine ⟨fun k hk => bne_iff_ne.mp (List.all_eq_true.mp hclear k hk), ?_⟩
    exact fun k hk hne b' hb' => absurd (only k hk b' hb').1 hne
  have hsucceeds : (match (near.fetched [("near", steady)] "near" wanted ()).result with
      | .ok _ => true
      | .error _ => false) = true := by decide +kernel
  obtain ⟨-, -, -, hanswered⟩ := blocks_by_numbers near known wanted ()
  obtain ⟨-, -, hblocks⟩ := hanswered mixed answered
  cases hresult : (near.fetched [("near", steady)] "near" wanted ()).result with
  | error e =>
    rw [hresult] at hsucceeds
    cases hsucceeds
  | ok blocks =>
    obtain ⟨hkeys, hlength, -, -, hplaceholders⟩ := hblocks blocks hresult separate
    exact ⟨answered, separate, blocks, rfl, hkeys, hlength, hplaceholders⟩

end ChainFamily
end ChainFeed

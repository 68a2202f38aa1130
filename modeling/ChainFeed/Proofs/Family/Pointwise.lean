import ChainFeed.Proofs.Family.Steady

/-!
# Single and batched fetches

For a steady node the blocks of a set are the blocks of its numbers taken one by one, and a block that is
fetched alone is the one that a batch of one brings.
-/

namespace ChainFeed

open Rpc (Request Response NodeError Transport)
open Family

variable {σ : Type} {t : Transport (StateM σ)} {say : String → Json → Except NodeError Json}

namespace Family

theorem BlockDialect.judge_eq_some {β : Type} {d : BlockDialect β} {n : UInt64}
    {word : Except NodeError Json} {b : β} (h : d.judge n word = .ok (some b)) :
    ∃ value, word = .ok value ∧ value.isNull = false ∧ d.read n value = .ok b := by
  cases word with
  | error e =>
    rw [judge] at h
    split at h <;> cases h
  | ok value =>
    cases hnull : value.isNull with
    | true =>
      cases value with
      | null => cases h
      | _ => cases hnull
    | false =>
      rw [judge_given _ _ hnull, map_eq_ok_iff] at h
      obtain ⟨_, hread, hb⟩ := h
      exact ⟨value, rfl, hnull, Option.some.inj hb ▸ hread⟩

theorem BlockDialect.toOption_judge {β : Type} (d : BlockDialect β) (n : UInt64)
    (word : Except NodeError Json) (e : RepositoryError) :
    ((relayed word).bind fun value => if value.isNull then .error e else d.read n value).toOption =
      (d.judge n word).toOption.join := by
  cases word with
  | error e =>
    rw [judge]
    split <;> rfl
  | ok value =>
    cases hnull : value.isNull with
    | true =>
      cases value with
      | null => rfl
      | _ => cases hnull
    | false =>
      rw [judge_given _ _ hnull]
      change (if value.isNull then .error e else d.read n value).toOption = _
      rw [hnull]
      cases d.read n value <;> rfl

theorem ends_one {β : Type} (h : t.Steady say) (d : BlockDialect β) (r : Request) (n : UInt64)
    (absent : RepositoryError) : Ends (do
      let value ← ask t r
      if value.isNull then throw absent else having (d.read n value))
    (· = (relayed (say r.method r.params)).bind fun value =>
      if value.isNull then .error absent else d.read n value) := by
  refine (ends_ask h r).fixed fun value _ => ?_
  split
  · exact ends_throw rfl
  · exact ends_having rfl

end Family

namespace Near

/-- The block with its transactions if `full`, else as it is. -/
def finished (say : String → Json → Except NodeError Json) (full : Bool) (b : Block × List String) :
    Except RepositoryError Block :=
  if full then blockHeard say b else .ok b.1

theorem ends_complete (h : t.Steady say) (full : Bool) {blocks : List (Block × List String)}
    (fits : full = true → (blocks.flatMap (·.2)).length ≤ UInt64.size) :
    Ends (complete t full blocks) (· = blocks.mapM (finished say full)) := by
  cases full with
  | true => exact ends_attachTransactions h (fits rfl)
  | false =>
    have hplain : blocks.mapM (finished say false) = .ok (blocks.map Prod.fst) := List.mapM_pure
    rw [hplain]
    exact ends_pure rfl

def listed (say : String → Json → Except NodeError Json) (n : UInt64) : List String :=
  match dialect.heard say n with
  | .ok (some b) => b.2
  | _ => []

theorem listed_flatMap {numbers : List UInt64} {found : List (UInt64 × Option (Block × List String))}
    (h : numbers.mapM (fun n => (dialect.heard say n).map (n, ·)) = .ok found) :
    (found.filterMap (·.2)).flatMap (·.2) = numbers.flatMap (listed say) := by
  have hall := mapM_eq_ok_iff.mp h
  clear h
  induction hall with
  | nil => rfl
  | @cons n p numbers found hp _ ih =>
    obtain ⟨o, ho, rfl⟩ := (map_eq_ok_iff _).mp hp
    cases o with
    | none => simp [ih, listed, ho]
    | some b => simp [ih, listed, ho]

theorem finished_isPlaceholder {full : Bool} {found : Block × List String} {b : Block}
    (h : finished say full found = .ok b) : b.isPlaceholder = found.1.isPlaceholder := by
  cases full with
  | false =>
    cases h
    rfl
  | true =>
    obtain ⟨_, -, rfl⟩ := (map_eq_ok_iff _).mp h
    rfl

end Near

namespace ChainFamily

/-- What a family makes of the word of a node on block `n`: the block, or that there is none. -/
def heard (f : ChainFamily) (say : String → Json → Except NodeError Json) (full : Bool) (n : UInt64) :
    Except RepositoryError (Option Block) :=
  match f with
  | .evm => (Evm.dialect full).heard say n
  | .solana => (Solana.dialect full).heard say n
  | .near => (Near.dialect.heard say n).bind fun
    | none => .ok none
    | some b => (Near.finished say full b).map some

/-- The chunks that are asked for can be numbered with words, as those of any blocks in memory can. -/
def Numerable (f : ChainFamily) (say : String → Json → Except NodeError Json) (full : Bool)
    (numbers : List UInt64) : Prop :=
  f = .near → full = true → (numbers.flatMap (Near.listed say)).length ≤ UInt64.size

theorem Numerable.single {f : ChainFamily} {full : Bool} {numbers : List UInt64}
    (h : f.Numerable say full numbers) {n : UInt64} (hn : n ∈ numbers) : f.Numerable say full [n] := by
  intro hnear hfull
  have hall := h hnear hfull
  obtain ⟨before, after, rfl⟩ := List.append_of_mem hn
  simp only [List.flatMap_append, List.flatMap_cons, List.flatMap_nil, List.length_append,
    List.length_nil] at hall ⊢
  omega

theorem heard_isPlaceholder {f : ChainFamily} {full : Bool} {n : UInt64} {b : Block}
    (h : f.heard say full n = .ok (some b)) : b.isPlaceholder = false := by
  cases f with
  | evm =>
    obtain ⟨value, -, -, hread⟩ := BlockDialect.judge_eq_some h
    exact Evm.readBlock_isPlaceholder hread
  | solana =>
    obtain ⟨value, -, -, hread⟩ := BlockDialect.judge_eq_some h
    exact Solana.readBlock_isPlaceholder hread
  | near =>
    cases hword : Near.dialect.heard say n with
    | error e => simp [heard, hword, Except.bind] at h
    | ok o =>
      cases o with
      | none => simp [heard, hword, Except.bind] at h
      | some found =>
        obtain ⟨value, -, -, hread⟩ := BlockDialect.judge_eq_some hword
        have hfinished : Near.finished say full found = .ok b := by
          simpa [heard, hword, Except.bind, map_eq_ok_iff] using h
        rw [Near.finished_isPlaceholder hfinished]
        exact Near.readBlock_isPlaceholder hread

def gathered (f : ChainFamily) (say : String → Json → Except NodeError Json) (full : Bool)
    (numbers : List UInt64) : Except RepositoryError (List (UInt64 × Option Block)) :=
  numbers.mapM fun n => (f.heard say full n).map (n, ·)

theorem gathered_single (f : ChainFamily) (full : Bool) (n : UInt64) :
    f.gathered say full [n] = (f.heard say full n).map fun o => [(n, o)] := by
  rw [gathered, List.mapM_cons, List.mapM_nil]
  cases f.heard say full n <;> rfl

theorem gathered_eq_ok {f : ChainFamily} {full : Bool} {numbers : List UInt64}
    {found : List (UInt64 × Option Block)} (h : f.gathered say full numbers = .ok found) :
    found.map Prod.fst = numbers ∧
      ∀ n o, (n, o) ∈ found ↔ n ∈ numbers ∧ f.heard say full n = .ok o := by
  constructor
  · have hkeep := map_mapM (p := id) (q := Prod.fst) ?_ h
    · rwa [List.map_id] at hkeep
    · intro n p hp
      obtain ⟨_, -, rfl⟩ := (map_eq_ok_iff _).mp hp
      rfl
  · intro n o
    rw [mem_mapM h]
    constructor
    · rintro ⟨k, hk, hread⟩
      obtain ⟨o', ho', ⟨⟩⟩ := (map_eq_ok_iff _).mp hread
      exact ⟨hk, ho'⟩
    · rintro ⟨hn, ho⟩
      exact ⟨n, hn, (map_eq_ok_iff _).mpr ⟨o, ho, rfl⟩⟩

private def finish (say : String → Json → Except NodeError Json) (full : Bool) :
    UInt64 × Option (Block × List String) → Except RepositoryError (UInt64 × Option Block)
  | (n, none) => .ok (n, none)
  | (n, some b) => (Near.finished say full b).map (n, some ·)

private theorem gathered_near {full : Bool} {numbers : List UInt64}
    {found : List (UInt64 × Option (Block × List String))}
    (h : numbers.mapM (fun n => (Near.dialect.heard say n).map (n, ·)) = .ok found) :
    gathered .near say full numbers = found.mapM (finish say full) := by
  have hall := mapM_eq_ok_iff.mp h
  clear h
  unfold gathered
  induction hall with
  | nil => rfl
  | @cons n p numbers found hp _ ih =>
    obtain ⟨o, ho, rfl⟩ := (map_eq_ok_iff _).mp hp
    have hfirst : (ChainFamily.near.heard say full n).map (n, ·) = finish say full (n, o) := by
      rw [heard, ho]
      cases o with
      | none => rfl
      | some b => exact except_map_map _ _ _
    rw [List.mapM_cons, List.mapM_cons, ih, hfirst]

private theorem gathered_near_error {full : Bool} {numbers : List UInt64} {e : RepositoryError}
    (h : numbers.mapM (fun n => (Near.dialect.heard say n).map (n, ·)) = .error e) :
    (gathered .near say full numbers).toOption = none := by
  cases hgathered : gathered .near say full numbers with
  | error e => rfl
  | ok found =>
    have hread : ∀ n ∈ numbers, ∃ y, (Near.dialect.heard say n).map (n, ·) = .ok y := by
      intro n hn
      obtain ⟨y, hy⟩ := exists_mapM_iff.mp ⟨found, hgathered⟩ n hn
      cases hword : Near.dialect.heard say n with
      | ok o => exact ⟨_, rfl⟩
      | error e =>
        rw [heard, hword] at hy
        cases hy
    obtain ⟨ys, hys⟩ := exists_mapM_iff.mpr hread
    rw [h] at hys
    cases hys

def missing {β : Type} (now : Int64) (found : List (UInt64 × Option β)) : List Block :=
  found.filterMap fun p => if p.2.isNone then some (.placeholder p.1 now) else none

theorem missing_map {β γ : Type} (g : β → γ) (now : Int64) (found : List (UInt64 × Option β)) :
    missing now (found.map fun p => (p.1, p.2.map g)) = missing now found := by
  simp only [missing, List.filterMap_map, Function.comp_def, Option.isNone_map]

private theorem arranged_finished (say : String → Json → Except NodeError Json) (full : Bool)
    (now : Int64) (found : List (UInt64 × Option (Block × List String))) :
    (found.mapM (finish say full)).map (arranged .near now) =
      ((found.filterMap (·.2)).mapM (Near.finished say full)).map (· ++ missing now found) := by
  have hparts : (found.mapM (finish say full)).map
        (fun found => (found.filterMap (·.2), missing now found)) =
      ((found.filterMap (·.2)).mapM (Near.finished say full)).map (·, missing now found) := by
    induction found with
    | nil => rfl
    | cons p found ih =>
      obtain ⟨n, o⟩ := p
      cases o with
      | none =>
        have hnext := congrArg (Except.map fun parts => (parts.1, Block.placeholder n now :: parts.2)) ih
        rw [except_map_map, except_map_map] at hnext
        have hfirst : finish say full (n, none) = .ok (n, none) := rfl
        rw [mapM_cons_ok hfirst, except_map_map]
        exact hnext
      | some b =>
        have hcons : ((n, some b) :: found).filterMap (·.2) = b :: found.filterMap (·.2) := rfl
        rw [hcons]
        cases hb : Near.finished say full b with
        | error e =>
          have hfirst : finish say full (n, some b) = .error e := by
            rw [finish, hb]
            rfl
          rw [mapM_cons_error hb, mapM_cons_error hfirst]
          rfl
        | ok b' =>
          have hnext := congrArg (Except.map fun parts => (b' :: parts.1, parts.2)) ih
          rw [except_map_map, except_map_map] at hnext
          have hfirst : finish say full (n, some b) = .ok (n, some b') := by
            rw [finish, hb]
            rfl
          rw [mapM_cons_ok hb, mapM_cons_ok hfirst, except_map_map, except_map_map]
          exact hnext
  have hserved := congrArg (Except.map fun parts : List Block × List Block => parts.1 ++ parts.2) hparts
  rw [except_map_map, except_map_map] at hserved
  exact hserved

private theorem near_toOption_heard {full : Bool} {n : UInt64}
    {read : Except RepositoryError (Block × List String)}
    (h : read.toOption = (Near.dialect.heard say n).toOption.join) :
    (read.bind (Near.finished say full)).toOption = (ChainFamily.near.heard say full n).toOption.join := by
  have hbind : (read.bind (Near.finished say full)).toOption =
      read.toOption.bind fun b => (Near.finished say full b).toOption := by
    cases read <;> rfl
  rw [hbind, h, heard]
  cases Near.dialect.heard say n with
  | error e => rfl
  | ok o =>
    cases o with
    | none => rfl
    | some b =>
      change (Near.finished say full b).toOption = ((Near.finished say full b).map some).toOption.join
      cases Near.finished say full b <;> rfl

theorem near_ends_one (h : t.Steady say) (full : Bool) (n : UInt64) (absent : RepositoryError)
    (fits : full = true → (Near.listed say n).length ≤ UInt64.size) : Ends (do
      let value ← ask t (Near.blockRequest 1 (.number n))
      if value.isNull then throw absent
      else do
        let found ← having (Near.readBlock value)
        return (← Near.complete t full [found]).headD found.1)
    (· = ((relayed (say Near.blockMethod (Near.tagParams (.number n)))).bind fun value =>
      if value.isNull then .error absent else Near.readBlock value).bind (Near.finished say full)) := by
  refine (ends_ask h _).bind ?_ ?_
  · intro value hvalue
    change .ok value = relayed (say Near.blockMethod (Near.tagParams (.number n))) at hvalue
    rw [← hvalue]
    change Ends _ (· = (if value.isNull then _ else Near.readBlock value).bind _)
    cases hnull : value.isNull with
    | true => exact ends_throw rfl
    | false =>
      simp only [Bool.false_eq_true, if_false]
      refine (ends_having rfl).fixed fun found hfound => ?_
      have hheard : Near.dialect.heard say n = .ok (some found) := by
        cases hword : say Near.blockMethod (Near.tagParams (.number n)) with
        | error e =>
          rw [hword] at hvalue
          cases hvalue
        | ok word =>
          rw [hword] at hvalue
          cases hvalue
          change Near.dialect.judge n (say Near.blockMethod (Near.tagParams (.number n))) = _
          rw [hword, BlockDialect.judge_given _ _ hnull]
          exact (map_eq_ok_iff _).mpr ⟨found, hfound, rfl⟩
      have hchunks : full = true → ([found].flatMap (·.2)).length ≤ UInt64.size := by
        rw [List.flatMap_singleton]
        simpa [Near.listed, hheard] using fits
      have hone := (Near.ends_complete h full hchunks).map (g := fun blocks => blocks.headD found.1)
      have hmap : ([found].mapM (Near.finished say full)).map (fun blocks => blocks.headD found.1) =
          Near.finished say full found := by
        rw [List.mapM_cons, List.mapM_nil]
        cases Near.finished say full found <;> rfl
      rwa [hmap] at hone
  · intro e he
    change .error e = relayed (say Near.blockMethod (Near.tagParams (.number n))) at he
    rw [← he]
    rfl

/-- The block that stands for a number: the one that is served, or a placeholder. -/
def standing (now : Int64) (p : UInt64 × Option Block) : Block := p.2.getD (.placeholder p.1 now)

theorem standing_key (now now' : Int64) (p : UInt64 × Option Block) :
    (standing now p).key = (standing now' p).key := by
  obtain ⟨n, o⟩ := p
  cases o <;> rfl

theorem ofBlocks_arranged (f : ChainFamily) (now : Int64) {found : List (UInt64 × Option Block)}
    (nodup : (found.map fun p => (standing now p).key).Nodup) :
    BlockMap.ofBlocks (f.arranged now found) = (f.arranged now found).map (fun b => (b.key, b)) ∧
      (BlockMap.ofBlocks (f.arranged now found)).values.Perm (found.map (standing now)) := by
  have hperm : (f.arranged now found).Perm (found.map (standing now)) := f.arranged_perm now found
  have hown : (((f.arranged now found).map fun b => (b.key, b)).map Prod.fst).Nodup := by
    rw [List.map_map]
    refine (hperm.map Block.key).nodup_iff.mpr ?_
    rwa [List.map_map]
  have hmap := Table.ofList_eq_self hown
  refine ⟨hmap, ?_⟩
  rw [BlockMap.ofBlocks, hmap, Table.values, List.map_map]
  exact (List.Perm.of_eq (List.map_id _)).trans hperm

theorem timeless_perm (f : ChainFamily) (now : Int64) {found : List (UInt64 × Option Block)}
    {parts : UInt64 → BlockMap}
    (alone : ∀ p ∈ found, ∃ now, parts p.1 = [((standing now p).key, standing now p)])
    (nodup : (((found.map Prod.fst).flatMap parts).map Prod.fst).Nodup) :
    (timeless (.ofBlocks (f.arranged now found))).Perm
      ((found.map Prod.fst).flatMap fun n => timeless (parts n)) := by
  have htimeless : ∀ (now : Int64) p, (standing now p).timeless = (standing 0 p).timeless := by
    rintro now ⟨n, o⟩
    cases o <;> rfl
  have hkeys : ((found.map Prod.fst).flatMap parts).map Prod.fst =
      found.map fun p => (standing 0 p).key := by
    rw [List.flatMap_map, List.map_flatMap, ← List.flatMap_pure_eq_map]
    refine List.flatMap_congr fun p hp => ?_
    obtain ⟨now, hpart⟩ := alone p hp
    rw [hpart, List.map_singleton, standing_key now 0]
    rfl
  have hparts : ((found.map Prod.fst).flatMap fun n => timeless (parts n)) =
      found.map fun p => ((standing 0 p).key, (standing 0 p).timeless) := by
    rw [List.flatMap_map, ← List.flatMap_pure_eq_map]
    refine List.flatMap_congr fun p hp => ?_
    obtain ⟨now, hpart⟩ := alone p hp
    rw [hpart, timeless, List.map_singleton, standing_key now 0, htimeless]
    rfl
  have hown : (found.map fun p => (standing 0 p).key).Nodup := hkeys ▸ nodup
  rw [timeless_arranged, hparts, (f.ofBlocks_arranged 0 hown).1, timeless, List.map_map]
  refine ((f.arranged_perm 0 found).map _).trans (.of_eq ?_)
  rw [List.map_map]
  rfl

variable [Clock (StateM σ)] {chains : Registry (StateM σ)} {chain : String}
  {c : ChainSettings (StateM σ)}

theorem ends_stamped {α β : Type} {x : ExceptT RepositoryError (StateM σ) α}
    {r : Except RepositoryError α} (hx : Ends x (· = r)) (g : Int64 → α → β) :
    Ends (do
      let a ← x
      let now ← (Clock.unixTime : StateM σ Int64)
      return g now a) (fun e => ∃ now, e = r.map (g now)) := by
  refine hx.bind ?_ ?_
  · rintro a rfl s
    exact ⟨_, rfl⟩
  · rintro e rfl
    exact ⟨0, rfl⟩

private theorem dialect_toOption (f : ChainFamily) (d : BlockDialect Block) (h : t.Steady say)
    (own : ∀ n, (d.request n).id = .number n) (numbers : BlockSet) (s : σ) :
    ∃ now, (ExceptT.run (do
      let found ← d.fetch t numbers
      let now ← (Clock.unixTime : StateM σ Int64)
      return BlockMap.ofBlocks (f.arranged now found)) s).1.toOption =
      (numbers.toList.mapM fun n => (d.heard say n).map (n, ·)).toOption.map fun found =>
        .ofBlocks (f.arranged now found) := by
  obtain ⟨now, hresult⟩ := ends_stamped (d.ends_fetch h own numbers)
    (fun now found => BlockMap.ofBlocks (f.arranged now found)) s
  exact ⟨now, by rw [hresult, toOption_map]⟩

/-- What comes of fetching some blocks is what the node says of each of them. -/
theorem blocks_toOption (f : ChainFamily) (known : chains.get chain = .ok c) (h : c.transport.Steady say)
    (full : Bool) {numbers : BlockSet} (numerable : f.Numerable say full numbers.toList) (s : σ) :
    ∃ now, (((f.repository chains).blocks chain numbers full) s).1.toOption =
      (f.gathered say full numbers.toList).toOption.map fun found => .ofBlocks (f.arranged now found) := by
  cases f with
  | evm =>
    change ∃ now, ((Evm.blocks chains chain numbers full).run s).1.toOption = _
    simp only [Evm.blocks, serving, known]
    exact dialect_toOption .evm _ h (fun _ => rfl) numbers s
  | solana =>
    change ∃ now, ((Solana.blocks chains chain numbers full).run s).1.toOption = _
    simp only [Solana.blocks, serving, known]
    exact dialect_toOption .solana _ h (fun _ => rfl) numbers s
  | near =>
    change ∃ now, ((Near.blocks chains chain numbers full).run s).1.toOption = _
    simp only [Near.blocks, serving, known]
    have hends : Ends (do
        let found ← Near.dialect.fetch c.transport numbers
        let now ← (Clock.unixTime : StateM σ Int64)
        let served ← Near.complete c.transport full (found.filterMap (·.2))
        return BlockMap.ofBlocks (served ++ missing now found)) fun r => ∃ now,
          r.toOption = (gathered .near say full numbers.toList).toOption.map fun found =>
            .ofBlocks (arranged .near now found) := by
      refine (Near.dialect.ends_fetch h (fun _ => rfl) numbers).bind ?_ ?_
      · intro found hfound s
        have hfits : full = true → ((found.filterMap (·.2)).flatMap (·.2)).length ≤ UInt64.size := by
          rw [Near.listed_flatMap hfound.symm]
          exact numerable rfl
        -- The clock is read before the chunks are asked for, in the state that the answers have left.
        let clock := (Clock.unixTime : StateM σ Int64) s
        have hcomplete := (Near.ends_complete h full hfits).map
          (g := fun served => BlockMap.ofBlocks (served ++ missing clock.1 found)) clock.2
        refine ⟨clock.1, (congrArg Except.toOption hcomplete).trans ?_⟩
        have hfinished := congrArg (Except.map BlockMap.ofBlocks) (arranged_finished say full clock.1 found)
        rw [except_map_map, except_map_map] at hfinished
        rw [gathered_near hfound.symm, ← toOption_map, hfinished]
      · intro e he
        rw [gathered_near_error he.symm]
        exact ⟨0, rfl⟩
    exact hends s

theorem block_toOption (f : ChainFamily) (known : chains.get chain = .ok c)
    (h : c.transport.Steady say) (full : Bool) {n : UInt64} (numerable : f.Numerable say full [n])
    (s : σ) : (((f.repository chains).block chain (.number n) full) s).1.toOption =
      (f.heard say full n).toOption.join := by
  cases f with
  | evm =>
    change ((Evm.block chains chain (.number n) full).run s).1.toOption = _
    simp only [Evm.block, serving, known]
    exact (congrArg Except.toOption (ends_one h (Evm.dialect full) _ n _ s)).trans
      ((Evm.dialect full).toOption_judge n _ _)
  | solana =>
    change ((Solana.block chains chain (.number n) full).run s).1.toOption = _
    simp only [Solana.block, Solana.slotOf, pure_bind, serving, known]
    exact (congrArg Except.toOption (ends_one h (Solana.dialect full) _ n _ s)).trans
      ((Solana.dialect full).toOption_judge n _ _)
  | near =>
    change ((Near.block chains chain (.number n) full).run s).1.toOption = _
    simp only [Near.block, serving, known]
    have hfits : full = true → (Near.listed say n).length ≤ UInt64.size := by simpa using numerable rfl
    refine (congrArg Except.toOption (near_ends_one h full n _ hfits s)).trans ?_
    have hread := Near.dialect.toOption_judge n (say Near.blockMethod (Near.tagParams (.number n)))
      (.protocol (.notFound ("block " ++ (BlockTag.number n).render) chain))
    exact near_toOption_heard hread

theorem single_toOption (f : ChainFamily) (known : chains.get chain = .ok c) (h : c.transport.Steady say)
    (full : Bool) {n : UInt64} (numerable : f.Numerable say full [n]) (s : σ) :
    ∃ now, ((f.repository chains).blocks chain (.single n) full s).1.toOption =
      (f.heard say full n).toOption.map fun o => [((standing now (n, o)).key, standing now (n, o))] := by
  have hsingle : f.Numerable say full (BlockSet.single n).toList := numerable
  obtain ⟨now, hblocks⟩ := f.blocks_toOption known h full hsingle s
  refine ⟨now, hblocks.trans ?_⟩
  change (f.gathered say full [n]).toOption.map _ = _
  rw [gathered_single, toOption_map, Option.map_map]
  refine congrArg (Option.map · (f.heard say full n).toOption) (funext fun o => ?_)
  cases f <;> cases o <;> rfl

/-- A block is the one that a batch of it alone brings; some blocks come if each comes alone, and they are
those that come alone, the times of placeholders aside. -/
theorem blocks_pointwise (f : ChainFamily) (known : chains.get chain = .ok c)
    (h : c.transport.Steady say) (full : Bool) :
    (∀ n, f.Numerable say full [n] → ∀ s s' b,
      ((f.repository chains).block chain (.number n) full s).1 = .ok b ↔
        ((f.repository chains).blocks chain (.single n) full s').1 = .ok [(b.key, b)] ∧
          b.isPlaceholder = false) ∧
    ∀ numbers : BlockSet, f.Numerable say full numbers.toList → ∀ (s : σ) (own : UInt64 → σ),
      ((∃ blocks, ((f.repository chains).blocks chain numbers full s).1 = .ok blocks) ↔
        ∀ n ∈ numbers.toList,
          ∃ blocks, ((f.repository chains).blocks chain (.single n) full (own n)).1 = .ok blocks) ∧
      ∀ blocks (parts : UInt64 → BlockMap),
        ((f.repository chains).blocks chain numbers full s).1 = .ok blocks →
        (∀ n ∈ numbers.toList,
          ((f.repository chains).blocks chain (.single n) full (own n)).1 = .ok (parts n)) →
        ((numbers.toList.flatMap parts).map Prod.fst).Nodup →
          (timeless blocks).Perm (numbers.toList.flatMap fun n => timeless (parts n)) := by
  refine ⟨fun n numerable s s' b => ?_, fun numbers numerable s own => ⟨?_, ?_⟩⟩
  · obtain ⟨now, hsingle⟩ := f.single_toOption known h full numerable s'
    have hblock := f.block_toOption known h full numerable s
    rw [← toOption_eq_some_iff, ← toOption_eq_some_iff, hblock, hsingle]
    cases hheard : f.heard say full n with
    | error e => simp [Except.toOption]
    | ok o =>
      change o = some b ↔
        some [((standing now (n, o)).key, standing now (n, o))] = some [(b.key, b)] ∧ _
      constructor
      · rintro rfl
        exact ⟨rfl, heard_isPlaceholder hheard⟩
      · rintro ⟨hsame, hserved⟩
        have hstanding : standing now (n, o) = b :=
          congrArg Prod.snd (List.cons.inj (Option.some.inj hsame)).1
        cases o with
        | none =>
          rw [← hstanding] at hserved
          cases hserved
        | some b' => exact congrArg some hstanding
  · obtain ⟨now, hblocks⟩ := f.blocks_toOption known h full numerable s
    rw [exists_ok_iff, hblocks, Option.isSome_map, ← exists_ok_iff, gathered, exists_mapM_iff]
    refine forall₂_congr fun n hn => ?_
    obtain ⟨now', hsingle⟩ := f.single_toOption known h full (numerable.single hn) (own n)
    rw [exists_ok_iff, exists_ok_iff, hsingle, Option.isSome_map, toOption_map, Option.isSome_map]
  · intro blocks parts hblocks hparts nodup
    obtain ⟨now, hall⟩ := f.blocks_toOption known h full numerable s
    rw [toOption_eq_some_iff.mpr hblocks] at hall
    obtain ⟨found, hfound, rfl⟩ := Option.map_eq_some_iff.mp hall.symm
    have hgathered := toOption_eq_some_iff.mp hfound
    obtain ⟨hnumbers, hmem⟩ := gathered_eq_ok hgathered
    rw [← hnumbers] at hparts nodup ⊢
    refine timeless_perm f now ?_ nodup
    rintro ⟨n, o⟩ hp
    obtain ⟨hn, ho⟩ := (hmem n o).mp hp
    obtain ⟨now', hsingle⟩ := f.single_toOption known h full (numerable.single hn) (own n)
    have hpart := hparts n (List.mem_map_of_mem hp)
    rw [toOption_eq_some_iff.mpr hpart, ho] at hsingle
    exact ⟨now', Option.some.inj hsingle⟩

@[reducible] private def dusk : Clock (StateM Unit) where
  now := pure 0
  sleep _ := pure ()
  wall := pure ⟨2024, 1, 1, 64800, 0⟩
  unixTime := pure 1704132000

private def chunky (method : String) (params : Json) : Except NodeError Json :=
  match method, params with
  | "block", .obj [("block_id", .int 7)] => .ok (.obj [
      ("header", .obj [("height", .int 7), ("hash", .str "Ab"), ("timestamp", .int 2000000000)]),
      ("chunks", .arr [.obj [("chunk_hash", .str "c0")], .obj [("chunk_hash", .str "c1")]])])
  | "block", .obj [("block_id", .int 8)] =>
    .error { code := -32000, message := "", cause := some (.obj [("name", .str "UNKNOWN_BLOCK")]) }
  | "chunk", .obj [("chunk_id", .str "c1")] => .ok (.obj [("transactions",
      .arr [.obj [("hash", .str "tx"), ("signer_id", .str "alice.near"),
        ("receiver_id", .str "bob.near")]])])
  | "chunk", _ => .ok (.obj [])
  | _, _ => .ok .null

private def trio : BlockSet := ⟨[7, 8, 9], by decide⟩

private def chunkyChains : Registry (StateM Unit) := [("near", ⟨1, .saying chunky⟩)]

private def alone (n : UInt64) : BlockMap :=
  letI := dusk
  ((near.repository chunkyChains).blocks "near" (.single n) true ()).1.toOption.getD []

theorem chunky_pointwise : letI := dusk
    (Transport.saying chunky : Transport (StateM Unit)).Steady chunky ∧
      near.Numerable chunky true [7] ∧ near.Numerable chunky true trio.toList ∧
      (∃ b, ((near.repository chunkyChains).blocks "near" (.single 7) true ()).1 = .ok [(b.key, b)] ∧
        ((near.repository chunkyChains).block "near" (.number 7) true ()).1 = .ok b) ∧
      ∃ blocks, ((near.repository chunkyChains).blocks "near" trio true ()).1 = .ok blocks ∧
        (timeless blocks).Perm (trio.toList.flatMap fun n => timeless (alone n)) := by
  let _ := dusk
  have known : chunkyChains.get "near" = .ok ⟨1, .saying chunky⟩ := rfl
  have steady : (Transport.saying chunky : Transport (StateM Unit)).Steady chunky :=
    Transport.saying_steady chunky
  have hlisted : (trio.toList.flatMap (Near.listed chunky)).length = 2 := rfl
  have htrio : near.Numerable chunky true trio.toList := by
    intro _ _
    rw [hlisted]
    decide
  have halone : ∀ n ∈ trio.toList,
      ((near.repository chunkyChains).blocks "near" (.single n) true ()).1 = .ok (alone n) := by
    have hsome : trio.toList.all (fun n =>
        ((near.repository chunkyChains).blocks "near" (.single n) true ()).1.toOption.isSome) = true := by
      decide +kernel
    intro n hn
    have hresult := List.all_eq_true.mp hsome n hn
    rw [alone]
    cases hblocks : ((near.repository chunkyChains).blocks "near" (.single n) true ()).1 with
    | error e =>
      rw [hblocks] at hresult
      cases hresult
    | ok blocks => rfl
  have hnodup : ((trio.toList.flatMap alone).map Prod.fst).Nodup := by decide +kernel
  have hblock : ∃ b, ((near.repository chunkyChains).block "near" (.number 7) true ()).1 = .ok b :=
    ⟨_, rfl⟩
  obtain ⟨hone, hall⟩ := blocks_pointwise near known steady true
  have hseven : near.Numerable chunky true [7] := htrio.single (by decide)
  obtain ⟨b, hb⟩ := hblock
  obtain ⟨hsingle, -⟩ := (hone 7 hseven () () b).mp hb
  obtain ⟨hsucceeds, hunion⟩ := hall trio htrio () fun _ => ()
  obtain ⟨blocks, hblocks⟩ := hsucceeds.mpr fun n hn => ⟨alone n, halone n hn⟩
  exact ⟨steady, hseven, htrio, ⟨b, hsingle, hb⟩, blocks, hblocks,
    hunion blocks alone hblocks halone hnodup⟩

end ChainFamily
end ChainFeed

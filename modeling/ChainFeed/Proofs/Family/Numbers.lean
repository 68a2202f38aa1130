import ChainFeed.Proofs.Family.Pointwise
import ChainFeed.Proofs.Table

/-!
# The numbers of fetched blocks

A node may answer the request for one block with another, or give two blocks one hash. Blocks are told
apart by the requests that they answer and kept under their hashes, so a family returns what the node
answered to its requests, one block for each key. The numbers are those that were asked for as far as the
node makes them so.
-/

namespace ChainFeed

open Rpc (Request Response NodeError Transport)
open Family

variable {σ : Type}

/-- The block as it is when its transactions are not asked for. -/
def Block.plain (b : Block) : Block := { b with transactions := none }

theorem Evm.readBlock_plain {full : Bool} {value : Json} {b : Block} (h : readBlock full value = .ok b) :
    readBlock false value = .ok b.plain := by
  unfold readBlock at h ⊢
  obtain ⟨raw, hraw, h⟩ := ChainFamily.bind_eq_ok h
  obtain ⟨text, htext, h⟩ := ChainFamily.bind_eq_ok h
  obtain ⟨number, hnumber, h⟩ := ChainFamily.bind_eq_ok h
  obtain ⟨hash, hhash, h⟩ := ChainFamily.bind_eq_ok h
  obtain ⟨time, htime, h⟩ := ChainFamily.bind_eq_ok h
  obtain ⟨timestamp, htimestamp, h⟩ := ChainFamily.bind_eq_ok h
  have hplain : b.plain = ⟨number, hash, timestamp.toInt64, none⟩ := by
    cases full with
    | false =>
      cases h
      rfl
    | true =>
      obtain ⟨transactions, -, h⟩ := ChainFamily.bind_eq_ok h
      cases h
      rfl
  simp [hraw, htext, hnumber, hhash, htime, htimestamp, hplain, bind, Except.bind, pure, Except.pure]

theorem Solana.readBlock_plain {full : Bool} {slot : UInt64} {value : Json} {b : Block}
    (h : readBlock full slot value = .ok b) : readBlock false slot value = .ok b.plain := by
  unfold readBlock at h ⊢
  obtain ⟨raw, hraw, h⟩ := ChainFamily.bind_eq_ok h
  obtain ⟨hash, hhash, h⟩ := ChainFamily.bind_eq_ok h
  obtain ⟨time, htime, h⟩ := ChainFamily.bind_eq_ok h
  have hplain : b.plain = ⟨slot, hash, time, none⟩ := by
    cases full with
    | false =>
      cases h
      rfl
    | true =>
      obtain ⟨transactions, -, h⟩ := ChainFamily.bind_eq_ok h
      cases h
      rfl
  simp [hraw, hhash, htime, hplain, bind, Except.bind, pure, Except.pure]

theorem Solana.readBlock_number {slot : UInt64} {value : Json} {b : Block}
    (h : readBlock false slot value = .ok b) : b.number = slot := by
  unfold readBlock at h
  obtain ⟨raw, -, h⟩ := ChainFamily.bind_eq_ok h
  obtain ⟨hash, -, h⟩ := ChainFamily.bind_eq_ok h
  obtain ⟨time, -, h⟩ := ChainFamily.bind_eq_ok h
  cases h
  rfl

theorem Near.readBlock_plain {value : Json} {b : Block × List String} (h : readBlock value = .ok b) :
    b.1.plain = b.1 := by
  unfold readBlock at h
  obtain ⟨raw, -, h⟩ := ChainFamily.bind_eq_ok h
  obtain ⟨number, -, h⟩ := ChainFamily.bind_eq_ok h
  obtain ⟨hash, -, h⟩ := ChainFamily.bind_eq_ok h
  obtain ⟨time, -, h⟩ := ChainFamily.bind_eq_ok h
  cases h
  rfl

namespace Family

variable {t : Transport (StateM σ)} {s : σ}

theorem askAll_eq_ok {rs : List Request} {responses : List Response}
    (h : ((askAll t rs).run s).1 = .ok responses) : rs ≠ [] → (t.batch rs s).1 = .ok responses := by
  intro something
  have hasked : rs.isEmpty = false := by simpa using something
  rw [askAll, hasked] at h
  change (t.batch rs s).1.mapError _ = _ at h
  cases hanswer : (t.batch rs s).1 with
  | error e =>
    rw [hanswer] at h
    cases h
  | ok answer =>
    rw [hanswer] at h
    cases h
    rfl

theorem BlockDialect.fetch_eq_ok {β : Type} {d : BlockDialect β} {numbers : BlockSet}
    {found : List (UInt64 × Option β)} (h : ((d.fetch t numbers).run s).1 = .ok found) :
    ∃ responses, (numbers.toList ≠ [] →
        (t.batch (numbers.toList.map d.request) s).1 = .ok responses) ∧
      d.readAnswers responses numbers.toList = .ok found := by
  obtain ⟨responses, hasked, hread⟩ := bind_run_eq_ok h
  exact ⟨responses, fun something => askAll_eq_ok hasked (by simpa using something), hread⟩

end Family

namespace Near

theorem fillBlocks_plain {responses : List Response} {blocks : List (Block × List String)} {next : Nat}
    {filled : List Block} (h : fillBlocks responses next blocks = .ok filled) :
    filled.map Block.plain = blocks.map fun b => b.1.plain := by
  induction blocks generalizing next filled with
  | nil =>
    cases h
    rfl
  | cons b blocks ih =>
    obtain ⟨b, chunks⟩ := b
    rw [fillBlocks] at h
    split at h
    · cases h
    · obtain ⟨rest, hrest, rfl⟩ := (map_eq_ok_iff _).mp h
      rw [List.map_cons, List.map_cons, ih hrest]
      rfl

theorem complete_plain {t : Transport (StateM σ)} {s : σ} {full : Bool}
    {blocks : List (Block × List String)} {completed : List Block}
    (h : ((complete t full blocks).run s).1 = .ok completed) :
    completed.map Block.plain = blocks.map fun b => b.1.plain := by
  cases full with
  | false =>
    cases h
    rw [List.map_map]
    rfl
  | true =>
    obtain ⟨responses, -, hfilled⟩ := bind_run_eq_ok h
    exact fillBlocks_plain hfilled

end Near

namespace ChainFamily

def request (f : ChainFamily) (full : Bool) (n : UInt64) : Request :=
  match f with
  | .evm => Evm.blockRequest n (.number n) full
  | .solana => Solana.blockRequest full n
  | .near => Near.blockRequest n (.number n)

theorem finds_of_reads {β : Type} {f : ChainFamily} {d : BlockDialect β} {g : β → Block}
    (unavailable : d.isUnavailable = f.dialect.isUnavailable)
    (read : ∀ n value b, d.read n value = .ok b → f.dialect.read n value = .ok (g b))
    {responses : List Response} {n : UInt64} {o : Option β} (h : d.readAnswer responses n = .ok o) :
    f.Finds responses n (.ok (o.map g)) := by
  cases hanswer : Response.answer? responses n with
  | none =>
    rw [d.readAnswer_of_none hanswer] at h
    cases h
  | some r =>
    have hfinds := f.finds_readAnswer responses n
    rw [d.readAnswer_of_some hanswer] at h
    rw [f.dialect.readAnswer_of_some hanswer] at hfinds
    have hjudge : f.dialect.judge n r.outcome = .ok (o.map g) := by
      cases houtcome : r.outcome with
      | error e =>
        rw [houtcome, BlockDialect.judge, unavailable] at h
        rw [BlockDialect.judge]
        split at h
        · next hunavailable =>
          cases h
          exact if_pos hunavailable
        · cases h
      | ok value =>
        rw [houtcome] at h
        cases hnull : value.isNull with
        | true =>
          cases value with
          | null =>
            cases h
            rfl
          | _ => cases hnull
        | false =>
          rw [BlockDialect.judge_given _ _ hnull, map_eq_ok_iff] at h
          obtain ⟨b, hb, rfl⟩ := h
          rw [BlockDialect.judge_given _ _ hnull, read n value b hb]
          rfl
    rwa [hjudge] at hfinds

private theorem found_of_readAnswers {β : Type} {f : ChainFamily} {d : BlockDialect β} {g : β → Block}
    (unavailable : d.isUnavailable = f.dialect.isUnavailable)
    (read : ∀ n value b, d.read n value = .ok b → f.dialect.read n value = .ok (g b))
    {responses : List Response} {ns : List UInt64} {found : List (UInt64 × Option β)}
    (h : d.readAnswers responses ns = .ok found) :
    found.map Prod.fst = ns ∧ ∀ p ∈ found, f.Finds responses p.1 (.ok (p.2.map g)) := by
  obtain ⟨hnumbers, hread⟩ := d.readAnswers_ok h
  exact ⟨hnumbers, fun p hp => finds_of_reads unavailable read (hread p hp)⟩

private theorem refill {β : Type} {g : β → Block} {found : List (UInt64 × Option β)}
    {completed : List Block}
    (h : completed.map Block.plain = (found.filterMap (·.2)).map fun b => (g b).plain) :
    ∃ full : List (UInt64 × Option Block), full.filterMap (·.2) = completed ∧
      full.map (fun p => (p.1, p.2.map Block.plain)) =
        found.map fun p => (p.1, p.2.map fun b => (g b).plain) := by
  induction found generalizing completed with
  | nil => exact ⟨[], (List.map_eq_nil_iff.mp h).symm, rfl⟩
  | cons p found ih =>
    obtain ⟨n, o⟩ := p
    cases o with
    | none =>
      obtain ⟨full, hserved, hplain⟩ := ih h
      exact ⟨(n, none) :: full, hserved, congrArg ((n, none) :: ·) hplain⟩
    | some b =>
      obtain ⟨b', rest, rfl, hb, hrest⟩ := List.map_eq_cons_iff.mp h
      obtain ⟨full, hserved, hplain⟩ := ih hrest
      refine ⟨(n, some b') :: full, congrArg (b' :: ·) hserved, ?_⟩
      rw [List.map_cons, List.map_cons, hplain, Option.map_some, Option.map_some, hb]

variable [Clock (StateM σ)] {chains : Registry (StateM σ)} {chain : String}
  {c : ChainSettings (StateM σ)}

/-- The blocks of a call are what the node answered to its requests. -/
theorem blocks_eq_ok (f : ChainFamily) (known : chains.get chain = .ok c) {full : Bool} {numbers : BlockSet}
    {s : σ} {blocks : BlockMap} (h : ((f.repository chains).blocks chain numbers full s).1 = .ok blocks) :
    ∃ responses now found,
      (numbers.toList ≠ [] →
        (c.transport.batch (numbers.toList.map (f.request full)) s).1 = .ok responses) ∧
      found.map Prod.fst = numbers.toList ∧
      (∀ p ∈ found, f.Finds responses p.1 (.ok (p.2.map Block.plain))) ∧
      blocks = .ofBlocks (f.arranged now found) := by
  cases f with
  | evm =>
    change ((Evm.blocks chains chain numbers full).run s).1 = .ok blocks at h
    simp only [Evm.blocks, serving, known] at h
    obtain ⟨found, hfetch, h⟩ := bind_run_eq_ok h
    obtain ⟨responses, hasked, hread⟩ := BlockDialect.fetch_eq_ok hfetch
    obtain ⟨hnumbers, hfinds⟩ := found_of_readAnswers (f := .evm) (d := Evm.dialect full) rfl
      (fun _ _ _ hb => Evm.readBlock_plain hb) hread
    obtain ⟨now, -, h⟩ := bind_run_eq_ok h
    cases h
    exact ⟨responses, now, found, hasked, hnumbers, hfinds, rfl⟩
  | solana =>
    change ((Solana.blocks chains chain numbers full).run s).1 = .ok blocks at h
    simp only [Solana.blocks, serving, known] at h
    obtain ⟨found, hfetch, h⟩ := bind_run_eq_ok h
    obtain ⟨responses, hasked, hread⟩ := BlockDialect.fetch_eq_ok hfetch
    obtain ⟨hnumbers, hfinds⟩ := found_of_readAnswers (f := .solana) (d := Solana.dialect full) rfl
      (fun _ _ _ hb => Solana.readBlock_plain hb) hread
    obtain ⟨now, -, h⟩ := bind_run_eq_ok h
    cases h
    exact ⟨responses, now, found, hasked, hnumbers, hfinds, rfl⟩
  | near =>
    change ((Near.blocks chains chain numbers full).run s).1 = .ok blocks at h
    simp only [Near.blocks, serving, known] at h
    obtain ⟨read, hfetch, h⟩ := bind_run_eq_ok h
    obtain ⟨responses, hasked, hread⟩ := BlockDialect.fetch_eq_ok hfetch
    have hreads : ∀ n value (b : Block × List String), Near.dialect.read n value = .ok b →
        (dialect .near).read n value = .ok b.1.plain := by
      intro n value b hb
      rw [Near.readBlock_plain hb]
      exact (map_eq_ok_iff _).mpr ⟨b, hb, rfl⟩
    obtain ⟨hnumbers, hfinds⟩ := found_of_readAnswers (f := .near) (d := Near.dialect) rfl hreads hread
    obtain ⟨now, -, h⟩ := bind_run_eq_ok h
    obtain ⟨served, hserved, h⟩ := bind_run_eq_ok h
    cases h
    -- Completing a block changes its transactions only, and without them it is the block that was read.
    obtain ⟨found, rfl, hplain⟩ := refill (g := Prod.fst) (Near.complete_plain hserved)
    refine ⟨responses, now, found, hasked, ?_, ?_, ?_⟩
    · have hfirst := congrArg (List.map Prod.fst) hplain
      rw [List.map_map, List.map_map] at hfirst
      exact hfirst.trans hnumbers
    · intro p hp
      have hmem : (p.1, p.2.map Block.plain) ∈ found.map fun p => (p.1, p.2.map Block.plain) :=
        List.mem_map_of_mem hp
      rw [hplain] at hmem
      obtain ⟨q, hq, hpq⟩ := List.mem_map.mp hmem
      obtain ⟨hnumber, hblock⟩ := Prod.mk.inj hpq
      have hfound := hfinds q hq
      rwa [hnumber, hblock] at hfound
    · have hmissing : missing now read = missing now found := by
        have hsame := congrArg (missing now) hplain
        rw [missing_map, missing_map] at hsame
        exact hsame.symm
      change BlockMap.ofBlocks (found.filterMap (·.2) ++ missing now read) = _
      rw [hmissing]
      rfl

/-- What a family returns for block `n`: a placeholder, if the node said that it has no such block, or the
block that it answered, with or without transactions. -/
def Stands (f : ChainFamily) (responses : List Response) (n : UInt64) (b : Block) : Prop :=
  (∃ now, b = .placeholder n now ∧ f.Finds responses n (.ok none)) ∨
    f.Finds responses n (.ok (some b.plain))

theorem standing_stands {f : ChainFamily} {responses : List Response} {p : UInt64 × Option Block}
    (now : Int64) (h : f.Finds responses p.1 (.ok (p.2.map Block.plain))) :
    f.Stands responses p.1 (standing now p) := by
  obtain ⟨n, o⟩ := p
  cases o with
  | none => exact .inl ⟨now, rfl, h⟩
  | some b => exact .inr h

theorem Stands.solana_number {responses : List Response} {n : UInt64} {b : Block}
    (h : ChainFamily.solana.Stands responses n b) : b.number = n := by
  rcases h with ⟨now, rfl, -⟩ | h
  · rfl
  · cases h with
    | served value _ _ _ read => exact Solana.readBlock_number (b := b.plain) read

/-- A family returns, each under its key, the blocks that the node answered to its requests, and of those
with one key one. So the numbers of what it returns are those that were asked for, each once, just when the
answers have different keys and numbers that make up the set. -/
theorem blocks_numbers (f : ChainFamily) (known : chains.get chain = .ok c) {full : Bool}
    {numbers : BlockSet} {s : σ} {blocks : BlockMap}
    (h : ((f.repository chains).blocks chain numbers full s).1 = .ok blocks) :
    ∃ (responses : List Response) (stood : List Block),
      (numbers.toList ≠ [] →
        (c.transport.batch (numbers.toList.map (f.request full)) s).1 = .ok responses) ∧
      List.Forall₂ (f.Stands responses) numbers.toList stood ∧
      (blocks.map Prod.fst).Nodup ∧
      (∀ e ∈ blocks, e.1 = e.2.key ∧ e.2 ∈ stood) ∧
      (∀ b ∈ stood, b.key ∈ blocks.map Prod.fst) ∧
      (f = .solana → stood.map (·.number) = numbers.toList) ∧
      ((blocks.values.map (·.number)).Perm numbers.toList ↔
        (stood.map Block.key).Nodup ∧ (stood.map (·.number)).Perm numbers.toList) := by
  obtain ⟨responses, now, found, hasked, hnumbers, hfinds, rfl⟩ := f.blocks_eq_ok known h
  have hstands : ∀ p ∈ found, f.Stands responses p.1 (standing now p) :=
    fun p hp => standing_stands now (hfinds p hp)
  have hperm : (f.arranged now found).Perm (found.map (standing now)) := f.arranged_perm now found
  have hvalues : ((found.map (standing now)).map Block.key).Nodup →
      (BlockMap.ofBlocks (f.arranged now found)).values.Perm (found.map (standing now)) := by
    intro nodup
    rw [List.map_map] at nodup
    exact (f.ofBlocks_arranged now nodup).2
  refine ⟨responses, found.map (standing now), hasked, ?_, Table.nodup_ofList _, ?_, ?_, ?_, ?_, ?_⟩
  · rw [← hnumbers, List.forall₂_map_left_iff, List.forall₂_map_right_iff, List.forall₂_same]
    exact hstands
  · intro e he
    obtain ⟨b, hb, rfl⟩ := List.mem_map.mp (Table.mem_of_mem_ofList he)
    exact ⟨rfl, hperm.mem_iff.mp hb⟩
  · intro b hb
    refine Table.mem_keys_ofList.mpr ?_
    rw [List.map_map]
    exact List.mem_map_of_mem (hperm.mem_iff.mpr hb)
  · rintro rfl
    rw [← hnumbers, List.map_map]
    exact List.map_congr_left fun p hp => (hstands p hp).solana_number
  · intro same
    have hlength : (BlockMap.ofBlocks (f.arranged now found)).length =
        ((f.arranged now found).map fun b => (b.key, b)).length := by
      have hsize := same.length_eq
      rw [← hnumbers] at hsize
      simpa [Table.values, hperm.length_eq] using hsize
    have hnodup := Table.nodup_of_length_ofList hlength
    rw [List.map_map] at hnodup
    have hkeys := (hperm.map Block.key).nodup_iff.mp hnodup
    exact ⟨hkeys, ((hvalues hkeys).map (·.number)).symm.trans same⟩
  · rintro ⟨hkeys, same⟩
    exact ((hvalues hkeys).map (·.number)).trans same

@[reducible] private def dawn : Clock (StateM Unit) where
  now := pure 0
  sleep _ := pure ()
  wall := pure ⟨2024, 1, 1, 21600, 0⟩
  unixTime := pure 1704088800

private def swapping (method : String) (params : Json) : Except NodeError Json :=
  match method, params with
  | "block", .obj [("block_id", .int 7)] => .ok (.obj [
      ("header", .obj [("height", .int 9), ("hash", .str "Nn"), ("timestamp", .int 1000000000)]),
      ("chunks", .arr [.obj [("chunk_hash", .str "c0")]])])
  | "block", .obj [("block_id", .int 9)] => .ok (.obj [
      ("header", .obj [("height", .int 7), ("hash", .str "Ss"), ("timestamp", .int 2000000000)])])
  | "chunk", _ => .ok (.obj [])
  | _, _ => .ok .null

private def swappingChains : Registry (StateM Unit) := [("chain", ⟨1, .saying swapping⟩)]

private def sevenAndNine : BlockSet := ⟨[7, 9], by decide⟩

theorem swapped_blocks_numbers : letI := dawn
    swappingChains.get "chain" = .ok ⟨1, .saying swapping⟩ ∧ ∃ blocks,
      ((near.repository swappingChains).blocks "chain" sevenAndNine true ()).1 = .ok blocks ∧
      (blocks.values.map (·.number)).Perm [7, 9] ∧
      ∃ (responses : List Response) (stood : List Block),
        List.Forall₂ (near.Stands responses) [7, 9] stood ∧ (stood.map Block.key).Nodup ∧
          (stood.map (·.number)).Perm [7, 9] := by
  let _ := dawn
  have known : swappingChains.get "chain" = .ok ⟨1, .saying swapping⟩ := rfl
  have hblocks : ((near.repository swappingChains).blocks "chain" sevenAndNine true ()).1 =
      .ok [("Nn", ⟨9, "Nn", 1, some []⟩), ("Ss", ⟨7, "Ss", 2, some []⟩)] := by rfl
  obtain ⟨responses, stood, -, hstands, -, -, -, -, hnumbers⟩ := blocks_numbers near known hblocks
  have hsame : ([9, 7] : List UInt64).Perm [7, 9] := by decide
  exact ⟨known, _, hblocks, hsame, responses, stood, hstands, hnumbers.mp hsame⟩

private def stubborn (method : String) (_ : Json) : Except NodeError Json :=
  match method with
  | "eth_getBlockByNumber" =>
    .ok (.obj [("number", .str "0x8"), ("hash", .str "Ab"), ("timestamp", .str "0x1")])
  | "getBlock" => .ok (.obj [("blockhash", .str "Ab"), ("blockTime", .int 1)])
  | "block" =>
    .ok (.obj [("header", .obj [("height", .int 8), ("hash", .str "Ab"), ("timestamp", .int 1000000000)])])
  | _ => .ok .null

private def stubbornChains : Registry (StateM Unit) := [("chain", ⟨1, .saying stubborn⟩)]

theorem stubborn_blocks : letI := dawn
    ((evm.repository stubbornChains).blocks "chain" (.single 7) false ()).1 =
      .ok [("Ab", ⟨8, "Ab", 1, none⟩)] ∧
    ((near.repository stubbornChains).blocks "chain" (.single 7) false ()).1 =
      .ok [("Ab", ⟨8, "Ab", 1, none⟩)] ∧
    ((solana.repository stubbornChains).blocks "chain" sevenAndNine false ()).1 =
      .ok [("Ab", ⟨9, "Ab", 1, none⟩)] ∧
    ∀ f : ChainFamily, ¬ ∀ numbers blocks,
      ((f.repository stubbornChains).blocks "chain" numbers false ()).1 = .ok blocks →
        (blocks.values.map (·.number)).Perm numbers.toList := by
  let _ := dawn
  have hevm : ((evm.repository stubbornChains).blocks "chain" (.single 7) false ()).1 =
      .ok [("Ab", ⟨8, "Ab", 1, none⟩)] := by rfl
  have hnear : ((near.repository stubbornChains).blocks "chain" (.single 7) false ()).1 =
      .ok [("Ab", ⟨8, "Ab", 1, none⟩)] := by rfl
  have hsolana : ((solana.repository stubbornChains).blocks "chain" sevenAndNine false ()).1 =
      .ok [("Ab", ⟨9, "Ab", 1, none⟩)] := by rfl
  refine ⟨hevm, hnear, hsolana, fun f hall => ?_⟩
  cases f with
  | evm => exact absurd (hall _ _ hevm) (by decide)
  | near => exact absurd (hall _ _ hnear) (by decide)
  | solana => exact absurd (hall _ _ hsolana) (by decide)

end ChainFamily

end ChainFeed

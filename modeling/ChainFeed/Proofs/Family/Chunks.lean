import ChainFeed.Proofs.Family.Steady

/-!
# Chunks of many blocks

The chunks of all blocks are asked for in one batch and numbered through; the answers are dealt out to the
blocks by how many chunks each of them lists. `chunks_fill_blocks` says that no transaction gets into another
block by this, and that one answer that cannot be used fails them all.
-/

namespace ChainFeed.Near

open Rpc (Request Response NodeError)
open Rpc.Response (Distinct Told Silent)
open Family

def chunksOf (blocks : List (Block × List String)) : List String := blocks.flatMap (·.2)

/-- How many chunks are listed by the blocks before block number `k`. -/
def chunksBefore (blocks : List (Block × List String)) (k : Nat) : Nat := (chunksOf (blocks.take k)).length

/-- The answer brings a chunk with these transactions for request number `i`. -/
def Supplies (responses : List Response) (i : Nat) (raws : List RawTransaction) : Prop :=
  ∃ value, Told responses (UInt64.ofNat i) (.ok value) ∧ RawTransaction.ofChunk? value = some raws

inductive Withholds (responses : List Response) (i : Nat) : RepositoryError → Prop
  | silent (silent : Silent responses (UInt64.ofNat i)) :
      Withholds responses i (.protocol (.unanswered chunkMethod (UInt64.ofNat i)))
  | refused (e : NodeError) (told : Told responses (UInt64.ofNat i) (.error e)) :
      Withholds responses i (.transport (.rpc e))
  | malformed (value : Json) (told : Told responses (UInt64.ofNat i) (.ok value))
      (unread : RawTransaction.ofChunk? value = none) : Withholds responses i (.protocol (.malformed "chunk"))

/-- A block that was given these transactions: each is stamped with the block and its own place in it, and
nothing else of the block has changed. -/
structure Filled (b : Block) (raws : List RawTransaction) (b' : Block) : Prop where
  number : b'.number = b.number
  hash : b'.hash = b.hash
  timestamp : b'.timestamp = b.timestamp
  transactions : ∃ txs, b'.transactions = some txs ∧ txs.length = raws.length ∧
    ∀ (i : Nat) raw, raws[i]? = some raw → txs[i]? = some
      { hash := raw.hash
        blockNumber := b.number
        blockHash := b.hash
        sender := raw.signer
        receiver := some raw.receiver
        transactionIndex := toString i }

section Chunk

variable {responses : List Response} {i : Nat} {raws : List RawTransaction} {e : RepositoryError}

theorem chunkTransactions_of_told (distinct : Distinct responses) {word : Except NodeError Json}
    (told : Told responses (UInt64.ofNat i) word) :
    chunkTransactions responses i = (relayed word).bind (readPart "chunk" RawTransaction.ofChunk?) := by
  obtain ⟨r, hr, hid, rfl⟩ := told
  rw [chunkTransactions, answer, distinct.answer?_eq_some hr hid, ← result_eq]
  rfl

theorem Supplies.read (distinct : Distinct responses) (h : Supplies responses i raws) :
    chunkTransactions responses i = .ok raws := by
  obtain ⟨value, told, hread⟩ := h
  simp [chunkTransactions_of_told distinct told, relayed, Except.mapError, Except.bind, readPart, hread]

theorem Withholds.read (distinct : Distinct responses) (h : Withholds responses i e) :
    chunkTransactions responses i = .error e := by
  cases h with
  | silent silent => simp [chunkTransactions, answer, Response.answer?_eq_none silent, fault, Except.bind]
  | refused e told => simp [chunkTransactions_of_told distinct told, relayed, Except.mapError, Except.bind]
  | malformed value told unread =>
    simp [chunkTransactions_of_told distinct told, relayed, Except.mapError, Except.bind, readPart, unread, fault]

theorem supplies_or_withholds (responses : List Response) (i : Nat) :
    (∃ raws, Supplies responses i raws) ∨ ∃ e, Withholds responses i e := by
  cases hanswer : Response.answer? responses (UInt64.ofNat i) with
  | none => exact .inr ⟨_, .silent (Response.silent_of_answer? hanswer)⟩
  | some r =>
    have told := Response.told_of_answer? hanswer
    cases houtcome : r.outcome with
    | error e => exact .inr ⟨_, .refused e (houtcome ▸ told)⟩
    | ok value =>
      rw [houtcome] at told
      cases hread : RawTransaction.ofChunk? value with
      | none => exact .inr ⟨_, .malformed value told hread⟩
      | some raws => exact .inl ⟨raws, value, told, hread⟩

theorem chunkTransactions_eq_ok_iff (distinct : Distinct responses) :
    chunkTransactions responses i = .ok raws ↔ Supplies responses i raws := by
  refine ⟨fun h => ?_, Supplies.read distinct⟩
  rcases supplies_or_withholds responses i with ⟨raws', hsupplies⟩ | ⟨e, hwithholds⟩
  · rw [hsupplies.read distinct] at h
    cases h
    exact hsupplies
  · rw [hwithholds.read distinct] at h
    cases h

theorem chunkTransactions_eq_error_iff (distinct : Distinct responses) :
    chunkTransactions responses i = .error e ↔ Withholds responses i e := by
  refine ⟨fun h => ?_, Withholds.read distinct⟩
  rcases supplies_or_withholds responses i with ⟨raws, hsupplies⟩ | ⟨e', hwithholds⟩
  · rw [hsupplies.read distinct] at h
    cases h
  · rw [hwithholds.read distinct] at h
    cases h
    exact hwithholds

end Chunk

def filled (b : Block) (raws : List RawTransaction) : Block :=
  { b with transactions := some (raws.zipIdx.map fun (t, i) => t.inBlock b i) }

/-- Deals out the contents of chunks, as many to each block as it lists. -/
def deal : List (Block × List String) → List (List RawTransaction) → List Block
  | [], _ => []
  | (b, chunks) :: rest, found =>
    filled b (found.take chunks.length).flatten :: deal rest (found.drop chunks.length)

theorem filled_spec (b : Block) (raws : List RawTransaction) : Filled b raws (filled b raws) where
  number := rfl
  hash := rfl
  timestamp := rfl
  transactions := by
    refine ⟨_, rfl, by simp, fun i raw hraw => ?_⟩
    simp [hraw, RawTransaction.inBlock]

theorem length_deal (blocks : List (Block × List String)) (found : List (List RawTransaction)) :
    (deal blocks found).length = blocks.length := by
  induction blocks generalizing found with
  | nil => rfl
  | cons b blocks ih => simp [deal, ih]

@[simp] theorem chunksOf_cons (b : Block × List String) (blocks : List (Block × List String)) :
    chunksOf (b :: blocks) = b.2 ++ chunksOf blocks := List.flatMap_cons

@[simp] theorem chunksBefore_zero (blocks : List (Block × List String)) : chunksBefore blocks 0 = 0 := by
  simp [chunksBefore, chunksOf]

@[simp] theorem chunksBefore_cons_succ (b : Block × List String) (blocks : List (Block × List String)) (k : Nat) :
    chunksBefore (b :: blocks) (k + 1) = b.2.length + chunksBefore blocks k := by
  simp [chunksBefore]

/-- What is dealt to a block comes right after what was dealt to the blocks before it. -/
theorem getElem?_deal {blocks : List (Block × List String)} {k : Nat} {b : Block} {chunks : List String}
    (h : blocks[k]? = some (b, chunks)) (found : List (List RawTransaction)) :
    (deal blocks found)[k]? =
      some (filled b ((found.drop (chunksBefore blocks k)).take chunks.length).flatten) := by
  induction blocks generalizing k found with
  | nil => simp at h
  | cons first blocks ih =>
    cases k with
    | zero =>
      cases h
      simp [deal]
    | succ k =>
      rw [List.getElem?_cons_succ] at h
      simp [deal, ih h, List.drop_drop]

theorem getElem?_chunksOf {blocks : List (Block × List String)} {k j : Nat} {b : Block} {chunks : List String}
    {chunk : String} (hblock : blocks[k]? = some (b, chunks)) (hchunk : chunks[j]? = some chunk) :
    (chunksOf blocks)[chunksBefore blocks k + j]? = some chunk := by
  induction blocks generalizing k with
  | nil => simp at hblock
  | cons first blocks ih =>
    cases k with
    | zero =>
      cases hblock
      have hlt := (List.getElem?_eq_some_iff.mp hchunk).1
      simp [List.getElem?_append_left hlt, hchunk]
    | succ k =>
      rw [List.getElem?_cons_succ] at hblock
      rw [chunksOf_cons, chunksBefore_cons_succ, Nat.add_assoc,
        List.getElem?_append_right (Nat.le_add_right _ _), Nat.add_sub_cancel_left, ih hblock]

/-- Filling blocks is reading all chunks in order and then dealing out what was read. -/
theorem fillBlocks_eq_deal (responses : List Response) (next : Nat) (blocks : List (Block × List String)) :
    fillBlocks responses next blocks =
      ((List.range' next (chunksOf blocks).length).mapM (chunkTransactions responses)).map (deal blocks) := by
  induction blocks generalizing next with
  | nil => rfl
  | cons b blocks ih =>
    obtain ⟨b, chunks⟩ := b
    rw [fillBlocks, ih, chunksOf_cons, List.length_append, ← List.range'_append_1, List.mapM_append]
    cases hown : (List.range' next chunks.length).mapM (chunkTransactions responses) with
    | error e => rfl
    | ok own =>
      have hlength : own.length = chunks.length := by
        have hall := mapM_eq_ok_iff.mp hown
        simpa using hall.length_eq.symm
      cases (List.range' (next + chunks.length) (chunksOf blocks).length).mapM (chunkTransactions responses) with
      | error e => rfl
      | ok others => simp [bind, Except.bind, pure, Except.pure, Except.map, deal, ← hlength, filled]

/-- What comes of the answer to the requests for all chunks is read off it in the order of the requests. -/
theorem fillBlocks_eq_ok_iff {responses : List Response} (distinct : Distinct responses)
    {blocks : List (Block × List String)} {after : List Block} :
    fillBlocks responses 0 blocks = .ok after ↔ ∃ found,
      List.Forall₂ (Supplies responses) (List.range (chunksOf blocks).length) found ∧ deal blocks found = after := by
  rw [fillBlocks_eq_deal, map_eq_ok_iff, ← List.range_eq_range']
  simp only [mapM_eq_ok_iff, chunkTransactions_eq_ok_iff distinct, eq_comm (a := after)]

theorem fillBlocks_isOk_iff {responses : List Response} (distinct : Distinct responses)
    {blocks : List (Block × List String)} : (∃ after, fillBlocks responses 0 blocks = .ok after) ↔
      ∀ i < (chunksOf blocks).length, ∃ raws, Supplies responses i raws := by
  simp only [fillBlocks_eq_deal, map_eq_ok_iff]
  rw [exists_comm]
  simp only [exists_and_left, exists_eq, and_true, ← List.range_eq_range', exists_mapM_iff, List.mem_range,
    chunkTransactions_eq_ok_iff distinct]

theorem fillBlocks_eq_error_iff {responses : List Response} (distinct : Distinct responses)
    {blocks : List (Block × List String)} {e : RepositoryError} :
    fillBlocks responses 0 blocks = .error e ↔ ∃ i < (chunksOf blocks).length,
      Withholds responses i e ∧ ∀ j < i, ∃ raws, Supplies responses j raws := by
  rw [fillBlocks_eq_deal, map_eq_error_iff, ← List.range_eq_range', mapM_eq_error_iff]
  simp only [List.getElem?_eq_some_iff, List.length_range, List.getElem_range, chunkTransactions_eq_ok_iff distinct,
    chunkTransactions_eq_error_iff distinct]
  constructor
  · rintro ⟨i, _, ⟨hi, rfl⟩, hwithholds, hearlier⟩
    exact ⟨i, hi, hwithholds, fun j hj => hearlier j hj j ⟨Nat.lt_trans hj hi, rfl⟩⟩
  · rintro ⟨i, hi, hwithholds, hearlier⟩
    refine ⟨i, i, ⟨hi, rfl⟩, hwithholds, fun j hj y hy => ?_⟩
    obtain ⟨-, rfl⟩ := hy
    exact hearlier j hj

theorem getElem?_chunkRequests (blocks : List (Block × List String)) (i : Nat) :
    (chunkRequests blocks)[i]? = (chunksOf blocks)[i]?.map fun chunk =>
      .named (UInt64.ofNat i) chunkMethod (chunkParams chunk) := by
  simp [chunkRequests_eq, chunksOf, Option.map_map, Function.comp_def]

variable {σ : Type}

/-- The answer to the requests for all chunks; where no chunk is listed nobody is asked. -/
def chunkAnswer (c : ChainSettings (StateM σ)) (blocks : List (Block × List String)) (s : σ) :
    Except Rpc.TransportError (List Response) :=
  if chunksOf blocks = [] then .ok [] else (c.transport.batch (chunkRequests blocks) s).1

theorem run_attachTransactions (chain : String) (c : ChainSettings (StateM σ))
    (blocks : List (Block × List String)) (s : σ) :
    ∃ after, (attachTransactions (Registry.watchedChain chain c).transport blocks).run.run s =
      ⟨((chunkAnswer c blocks s).mapError RepositoryError.ofTransport).bind (fillBlocks · 0 blocks),
        if chunksOf blocks = [] then [] else [.batched chain (chunkRequests blocks) (chunkAnswer c blocks s)],
        after⟩ := by
  unfold chunkAnswer
  by_cases hnone : chunksOf blocks = []
  · have hrequests : chunkRequests blocks = [] := by
      rw [chunkRequests_eq, show blocks.flatMap (·.2) = [] from hnone]
      rfl
    refine ⟨s, ?_⟩
    rw [if_pos hnone, if_pos hnone, attachTransactions, hrequests]
    rfl
  · have hasked : chunkRequests blocks ≠ [] := by simpa [chunkRequests_eq, chunksOf] using hnone
    have hcarried := Registry.run_askAll chain c _ hasked s
    obtain ⟨⟨answer, s₁⟩, hanswer⟩ : ∃ p, c.transport.batch (chunkRequests blocks) s = p := ⟨_, rfl⟩
    rw [hanswer] at hcarried
    refine ⟨s₁, ?_⟩
    rw [if_neg hnone, if_neg hnone, hanswer]
    exact Journal.run_bind_mk hcarried fun responses => fillBlocks responses 0 blocks

/-- The chunks of all blocks are asked for in one batch, with one request for each listing, and nobody is asked if
none is listed. If there is a chunk for every request, each block gets the transactions of the chunks that it
lists, in order; otherwise the whole call fails, with the error of the first request that brings none. -/
theorem chunks_fill_blocks (chain : String) (c : ChainSettings (StateM σ))
    (blocks : List (Block × List String)) (s : σ) :
    let page := (attachTransactions (Registry.watchedChain chain c).transport blocks).run.run s
    let answer := chunkAnswer c blocks s
    page.deeds = (if chunksOf blocks = [] then [] else [.batched chain (chunkRequests blocks) answer]) ∧
    (chunkRequests blocks).length = (chunksOf blocks).length ∧
    (∀ k b chunks j chunk, blocks[k]? = some (b, chunks) → chunks[j]? = some chunk →
      (chunkRequests blocks)[chunksBefore blocks k + j]? =
        some (.named (UInt64.ofNat (chunksBefore blocks k + j)) "chunk" (.object [("chunk_id", .str chunk)]))) ∧
    ((chunksOf blocks).length ≤ UInt64.size → ((chunkRequests blocks).map (·.id.number?)).Nodup) ∧
    (∀ e, answer = .error e → page.result = .error (.ofTransport e)) ∧
    ∀ responses, answer = .ok responses → Distinct responses →
      ((∃ filled, page.result = .ok filled) ↔
        ∀ i < (chunksOf blocks).length, ∃ raws, Supplies responses i raws) ∧
      (∀ found, List.Forall₂ (Supplies responses) (List.range (chunksOf blocks).length) found →
        ∃ filled, page.result = .ok filled ∧ filled.length = blocks.length ∧
          ∀ (k : Nat) b chunks, blocks[k]? = some (b, chunks) → ∃ b', filled[k]? = some b' ∧
            Filled b ((found.drop (chunksBefore blocks k)).take chunks.length).flatten b') ∧
      ∀ e, page.result = .error e ↔ ∃ i < (chunksOf blocks).length,
        Withholds responses i e ∧ ∀ j < i, ∃ raws, Supplies responses j raws := by
  intro page answer
  obtain ⟨after, hpage⟩ := run_attachTransactions chain c blocks s
  refine ⟨congrArg (·.deeds) hpage, by simp [chunkRequests_eq, chunksOf], ?_, ?_, ?_, ?_⟩
  · intro k b chunks j chunk hblock hchunk
    rw [getElem?_chunkRequests, getElem?_chunksOf hblock hchunk]
    rfl
  · intro fits
    rw [chunkRequests_eq, List.map_map]
    exact nodup_numbered fits
  · intro e hanswer
    have hresult : page.result = _ := congrArg (·.result) hpage
    rw [hresult, show chunkAnswer c blocks s = .error e from hanswer]
    rfl
  · intro responses hanswer distinct
    have hresult : page.result = fillBlocks responses 0 blocks := by
      simp only [page, hpage, show chunkAnswer c blocks s = .ok responses from hanswer]
      rfl
    rw [hresult]
    refine ⟨fillBlocks_isOk_iff distinct, fun found hall => ?_, fun e => fillBlocks_eq_error_iff distinct⟩
    refine ⟨_, (fillBlocks_eq_ok_iff distinct).mpr ⟨found, hall, rfl⟩, length_deal blocks found, ?_⟩
    intro k b chunks hblock
    exact ⟨_, getElem?_deal hblock found, filled_spec b _⟩

private def raw (hash : String) : RawTransaction := ⟨hash, "alice.near", "bridge.near"⟩

private def crate (hashes : List String) : Json :=
  .obj [("transactions", .arr (hashes.map fun hash =>
    .obj [("hash", .str hash), ("signer_id", .str "alice.near"), ("receiver_id", .str "bridge.near")]))]

private def yard : ChainSettings (StateM Unit) where
  chainId := 1
  transport :=
    { url := ""
      send _ := pure (.error .allProvidersDown)
      batch rs := pure (.ok (rs.reverse.map fun r =>
        { id := r.id, result := some (crate (if r.id = .number 1 then ["u", "v"] else ["t"])) }))
      health := pure .healthy }

private def blockOf (number : UInt64) (hash : String) : Block := { number, hash, timestamp := 7 }

private def train : List (Block × List String) :=
  [(blockOf 7 "A", ["x", "y"]), (blockOf 8 "B", []), (blockOf 9 "C", ["x"])]

theorem yard_chunks_fill_train :
    ∃ responses b₀ b₁ b₂, chunkAnswer yard train () = .ok responses ∧ Distinct responses ∧
      List.Forall₂ (Supplies responses) [0, 1, 2] [[raw "t"], [raw "u", raw "v"], [raw "t"]] ∧
      ((attachTransactions (Registry.watchedChain "near" yard).transport train).run.run ()).result =
        .ok [b₀, b₁, b₂] ∧
      Filled (blockOf 7 "A") [raw "t", raw "u", raw "v"] b₀ ∧ Filled (blockOf 8 "B") [] b₁ ∧
      Filled (blockOf 9 "C") [raw "t"] b₂ := by
  let response (n : UInt64) (hashes : List String) : Response := { id := .number n, result := some (crate hashes) }
  have hanswer : chunkAnswer yard train () = .ok [response 2 ["t"], response 1 ["u", "v"], response 0 ["t"]] := rfl
  have distinct : Distinct [response 2 ["t"], response 1 ["u", "v"], response 0 ["t"]] := by
    change [(2 : UInt64), 1, 0].Nodup
    decide
  have hread : ∀ i hashes, response (UInt64.ofNat i) hashes ∈
      [response 2 ["t"], response 1 ["u", "v"], response 0 ["t"]] →
      RawTransaction.ofChunk? (crate hashes) = some (hashes.map raw) → Supplies _ i (hashes.map raw) :=
    fun i hashes hmem hread => ⟨crate hashes, ⟨_, hmem, rfl, rfl⟩, hread⟩
  have supplied : List.Forall₂ (Supplies [response 2 ["t"], response 1 ["u", "v"], response 0 ["t"]])
      [0, 1, 2] [[raw "t"], [raw "u", raw "v"], [raw "t"]] := by
    refine .cons (hread 0 ["t"] ?_ rfl) (.cons (hread 1 ["u", "v"] ?_ rfl) (.cons (hread 2 ["t"] ?_ rfl) .nil))
    · exact List.mem_cons_of_mem _ (List.mem_cons_of_mem _ List.mem_cons_self)
    · exact List.mem_cons_of_mem _ List.mem_cons_self
    · exact List.mem_cons_self
  obtain ⟨-, -, -, -, -, hall⟩ := chunks_fill_blocks "near" yard train ()
  obtain ⟨filled, hresult, hlength, hfilled⟩ := (hall _ hanswer distinct).2.1 _ supplied
  obtain ⟨b₀, b₁, b₂, rfl⟩ := List.length_eq_three.mp hlength
  obtain ⟨_, h₀, hb₀⟩ := hfilled 0 _ _ rfl
  obtain ⟨_, h₁, hb₁⟩ := hfilled 1 _ _ rfl
  obtain ⟨_, h₂, hb₂⟩ := hfilled 2 _ _ rfl
  cases h₀
  cases h₁
  cases h₂
  exact ⟨_, b₀, b₁, b₂, hanswer, distinct, supplied, hresult, hb₀, hb₁, hb₂⟩

end ChainFeed.Near

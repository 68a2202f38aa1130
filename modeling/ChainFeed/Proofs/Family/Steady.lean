import ChainFeed.Proofs.Ends
import ChainFeed.Proofs.Family.Blocks
import ChainFeed.Proofs.Family.Receipts

/-!
# Steady nodes

A steady node answers every question one way, whether it is asked alone or within a batch, and it is
always reached. What a repository reads from it can be told without the messages in between.
-/

namespace ChainFeed

open Rpc (Request Response NodeError Transport)
open Rpc.Response (Told)

variable {σ : Type}

/-- Each request is answered, and each answer is what the node says to the question. -/
def Rpc.Response.Faithful (say : String → Json → Except NodeError Json) (rs : List Request)
    (responses : List Response) : Prop :=
  ∀ r ∈ rs, ∀ n, r.id.number? = some n →
    ∀ outcome, Told responses n outcome ↔ outcome = say r.method r.params

/-- The node says one thing to each question, whenever and in whatever company it is asked. The questions of
a batch are told apart by their numeric ids. -/
structure Rpc.Transport.Steady (t : Transport (StateM σ)) (say : String → Json → Except NodeError Json) :
    Prop where
  send : ∀ r s, ∃ response, (t.send r s).1 = .ok response ∧ response.outcome = say r.method r.params
  batch : ∀ rs s, (rs.map (·.id.number?)).Nodup →
    ∃ responses, (t.batch rs s).1 = .ok responses ∧ Response.Faithful say rs responses

section Saying

variable (say : String → Json → Except NodeError Json)

def Rpc.Request.reply (r : Request) : Response :=
  match say r.method r.params with
  | .ok value => { id := r.id, result := some value }
  | .error e => { id := r.id, error := some e }

theorem Rpc.Request.reply_id (r : Request) : (r.reply say).id = r.id := by
  unfold reply
  split <;> rfl

theorem Rpc.Request.reply_outcome (r : Request) : (r.reply say).outcome = say r.method r.params := by
  unfold reply
  split <;> simp_all [Response.outcome]

def Rpc.Transport.saying : Transport (StateM σ) :=
  ⟨"", fun r => pure (.ok (r.reply say)), fun rs => pure (.ok (rs.map (·.reply say))), pure .healthy⟩

theorem Rpc.Transport.saying_steady : (saying say : Transport (StateM σ)).Steady say := by
  constructor
  · exact fun r _ => ⟨r.reply say, rfl, r.reply_outcome say⟩
  · intro rs _ nodup
    refine ⟨rs.map (·.reply say), rfl, fun r hr n hid outcome => ?_⟩
    constructor
    · rintro ⟨_, hmem, hid', rfl⟩
      obtain ⟨r', hr', rfl⟩ := List.mem_map.mp hmem
      rw [Request.reply_id, ← hid] at hid'
      rw [List.inj_on_of_nodup_map nodup hr' hr hid', Request.reply_outcome]
    · rintro rfl
      exact ⟨r.reply say, List.mem_map_of_mem hr, by rw [Request.reply_id, hid], r.reply_outcome say⟩

end Saying

namespace Family

variable {t : Transport (StateM σ)} {say : String → Json → Except NodeError Json}

theorem ends_having {α : Type} {P : Except RepositoryError α → Prop} {e : Except RepositoryError α}
    (h : P e) : Ends (having e : ExceptT RepositoryError (StateM σ) α) P := fun _ => h

theorem gives_carried {α : Type} {call : StateM σ (Except Rpc.TransportError α)} {P : α → Prop}
    (h : ∀ s, ∃ a, (call s).1 = .ok a ∧ P a) : Gives (carried call) P :=
  gives_mapError _ h

/-- What is made of a node's word, whose errors are passed on. -/
def relayed (word : Except NodeError Json) : Except RepositoryError Json :=
  word.mapError fun e => .transport (.rpc e)

theorem result_eq (r : Response) : result r = relayed r.outcome := by
  unfold result
  cases r.outcome <;> rfl

theorem ends_ask (h : t.Steady say) (r : Request) :
    Ends (ask t r) (· = relayed (say r.method r.params)) := by
  refine (gives_carried (h.send r)).next fun response houtcome => ?_
  apply ends_having
  rw [result_eq, houtcome]

theorem gives_askAll (h : t.Steady say) {rs : List Request} (nodup : (rs.map (·.id.number?)).Nodup) :
    Gives (askAll t rs) (Response.Faithful say rs) := by
  unfold askAll
  split
  · next hempty =>
    rw [List.isEmpty_iff.mp hempty]
    exact gives_pure fun r hr => absurd hr List.not_mem_nil
  · exact gives_carried fun s => h.batch rs s nodup

theorem nodup_numbered {α : Type} {l : List α} (fits : l.length ≤ UInt64.size) :
    (l.zipIdx.map fun p => some (UInt64.ofNat p.2)).Nodup := by
  have hplaces : l.zipIdx.map (fun p => some (UInt64.ofNat p.2)) =
      (List.range' 0 l.length).map fun i => some (UInt64.ofNat i) := by
    rw [← List.zipIdx_map_snd, List.map_map]
    rfl
  rw [hplaces]
  refine List.Nodup.map_on ?_ List.nodup_range'
  intro i hi j hj hsame
  simp only [List.mem_range'_1, Nat.zero_add, Nat.zero_le, true_and] at hi hj
  have hword : UInt64.ofNat i = UInt64.ofNat j := Option.some.inj hsame
  rw [← Json.toNat_ofNat_word (Nat.lt_of_lt_of_le hi fits), hword,
    Json.toNat_ofNat_word (Nat.lt_of_lt_of_le hj fits)]

theorem answer?_of_told {responses : List Response} {n : UInt64} {word : Except NodeError Json}
    (told : ∀ outcome, Told responses n outcome ↔ outcome = word) :
    ∃ r, Response.answer? responses n = some r ∧ r.outcome = word := by
  cases hanswer : Response.answer? responses n with
  | none =>
    obtain ⟨r, hr, hid, -⟩ := (told word).mpr rfl
    exact absurd hid (Response.silent_of_answer? hanswer r hr)
  | some r => exact ⟨r, rfl, (told r.outcome).mp (Response.told_of_answer? hanswer)⟩

theorem BlockDialect.readAnswers_eq_mapM {β : Type} (d : BlockDialect β) {responses : List Response}
    {ns : List UInt64} {word : UInt64 → Except RepositoryError (Option β)}
    (read : ∀ n ∈ ns, d.readAnswer responses n = word n) :
    d.readAnswers responses ns = ns.mapM fun n => (word n).map (n, ·) := by
  induction ns with
  | nil => rfl
  | cons n ns ih =>
    obtain ⟨hn, hns⟩ := List.forall_mem_cons.mp read
    rw [readAnswers, List.mapM_cons, hn, ih hns]
    cases word n with
    | error e => rfl
    | ok found => cases ns.mapM fun n => (word n).map (n, ·) <;> rfl

def BlockDialect.heard {β : Type} (d : BlockDialect β) (say : String → Json → Except NodeError Json)
    (n : UInt64) : Except RepositoryError (Option β) :=
  d.judge n (say (d.request n).method (d.request n).params)

theorem BlockDialect.ends_fetch {β : Type} (h : t.Steady say) (d : BlockDialect β)
    (own : ∀ n, (d.request n).id = .number n) (numbers : BlockSet) :
    Ends (d.fetch t numbers) (· = numbers.toList.mapM fun n => (d.heard say n).map (n, ·)) := by
  have hnodup : ((numbers.toList.map d.request).map (·.id.number?)).Nodup := by
    rw [List.map_map]
    refine List.Nodup.map_on ?_ (ChainFamily.numbers_nodup numbers)
    intro n _ k _ hid
    simpa [own, Rpc.Id.number?] using hid
  refine (gives_askAll h hnodup).next fun responses faithful => ?_
  have hread : ∀ n ∈ numbers.toList, d.readAnswer responses n = d.heard say n := by
    intro n hn
    have htold := faithful _ (List.mem_map_of_mem hn) n (by rw [own]; rfl)
    obtain ⟨r, hanswer, houtcome⟩ := answer?_of_told htold
    rw [d.readAnswer_of_some hanswer, houtcome, BlockDialect.heard]
  exact ends_having (d.readAnswers_eq_mapM hread)

namespace Lookup

variable {κ β : Type} (l : Lookup κ β)

/-- What a lookup makes of the word of a node on a key. -/
def heard (say : String → Json → Except NodeError Json) (k : κ) : Except RepositoryError (Option β) :=
  l.judge (say l.method (.arr (l.params k)))

def gathered (say : String → Json → Except NodeError Json) (keys : List κ) :
    Except RepositoryError (List (κ × β)) :=
  (keys.mapM fun k => (l.heard say k).map (Option.map (k, ·))).map (List.filterMap id)

theorem gathered_nil (say : String → Json → Except NodeError Json) : l.gathered say [] = .ok [] := rfl

theorem gathered_cons (say : String → Json → Except NodeError Json) (k : κ) (keys : List κ) :
    l.gathered say (k :: keys) = match l.heard say k with
      | .error e => .error e
      | .ok none => l.gathered say keys
      | .ok (some b) => (l.gathered say keys).map ((k, b) :: ·) := by
  unfold gathered
  rw [List.mapM_cons]
  cases l.heard say k with
  | error e => rfl
  | ok found =>
    cases keys.mapM fun k => (l.heard say k).map (Option.map (k, ·)) <;> cases found <;> rfl

theorem gathered_append (say : String → Json → Except NodeError Json) (keys rest : List κ) :
    l.gathered say (keys ++ rest) =
      (l.gathered say keys).bind fun found => (l.gathered say rest).map (found ++ ·) := by
  induction keys with
  | nil =>
    rw [gathered_nil, List.nil_append]
    cases l.gathered say rest <;> rfl
  | cons k keys ih =>
    rw [List.cons_append, gathered_cons, gathered_cons, ih]
    cases l.heard say k with
    | error e => rfl
    | ok found =>
      cases found with
      | none => rfl
      | some b =>
        cases l.gathered say keys with
        | error e => rfl
        | ok found => cases l.gathered say rest <;> rfl

theorem readAnswers_gathered {responses : List Response} {keys : List κ} (next : Nat)
    (read : ∀ p ∈ keys.zipIdx next, l.readOne responses p.2 = l.heard say p.1) :
    l.readAnswers responses (keys.zipIdx next) = l.gathered say keys := by
  induction keys generalizing next with
  | nil => rfl
  | cons k keys ih =>
    rw [List.zipIdx_cons] at read ⊢
    obtain ⟨hk, hkeys⟩ := List.forall_mem_cons.mp read
    refine (l.readAnswers_cons responses k next _).trans ?_
    rw [hk, ih (next + 1) hkeys]
    exact (l.gathered_cons say k keys).symm

theorem ends_piece (h : t.Steady say) {keys : List κ} (fits : keys.length ≤ UInt64.size) :
    Ends (do
      let responses ← askAll t (l.requests keys)
      having (l.readAnswers responses keys.zipIdx)) (· = l.gathered say keys) := by
  have hnodup : ((l.requests keys).map (·.id.number?)).Nodup := by
    rw [requests, List.map_map]
    exact nodup_numbered fits
  refine (gives_askAll h hnodup).next fun responses faithful => ?_
  refine ends_having (l.readAnswers_gathered 0 fun p hp => ?_)
  obtain ⟨k, i⟩ := p
  have hmem : Request.positional (UInt64.ofNat i) l.method (l.params k) ∈ l.requests keys :=
    List.mem_map.mpr ⟨(k, i), hp, rfl⟩
  obtain ⟨r, hanswer, houtcome⟩ := answer?_of_told (faithful _ hmem (UInt64.ofNat i) rfl)
  rw [l.readOne_of_answer? hanswer, houtcome]
  rfl

/-- What the batches bring together is what the node knows. -/
theorem ends_fetch (h : t.Steady say) (keys : List κ) :
    Ends (l.fetch t keys) (· = l.gathered say keys) := by
  have hpieces : ∀ batches : List (List κ), (∀ keys ∈ batches, keys.length ≤ batchSize) →
      Ends (l.fetchPieces t batches) (· = l.gathered say batches.flatten) := by
    intro batches
    induction batches with
    | nil => exact fun _ => ends_pure rfl
    | cons keys rest ih =>
      intro short
      obtain ⟨hkeys, hrest⟩ := List.forall_mem_cons.mp short
      have hsmall : keys.length ≤ UInt64.size := Nat.le_trans hkeys (by decide)
      rw [List.flatten_cons, gathered_append]
      have hassoc : l.fetchPieces t (keys :: rest) = (do
          let responses ← askAll t (l.requests keys)
          having (l.readAnswers responses keys.zipIdx)) >>= fun found => do
            let others ← l.fetchPieces t rest
            return found ++ others := by
        rw [fetchPieces, bind_assoc]
      rw [hassoc]
      exact (l.ends_piece h hsmall).fixed fun found _ => (ih hrest).map
  have hflatten := hpieces (pieces batchSize keys) fun p hp => (length_of_mem_pieces (by decide) hp).2
  rwa [flatten_pieces (by decide)] at hflatten

end Lookup

end Family

namespace Near

open Family

variable {t : Transport (StateM σ)} {say : String → Json → Except NodeError Json}

def chunkParams (chunk : String) : Json := .object [("chunk_id", .str chunk)]

/-- The transactions in the word of a node on a chunk. -/
def chunkHeard (say : String → Json → Except NodeError Json) (chunk : String) :
    Except RepositoryError (List RawTransaction) :=
  (relayed (say chunkMethod (chunkParams chunk))).bind (readPart "chunk" RawTransaction.ofChunk?)

def blockHeard (say : String → Json → Except NodeError Json) (b : Block × List String) :
    Except RepositoryError Block :=
  (b.2.mapM (chunkHeard say)).map fun found =>
    { b.1 with transactions := some (found.flatten.zipIdx.map fun (t, i) => t.inBlock b.1 i) }

theorem chunkRequests_eq (blocks : List (Block × List String)) :
    chunkRequests blocks = (blocks.flatMap (·.2)).zipIdx.map fun p =>
      .named (UInt64.ofNat p.2) chunkMethod (chunkParams p.1) := rfl

theorem range'_mapM {responses : List Response} {chunks : List String} (next : Nat)
    (read : ∀ i chunk, chunks[i]? = some chunk →
      chunkTransactions responses (next + i) = chunkHeard say chunk) :
    (List.range' next chunks.length).mapM (chunkTransactions responses) = chunks.mapM (chunkHeard say) := by
  induction chunks generalizing next with
  | nil => rfl
  | cons chunk chunks ih =>
    have hfirst : chunkTransactions responses next = chunkHeard say chunk := read 0 chunk rfl
    have hrest := ih (next + 1) fun i c hc => by
      rw [Nat.add_right_comm]
      exact read (i + 1) c hc
    rw [List.length_cons, List.range'_succ, List.mapM_cons, List.mapM_cons, hfirst, hrest]

theorem fillBlocks_eq {responses : List Response} {blocks : List (Block × List String)} (next : Nat)
    (read : ∀ i chunk, (blocks.flatMap (·.2))[i]? = some chunk →
      chunkTransactions responses (next + i) = chunkHeard say chunk) :
    fillBlocks responses next blocks = blocks.mapM (blockHeard say) := by
  induction blocks generalizing next with
  | nil => rfl
  | cons b blocks ih =>
    obtain ⟨b, chunks⟩ := b
    rw [List.flatMap_cons] at read
    have hfirst := range'_mapM next fun i c hc => by
      have hlt : i < chunks.length := (List.getElem?_eq_some_iff.mp hc).1
      exact read i c (by rw [List.getElem?_append_left hlt, hc])
    have hrest := ih (next + chunks.length) fun i c hc => by
      rw [Nat.add_assoc]
      refine read _ c ?_
      rw [List.getElem?_append_right (Nat.le_add_right _ _), Nat.add_sub_cancel_left, hc]
    rw [fillBlocks, hfirst, hrest, List.mapM_cons, blockHeard]
    cases chunks.mapM (chunkHeard say) with
    | error e => rfl
    | ok found => cases blocks.mapM (blockHeard say) <;> rfl

theorem ends_attachTransactions (h : t.Steady say) {blocks : List (Block × List String)}
    (fits : (blocks.flatMap (·.2)).length ≤ UInt64.size) :
    Ends (attachTransactions t blocks) (· = blocks.mapM (blockHeard say)) := by
  have hnodup : ((chunkRequests blocks).map (·.id.number?)).Nodup := by
    rw [chunkRequests_eq, List.map_map]
    exact nodup_numbered fits
  refine (gives_askAll h hnodup).next fun responses faithful => ?_
  refine ends_having (fillBlocks_eq 0 fun i chunk hchunk => ?_)
  have hmem : Request.named (UInt64.ofNat i) chunkMethod (chunkParams chunk) ∈ chunkRequests blocks := by
    rw [chunkRequests_eq]
    exact List.mem_map.mpr ⟨(chunk, i), List.mem_zipIdx_iff_getElem?.mpr hchunk, rfl⟩
  obtain ⟨r, hanswer, houtcome⟩ := answer?_of_told (faithful _ hmem (UInt64.ofNat i) rfl)
  have hresult : result r = relayed (say chunkMethod (chunkParams chunk)) := by
    rw [result_eq, houtcome]
    rfl
  rw [Nat.zero_add, chunkTransactions, answer, hanswer, chunkHeard, ← hresult]
  rfl

end Near
end ChainFeed

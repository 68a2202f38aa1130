import ChainFeed.Chain.Block
import ChainFeed.Chain.Filter
import ChainFeed.Proofs.Json.Forms
import ChainFeed.Proofs.Timestamp
import ChainFeed.Queue.Event
import ChainFeed.Rpc.Message

/-!
# Records are read back

Each record has a writer and a reader of its own, and a field can be renamed, nullable, defaulted or left
out. For each record one lemma goes along the fields: the reader finds under every name what the writer put
there, in the tree as it was written and in its canonical form. Records inside records need nothing more
than the lemma about the inner one.
-/

namespace ChainFeed

open Json

theorem BlockTag.readsAs (tag : BlockTag) : ReadsAs ofJson? tag tag.toJson := by
  cases tag with
  | number n => exact .of_canonical rfl (by simp [toJson, ofJson?])
  | latest => exact .of_canonical rfl rfl
  | safe => exact .of_canonical rfl rfl
  | finalized => exact .of_canonical rfl rfl

theorem TopicFilter.readsAs (filter : TopicFilter) : ReadsAs ofJson? filter filter.toJson := by
  cases filter with
  | single t => exact .of_canonical rfl rfl
  | anyOf ts =>
    apply ReadsAs.of_canonical (isFreeForm_strings ts).canonical?_eq
    have hlist : (Json.strings ts).list? text? = some ts := (ReadsAs.texts ts).forms (.inl rfl)
    calc
      ofJson? (.strings ts) = ((Json.strings ts).list? text?).map .anyOf := rfl
      _ = some (.anyOf ts) := by rw [hlist, Option.map_some]

namespace LogFilter

def positionJson (position : Option TopicFilter) : Json := (position.map TopicFilter.toJson).getD .null

def position? : Json → Option (Option TopicFilter) := (·.orNull? TopicFilter.ofJson?)

theorem topicsJson_eq (f : LogFilter) : f.topicsJson = .arr (f.topics.map positionJson) := rfl

theorem position_readsAs (position : Option TopicFilter) : ReadsAs position? position (positionJson position) :=
  .option rfl fun filter _ => filter.readsAs

theorem readsAs (f : LogFilter) : ReadsAs ofJson? f f.toJson := by
  have htopics : ReadsAs (list? position?) f.topics f.topicsJson := by
    rw [topicsJson_eq]
    exact .list fun position _ => position_readsAs position
  apply ReadsAs.record
  · simp
  · simp [htopics.kept]
  · intro r h
    have haddresses := h.required "addresses" (.texts f.addresses)
    have hpositions := h.required "topics" htopics
    have hfrom := h.required "fromBlock" (.word f.fromBlock)
    have hto := h.required "toBlock" (.word f.toBlock)
    unfold position? at hpositions
    rw [haddresses, hpositions, hfrom, hto]
    rfl

end LogFilter

theorem mem_optionalMember {α : Type} {name : String} {form : α → Json} {o : Option α} {m : String × Json} :
    m ∈ optionalMember name form o ↔ ∃ a ∈ o, m = (name, form a) := by
  cases o <;> simp [optionalMember]

theorem isKept_optionalMember {α : Type} {name : String} {form : α → Json} {o : Option α}
    (h : ∀ a ∈ o, IsKept (form a)) : ∀ m ∈ optionalMember name form o, IsKept m.2 := by
  intro m hm
  obtain ⟨a, ha, rfl⟩ := mem_optionalMember.mp hm
  exact h a ha

theorem Log.readsAs (l : Log) : ReadsAs ofJson? l l.toJson := by
  apply ReadsAs.record
  · simp
  · simp
  · intro r h
    have haddress := h.required "address" (.text l.address)
    have htopics := h.required "topics" (.texts l.topics)
    have hdata := h.required "data" (.text l.data)
    have hnumber := h.required "blockNumber" (.word l.blockNumber)
    have hblock := h.required "blockHash" (.text l.blockHash)
    have htx := h.required "transactionHash" (.text l.transactionHash)
    have htxIndex := h.required "transactionIndex" (.text l.transactionIndex)
    have hindex := h.required "logIndex" (.word l.logIndex)
    have hremoved := h.required "removed" (.bool l.removed)
    have hchain := h.required "chainId" (.word l.chainId)
    rw [haddress, htopics, hdata, hnumber, hblock, htx, htxIndex, hindex, hremoved, hchain]
    rfl

theorem Log.list_readsAs (logs : List Log) : ReadsAs (list? ofJson?) logs (.arr (logs.map toJson)) :=
  .list fun l _ => l.readsAs

theorem TxStatus.readsAs (status : TxStatus) : ReadsAs ofJson? status (.str status.render) := by
  cases status <;> exact .of_canonical rfl rfl

theorem Receipt.readsAs (t : Receipt) : ReadsAs ofJson? t t.toJson := by
  have hlogs := Log.list_readsAs t.logs
  have hgas := ReadsAs.wordOrNull t.gasUsed
  apply ReadsAs.record
  · simp
  · simp [hlogs.kept, hgas.kept]
  · intro r h
    have hhash := h.required "transactionHash" (.text t.transactionHash)
    have hnumber := h.required "blockNumber" (.word t.blockNumber)
    have hblock := h.required "blockHash" (.text t.blockHash)
    have hsender := h.required "from" (.text t.sender)
    have hreceiver := h.optional "to" (.textOrNull t.receiver)
    have hstatus := h.required "status" t.status.readsAs
    have hreadLogs := h.required "logs" hlogs
    have hreadGas := h.optional "gasUsed" hgas
    rw [hhash, hnumber, hblock, hsender, hreceiver, hstatus, hreadLogs, hreadGas]
    rfl

theorem TxRef.readsAs (t : TxRef) : ReadsAs ofJson? t t.toJson := by
  apply ReadsAs.record
  · simp
  · simp
  · intro r h
    have hhash := h.required "hash" (.text t.hash)
    have hsender := h.optional "sender" (.textOrNull t.sender)
    rw [hhash, hsender]
    rfl

theorem Transaction.readsAs (t : Transaction) : ReadsAs ofJson? t t.toJson := by
  have hstatus : ReadsAs (·.orNull? TxStatus.ofJson?) t.status (.strOrNull (t.status.map TxStatus.render)) := by
    cases t.status with
    | none => exact .of_canonical rfl rfl
    | some status => exact .given rfl status.readsAs
  have htime : ReadsAs (·.orNull? signed?) t.timestamp ((t.timestamp.map fun s => .int s.toInt).getD .null) :=
    .option rfl fun s _ => .signed s
  have hlogs := Log.list_readsAs t.logs
  have hchainId := ReadsAs.wordOrNull t.chainId
  apply ReadsAs.record
  · simp
  · simp [hstatus.kept, htime.kept, hlogs.kept, hchainId.kept]
  · intro r h
    have hhash := h.required "hash" (.text t.hash)
    have hnumber := h.required "blockNumber" (.word t.blockNumber)
    have hblock := h.required "blockHash" (.text t.blockHash)
    have hsender := h.required "from" (.text t.sender)
    have hreceiver := h.optional "to" (.textOrNull t.receiver)
    have hinput := h.defaulted "input" "" (.text t.input)
    have hvalue := h.defaulted "value" "" (.text t.value)
    have hindex := h.defaulted "transactionIndex" "" (.text t.transactionIndex)
    have hreadStatus := h.nullable "status" hstatus
    have hreadTime := h.nullable "timestamp" htime
    have hreadLogs := h.defaulted "logs" [] hlogs
    have hchain := h.nullable "chain" (.textOrNull t.chain)
    have hreadChainId := h.nullable "chainId" hchainId
    have henvironment := h.nullable "environment" (.textOrNull t.environment)
    rw [hhash, hnumber, hblock, hsender, hreceiver, hinput, hvalue, hindex, hreadStatus, hreadTime, hreadLogs,
      hchain, hreadChainId, henvironment]
    rfl

namespace Block

def transactionsJson (txs : List Transaction) : Json := .arr (txs.map Transaction.toJson)

theorem transactions_readsAs (txs : List Transaction) :
    ReadsAs (list? Transaction.ofJson?) txs (transactionsJson txs) :=
  .list fun t _ => t.readsAs

theorem toJson_eq (b : Block) : b.toJson = .obj ([("number", .word b.number), ("hash", .str b.hash),
    ("timestamp", .int b.timestamp.toInt)] ++ optionalMember "transactions" transactionsJson b.transactions) := by
  rw [toJson]
  cases b.transactions <;> rfl

theorem readsAs (b : Block) : ReadsAs ofJson? b b.toJson := by
  rw [toJson_eq]
  apply ReadsAs.record
  · cases b.transactions <;> simp [optionalMember]
  · refine List.forall_mem_append.mpr ⟨by simp, ?_⟩
    exact isKept_optionalMember fun txs _ => (transactions_readsAs txs).kept
  · intro r h
    have hnumber := h.required "number" (.word b.number)
    have hhash := h.required "hash" (.text b.hash)
    have htime := h.required "timestamp" (.signed b.timestamp)
    have htransactions : r.nullable "transactions" (list? Transaction.ofJson?) = some b.transactions :=
      h.nullable_skipped "transactions" rfl (fun txs _ => transactions_readsAs txs)
        (fun txs h => by simp [mem_optionalMember, h]) fun hnone => by simp [mem_optionalMember, hnone]
    rw [hnumber, hhash, htime, htransactions]
    rfl

end Block

theorem Timestamp.readsAs {t : Timestamp} (told : t.IsTold) : ReadsAs ofJson? t t.toJson := by
  apply ReadsAs.of_canonical rfl
  rw [ofJson?, toJson, text?_str, Option.bind_some, read?_render told]

theorem ChainEvent.readsAs {e : ChainEvent} (told : ∀ t ∈ e.timestamp, t.IsTold) :
    ReadsAs ofJson? e e.toJson := by
  apply ReadsAs.record
  · cases e.txHash <;> cases e.timestamp <;> cases e.payload <;> simp [optionalMember]
  · simp only [List.forall_mem_append]
    refine ⟨⟨⟨by simp, ?_⟩, ?_⟩, ?_⟩
    · exact isKept_optionalMember fun s _ => isKept_str s
    · exact isKept_optionalMember fun t _ => isKept_str t.render
    · exact isKept_optionalMember fun s _ => isKept_str s
  · intro r h
    have hid := h.required "id" (.text e.id)
    have hchain := h.required "chainId" (.word e.chainId)
    have hemitter := h.required "emitterAddress" (.text e.emitterAddress)
    have hsequence := h.required "sequence" (.word e.sequence)
    have htx : r.nullable "txHash" text? = some e.txHash :=
      h.nullable_skipped "txHash" rfl (fun s _ => .text s)
        (fun s h => by simp [mem_optionalMember, h]) fun hnone => by simp [mem_optionalMember, hnone]
    have htime : r.nullable "timestamp" Timestamp.ofJson? = some e.timestamp :=
      h.nullable_skipped "timestamp" rfl (fun t ht => Timestamp.readsAs (told t ht))
        (fun t h => by simp [mem_optionalMember, h]) fun hnone => by simp [mem_optionalMember, hnone]
    have hpayload : r.nullable "payload" text? = some e.payload :=
      h.nullable_skipped "payload" rfl (fun s _ => .text s)
        (fun s h => by simp [mem_optionalMember, h]) fun hnone => by simp [mem_optionalMember, hnone]
    rw [hid, hchain, hemitter, hsequence, htx, htime, hpayload]
    rfl

namespace Rpc

theorem Id.readsAs (id : Id) : ReadsAs ofJson? id id.toJson := by
  cases id with
  | number n =>
    apply ReadsAs.of_canonical rfl
    calc
      ofJson? (.word n) = (Json.word n).word?.map .number := rfl
      _ = some (.number n) := by rw [word?_word, Option.map_some]
  | text s => exact .of_canonical rfl rfl
  | null => exact .of_canonical rfl rfl

theorem Request.readsAs {r : Request} (held : r.params.IsFreeForm) : ReadsAs ofJson? r r.toJson := by
  have hparams : ReadsAs canonical? r.params r.params := .of_canonical held.canonical?_eq held.canonical?_eq
  have hid := r.id.readsAs
  apply ReadsAs.record
  · simp
  · simp [hparams.kept, hid.kept]
  · intro record h
    have hversion := h.required "jsonrpc" (.text r.jsonrpc)
    have hmethod := h.required "method" (.text r.method)
    have hreadParams := h.required "params" hparams
    have hreadId := h.required "id" hid
    rw [hversion, hmethod, hreadParams, hreadId]
    rfl

end Rpc

/-- Every record is read back from what was written of it, and no two values of one record are written
alike: not a wildcard position, a single topic and a list of them, not an id that is null and one that is
not, not a field that is left out and one that is there. A time is one that its text can tell: in any year,
and a leap second only at the end of a minute. -/
theorem records_read_back :
    Faithful BlockTag.toJson BlockTag.ofJson? (fun _ => True) ∧
    Faithful LogFilter.positionJson LogFilter.position? (fun _ => True) ∧
    Faithful LogFilter.toJson LogFilter.ofJson? (fun _ => True) ∧
    Faithful Log.toJson Log.ofJson? (fun _ => True) ∧
    Faithful Transaction.toJson Transaction.ofJson? (fun _ => True) ∧
    Faithful Receipt.toJson Receipt.ofJson? (fun _ => True) ∧
    Faithful Block.toJson Block.ofJson? (fun _ => True) ∧
    Faithful TxRef.toJson TxRef.ofJson? (fun _ => True) ∧
    Faithful Rpc.Id.toJson Rpc.Id.ofJson? (fun _ => True) ∧
    Faithful Rpc.Request.toJson Rpc.Request.ofJson? (fun r => r.params.IsFreeForm) ∧
    Faithful ChainEvent.toJson ChainEvent.ofJson? (fun e => ∀ t ∈ e.timestamp, t.IsTold) := by
  refine ⟨?_, ?_, ?_, ?_, ?_, ?_, ?_, ?_, ?_, ?_, ?_⟩
  · exact .of_readsAs fun tag _ => tag.readsAs
  · exact .of_readsAs fun position _ => LogFilter.position_readsAs position
  · exact .of_readsAs fun f _ => f.readsAs
  · exact .of_readsAs fun l _ => l.readsAs
  · exact .of_readsAs fun t _ => t.readsAs
  · exact .of_readsAs fun t _ => t.readsAs
  · exact .of_readsAs fun b _ => b.readsAs
  · exact .of_readsAs fun t _ => t.readsAs
  · exact .of_readsAs fun id _ => id.readsAs
  · exact .of_readsAs fun _ held => Rpc.Request.readsAs held
  · exact .of_readsAs fun _ told => ChainEvent.readsAs told

def namelessCall : Rpc.Request where
  method := "query"
  params := .obj [("account_id", .str "a.near"), ("args", .arr [.null, .float 0.5, .obj []])]
  id := .null

def leapDayEvent : ChainEvent where
  id := "2/7"
  chainId := 2
  emitterAddress := "0xa"
  sequence := 7
  timestamp := some ⟨0, 2, 29, 86399, 999999999⟩
  payload := some ""

theorem namelessCall_held : namelessCall.params.IsFreeForm := by
  refine .obj (by decide) ?_
  simp only [List.forall_mem_cons]
  refine ⟨.str _, .arr ?_, nofun⟩
  simp only [List.forall_mem_cons]
  exact ⟨.null, .float _, .obj .nil nofun, nofun⟩

theorem leapDayEvent_told : ∀ t ∈ leapDayEvent.timestamp, t.IsTold := by
  rintro _ ⟨⟩
  exact ⟨by decide, by decide⟩

/-- What looks alike is told apart: one topic and a list of it, and a block with an empty list of
transactions and one without a list. -/
theorem namelessCall_read_back :
    namelessCall.params.IsFreeForm ∧ (∀ t ∈ leapDayEvent.timestamp, t.IsTold) ∧
    Rpc.Request.ofJson? namelessCall.toJson = some namelessCall ∧
    ChainEvent.ofJson? leapDayEvent.toJson = some leapDayEvent ∧
    (LogFilter.positionJson (some (.single "t"))).canonical? ≠
      (LogFilter.positionJson (some (.anyOf ["t"]))).canonical? ∧
    (Block.toJson ⟨7, "h", 0, some []⟩).canonical? ≠ (Block.toJson ⟨7, "h", 0, none⟩).canonical? := by
  obtain ⟨-, hposition, -, -, -, -, hblock, -, -, hrequest, hevent⟩ := records_read_back
  refine ⟨namelessCall_held, leapDayEvent_told, hrequest.written _ namelessCall_held,
    hevent.written _ leapDayEvent_told, fun same => ?_, fun same => ?_⟩
  · cases hposition.distinct _ _ trivial trivial same
  · cases hblock.distinct _ _ trivial trivial same

end ChainFeed

import ChainFeed.Proofs.Json.Printed
import ChainFeed.Proofs.Timestamp
import ChainFeed.Queue.Event

/-!
# Decoding undoes publishing

An event is written into a string of the envelope, so its text is escaped twice. Both trees are
shallow and hold whole words only, hence they are read back, and each record finds its members again,
whichever of them were left out.
-/

namespace ChainFeed

open Json

def optionalEntry {α : Type} (form : α → Json) : Option α → Entry
  | some a => .given (form a)
  | none => .omitted

section Optional

variable {α : Type} {name : String} {form : α → Json} {a : Option α}

theorem nullable_optionalEntry {r : Record} {value : Json → Option α}
    (entry : r.entry name = optionalEntry form a)
    (read : ∀ x ∈ a, (form x).orNull? value = some (some x)) : r.nullable name value = some a := by
  rw [Record.nullable, Record.defaulted, entry]
  cases a with
  | none => rfl
  | some x => exact read x rfl

theorem legible_optionalMember {room : Nat} (legible : ∀ x, Legible room (form x)) :
    ∀ m ∈ optionalMember name form a, Legible room m.2 := by
  intro m hm
  cases a with
  | none => cases hm
  | some x =>
    obtain rfl := List.mem_singleton.mp hm
    exact legible x

end Optional

theorem orNull?_str (s : String) : (Json.str s).orNull? text? = some (some s) := rfl

theorem Timestamp.orNull?_toJson {t : Timestamp} (h : t.IsTold) :
    t.toJson.orNull? ofJson? = some (some t) := by
  have hread : ofJson? t.toJson = some t := by
    rw [ofJson?, toJson, text?_str, Option.bind_some, read?_render h]
  rw [toJson] at hread ⊢
  rw [orNull?, hread, Option.map_some]
  exact nofun

namespace ChainEvent

variable (e : ChainEvent)

def record : Record :=
  [("id", .given (.str e.id)), ("chainId", .given (.word e.chainId)),
    ("emitterAddress", .given (.str e.emitterAddress)), ("sequence", .given (.word e.sequence)),
    ("txHash", optionalEntry .str e.txHash), ("timestamp", optionalEntry Timestamp.toJson e.timestamp),
    ("payload", optionalEntry .str e.payload)]

theorem record?_toJson : e.toJson.record?
    ["id", "chainId", "emitterAddress", "sequence", "txHash", "timestamp", "payload"] = some e.record := by
  obtain ⟨id, chainId, emitter, sequence, txHash, timestamp, payload⟩ := e
  cases txHash <;> cases timestamp <;> cases payload <;>
    simp [toJson, record, optionalMember, optionalEntry, record?, entryOf?]

theorem legible_toJson (room : Nat) : Legible (room + 1) e.toJson := by
  have hword : ∀ n : UInt64, Legible room (.word n) := fun n => .int _ _ (inRange_word n)
  have htext : ∀ s : String, Legible room (.str s) := .str _
  apply Legible.obj
  simp only [List.forall_mem_append, List.forall_mem_cons]
  refine ⟨⟨⟨⟨htext _, hword _, htext _, hword _, nofun⟩, ?_⟩, ?_⟩, ?_⟩
  · exact legible_optionalMember htext
  · exact legible_optionalMember fun t => htext t.render
  · exact legible_optionalMember htext

variable {e}

/-- An event is read back from its tree. -/
theorem ofJson?_toJson (told : ∀ t ∈ e.timestamp, t.IsTold) : ofJson? e.toJson = some e := by
  have hid : e.record.required "id" text? = some e.id := by simp [record, Record.required, Record.entry]
  have hchain : e.record.required "chainId" word? = some e.chainId := by
    simp [record, Record.required, Record.entry]
  have hemitter : e.record.required "emitterAddress" text? = some e.emitterAddress := by
    simp [record, Record.required, Record.entry]
  have hsequence : e.record.required "sequence" word? = some e.sequence := by
    simp [record, Record.required, Record.entry]
  have htx : e.record.nullable "txHash" text? = some e.txHash :=
    nullable_optionalEntry (by simp [record, Record.entry]) fun s _ => orNull?_str s
  have hentry : e.record.entry "timestamp" = optionalEntry Timestamp.toJson e.timestamp := by
    simp [record, Record.entry]
  have htime : e.record.nullable "timestamp" Timestamp.ofJson? = some e.timestamp :=
    nullable_optionalEntry hentry fun t ht => Timestamp.orNull?_toJson (told t ht)
  have hpayload : e.record.nullable "payload" text? = some e.payload :=
    nullable_optionalEntry (by simp [record, Record.entry]) fun s _ => orNull?_str s
  rw [ofJson?, record?_toJson, Option.bind_eq_bind, Option.bind_some]
  rw [hid, hchain, hemitter, hsequence, htx, htime, hpayload]
  rfl

end ChainEvent

namespace Envelope

variable (e : Envelope)

def record : Record :=
  [("Type", .given (.str e.kind)), ("MessageId", .given (.str e.messageId)),
    ("Message", .given (.str e.message)), ("Timestamp", optionalEntry Timestamp.toJson e.timestamp)]

theorem record?_toJson :
    e.toJson.record? ["Type", "MessageId", "Message", "Timestamp"] = some e.record := by
  obtain ⟨kind, messageId, message, timestamp⟩ := e
  cases timestamp <;> simp [toJson, record, optionalMember, optionalEntry, record?, entryOf?]

theorem legible_toJson (room : Nat) : Legible (room + 1) e.toJson := by
  have htext : ∀ s : String, Legible room (.str s) := .str _
  apply Legible.obj
  simp only [List.forall_mem_append, List.forall_mem_cons]
  refine ⟨⟨htext _, htext _, htext _, nofun⟩, ?_⟩
  exact legible_optionalMember fun t => htext t.render

variable {e}

theorem ofJson?_toJson (told : ∀ t ∈ e.timestamp, t.IsTold) : ofJson? e.toJson = some e := by
  have hkind : e.record.required "Type" text? = some e.kind := by
    simp [record, Record.required, Record.entry]
  have hid : e.record.required "MessageId" text? = some e.messageId := by
    simp [record, Record.required, Record.entry]
  have hmessage : e.record.required "Message" text? = some e.message := by
    simp [record, Record.required, Record.entry]
  have hentry : e.record.entry "Timestamp" = optionalEntry Timestamp.toJson e.timestamp := by
    simp [record, Record.entry]
  have htime : e.record.nullable "Timestamp" Timestamp.ofJson? = some e.timestamp :=
    nullable_optionalEntry hentry fun t ht => Timestamp.orNull?_toJson (told t ht)
  simp [ofJson?, record?_toJson, hkind, hid, hmessage, htime]

end Envelope

/-- Decoding what was published gives the event again, whatever characters its texts hold and
whichever of its fields are there. -/
theorem decodes_published (messageId : String) (e : ChainEvent) (now : Timestamp)
    (told : ∀ t ∈ e.timestamp, t.IsTold) (clock : now.IsTold) :
    decodeMessage? (Envelope.wrap messageId e now).toJson.render = some e := by
  have hclock : ∀ t ∈ (Envelope.wrap messageId e now).timestamp, t.IsTold := by
    rintro _ ⟨⟩
    exact clock
  have houter : read? (Envelope.wrap messageId e now).toJson.render =
      some (Envelope.wrap messageId e now).toJson :=
    read?_render (Envelope.legible_toJson _ 126)
  have hinner : read? e.toJson.render = some e.toJson := read?_render (e.legible_toJson 126)
  have hevent : (Envelope.wrap messageId e now).event? = some e := by
    rw [Envelope.event?, Envelope.wrap, hinner, Option.bind_some, ChainEvent.ofJson?_toJson told]
  rw [decodeMessage?, houter, Option.bind_some, Envelope.ofJson?_toJson hclock, Option.bind_some, hevent]

def strangeEvent : ChainEvent where
  id := "2/\"\\u0041\\\"/\x01\n"
  chainId := 18446744073709551615
  emitterAddress := ""
  sequence := 0
  timestamp := some ⟨2024, 2, 29, 86399, 123456000⟩
  payload := some "\x7b\"seal\":\"🦭 \t𐐷\",\"payload\":null\x7d"

theorem strangeEvent_decoded : (∀ t ∈ strangeEvent.timestamp, t.IsTold) ∧
    Timestamp.IsTold ⟨9999, 12, 31, 86399, 999999999⟩ ∧
    decodeMessage? (Envelope.wrap "env-\"\\" strangeEvent ⟨9999, 12, 31, 86399, 999999999⟩).toJson.render =
      some strangeEvent := by
  have htold : ∀ t ∈ strangeEvent.timestamp, t.IsTold := by
    rintro _ ⟨⟩
    exact ⟨by decide, by decide⟩
  have hclock : Timestamp.IsTold ⟨9999, 12, 31, 86399, 999999999⟩ := ⟨by decide, by decide⟩
  exact ⟨htold, hclock, decodes_published _ strangeEvent _ htold hclock⟩

end ChainFeed

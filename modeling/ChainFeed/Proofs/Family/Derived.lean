import ChainFeed.Feed.Transactions
import ChainFeed.Proofs.Family.Events
import ChainFeed.Proofs.Table

/-!
# Logs made of transactions

A Solana transaction has one log, made of the instruction names that it announced, and there are two ways to
get it: from the logs of an address and from the receipt of the transaction. From a steady node both ways give
the same log of a transaction that did not fail. Only the logs of an address leave out those that failed: their
receipts have a log all the same, and so they are found by topic.
-/

namespace ChainFeed

open Rpc (NodeError Transport)
open Family

variable {σ : Type} {say : String → Json → Except NodeError Json}

namespace Family.Lookup

variable {κ β : Type} (l : Lookup κ β)

theorem answered_of_gathered {keys : List κ} {found : List (κ × β)} (h : l.gathered say keys = .ok found) :
    ∀ k ∈ keys, ∃ o, l.heard say k = .ok o := by
  obtain ⟨os, hos, -⟩ := (map_eq_ok_iff _).mp h
  intro k hk
  obtain ⟨o, ho⟩ := exists_mapM_iff.mp ⟨os, hos⟩ k hk
  obtain ⟨o, ho, -⟩ := (map_eq_ok_iff _).mp ho
  exact ⟨o, ho⟩

theorem mem_gathered {keys : List κ} {found : List (κ × β)} (h : l.gathered say keys = .ok found) {k : κ}
    {b : β} : (k, b) ∈ found ↔ k ∈ keys ∧ l.heard say k = .ok (some b) := by
  obtain ⟨found, hfound, hmem⟩ := l.gathered_of_answered (l.answered_of_gathered h)
  rw [h] at hfound
  cases hfound
  exact hmem k b

theorem mem_ofList_gathered {l : Lookup String β} {keys : List String} {found : List (String × β)}
    (h : l.gathered say keys = .ok found) {k : String} {b : β} :
    (k, b) ∈ Table.ofList found ↔ k ∈ keys ∧ l.heard say k = .ok (some b) := by
  constructor
  · exact fun hmem => (l.mem_gathered h).mp (Table.mem_of_mem_ofList hmem)
  · rintro ⟨hk, hheard⟩
    have hfound := (l.mem_gathered h).mpr ⟨hk, hheard⟩
    have hkey : k ∈ (Table.ofList found).map Prod.fst :=
      Table.mem_keys_ofList.mpr (List.mem_map_of_mem hfound)
    obtain ⟨⟨k', b'⟩, hmem, rfl⟩ := List.mem_map.mp hkey
    obtain ⟨-, hheard'⟩ := (l.mem_gathered h).mp (Table.mem_of_mem_ofList hmem)
    rw [hheard] at hheard'
    cases hheard'
    exact hmem

theorem heard_eq_get? {l : Lookup String β} {keys : List String} {found : List (String × β)}
    (h : l.gathered say keys = .ok found) {k : String} (hk : k ∈ keys) :
    l.heard say k = .ok ((Table.ofList found).get? k) := by
  obtain ⟨o, ho⟩ := l.answered_of_gathered h k hk
  rw [ho]
  congr 1
  ext b
  rw [Table.get?_eq_some_iff (Table.nodup_ofList found), mem_ofList_gathered h, and_iff_right hk, ho,
    Except.ok.injEq]

end Family.Lookup

namespace Solana

/-- The node knows this transaction under the signature. -/
def Known (say : String → Json → Except NodeError Json) (signature : String) (tx : RawTransaction) : Prop :=
  ∃ value, say transactionLookup.method (.arr (transactionLookup.params signature)) = .ok value ∧
    RawTransaction.ofJson? value = some tx

/-- The history of the address, as far as it is in range, has the signature. -/
def Listed (t : Transport (StateM σ)) (paging : Paging) (filter : LogFilter) (address signature : String) :
    Prop :=
  ∃ s entries, ((history t paging address filter).run s).1 = .ok entries ∧
    signature ∈ entries.map (·.signature)

/-- The transaction under the signature did not fail, and this is its log for the address, with a topic of the
filter if that has topics. -/
def Yields (say : String → Json → Except NodeError Json) (chainId : UInt64) (filter : LogFilter)
    (address signature : String) (log : Log) : Prop :=
  ∃ tx, Known say signature tx ∧ Meta.hasFailed tx.details = false ∧ logOf tx address chainId = .ok log ∧
    (filter.flatTopics = [] ∨ log.hasAnyTopic filter.flatTopics = true)

def RawTransaction.announced (tx : RawTransaction) : List String :=
  instructionNames ((tx.details.bind (·.messages)).getD [])

theorem heard_iff_known {signature : String} {tx : RawTransaction} :
    transactionLookup.heard say signature = .ok (some tx) ↔ Known say signature tx := by
  unfold Lookup.heard Known
  cases say transactionLookup.method (.arr (transactionLookup.params signature)) with
  | error e => simp [Lookup.judge]
  | ok value =>
    by_cases hnull : value = .null
    · subst hnull
      have hread : RawTransaction.ofJson? .null = none := rfl
      simp [Lookup.judge, hread]
    · rw [Lookup.judge_given _ hnull]
      simp only [transactionLookup, readPart, Except.ok.injEq, exists_eq_left']
      cases RawTransaction.ofJson? value <;> simp [fault, Except.map]

theorem known_unique {signature : String} {tx tx' : RawTransaction} (h : Known say signature tx)
    (h' : Known say signature tx') : tx = tx' := by
  have hheard := (heard_iff_known.mpr h).symm.trans (heard_iff_known.mpr h')
  cases hheard
  rfl

theorem logOf_eq_ok {tx : RawTransaction} {address : String} {chainId : UInt64} {log : Log}
    (h : logOf tx address chainId = .ok log) :
    log.address = address ∧ log.topics = tx.announced ∧ log.blockNumber = tx.slot ∧
      ∀ other, logOf tx other chainId = .ok { log with address := other } := by
  unfold logOf at h ⊢
  cases hsignature : tx.body.signature with
  | error e =>
    rw [hsignature] at h
    cases h
  | ok hash =>
    rw [hsignature] at h
    cases h
    exact ⟨rfl, rfl, rfl, fun _ => rfl⟩

theorem receiptOf_eq_ok {signature : String} {tx : RawTransaction} {chainId : UInt64} {r : Receipt}
    (h : receiptOf signature tx chainId = .ok r) :
    r.status = Meta.status tx.details ∧ r.receiver = tx.body.program ∧
      ∃ log, logOf tx (tx.body.program.getD "") chainId = .ok log ∧ r.logs = [log] := by
  unfold receiptOf at h
  dsimp only at h
  cases hlog : logOf tx (tx.body.program.getD "") chainId with
  | error e =>
    rw [hlog] at h
    cases h
  | ok log =>
    rw [hlog] at h
    cases hpayer : tx.body.feePayer with
    | error e =>
      rw [hpayer] at h
      cases h
    | ok payer =>
      rw [hpayer] at h
      cases h
      exact ⟨rfl, rfl, log, rfl, rfl⟩

theorem status_eq_reverted_iff {details : Option Meta} :
    Meta.status details = .reverted ↔ Meta.hasFailed details = true := by
  cases details with
  | none => simp [Meta.status, Meta.hasFailed]
  | some m => cases herror : m.error <;> simp [Meta.status, Meta.hasFailed, herror]

/-- What a transaction yields for an address: its log, unless it is not known, failed or has no topic that is
asked for. -/
def logUnder (address : String) (chainId : UInt64) (topics : List String) :
    Option RawTransaction → Except RepositoryError (Option Log)
  | none => .ok none
  | some tx =>
    if Meta.hasFailed tx.details then .ok none
    else (logOf tx address chainId).map fun log => if topics.isEmpty || log.hasAnyTopic topics then some log else none

theorem logUnder_eq_some_iff {address : String} {chainId : UInt64} {topics : List String}
    {found : Option RawTransaction} {log : Log} : logUnder address chainId topics found = .ok (some log) ↔
      ∃ tx, found = some tx ∧ Meta.hasFailed tx.details = false ∧ logOf tx address chainId = .ok log ∧
        (topics = [] ∨ log.hasAnyTopic topics = true) := by
  cases found with
  | none => simp [logUnder]
  | some tx =>
    simp only [logUnder, Option.some.injEq, exists_eq_left']
    cases Meta.hasFailed tx.details with
    | true => simp
    | false =>
      cases logOf tx address chainId with
      | error e => simp [Except.map]
      | ok own =>
        simp only [Except.map, Except.ok.injEq, Bool.false_eq_true, if_false, Option.ite_none_right_eq_some,
          Option.some.injEq, Bool.or_eq_true, List.isEmpty_iff, true_and]
        constructor
        · rintro ⟨hkept, rfl⟩
          exact ⟨rfl, hkept⟩
        · rintro ⟨rfl, hkept⟩
          exact ⟨hkept, rfl⟩

theorem logsOf_cons (address : String) (chainId : UInt64) (topics : List String) (table : Table RawTransaction)
    (s : String) (rest : List String) : logsOf address chainId topics table (s :: rest) =
      match logUnder address chainId topics (table.get? s) with
      | .error e => .error e
      | .ok log => (logsOf address chainId topics table rest).map (log.toList ++ ·) := by
  rw [logsOf]
  cases table.get? s with
  | none => cases logsOf address chainId topics table rest <;> rfl
  | some tx =>
    dsimp only [logUnder]
    cases Meta.hasFailed tx.details with
    | true => cases logsOf address chainId topics table rest <;> rfl
    | false =>
      cases logOf tx address chainId with
      | error e => rfl
      | ok log =>
        cases hkept : topics.isEmpty || log.hasAnyTopic topics <;>
          cases logsOf address chainId topics table rest <;> simp [Except.map, hkept]

theorem logsOf_eq_mapM (address : String) (chainId : UInt64) (topics : List String) (table : Table RawTransaction)
    (signatures : List String) : logsOf address chainId topics table signatures =
      (signatures.mapM fun s => logUnder address chainId topics (table.get? s)).map (List.filterMap id) := by
  induction signatures with
  | nil => rfl
  | cons s rest ih =>
    rw [logsOf_cons, List.mapM_cons, ih]
    cases logUnder address chainId topics (table.get? s) with
    | error e => rfl
    | ok log =>
      cases rest.mapM fun s => logUnder address chainId topics (table.get? s) <;> cases log <;> rfl

theorem mem_logsOf {address : String} {chainId : UInt64} {topics : List String} {table : Table RawTransaction}
    {signatures : List String} {logs : List Log}
    (h : logsOf address chainId topics table signatures = .ok logs) {log : Log} :
    log ∈ logs ↔ ∃ signature ∈ signatures, ∃ tx, table.get? signature = some tx ∧
      Meta.hasFailed tx.details = false ∧ logOf tx address chainId = .ok log ∧
      (topics = [] ∨ log.hasAnyTopic topics = true) := by
  rw [logsOf_eq_mapM] at h
  obtain ⟨os, hos, rfl⟩ := (map_eq_ok_iff _).mp h
  simp only [List.mem_filterMap, id_eq, exists_eq_right, mem_mapM hos, logUnder_eq_some_iff]

theorem settled_history {t : Transport (StateM σ)} (h : t.Steady say) (paging : Paging) (address : String)
    (filter : LogFilter) : Settled (history t paging address filter) := by
  unfold history
  generalize paging.pageBudget = budget
  generalize 1 = page, (none : Option String) = before
  induction budget generalizing page before with
  | zero => exact (ends_throw rfl).settled
  | succ budget ih =>
    rw [historyFrom]
    refine (ends_ask h _).settled.bind fun value => ?_
    refine (ends_having rfl).settled.bind fun entries => ?_
    dsimp only
    split
    · exact (ends_pure rfl).settled
    · exact (ih _ _).bind fun older => (ends_pure rfl).settled

section

variable {settings : ChainSettings (StateM σ)} {paging : Paging} {filter : LogFilter}

theorem mem_logsAt (h : settings.transport.Steady say) {addresses : List String} {s : σ} {logs : List Log}
    (hlogs : ((logsAt settings paging filter addresses).run s).1 = .ok logs) {log : Log} :
    log ∈ logs ↔ ∃ address ∈ addresses, ∃ signature,
      Listed settings.transport paging filter address signature ∧
      Yields say settings.chainId filter address signature log := by
  induction addresses generalizing s logs with
  | nil =>
    cases hlogs
    simp
  | cons address rest ih =>
    rw [logsAt] at hlogs
    obtain ⟨entries, hentries, hlogs⟩ := bind_run_eq_ok hlogs
    obtain ⟨found, hfound, hlogs⟩ := bind_run_eq_ok hlogs
    obtain ⟨own, hown, hlogs⟩ := bind_run_eq_ok hlogs
    obtain ⟨others, hothers, hlogs⟩ := bind_run_eq_ok hlogs
    cases hlogs
    have hgathered := (transactionLookup.ends_fetch h _ _).symm.trans hfound
    -- `Listed` asks for the history once more, and it is settled that it comes out the same.
    have hlisted : ∀ signature, Listed settings.transport paging filter address signature ↔
        signature ∈ entries.map (·.signature) := by
      intro signature
      constructor
      · rintro ⟨s', entries', hentries', hmem⟩
        rw [settled_history h paging address filter s' s, hentries] at hentries'
        cases hentries'
        exact hmem
      · exact fun hmem => ⟨s, entries, hentries, hmem⟩
    have hget : ∀ signature tx, signature ∈ entries.map (·.signature) →
        ((Table.ofList found).get? signature = some tx ↔ Known say signature tx) := by
      intro signature tx hmem
      rw [← heard_iff_known, Lookup.heard_eq_get? hgathered hmem, Except.ok.injEq]
    rw [List.mem_append, ih hothers, mem_logsOf hown, List.exists_mem_cons_iff]
    refine or_congr_left (exists_congr fun signature => ?_)
    rw [hlisted]
    refine and_congr_right fun hmem => exists_congr fun tx => and_congr_left fun _ => ?_
    exact hget signature tx hmem

end

section

variable {chains : Registry (StateM σ)} {chain : String} {c : ChainSettings (StateM σ)}

theorem get?_receipts (known : chains.get chain = .ok c) (h : c.transport.Steady say) {refs : TxRefSet}
    {s : σ} {found : ReceiptMap} (hfound : ((receipts chains chain refs).run s).1 = .ok found) (hash : String)
    (r : Receipt) : found.get? hash = some r ↔
      (∃ ref ∈ refs.toList, ref.hash = hash) ∧ ∃ tx, Known say hash tx ∧ receiptOf hash tx c.chainId = .ok r := by
  simp only [receipts, serving, known] at hfound
  obtain ⟨txs, htxs, hfound⟩ := bind_run_eq_ok hfound
  have hgathered := (transactionLookup.ends_fetch h _ _).symm.trans htxs
  have hread : ((Table.ofList txs).mapM fun e => (receiptOf e.1 e.2 c.chainId).map (e.1, ·)) = .ok found := hfound
  have hkeys : found.map Prod.fst = (Table.ofList txs).map Prod.fst := by
    refine map_mapM (fun e e' he => ?_) hread
    obtain ⟨r, -, rfl⟩ := (map_eq_ok_iff _).mp he
    rfl
  rw [Table.get?_eq_some_iff (hkeys ▸ Table.nodup_ofList txs), mem_mapM hread]
  constructor
  · rintro ⟨⟨hash', tx⟩, hmem, he⟩
    obtain ⟨r', hr', heq⟩ := (map_eq_ok_iff _).mp he
    cases heq
    obtain ⟨hasked, hheard⟩ := (Lookup.mem_ofList_gathered hgathered).mp hmem
    exact ⟨List.mem_map.mp hasked, tx, heard_iff_known.mp hheard, hr'⟩
  · rintro ⟨hasked, tx, htx, hr⟩
    refine ⟨(hash, tx), (Lookup.mem_ofList_gathered hgathered).mpr ⟨List.mem_map.mpr hasked,
      heard_iff_known.mpr htx⟩, ?_⟩
    dsimp only
    rw [hr]
    rfl

theorem select_eq {o : TransactionsOptions} {b : Block} {found : ReceiptMap} {t : Transaction} {r : Receipt}
    {log : Log} (hr : found.get? t.hash = some r) (hlog : r.logs = [log]) :
    o.select b found t =
      if log.topics.any fun name => o.topics.any (Text.sameLetters · name) then
        some ((t.merge r).enrich b.timestamp o.chain o.chainId o.environment)
      else none := by
  rw [TransactionsOptions.select, hr]
  simp only [hlog, List.any_cons, List.any_nil, Bool.or_false]
  rfl

end

section

variable [Clock (StateM σ)] {chains : Registry (StateM σ)} {chain : String} {c : ChainSettings (StateM σ)}
  {paging : Paging} {filter : LogFilter} {refs : TxRefSet}

theorem mem_logs (known : chains.get chain = .ok c) (steady : c.transport.Steady say) {s : σ} {logs : List Log}
    (hlogs : ((repository chains paging).logs chain filter s).1 = .ok logs) (log : Log) :
    log ∈ logs ↔ filter.isEmptyRange = false ∧ ∃ address ∈ filter.addresses, ∃ signature,
      Listed c.transport paging filter address signature ∧
      Yields say c.chainId filter address signature log := by
  change ((Solana.logs chains paging chain filter).run s).1 = .ok logs at hlogs
  simp only [Solana.logs, serving, known] at hlogs
  cases hempty : filter.isEmptyRange with
  | true =>
    rw [hempty, if_pos rfl] at hlogs
    cases hlogs
    simp
  | false =>
    simp only [hempty, Bool.false_eq_true, if_false] at hlogs
    split at hlogs
    · cases hlogs
    · rw [and_iff_right rfl]
      exact mem_logsAt steady hlogs

/-- The logs of some addresses, and the receipts of some transactions, from a node that says the same whenever
it is asked. The logs are those of the listed transactions that did not fail. A receipt has one log whether the
transaction failed or not; if it did not, then all but its address is that of the log that a listing address
has. By topic a transaction is selected just if it announced a name that is asked for, failed or not. -/
theorem failed_transactions_keep_log (known : chains.get chain = .ok c) (steady : c.transport.Steady say) {s s' : σ}
    {logs : List Log} (hlogs : ((repository chains paging).logs chain filter s).1 = .ok logs)
    {found : ReceiptMap} (hfound : ((repository chains paging).receipts chain refs s').1 = .ok found) :
    (∀ log, log ∈ logs ↔ filter.isEmptyRange = false ∧ ∃ address ∈ filter.addresses, ∃ signature,
      Listed c.transport paging filter address signature ∧
      Yields say c.chainId filter address signature log) ∧
    (∀ hash r, found.get? hash = some r ↔ (∃ ref ∈ refs.toList, ref.hash = hash) ∧
      ∃ tx, Known say hash tx ∧ receiptOf hash tx c.chainId = .ok r) ∧
    ∀ hash r tx, found.get? hash = some r → Known say hash tx →
      (r.status = .reverted ↔ Meta.hasFailed tx.details = true) ∧
      (∃ log, r.logs = [log] ∧ log.address = r.receiver.getD "" ∧ log.topics = tx.announced ∧
        log.blockNumber = tx.slot ∧
        (Meta.hasFailed tx.details = false → filter.isEmptyRange = false → filter.flatTopics = [] →
          ∀ address ∈ filter.addresses, Listed c.transport paging filter address hash →
            { log with address := address } ∈ logs)) ∧
      ∀ (o : TransactionsOptions) (b : Block) (t : Transaction), t.hash = hash →
        o.select b found t =
          if tx.announced.any fun name => o.topics.any (Text.sameLetters · name) then
            some ((t.merge r).enrich b.timestamp o.chain o.chainId o.environment)
          else none := by
  have hmem := mem_logs known steady hlogs
  have hget := get?_receipts known steady hfound
  refine ⟨hmem, hget, fun hash r tx hr htx => ?_⟩
  obtain ⟨-, tx', htx', hread⟩ := (hget hash r).mp hr
  obtain rfl := known_unique htx htx'
  obtain ⟨hstatus, hreceiver, log, hlog, hone⟩ := receiptOf_eq_ok hread
  obtain ⟨haddress, htopics, hslot, helsewhere⟩ := logOf_eq_ok hlog
  rw [← hreceiver] at haddress
  refine ⟨?_, ⟨log, hone, haddress, htopics, hslot, ?_⟩, ?_⟩
  · rw [hstatus]
    exact status_eq_reverted_iff
  · intro hok hrange htopic address hlists hlisted
    exact (hmem _).mpr ⟨hrange, address, hlists, hash, hlisted, tx, htx, hok, helsewhere address, .inl htopic⟩
  · rintro o b t rfl
    rw [select_eq hr hone, htopics]

end

@[reducible] private def noon : Clock (StateM Unit) where
  now := pure 0
  sleep _ := pure ()
  wall := pure ⟨2024, 1, 1, 43200, 0⟩
  unixTime := pure 1704110400

private def failure : Json := .obj [("InstructionError", .arr [.int 0, .str "Custom"])]

private def postJson (signature : String) (error : Json) : Json :=
  .obj [("slot", .int 9),
    ("meta", .obj [("err", error), ("fee", .int 5000),
      ("logMessages", .strings ["Program log: Instruction: PostMessage"])]),
    ("transaction", .obj [("signatures", .strings [signature]),
      ("message", .obj [("accountKeys", .strings ["Payer111", "Bridge111"]),
        ("instructions", .arr [.obj [("programIdIndex", .int 1), ("data", .str "3Bxs")]])])])]

private def posting (method : String) (params : Json) : Except NodeError Json :=
  match method, params with
  | "getBlock", _ => .ok (.obj [("blockhash", .str "Hh"), ("blockTime", .int 7),
      ("transactions", .arr [postJson "bad" failure, postJson "good" .null])])
  | "getSignaturesForAddress", _ => .ok (.arr [.obj [("signature", .str "bad"), ("slot", .int 9)],
      .obj [("signature", .str "good"), ("slot", .int 9)]])
  | "getTransaction", .arr [.str "bad", _] => .ok (postJson "bad" failure)
  | "getTransaction", .arr [.str "good", _] => .ok (postJson "good" .null)
  | _, _ => .ok .null

private def postingChains : Registry (StateM Unit) := [("solana", ⟨1, .saying posting⟩)]

private def bridged : LogFilter := { addresses := ["Bridge111"], fromBlock := 9, toBlock := 9 }

private def posts : TxRefSet := .ofList [⟨"bad", none⟩, ⟨"good", none⟩]

private def bridgePosts : TransactionsOptions :=
  { addresses := ["Bridge111"], topics := ["PostMessage"], chain := "solana", chainId := 1 }

private def post (signature : String) (error : Option Json) : RawTransaction :=
  ⟨9, some ⟨error, some 5000, some ["Program log: Instruction: PostMessage"]⟩,
    ⟨[signature], ⟨["Payer111", "Bridge111"], [⟨1, "3Bxs"⟩]⟩⟩⟩

private def postLog (signature : String) : Log :=
  ⟨"Bridge111", ["PostMessage"], "", 9, "", signature, "0", 0, false, 1⟩

private def postReceipt (signature : String) (status : TxStatus) : Receipt :=
  ⟨signature, 9, "", "Payer111", some "Bridge111", status, [postLog signature], some 5000⟩

private theorem posting_known : Known posting "bad" (post "bad" (some failure)) ∧
    Known posting "good" (post "good" none) :=
  ⟨⟨_, rfl, rfl⟩, ⟨_, rfl, rfl⟩⟩

private theorem posting_logs : letI := noon
    ((repository postingChains {}).logs "solana" bridged ()).1 = .ok [postLog "good"] := by
  let _ := noon
  have hsome : ((repository postingChains {}).logs "solana" bridged ()).1.toOption =
      some [postLog "good"] := by decide +kernel
  exact toOption_eq_some_iff.mp hsome

private theorem posting_receipts : letI := noon
    ((repository postingChains {}).receipts "solana" posts ()).1 =
      .ok [("bad", postReceipt "bad" .reverted), ("good", postReceipt "good" .success)] := by
  let _ := noon
  have hsome : ((repository postingChains {}).receipts "solana" posts ()).1.toOption =
      some [("bad", postReceipt "bad" .reverted), ("good", postReceipt "good" .success)] := by decide +kernel
  exact toOption_eq_some_iff.mp hsome

theorem posting_failed_keeps_log : letI := noon
    postingChains.get "solana" = .ok ⟨1, .saying posting⟩ ∧
      (Transport.saying posting : Transport (StateM Unit)).Steady posting ∧ ∃ logs found,
        ((repository postingChains {}).logs "solana" bridged ()).1 = .ok logs ∧
          ((repository postingChains {}).receipts "solana" posts ()).1 = .ok found ∧
          (∃ r log, found.get? "bad" = some r ∧ r.status = .reverted ∧ r.logs = [log] ∧
            log.topics = ["PostMessage"]) ∧
          ∃ r log, found.get? "good" = some r ∧ r.logs = [log] ∧ { log with address := "Bridge111" } ∈ logs := by
  let _ := noon
  have known : postingChains.get "solana" = .ok ⟨1, .saying posting⟩ := rfl
  have steady : (Transport.saying posting : Transport (StateM Unit)).Steady posting :=
    Transport.saying_steady posting
  have hlisted : Listed (.saying posting : Transport (StateM Unit)) {} bridged "Bridge111" "good" := by
    have hsome : ((history (.saying posting : Transport (StateM Unit)) {} "Bridge111" bridged).run ()).1.toOption =
        some [⟨"bad", 9, false⟩, ⟨"good", 9, false⟩] := by decide +kernel
    exact ⟨(), _, toOption_eq_some_iff.mp hsome, by decide⟩
  obtain ⟨-, -, heach⟩ := failed_transactions_keep_log known steady posting_logs posting_receipts
  obtain ⟨hstatus, ⟨bad, hbad, -, hannounced, -⟩, -⟩ := heach "bad" _ _ rfl posting_known.1
  obtain ⟨-, ⟨good, hgood, -, -, -, hagree⟩, -⟩ := heach "good" _ _ rfl posting_known.2
  refine ⟨known, steady, _, _, posting_logs, posting_receipts, ⟨_, bad, rfl, hstatus.mpr rfl, hbad, ?_⟩,
    _, good, rfl, hgood, hagree rfl (by decide) rfl "Bridge111" (by decide) hlisted⟩
  rw [hannounced]
  decide +kernel

/-- A transaction failed, its address has no log of it, but its receipt has one, by which it is selected. -/
theorem bad_log_kept : letI := noon
    (Transport.saying posting : Transport (StateM Unit)).Steady posting ∧
      ((repository postingChains {}).logs "solana" bridged ()).1 = .ok [postLog "good"] ∧
      (¬ ∀ found, ((repository postingChains {}).receipts "solana" posts ()).1 = .ok found →
        ∀ hash r tx, found.get? hash = some r → Known posting hash tx →
          Meta.hasFailed tx.details = true → r.logs = []) ∧
      ¬ ∀ txs, ((bridgePosts.fetch (repository postingChains {}) ⟨9, 9⟩).run ()).1 = .ok txs →
        ∀ t ∈ txs, t.status ≠ some .reverted := by
  let _ := noon
  refine ⟨Transport.saying_steady posting, posting_logs, fun hall => ?_, fun hall => ?_⟩
  · have hnone := hall _ posting_receipts "bad" _ _ rfl posting_known.1 rfl
    cases hnone
  · have hsome : ((bridgePosts.fetch (repository postingChains {}) ⟨9, 9⟩).run ()).1.toOption.any
        (·.any fun t => decide (t.status = some .reverted)) = true := by decide +kernel
    obtain ⟨txs, htxs, hany⟩ := (Option.any_eq_true _ _).mp hsome
    obtain ⟨t, ht, hreverted⟩ := List.any_eq_true.mp hany
    exact hall txs (toOption_eq_some_iff.mp htxs) t ht (of_decide_eq_true hreverted)

end Solana
end ChainFeed

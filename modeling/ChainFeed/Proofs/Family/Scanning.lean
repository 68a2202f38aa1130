import ChainFeed.Proofs.Family.Events
import ChainFeed.Proofs.Family.Requested
import ChainFeed.Proofs.Feed.Dated
import ChainFeed.Proofs.List

/-!
# Scanned ranges

A range of Near blocks is scanned in batches, and the logs of its transactions are put together from their
outcomes. Whatever the size of the batches, every block is asked for once, and the logs are the events of the
transactions to accounts of the filter, in order.
-/

namespace ChainFeed

open Rpc (NodeError Transport)
open Family

variable {σ : Type} {say : String → Json → Except NodeError Json}

namespace Near

def statusOf (say : String → Json → Except NodeError Json) (tx : Transaction) : Option RawStatus :=
  match say "EXPERIMENTAL_tx_status" (.arr [.str tx.hash, .str tx.sender]) with
  | .ok value => RawStatus.ofJson? value
  | .error _ => none

/-- The node says what became of the transaction, or that it does not know it. -/
def Answered (say : String → Json → Except NodeError Json) (tx : Transaction) : Prop :=
  ∃ value, say "EXPERIMENTAL_tx_status" (.arr [.str tx.hash, .str tx.sender]) = .ok value ∧
    (value = .null ∨ ∃ status, RawStatus.ofJson? value = some status)

/-- The events of a transaction that accounts of the filter announced and that have a topic of it if it has any,
stamped with the place of the transaction. -/
def eventLogs (chainId : UInt64) (filter : LogFilter) (tx : Transaction) (status : RawStatus) : List Log :=
  ((status.outcomes.flatMap Outcome.events).zipIdx.filter fun ((o, name, _), _) =>
    filter.matchesAddress o.executor &&
      (filter.flatTopics.isEmpty || filter.flatTopics.any (Text.sameLetters · name))).map
    fun ((o, name, body), i) =>
      { address := o.executor
        topics := [name]
        data := body
        blockNumber := tx.blockNumber
        blockHash := tx.blockHash
        transactionHash := status.transaction.hash
        transactionIndex := tx.transactionIndex
        logIndex := UInt64.ofNat i
        removed := false
        chainId }

def numbersOf (filter : LogFilter) : List UInt64 := numbersBetween filter.fromBlock.toNat filter.toBlock.toNat

def addressedAt (say : String → Json → Except NodeError Json) (filter : LogFilter) (numbers : List UInt64) :
    List Transaction :=
  (numbers.flatMap (transactionsAt say)).filter fun tx => tx.receiver.any filter.matchesAddress

def addressedIn (say : String → Json → Except NodeError Json) (filter : LogFilter) : List Transaction :=
  addressedAt say filter (numbersOf filter)

/-- The events of the found outcomes of those transactions. -/
def announcedIn (say : String → Json → Except NodeError Json) (chainId : UInt64) (filter : LogFilter) : List Log :=
  (addressedIn say filter).flatMap fun tx => (statusOf say tx).elim [] (eventLogs chainId filter tx)

/-- The node answers everything about the range well, or says that there is nothing; and hashes tell apart what
they are hashes of. -/
structure Tidy (say : String → Json → Except NodeError Json) (filter : LogFilter) : Prop where
  served : ∀ n, filter.containsBlock n = true → ∃ o, ChainFamily.near.heard say true n = .ok o
  distinct : ∀ n n' b b', filter.containsBlock n = true → filter.containsBlock n' = true →
    ChainFamily.near.heard say true n = .ok (some b) → ChainFamily.near.heard say true n' = .ok (some b') →
    b.hash = b'.hash → n = n'
  plain : ∀ n k b, filter.containsBlock n = true → filter.containsBlock k = true →
    ChainFamily.near.heard say true n = .ok (some b) → b.hash ≠ Quantity.render k
  named : (((numbersOf filter).flatMap (transactionsAt say)).map (·.hash)).Nodup
  statuses : ∀ tx ∈ addressedIn say filter, Answered say tx

theorem Scan.size_pos (options : Scan) : 0 < options.size := Nat.lt_of_lt_of_le Nat.one_pos (Nat.le_max_right _ _)

/-- The chunks of the blocks of a batch can be numbered with words, as those of any blocks in memory can. -/
def Numbered (say : String → Json → Except NodeError Json) (options : Scan) (filter : LogFilter) : Prop :=
  ∀ first last, filter.fromBlock.toNat ≤ first → last ≤ filter.toBlock.toNat → last < first + options.size →
    ChainFamily.near.Numerable say true (numbersBetween first last)

variable {filter : LogFilter}

theorem Tidy.standing (tidy : Tidy say filter) {numbers : List UInt64}
    (within : ∀ n ∈ numbers, filter.containsBlock n = true) : Standing say numbers where
  served n hn := tidy.served n (within n hn)
  keys := by
    intro n hn n' hn' o o' ho ho' hkeys
    cases o with
    | none =>
      cases o' with
      | none => exact Quantity.render_injective hkeys
      | some b' =>
        have hkey := Block.key_of_served (ChainFamily.heard_isPlaceholder ho')
        exact absurd (hkeys.trans hkey).symm (tidy.plain n' n b' (within n' hn') (within n hn) ho')
    | some b =>
      have hkey := Block.key_of_served (ChainFamily.heard_isPlaceholder ho)
      cases o' with
      | none => exact absurd (hkey.symm.trans hkeys) (tidy.plain n n' b (within n hn) (within n' hn') ho)
      | some b' =>
        have hkey' := Block.key_of_served (ChainFamily.heard_isPlaceholder ho')
        exact tidy.distinct n n' b b' (within n hn) (within n' hn') ho ho' (hkey.symm.trans (hkeys.trans hkey'))

theorem logNotAfter_iff {a b : Log} : logNotAfter a b = true ↔
    a.notAfter b = true ∧ (a.place = b.place → a.transactionHash ≤ b.transactionHash) := by
  rw [logNotAfter, Log.place, Log.place, Prod.mk.injEq]
  split
  · next hplace =>
    rw [Bool.and_eq_true, beq_iff_eq, beq_iff_eq] at hplace
    simp [hplace, Log.notAfter_iff]
  · next hplace =>
    rw [Bool.and_eq_true, beq_iff_eq, beq_iff_eq] at hplace
    simp [hplace]

theorem place_eq_of_notAfter {a b : Log} (hab : a.notAfter b = true) (hba : b.notAfter a = true) :
    a.place = b.place := by
  simp only [Log.notAfter_iff, UInt64.lt_iff_toNat_lt, UInt64.le_iff_toNat_le, ← UInt64.toNat_inj] at hab hba
  simp only [Log.place, Prod.mk.injEq, ← UInt64.toNat_inj]
  omega

theorem logNotAfter_trans (a b c : Log) (hab : logNotAfter a b = true) (hbc : logNotAfter b c = true) :
    logNotAfter a c = true := by
  rw [logNotAfter_iff] at hab hbc ⊢
  refine ⟨Log.notAfter_trans a b c hab.1 hbc.1, fun hplace => ?_⟩
  have hba := Log.notAfter_trans b c a hbc.1 (Log.notAfter_of_place hplace.symm)
  have hfirst := place_eq_of_notAfter hab.1 hba
  exact String.le_trans (hab.2 hfirst) (hbc.2 (hfirst.symm.trans hplace))

theorem logNotAfter_total (a b : Log) : (logNotAfter a b || logNotAfter b a) = true := by
  rw [Bool.or_eq_true, logNotAfter_iff, logNotAfter_iff]
  by_cases hplace : a.place = b.place
  · have hab := Log.notAfter_of_place hplace
    have hba := Log.notAfter_of_place hplace.symm
    exact (String.le_total _ _).imp (fun hle => ⟨hab, fun _ => hle⟩) fun hle => ⟨hba, fun _ => hle⟩
  · have htotal := Log.notAfter_total a b
    rw [Bool.or_eq_true] at htotal
    exact htotal.imp (⟨·, fun h => absurd h hplace⟩) (⟨·, fun h => absurd h.symm hplace⟩)

theorem places_eq {logs logs' : List Log} (hperm : logs.Perm logs')
    (hlogs : logs.Pairwise fun a b => a.notAfter b = true)
    (hlogs' : logs'.Pairwise fun a b => a.notAfter b = true) : logs.map Log.place = logs'.map Log.place := by
  have hplaces : ∀ l : List Log, l.Pairwise (fun a b => a.notAfter b = true) →
      (l.map Log.place).Pairwise fun p q => p.1 < q.1 ∨ p.1 = q.1 ∧ p.2 ≤ q.2 := by
    intro l hl
    rw [List.pairwise_map]
    exact hl.imp Log.notAfter_iff.mp
  apply List.Perm.eq_of_pairwise _ (hplaces logs hlogs) (hplaces logs' hlogs') (hperm.map _)
  intro p q _ _ hpq hqp
  simp only [UInt64.lt_iff_toNat_lt, UInt64.le_iff_toNat_le, ← UInt64.toNat_inj] at hpq hqp
  ext1
  · apply UInt64.toNat_inj.mp
    omega
  · apply UInt64.toNat_inj.mp
    omega

theorem Answered.heard {tx : Transaction} (answered : Answered say tx) (chainId : UInt64) :
    ∃ o, (receiptLookup chainId).heard say tx.ref = .ok o ∧
      o.map (·.logs) = (statusOf say tx).map (·.logs chainId) := by
  obtain ⟨value, hsay, rfl | ⟨status, hstatus⟩⟩ := answered
  · have hword : say (receiptLookup chainId).method (.arr ((receiptLookup chainId).params tx.ref)) = .ok .null := hsay
    have hnone : statusOf say tx = none := by
      rw [statusOf, hsay]
      rfl
    refine ⟨none, ?_, by rw [hnone]; rfl⟩
    rw [Lookup.heard, hword]
    rfl
  · have hfate : Fate say tx status := ⟨value, hsay, hstatus⟩
    obtain ⟨r, hr, hlogs⟩ := hfate.heard chainId
    refine ⟨some r, hr, ?_⟩
    have hknown : statusOf say tx = some status := by
      rw [statusOf, hsay]
      exact hstatus
    rw [hknown, Option.map_some, Option.map_some, hlogs]

theorem selectedLogs_eq {transactions : List Transaction} {tx : Transaction} (htx : tx ∈ transactions)
    (names : ∀ tx' ∈ transactions, tx.hash = tx'.hash → tx = tx') {chainId : UInt64} {status : RawStatus} {r : Receipt}
    (hlogs : r.logs = status.logs chainId) :
    selectedLogs filter transactions tx.hash r = eventLogs chainId filter tx status := by
  rw [selectedLogs, find?_hash htx names]
  dsimp only
  rw [hlogs, RawStatus.logs, List.filter_map, List.map_map, eventLogs]
  congr 2
  funext p
  cases p
  simp [Log.hasAnyTopic]

theorem Answered.selected {transactions : List Transaction} {tx : Transaction} (answered : Answered say tx)
    (htx : tx ∈ transactions) (names : ∀ tx' ∈ transactions, tx.hash = tx'.hash → tx = tx') (chainId : UInt64) :
    (((receiptLookup chainId).heard say tx.ref).toOption.join.map (tx.ref.hash, ·)).elim []
        (fun (hash, r) => selectedLogs filter transactions hash r) =
      (statusOf say tx).elim [] (eventLogs chainId filter tx) := by
  obtain ⟨o, ho, hlogs⟩ := answered.heard chainId
  rw [ho]
  cases o with
  | none =>
    have hnone : statusOf say tx = none := Option.map_eq_none_iff.mp hlogs.symm
    rw [hnone]
    rfl
  | some r =>
    obtain ⟨status, hstatus, hsame⟩ := Option.map_eq_some_iff.mp hlogs.symm
    rw [hstatus]
    exact selectedLogs_eq htx names hsame.symm

theorem refs_perm {transactions : List Transaction} (nodup : (transactions.map (·.hash)).Nodup) :
    (TxRefSet.ofList (transactions.map (·.ref))).toList.Perm (transactions.map (·.ref)) := by
  have hdistinct : (transactions.map (·.ref)).Nodup := by
    apply List.Nodup.of_map TxRef.hash
    rwa [List.map_map]
  rw [List.perm_ext_iff_of_nodup (TxRefSet.nodup _) hdistinct]
  exact fun ref => TxRefSet.mem_ofList

section

variable {chains : Registry (StateM σ)} {chain : String} {c : ChainSettings (StateM σ)}

/-- What comes of some transactions: their events, in order. -/
theorem gives_eventLogs (known : chains.get chain = .ok c) (h : c.transport.Steady say)
    {transactions : List Transaction} (nodup : (transactions.map (·.hash)).Nodup)
    (answered : ∀ tx ∈ transactions, Answered say tx) (filter : LogFilter) :
    Gives (do
      let found ← receipts chains chain (.ofList (transactions.map (·.ref)))
      let selected := found.flatMap fun (hash, r) => selectedLogs filter transactions hash r
      return selected.mergeSort logNotAfter) fun logs =>
        logs.Perm (transactions.flatMap fun tx => (statusOf say tx).elim [] (eventLogs c.chainId filter tx)) ∧
        logs.Pairwise fun a b => a.notAfter b = true := by
  have hnames : ∀ tx ∈ transactions, ∀ tx' ∈ transactions, tx.hash = tx'.hash → tx = tx' :=
    fun tx htx tx' htx' => List.inj_on_of_nodup_map nodup htx htx'
  have hanswered : ∀ tx ∈ transactions, ∃ o, (receiptLookup c.chainId).heard say tx.ref = .ok o := by
    intro tx htx
    obtain ⟨o, ho, -⟩ := (answered tx htx).heard c.chainId
    exact ⟨o, ho⟩
  refine (gives_receipts_of known h hanswered hnames).bind fun found hfound => gives_pure ⟨?_, ?_⟩
  · refine (List.mergeSort_perm _ _).trans ?_
    rw [hfound]
    refine (((refs_perm nodup).filterMap _).flatMap_right _).trans (.of_eq ?_)
    rw [List.filterMap_map, flatMap_filterMap]
    exact List.flatMap_congr fun tx htx => (answered tx htx).selected htx (hnames tx htx) c.chainId
  · have hsorted := List.pairwise_mergeSort logNotAfter_trans logNotAfter_total
      (found.flatMap fun (hash, r) => selectedLogs filter transactions hash r)
    exact hsorted.imp fun hab => (logNotAfter_iff.mp hab).1

end

section

variable [Clock (StateM σ)] {chains : Registry (StateM σ)} {chain : String} {c : ChainSettings (StateM σ)}
  {options : Scan}

theorem Tidy.gives_batch (tidy : Tidy say filter) (numbered : Numbered say options filter)
    (known : chains.get chain = .ok c) (h : c.transport.Steady say) {first last : Nat}
    (hfirst : filter.fromBlock.toNat ≤ first) (hlast : last ≤ filter.toBlock.toNat)
    (small : last < first + options.size) :
    Gives (blocks chains chain (.range first last) true) fun found =>
      (addressed filter found.values).Perm (addressedAt say filter (numbersBetween first last)) := by
  have hfits : last < UInt64.size := Nat.lt_of_le_of_lt hlast filter.toBlock.toNat_lt
  have hwithin : ∀ n ∈ (BlockSet.range first last).toList, filter.containsBlock n = true := by
    intro n hn
    have hbounds := (BlockSet.mem_range hfits).mp hn
    exact containsBlock_iff.mpr (by omega)
  have hnumerable : ChainFamily.near.Numerable say true (BlockSet.range first last).toList := by
    rw [toList_range hfits]
    exact numbered first last hfirst hlast small
  have hgives := (tidy.standing hwithin).gives_addressed hnumerable known h filter
  rwa [toList_range hfits] at hgives

theorem Tidy.gives_scan (tidy : Tidy say filter) (numbered : Numbered say options filter)
    (known : chains.get chain = .ok c) (h : c.transport.Steady say)
    (range : filter.fromBlock.toNat ≤ filter.toBlock.toNat) :
    Gives (scan (blocks chains chain · true) filter options.size filter.toBlock.toNat filter.fromBlock.toNat)
      (List.Perm · (addressedIn say filter)) := by
  apply Near.gives_scan (P := fun a b txs => txs.Perm (addressedAt say filter (numbersBetween a b))) _
    options.size_pos range
  · intro a b ha _ hb small
    exact tidy.gives_batch numbered known h ha hb small
  · intro a b c txs others hab hbc htxs hothers
    rw [← numbersBetween_append hab hbc, addressedAt, List.flatMap_append, List.filter_append]
    exact htxs.append hothers

theorem Tidy.gives_logs (tidy : Tidy say filter) (numbered : Numbered say options filter)
    (known : chains.get chain = .ok c) (h : c.transport.Steady say) (accounts : filter.addresses ≠ [])
    (range : filter.fromBlock ≤ filter.toBlock) :
    Gives (logs chains options chain filter) fun logs =>
      logs.Perm (announcedIn say c.chainId filter) ∧ logs.Pairwise fun a b => a.notAfter b = true := by
  have hordered : ¬ filter.isEmptyRange = true := by simpa [LogFilter.isEmptyRange] using range
  have hgiven : ¬ filter.addresses.isEmpty = true := by simpa using accounts
  simp only [logs, serving, known, hordered, hgiven]
  refine (tidy.gives_scan numbered known h (UInt64.le_iff_toNat_le.mp range)).bind fun txs htxs => ?_
  have hnodup : (txs.map (·.hash)).Nodup := by
    rw [(htxs.map _).nodup_iff]
    exact tidy.named.sublist (List.filter_sublist.map _)
  have hanswered : ∀ tx ∈ txs, Answered say tx := fun tx htx => tidy.statuses tx (htxs.mem_iff.mp htx)
  intro s
  obtain ⟨logs, hlogs, hperm, hsorted⟩ := gives_eventLogs known h hnodup hanswered filter s
  exact ⟨logs, hlogs, hperm.trans (htxs.flatMap_right _), hsorted⟩

structure Scans (say : String → Json → Except NodeError Json) (chainId : UInt64) (options : Scan)
    (filter : LogFilter) (page : Journal.Page Registry.Deed σ (Except RepositoryError (List Log)))
    (logs : List Log) : Prop where
  result : page.result = .ok logs
  asked : ∃ batches : List (List UInt64),
    page.deeds.filterMap Registry.Deed.blocksAsked = batches.map (List.map dialect.request) ∧
    batches.flatten = numbersOf filter ∧ ∀ batch ∈ batches, batch ≠ [] ∧ batch.length ≤ options.size
  announced : logs.Perm (announcedIn say chainId filter)
  sorted : logs.Pairwise fun a b =>
    a.blockNumber < b.blockNumber ∨ a.blockNumber = b.blockNumber ∧ a.logIndex ≤ b.logIndex

theorem Tidy.asks_logs (tidy : Tidy say filter) (numbered : Numbered say options filter)
    (known : chains.get chain = .ok c) (h : c.transport.Steady say) (accounts : filter.addresses ≠ [])
    (range : filter.fromBlock ≤ filter.toBlock) :
    ∃ batches : List (List UInt64),
      Asks (logs chains.watched options chain filter) (batches.map (List.map dialect.request)) ∧
      batches.flatten = numbersOf filter ∧ ∀ batch ∈ batches, batch ≠ [] ∧ batch.length ≤ options.size := by
  have hordered : ¬ filter.isEmptyRange = true := by simpa [LogFilter.isEmptyRange] using range
  have hgiven : ¬ filter.addresses.isEmpty = true := by simpa using accounts
  have hscan : ∃ batches : List (List UInt64),
      Asks (scan (blocks chains.watched chain · true) filter options.size filter.toBlock.toNat
        filter.fromBlock.toNat) (batches.map (List.map dialect.request)) ∧
      batches.flatten = numbersOf filter ∧ ∀ batch ∈ batches, batch ≠ [] ∧ batch.length ≤ options.size := by
    apply asks_scan _ options.size_pos (UInt64.le_iff_toNat_le.mp range)
    intro a b ha hab hb small
    have hfits : b < UInt64.size := Nat.lt_of_le_of_lt hb filter.toBlock.toNat_lt
    constructor
    · rw [← toList_range hfits]
      apply asks_blocks known
      rw [toList_range hfits]
      apply List.ne_nil_of_length_pos
      simp only [numbersBetween, List.length_map, List.length_range']
      omega
    · intro s
      obtain ⟨found, hfound, -⟩ := tidy.gives_batch numbered known h ha hb small s
      have hlinked := blocks_linked (Registry.erasing_registries known) Registry.erasing_clocks (.range a b) true
      obtain ⟨found', hfound', -⟩ := hlinked s found hfound
      exact ⟨found', hfound'⟩
  obtain ⟨batches, hasks, hflatten, hbatches⟩ := hscan
  refine ⟨batches, ?_, hflatten, hbatches⟩
  simp only [logs, serving, Registry.get_watched known, hordered, hgiven]
  apply hasks.last
  intro txs
  exact (asks_receipts known _).last fun found => asks_pure _

/-- The logs of a range, for some accounts, from a node that answers well and the same whenever it is asked. They
are the events of the transactions to these accounts, in order; every block of the range is asked for once, in
consecutive batches. With batches of another size the logs are the same up to the order of those in one place. -/
theorem scans_whole_range (known : chains.get chain = .ok c) (steady : c.transport.Steady say)
    (accounts : filter.addresses ≠ []) (range : filter.fromBlock ≤ filter.toBlock) (tidy : Tidy say filter) :
    (∀ options, Numbered say options filter → ∀ s,
      ∃ logs, Scans say c.chainId options filter (((repository chains.watched options).logs chain filter).run s) logs) ∧
    ∀ options options', Numbered say options filter → Numbered say options' filter → ∀ s s' logs logs',
      (((repository chains.watched options).logs chain filter).run s).result = .ok logs →
      (((repository chains.watched options').logs chain filter).run s').result = .ok logs' →
      logs.Perm logs' ∧ logs.map Log.place = logs'.map Log.place := by
  have hscans : ∀ options, Numbered say options filter → ∀ s, ∃ logs,
      Scans say c.chainId options filter (((repository chains.watched options).logs chain filter).run s) logs := by
    intro options numbered s
    obtain ⟨logs, hlogs, hperm, hsorted⟩ := tidy.gives_logs numbered known steady accounts range s
    have hlinked := logs_linked (Registry.erasing_registries known) Registry.erasing_clocks options filter
    obtain ⟨_, hresult, rfl, -⟩ := hlinked s logs hlogs
    obtain ⟨batches, hasks, hbatches⟩ := tidy.asks_logs numbered known steady accounts range
    exact ⟨_, hresult, ⟨batches, hasks s, hbatches⟩, hperm, hsorted.imp Log.notAfter_iff.mp⟩
  refine ⟨hscans, fun options options' numbered numbered' s s' logs logs' hlogs hlogs' => ?_⟩
  obtain ⟨own, hown⟩ := hscans options numbered s
  obtain ⟨own', hown'⟩ := hscans options' numbered' s'
  cases hlogs.symm.trans hown.result
  cases hlogs'.symm.trans hown'.result
  have hperm := hown.announced.trans hown'.announced.symm
  exact ⟨hperm, places_eq hperm (hown.sorted.imp Log.notAfter_iff.mpr) (hown'.sorted.imp Log.notAfter_iff.mpr)⟩

end

@[reducible] private def foggy : Clock (StateM Unit) where
  now := pure 0
  sleep _ := pure ()
  wall := pure ⟨2024, 1, 1, 21600, 0⟩
  unixTime := pure 1704088800

private def landingText : String := "\x7b\"event\": \"landing\"\x7d"

private def sailingJson (hash receiver : String) : Json :=
  .obj [("hash", .str hash), ("signer_id", .str "bob.near"), ("receiver_id", .str receiver)]

private def harbourJson (executor : String) (lines : List Json) : Json :=
  .obj [("block_hash", .str "Hh"), ("outcome", .obj [("logs", .arr lines), ("executor_id", .str executor)])]

private def landingJson (hash : String) : Json :=
  .obj [("transaction", sailingJson hash "ferry.near"), ("transaction_outcome", harbourJson "bob.near" []),
    ("receipts_outcome", .arr [harbourJson "ferry.near" [.str ("EVENT_JSON:" ++ landingText)]])]

private def dockJson (height : Int) (hash chunk : String) : Json :=
  .obj [("header", .obj [("height", .int height), ("hash", .str hash), ("timestamp", .int 1000000000)]),
    ("chunks", .arr [.obj [("chunk_hash", .str chunk)]])]

private def ferrying (method : String) (params : Json) : Except NodeError Json :=
  match method, params with
  | "block", .obj [("block_id", .int 7)] => .ok (dockJson 7 "Bb7" "c7")
  | "block", .obj [("block_id", .int 9)] => .ok (dockJson 9 "Bb9" "c9")
  | "chunk", .obj [("chunk_id", .str "c7")] => .ok (.obj [("transactions",
      .arr [sailingJson "first" "ferry.near", sailingJson "other" "router.near"])])
  | "chunk", .obj [("chunk_id", .str "c9")] => .ok (.obj [("transactions",
      .arr [sailingJson "second" "ferry.near", sailingJson "lost" "ferry.near"])])
  | "EXPERIMENTAL_tx_status", .arr [.str "first", _] => .ok (landingJson "first")
  | "EXPERIMENTAL_tx_status", .arr [.str "second", _] => .ok (landingJson "second")
  | _, _ => .ok .null

private def ferryChains : Registry (StateM Unit) := [("near", ⟨1, .saying ferrying⟩)]

private def landings : LogFilter :=
  { addresses := ["ferry.near"], topics := [some (.single "landing")], fromBlock := 7, toBlock := 9 }

private def sailed (number : UInt64) (blockHash hash receiver index : String) : Transaction :=
  { hash, blockNumber := number, blockHash, sender := "bob.near", receiver := some receiver, transactionIndex := index }

private def landingLog (number : UInt64) (blockHash hash : String) : Log :=
  ⟨"ferry.near", ["landing"], landingText, number, blockHash, hash, "0", 0, false, 1⟩

private theorem ferrying_heard :
    ChainFamily.near.heard ferrying true 7 = .ok (some ⟨7, "Bb7", 1,
      some [sailed 7 "Bb7" "first" "ferry.near" "0", sailed 7 "Bb7" "other" "router.near" "1"]⟩) ∧
    ChainFamily.near.heard ferrying true 8 = .ok none ∧
    ChainFamily.near.heard ferrying true 9 = .ok (some ⟨9, "Bb9", 1,
      some [sailed 9 "Bb9" "second" "ferry.near" "0", sailed 9 "Bb9" "lost" "ferry.near" "1"]⟩) :=
  ⟨by rfl, by rfl, by rfl⟩

private theorem landings_cases {n : UInt64} (h : landings.containsBlock n = true) : n = 7 ∨ n = 8 ∨ n = 9 := by
  have hbounds := containsBlock_iff.mp h
  change 7 ≤ n.toNat ∧ n.toNat ≤ 9 at hbounds
  simp only [← UInt64.toNat_inj]
  change n.toNat = 7 ∨ n.toNat = 8 ∨ n.toNat = 9
  omega

private theorem ferrying_addressed : addressedIn ferrying landings = [sailed 7 "Bb7" "first" "ferry.near" "0",
    sailed 9 "Bb9" "second" "ferry.near" "0", sailed 9 "Bb9" "lost" "ferry.near" "1"] := by
  decide +kernel

private theorem ferrying_hash {n : UInt64} {b : Block} (hn : landings.containsBlock n = true)
    (hb : ChainFamily.near.heard ferrying true n = .ok (some b)) : n = 7 ∧ b.hash = "Bb7" ∨ n = 9 ∧ b.hash = "Bb9" := by
  obtain ⟨hseven, height, hnine⟩ := ferrying_heard
  rcases landings_cases hn with rfl | rfl | rfl
  · cases hseven.symm.trans hb
    exact .inl ⟨rfl, rfl⟩
  · cases height.symm.trans hb
  · cases hnine.symm.trans hb
    exact .inr ⟨rfl, rfl⟩

private theorem ferrying_tidy : Tidy ferrying landings where
  served n hn := by
    obtain ⟨hseven, height, hnine⟩ := ferrying_heard
    rcases landings_cases hn with rfl | rfl | rfl
    · exact ⟨_, hseven⟩
    · exact ⟨_, height⟩
    · exact ⟨_, hnine⟩
  distinct n n' b b' hn hn' hb hb' hsame := by
    rcases ferrying_hash hn hb with ⟨rfl, hhash⟩ | ⟨rfl, hhash⟩ <;>
      rcases ferrying_hash hn' hb' with ⟨rfl, hhash'⟩ | ⟨rfl, hhash'⟩ <;>
      rw [hhash, hhash'] at hsame
    · exact absurd hsame (by decide)
    · exact absurd hsame (by decide)
  plain n k b hn hk hb := by
    have hrender : ([7, 8, 9].all fun k =>
        "Bb7" != Quantity.render k && "Bb9" != Quantity.render k) = true := by decide +kernel
    have hk : k ∈ [(7 : UInt64), 8, 9] := by simpa using landings_cases hk
    have hplain := List.all_eq_true.mp hrender k hk
    simp only [Bool.and_eq_true, bne_iff_ne] at hplain
    rcases ferrying_hash hn hb with ⟨-, hhash⟩ | ⟨-, hhash⟩
    · exact hhash ▸ hplain.1
    · exact hhash ▸ hplain.2
  named := by decide +kernel
  statuses tx htx := by
    rw [ferrying_addressed] at htx
    simp only [List.mem_cons, List.not_mem_nil, or_false] at htx
    rcases htx with rfl | rfl | rfl
    · exact ⟨landingJson "first", rfl, .inr ⟨_, rfl⟩⟩
    · exact ⟨landingJson "second", rfl, .inr ⟨_, rfl⟩⟩
    · exact ⟨.null, rfl, .inl rfl⟩

private theorem ferrying_numbered (options : Scan) : Numbered ferrying options landings := by
  intro first last hfirst hlast _ _ _
  change 7 ≤ first at hfirst
  change last ≤ 9 at hlast
  by_cases hnone : last < first
  · have hempty : last + 1 - first = 0 := by omega
    rw [numbersBetween, hempty]
    exact Nat.zero_le _
  · have hfew : ∀ first ∈ [7, 8, 9], ∀ last ∈ [7, 8, 9],
        ((numbersBetween first last).flatMap (listed ferrying)).length ≤ UInt64.size := by decide +kernel
    have hbounds : (first = 7 ∨ first = 8 ∨ first = 9) ∧ (last = 7 ∨ last = 8 ∨ last = 9) := by omega
    exact hfew first (by simpa using hbounds.1) last (by simpa using hbounds.2)

theorem ferry_scans_whole_range : letI := foggy
    ferryChains.get "near" = .ok ⟨1, .saying ferrying⟩ ∧
      (Transport.saying ferrying : Transport (StateM Unit)).Steady ferrying ∧ landings.addresses ≠ [] ∧
      landings.fromBlock ≤ landings.toBlock ∧ Tidy ferrying landings ∧
      ∀ options, Numbered ferrying options landings ∧
        ∃ logs, Scans ferrying 1 options landings
            (((repository ferryChains.watched options).logs "near" landings).run ()) logs ∧
          logs.Perm [landingLog 7 "Bb7" "first", landingLog 9 "Bb9" "second"] := by
  let _ := foggy
  have known : ferryChains.get "near" = .ok ⟨1, .saying ferrying⟩ := rfl
  have steady : (Transport.saying ferrying : Transport (StateM Unit)).Steady ferrying :=
    Transport.saying_steady ferrying
  have accounts : landings.addresses ≠ [] := by decide
  have range : landings.fromBlock ≤ landings.toBlock := by decide
  have hannounced : announcedIn ferrying 1 landings =
      [landingLog 7 "Bb7" "first", landingLog 9 "Bb9" "second"] := by decide +kernel
  obtain ⟨hscans, -⟩ := scans_whole_range known steady accounts range ferrying_tidy
  refine ⟨known, steady, accounts, range, ferrying_tidy, fun options => ⟨ferrying_numbered options, ?_⟩⟩
  obtain ⟨logs, hlogs⟩ := hscans options (ferrying_numbered options) ()
  exact ⟨logs, hlogs, hannounced ▸ hlogs.announced⟩

end Near
end ChainFeed

import ChainFeed.Proofs.Family.Numbers
import ChainFeed.Proofs.Keyed

/-!
# Logs of scanned blocks

Near has no log query: the blocks of a range are scanned, and the logs are the events of the transactions
that go to an account of the filter. From a steady node all of them come, and nothing else. An account can
also announce an event in the course of a transaction that went to another one; such an event is not found.
-/

namespace ChainFeed

open Rpc (Request Response NodeError Transport)
open Family

variable {σ : Type} {say : String → Json → Except NodeError Json}

namespace Family

namespace Lookup

variable {κ β : Type} (l : Lookup κ β)

theorem gathered_eq_filterMap {keys : List κ} (answered : ∀ k ∈ keys, ∃ o, l.heard say k = .ok o) :
    l.gathered say keys = .ok (keys.filterMap fun k => (l.heard say k).toOption.join.map (k, ·)) := by
  have hread : ∀ k ∈ keys, ∀ entry, (l.heard say k).map (Option.map (k, ·)) = .ok entry ↔
      (∃ o, l.heard say k = .ok o) ∧ entry = (l.heard say k).toOption.join.map (k, ·) := by
    intro k _ entry
    cases l.heard say k with
    | error e => simp [Except.map]
    | ok o => simp [Except.map, Except.toOption, eq_comm]
  refine (map_eq_ok_iff _).mpr ⟨_, (mapM_eq_ok_map_iff hread).mpr ⟨answered, rfl⟩, ?_⟩
  rw [List.filterMap_map]
  rfl

theorem gathered_of_answered {keys : List κ} (answered : ∀ k ∈ keys, ∃ o, l.heard say k = .ok o) :
    ∃ found, l.gathered say keys = .ok found ∧
      ∀ k b, (k, b) ∈ found ↔ k ∈ keys ∧ l.heard say k = .ok (some b) := by
  refine ⟨_, l.gathered_eq_filterMap answered, fun k b => ?_⟩
  have hfound : ∀ k', (l.heard say k').toOption.join = some b ↔ l.heard say k' = .ok (some b) := by
    intro k'
    cases l.heard say k' with
    | error e => simp [Except.toOption]
    | ok o => cases o <;> simp [Except.toOption]
  simp [List.mem_filterMap, hfound]

end Lookup

end Family

namespace Near

def Holds (say : String → Json → Except NodeError Json) (n : UInt64) (tx : Transaction) : Prop :=
  ∃ b, ChainFamily.near.heard say true n = .ok (some b) ∧ tx ∈ b.transactions.getD []

/-- The transactions of the block that the node serves for a number, none if it serves none. -/
def transactionsAt (say : String → Json → Except NodeError Json) (n : UInt64) : List Transaction :=
  match ChainFamily.near.heard say true n with
  | .ok (some b) => b.transactions.getD []
  | _ => []

theorem mem_transactionsAt {n : UInt64} {tx : Transaction} : tx ∈ transactionsAt say n ↔ Holds say n tx := by
  unfold transactionsAt Holds
  split <;> simp_all

def InRange (say : String → Json → Except NodeError Json) (filter : LogFilter) (tx : Transaction) : Prop :=
  ∃ n, filter.containsBlock n = true ∧ Holds say n tx

def Fate (say : String → Json → Except NodeError Json) (tx : Transaction) (status : RawStatus) : Prop :=
  ∃ value, say "EXPERIMENTAL_tx_status" (.arr [.str tx.hash, .str tx.sender]) = .ok value ∧
    RawStatus.ofJson? value = some status

/-- In the course of the transaction, an account of the filter announced an event of the filter. -/
inductive Emits (say : String → Json → Except NodeError Json) (chainId : UInt64) (filter : LogFilter)
    (tx : Transaction) : Log → Prop
  | event {status : RawStatus} {i : Nat} {o : Outcome} {name body : String} (fate : Fate say tx status)
      (place : (status.outcomes.flatMap Outcome.events)[i]? = some (o, name, body))
      (account : filter.matchesAddress o.executor = true)
      (topic : filter.flatTopics ≠ [] → ∃ topic ∈ filter.flatTopics, Text.sameLetters topic name = true) :
      Emits say chainId filter tx
        { address := o.executor
          topics := [name]
          data := body
          blockNumber := tx.blockNumber
          blockHash := tx.blockHash
          transactionHash := status.transaction.hash
          transactionIndex := tx.transactionIndex
          logIndex := UInt64.ofNat i
          removed := false
          chainId }

/-- The node has every block of the range, or says that there is none, with its chunks and the outcome of
every transaction; and hashes tell apart what they are hashes of. -/
structure Serves (say : String → Json → Except NodeError Json) (options : Scan) (filter : LogFilter) :
    Prop where
  served : ∀ n, filter.containsBlock n = true → ∃ o, ChainFamily.near.heard say true n = .ok o
  keys : ∀ n n' o o', filter.containsBlock n = true → filter.containsBlock n' = true →
    ChainFamily.near.heard say true n = .ok o → ChainFamily.near.heard say true n' = .ok o' →
    (ChainFamily.standing 0 (n, o)).key = (ChainFamily.standing 0 (n', o')).key → n = n'
  numerable : ∀ first last, filter.fromBlock.toNat ≤ first → last ≤ filter.toBlock.toNat →
    last < first + options.size → ChainFamily.near.Numerable say true (BlockSet.range first last).toList
  fates : ∀ tx, InRange say filter tx → ∃ status, Fate say tx status
  names : ∀ tx tx', InRange say filter tx → InRange say filter tx' → tx.hash = tx'.hash → tx = tx'

theorem containsBlock_iff {filter : LogFilter} {n : UInt64} : filter.containsBlock n = true ↔
    filter.fromBlock.toNat ≤ n.toNat ∧ n.toNat ≤ filter.toBlock.toNat := by
  simp [LogFilter.containsBlock, UInt64.le_iff_toNat_le]

/-- What holds of the transactions of each batch, and of those of neighbouring ranges together, holds of those of
the whole range. -/
theorem gives_scan {fetch : BlockSet → ExceptT RepositoryError (StateM σ) BlockMap} {filter : LogFilter}
    {size last : Nat} {P : Nat → Nat → List Transaction → Prop} (first : Nat) (hsize : 0 < size)
    (hrange : first ≤ last)
    (batch : ∀ a b, first ≤ a → a ≤ b → b ≤ last → b < a + size →
      Gives (fetch (.range a b)) fun blocks => P a b (addressed filter blocks.values))
    (joins : ∀ a b c txs others, a ≤ b → b < c → P a b txs → P (b + 1) c others → P a c (txs ++ others)) :
    Gives (scan fetch filter size last first) (P first last) := by
  induction first using scan.induct size last with
  | case1 first stop ih =>
    rw [scan]
    have hfirst : first ≤ stop := Nat.le_min.mpr ⟨Nat.le_add_right _ _, hrange⟩
    have hbatch := batch first stop (Nat.le_refl _) hfirst (Nat.min_le_right _ _) (by omega)
    refine hbatch.bind fun blocks hblocks => ?_
    dsimp only
    split
    · next hlast =>
      have hstop : stop = last := Nat.le_antisymm (Nat.min_le_right _ _) hlast
      exact gives_pure (hstop ▸ hblocks)
    · next hearly =>
      have hrest := ih hearly (by omega) fun a b ha => batch a b (by omega)
      refine hrest.bind fun others hothers => gives_pure ?_
      exact joins first stop last _ _ hfirst (Nat.not_le.mp hearly) hblocks hothers

section Outcomes

variable {chains : Registry (StateM σ)} {chain : String} {c : ChainSettings (StateM σ)}

theorem Fate.heard {tx : Transaction} {status : RawStatus} (fate : Fate say tx status) (chainId : UInt64) :
    ∃ r, (receiptLookup chainId).heard say tx.ref = .ok (some r) ∧ r.logs = status.logs chainId := by
  obtain ⟨value, hsay, hread⟩ := fate
  have hgiven : value ≠ .null := by
    rintro rfl
    cases hread
  have hword : say (receiptLookup chainId).method (.arr ((receiptLookup chainId).params tx.ref)) =
      .ok value := hsay
  have hstatus : readPart "EXPERIMENTAL_tx_status result" RawStatus.ofJson? value = .ok status := by
    rw [readPart, hread]
  have hreceipt : ∃ r, readReceipt chainId value = .ok r ∧ r.logs = status.logs chainId := by
    rw [readReceipt, hstatus]
    exact ⟨_, rfl, rfl⟩
  obtain ⟨r, hr, hlogs⟩ := hreceipt
  refine ⟨r, ?_, hlogs⟩
  rw [Lookup.heard, hword, Lookup.judge_given _ hgiven]
  exact (map_eq_ok_iff _).mpr ⟨r, hr, rfl⟩

theorem gives_receipts (known : chains.get chain = .ok c) (h : c.transport.Steady say) {refs : TxRefSet}
    (senders : ∀ ref ∈ refs.toList, ref.sender.isSome = true)
    (answered : ∀ ref ∈ refs.toList, ∃ o, (receiptLookup c.chainId).heard say ref = .ok o)
    (names : ∀ ref ∈ refs.toList, ∀ ref' ∈ refs.toList, ref.hash = ref'.hash → ref = ref') :
    Gives (receipts chains chain refs) (· = refs.toList.filterMap fun ref =>
      ((receiptLookup c.chainId).heard say ref).toOption.join.map (ref.hash, ·)) := by
  have hsenders : refs.toList.find? (·.sender.isNone) = none := by
    apply List.find?_eq_none.mpr
    intro ref href
    simp [Option.isSome_iff_ne_none.mp (senders ref href)]
  have hfetch : Gives ((receiptLookup c.chainId).fetch c.transport refs.toList)
      (· = refs.toList.filterMap fun ref =>
        ((receiptLookup c.chainId).heard say ref).toOption.join.map (ref, ·)) := by
    intro s
    have hends := (receiptLookup c.chainId).ends_fetch h refs.toList s
    rw [Lookup.gathered_eq_filterMap _ answered] at hends
    exact ⟨_, hends, rfl⟩
  simp only [receipts, serving, known, hsenders]
  refine hfetch.bind fun found hfound => gives_pure ?_
  have hhashed : (found.map fun p => (p.1.hash, p.2)) = refs.toList.filterMap fun ref =>
      ((receiptLookup c.chainId).heard say ref).toOption.join.map (ref.hash, ·) := by
    rw [hfound, List.map_filterMap]
    simp only [Option.map_map, Function.comp_def]
  have hhashes : ((found.map fun p => (p.1.hash, p.2)).map Prod.fst).Nodup := by
    have hnodup : (refs.toList.map TxRef.hash).Nodup := refs.nodup.map_on names
    rw [hhashed, keys_filterMap]
    exact hnodup.sublist (List.filter_sublist.map _)
  rw [← hhashed]
  exact Table.ofList_eq_self hhashes

theorem gives_receipts_of (known : chains.get chain = .ok c) (h : c.transport.Steady say)
    {transactions : List Transaction}
    (answered : ∀ tx ∈ transactions, ∃ o, (receiptLookup c.chainId).heard say tx.ref = .ok o)
    (names : ∀ tx ∈ transactions, ∀ tx' ∈ transactions, tx.hash = tx'.hash → tx = tx') :
    Gives (receipts chains chain (.ofList (transactions.map (·.ref))))
      (· = (TxRefSet.ofList (transactions.map (·.ref))).toList.filterMap fun ref =>
        ((receiptLookup c.chainId).heard say ref).toOption.join.map (ref.hash, ·)) := by
  have hmem : ∀ ref ∈ (TxRefSet.ofList (transactions.map (·.ref))).toList, ∃ tx ∈ transactions, tx.ref = ref :=
    fun ref href => List.mem_map.mp (TxRefSet.mem_ofList.mp href)
  apply gives_receipts known h
  · intro ref href
    obtain ⟨tx, -, rfl⟩ := hmem ref href
    rfl
  · intro ref href
    obtain ⟨tx, htx, rfl⟩ := hmem ref href
    exact answered tx htx
  · intro ref href ref' href' hsame
    obtain ⟨tx, htx, rfl⟩ := hmem ref href
    obtain ⟨tx', htx', rfl⟩ := hmem ref' href'
    rw [names tx htx tx' htx' hsame]

theorem mem_rawLogs {status : RawStatus} {chainId : UInt64} {log : Log} :
    log ∈ status.logs chainId ↔ ∃ (i : Nat) (o : Outcome) (name body : String),
      (status.outcomes.flatMap Outcome.events)[i]? = some (o, name, body) ∧
        log = ⟨o.executor, [name], body, 0, o.blockHash, status.transaction.hash, "0", UInt64.ofNat i, false,
          chainId⟩ := by
  rw [RawStatus.logs, List.mem_map]
  constructor
  · rintro ⟨⟨⟨o, name, body⟩, i⟩, hplace, rfl⟩
    exact ⟨i, o, name, body, List.mem_zipIdx_iff_getElem?.mp hplace, rfl⟩
  · rintro ⟨i, o, name, body, hplace, rfl⟩
    exact ⟨((o, name, body), i), List.mem_zipIdx_iff_getElem?.mpr hplace, rfl⟩

theorem find?_hash {transactions : List Transaction} {tx : Transaction} (htx : tx ∈ transactions)
    (names : ∀ tx' ∈ transactions, tx.hash = tx'.hash → tx = tx') :
    transactions.reverse.find? (·.hash == tx.hash) = some tx := by
  cases hfound : transactions.reverse.find? (·.hash == tx.hash) with
  | none =>
    have hnone := List.find?_eq_none.mp hfound tx (List.mem_reverse.mpr htx)
    exact absurd (beq_self_eq_true tx.hash) hnone
  | some tx' =>
    have hmem := List.mem_reverse.mp (List.mem_of_find?_eq_some hfound)
    have hmatch := List.find?_some hfound
    rw [names tx' hmem (eq_of_beq hmatch).symm]

theorem mem_selectedLogs {transactions : List Transaction} {tx : Transaction} (htx : tx ∈ transactions)
    (names : ∀ tx' ∈ transactions, tx.hash = tx'.hash → tx = tx') {status : RawStatus}
    (fate : Fate say tx status) {chainId : UInt64} {r : Receipt}
    (heard : (receiptLookup chainId).heard say tx.ref = .ok (some r)) (filter : LogFilter) (log : Log) :
    log ∈ selectedLogs filter transactions tx.hash r ↔ Emits say chainId filter tx log := by
  obtain ⟨r', hr', hlogs⟩ := fate.heard chainId
  rw [heard] at hr'
  cases hr'
  have htopic : ∀ name, (filter.flatTopics.isEmpty || [name].any fun t =>
      filter.flatTopics.any (Text.sameLetters · t)) = true ↔
        (filter.flatTopics ≠ [] → ∃ topic ∈ filter.flatTopics, Text.sameLetters topic name = true) := by
    intro name
    cases filter.flatTopics <;> simp
  rw [selectedLogs, find?_hash htx names]
  simp only [List.mem_map, List.mem_filter, hlogs, Bool.and_eq_true, Log.hasAnyTopic]
  constructor
  · rintro ⟨raw, ⟨hraw, haccount, hselected⟩, rfl⟩
    obtain ⟨i, o, name, body, hplace, rfl⟩ := mem_rawLogs.mp hraw
    exact .event fate hplace haccount ((htopic name).mp hselected)
  · rintro ⟨fate', hplace, haccount, hselected⟩
    obtain ⟨value, hsay, hread⟩ := fate
    obtain ⟨value', hsay', hread'⟩ := fate'
    rw [hsay] at hsay'
    cases hsay'
    rw [hread] at hread'
    cases hread'
    exact ⟨_, ⟨mem_rawLogs.mpr ⟨_, _, _, _, hplace, rfl⟩, haccount, (htopic _).mpr hselected⟩, rfl⟩

theorem gives_emitted (known : chains.get chain = .ok c) (h : c.transport.Steady say)
    {transactions : List Transaction} (fates : ∀ tx ∈ transactions, ∃ status, Fate say tx status)
    (names : ∀ tx ∈ transactions, ∀ tx' ∈ transactions, tx.hash = tx'.hash → tx = tx') (filter : LogFilter) :
    Gives (do
      let found ← receipts chains chain (.ofList (transactions.map (·.ref)))
      let selected := found.flatMap fun (hash, r) => selectedLogs filter transactions hash r
      return selected.mergeSort logNotAfter) fun logs =>
        ∀ log, log ∈ logs ↔ ∃ tx ∈ transactions, Emits say c.chainId filter tx log := by
  have hmem : ∀ ref, ref ∈ (TxRefSet.ofList (transactions.map (·.ref))).toList ↔
      ∃ tx ∈ transactions, tx.ref = ref := by
    intro ref
    rw [TxRefSet.mem_ofList, List.mem_map]
  have hheard : ∀ tx ∈ transactions, ∃ r, (receiptLookup c.chainId).heard say tx.ref = .ok (some r) := by
    intro tx htx
    obtain ⟨status, fate⟩ := fates tx htx
    obtain ⟨r, hr, -⟩ := fate.heard c.chainId
    exact ⟨r, hr⟩
  have hanswered : ∀ tx ∈ transactions, ∃ o, (receiptLookup c.chainId).heard say tx.ref = .ok o := by
    intro tx htx
    obtain ⟨r, hr⟩ := hheard tx htx
    exact ⟨some r, hr⟩
  refine (gives_receipts_of known h hanswered names).bind fun found hfound => gives_pure fun log => ?_
  rw [List.mem_mergeSort, List.mem_flatMap, hfound]
  simp only [List.mem_filterMap, hmem]
  constructor
  · rintro ⟨⟨hash, r⟩, ⟨_, ⟨tx, htx, rfl⟩, hr⟩, hlog⟩
    obtain ⟨status, fate⟩ := fates tx htx
    obtain ⟨own, hown⟩ := hheard tx htx
    rw [hown] at hr
    cases hr
    exact ⟨tx, htx, (mem_selectedLogs htx (names tx htx) fate hown filter log).mp hlog⟩
  · rintro ⟨tx, htx, hemits⟩
    obtain ⟨status, fate⟩ := fates tx htx
    obtain ⟨r, hr⟩ := hheard tx htx
    refine ⟨(tx.hash, r), ⟨tx.ref, ⟨tx, htx, rfl⟩, ?_⟩, ?_⟩
    · rw [hr]
      rfl
    · exact (mem_selectedLogs htx (names tx htx) fate hr filter log).mpr hemits

end Outcomes

section Range

variable [Clock (StateM σ)] {chains : Registry (StateM σ)} {chain : String} {c : ChainSettings (StateM σ)}
  {options : Scan} {filter : LogFilter}

structure Standing (say : String → Json → Except NodeError Json) (numbers : List UInt64) : Prop where
  served : ∀ n ∈ numbers, ∃ o, ChainFamily.near.heard say true n = .ok o
  keys : ∀ n ∈ numbers, ∀ n' ∈ numbers, ∀ o o', ChainFamily.near.heard say true n = .ok o →
    ChainFamily.near.heard say true n' = .ok o' →
    (ChainFamily.standing 0 (n, o)).key = (ChainFamily.standing 0 (n', o')).key → n = n'

theorem Standing.exists_gathered {numbers : List UInt64} (standing : Standing say numbers) (nodup : numbers.Nodup) :
    ∃ found, ChainFamily.near.gathered say true numbers = .ok found ∧ found.map Prod.fst = numbers ∧
      (∀ p ∈ found, ChainFamily.near.heard say true p.1 = .ok p.2) ∧
      ∀ now, (found.map fun p => (ChainFamily.standing now p).key).Nodup := by
  obtain ⟨found, hfound⟩ : ∃ found, ChainFamily.near.gathered say true numbers = .ok found := by
    refine exists_mapM_iff.mpr fun n hn => ?_
    obtain ⟨o, ho⟩ := standing.served n hn
    exact ⟨(n, o), (map_eq_ok_iff _).mpr ⟨o, ho, rfl⟩⟩
  obtain ⟨hnumbers, hmem⟩ := ChainFamily.gathered_eq_ok hfound
  refine ⟨found, hfound, hnumbers, fun p hp => ((hmem p.1 p.2).mp hp).2, fun now => ?_⟩
  have hdistinct : (found.map Prod.fst).Nodup := hnumbers ▸ nodup
  refine (List.Nodup.of_map _ hdistinct).map_on ?_
  rintro ⟨n, o⟩ hp ⟨n', o'⟩ hp' hsame
  rw [ChainFamily.standing_key now 0, ChainFamily.standing_key now 0] at hsame
  obtain ⟨hn, ho⟩ := (hmem n o).mp hp
  obtain ⟨hn', ho'⟩ := (hmem n' o').mp hp'
  obtain rfl := standing.keys n hn n' hn' o o' ho ho' hsame
  rw [ho] at ho'
  cases ho'
  rfl

theorem Standing.gives_addressed {numbers : BlockSet} (standing : Standing say numbers.toList)
    (numerable : ChainFamily.near.Numerable say true numbers.toList) (known : chains.get chain = .ok c)
    (h : c.transport.Steady say) (filter : LogFilter) :
    Gives (blocks chains chain numbers true) fun found => (addressed filter found.values).Perm
      ((numbers.toList.flatMap (transactionsAt say)).filter fun tx => tx.receiver.any filter.matchesAddress) := by
  intro s
  obtain ⟨found, hfound, hnumbers, hheard, hkeys⟩ := standing.exists_gathered (ChainFamily.numbers_nodup numbers)
  obtain ⟨now, hblocks⟩ := ChainFamily.near.blocks_toOption known h true numerable s
  rw [hfound] at hblocks
  have hvalues := (ChainFamily.near.ofBlocks_arranged now (hkeys now)).2
  refine ⟨_, toOption_eq_some_iff.mp hblocks, ?_⟩
  have htransactions : (found.map (ChainFamily.standing now)).flatMap (fun b => b.transactions.getD []) =
      numbers.toList.flatMap (transactionsAt say) := by
    rw [← hnumbers, List.flatMap_map, List.flatMap_map]
    apply List.flatMap_congr
    rintro ⟨n, o⟩ hp
    rw [transactionsAt, hheard (n, o) hp]
    cases o <;> rfl
  rw [← htransactions]
  exact (hvalues.flatMap_right _).filter _

theorem Serves.standing (serves : Serves say options filter) {numbers : List UInt64}
    (within : ∀ n ∈ numbers, filter.containsBlock n = true) : Standing say numbers where
  served n hn := serves.served n (within n hn)
  keys n hn n' hn' o o' := serves.keys n n' o o' (within n hn) (within n' hn')

theorem Serves.gives_blocks (serves : Serves say options filter) (known : chains.get chain = .ok c)
    (h : c.transport.Steady say) {first last : Nat} (hfirst : filter.fromBlock.toNat ≤ first)
    (hlast : last ≤ filter.toBlock.toNat) (small : last < first + options.size) :
    Gives (blocks chains chain (.range first last) true) fun found =>
      ∀ tx, tx ∈ addressed filter found.values ↔ ∃ n : UInt64, first ≤ n.toNat ∧ n.toNat ≤ last ∧
        Holds say n tx ∧ tx.receiver.any filter.matchesAddress = true := by
  have hfits : last < UInt64.size := Nat.lt_of_le_of_lt hlast filter.toBlock.toNat_lt
  have hwithin : ∀ n ∈ (BlockSet.range first last).toList, filter.containsBlock n = true := by
    intro n hn
    have hbounds := (BlockSet.mem_range hfits).mp hn
    exact containsBlock_iff.mpr (by omega)
  intro s
  obtain ⟨found, hfound, hperm⟩ := (serves.standing hwithin).gives_addressed
    (serves.numerable first last hfirst hlast small) known h filter s
  refine ⟨found, hfound, fun tx => ?_⟩
  rw [hperm.mem_iff]
  simp only [List.mem_filter, List.mem_flatMap, BlockSet.mem_range hfits, mem_transactionsAt, and_assoc,
    ← exists_and_right]

theorem Serves.gives_scan (serves : Serves say options filter) (known : chains.get chain = .ok c)
    (h : c.transport.Steady say) (hrange : filter.fromBlock.toNat ≤ filter.toBlock.toNat) :
    Gives (scan (blocks chains chain · true) filter options.size filter.toBlock.toNat filter.fromBlock.toNat)
      fun transactions => ∀ tx, tx ∈ transactions ↔
        InRange say filter tx ∧ tx.receiver.any filter.matchesAddress = true := by
  have hsize : 0 < options.size := Nat.lt_of_lt_of_le Nat.one_pos (Nat.le_max_right _ _)
  simp only [InRange, containsBlock_iff, and_assoc, ← exists_and_right]
  apply Near.gives_scan (P := fun a b transactions => ∀ tx, tx ∈ transactions ↔
    ∃ n : UInt64, a ≤ n.toNat ∧ n.toNat ≤ b ∧ Holds say n tx ∧ tx.receiver.any filter.matchesAddress = true)
    _ hsize hrange
  · intro a b ha _ hb small
    exact serves.gives_blocks known h ha hb small
  · intro a b c txs others hab hbc htxs hothers tx
    rw [List.mem_append, htxs, hothers]
    constructor
    · rintro (⟨n, hn, hn', hholds⟩ | ⟨n, hn, hn', hholds⟩)
      · exact ⟨n, hn, by omega, hholds⟩
      · exact ⟨n, by omega, hn', hholds⟩
    · rintro ⟨n, hn, hn', hholds⟩
      rcases Nat.lt_or_ge b n.toNat with hlater | hnow
      · exact .inr ⟨n, hlater, hn', hholds⟩
      · exact .inl ⟨n, hn, hnow, hholds⟩

/-- The logs of a range are what its transactions to accounts of the filter emit. -/
theorem logs_of_addressed (known : chains.get chain = .ok c) (h : c.transport.Steady say)
    (accounts : filter.addresses ≠ []) (serves : Serves say options filter) (s : σ) :
    ∃ logs, ((repository chains options).logs chain filter s).1 = .ok logs ∧
      ∀ log, log ∈ logs ↔ ∃ tx, InRange say filter tx ∧
        tx.receiver.any filter.matchesAddress = true ∧ Emits say c.chainId filter tx log := by
  have hgiven : filter.addresses.isEmpty = false := by simpa using accounts
  have hgives : Gives (logs chains options chain filter) fun logs => ∀ log, log ∈ logs ↔
      ∃ tx, InRange say filter tx ∧ tx.receiver.any filter.matchesAddress = true ∧
        Emits say c.chainId filter tx log := by
    simp only [logs, serving, known, hgiven]
    split
    · next hempty =>
      have hreversed := UInt64.lt_iff_toNat_lt.mp (of_decide_eq_true hempty)
      refine gives_pure fun log => ⟨fun hlog => absurd hlog List.not_mem_nil, ?_⟩
      rintro ⟨tx, ⟨n, hn, -⟩, -⟩
      have hbounds := containsBlock_iff.mp hn
      omega
    · next hordered =>
      have hrange : filter.fromBlock.toNat ≤ filter.toBlock.toNat := by
        by_contra hreversed
        exact hordered (decide_eq_true (UInt64.lt_iff_toNat_lt.mpr (by omega)))
      refine (serves.gives_scan known h hrange).bind fun transactions hmem => ?_
      have hheld : ∀ tx ∈ transactions, InRange say filter tx := fun tx htx => ((hmem tx).mp htx).1
      have hfates : ∀ tx ∈ transactions, ∃ status, Fate say tx status :=
        fun tx htx => serves.fates tx (hheld tx htx)
      have hnames : ∀ tx ∈ transactions, ∀ tx' ∈ transactions, tx.hash = tx'.hash → tx = tx' :=
        fun tx htx tx' htx' => serves.names tx tx' (hheld tx htx) (hheld tx' htx')
      intro s
      obtain ⟨logs, hlogs, hemitted⟩ := gives_emitted known h hfates hnames filter s
      refine ⟨logs, hlogs, fun log => (hemitted log).trans (exists_congr fun tx => ?_)⟩
      rw [hmem, and_assoc]
  exact hgives s

end Range

@[reducible] private def dusty : Clock (StateM Unit) where
  now := pure 0
  sleep _ := pure ()
  wall := pure ⟨2024, 1, 1, 32400, 0⟩
  unixTime := pure 1704099600

private def depositText : String := "\x7b\"event\": \"deposit\"\x7d"

private def outcomeJson (executor : String) (lines : List Json) : Json :=
  .obj [("block_hash", .str "Bb"), ("outcome", .obj [("logs", .arr lines), ("executor_id", .str executor)])]

private def transactionJson (hash receiver : String) : Json :=
  .obj [("hash", .str hash), ("signer_id", .str "alice.near"), ("receiver_id", .str receiver)]

private def depositJson (hash receiver : String) : Json :=
  .obj [("transaction", transactionJson hash receiver), ("transaction_outcome", outcomeJson "alice.near" []),
    ("receipts_outcome", .arr [outcomeJson "bridge.near" [.str ("EVENT_JSON:" ++ depositText)]])]

/-- Block 7 holds one transaction to the bridge, and one that reaches it by way of a router. -/
private def crossing (method : String) (params : Json) : Except NodeError Json :=
  match method, params with
  | "block", .obj [("block_id", .int 7)] => .ok (.obj [
      ("header", .obj [("height", .int 7), ("hash", .str "Bb"), ("timestamp", .int 1000000000)]),
      ("chunks", .arr [.obj [("chunk_hash", .str "c0")]])])
  | "chunk", _ => .ok (.obj [("transactions",
      .arr [transactionJson "direct" "bridge.near", transactionJson "routed" "router.near"])])
  | "EXPERIMENTAL_tx_status", .arr [.str "direct", _] => .ok (depositJson "direct" "bridge.near")
  | "EXPERIMENTAL_tx_status", .arr [.str "routed", _] => .ok (depositJson "routed" "router.near")
  | _, _ => .ok .null

private def crossingChains : Registry (StateM Unit) := [("near", ⟨1, .saying crossing⟩)]

private def deposits : LogFilter :=
  { addresses := ["bridge.near"], topics := [some (.single "deposit")], fromBlock := 7, toBlock := 7 }

private def crossed (hash receiver index : String) : Transaction :=
  { hash, blockNumber := 7, blockHash := "Bb", sender := "alice.near", receiver := some receiver,
    transactionIndex := index }

private def direct : Transaction := crossed "direct" "bridge.near" "0"

private def routed : Transaction := crossed "routed" "router.near" "1"

private def bridging : Outcome := ⟨"Bb", ["EVENT_JSON:" ++ depositText], "bridge.near", 0⟩

private def depositStatus (hash receiver : String) : RawStatus :=
  ⟨.null, ⟨hash, "alice.near", receiver⟩, ⟨"Bb", [], "alice.near", 0⟩, [bridging]⟩

private def depositLog (hash index : String) : Log :=
  ⟨"bridge.near", ["deposit"], depositText, 7, "Bb", hash, index, 0, false, 1⟩

private theorem crossing_heard : ChainFamily.near.heard crossing true 7 =
    .ok (some ⟨7, "Bb", 1, some [direct, routed]⟩) := by rfl

private theorem eq_seven {n : UInt64} (h : deposits.containsBlock n = true) : n = 7 := by
  have hbounds := containsBlock_iff.mp h
  exact UInt64.toNat_inj.mp (Nat.le_antisymm hbounds.2 hbounds.1)

private theorem crossing_inRange {tx : Transaction} :
    InRange crossing deposits tx ↔ tx = direct ∨ tx = routed := by
  constructor
  · rintro ⟨n, hn, b, hb, htx⟩
    rw [eq_seven hn, crossing_heard] at hb
    cases hb
    simpa using htx
  · intro htx
    exact ⟨7, by decide, _, crossing_heard, by simpa using htx⟩

private theorem crossing_fates {tx : Transaction} (h : tx = direct ∨ tx = routed) :
    ∃ receiver, Fate crossing tx (depositStatus tx.hash receiver) := by
  rcases h with rfl | rfl
  · exact ⟨"bridge.near", _, rfl, rfl⟩
  · exact ⟨"router.near", _, rfl, rfl⟩

private theorem deposit_events (hash receiver : String) :
    (depositStatus hash receiver).outcomes.flatMap Outcome.events = [(bridging, "deposit", depositText)] := by
  have hfirst : (depositStatus hash receiver).first.events = [] := rfl
  have hothers : (depositStatus hash receiver).others = [bridging] := rfl
  have hevent : event? ("EVENT_JSON:" ++ depositText) = some ("deposit", depositText) := by decide +kernel
  have hbridging : bridging.events = [(bridging, "deposit", depositText)] := by
    simp [Outcome.events, bridging, hevent]
  rw [RawStatus.outcomes, List.flatMap_cons, hfirst, hothers, List.nil_append, List.flatMap_singleton]
  exact hbridging

private theorem crossing_emits {tx : Transaction} (h : tx = direct ∨ tx = routed) :
    Emits crossing 1 deposits tx (depositLog tx.hash tx.transactionIndex) := by
  obtain ⟨receiver, fate⟩ := crossing_fates h
  have hplace : ((depositStatus tx.hash receiver).outcomes.flatMap Outcome.events)[0]? =
      some (bridging, "deposit", depositText) := by
    rw [deposit_events]
    rfl
  have haccount : deposits.matchesAddress bridging.executor = true := by decide +kernel
  have htopic : deposits.flatTopics ≠ [] → ∃ topic ∈ deposits.flatTopics,
      Text.sameLetters topic "deposit" = true := fun _ => ⟨"deposit", by decide, by decide +kernel⟩
  have hemits : Emits crossing 1 deposits tx _ := .event fate hplace haccount htopic
  rcases h with rfl | rfl
  · exact hemits
  · exact hemits

private theorem crossing_serves : Serves crossing {} deposits where
  served n hn := by
    obtain rfl := eq_seven hn
    exact ⟨_, crossing_heard⟩
  keys n n' _ _ hn hn' _ _ _ := (eq_seven hn).trans (eq_seven hn').symm
  numerable first last hfirst hlast _ := by
    intro _ _
    have hseven : first = 7 ∧ last = 7 ∨ last + 1 - first = 0 := by
      change 7 ≤ first at hfirst
      change last ≤ 7 at hlast
      omega
    rcases hseven with ⟨rfl, rfl⟩ | hnone
    · decide +kernel
    · rw [BlockSet.range, hnone]
      exact Nat.zero_le _
  fates tx htx := by
    obtain ⟨receiver, fate⟩ := crossing_fates (crossing_inRange.mp htx)
    exact ⟨_, fate⟩
  names tx tx' htx htx' hsame := by
    rcases crossing_inRange.mp htx with rfl | rfl <;> rcases crossing_inRange.mp htx' with rfl | rfl
    · rfl
    · exact absurd hsame (by decide)
    · exact absurd hsame (by decide)
    · rfl

theorem direct_logs_of_addressed : letI := dusty
    crossingChains.get "near" = .ok ⟨1, .saying crossing⟩ ∧
      (Transport.saying crossing : Transport (StateM Unit)).Steady crossing ∧
      deposits.addresses ≠ [] ∧ Serves crossing {} deposits ∧ ∃ logs,
        ((repository crossingChains {}).logs "near" deposits ()).1 = .ok logs ∧
          depositLog "direct" "0" ∈ logs := by
  let _ := dusty
  have known : crossingChains.get "near" = .ok ⟨1, .saying crossing⟩ := rfl
  have steady : (Transport.saying crossing : Transport (StateM Unit)).Steady crossing :=
    Transport.saying_steady crossing
  have accounts : deposits.addresses ≠ [] := by decide
  obtain ⟨logs, hlogs, hmem⟩ := logs_of_addressed known steady accounts crossing_serves ()
  have hdirect : depositLog "direct" "0" ∈ logs := by
    have hrange : InRange crossing deposits direct := crossing_inRange.mpr (.inl rfl)
    exact (hmem _).mpr ⟨direct, hrange, by decide, crossing_emits (.inl rfl)⟩
  exact ⟨known, steady, accounts, crossing_serves, logs, hlogs, hdirect⟩

/-- The bridge announces a deposit in a transaction that went to a router, and the log is lost. -/
theorem routed_log_lost : letI := dusty
    (Transport.saying crossing : Transport (StateM Unit)).Steady crossing ∧ Serves crossing {} deposits ∧
      ((repository crossingChains {}).logs "near" deposits ()).1 = .ok [depositLog "direct" "0"] ∧
      ¬ ∀ logs, ((repository crossingChains {}).logs "near" deposits ()).1 = .ok logs →
        ∀ tx log, InRange crossing deposits tx → Emits crossing 1 deposits tx log → log ∈ logs := by
  let _ := dusty
  have hsome : ((repository crossingChains {}).logs "near" deposits ()).1.toOption =
      some [depositLog "direct" "0"] := by decide +kernel
  have hlogs := toOption_eq_some_iff.mp hsome
  refine ⟨Transport.saying_steady crossing, crossing_serves, hlogs, fun hall => ?_⟩
  have hrange : InRange crossing deposits routed := crossing_inRange.mpr (.inr rfl)
  have hrouted := hall _ hlogs routed _ hrange (crossing_emits (.inr rfl))
  exact absurd hrouted (by decide)

end Near
end ChainFeed

import ChainFeed.Feed.Source
import ChainFeed.Proofs.Ends
import ChainFeed.Proofs.Feed.Coverage
import ChainFeed.Proofs.List

/-!
# Ranges that add up

Over a chain that no longer changes, what is fetched of a range is what is fetched of its parts, one
after the other. A poller fetches one part after the other, so all that its sink has accepted is what
fetching everything up to the cursor gives.
-/

namespace ChainFeed

theorem Log.notAfter_trans (a b c : Log) (hab : a.notAfter b) (hbc : b.notAfter c) : a.notAfter c := by
  simp only [notAfter, Bool.or_eq_true, Bool.and_eq_true, decide_eq_true_eq, beq_iff_eq,
    UInt64.lt_iff_toNat_lt, UInt64.le_iff_toNat_le, ← UInt64.toNat_inj] at *
  omega

theorem Log.notAfter_total (a b : Log) : a.notAfter b || b.notAfter a := by
  simp only [notAfter, Bool.or_eq_true, Bool.and_eq_true, decide_eq_true_eq, beq_iff_eq,
    UInt64.lt_iff_toNat_lt, UInt64.le_iff_toNat_le, ← UInt64.toNat_inj]
  omega

/-- What a chain holds, when that no longer changes. -/
structure Ledger where
  block : UInt64 → Bool → Option Block
  numbered : ∀ n full b, block n full = some b → b.number = n
  logs : List String → List (Option TopicFilter) → List Log
  receipts : TxRefSet → ReceiptMap

variable {σ : Type}

/-- The repository answers every question about the chain, and always from the ledger. No block
displaces another from an answer. -/
structure Ledger.Answers (l : Ledger) (chain : String) (repo : Repository (StateM σ)) : Prop where
  blocks : ∀ numbers full s, ∃ found, (repo.blocks chain numbers full s).1 = .ok found ∧
    found.values.Perm (numbers.toList.filterMap (l.block · full))
  logs : ∀ (f : LogFilter) s, (repo.logs chain f s).1 =
    .ok ((l.logs f.addresses f.topics).filter (f.containsBlock ·.blockNumber))
  receipts : ∀ refs s, (repo.receipts chain refs s).1 = .ok (l.receipts refs)

theorem gives_asking {α : Type} {P : α → Prop} {call : StateM σ (Except RepositoryError α)}
    (h : ∀ s, ∃ a, (call s).1 = .ok a ∧ P a) : Gives (asking call) P :=
  gives_mapError _ h

namespace LogsOptions

theorem containsBlock_filter (o : LogsOptions) (r : BlockRange) (n : UInt64) :
    (o.filter r).containsBlock n = (decide (r.first ≤ n) && decide (n ≤ r.last)) := by
  unfold filter
  dsimp only
  split <;> rfl

end LogsOptions

namespace Ledger

variable {l : Ledger} {chain : String} {repo : Repository (StateM σ)}

def sortedLogs (l : Ledger) (f : LogFilter) : List Log :=
  ((l.logs f.addresses f.topics).filter (!·.removed)).mergeSort Log.notAfter

def timeOf (l : Ledger) (n : UInt64) : Int64 := ((l.block n false).map (·.timestamp)).getD 0

def rangeLogs (l : Ledger) (o : LogsOptions) (r : BlockRange) : List EnrichedLog :=
  ((l.sortedLogs (o.filter r)).filter ((o.filter r).containsBlock ·.blockNumber)).map fun log =>
    { log, blockTimestamp := l.timeOf log.blockNumber, chain := o.chain, chainId := o.chainId }

theorem sortedLogs_filter (l : Ledger) (o : LogsOptions) (r r' : BlockRange) :
    l.sortedLogs (o.filter r) = l.sortedLogs (o.filter r') := by
  unfold sortedLogs LogsOptions.filter
  dsimp only
  split <;> rfl

theorem kept_answer (l : Ledger) (f : LogFilter) :
    LogsOptions.kept f ((l.logs f.addresses f.topics).filter (f.containsBlock ·.blockNumber)) =
      (l.sortedLogs f).filter (f.containsBlock ·.blockNumber) := by
  unfold LogsOptions.kept sortedLogs
  rw [filter_mergeSort Log.notAfter_trans Log.notAfter_total, List.filter_filter, List.filter_filter]
  congr 2
  funext log
  cases f.containsBlock log.blockNumber <;> cases log.removed <;> rfl

/-- The time of a block does not depend on what other blocks were asked for. -/
theorem timeOf_answer {found : BlockMap} {numbers : List UInt64} {n : UInt64}
    (h : found.values.Perm (numbers.filterMap (l.block · false))) (hn : n ∈ numbers) :
    LogsOptions.timeOf found n = l.timeOf n := by
  have hfound : ∀ b, b ∈ found.values → b.number = n → l.block n false = some b := by
    intro b hb hbn
    obtain ⟨m, _, hm⟩ := List.mem_filterMap.mp (h.mem_iff.mp hb)
    rw [← hbn, l.numbered m false b hm]
    exact hm
  unfold LogsOptions.timeOf timeOf
  cases hfind : found.values.find? (·.number == n) with
  | some b =>
    have hnumber : b.number = n := by simpa using List.find?_some hfind
    rw [hfound b (List.mem_of_find?_eq_some hfind) hnumber]
  | none =>
    cases hblock : l.block n false with
    | none => rfl
    | some b =>
      have hmem : b ∈ found.values := h.mem_iff.mpr (List.mem_filterMap.mpr ⟨n, hn, hblock⟩)
      have hne := List.find?_eq_none.mp hfind b hmem
      rw [l.numbered n false b hblock] at hne
      simp at hne

theorem rangeLogs_of_isEmpty (l : Ledger) (o : LogsOptions) {r : BlockRange} (h : r.isEmpty = true) :
    l.rangeLogs o r = [] := by
  have hlt : r.last.toNat < r.first.toNat := UInt64.lt_iff_toNat_lt.mp (of_decide_eq_true h)
  have hnone : ∀ log ∈ l.sortedLogs (o.filter r), ¬(o.filter r).containsBlock log.blockNumber = true := by
    intro log _
    rw [LogsOptions.containsBlock_filter, Bool.and_eq_true, decide_eq_true_eq, decide_eq_true_eq,
      UInt64.le_iff_toNat_le, UInt64.le_iff_toNat_le]
    omega
  rw [rangeLogs, List.filter_eq_nil_iff.mpr hnone, List.map_nil]

theorem gives_rangeLogs {o : LogsOptions} (h : l.Answers o.chain repo) (r : BlockRange) :
    Gives (o.fetch repo r) (· = l.rangeLogs o r) := by
  unfold LogsOptions.fetch
  split
  · next hempty => exact gives_pure (rangeLogs_of_isEmpty l o hempty).symm
  · refine (gives_asking fun s => ⟨_, h.logs (o.filter r) s, rfl⟩).bind ?_
    rintro _ rfl
    rw [kept_answer]
    dsimp only
    split
    · next hnone =>
      refine gives_pure ?_
      rw [rangeLogs, List.isEmpty_iff.mp hnone, List.map_nil]
    · refine (gives_asking (h.blocks _ false)).bind ?_
      intro found hfound
      refine gives_pure (List.map_congr_left ?_)
      intro log hlog
      have hn : log.blockNumber ∈ (BlockSet.ofList (((l.sortedLogs (o.filter r)).filter
          ((o.filter r).containsBlock ·.blockNumber)).map (·.blockNumber))).toList :=
        BlockSet.mem_ofList.mpr (List.mem_map_of_mem hlog)
      rw [timeOf_answer hfound hn]

def blockTransactions (l : Ledger) (o : TransactionsOptions) (n : UInt64) : List Transaction :=
  match l.block n true with
  | none => []
  | some b =>
    if b.isPlaceholder then []
    else
      let txs := (b.transactions.getD []).filter (·.involvesAny o.addresses)
      txs.filterMap (o.select b (l.receipts (.ofList (txs.map (·.ref)))))

def rangeTransactions (l : Ledger) (o : TransactionsOptions) (r : BlockRange) : List Transaction :=
  if o.topics.isEmpty then [] else r.numbers.flatMap fun n => l.blockTransactions o (UInt64.ofNat n)

theorem gives_blockTransactions {o : TransactionsOptions} (h : l.Answers o.chain repo) (n : UInt64) :
    Gives (o.fetchBlock repo n) (· = l.blockTransactions o n) := by
  unfold TransactionsOptions.fetchBlock
  refine (gives_asking (h.blocks (.single n) true)).bind ?_
  intro found hfound
  have hvalues : found.values = (l.block n true).toList := by
    have hsingle : (BlockSet.single n).toList.filterMap (l.block · true) = (l.block n true).toList := by
      cases hb : l.block n true <;> simp [BlockSet.single, hb]
    rw [hsingle] at hfound
    cases hb : l.block n true with
    | none => simpa [hb] using hfound
    | some b => simpa [hb] using hfound
  unfold TransactionsOptions.candidates blockTransactions
  rw [hvalues]
  cases hb : l.block n true with
  | none => exact gives_pure rfl
  | some b =>
    cases hp : b.isPlaceholder with
    | true =>
      simp only [Option.toList_some, List.head?_cons, hp, if_true]
      exact gives_pure rfl
    | false =>
      simp only [Option.toList_some, List.head?_cons, hp, Bool.false_eq_true, if_false]
      generalize (b.transactions.getD []).filter (·.involvesAny o.addresses) = txs
      cases txs with
      | nil => exact gives_pure rfl
      | cons tx txs =>
        refine (gives_asking fun s => ⟨_, h.receipts _ s, rfl⟩).bind ?_
        rintro _ rfl
        exact gives_pure rfl

theorem gives_rangeTransactions {o : TransactionsOptions} (h : l.Answers o.chain repo) (r : BlockRange) :
    Gives (o.fetch repo r) (· = l.rangeTransactions o r) := by
  have hfrom : ∀ count n, Gives (o.fetchFrom repo count n)
      (· = (List.range' n count).flatMap fun n => l.blockTransactions o (UInt64.ofNat n)) := by
    intro count
    induction count with
    | zero => exact fun n => gives_pure rfl
    | succ count ih =>
      intro n
      rw [TransactionsOptions.fetchFrom]
      refine (gives_blockTransactions h (UInt64.ofNat n)).bind ?_
      rintro _ rfl
      refine (ih (n + 1)).bind ?_
      rintro _ rfl
      exact gives_pure (by rw [List.range'_succ, List.flatMap_cons])
  unfold TransactionsOptions.fetch rangeTransactions
  cases htopics : o.topics.isEmpty with
  | true =>
    rw [Bool.or_true]
    exact gives_pure rfl
  | false =>
    cases hempty : r.isEmpty with
    | false => exact hfrom r.size r.first.toNat
    | true =>
      have hlt : r.last.toNat < r.first.toNat := UInt64.lt_iff_toNat_lt.mp (of_decide_eq_true hempty)
      have hsize : r.size = 0 := by
        unfold BlockRange.size
        omega
      exact gives_pure (by simp [BlockRange.numbers, hsize])

end Ledger

/-- The result for a range is the one for a first part of it, which may be empty, and then the one for
the rest. -/
def AddsUp {ι : Type} (result : BlockRange → List ι) : Prop :=
  ∀ first cut last : UInt64, first.toNat ≤ cut.toNat + 1 → cut < last →
    result ⟨first, last⟩ = result ⟨first, cut⟩ ++ result ⟨cut + 1, last⟩

theorem AddsUp.map {ι κ : Type} {result : BlockRange → List ι} (h : AddsUp result) (g : ι → κ) :
    AddsUp fun r => (result r).map g := by
  intro first cut last hfirst hlast
  dsimp only
  rw [h first cut last hfirst hlast, List.map_append]

theorem toNat_add_one_of_lt {n m : UInt64} (h : n < m) : (n + 1).toNat = n.toNat + 1 := by
  have hlt := UInt64.lt_iff_toNat_lt.mp h
  have hm := m.toNat_lt
  simp only [UInt64.toNat_add, UInt64.reduceToNat]
  omega

theorem AddsUp.nil {ι : Type} {result : BlockRange → List ι} (h : AddsUp result) {cut last : UInt64}
    (hlast : cut < last) : result ⟨cut + 1, cut⟩ = [] := by
  have hcut : (cut + 1).toNat ≤ cut.toNat + 1 := Nat.le_of_eq (toNat_add_one_of_lt hlast)
  exact List.self_eq_append_left.mp (h (cut + 1) cut last hcut hlast)

namespace Ledger

theorem rangeLogs_addsUp (l : Ledger) (o : LogsOptions) : AddsUp (l.rangeLogs o) := by
  intro first cut last hfirst hlast
  have hnext := toNat_add_one_of_lt hlast
  have hle := UInt64.lt_iff_toNat_lt.mp hlast
  have hsorted := List.pairwise_mergeSort Log.notAfter_trans Log.notAfter_total
    ((l.logs (o.filter ⟨first, last⟩).addresses (o.filter ⟨first, last⟩).topics).filter (!·.removed))
  unfold rangeLogs
  rw [l.sortedLogs_filter o ⟨first, cut⟩ ⟨first, last⟩, l.sortedLogs_filter o ⟨cut + 1, last⟩ ⟨first, last⟩,
    ← List.map_append, ← filter_or_of_pairwise]
  · congr 2
    funext log
    simp only [LogsOptions.containsBlock_filter, UInt64.le_iff_toNat_le, hnext, ← Bool.decide_and,
      ← Bool.decide_or, decide_eq_decide]
    omega
  · refine hsorted.imp ?_
    intro a b hab hq
    simp only [LogsOptions.containsBlock_filter, Log.notAfter, UInt64.le_iff_toNat_le,
      UInt64.lt_iff_toNat_lt, hnext, Bool.and_eq_true, Bool.or_eq_true, decide_eq_true_eq, beq_iff_eq,
      ← UInt64.toNat_inj, ← Bool.decide_and, decide_eq_false_iff_not] at hab hq ⊢
    omega
  · intro log hp
    simp only [LogsOptions.containsBlock_filter, UInt64.le_iff_toNat_le, hnext, decide_eq_true_eq,
      ← Bool.decide_and, decide_eq_false_iff_not] at hp ⊢
    omega

theorem rangeTransactions_addsUp (l : Ledger) (o : TransactionsOptions) : AddsUp (l.rangeTransactions o) := by
  intro first cut last hfirst hlast
  have hnumbers : BlockRange.numbers ⟨first, last⟩ =
      BlockRange.numbers ⟨first, cut⟩ ++ BlockRange.numbers ⟨cut + 1, last⟩ := by
    have hle := UInt64.lt_iff_toNat_lt.mp hlast
    have hsize : (BlockRange.mk first last).size =
        (BlockRange.mk first cut).size + (BlockRange.mk (cut + 1) last).size := by
      simp only [BlockRange.size, toNat_add_one_of_lt hlast]
      omega
    have hstart : (cut + 1).toNat = first.toNat + (BlockRange.mk first cut).size := by
      simp only [BlockRange.size, toNat_add_one_of_lt hlast]
      omega
    simp only [BlockRange.numbers, hsize, hstart]
    exact List.range'_append_1.symm
  unfold rangeTransactions
  split
  · rfl
  · rw [hnumbers, List.flatMap_append]

end Ledger

namespace Poller

variable {ι : Type}

def Deed.accepted : Deed ι → List ι
  | .published _ items (.ok _) => items
  | _ => []

def Account.accepted (a : Account ι) : List ι := a.deeds.flatMap Deed.accepted

/-- The cursor after the cycles of some accounts. -/
def cursorAfter (cursor : Option UInt64) (accounts : List (Account ι)) : Option UInt64 :=
  accounts.foldl (fun _ a => a.after) cursor

def upTo (result : BlockRange → List ι) (first : UInt64) : Option UInt64 → List ι
  | none => []
  | some last => result ⟨first, last⟩

/-- The cursor is at `first` or behind it, or right in front of it. -/
def Reached (first : UInt64) : Option UInt64 → Prop
  | none => first = 0
  | some last => first.toNat ≤ last.toNat + 1

variable {c : PollerConfig} {cursor after : Option UInt64} {deeds : List (Deed ι)}
  {outcome : Except PollError Cycle} {result : BlockRange → List ι} {first : UInt64}

private theorem toNat_pred (h : first ≠ 0) : (first - 1).toNat + 1 = first.toNat := by
  have hpos : first.toNat ≠ 0 := fun he => h (UInt64.toNat_inj.mp he)
  have hpred := UInt64.toNat_sub_of_le first 1 (UInt64.le_iff_toNat_le.mpr (Nat.pos_of_ne_zero hpos))
  rw [UInt64.toNat_one] at hpred
  omega

theorem reached_start (h : c.fromBlock = some first) : Reached first c.start := by
  unfold PollerConfig.start
  rw [h]
  by_cases hzero : first = 0
  · simp [hzero, Reached]
  · have hpred := toNat_pred hzero
    simp only [hzero, if_false, Reached]
    omega

theorem upTo_start (hadds : AddsUp result) (h : c.fromBlock = some first) : upTo result first c.start = [] := by
  unfold PollerConfig.start
  rw [h]
  by_cases hzero : first = 0
  · simp [hzero, upTo]
  · have hpred := toNat_pred hzero
    have hlt : first - 1 < first := UInt64.lt_iff_toNat_lt.mpr (by omega)
    have hnil := hadds.nil hlt
    rw [UInt64.sub_add_cancel] at hnil
    simpa [hzero, upTo] using hnil

/-- A cycle brings to the sink what lies between the cursor before it and the cursor after it. -/
theorem Course.upTo_after (h : Course c cursor deeds outcome after) (hadds : AddsUp result)
    (hgenuine : ∀ r items, .fetched r (.ok items) ∈ deeds → items = result r)
    (hfirst : c.fromBlock = some first) (hreached : Reached first cursor)
    (room : cursor = some 0xffffffffffffffff → c.isDone cursor = true) :
    Reached first after ∧ upTo result first after = upTo result first cursor ++ deeds.flatMap Deed.accepted := by
  cases h with
  | finished | headless | idle | unfetched | rejected => exact ⟨hreached, by simp [Deed.accepted]⟩
  | accepted due head r hnext items =>
    have hitems : items = result r := hgenuine r items (by simp)
    have haccepted : [.asked (.ok head), .fetched r (.ok items), .published c.id items (.ok ()),
        .counted (.cycle c.id items.length)].flatMap Deed.accepted = result r := by
      simp [Deed.accepted, hitems]
    obtain ⟨hr, hle, -⟩ := PollerConfig.nextRange_bounds hnext
    have hle := UInt64.le_iff_toNat_le.mp hle
    rw [haccepted]
    cases cursor with
    | none =>
      have hrange : r = ⟨first, r.last⟩ := by
        rw [PollerConfig.nextBlock, hfirst] at hr
        exact congrArg (BlockRange.mk · r.last) hr
      rw [hrange] at hle ⊢
      exact ⟨Nat.le_succ_of_le hle, rfl⟩
    | some last =>
      have hlast : last ≠ 0xffffffffffffffff := by
        rintro rfl
        rw [room rfl] at due
        cases due
      have hnumber := c.toNat_nextBlock_some last head hlast
      rw [← hr] at hnumber
      have hlt : last < r.last := UInt64.lt_iff_toNat_lt.mpr (by omega)
      have hrange : r = ⟨last + 1, r.last⟩ := congrArg (BlockRange.mk · r.last) hr
      simp only [Reached] at hreached ⊢
      refine ⟨by omega, ?_⟩
      rw [upTo, upTo, hadds first last r.last hreached hlt, ← hrange]

theorem upTo_cursorAfter {p : Poller (StateM σ) ι} (hfetch : ∀ r s, (p.fetch r s).1 = .ok (result r))
    (hadds : AddsUp result) (hfirst : p.config.fromBlock = some first) (cycles : Nat) (s : σ)
    (hreached : Reached first cursor)
    (room : ∀ a ∈ p.accounts cycles cursor s,
      a.before = some 0xffffffffffffffff → p.config.isDone a.before = true) :
    upTo result first (cursorAfter cursor (p.accounts cycles cursor s)) =
      upTo result first cursor ++ (p.accounts cycles cursor s).flatMap Account.accepted := by
  induction cycles generalizing cursor s with
  | zero => simp [accounts, cursorAfter]
  | succ cycles ih =>
    have hgenuine : ∀ r items, .fetched r (.ok items) ∈ ((p.watched.cycle cursor).run s).deeds →
        items = result r := by
      intro r items hd
      obtain ⟨s', hs'⟩ := cycle_genuine p cursor s _ hd
      rw [hfetch r s'] at hs'
      exact Except.ok.inj hs'
    obtain ⟨hreached', hstep⟩ := (cycle_course p cursor s).upTo_after hadds hgenuine hfirst hreached
      (room _ List.mem_cons_self)
    rw [accounts, List.flatMap_cons, ← List.append_assoc, Account.accepted, ← hstep]
    exact ih _ hreached' fun a ha => room a (List.mem_cons_of_mem _ ha)

end Poller

namespace Source

def chain : Source → String
  | .logs o => o.chain
  | .transactions o => o.chain

def records (l : Ledger) : Source → BlockRange → List Emitted
  | .logs o, r => (l.rangeLogs o r).map .log
  | .transactions o, r => (l.rangeTransactions o r).map .transaction

variable {l : Ledger} {repo : Repository (StateM σ)}

theorem records_addsUp (l : Ledger) (source : Source) : AddsUp (source.records l) := by
  cases source with
  | logs o => exact (l.rangeLogs_addsUp o).map Emitted.log
  | transactions o => exact (l.rangeTransactions_addsUp o).map Emitted.transaction

theorem fetch_records (source : Source) (h : l.Answers source.chain repo) (r : BlockRange) (s : σ) :
    (source.fetch repo r s).1 = .ok (source.records l r) := by
  cases source with
  | logs o =>
    obtain ⟨_, hlogs, rfl⟩ := Ledger.gives_rangeLogs h r s
    change Except.map _ ((o.fetch repo r).run s).1 = _
    rw [hlogs]
    rfl
  | transactions o =>
    obtain ⟨_, htxs, rfl⟩ := Ledger.gives_rangeTransactions h r s
    change Except.map _ ((o.fetch repo r).run s).1 = _
    rw [htxs]
    rfl

end Source

/-- Fetching a range gives what fetching two adjacent parts of it gives, one after the other. -/
def Joins {ε ι : Type} (fetch : BlockRange → StateM σ (Except ε (List ι))) : Prop :=
  ∀ a b c : UInt64, a ≤ b → b < c → ∀ s s₁ s₂, ∃ front back,
    (fetch ⟨a, b⟩ s₁).1 = .ok front ∧ (fetch ⟨b + 1, c⟩ s₂).1 = .ok back ∧
      (fetch ⟨a, c⟩ s).1 = .ok (front ++ back)

theorem AddsUp.joins {ε ι : Type} {result : BlockRange → List ι} (h : AddsUp result)
    {fetch : BlockRange → StateM σ (Except ε (List ι))} (hfetch : ∀ r s, (fetch r s).1 = .ok (result r)) :
    Joins fetch := by
  intro a b c hab hbc s s₁ s₂
  refine ⟨_, _, hfetch _ s₁, hfetch _ s₂, ?_⟩
  rw [hfetch, h a b c (Nat.le_succ_of_le (UInt64.le_iff_toNat_le.mp hab)) hbc]

/-- Over a chain that no longer changes, logs and transactions of adjacent ranges join up. So, whatever
heads a poller sees and whatever height calls and publications fail, its sink has accepted just what
fetching the blocks from the configured one to the cursor gives. Only a cycle that would have to count
the cursor beyond the last number there is is left out. -/
theorem Ledger.Answers.ranges_join {l : Ledger} {chain : String} {repo : Repository (StateM σ)}
    (h : l.Answers chain repo) :
    (∀ o : LogsOptions, o.chain = chain → Joins fun r => (o.fetch repo r).run) ∧
    (∀ o : TransactionsOptions, o.chain = chain → Joins fun r => (o.fetch repo r).run) ∧
    ∀ source : Source, source.chain = chain → ∀ (config : PollerConfig) publish count first,
      config.fromBlock = some first → ∀ cycles s,
        let accounts := (source.poller config repo publish count).accounts cycles config.start s
        (∀ a ∈ accounts, a.before = some 0xffffffffffffffff → config.isDone a.before = true) →
          (Poller.cursorAfter config.start accounts = none →
            accounts.flatMap Poller.Account.accepted = []) ∧
          ∀ last, Poller.cursorAfter config.start accounts = some last →
            ∀ s', (source.fetch repo ⟨first, last⟩ s').1 = .ok (accounts.flatMap Poller.Account.accepted) := by
  refine ⟨?_, ?_, ?_⟩
  · rintro o rfl
    refine (l.rangeLogs_addsUp o).joins fun r s => ?_
    obtain ⟨_, hlogs, rfl⟩ := gives_rangeLogs h r s
    exact hlogs
  · rintro o rfl
    refine (l.rangeTransactions_addsUp o).joins fun r s => ?_
    obtain ⟨_, htxs, rfl⟩ := gives_rangeTransactions h r s
    exact htxs
  · rintro source rfl config publish count first hfirst cycles s accounts room
    have hadds := source.records_addsUp l
    have haccepted := Poller.upTo_cursorAfter (p := source.poller config repo publish count)
      (source.fetch_records h) hadds hfirst cycles s (Poller.reached_start hfirst) room
    rw [Poller.upTo_start hadds hfirst, List.nil_append] at haccepted
    change Poller.upTo _ _ (Poller.cursorAfter config.start accounts) = _ at haccepted
    constructor
    · intro hnone
      rw [hnone] at haccepted
      exact haccepted.symm
    · intro last hlast s'
      rw [hlast] at haccepted
      rw [source.fetch_records h, ← haccepted]
      rfl

namespace Ledger

def sparseLog : Log := ⟨"c", ["t"], "", 12, "b", "t", "0", 0, false, 1⟩

def sparse : Ledger where
  block n full :=
    let tx : Transaction := { hash := "t", blockNumber := n, blockHash := "b", sender := "s", receiver := none }
    if n = 11 then none else some ⟨n, "b", 7, if full then some [tx] else none⟩
  numbered n full b hb := by
    dsimp only at hb
    split at hb
    · cases hb
    · cases hb
      rfl
  logs _ _ := [sparseLog]
  receipts refs := refs.toList.map fun ref =>
    (ref.hash, ⟨ref.hash, 12, "b", "s", none, .success, [sparseLog], none⟩)

def sparseNode : Repository (StateM Nat) where
  height chain _ := fun n => (if n = 2 then .error (.unknownChain chain) else .ok 13, n + 1)
  blocks _ numbers full :=
    pure (.ok ((numbers.toList.filterMap (sparse.block · full)).map fun b => (b.key, b)))
  block chain _ _ := pure (.error (.unknownChain chain))
  logs _ f := pure (.ok ((sparse.logs f.addresses f.topics).filter (f.containsBlock ·.blockNumber)))
  receipts _ refs := pure (.ok (sparse.receipts refs))

theorem sparseNode_answers : sparse.Answers "gap" sparseNode where
  blocks numbers full s := by
    refine ⟨_, rfl, ?_⟩
    simp [Table.values, Function.comp_def]
  logs _ _ := rfl
  receipts _ _ := rfl

def sparseSource : Source :=
  .transactions { addresses := ["s"], topics := ["t"], chain := "gap", chainId := 1 }

def sparsePoller : Poller (StateM Nat) Emitted :=
  sparseSource.poller { fromBlock := some 10, toBlock := some 13, batch := 2 } sparseNode
    (fun _ _ => fun n => (if n = 2 then .error (.sink "full") else .ok (), n)) (fun _ => pure ())

theorem sparseNode_ranges_join :
    let accounts := sparsePoller.accounts 4 sparsePoller.config.start 0
    accounts.map (·.after) = [some 11, some 11, some 11, some 13] ∧
      (accounts.flatMap Poller.Account.accepted).length = 3 ∧
      ∀ s, (sparseSource.fetch sparseNode ⟨10, 13⟩ s).1 = .ok (accounts.flatMap Poller.Account.accepted) := by
  have hafter : (sparsePoller.accounts 4 sparsePoller.config.start 0).map (·.after) =
      [some 11, some 11, some 11, some 13] := by decide
  have hcursor : Poller.cursorAfter sparsePoller.config.start
      (sparsePoller.accounts 4 sparsePoller.config.start 0) = some 13 := by decide
  have hjoin := sparseNode_answers.ranges_join.2.2 sparseSource rfl sparsePoller.config
    sparsePoller.publish sparsePoller.count 10 rfl 4 0 (fun a _ hlast => by rw [hlast]; decide)
  exact ⟨hafter, by decide +kernel, hjoin.2 13 hcursor⟩

end Ledger

end ChainFeed

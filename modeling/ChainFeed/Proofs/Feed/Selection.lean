import ChainFeed.Feed.Transactions
import ChainFeed.Proofs.Feed.Cycles

/-!
# Selected transactions

The transactions of a range are fetched from a repository that answers in any way it likes, and is watched.
All that is asked about one block is a visit. `fetchBlock_visit` says what a visit can be, and `Tells`
what comes of the visits to all blocks of a range.
-/

namespace ChainFeed

variable {σ : Type}

inductive Inquiry where
  | height (chain : String) (tag : BlockTag) (answer : Except RepositoryError UInt64)
  | blocks (chain : String) (numbers : BlockSet) (full : Bool) (answer : Except RepositoryError BlockMap)
  | block (chain : String) (tag : BlockTag) (full : Bool) (answer : Except RepositoryError Block)
  | logs (chain : String) (filter : LogFilter) (answer : Except RepositoryError (List Log))
  | receipts (chain : String) (refs : TxRefSet) (answer : Except RepositoryError ReceiptMap)

/-- The same repository in the same surroundings, with the questions to it written down. -/
def Repository.watched (repo : Repository (StateM σ)) : Repository (Journal Inquiry σ) where
  height chain tag := .watch (.height chain tag) (repo.height chain tag)
  blocks chain numbers full := .watch (.blocks chain numbers full) (repo.blocks chain numbers full)
  block chain tag full := .watch (.block chain tag full) (repo.block chain tag full)
  logs chain filter := .watch (.logs chain filter) (repo.logs chain filter)
  receipts chain refs := .watch (.receipts chain refs) (repo.receipts chain refs)

namespace TransactionsOptions

def Touched (o : TransactionsOptions) (tx : Transaction) : Prop :=
  ∃ a ∈ o.addresses, Text.sameLetters a tx.sender ∨ ∃ receiver ∈ tx.receiver, Text.sameLetters a receiver

def Wanted (o : TransactionsOptions) (receipt : Receipt) : Prop :=
  ∃ log ∈ receipt.logs, ∃ t ∈ log.topics, ∃ topic ∈ o.topics, Text.sameLetters topic t

theorem involvesAny_iff {o : TransactionsOptions} {tx : Transaction} :
    tx.involvesAny o.addresses = true ↔ o.Touched tx := by
  cases h : tx.receiver <;> simp [Transaction.involvesAny, Touched, h]

theorem hasAnyTopic_iff {o : TransactionsOptions} {receipt : Receipt} :
    receipt.logs.any (·.hasAnyTopic o.topics) = true ↔ o.Wanted receipt := by
  simp [Log.hasAnyTopic, Wanted]

instance (o : TransactionsOptions) (tx : Transaction) : Decidable (o.Touched tx) :=
  decidable_of_iff _ involvesAny_iff

instance (o : TransactionsOptions) (receipt : Receipt) : Decidable (o.Wanted receipt) :=
  decidable_of_iff _ hasAnyTopic_iff

/-- The transaction with the outcome and the logs of its receipt, the logs in the place of the transaction,
with the time of its block and with where the chain runs. -/
def completed (o : TransactionsOptions) (b : Block) (tx : Transaction) (receipt : Receipt) : Transaction :=
  { tx with
    status := some receipt.status
    logs := receipt.logs.map fun log =>
      { log with
        blockNumber := tx.blockNumber
        blockHash := tx.blockHash
        transactionIndex := tx.transactionIndex }
    timestamp := some b.timestamp
    chain := some o.chain
    chainId := some o.chainId
    environment := o.environment }

/-- What comes out for a transaction, if anything does. -/
def picked (o : TransactionsOptions) (b : Block) (receipts : ReceiptMap) (tx : Transaction) :
    Option Transaction :=
  if o.Touched tx then
    match receipts.get? tx.hash with
    | some receipt => if o.Wanted receipt then some (o.completed b tx receipt) else none
    | none => none
  else none

theorem picked_of_touched {o : TransactionsOptions} {b : Block} {receipts : ReceiptMap} {tx : Transaction}
    (h : o.Touched tx) : o.picked b receipts tx = o.select b receipts tx := by
  rw [picked, if_pos h, select]
  cases receipts.get? tx.hash with
  | none => rfl
  | some receipt => simp only [hasAnyTopic_iff]; rfl

/-- To select among the transactions that touch an address is to pick from all. -/
theorem filterMap_picked {o : TransactionsOptions} (b : Block) (receipts : ReceiptMap) (txs : List Transaction) :
    (txs.filter (·.involvesAny o.addresses)).filterMap (o.select b receipts) =
      txs.filterMap (o.picked b receipts) := by
  rw [List.filterMap_filter]
  congr 1
  funext tx
  by_cases h : o.Touched tx
  · rw [if_pos (involvesAny_iff.mpr h), picked_of_touched h]
  · rw [if_neg (mt involvesAny_iff.mp h), picked, if_neg h]

end TransactionsOptions

def BlockMap.served (found : BlockMap) : List Block := found.values.filter (!·.isPlaceholder)

/-- What is asked about one block, and answered. -/
structure Visit where
  number : UInt64
  answer : Except RepositoryError BlockMap
  receipts : Option (TxRefSet × Except RepositoryError ReceiptMap)

namespace Visit

def inquiries (chain : String) (v : Visit) : List Inquiry :=
  .blocks chain (.single v.number) true v.answer ::
    v.receipts.toList.map fun asked => .receipts chain asked.1 asked.2

def blocks (v : Visit) : List Block :=
  match v.answer with
  | .error _ => []
  | .ok found => found.served

def touched (o : TransactionsOptions) (v : Visit) : List Transaction :=
  v.blocks.flatMap fun b => (b.transactions.getD []).filter (o.Touched ·)

def found (o : TransactionsOptions) (v : Visit) : List Transaction :=
  match v.receipts with
  | some (_, .ok receipts) => v.blocks.flatMap fun b => (b.transactions.getD []).filterMap (o.picked b receipts)
  | _ => []

def failure? (v : Visit) : Option RepositoryError :=
  match v.answer, v.receipts with
  | .error e, _ => some e
  | .ok _, some (_, .error e) => some e
  | .ok _, _ => none

def result (o : TransactionsOptions) (v : Visit) : Except PollError (List Transaction) :=
  match v.failure? with
  | some e => .error (.repository e)
  | none => .ok (v.found o)

/-- Receipts are asked for where a transaction touches an address, and those of exactly these
transactions. -/
structure IsLawful (o : TransactionsOptions) (v : Visit) : Prop where
  unasked : v.receipts = none ↔ v.touched o = []
  refs : ∀ asked ∈ v.receipts, ∀ ref, ref ∈ asked.1.toList ↔ ∃ tx ∈ v.touched o, ref = ⟨tx.hash, some tx.sender⟩

end Visit

section

variable {o : TransactionsOptions} {repo : Repository (StateM σ)} {r : BlockRange}

/-- A question about one block of the chain is answered with one block at most. -/
def Repository.IsSingle (chain : String) (repo : Repository (StateM σ)) : Prop :=
  ∀ n s found, (repo.blocks chain (.single n) true s).1 = .ok found → found.length ≤ 1

theorem run_asking_watch {α δ : Type} (name : Except RepositoryError α → δ)
    (call : StateM σ (Except RepositoryError α)) (s : σ) :
    (asking (.watch name call : Journal δ σ _)).run.run s =
      ⟨(call s).1.mapError .repository, [name (call s).1], (call s).2⟩ := rfl

theorem TransactionsOptions.candidates_of_single {found : BlockMap} (single : found.length ≤ 1) :
    o.candidates found = none ∧ found.served = [] ∨
      ∃ b, o.candidates found = some (b, (b.transactions.getD []).filter (·.involvesAny o.addresses)) ∧
        found.served = [b] := by
  match found, single with
  | [], _ => exact .inl ⟨rfl, rfl⟩
  | [(_, b)], _ =>
    cases hp : b.isPlaceholder with
    | true => simp [candidates, BlockMap.served, Table.values, hp]
    | false => simp [candidates, BlockMap.served, Table.values, hp]

theorem Visit.isLawful_of_untouched {v : Visit} (unasked : v.receipts = none) (untouched : v.touched o = []) :
    v.IsLawful o where
  unasked := iff_of_true unasked untouched
  refs asked h := by simp [unasked] at h

theorem Visit.isLawful_of_refs {n : UInt64} {answer : Except RepositoryError BlockMap} {tx : Transaction}
    {txs : List Transaction} (reply : Except RepositoryError ReceiptMap)
    (touched : ∀ receipts, (Visit.mk n answer receipts).touched o = tx :: txs) :
    (Visit.mk n answer (some (.ofList ((tx :: txs).map (·.ref)), reply))).IsLawful o where
  unasked := by simp [touched]
  refs asked h ref := by
    cases h
    rw [TxRefSet.mem_ofList, List.mem_map, touched]
    exact exists_congr fun _ => and_congr_right fun _ => eq_comm

theorem BlockRange.numbers_of_inverted (h : r.last < r.first) : r.numbers = [] := by
  have hlt : r.last.toNat < r.first.toNat := UInt64.lt_iff_toNat_lt.mp h
  have hsize : r.size = 0 := by
    unfold BlockRange.size
    omega
  rw [numbers, hsize, List.range'_zero]

namespace TransactionsOptions

/-- Fetching the transactions of one block is a visit. -/
theorem fetchBlock_visit (single : repo.IsSingle o.chain) (n : UInt64) (s : σ) :
    ∃ v : Visit, ∃ s', v.number = n ∧ v.IsLawful o ∧
      (o.fetchBlock repo.watched n).run.run s = ⟨v.result o, v.inquiries o.chain, s'⟩ := by
  obtain ⟨⟨answer, s₁⟩, hblocks⟩ : ∃ r, repo.blocks o.chain (.single n) true s = r := ⟨_, rfl⟩
  have hask : (asking (repo.watched.blocks o.chain (.single n) true)).run.run s =
      ⟨answer.mapError .repository, [.blocks o.chain (.single n) true answer], s₁⟩ := by
    simp only [Repository.watched, run_asking_watch, hblocks]
  cases answer with
  | error e =>
    refine ⟨⟨n, .error e, none⟩, s₁, rfl, Visit.isLawful_of_untouched rfl rfl, ?_⟩
    exact Journal.run_bind_error hask
  | ok found =>
    have hone : found.length ≤ 1 := single n s found (by rw [hblocks])
    rcases o.candidates_of_single hone with ⟨hnone, hserved⟩ | ⟨b, hsome, hserved⟩
    · have huntouched : (Visit.mk n (.ok found) none).touched o = [] := by
        simp [Visit.touched, Visit.blocks, hserved]
      refine ⟨⟨n, .ok found, none⟩, s₁, rfl, Visit.isLawful_of_untouched rfl huntouched, ?_⟩
      refine Journal.run_bind_ok hask ?_
      rw [hnone]
      rfl
    · have htouched : ∀ receipts, (Visit.mk n (.ok found) receipts).touched o =
          (b.transactions.getD []).filter (·.involvesAny o.addresses) := by
        intro receipts
        simp [Visit.touched, Visit.blocks, hserved, ← involvesAny_iff]
      cases htxs : (b.transactions.getD []).filter (·.involvesAny o.addresses) with
      | nil =>
        refine ⟨⟨n, .ok found, none⟩, s₁, rfl, ?_, ?_⟩
        · exact Visit.isLawful_of_untouched rfl ((htouched none).trans htxs)
        · refine Journal.run_bind_ok hask ?_
          rw [hsome, htxs]
          rfl
      | cons tx txs =>
        let refs := TxRefSet.ofList ((tx :: txs).map (·.ref))
        obtain ⟨⟨reply, s₂⟩, hreceipts⟩ : ∃ r, repo.receipts o.chain refs s₁ = r := ⟨_, rfl⟩
        have hask' : (asking (repo.watched.receipts o.chain refs)).run.run s₁ =
            ⟨reply.mapError .repository, [.receipts o.chain refs reply], s₂⟩ := by
          simp only [Repository.watched, run_asking_watch, hreceipts]
        refine ⟨⟨n, .ok found, some (refs, reply)⟩, s₂, rfl, ?_, ?_⟩
        · exact Visit.isLawful_of_refs reply fun receipts => (htouched receipts).trans htxs
        · refine Journal.run_bind_ok hask ?_
          rw [hsome, htxs]
          cases reply with
          | error e => exact Journal.run_bind_error hask'
          | ok receipts =>
            refine Journal.run_bind_ok hask' ?_
            rw [← htxs, filterMap_picked]
            simp [Visit.result, Visit.failure?, Visit.found, Visit.blocks, hserved]

/-- What becomes of fetching the transactions of the blocks `numbers`. -/
structure Tells (o : TransactionsOptions) (numbers : List Nat) (visits : List Visit)
    (result : Except PollError (List Transaction)) : Prop where
  lawful : ∀ v ∈ visits, v.IsLawful o
  /-- Block after block is visited, each once. -/
  ascending : visits.map (·.number.toNat) <+: numbers
  failed : ∀ e, result = .error e → ∃ earlier last cause, visits = earlier ++ [last] ∧
    (∀ v ∈ earlier, v.failure? = none) ∧ last.failure? = some cause ∧ e = .repository cause
  fetched : ∀ txs, result = .ok txs → (∀ v ∈ visits, v.failure? = none) ∧
    visits.map (·.number.toNat) = numbers ∧ txs = visits.flatMap (·.found o)

variable {numbers : List Nat} {v : Visit} {visits : List Visit} {result : Except PollError (List Transaction)}

theorem Tells.nothing : o.Tells [] [] (.ok []) where
  lawful := List.forall_mem_nil _
  ascending := List.nil_prefix
  failed := nofun
  fetched := by
    rintro _ ⟨⟩
    exact ⟨List.forall_mem_nil _, rfl, rfl⟩

theorem Tells.failure {e : RepositoryError} (lawful : v.IsLawful o) (failed : v.failure? = some e) :
    o.Tells (v.number.toNat :: numbers) [v] (.error (.repository e)) where
  lawful := List.forall_mem_singleton.mpr lawful
  ascending := by simp
  failed := by
    rintro _ ⟨⟩
    exact ⟨[], v, e, rfl, List.forall_mem_nil _, failed, rfl⟩
  fetched := nofun

theorem Tells.cons (h : o.Tells numbers visits result) (lawful : v.IsLawful o) (passed : v.failure? = none) :
    o.Tells (v.number.toNat :: numbers) (v :: visits) (result.map (v.found o ++ ·)) where
  lawful := List.forall_mem_cons.mpr ⟨lawful, h.lawful⟩
  ascending := (List.prefix_cons_inj _).mpr h.ascending
  failed e he := by
    cases result with
    | ok txs => cases he
    | error e' =>
      cases he
      obtain ⟨earlier, last, cause, hvisits, hearlier, hlast, hcause⟩ := h.failed e rfl
      exact ⟨v :: earlier, last, cause, congrArg (v :: ·) hvisits, List.forall_mem_cons.mpr ⟨passed, hearlier⟩,
        hlast, hcause⟩
  fetched txs htxs := by
    cases result with
    | error e => cases htxs
    | ok others =>
      cases htxs
      obtain ⟨hpassed, hnumbers, hothers⟩ := h.fetched others rfl
      exact ⟨List.forall_mem_cons.mpr ⟨passed, hpassed⟩, congrArg (v.number.toNat :: ·) hnumbers,
        congrArg (v.found o ++ ·) hothers⟩

theorem tells_fetchFrom (single : repo.IsSingle o.chain) (count n : Nat) (fits : n + count ≤ UInt64.size)
    (s : σ) : ∃ visits s' result, (o.fetchFrom repo.watched count n).run.run s =
        ⟨result, visits.flatMap (·.inquiries o.chain), s'⟩ ∧
      o.Tells (List.range' n count) visits result := by
  -- The numbers stay below the size of a word, so that no two of them become one.
  induction count generalizing n s with
  | zero => exact ⟨[], s, .ok [], rfl, .nothing⟩
  | succ count ih =>
    obtain ⟨v, s₁, hnumber, hlawful, hvisit⟩ := fetchBlock_visit single (UInt64.ofNat n) s
    have hword : v.number.toNat = n := by
      rw [hnumber]
      exact UInt64.toNat_ofNat_of_lt' (by omega)
    rw [List.range'_succ, ← hword]
    cases hfailure : v.failure? with
    | some e =>
      rw [Visit.result, hfailure] at hvisit
      refine ⟨[v], s₁, .error (.repository e), ?_, .failure hlawful hfailure⟩
      rw [List.flatMap_singleton, hword]
      exact Journal.run_bind_error hvisit
    | none =>
      rw [Visit.result, hfailure] at hvisit
      obtain ⟨visits, s₂, result, hrest, htells⟩ := ih (n + 1) (by omega) s₁
      rw [hword]
      refine ⟨v :: visits, s₂, _, Journal.run_bind_ok hvisit ?_, hword ▸ htells.cons hlawful hfailure⟩
      cases result with
      | error e => exact Journal.run_bind_error hrest
      | ok others =>
        have hrun := Journal.run_bind_ok (f := fun others => return v.found o ++ others) hrest rfl
        rw [List.append_nil] at hrun
        exact hrun

theorem fetch_of_idle (h : r.last < r.first ∨ o.topics = []) (s : σ) :
    (o.fetch repo.watched r).run.run s = ⟨.ok [], [], s⟩ := by
  have hnone : (r.isEmpty || o.topics.isEmpty) = true := by
    simpa [BlockRange.isEmpty] using h
  rw [fetch, if_pos hnone]
  rfl

theorem fetch_of_due (h : ¬ (r.last < r.first ∨ o.topics = [])) :
    o.fetch repo.watched r = o.fetchFrom repo.watched r.size r.first.toNat := by
  have hsome : ¬ (r.isEmpty || o.topics.isEmpty) = true := by
    simpa [BlockRange.isEmpty] using h
  rw [fetch, if_neg hsome]

/-- Fetching the transactions of a range visits block after block and stops at the first failure. If nothing
fails, then all the numbers of the range are visited, and what comes out is what comes out for the blocks,
in this order. Nothing is asked for an inverted range or without topics. -/
theorem fetch_tells (o : TransactionsOptions) (repo : Repository (StateM σ)) (single : repo.IsSingle o.chain)
    (r : BlockRange) (s : σ) :
    let page := (o.fetch repo.watched r).run.run s
    (r.last < r.first ∨ o.topics = [] → page.deeds = [] ∧ page.result = .ok []) ∧
    ∃ visits : List Visit, page.deeds = visits.flatMap (·.inquiries o.chain) ∧
      o.Tells (if o.topics = [] then [] else r.numbers) visits page.result := by
  by_cases idle : r.last < r.first ∨ o.topics = []
  · have hnumbers : (if o.topics = [] then [] else r.numbers) = [] := by
      rcases idle with hinverted | htopics
      · rw [BlockRange.numbers_of_inverted hinverted, ite_self]
      · rw [if_pos htopics]
    rw [fetch_of_idle idle, hnumbers]
    exact ⟨fun _ => ⟨rfl, rfl⟩, [], rfl, .nothing⟩
  · have hfits : r.first.toNat + r.size ≤ UInt64.size := by
      have hle : ¬ r.last.toNat < r.first.toNat := fun h => idle (.inl (UInt64.lt_iff_toNat_lt.mpr h))
      have hlast : r.last.toNat < UInt64.size := r.last.toNat_lt
      unfold BlockRange.size
      omega
    obtain ⟨visits, s', result, hrun, htells⟩ := tells_fetchFrom single r.size r.first.toNat hfits s
    rw [fetch_of_due idle, hrun, if_neg (not_or.mp idle).2]
    exact ⟨fun h => absurd h idle, visits, rfl, htells⟩

end TransactionsOptions

end

private def trade (hash sender : String) (receiver : Option String) : Transaction :=
  { hash, sender, receiver, blockNumber := 8, blockHash := "b8", transactionIndex := "4" }

private def sale : Log := ⟨"0xm", ["0xA1", "0xSOLD"], "0x", 0, "", "t1", "", 3, false, 5⟩

private def transfer : Log := { sale with topics := ["0xmoved"], logIndex := 4 }

private def onMarket (n : UInt64) : Option Block :=
  if n = 7 then some (.placeholder 7 100)
  else if n = 8 then
    some ⟨8, "b8", 1000, some [trade "t1" "0xAB" none, trade "t2" "0xcd" (some "0xaB"), trade "t3" "0xab" none,
      trade "t4" "0xcd" none]⟩
  else none

private def market : Repository (StateM Nat) where
  height chain _ := pure (.error (.unknownChain chain))
  blocks _ numbers _ := fun s =>
    (if s = 5 then .error (.unknownChain "m")
      else .ok ((numbers.toList.filterMap onMarket).map fun b => (b.key, b)), s + 1)
  block chain _ _ := pure (.error (.unknownChain chain))
  logs _ _ := pure (.ok [])
  receipts _ _ := fun s =>
    (if s = 5 then .error (.unknownChain "m")
      else .ok [("t1", ⟨"t1", 0, "", "0xAB", none, .reverted, [transfer, sale], none⟩),
        ("t3", ⟨"t3", 8, "b8", "0xab", none, .success, [transfer], none⟩),
        ("t4", ⟨"t4", 8, "b8", "0xcd", none, .success, [sale], none⟩)], s + 1)

private def ours : TransactionsOptions :=
  { addresses := ["0xab"], topics := ["0xsold"], chain := "m", chainId := 5, environment := some "test" }

private def sold : Transaction :=
  { trade "t1" "0xAB" none with
    status := some .reverted
    logs := [{ transfer with blockNumber := 8, blockHash := "b8", transactionIndex := "4" },
      { sale with blockNumber := 8, blockHash := "b8", transactionIndex := "4" }]
    timestamp := some 1000
    chain := some "m"
    chainId := some 5
    environment := some "test" }

private theorem market_isSingle : market.IsSingle "m" := by
  intro n s found hfound
  simp only [market, BlockSet.single] at hfound
  split at hfound
  · cases hfound
  · cases hfound
    rw [List.length_map]
    exact List.length_filterMap_le _ _

theorem market_tells :
    let day := (ours.fetch market.watched ⟨7, 9⟩).run.run 0
    let evening := (ours.fetch market.watched ⟨7, 9⟩).run.run 3
    (day.result.toOption = some [sold] ∧ day.deeds.length = 4 ∧
      ∃ visits : List Visit, day.deeds = visits.flatMap (·.inquiries "m") ∧
        ours.Tells [7, 8, 9] visits day.result) ∧
    evening.result.toOption = none ∧ evening.deeds.length = 3 ∧
      ∃ visits : List Visit, evening.deeds = visits.flatMap (·.inquiries "m") ∧
        ours.Tells [7, 8, 9] visits evening.result := by
  have hnumbers : (if ours.topics = [] then [] else BlockRange.numbers ⟨7, 9⟩) = [7, 8, 9] := by decide
  have hday := (ours.fetch_tells market market_isSingle ⟨7, 9⟩ 0).2
  have hevening := (ours.fetch_tells market market_isSingle ⟨7, 9⟩ 3).2
  rw [hnumbers] at hday hevening
  exact ⟨⟨by decide +kernel, by decide +kernel, hday⟩, by decide +kernel, by decide +kernel, hevening⟩

end ChainFeed

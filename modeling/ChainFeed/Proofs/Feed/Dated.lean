import ChainFeed.Proofs.Feed.Additive
import ChainFeed.Proofs.Feed.Selection

/-!
# Dated logs

The logs of a range come from one query, and the times of their blocks from another one. The repository answers
in any way it likes, and is watched. `Arranges` says which logs of an answer are kept and in which order,
`Harvest` what is asked for a range and what comes out.
-/

namespace ChainFeed

variable {σ : Type}

def Log.place (l : Log) : UInt64 × UInt64 := (l.blockNumber, l.logIndex)

/-- The log was not removed, and its block is in the range. -/
def Log.CountsIn (r : BlockRange) (l : Log) : Prop :=
  l.removed = false ∧ r.first ≤ l.blockNumber ∧ l.blockNumber ≤ r.last

instance (r : BlockRange) (l : Log) : Decidable (l.CountsIn r) :=
  inferInstanceAs (Decidable (l.removed = false ∧ r.first ≤ l.blockNumber ∧ l.blockNumber ≤ r.last))

/-- The logs are those of the answer that count, each as often as it is there, by block and by place in the
block; those in one place are in the order of the answer. -/
structure Arranges (r : BlockRange) (answer logs : List Log) : Prop where
  counted : logs.Perm (answer.filter (·.CountsIn r))
  ascending : logs.Pairwise fun a b =>
    a.blockNumber < b.blockNumber ∨ a.blockNumber = b.blockNumber ∧ a.logIndex ≤ b.logIndex
  stable : ∀ place, logs.filter (·.place = place) = answer.filter fun l => l.CountsIn r ∧ l.place = place

theorem Log.notAfter_iff {a b : Log} : a.notAfter b = true ↔
    a.blockNumber < b.blockNumber ∨ a.blockNumber = b.blockNumber ∧ a.logIndex ≤ b.logIndex := by
  simp [notAfter]

theorem Log.notAfter_of_place {a b : Log} (h : a.place = b.place) : a.notAfter b = true := by
  simp only [place, Prod.mk.injEq] at h
  simp [notAfter_iff, h]

/-- Some log of the answer counts unless no log is left. -/
theorem Arranges.exists_countsIn {r : BlockRange} {answer logs : List Log} (h : Arranges r answer logs)
    (hlogs : logs ≠ []) : ∃ l ∈ answer, l.CountsIn r := by
  obtain ⟨l, hl⟩ := List.exists_mem_of_ne_nil logs hlogs
  have hmem := h.counted.mem_iff.mp hl
  simp only [List.mem_filter, decide_eq_true_eq] at hmem
  exact ⟨l, hmem⟩

theorem Arranges.none_counts {r : BlockRange} {answer : List Log} (h : Arranges r answer []) :
    ∀ l ∈ answer, ¬ l.CountsIn r := by
  have hnone := List.filter_eq_nil_iff.mp (List.nil_perm.mp h.counted)
  simpa using hnone

namespace LogsOptions

theorem kept_eq (o : LogsOptions) (r : BlockRange) (answer : List Log) :
    kept (o.filter r) answer = (answer.filter (·.CountsIn r)).mergeSort Log.notAfter := by
  have hcounts : ∀ l : Log, (!l.removed && (o.filter r).containsBlock l.blockNumber) = decide (l.CountsIn r) := by
    intro l
    rw [containsBlock_filter]
    cases h : l.removed <;> simp [Log.CountsIn, h]
  simp only [kept, hcounts]

theorem kept_arranges (o : LogsOptions) (r : BlockRange) (answer : List Log) :
    Arranges r answer (kept (o.filter r) answer) := by
  rw [kept_eq]
  constructor
  · exact List.mergeSort_perm _ _
  · have hsorted := List.pairwise_mergeSort Log.notAfter_trans Log.notAfter_total (answer.filter (·.CountsIn r))
    exact hsorted.imp Log.notAfter_iff.mp
  · intro place
    rw [filter_mergeSort Log.notAfter_trans Log.notAfter_total, List.filter_filter]
    -- Sorting does nothing to logs that are all in one place.
    have hplace : (answer.filter fun l => decide (l.place = place) && decide (l.CountsIn r)).Pairwise
        fun a b => a.notAfter b = true := by
      apply List.pairwise_of_forall_mem_list
      intro a ha b hb
      simp only [List.mem_filter, Bool.and_eq_true, decide_eq_true_eq] at ha hb
      exact Log.notAfter_of_place (ha.2.1.trans hb.2.1.symm)
    rw [List.mergeSort_of_pairwise hplace]
    simp only [Bool.decide_and, Bool.and_comm]

/-- A log of the chain with the time of a block that has its number, or with zero where no block has it. -/
structure IsDated (o : LogsOptions) (blocks : BlockMap) (e : EnrichedLog) : Prop where
  chain : e.chain = o.chain
  chainId : e.chainId = o.chainId
  time : (∃ b ∈ blocks.values, b.number = e.log.blockNumber ∧ e.blockTimestamp = b.timestamp) ∨
    (∀ b ∈ blocks.values, b.number ≠ e.log.blockNumber) ∧ e.blockTimestamp = 0

def AreBlocksOf (numbers : BlockSet) (logs : List Log) : Prop :=
  ∀ n, n ∈ numbers.toList ↔ ∃ log ∈ logs, log.blockNumber = n

/-- What may be asked for the logs of a range, with the answers, and what comes out of that. -/
inductive Harvest (o : LogsOptions) (r : BlockRange) :
    List Inquiry → Except PollError (List EnrichedLog) → Prop
  | inverted (empty : r.last < r.first) : Harvest o r [] (.ok [])
  | refused (due : r.first ≤ r.last) (e : RepositoryError) :
    Harvest o r [.logs o.chain (o.filter r) (.error e)] (.error (.repository e))
  | barren (due : r.first ≤ r.last) (answer : List Log) (uncounted : ∀ l ∈ answer, ¬ l.CountsIn r) :
    Harvest o r [.logs o.chain (o.filter r) (.ok answer)] (.ok [])
  | undated (due : r.first ≤ r.last) (answer : List Log) (counted : ∃ l ∈ answer, l.CountsIn r) (logs : List Log)
      (arranged : Arranges r answer logs) (numbers : BlockSet) (asked : AreBlocksOf numbers logs)
      (e : RepositoryError) :
    Harvest o r [.logs o.chain (o.filter r) (.ok answer), .blocks o.chain numbers false (.error e)]
      (.error (.repository e))
  | dated (due : r.first ≤ r.last) (answer : List Log) (counted : ∃ l ∈ answer, l.CountsIn r)
      (records : List EnrichedLog) (arranged : Arranges r answer (records.map (·.log))) (numbers : BlockSet)
      (asked : AreBlocksOf numbers (records.map (·.log))) (blocks : BlockMap)
      (times : ∀ e ∈ records, o.IsDated blocks e) :
    Harvest o r [.logs o.chain (o.filter r) (.ok answer), .blocks o.chain numbers false (.ok blocks)]
      (.ok records)

def date (o : LogsOptions) (blocks : BlockMap) (log : Log) : EnrichedLog :=
  { log, blockTimestamp := timeOf blocks log.blockNumber, chain := o.chain, chainId := o.chainId }

theorem date_isDated (o : LogsOptions) (blocks : BlockMap) (log : Log) : o.IsDated blocks (o.date blocks log) := by
  refine ⟨rfl, rfl, ?_⟩
  simp only [date, timeOf]
  cases hfind : blocks.values.find? (·.number == log.blockNumber) with
  | some b =>
    have hnumber : b.number = log.blockNumber := by simpa using List.find?_some hfind
    exact .inl ⟨b, List.mem_of_find?_eq_some hfind, hnumber, rfl⟩
  | none =>
    have hnone := List.find?_eq_none.mp hfind
    exact .inr ⟨fun b hb => by simpa using hnone b hb, rfl⟩

theorem map_log_date (o : LogsOptions) (blocks : BlockMap) (logs : List Log) :
    (logs.map (o.date blocks)).map (·.log) = logs := by
  simp [date, Function.comp_def]

def blocksOf (logs : List Log) : BlockSet := .ofList (logs.map (·.blockNumber))

theorem areBlocksOf_blocksOf (logs : List Log) : AreBlocksOf (blocksOf logs) logs := by
  intro n
  rw [blocksOf, BlockSet.mem_ofList, List.mem_map]

def dateAll {m : Type → Type} [Monad m] (o : LogsOptions) (repo : Repository m) (logs : List Log) :
    ExceptT PollError m (List EnrichedLog) :=
  if logs.isEmpty then return []
  else return logs.map (o.date (← asking (repo.blocks o.chain (blocksOf logs) false)))

variable {o : LogsOptions} {repo : Repository (StateM σ)} {r : BlockRange}

theorem fetch_of_inverted (h : r.last < r.first) (s : σ) :
    (o.fetch repo.watched r).run.run s = ⟨.ok [], [], s⟩ := by
  have hempty : r.isEmpty = true := decide_eq_true h
  rw [fetch, if_pos hempty]
  rfl

theorem fetch_of_ordered (h : ¬ r.last < r.first) : o.fetch repo.watched r =
    asking (repo.watched.logs o.chain (o.filter r)) >>= fun answer => o.dateAll repo.watched (kept (o.filter r) answer) := by
  have hsome : ¬ r.isEmpty = true := by simpa [BlockRange.isEmpty] using h
  rw [fetch, if_neg hsome]
  rfl

variable (o repo) in
theorem dateAll_of_ne_nil {logs : List Log} (h : logs ≠ []) (s : σ) :
    ∃ answer s', (o.dateAll repo.watched logs).run.run s =
      ⟨(answer.mapError .repository).map fun blocks => logs.map (o.date blocks),
        [.blocks o.chain (blocksOf logs) false answer], s'⟩ := by
  obtain ⟨⟨answer, s'⟩, hblocks⟩ : ∃ p, repo.blocks o.chain (blocksOf logs) false s = p := ⟨_, rfl⟩
  have hask : (asking (repo.watched.blocks o.chain (blocksOf logs) false)).run.run s =
      ⟨answer.mapError .repository, [.blocks o.chain (blocksOf logs) false answer], s'⟩ := by
    simp only [Repository.watched, run_asking_watch, hblocks]
  have hsome : ¬ logs.isEmpty = true := by simpa using h
  refine ⟨answer, s', ?_⟩
  rw [dateAll, if_neg hsome]
  cases answer with
  | error e => exact Journal.run_bind_error hask
  | ok blocks => exact Journal.run_bind_ok hask rfl

/-- Fetching the logs of a range asks for them once, and once more for the blocks of those that count if any
do. If nothing fails, then out come the logs that count, in order, with the times of their blocks; the first
failure ends it. -/
theorem fetch_harvest (o : LogsOptions) (repo : Repository (StateM σ)) (r : BlockRange) (s : σ) :
    let page := (o.fetch repo.watched r).run.run s
    o.Harvest r page.deeds page.result := by
  by_cases hinverted : r.last < r.first
  · rw [fetch_of_inverted hinverted]
    exact .inverted hinverted
  · have hdue : r.first ≤ r.last := UInt64.not_lt.mp hinverted
    obtain ⟨⟨reply, s₁⟩, hlogs⟩ : ∃ p, repo.logs o.chain (o.filter r) s = p := ⟨_, rfl⟩
    have hask : (asking (repo.watched.logs o.chain (o.filter r))).run.run s =
        ⟨reply.mapError .repository, [.logs o.chain (o.filter r) reply], s₁⟩ := by
      simp only [Repository.watched, run_asking_watch, hlogs]
    rw [fetch_of_ordered hinverted]
    cases reply with
    | error e =>
      rw [Journal.run_bind_error hask]
      exact .refused hdue e
    | ok answer =>
      have harranged := o.kept_arranges r answer
      cases hkept : kept (o.filter r) answer with
      | nil =>
        rw [hkept] at harranged
        have hnone : (o.dateAll repo.watched (kept (o.filter r) answer)).run.run s₁ = ⟨.ok [], [], s₁⟩ := by
          rw [hkept]
          rfl
        rw [Journal.run_bind_ok hask hnone]
        exact .barren hdue answer harranged.none_counts
      | cons log logs =>
        have hsome : kept (o.filter r) answer ≠ [] := by simp [hkept]
        have hcounts := harranged.exists_countsIn hsome
        obtain ⟨reply, s₂, hdated⟩ := dateAll_of_ne_nil o repo hsome s₁
        rw [Journal.run_bind_ok hask hdated]
        have hasked := areBlocksOf_blocksOf (kept (o.filter r) answer)
        cases reply with
        | error e => exact .undated hdue answer hcounts _ harranged _ hasked e
        | ok blocks =>
          have hundated := o.map_log_date blocks (kept (o.filter r) answer)
          apply Harvest.dated hdue answer hcounts
          · rwa [hundated]
          · rwa [hundated]
          intro e he
          obtain ⟨log, -, rfl⟩ := List.mem_map.mp he
          exact o.date_isDated blocks log

end LogsOptions
end ChainFeed

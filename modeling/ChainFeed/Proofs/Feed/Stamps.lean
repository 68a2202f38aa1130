import ChainFeed.Proofs.Family.Links
import ChainFeed.Proofs.Family.Steady
import ChainFeed.Proofs.Feed.Dated
import ChainFeed.Proofs.Keyed

/-!
# Where the times of logs come from

A log is given the time of a block that was returned with its number. A placeholder is such a block too, and
its time is that of the clock on the wall. So what is emitted depends on the answers alone, but for the times
of logs whose blocks the node could not serve.
-/

namespace ChainFeed

open Rpc (NodeError Transport)

variable {σ σ' : Type}

namespace Block

theorem isPlaceholder_timeless (b : Block) : b.timeless.isPlaceholder = b.isPlaceholder := by
  unfold timeless
  split <;> rfl

theorem number_timeless (b : Block) : b.timeless.number = b.number := by
  unfold timeless
  split <;> rfl

theorem eq_of_timeless {b b' : Block} (h : b.timeless = b'.timeless) (genuine : b.isPlaceholder = false) :
    b = b' := by
  have genuine' : b'.isPlaceholder = false := by
    rw [← b'.isPlaceholder_timeless, ← h, b.isPlaceholder_timeless, genuine]
  simpa [timeless, genuine, genuine'] using h

end Block

/-- The same question with the same answer, the times of placeholders aside. -/
inductive Inquiry.Alike : Inquiry → Inquiry → Prop
  | same (d : Inquiry) : Alike d d
  | blocks (chain : String) (numbers : BlockSet) (full : Bool) {found found' : BlockMap}
      (same : SameBlocks found found') :
    Alike (.blocks chain numbers full (.ok found)) (.blocks chain numbers full (.ok found'))
  /-- A map has no order of its own; where each number comes once, none is missed. -/
  | shuffled (chain : String) (numbers : BlockSet) (full : Bool) {found found' : BlockMap}
      (once : (found.values.map Block.number).Nodup)
      (same : (found.values.map Block.timeless).Perm (found'.values.map Block.timeless)) :
    Alike (.blocks chain numbers full (.ok found)) (.blocks chain numbers full (.ok found'))

def Inquiry.brought : Inquiry → List Block
  | .blocks _ _ _ (.ok found) => found.values
  | _ => []

namespace EnrichedLog

structure DatedBy (e : EnrichedLog) (b : Block) : Prop where
  number : b.number = e.log.blockNumber
  time : e.blockTimestamp = b.timestamp

/-- The time of a placeholder has reached the log. -/
def Leaked (inquiries : List Inquiry) (e : EnrichedLog) : Prop :=
  ∃ b ∈ inquiries.flatMap Inquiry.brought, b.isPlaceholder = true ∧ e.DatedBy b

/-- Where the time of a log can come from. -/
inductive Stamped (inquiries : List Inquiry) (e : EnrichedLog) : Prop
  | served (b : Block) (brought : b ∈ inquiries.flatMap Inquiry.brought) (genuine : b.isPlaceholder = false)
      (dated : e.DatedBy b)
  | leaked (leaked : e.Leaked inquiries)
  | missing (none : ∀ b ∈ inquiries.flatMap Inquiry.brought, b.number ≠ e.log.blockNumber)
      (zero : e.blockTimestamp = 0)

/-- Two logs are the same, but that each may have got the time of a placeholder. -/
structure Resembles (inquiries inquiries' : List Inquiry) (e e' : EnrichedLog) : Prop where
  rest : { e with blockTimestamp := 0 } = { e' with blockTimestamp := 0 }
  time : e.blockTimestamp = e'.blockTimestamp ∨ e.Leaked inquiries ∧ e'.Leaked inquiries'

end EnrichedLog

namespace LogsOptions

/-- Two fetches fail alike, or emit logs that resemble each other, one by one. -/
inductive Resemble (inquiries inquiries' : List Inquiry) :
    Except PollError (List EnrichedLog) → Except PollError (List EnrichedLog) → Prop
  | failed (e : PollError) : Resemble inquiries inquiries' (.error e) (.error e)
  | emitted {records records' : List EnrichedLog}
      (logs : List.Forall₂ (EnrichedLog.Resembles inquiries inquiries') records records') :
    Resemble inquiries inquiries' (.ok records) (.ok records')

def told (o : LogsOptions) (r : BlockRange) : List Inquiry → Except PollError (List EnrichedLog)
  | [.logs _ _ (.error e)] => .error (.repository e)
  | [.logs _ _ (.ok _), .blocks _ _ _ (.error e)] => .error (.repository e)
  | [.logs _ _ (.ok answer), .blocks _ _ _ (.ok blocks)] => .ok ((kept (o.filter r) answer).map (o.date blocks))
  | _ => .ok []

theorem fetch_told (o : LogsOptions) (repo : Repository (StateM σ)) (r : BlockRange) (s : σ) :
    let page := (o.fetch repo.watched r).run.run s
    page.result = o.told r page.deeds := by
  by_cases hinverted : r.last < r.first
  · rw [fetch_of_inverted hinverted]
    rfl
  · obtain ⟨⟨reply, s₁⟩, hlogs⟩ : ∃ p, repo.logs o.chain (o.filter r) s = p := ⟨_, rfl⟩
    have hask : (asking (repo.watched.logs o.chain (o.filter r))).run.run s =
        ⟨reply.mapError .repository, [.logs o.chain (o.filter r) reply], s₁⟩ := by
      simp only [Repository.watched, run_asking_watch, hlogs]
    rw [fetch_of_ordered hinverted]
    cases reply with
    | error e =>
      rw [Journal.run_bind_error hask]
      rfl
    | ok answer =>
      by_cases hkept : kept (o.filter r) answer = []
      · have hnone : (o.dateAll repo.watched (kept (o.filter r) answer)).run.run s₁ = ⟨.ok [], [], s₁⟩ := by
          rw [hkept]
          rfl
        rw [Journal.run_bind_ok hask hnone]
        rfl
      · obtain ⟨reply, s₂, hdated⟩ := dateAll_of_ne_nil o repo hkept s₁
        rw [Journal.run_bind_ok hask hdated]
        cases reply <;> rfl

def FoundAlike (blocks blocks' : BlockMap) : Prop :=
  ∀ n : UInt64, (blocks.values.find? (·.number == n)).map Block.timeless =
    (blocks'.values.find? (·.number == n)).map Block.timeless

theorem find_timeless (blocks : BlockMap) (n : UInt64) : (blocks.values.find? (·.number == n)).map Block.timeless =
    (blocks.values.map Block.timeless).find? (·.number == n) := by
  rw [List.find?_map]
  simp only [Function.comp_def, Block.number_timeless]

theorem foundAlike_of_same {blocks blocks' : BlockMap} (same : SameBlocks blocks blocks') :
    FoundAlike blocks blocks' := by
  have hvalues : ∀ blocks : BlockMap,
      blocks.values.map Block.timeless = (ChainFamily.timeless blocks).values := by
    intro blocks
    simp only [ChainFamily.timeless, Table.values, List.map_map, Function.comp_def]
  intro n
  rw [find_timeless, find_timeless, hvalues, hvalues,
    show ChainFamily.timeless blocks = ChainFamily.timeless blocks' from same]

theorem foundAlike_of_perm {blocks blocks' : BlockMap} (once : (blocks.values.map Block.number).Nodup)
    (same : (blocks.values.map Block.timeless).Perm (blocks'.values.map Block.timeless)) :
    FoundAlike blocks blocks' := by
  have hnumbers : (blocks.values.map Block.timeless).map Block.number = blocks.values.map Block.number := by
    simp only [List.map_map, Function.comp_def, Block.number_timeless]
  intro n
  rw [find_timeless, find_timeless]
  exact find?_key_eq_of_perm same (hnumbers ▸ once) n

section

variable {o : LogsOptions} {r : BlockRange} {inquiries inquiries' : List Inquiry} {blocks blocks' : BlockMap}

/-- A placeholder among the blocks that is found for a log gives it its time. -/
theorem leaked_of_find (brought : inquiries.flatMap Inquiry.brought = blocks.values) {log : Log} {b : Block}
    (found : blocks.values.find? (·.number == log.blockNumber) = some b) (placeholder : b.isPlaceholder = true) :
    (o.date blocks log).Leaked inquiries := by
  have hnumber : b.number = log.blockNumber := by simpa using List.find?_some found
  refine ⟨b, brought ▸ List.mem_of_find?_eq_some found, placeholder, hnumber, ?_⟩
  simp only [date, timeOf, found]
  rfl

theorem date_resembles (brought : inquiries.flatMap Inquiry.brought = blocks.values)
    (brought' : inquiries'.flatMap Inquiry.brought = blocks'.values) (alike : FoundAlike blocks blocks')
    (log : Log) : (o.date blocks log).Resembles inquiries inquiries' (o.date blocks' log) := by
  refine ⟨rfl, ?_⟩
  have hfind := alike log.blockNumber
  cases hfound : blocks.values.find? (·.number == log.blockNumber) with
  | none =>
    rw [hfound] at hfind
    have hfound' := Option.map_eq_none_iff.mp hfind.symm
    exact .inl (by simp only [date, timeOf, hfound, hfound'])
  | some b =>
    rw [hfound] at hfind
    obtain ⟨b', hfound', htimeless⟩ := Option.map_eq_some_iff.mp hfind.symm
    cases hplaceholder : b.isPlaceholder with
    | false =>
      rw [← Block.eq_of_timeless htimeless.symm hplaceholder] at hfound'
      exact .inl (by simp only [date, timeOf, hfound, hfound'])
    | true =>
      have hplaceholder' : b'.isPlaceholder = true := by
        rw [← b'.isPlaceholder_timeless, htimeless, b.isPlaceholder_timeless, hplaceholder]
      exact .inr ⟨leaked_of_find brought hfound hplaceholder, leaked_of_find brought' hfound' hplaceholder'⟩

theorem dateAll_resembles (brought : inquiries.flatMap Inquiry.brought = blocks.values)
    (brought' : inquiries'.flatMap Inquiry.brought = blocks'.values) (alike : FoundAlike blocks blocks')
    (logs : List Log) : List.Forall₂ (EnrichedLog.Resembles inquiries inquiries')
      (logs.map (o.date blocks)) (logs.map (o.date blocks')) := by
  rw [List.forall₂_map_left_iff, List.forall₂_map_right_iff, List.forall₂_same]
  exact fun log _ => date_resembles brought brought' alike log

theorem IsDated.stamped {e : EnrichedLog} (h : o.IsDated blocks e)
    (brought : inquiries.flatMap Inquiry.brought = blocks.values) : e.Stamped inquiries := by
  rcases h.time with ⟨b, hb, hnumber, htime⟩ | ⟨hnone, hzero⟩
  · rw [← brought] at hb
    cases hplaceholder : b.isPlaceholder with
    | false => exact .served b hb hplaceholder ⟨hnumber, htime⟩
    | true => exact .leaked ⟨b, hb, hplaceholder, hnumber, htime⟩
  · rw [← brought] at hnone
    exact .missing hnone hzero

theorem Harvest.stamped {records : List EnrichedLog} (h : o.Harvest r inquiries (.ok records)) :
    ∀ e ∈ records, e.Stamped inquiries := by
  cases h with
  | inverted => simp
  | barren => simp
  | dated due answer counted _ arranged numbers asked blocks times =>
    exact fun e he => (times e he).stamped (List.append_nil _)

theorem Harvest.resemble {result : Except PollError (List EnrichedLog)} (h : o.Harvest r inquiries result)
    (alike : List.Forall₂ Inquiry.Alike inquiries inquiries') :
    Resemble inquiries inquiries' (o.told r inquiries) (o.told r inquiries') := by
  cases h with
  | inverted =>
    cases alike
    exact .emitted .nil
  | refused due e =>
    obtain ⟨_, _, ⟨⟩, ⟨⟩, rfl⟩ := List.forall₂_cons_left_iff.mp alike
    exact .failed _
  | barren due answer =>
    obtain ⟨_, _, ⟨⟩, ⟨⟩, rfl⟩ := List.forall₂_cons_left_iff.mp alike
    exact .emitted .nil
  | undated due answer counted logs arranged numbers asked e =>
    obtain ⟨_, _, ⟨⟩, hblocks, rfl⟩ := List.forall₂_cons_left_iff.mp alike
    obtain ⟨_, _, ⟨⟩, ⟨⟩, rfl⟩ := List.forall₂_cons_left_iff.mp hblocks
    exact .failed _
  | dated due answer counted records arranged numbers asked blocks times =>
    obtain ⟨_, _, ⟨⟩, hblocks, rfl⟩ := List.forall₂_cons_left_iff.mp alike
    obtain ⟨_, _, hlast, ⟨⟩, rfl⟩ := List.forall₂_cons_left_iff.mp hblocks
    have hemitted : ∀ blocks' : BlockMap, FoundAlike blocks blocks' → Resemble
        [.logs o.chain (o.filter r) (.ok answer), .blocks o.chain numbers false (.ok blocks)]
        [.logs o.chain (o.filter r) (.ok answer), .blocks o.chain numbers false (.ok blocks')]
        (.ok ((kept (o.filter r) answer).map (o.date blocks)))
        (.ok ((kept (o.filter r) answer).map (o.date blocks'))) := fun blocks' alike =>
      .emitted (dateAll_resembles (List.append_nil _) (List.append_nil _) alike _)
    cases hlast with
    | same => exact hemitted blocks (foundAlike_of_same rfl)
    | blocks _ _ _ same => exact hemitted _ (foundAlike_of_same same)
    | shuffled _ _ _ once same => exact hemitted _ (foundAlike_of_perm once same)

end

/-- A log gets the time of a block that was returned with its number, of a placeholder as well as of a block
that the node served, and zero if there is none. Two fetches that get the same answers, the times of
placeholders aside, fail alike or emit the same logs, the times that placeholders have given them aside. -/
theorem fetch_stamps (o : LogsOptions) (repo : Repository (StateM σ)) (repo' : Repository (StateM σ'))
    (r : BlockRange) (s : σ) (s' : σ') :
    let page := (o.fetch repo.watched r).run.run s
    let page' := (o.fetch repo'.watched r).run.run s'
    (∀ records, page.result = .ok records → ∀ e ∈ records, e.Stamped page.deeds) ∧
      (List.Forall₂ Inquiry.Alike page.deeds page'.deeds →
        Resemble page.deeds page'.deeds page.result page'.result) := by
  intro page page'
  have hharvest : o.Harvest r page.deeds page.result := fetch_harvest o repo r s
  constructor
  · intro records hrecords
    rw [hrecords] at hharvest
    exact hharvest.stamped
  · intro alike
    have htold : page.result = o.told r page.deeds := fetch_told o repo r s
    have htold' : page'.result = o.told r page'.deeds := fetch_told o repo' r s'
    rw [htold, htold']
    exact hharvest.resemble alike

@[reducible] private def wallAt (now : Int64) : Clock (StateM Unit) where
  now := pure 0
  sleep _ := pure ()
  wall := pure ⟨2024, 1, 1, 21600, 0⟩
  unixTime := pure now

private def blockless (method : String) (_ : Json) : Except NodeError Json :=
  match method with
  | "eth_getLogs" => .ok (.arr [.obj [("address", .str "0xb"), ("topics", .arr []), ("data", .str "0x"),
      ("blockNumber", .str "0x7"), ("transactionHash", .str "0xt"), ("transactionIndex", .str "0x0"),
      ("logIndex", .str "0x0")]])
  | _ => .ok .null

private def lonelyLog : Log := ⟨"0xb", [], "0x", 7, "", "0xt", "0", 0, false, 2⟩

private def anyLogs : LogsOptions := { chain := "chain", chainId := 2 }

private def blocklessRepository (now : Int64) : Repository (StateM Unit) :=
  letI := wallAt now
  ChainFamily.evm.repository [("chain", ⟨2, .saying blockless⟩)]

private def blocklessPage (now : Int64) : Journal.Page Inquiry Unit (Except PollError (List EnrichedLog)) :=
  (anyLogs.fetch (blocklessRepository now).watched ⟨7, 7⟩).run.run ()

private theorem blocklessPage_eq (now : Int64) : blocklessPage now =
    ⟨.ok [⟨lonelyLog, now, "chain", 2⟩],
      [.logs "chain" (anyLogs.filter ⟨7, 7⟩) (.ok [lonelyLog]),
        .blocks "chain" (.single 7) false (.ok (.ofBlocks [.placeholder 7 now]))], ()⟩ := by
  have hordered : ¬ (⟨7, 7⟩ : BlockRange).last < (⟨7, 7⟩ : BlockRange).first := by decide
  have hkept : kept (anyLogs.filter ⟨7, 7⟩) [lonelyLog] = [lonelyLog] := List.mergeSort_singleton _
  have hask : (asking ((blocklessRepository now).watched.logs "chain" (anyLogs.filter ⟨7, 7⟩))).run.run () =
      ⟨.ok [lonelyLog], [.logs "chain" (anyLogs.filter ⟨7, 7⟩) (.ok [lonelyLog])], ()⟩ := by rfl
  have hdated : (anyLogs.dateAll (blocklessRepository now).watched
        (kept (anyLogs.filter ⟨7, 7⟩) [lonelyLog])).run.run () =
      ⟨.ok [⟨lonelyLog, now, "chain", 2⟩],
        [.blocks "chain" (.single 7) false (.ok (.ofBlocks [.placeholder 7 now]))], ()⟩ := by
    rw [hkept]
    rfl
  rw [blocklessPage, fetch_of_ordered hordered]
  exact Journal.run_bind_ok hask hdated

theorem blockless_fetches_resemble :
    List.Forall₂ Inquiry.Alike (blocklessPage 1704067200).deeds (blocklessPage 1704067201).deeds ∧
      Resemble (blocklessPage 1704067200).deeds (blocklessPage 1704067201).deeds
        (blocklessPage 1704067200).result (blocklessPage 1704067201).result := by
  have halike :
      List.Forall₂ Inquiry.Alike (blocklessPage 1704067200).deeds (blocklessPage 1704067201).deeds := by
    have hblocks := SameBlocks.of_arranged .evm 1704067200 1704067201 [(7, none)]
    rw [blocklessPage_eq, blocklessPage_eq]
    exact .cons (.same _) (.cons (.blocks _ _ _ hblocks) .nil)
  have hstamps := fetch_stamps anyLogs (blocklessRepository 1704067200) (blocklessRepository 1704067201)
    ⟨7, 7⟩ () ()
  exact ⟨halike, hstamps.2 halike⟩

/-- A log in a block that cannot be served is emitted with the time of the clock on the wall. -/
theorem blockless_log_dated_by_clock :
    (∀ now, (blocklessPage now).deeds.flatMap Inquiry.brought = [.placeholder 7 now]) ∧
    (∀ now, (blocklessPage now).result = .ok [⟨lonelyLog, now, "chain", 2⟩]) ∧
    (¬ ∀ now records, (blocklessPage now).result = .ok records → ∀ e ∈ records,
      (∃ b ∈ (blocklessPage now).deeds.flatMap Inquiry.brought, b.isPlaceholder = false ∧ e.DatedBy b) ∨
        e.blockTimestamp = 0) ∧
    ¬ ∀ now now', (blocklessPage now).result = (blocklessPage now').result := by
  have hbrought : ∀ now, (blocklessPage now).deeds.flatMap Inquiry.brought = [.placeholder 7 now] := by
    intro now
    rw [blocklessPage_eq]
    rfl
  have hresult : ∀ now, (blocklessPage now).result = .ok [⟨lonelyLog, now, "chain", 2⟩] := by
    intro now
    rw [blocklessPage_eq]
  refine ⟨hbrought, hresult, fun hall => ?_, fun hall => ?_⟩
  · rcases hall 1704067200 _ (hresult _) _ (List.mem_singleton_self _) with ⟨b, hb, hgenuine, -⟩ | hzero
    · rw [hbrought, List.mem_singleton] at hb
      rw [hb] at hgenuine
      cases hgenuine
    · exact absurd hzero (by decide)
  · have hsame := hall 1704067200 1704067201
    rw [hresult, hresult] at hsame
    simp at hsame

end LogsOptions

end ChainFeed

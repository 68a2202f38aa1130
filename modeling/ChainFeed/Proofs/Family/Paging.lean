import ChainFeed.Proofs.Family.Derived
import ChainFeed.Proofs.Family.Pointwise

/-!
# Paged histories

The history of an address comes in pages, newest first, each page asked for with the last signature of the one
before it. Whatever the size of the pages, together they hold what counts of the history, and so the logs of an
address do not depend on that size.
-/

namespace ChainFeed

open Rpc (NodeError Transport)
open Family

variable {σ : Type} {say : String → Json → Except NodeError Json}

namespace Solana

theorem pageRequest_params (limit n : Nat) (address : String) (before : Option String) :
    (pageRequest limit n address before).params = .arr [.str address,
      .obj ((before.map fun s => ("before", Json.str s)).toList ++
        [("commitment", .str "finalized"), ("limit", .nat limit)])] := by
  have hfirst : "commitment" < "limit" := by decide +kernel
  have hsecond : "before" < "commitment" := by decide +kernel
  cases before with
  | none =>
    change Json.arr [_, .obj (Json.sortMembers [_, _])] = _
    rw [Json.sortMembers_of_falling (List.pairwise_pair.mpr hfirst)]
    rfl
  | some s =>
    have hfalling : [("limit", Json.nat limit), ("commitment", .str "finalized"), ("before", .str s)].Pairwise
        fun m n => n.1 < m.1 := by
      apply List.pairwise_cons.mpr
      refine ⟨List.forall_mem_cons.mpr ⟨hfirst, ?_⟩, List.pairwise_pair.mpr hsecond⟩
      exact List.forall_mem_singleton.mpr (String.lt_trans hsecond hfirst)
    change Json.arr [_, .obj (Json.sortMembers [_, _, _])] = _
    rw [Json.sortMembers_of_falling hfalling]
    rfl

/-- The entry is in range, and its transaction did not fail. -/
def wanted (filter : LogFilter) (e : Signature) : Bool := filter.containsBlock e.slot && !e.failed

/-- The entries after the one with the signature `before`, or all of them. -/
def following (before : Option String) (entries : List Signature) : List Signature :=
  match before with
  | none => entries
  | some s => (entries.dropWhile (·.signature != s)).tail

/-- The node knows these entries for the address, newest first and each under a signature of its own, and serves
of them the first ones after a signature that it is asked for. -/
structure Keeps (say : String → Json → Except NodeError Json) (address : String) (entries : List Signature) :
    Prop where
  page : ∀ limit n before, 0 < limit → (∀ s, before = some s → s ∈ entries.map (·.signature)) →
    ∃ value, say (pageRequest limit n address before).method (pageRequest limit n address before).params =
      .ok value ∧ value.list? Signature.ofJson? = some ((following before entries).take limit)
  distinct : (entries.map (·.signature)).Nodup
  newestFirst : entries.Pairwise fun a b => b.slot ≤ a.slot

/-- What is left of a history after the signature that was read last. -/
inductive Left (entries : List Signature) : Option String → List Signature → Prop
  | all : Left entries none entries
  | after {read rest : List Signature} {e : Signature} (split : entries = read ++ e :: rest) :
    Left entries (some e.signature) rest

namespace Left

variable {entries rest : List Signature} {before : Option String}

theorem suffix (h : Left entries before rest) : rest <:+ entries := by
  cases h with
  | all => exact List.suffix_refl _
  | after split =>
    rw [split, List.append_cons]
    exact List.suffix_append _ _

theorem before_mem (h : Left entries before rest) (s : String) (hs : before = some s) :
    s ∈ entries.map (·.signature) := by
  cases h with
  | all => cases hs
  | after split =>
    cases hs
    simp [split]

theorem following_eq (h : Left entries before rest) (distinct : (entries.map (·.signature)).Nodup) :
    following before entries = rest := by
  cases h with
  | all => rfl
  | @after read rest e split =>
    have hearlier : ∀ e' ∈ read, (e'.signature != e.signature) = true := by
      intro e' he'
      rw [split, List.map_append, List.nodup_append] at distinct
      have hne := distinct.2.2 e'.signature (List.mem_map_of_mem he') e.signature (by simp)
      simpa using hne
    rw [following, split, List.dropWhile_append_of_pos hearlier, List.dropWhile_cons_of_neg (by simp)]
    rfl

theorem step {page : List Signature} (h : Left entries before (page ++ rest)) (hpage : page ≠ []) :
    Left entries (page.getLast?.map (·.signature)) rest := by
  obtain ⟨earlier, hearlier⟩ := h.suffix
  rw [List.getLast?_eq_some_getLast hpage, Option.map_some]
  apply @Left.after entries (earlier ++ page.dropLast)
  rw [← hearlier, List.append_assoc, List.append_cons, List.dropLast_append_getLast]

end Left

theorem inRange_eq (filter : LogFilter) {page : List Signature}
    (newestFirst : page.Pairwise fun a b => b.slot ≤ a.slot) :
    inRange filter page = (page.filter (wanted filter), page.any (·.slot < filter.fromBlock)) := by
  induction page with
  | nil => rfl
  | cons e page ih =>
    obtain ⟨holder, hpage⟩ := List.pairwise_cons.mp newestFirst
    by_cases hpassed : e.slot < filter.fromBlock
    · have hnone : ∀ e' ∈ e :: page, ¬ wanted filter e' = true := by
        intro e' he'
        have hslot : e'.slot < filter.fromBlock := by
          rcases List.mem_cons.mp he' with rfl | hlater
          · exact hpassed
          · exact UInt64.lt_of_le_of_lt (holder e' hlater) hpassed
        simp [wanted, LogFilter.containsBlock, UInt64.not_le.mpr hslot]
      rw [inRange, if_pos hpassed, List.filter_eq_nil_iff.mpr hnone]
      simp [hpassed]
    · have hfrom := UInt64.not_lt.mp hpassed
      rw [inRange, if_neg hpassed, ih hpage]
      by_cases hto : filter.toBlock < e.slot
      · simp [wanted, LogFilter.containsBlock, hto, UInt64.not_le.mpr hto, hpassed]
      · cases hfailed : e.failed <;>
          simp [wanted, LogFilter.containsBlock, hto, UInt64.not_lt.mp hto, hfrom, hpassed, hfailed]

theorem filter_wanted_of_passed {filter : LogFilter} {page rest : List Signature}
    (newestFirst : (page ++ rest).Pairwise fun a b => b.slot ≤ a.slot)
    (passed : page.any (·.slot < filter.fromBlock) = true) :
    (page ++ rest).filter (wanted filter) = page.filter (wanted filter) := by
  obtain ⟨e, he, hslot⟩ := List.any_eq_true.mp passed
  have hnone : rest.filter (wanted filter) = [] := by
    apply List.filter_eq_nil_iff.mpr
    intro e' he'
    have hle := (List.pairwise_append.mp newestFirst).2.2 e he e' he'
    have hearly := UInt64.lt_of_le_of_lt hle (of_decide_eq_true hslot)
    simp [wanted, LogFilter.containsBlock, UInt64.not_le.mpr hearly]
  rw [List.filter_append, hnone, List.append_nil]

variable {t : Transport (StateM σ)} {address : String} {entries : List Signature}

theorem gives_page (h : t.Steady say) (keeps : Keeps say address entries) {limit : Nat} (hlimit : 0 < limit)
    (n : Nat) {before : Option String} {rest : List Signature} (left : Left entries before rest) :
    ∃ value, Gives (ask t (pageRequest limit n address before)) (· = value) ∧
      Gives (having (readPart "signature page" (Json.list? Signature.ofJson?) value) :
        ExceptT RepositoryError (StateM σ) _) (· = rest.take limit) := by
  obtain ⟨value, hsay, hread⟩ := keeps.page limit n before hlimit left.before_mem
  rw [left.following_eq keeps.distinct] at hread
  refine ⟨value, fun s => ⟨value, ?_, rfl⟩, fun s => ⟨_, ?_, rfl⟩⟩
  · rw [ends_ask h, hsay]
    rfl
  · rw [readPart, hread]
    rfl

/-- With a page in stock for every full page that is left and one more, all that counts of it comes. -/
theorem ends_historyFrom (h : t.Steady say) (keeps : Keeps say address entries) {limit : Nat}
    (hlimit : 0 < limit) (filter : LogFilter) {budget : Nat} (n : Nat) {before : Option String}
    {rest : List Signature} (left : Left entries before rest) (enough : rest.length / limit < budget) :
    Ends (historyFrom t limit address filter budget n before) (· = .ok (rest.filter (wanted filter))) := by
  induction budget generalizing n before rest with
  | zero => exact absurd enough (Nat.not_lt_zero _)
  | succ budget ih =>
    obtain ⟨value, hvalue, hpage⟩ := gives_page h keeps hlimit n left
    have hsplit := List.take_append_drop limit rest
    have hnewest := keeps.newestFirst.sublist left.suffix.sublist
    rw [historyFrom]
    refine hvalue.next fun _ hv => ?_
    subst hv
    refine hpage.next fun _ hp => ?_
    subst hp
    rw [inRange_eq filter (hnewest.sublist (List.take_sublist limit rest))]
    dsimp only
    split
    · next hlast =>
      apply ends_pure
      rw [Bool.or_eq_true, decide_eq_true_eq] at hlast
      -- The page reaches back before the range, or it is all that is left.
      rcases hlast with hpassed | hshort
      · rw [← hsplit] at hnewest
        rw [← filter_wanted_of_passed hnewest hpassed, hsplit]
      · rw [List.length_take] at hshort
        rw [List.take_of_length_le (by omega)]
    · next hmore =>
      have hfull : limit ≤ rest.length := by
        simp only [Bool.or_eq_true, decide_eq_true_eq, List.length_take, not_or] at hmore
        omega
      have hpage : rest.take limit ≠ [] := by
        apply List.ne_nil_of_length_pos
        rw [List.length_take]
        omega
      -- A full page is read, so the pages left in stock are enough for what comes after it.
      have hfewer : (rest.drop limit).length / limit < budget := by
        rw [Nat.div_eq_sub_div hlimit hfull] at enough
        rw [List.length_drop]
        omega
      have hleft := (hsplit.symm ▸ left).step hpage
      have holder := (ih (n + 1) hleft hfewer).map (g := (List.filter (wanted filter) (rest.take limit) ++ ·))
      rwa [Except.map, ← List.filter_append, hsplit] at holder

/-- The pages are enough for a history: one for every full page of it, and one more. -/
def Paging.Suffices (paging : Paging) (entries : List Signature) : Prop :=
  entries.length / paging.limit < paging.pageBudget

theorem ends_history (h : t.Steady say) (keeps : Keeps say address entries) {paging : Paging}
    (enough : paging.Suffices entries) (filter : LogFilter) :
    Ends (history t paging address filter) (· = .ok (entries.filter (wanted filter))) :=
  ends_historyFrom h keeps (Nat.le_max_right _ 1) filter 1 .all enough

/-- What the transaction under a signature yields for an address, by what the node says of it. -/
def yieldOf (say : String → Json → Except NodeError Json) (chainId : UInt64) (filter : LogFilter)
    (address signature : String) : Except RepositoryError (Option Log) :=
  (transactionLookup.heard say signature).bind (logUnder address chainId filter.flatTopics)

def heardLogs (say : String → Json → Except NodeError Json) (chainId : UInt64) (filter : LogFilter)
    (address : String) (signatures : List String) : Except RepositoryError (List Log) :=
  (transactionLookup.gathered say signatures).bind fun found =>
    logsOf address chainId filter.flatTopics (Table.ofList found) signatures

theorem heardLogs_eq_ok_iff {chainId : UInt64} {filter : LogFilter} {signatures : List String}
    {logs : List Log} : heardLogs say chainId filter address signatures = .ok logs ↔
      (∀ s ∈ signatures, ∃ log, yieldOf say chainId filter address s = .ok log) ∧
      logs = signatures.filterMap fun s => (yieldOf say chainId filter address s).toOption.join := by
  rw [heardLogs]
  cases hgathered : transactionLookup.gathered say signatures with
  | error e =>
    constructor
    · intro h
      cases h
    · rintro ⟨hyields, -⟩
      have hanswered : ∀ s ∈ signatures, ∃ o, transactionLookup.heard say s = .ok o := by
        intro s hs
        obtain ⟨log, hlog⟩ := hyields s hs
        cases hheard : transactionLookup.heard say s with
        | ok o => exact ⟨o, rfl⟩
        | error e =>
          rw [yieldOf, hheard] at hlog
          cases hlog
      obtain ⟨found, hfound, -⟩ := transactionLookup.gathered_of_answered hanswered
      rw [hgathered] at hfound
      cases hfound
  | ok found =>
    have hyields : ∀ s ∈ signatures, ∀ log,
        logUnder address chainId filter.flatTopics ((Table.ofList found).get? s) = .ok log ↔
          (∃ log, yieldOf say chainId filter address s = .ok log) ∧
            log = (yieldOf say chainId filter address s).toOption.join := by
      intro s hs log
      rw [yieldOf, Lookup.heard_eq_get? hgathered hs, Except.bind]
      cases logUnder address chainId filter.flatTopics ((Table.ofList found).get? s) with
      | error e => simp
      | ok own => cases own <;> simp [Except.toOption, eq_comm]
    rw [Except.bind, logsOf_eq_mapM, map_eq_ok_iff]
    simp only [mapM_eq_ok_map_iff hyields]
    constructor
    · rintro ⟨_, ⟨hall, rfl⟩, rfl⟩
      exact ⟨hall, by rw [List.filterMap_map]; rfl⟩
    · rintro ⟨hall, rfl⟩
      exact ⟨_, ⟨hall, rfl⟩, by rw [List.filterMap_map]; rfl⟩

section

variable {settings : ChainSettings (StateM σ)} {paging : Paging} {filter : LogFilter}
  {histories : String → List Signature}

def wantedSignatures (filter : LogFilter) (entries : List Signature) : List String :=
  (entries.filter (wanted filter)).map (·.signature)

theorem wantedSignatures_of_isEmptyRange (h : filter.isEmptyRange = true) (entries : List Signature) :
    wantedSignatures filter entries = [] := by
  have hinverted : filter.toBlock < filter.fromBlock := of_decide_eq_true h
  have hnone : ∀ e ∈ entries, ¬ wanted filter e = true := by
    intro e _
    simp only [wanted, LogFilter.containsBlock, UInt64.le_iff_toNat_le, UInt64.lt_iff_toNat_lt] at hinverted ⊢
    simp only [Bool.and_eq_true, decide_eq_true_eq]
    omega
  rw [wantedSignatures, List.filter_eq_nil_iff.mpr hnone, List.map_nil]

theorem ends_logsAt (h : settings.transport.Steady say) {addresses : List String}
    (keeps : ∀ a ∈ addresses, Keeps say a (histories a))
    (enough : ∀ a ∈ addresses, paging.Suffices (histories a)) :
    Ends (logsAt settings paging filter addresses) (· = (addresses.mapM fun a =>
      heardLogs say settings.chainId filter a (wantedSignatures filter (histories a))).map List.flatten) := by
  induction addresses with
  | nil => exact ends_pure rfl
  | cons a rest ih =>
    obtain ⟨hkeeps, hrest⟩ := List.forall_mem_cons.mp keeps
    obtain ⟨henough, hlater⟩ := List.forall_mem_cons.mp enough
    have hothers := ih hrest hlater
    have hhistory : Gives (history settings.transport paging a filter)
        (· = (histories a).filter (wanted filter)) :=
      fun s => ⟨_, ends_history h hkeeps henough filter s, rfl⟩
    rw [logsAt]
    refine hhistory.next fun entries hentries => ?_
    subst hentries
    have hlogs : Ends (do
        let found ← transactionLookup.fetch settings.transport (wantedSignatures filter (histories a))
        having (logsOf a settings.chainId filter.flatTopics (Table.ofList found)
          (wantedSignatures filter (histories a))))
        (· = heardLogs say settings.chainId filter a (wantedSignatures filter (histories a))) :=
      (transactionLookup.ends_fetch h _).fixed fun found _ => ends_having rfl
    have hall := hlogs.fixed fun logs _ => hothers.map (g := (logs ++ ·))
    rw [bind_assoc] at hall
    rw [List.mapM_cons]
    cases hown : heardLogs say settings.chainId filter a (wantedSignatures filter (histories a)) with
    | error e =>
      rw [hown] at hall
      exact hall
    | ok logs =>
      rw [hown] at hall
      cases hmore : rest.mapM fun a =>
        heardLogs say settings.chainId filter a (wantedSignatures filter (histories a)) <;>
          rw [hmore] at hall <;> exact hall

end

def filteredLogs (say : String → Json → Except NodeError Json) (chainId : UInt64) (filter : LogFilter)
    (histories : String → List Signature) : Except RepositoryError (List Log) :=
  if filter.isEmptyRange then .ok []
  else if filter.addresses.isEmpty then
    .error (.invalidArgument "solana log queries need at least one address")
  else (filter.addresses.mapM fun a =>
    heardLogs say chainId filter a (wantedSignatures filter (histories a))).map List.flatten

theorem filteredLogs_eq_ok_iff {chainId : UInt64} {filter : LogFilter} {histories : String → List Signature}
    {logs : List Log} : filteredLogs say chainId filter histories = .ok logs ↔
      (filter.isEmptyRange = true ∨ filter.addresses ≠ []) ∧
      (∀ a ∈ filter.addresses, ∀ signature ∈ wantedSignatures filter (histories a),
        ∃ log, yieldOf say chainId filter a signature = .ok log) ∧
      logs = filter.addresses.flatMap fun a => (wantedSignatures filter (histories a)).filterMap fun signature =>
        (yieldOf say chainId filter a signature).toOption.join := by
  rw [filteredLogs]
  by_cases hempty : filter.isEmptyRange = true
  · have hnone : filter.addresses.flatMap (fun _ => ([] : List Log)) = [] :=
      List.flatMap_eq_nil_iff.mpr fun _ _ => rfl
    simp [wantedSignatures_of_isEmptyRange hempty, hempty, hnone, eq_comm]
  · by_cases hnobody : filter.addresses = []
    · simp [hempty, hnobody]
    · rw [if_neg hempty, if_neg (by simpa using hnobody), map_eq_ok_iff]
      simp only [mapM_eq_ok_map_iff fun a _ logs => heardLogs_eq_ok_iff, hnobody, ne_eq, not_false_eq_true,
        or_true, true_and]
      constructor
      · rintro ⟨_, ⟨hall, rfl⟩, rfl⟩
        exact ⟨hall, List.flatMap_def.symm⟩
      · rintro ⟨hall, rfl⟩
        exact ⟨_, ⟨hall, rfl⟩, List.flatMap_def⟩

section

variable {chains : Registry (StateM σ)} {chain : String} {c : ChainSettings (StateM σ)} {paging : Paging}
  {filter : LogFilter} {histories : String → List Signature}

theorem ends_logs (known : chains.get chain = .ok c) (steady : c.transport.Steady say)
    (keeps : ∀ a ∈ filter.addresses, Keeps say a (histories a))
    (enough : ∀ a ∈ filter.addresses, paging.Suffices (histories a)) :
    Ends (logs chains paging chain filter) (· = filteredLogs say c.chainId filter histories) := by
  simp only [logs, serving, known, filteredLogs]
  split
  · exact ends_pure rfl
  · split
    · exact ends_throw rfl
    · exact ends_logsAt steady keeps enough

/-- The logs of some addresses from a node that keeps their histories and says the same whenever it is asked.
Whatever the page size, paging through a history ends and gives the wanted entries of it, and the logs are what
the signatures of those yield, address by address, provided that everything the node says of them can be read. -/
theorem logs_of_every_page_size [Clock (StateM σ)] (known : chains.get chain = .ok c) (steady : c.transport.Steady say)
    (keeps : ∀ a ∈ filter.addresses, Keeps say a (histories a)) :
    (∀ a ∈ filter.addresses, ∀ paging : Paging, paging.Suffices (histories a) →
      Ends (history c.transport paging a filter) (· = .ok ((histories a).filter (wanted filter)))) ∧
    ∃ answer,
      (∀ paging : Paging, (∀ a ∈ filter.addresses, paging.Suffices (histories a)) →
        ∀ s, ((repository chains paging).logs chain filter s).1 = answer) ∧
      ∀ logs, answer = .ok logs ↔
        (filter.isEmptyRange = true ∨ filter.addresses ≠ []) ∧
        (∀ a ∈ filter.addresses, ∀ signature ∈ wantedSignatures filter (histories a),
          ∃ log, yieldOf say c.chainId filter a signature = .ok log) ∧
        logs = filter.addresses.flatMap fun a => (wantedSignatures filter (histories a)).filterMap fun signature =>
          (yieldOf say c.chainId filter a signature).toOption.join := by
  constructor
  · exact fun a ha paging enough => ends_history steady (keeps a ha) enough filter
  · refine ⟨filteredLogs say c.chainId filter histories, fun paging enough => ?_, fun logs => ?_⟩
    · exact ends_logs known steady keeps enough
    · exact filteredLogs_eq_ok_iff

end

@[reducible] private def midnight : Clock (StateM Unit) where
  now := pure 0
  sleep _ := pure ()
  wall := pure ⟨2024, 1, 1, 0, 0⟩
  unixTime := pure 1704067200

private def signatureJson (e : Signature) : Json :=
  .obj [("signature", .str e.signature), ("slot", .word e.slot),
    ("err", if e.failed then .str "AccountInUse" else .null)]

private def swapJson (signature : String) (slot : UInt64) : Json :=
  .obj [("slot", .word slot), ("meta", .obj [("logMessages", .strings ["Program log: Instruction: Swap"])]),
    ("transaction", .obj [("signatures", .strings [signature]),
      ("message", .obj [("accountKeys", .strings ["Payer111", "Pool111"])])])]

private def swaps : List Signature :=
  [⟨"e", 10, false⟩, ⟨"d", 9, false⟩, ⟨"c", 8, true⟩, ⟨"b", 8, false⟩, ⟨"a", 7, false⟩, ⟨"z", 2, false⟩]

private def swapping (method : String) (params : Json) : Except NodeError Json :=
  match method, params with
  | "getSignaturesForAddress", .arr [.str "Pool111", .obj [_, ("limit", .int n)]] =>
    .ok (.arr ((swaps.take n.toNat).map signatureJson))
  | "getSignaturesForAddress", .arr [.str "Pool111", .obj [("before", .str s), _, ("limit", .int n)]] =>
    .ok (.arr (((following (some s) swaps).take n.toNat).map signatureJson))
  | "getTransaction", .arr [.str signature, _] =>
    .ok (((swaps.find? (·.signature == signature)).map fun e => swapJson signature e.slot).getD .null)
  | _, _ => .ok .null

private def swapChains : Registry (StateM Unit) := [("solana", ⟨1, .saying swapping⟩)]

private def pooled : LogFilter := { addresses := ["Pool111"], fromBlock := 7, toBlock := 9 }

private def swapLog (signature : String) (slot : UInt64) : Log :=
  ⟨"Pool111", ["Swap"], "", slot, "", signature, "0", 0, false, 1⟩

private theorem list?_signatureJson {page : List Signature} (h : page.Sublist swaps) :
    (Json.arr (page.map signatureJson)).list? Signature.ofJson? = some page := by
  have hone : ∀ e ∈ swaps, Signature.ofJson? (signatureJson e) = some e := by decide +kernel
  have hall : ∀ e ∈ page, Signature.ofJson? (signatureJson e) = some e := fun e he => hone e (h.mem he)
  clear h
  rw [Json.list?]
  induction page with
  | nil => rfl
  | cons e page ih =>
    obtain ⟨he, hpage⟩ := List.forall_mem_cons.mp hall
    rw [List.map_cons, List.mapM_cons, he, ih hpage]
    rfl

private theorem swapping_page (limit n : Nat) (before : Option String) :
    swapping (pageRequest limit n "Pool111" before).method (pageRequest limit n "Pool111" before).params =
      .ok (.arr (((following before swaps).take limit).map signatureJson)) := by
  rw [pageRequest_params]
  cases before <;> rfl

private theorem following_sublist (before : Option String) : (following before swaps).Sublist swaps := by
  cases before with
  | none => exact List.Sublist.refl _
  | some s => exact (List.tail_sublist _).trans (List.dropWhile_sublist _)

private theorem swapping_keeps : Keeps swapping "Pool111" swaps := by
  constructor
  · intro limit n before _ _
    have hpage := (List.take_sublist limit _).trans (following_sublist before)
    exact ⟨_, swapping_page limit n before, list?_signatureJson hpage⟩
  · decide
  · decide

theorem swaps_of_every_page_size : letI := midnight
    swapChains.get "solana" = .ok ⟨1, .saying swapping⟩ ∧
      (Transport.saying swapping : Transport (StateM Unit)).Steady swapping ∧
      (∀ a ∈ pooled.addresses, Keeps swapping a swaps) ∧
      ∀ size, ((repository swapChains { pageSize := size }).logs "solana" pooled ()).1 =
        .ok [swapLog "d" 9, swapLog "b" 8, swapLog "a" 7] := by
  let _ := midnight
  have known : swapChains.get "solana" = .ok ⟨1, .saying swapping⟩ := rfl
  have steady : (Transport.saying swapping : Transport (StateM Unit)).Steady swapping :=
    Transport.saying_steady swapping
  have keeps : ∀ a ∈ pooled.addresses, Keeps swapping a swaps := by
    intro a ha
    rw [List.mem_singleton.mp ha]
    exact swapping_keeps
  obtain ⟨-, answer, hanswer, hlogs⟩ := logs_of_every_page_size known steady keeps
  refine ⟨known, steady, keeps, fun size => ?_⟩
  have enough : ∀ a ∈ pooled.addresses, (Paging.mk size 0x100000000).Suffices swaps :=
    fun _ _ => Nat.lt_of_le_of_lt (Nat.div_le_self _ _) (show 6 < 0x100000000 by decide)
  have hread : ∀ a ∈ pooled.addresses, ∀ signature ∈ wantedSignatures pooled swaps,
      (yieldOf swapping 1 pooled a signature).toOption.isSome = true := by decide +kernel
  rw [hanswer _ enough, hlogs]
  refine ⟨by decide, fun a ha signature hmem => exists_ok_iff.mpr (hread a ha signature hmem), ?_⟩
  decide +kernel

end Solana
end ChainFeed

import ChainFeed.Proofs.Except
import ChainFeed.Proofs.Family.Batches

/-!
# Receipts of many transactions

Receipts are looked up in batches of ten, and all of them come or none. A family is described by the
`Terms` in which it asks for a receipt; the three repositories differ in nothing else.
-/

namespace ChainFeed

open Rpc (Request Response NodeError TransportError)
open Rpc.Response (Distinct Told Silent Agree Varied)

namespace Family

@[ext]
structure Terms where
  request : Nat → TxRef → Request
  read : String → Json → Except RepositoryError Receipt
  /-- What cannot be read as the answer to such a request at all. -/
  Undecodable : Json → Prop

namespace Terms

variable (t : Terms)

def requests (batch : List TxRef) : List Request := batch.zipIdx.map fun p => t.request p.2 p.1

/-- Every request of the batch has a response without error, which is null or can be read. -/
def Served (batch : List TxRef) (answer : Except TransportError (List Response)) : Prop :=
  ∃ responses, answer = .ok responses ∧ ∀ i ref, batch[i]? = some ref →
    ∃ value, Told responses (UInt64.ofNat i) (.ok value) ∧
      (value = .null ∨ ∃ r, t.read ref.hash value = .ok r)

/-- The batch fails, or an answer is missing, an error or not to be decoded. -/
inductive Broken (batch : List TxRef) : Except TransportError (List Response) → Prop
  | failed (e : TransportError) : Broken batch (.error e)
  | missing (responses : List Response) (i : Nat) (asked : i < batch.length)
      (silent : Silent responses (UInt64.ofNat i)) : Broken batch (.ok responses)
  | refused (responses : List Response) (i : Nat) (asked : i < batch.length) (e : NodeError)
      (told : Told responses (UInt64.ofNat i) (.error e)) : Broken batch (.ok responses)
  | undecodable (responses : List Response) (i : Nat) (asked : i < batch.length) (value : Json)
      (told : Told responses (UInt64.ofNat i) (.ok value)) (given : value ≠ .null)
      (undecodable : t.Undecodable value) : Broken batch (.ok responses)

def Found (batch : List TxRef) (answer : Except TransportError (List Response)) (hash : String)
    (value : Json) : Prop :=
  ∃ responses i ref, answer = .ok responses ∧ batch[i]? = some ref ∧ ref.hash = hash ∧
    Told responses (UInt64.ofNat i) (.ok value) ∧ value ≠ .null

/-- What comes of looking up receipts, given the answers to the batches that were sent. -/
structure Delivery (batches : List (List TxRef)) (answers : List (Except TransportError (List Response)))
    (result : Except RepositoryError ReceiptMap) : Prop where
  sent : answers.length ≤ batches.length
  succeeds_iff : (∃ receipts, result = .ok receipts) ↔
    answers.length = batches.length ∧ ∀ p ∈ batches.zip answers, t.Served p.1 p.2
  nodup : ∀ receipts, result = .ok receipts → (receipts.map Prod.fst).Nodup
  mem_keys_iff : ∀ receipts, result = .ok receipts → ∀ hash, hash ∈ receipts.map Prod.fst ↔
    ∃ p ∈ batches.zip answers, ∃ value, Found p.1 p.2 hash value
  mem_iff : ∀ receipts, result = .ok receipts → ∀ hash r, (hash, r) ∈ receipts ↔
    ∃ p ∈ batches.zip answers, ∃ value, Found p.1 p.2 hash value ∧ t.read hash value = .ok r
  stops : ∀ (k : Nat) batch answer, batches[k]? = some batch → answers[k]? = some answer →
    t.Broken batch answer → answers.length = k + 1 ∧ ∃ e, result = .error e

end Terms

namespace Lookup

variable {κ β : Type} (l : Lookup κ β) {responses responses' : List Response} {i : Nat}

def judge : Except NodeError Json → Except RepositoryError (Option β)
  | .error e => .error (.transport (.rpc e))
  | .ok .null => .ok none
  | .ok value => (l.read value).map some

theorem judge_given {value : Json} (given : value ≠ .null) : l.judge (.ok value) = (l.read value).map some := by
  cases value with
  | null => exact absurd rfl given
  | _ => rfl

theorem readOne_of_silent (silent : Silent responses (UInt64.ofNat i)) :
    l.readOne responses i = .error (.protocol (.unanswered l.method (UInt64.ofNat i))) := by
  rw [readOne, answer, Response.answer?_eq_none silent]
  rfl

theorem readOne_of_answer? {r : Response} (h : Response.answer? responses (UInt64.ofNat i) = some r) :
    l.readOne responses i = l.judge r.outcome := by
  rw [readOne, answer, h, judge.eq_def]
  cases houtcome : r.outcome with
  | error e => simp only [Except.bind, result, houtcome]
  | ok value => cases value <;> simp only [Except.bind, result, houtcome]

theorem readOne_of_told (distinct : Distinct responses) {outcome : Except NodeError Json}
    (told : Told responses (UInt64.ofNat i) outcome) : l.readOne responses i = l.judge outcome := by
  obtain ⟨r, hr, hid, rfl⟩ := told
  exact l.readOne_of_answer? (distinct.answer?_eq_some hr hid)

theorem readOne_eq_ok_iff (distinct : Distinct responses) {o : Option β} :
    l.readOne responses i = .ok o ↔ ∃ value, Told responses (UInt64.ofNat i) (.ok value) ∧
      l.judge (.ok value) = .ok o := by
  constructor
  · intro h
    cases hanswer : Response.answer? responses (UInt64.ofNat i) with
    | none => simp [l.readOne_of_silent (Response.silent_of_answer? hanswer)] at h
    | some r =>
      have htold := Response.told_of_answer? hanswer
      rw [l.readOne_of_answer? hanswer] at h
      cases houtcome : r.outcome with
      | error e => simp [houtcome, judge] at h
      | ok value =>
        rw [houtcome] at h htold
        exact ⟨value, htold, h⟩
  · rintro ⟨value, told, h⟩
    rw [l.readOne_of_told distinct told, h]

theorem readOne_agree (distinct : Distinct responses) (distinct' : Distinct responses')
    (agree : Agree [UInt64.ofNat i] responses responses') : l.readOne responses i = l.readOne responses' i := by
  have hi : UInt64.ofNat i ∈ [UInt64.ofNat i] := List.mem_singleton_self _
  cases hanswer : Response.answer? responses (UInt64.ofNat i) with
  | none =>
    have silent := Response.silent_of_answer? hanswer
    rw [l.readOne_of_silent silent, l.readOne_of_silent ((agree.silent_iff hi).mp silent)]
  | some r =>
    have told := Response.told_of_answer? hanswer
    rw [l.readOne_of_told distinct told, l.readOne_of_told distinct' ((agree _ hi _).mp told)]

theorem readOne_eq_some_iff (distinct : Distinct responses) {b : β} :
    l.readOne responses i = .ok (some b) ↔ ∃ value, Told responses (UInt64.ofNat i) (.ok value) ∧
      value ≠ .null ∧ l.read value = .ok b := by
  rw [l.readOne_eq_ok_iff distinct]
  refine exists_congr fun value => and_congr_right fun _ => ?_
  by_cases hnull : value = .null
  · simp [hnull, judge]
  · rw [l.judge_given hnull]
    cases l.read value <;> simp [hnull, Except.map]

end Lookup

/-- A way to get receipts: look something up for each transaction, and make the receipts of it once all
is there. -/
structure Way (κ β : Type) where
  lookup : Lookup κ β
  key : TxRef → κ
  hash : κ → String
  hash_key : ∀ ref, hash (key ref) = ref.hash
  finish : String → β → Except RepositoryError Receipt

namespace Way

variable {κ β : Type} (w : Way κ β)

def terms : Terms where
  request i ref := .positional (UInt64.ofNat i) w.lookup.method (w.lookup.params (w.key ref))
  read hash value := (w.lookup.read value).bind (w.finish hash)
  Undecodable value := ∃ e, w.lookup.read value = .error e

def complete (found : List (κ × β)) : Except RepositoryError ReceiptMap :=
  (Table.ofList (found.map fun p => (w.hash p.1, p.2))).mapM fun e => (w.finish e.1 e.2).map (e.1, ·)

def receipts {m : Type → Type} [Monad m] (node : Rpc.Transport m) (refs : List TxRef) :
    ExceptT RepositoryError m ReceiptMap := do
  let found ← w.lookup.fetch node (refs.map w.key)
  having (w.complete found)

variable {w}

theorem terms_read_iff {hash : String} {value : Json} {r : Receipt} :
    w.terms.read hash value = .ok r ↔ ∃ b, w.lookup.read value = .ok b ∧ w.finish hash b = .ok r := by
  change (w.lookup.read value).bind (w.finish hash) = .ok r ↔ _
  cases w.lookup.read value <;> simp [Except.bind]

theorem served_iff {batch : List TxRef} {responses : List Response} (distinct : Distinct responses) :
    w.terms.Served batch (.ok responses) ↔ w.lookup.Usable (batch.map w.key) (.ok responses) ∧
      ∀ (i : Nat) ref b, batch[i]? = some ref → w.lookup.readOne responses i = .ok (some b) →
        ∃ r, w.finish ref.hash b = .ok r := by
  simp only [Terms.Served, Lookup.Usable, Except.ok.injEq, exists_eq_left', List.length_map]
  constructor
  · intro served
    constructor
    · intro i hi
      obtain ⟨value, told, hvalue⟩ := served i batch[i] (List.getElem?_eq_getElem hi)
      rw [w.lookup.readOne_of_told distinct told]
      by_cases hnull : value = .null
      · exact ⟨none, by rw [hnull, Lookup.judge]⟩
      · obtain ⟨r, hr⟩ := hvalue.resolve_left hnull
        obtain ⟨b, hb, -⟩ := terms_read_iff.mp hr
        exact ⟨some b, by rw [w.lookup.judge_given hnull, hb]; rfl⟩
    · intro i ref b hi hone
      obtain ⟨value, told, hvalue⟩ := served i ref hi
      rw [w.lookup.readOne_of_told distinct told] at hone
      by_cases hnull : value = .null
      · rw [hnull, Lookup.judge] at hone
        cases hone
      · obtain ⟨r, hr⟩ := hvalue.resolve_left hnull
        obtain ⟨b', hb', hfinish⟩ := terms_read_iff.mp hr
        rw [w.lookup.judge_given hnull, hb'] at hone
        cases hone
        exact ⟨r, hfinish⟩
  · rintro ⟨usable, finish⟩ i ref hi
    obtain ⟨o, ho⟩ := usable i (List.getElem?_eq_some_iff.mp hi).1
    obtain ⟨value, told, hjudge⟩ := (w.lookup.readOne_eq_ok_iff distinct).mp ho
    refine ⟨value, told, ?_⟩
    by_cases hnull : value = .null
    · exact .inl hnull
    · rw [w.lookup.judge_given hnull] at hjudge
      obtain ⟨b, hb, rfl⟩ := (map_eq_ok_iff _).mp hjudge
      obtain ⟨r, hr⟩ := finish i ref b hi ho
      exact .inr ⟨r, terms_read_iff.mpr ⟨b, hb, hr⟩⟩

theorem not_usable_of_broken {batch : List TxRef} {answer : Except TransportError (List Response)}
    (broken : w.terms.Broken batch answer) (distinct : ∀ responses, answer = .ok responses → Distinct responses) :
    ¬ w.lookup.Usable (batch.map w.key) answer := by
  rintro ⟨responses, rfl, usable⟩
  have hdistinct := distinct responses rfl
  rw [List.length_map] at usable
  cases broken with
  | missing _ i asked silent =>
    obtain ⟨o, ho⟩ := usable i asked
    rw [w.lookup.readOne_of_silent silent] at ho
    cases ho
  | refused _ i asked e told =>
    obtain ⟨o, ho⟩ := usable i asked
    rw [w.lookup.readOne_of_told hdistinct told] at ho
    cases ho
  | undecodable _ i asked value told given undecodable =>
    obtain ⟨o, ho⟩ := usable i asked
    obtain ⟨e, he⟩ := undecodable
    rw [w.lookup.readOne_of_told hdistinct told, w.lookup.judge_given given, he] at ho
    cases ho

variable {batches : List (List TxRef)} {answers : List (Except TransportError (List Response))}
  {x : Except RepositoryError (List (κ × β))} {found : List (κ × β)}

theorem complete_eq (nodup : (found.map fun p => w.hash p.1).Nodup) :
    w.complete found = (found.map fun p => (w.hash p.1, p.2)).mapM fun e =>
      (w.finish e.1 e.2).map (e.1, ·) := by
  rw [complete, Table.ofList_eq_self]
  rw [List.map_map]
  exact nodup

theorem hashes_nodup (course : w.lookup.Course (batches.map (List.map w.key)) answers (.ok found))
    (nodup : (batches.flatten.map (·.hash)).Nodup) : (found.map fun p => w.hash p.1).Nodup := by
  have hsub := (course.keys_sublist rfl).map w.hash
  have hflatten : (batches.map (List.map w.key)).flatten.map w.hash = batches.flatten.map (·.hash) := by
    rw [← List.map_flatten, List.map_map]
    exact List.map_congr_left fun ref _ => w.hash_key ref
  rw [hflatten, List.map_map] at hsub
  exact nodup.sublist hsub

theorem mem_found_iff (course : w.lookup.Course (batches.map (List.map w.key)) answers (.ok found))
    {k : κ} {b : β} : (k, b) ∈ found ↔ ∃ batch responses, (batch, .ok responses) ∈ batches.zip answers ∧
      ∃ (i : Nat) (ref : TxRef), batch[i]? = some ref ∧ w.key ref = k ∧
        w.lookup.readOne responses i = .ok (some b) := by
  rw [course.mem_iff rfl, List.zip_map_left]
  constructor
  · rintro ⟨keys, responses, hmem, i, hi, hone⟩
    obtain ⟨⟨batch, answer⟩, hbatch, hsame⟩ := List.mem_map.mp hmem
    cases hsame
    rw [List.getElem?_map] at hi
    obtain ⟨ref, href, hkey⟩ := Option.map_eq_some_iff.mp hi
    exact ⟨batch, responses, hbatch, i, ref, href, hkey, hone⟩
  · rintro ⟨batch, responses, hbatch, i, ref, href, rfl, hone⟩
    refine ⟨batch.map w.key, responses, List.mem_map.mpr ⟨_, hbatch, rfl⟩, i, ?_, hone⟩
    rw [List.getElem?_map, href]
    rfl

theorem complete_ok_iff (course : w.lookup.Course (batches.map (List.map w.key)) answers (.ok found))
    (nodup : (batches.flatten.map (·.hash)).Nodup) :
    (∃ receipts, w.complete found = .ok receipts) ↔
      ∀ p ∈ found, ∃ r, w.finish (w.hash p.1) p.2 = .ok r := by
  have hmap : ∀ (hash : String) (read : Except RepositoryError Receipt),
      (∃ e, read.map (hash, ·) = .ok e) ↔ ∃ r, read = .ok r := by
    intro hash read
    cases read <;> simp [Except.map]
  rw [complete_eq (hashes_nodup course nodup), exists_mapM_iff, List.forall_mem_map]
  exact forall₂_congr fun p _ => hmap _ _

theorem mem_complete_iff (course : w.lookup.Course (batches.map (List.map w.key)) answers (.ok found))
    (nodup : (batches.flatten.map (·.hash)).Nodup) {receipts : ReceiptMap}
    (complete : w.complete found = .ok receipts) :
    receipts.map Prod.fst = found.map (fun p => w.hash p.1) ∧
      ∀ hash r, (hash, r) ∈ receipts ↔ ∃ p ∈ found, w.hash p.1 = hash ∧ w.finish hash p.2 = .ok r := by
  rw [complete_eq (hashes_nodup course nodup)] at complete
  constructor
  · rw [map_mapM (p := Prod.fst) (q := Prod.fst) ?_ complete, List.map_map]
    · rfl
    · intro e e' he
      obtain ⟨r, -, rfl⟩ := (map_eq_ok_iff _).mp he
      rfl
  · intro hash r
    rw [mem_mapM complete]
    simp only [List.mem_map, map_eq_ok_iff, Prod.mk.injEq]
    constructor
    · rintro ⟨_, ⟨p, hp, rfl⟩, _, hfinish, rfl, rfl⟩
      exact ⟨p, hp, rfl, hfinish⟩
    · rintro ⟨p, hp, rfl, hfinish⟩
      exact ⟨_, ⟨p, hp, rfl⟩, r, hfinish, rfl, rfl⟩

private theorem bind_eq_ok_iff {receipts : ReceiptMap} :
    x.bind w.complete = .ok receipts ↔ ∃ found, x = .ok found ∧ w.complete found = .ok receipts := by
  cases x <;> simp [Except.bind]

theorem succeeds_iff (course : w.lookup.Course (batches.map (List.map w.key)) answers x)
    (nodup : (batches.flatten.map (·.hash)).Nodup)
    (distinct : ∀ responses, .ok responses ∈ answers → Distinct responses) :
    (∃ receipts, x.bind w.complete = .ok receipts) ↔
      answers.length = batches.length ∧ ∀ p ∈ batches.zip answers, w.terms.Served p.1 p.2 := by
  have hall := course.ok_iff
  rw [List.length_map, List.zip_map_left, List.forall_mem_map] at hall
  constructor
  · rintro ⟨receipts, hreceipts⟩
    obtain ⟨found, rfl, complete⟩ := bind_eq_ok_iff.mp hreceipts
    obtain ⟨hlength, usable⟩ := hall.mp ⟨found, rfl⟩
    refine ⟨hlength, fun ⟨batch, answer⟩ hp => ?_⟩
    obtain ⟨responses, rfl, -⟩ := usable _ hp
    refine (served_iff (distinct responses (List.of_mem_zip hp).2)).mpr ⟨usable _ hp, ?_⟩
    intro i ref b href hone
    have hfound := (mem_found_iff course).mpr ⟨batch, responses, hp, i, ref, href, rfl, hone⟩
    have hfinish := (complete_ok_iff course nodup).mp ⟨receipts, complete⟩ _ hfound
    rwa [w.hash_key] at hfinish
  · rintro ⟨hlength, served⟩
    have usable : ∀ p ∈ batches.zip answers, w.lookup.Usable (p.1.map w.key) p.2 := by
      intro ⟨batch, answer⟩ hp
      obtain ⟨responses, rfl, -⟩ := served _ hp
      exact ((served_iff (distinct responses (List.of_mem_zip hp).2)).mp (served _ hp)).1
    obtain ⟨found, rfl⟩ := hall.mpr ⟨hlength, usable⟩
    refine (complete_ok_iff course nodup).mpr fun ⟨k, b⟩ hfound => ?_
    obtain ⟨batch, responses, hp, i, ref, href, rfl, hone⟩ := (mem_found_iff course).mp hfound
    rw [w.hash_key]
    exact ((served_iff (distinct responses (List.of_mem_zip hp).2)).mp (served _ hp)).2 i ref b href hone

/-- What is found is what the responses that are not null say. -/
theorem mem_found_iff_told (course : w.lookup.Course (batches.map (List.map w.key)) answers (.ok found))
    (distinct : ∀ responses, .ok responses ∈ answers → Distinct responses) {hash : String} {b : β} :
    (∃ p ∈ found, w.hash p.1 = hash ∧ p.2 = b) ↔ ∃ p ∈ batches.zip answers, ∃ value,
      Terms.Found p.1 p.2 hash value ∧ w.lookup.read value = .ok b := by
  constructor
  · rintro ⟨⟨k, b⟩, hfound, rfl, rfl⟩
    obtain ⟨batch, responses, hp, i, ref, href, rfl, hone⟩ := (mem_found_iff course).mp hfound
    obtain ⟨value, told, given, hread⟩ :=
      (w.lookup.readOne_eq_some_iff (distinct responses (List.of_mem_zip hp).2)).mp hone
    exact ⟨_, hp, value, ⟨responses, i, ref, rfl, href, (w.hash_key ref).symm, told, given⟩, hread⟩
  · rintro ⟨⟨batch, answer⟩, hp, value, ⟨responses, i, ref, rfl, href, rfl, told, given⟩, hread⟩
    have hone := (w.lookup.readOne_eq_some_iff (distinct responses (List.of_mem_zip hp).2)).mpr
      ⟨value, told, given, hread⟩
    exact ⟨_, (mem_found_iff course).mpr ⟨batch, responses, hp, i, ref, href, rfl, hone⟩, w.hash_key ref, rfl⟩

theorem delivery (course : w.lookup.Course (batches.map (List.map w.key)) answers x)
    (nodup : (batches.flatten.map (·.hash)).Nodup)
    (distinct : ∀ responses, .ok responses ∈ answers → Distinct responses) :
    w.terms.Delivery batches answers (x.bind w.complete) where
  sent := by simpa using course.length_le
  succeeds_iff := succeeds_iff course nodup distinct
  nodup receipts hreceipts := by
    obtain ⟨found, rfl, complete⟩ := bind_eq_ok_iff.mp hreceipts
    rw [(mem_complete_iff course nodup complete).1]
    exact hashes_nodup course nodup
  mem_keys_iff receipts hreceipts hash := by
    have hserved := ((succeeds_iff course nodup distinct).mp ⟨receipts, hreceipts⟩).2
    obtain ⟨found, rfl, complete⟩ := bind_eq_ok_iff.mp hreceipts
    rw [(mem_complete_iff course nodup complete).1, List.mem_map]
    constructor
    · rintro ⟨p, hp, hhash⟩
      obtain ⟨q, hq, value, hfound, -⟩ := (mem_found_iff_told course distinct).mp ⟨p, hp, hhash, rfl⟩
      exact ⟨q, hq, value, hfound⟩
    · rintro ⟨⟨batch, answer⟩, hq, value, hfound⟩
      obtain ⟨responses, i, ref, rfl, href, -, told, given⟩ := id hfound
      have hdistinct := distinct responses (List.of_mem_zip hq).2
      -- As the call succeeds, the batch was served, and what is told of the hash can be read.
      obtain ⟨⟨_, hsame, usable⟩, -⟩ := (served_iff hdistinct).mp (hserved _ hq)
      cases hsame
      rw [List.length_map] at usable
      obtain ⟨o, ho⟩ := usable i (List.getElem?_eq_some_iff.mp href).1
      rw [w.lookup.readOne_of_told hdistinct told, w.lookup.judge_given given] at ho
      obtain ⟨b, hread, -⟩ := (map_eq_ok_iff _).mp ho
      obtain ⟨p, hp, hhash, -⟩ := (mem_found_iff_told course distinct).mpr ⟨_, hq, value, hfound, hread⟩
      exact ⟨p, hp, hhash⟩
  mem_iff receipts hreceipts hash r := by
    obtain ⟨found, rfl, complete⟩ := bind_eq_ok_iff.mp hreceipts
    rw [(mem_complete_iff course nodup complete).2]
    simp only [terms_read_iff]
    constructor
    · rintro ⟨p, hp, hhash, hfinish⟩
      obtain ⟨q, hq, value, hfound, hread⟩ := (mem_found_iff_told course distinct).mp ⟨p, hp, hhash, rfl⟩
      exact ⟨q, hq, value, hfound, p.2, hread, hfinish⟩
    · rintro ⟨q, hq, value, hfound, b, hread, hfinish⟩
      obtain ⟨p, hp, hhash, rfl⟩ := (mem_found_iff_told course distinct).mpr ⟨q, hq, value, hfound, hread⟩
      exact ⟨p, hp, hhash, hfinish⟩
  stops k batch answer hbatch hanswer broken := by
    have hdistinct : ∀ responses, answer = .ok responses → Distinct responses := by
      rintro responses rfl
      exact distinct responses (List.mem_of_getElem? hanswer)
    have hkeys : (batches.map (List.map w.key))[k]? = some (batch.map w.key) := by
      rw [List.getElem?_map, hbatch]
      rfl
    obtain ⟨hlength, e, rfl⟩ := course.stops hkeys hanswer (not_usable_of_broken broken hdistinct)
    exact ⟨hlength, e, rfl⟩

theorem requests_map (w : Way κ β) (batch : List TxRef) :
    w.lookup.requests (batch.map w.key) = w.terms.requests batch := by
  rw [Lookup.requests, List.zipIdx_map, List.map_map]
  rfl

/-- What is written down when receipts are looked up, and what comes of it. -/
theorem receipts_course {σ : Type} (w : Way κ β) (chain : String) (c : ChainSettings (StateM σ))
    (refs : List TxRef) (s : σ) :
    ∃ answers x after, (w.receipts (Registry.watchedChain chain c).transport refs).run.run s =
        ⟨x.bind w.complete, List.zipWith (fun batch answer => .batched chain (w.terms.requests batch) answer)
          (pieces batchSize refs) answers, after⟩ ∧
      w.lookup.Course ((pieces batchSize refs).map (List.map w.key)) answers x := by
  have hkeys : ∀ keys ∈ (pieces batchSize refs).map (List.map w.key), keys ≠ [] := by
    rw [List.forall_mem_map]
    intro batch hbatch
    simpa using (length_of_mem_pieces (by decide) hbatch).1
  obtain ⟨answers, x, after, hrun, course⟩ := w.lookup.fetchPieces_course chain c hkeys s
  refine ⟨answers, x, after, ?_, course⟩
  rw [List.zipWith_map_left] at hrun
  simp only [requests_map] at hrun
  have hfetch : w.lookup.fetch (Registry.watchedChain chain c).transport (refs.map w.key) =
      w.lookup.fetchPieces (Registry.watchedChain chain c).transport
        ((pieces batchSize refs).map (List.map w.key)) := by
    rw [Lookup.fetch, pieces_map (by decide)]
  rw [receipts, hfetch]
  exact Journal.run_bind_mk hrun w.complete

def direct (lookup : Lookup TxRef Receipt) : Way TxRef Receipt where
  lookup
  key := id
  hash := TxRef.hash
  hash_key _ := rfl
  finish _ r := .ok r

theorem complete_direct (lookup : Lookup TxRef Receipt) (found : List (TxRef × Receipt)) :
    (direct lookup).complete found = .ok (Table.ofList (found.map fun p => (p.1.hash, p.2))) := by
  have hall : (direct lookup).complete found =
      (Table.ofList (found.map fun p => (p.1.hash, p.2))).mapM fun e => pure (id e) := rfl
  rw [hall, List.mapM_pure, List.map_id]
  rfl

theorem receipts_direct {m : Type → Type} [Monad m] (lookup : Lookup TxRef Receipt) (node : Rpc.Transport m)
    (refs : List TxRef) : (direct lookup).receipts node refs = (do
      let found ← lookup.fetch node refs
      return Table.ofList (found.map fun p => (p.1.hash, p.2))) := by
  unfold receipts
  simp only [complete_direct]
  rw [show refs.map (direct lookup).key = refs from List.map_id refs]
  rfl

end Way

end Family

namespace ChainFamily

open Family

/-- How a family asks for receipts on a chain with this number. -/
def terms (f : ChainFamily) (chainId : UInt64) : Terms :=
  match f with
  | .evm =>
    { request i ref := .positional (UInt64.ofNat i) "eth_getTransactionReceipt" [.str ref.hash]
      read _ value := Evm.readReceipt chainId value
      Undecodable value := ∃ e, Evm.readReceipt chainId value = .error e }
  | .solana =>
    { request i ref := .positional (UInt64.ofNat i) "getTransaction" [.str ref.hash,
        .object [("encoding", .str "json"), ("maxSupportedTransactionVersion", .int 0)]]
      read hash value := do
        let tx ← readPart "transaction" Solana.RawTransaction.ofJson? value
        Solana.receiptOf hash tx chainId
      Undecodable value := Solana.RawTransaction.ofJson? value = none }
  | .near =>
    { request i ref := .positional (UInt64.ofNat i) "EXPERIMENTAL_tx_status"
        [.str ref.hash, .strOrNull ref.sender]
      read _ value := Near.readReceipt chainId value
      Undecodable value := ∃ e, Near.readReceipt chainId value = .error e }

theorem terms_evm (chainId : UInt64) : evm.terms chainId = (Way.direct (Evm.receiptLookup chainId)).terms :=
  Terms.ext rfl (funext fun _ => funext fun value => (bind_pure (Evm.readReceipt chainId value)).symm) rfl

theorem terms_near (chainId : UInt64) : near.terms chainId = (Way.direct (Near.receiptLookup chainId)).terms :=
  Terms.ext rfl (funext fun _ => funext fun value => (bind_pure (Near.readReceipt chainId value)).symm) rfl

def solanaWay (chainId : UInt64) : Way String Solana.RawTransaction where
  lookup := Solana.transactionLookup
  key := TxRef.hash
  hash := id
  hash_key _ := rfl
  finish signature tx := Solana.receiptOf signature tx chainId

theorem terms_solana (chainId : UInt64) : solana.terms chainId = (solanaWay chainId).terms := by
  refine Terms.ext rfl rfl (funext fun value => propext ?_)
  change Solana.RawTransaction.ofJson? value = none ↔
    ∃ e, readPart "transaction" Solana.RawTransaction.ofJson? value = .error e
  unfold readPart
  cases Solana.RawTransaction.ofJson? value <;> simp [fault]

variable {σ : Type} {chains : Registry (StateM σ)} {chain : String} {c : ChainSettings (StateM σ)}

theorem receipts_evm (known : chains.get chain = .ok c) (refs : TxRefSet) :
    Evm.receipts chains.watched chain refs = (Way.direct (Evm.receiptLookup c.chainId)).receipts
      (Registry.watchedChain chain c).transport refs.toList := by
  rw [Way.receipts_direct]
  simp only [Evm.receipts, serving, Registry.get_watched known]
  rfl

theorem receipts_solana (known : chains.get chain = .ok c) (refs : TxRefSet) :
    Solana.receipts chains.watched chain refs = (solanaWay c.chainId).receipts
      (Registry.watchedChain chain c).transport refs.toList := by
  have hcomplete : ∀ found, (solanaWay c.chainId).complete found = (Table.ofList found).mapM fun e =>
      (Solana.receiptOf e.1 e.2 c.chainId).map (e.1, ·) := by
    intro found
    rw [Way.complete, show found.map (fun p => ((solanaWay c.chainId).hash p.1, p.2)) = found from
      List.map_id found]
    rfl
  simp only [Solana.receipts, serving, Registry.get_watched known, Way.receipts, hcomplete]
  rfl

theorem receipts_near (known : chains.get chain = .ok c) {refs : TxRefSet}
    (addressed : ∀ ref ∈ refs.toList, ref.sender ≠ none) :
    Near.receipts chains.watched chain refs = (Way.direct (Near.receiptLookup c.chainId)).receipts
      (Registry.watchedChain chain c).transport refs.toList := by
  have hall : refs.toList.find? (·.sender.isNone) = none := by
    rw [List.find?_eq_none]
    intro ref href hnone
    exact addressed ref href (Option.isNone_iff_eq_none.mp hnone)
  rw [Way.receipts_direct]
  simp only [Near.receipts, serving, Registry.get_watched known, hall]
  rfl

variable [Clock (StateM σ)]

def receiptsOf (f : ChainFamily) (chains : Registry (StateM σ)) (chain : String) (refs : TxRefSet) (s : σ) :
    Journal.Page Registry.Deed σ (Except RepositoryError ReceiptMap) :=
  ((f.repository chains.watched).receipts chain refs).run s

/-- Near needs the sender of every transaction. -/
def Addressed (f : ChainFamily) (refs : TxRefSet) : Prop :=
  f = .near → ∀ ref ∈ refs.toList, ref.sender ≠ none

theorem receiptsOf_unaddressed (known : chains.get chain = .ok c) {refs : TxRefSet}
    (unaddressed : ∃ ref ∈ refs.toList, ref.sender = none) (s : σ) :
    (near.receiptsOf chains chain refs s).deeds = [] ∧
      ∃ e, (near.receiptsOf chains chain refs s).result = .error e := by
  cases hfind : refs.toList.find? (·.sender.isNone) with
  | none =>
    obtain ⟨ref, href, hsender⟩ := unaddressed
    exact absurd (Option.isNone_iff_eq_none.mpr hsender) (List.find?_eq_none.mp hfind ref href)
  | some ref =>
    have hthrow : Near.receipts chains.watched chain refs = throw (.invalidArgument
        ("near receipt lookup for " ++ ref.hash ++ " needs the sender account")) := by
      simp only [Near.receipts, serving, Registry.get_watched known, hfind]
    change ((Near.receipts chains.watched chain refs).run.run s).deeds = [] ∧
      ∃ e, ((Near.receipts chains.watched chain refs).run.run s).result = .error e
    rw [hthrow]
    exact ⟨rfl, _, rfl⟩

theorem exists_way (f : ChainFamily) (chainId : UInt64) :
    ∃ (κ β : Type) (w : Way κ β), f.terms chainId = w.terms ∧
      ∀ (chains : Registry (StateM σ)) (chain : String) (c : ChainSettings (StateM σ)) (refs : TxRefSet)
        (s : σ), chains.get chain = .ok c → c.chainId = chainId → f.Addressed refs →
          f.receiptsOf chains chain refs s =
            (w.receipts (Registry.watchedChain chain c).transport refs.toList).run.run s := by
  cases f with
  | evm =>
    refine ⟨_, _, Way.direct (Evm.receiptLookup chainId), terms_evm chainId, ?_⟩
    rintro chains chain c refs s known rfl -
    rw [← receipts_evm known]
    rfl
  | solana =>
    refine ⟨_, _, solanaWay chainId, terms_solana chainId, ?_⟩
    rintro chains chain c refs s known rfl -
    rw [← receipts_solana known]
    rfl
  | near =>
    refine ⟨_, _, Way.direct (Near.receiptLookup chainId), terms_near chainId, ?_⟩
    rintro chains chain c refs s known rfl addressed
    rw [← receipts_near known (addressed rfl)]
    rfl

/-- Answers to a batch that differ in the order of their responses at most. -/
inductive Shuffled : Except TransportError (List Response) → Except TransportError (List Response) → Prop
  | failed (e : TransportError) : Shuffled (.error e) (.error e)
  | permuted {responses responses' : List Response} (same : responses.Perm responses') :
      Shuffled (.ok responses) (.ok responses')

theorem Shuffled.alike {κ β : Type} (l : Lookup κ β) {a a' : Except TransportError (List Response)}
    (h : Shuffled a a') (distinct : ∀ responses, a = .ok responses → Distinct responses) : l.Alike a a' := by
  cases h with
  | failed e => exact .failed e
  | @permuted responses responses' same =>
    have hdistinct : (responses.filterMap (·.id.number?)).Nodup := distinct responses rfl
    have hdistinct' : (responses'.filterMap (·.id.number?)).Nodup :=
      (same.filterMap (·.id.number?)).nodup_iff.mp hdistinct
    exact .given fun i => l.readOne_agree hdistinct hdistinct' (Varied.permuted same).agree

/-- The answers to the batches that were sent. -/
def answersOf (deeds : List Registry.Deed) : List (Except TransportError (List Response)) :=
  deeds.filterMap fun
    | .batched _ _ answer => some answer
    | _ => none

theorem answersOf_batched (requests : List TxRef → List Request) {batches : List (List TxRef)}
    {answers : List (Except TransportError (List Response))} (h : answers.length ≤ batches.length) :
    answersOf (List.zipWith (fun batch answer => .batched chain (requests batch) answer) batches answers) =
      answers := by
  induction answers generalizing batches with
  | nil => simp [answersOf]
  | cons answer answers ih =>
    cases batches with
    | nil => simp at h
    | cons batch batches => exact congrArg (answer :: ·) (ih (Nat.le_of_succ_le_succ h))

/-- The refs are sent in order, in batches of ten and a shorter last one. Receipts come only if every
answer can be read, and then for the hashes that the node knows; the first batch with an answer that is
broken is the last one. The order of the responses in an answer does not matter. -/
theorem receipts_in_batches (f : ChainFamily) (known : chains.get chain = .ok c) (refs : TxRefSet) (s : σ) :
    let page := f.receiptsOf chains chain refs s
    let batches := pieces batchSize refs.toList
    let answers := answersOf page.deeds
    (f = .near → (∃ ref ∈ refs.toList, ref.sender = none) →
      page.deeds = [] ∧ ∃ e, page.result = .error e) ∧
    batches.flatten = refs.toList ∧ batches.length = (refs.toList.length + 9) / 10 ∧
    (∀ batch ∈ batches, batch ≠ [] ∧ batch.length ≤ 10) ∧
    (∀ batch ∈ batches.dropLast, batch.length = 10) ∧
    (f.Addressed refs →
      page.deeds = List.zipWith
        (fun batch answer => .batched chain ((f.terms c.chainId).requests batch) answer) batches answers ∧
      ((refs.toList.map (·.hash)).Nodup → (∀ responses, .ok responses ∈ answers → Distinct responses) →
        (f.terms c.chainId).Delivery batches answers page.result ∧
        ((∃ receipts, page.result = .ok receipts) → page.deeds.length = (refs.toList.length + 9) / 10) ∧
        ∀ (chains' : Registry (StateM σ)) chain' c' s', chains'.get chain' = .ok c' →
          c'.chainId = c.chainId → let page' := f.receiptsOf chains' chain' refs s'
          (∀ (k : Nat) a a', answers[k]? = some a → (answersOf page'.deeds)[k]? = some a' → Shuffled a a') →
            page'.result = page.result ∧ page'.deeds.length = page.deeds.length)) := by
  intro page batches answers
  have hten : batchSize ≠ 0 := by decide
  have hlength := length_pieces hten refs.toList
  refine ⟨?_, flatten_pieces hten refs.toList, hlength, fun batch => length_of_mem_pieces hten,
    fun batch => length_of_mem_dropLast_pieces hten, fun addressed => ?_⟩
  · rintro rfl unaddressed
    exact receiptsOf_unaddressed known unaddressed s
  · obtain ⟨κ, β, w, hterms, hway⟩ := @exists_way σ _ f c.chainId
    obtain ⟨given, x, after, hrun, course⟩ := w.receipts_course chain c refs.toList s
    have hpage : page = _ := (hway chains chain c refs s known rfl addressed).trans hrun
    have hsent : given.length ≤ batches.length := by simpa using course.length_le
    have hanswers : answers = given := by
      change answersOf page.deeds = given
      rw [hpage]
      exact answersOf_batched _ hsent
    have hcount : page.deeds.length = given.length := by
      rw [hpage, List.length_zipWith, Nat.min_eq_right hsent]
    rw [hterms, hanswers]
    refine ⟨by rw [hpage], fun nodup distinct => ?_⟩
    rw [← flatten_pieces hten refs.toList] at nodup
    have hdelivery := Way.delivery course nodup distinct
    have hresult : page.result = x.bind w.complete := by rw [hpage]
    rw [hresult]
    refine ⟨hdelivery, fun succeeds => ?_, ?_⟩
    · rw [hcount, (hdelivery.succeeds_iff.mp succeeds).1]
      exact hlength
    · intro chains' chain' c' s' known' sameId page' shuffled
      obtain ⟨given', x', after', hrun', course'⟩ := w.receipts_course chain' c' refs.toList s'
      have hpage' : page' = _ := (hway chains' chain' c' refs s' known' sameId addressed).trans hrun'
      have hsent' : given'.length ≤ batches.length := by simpa using course'.length_le
      have hanswers' : answersOf page'.deeds = given' := by
        rw [hpage']
        exact answersOf_batched _ hsent'
      rw [hanswers'] at shuffled
      obtain ⟨rfl, hsame⟩ := course.agree course' fun k a a' ha ha' => by
        refine (shuffled k a a' ha ha').alike w.lookup ?_
        rintro responses rfl
        exact distinct responses (List.mem_of_getElem? ha)
      rw [hcount, hsame, hpage', List.length_zipWith, Nat.min_eq_right hsent']
      exact ⟨rfl, rfl⟩

@[reducible] private def midnight : Clock (StateM Unit) where
  now := pure 0
  sleep _ := pure ()
  wall := pure ⟨2024, 1, 1, 0, 0⟩
  unixTime := pure 1704067200

private def eleven : TxRefSet where
  toList := ["a", "b", "c", "d", "e", "f", "g", "h", "i", "j", "k"].map (⟨·, none⟩)
  sorted := by decide +kernel

private def backwards : ChainSettings (StateM Unit) where
  chainId := 1
  transport :=
    { url := ""
      send _ := pure (.error .allProvidersDown)
      batch rs := pure (.ok (rs.reverse.map fun r =>
        { id := r.id
          result := if r.id = .number 0 then some (.obj [("transactionHash", .str "a"),
            ("blockNumber", .str "0x1"), ("blockHash", .str "b"), ("from", .str "s")]) else none }))
      health := pure .healthy }

theorem eleven_receipts_in_batches : letI := midnight
    let page := evm.receiptsOf [("eth", backwards)] "eth" eleven ()
    evm.Addressed eleven ∧ (eleven.toList.map (·.hash)).Nodup ∧
      (∀ responses, .ok responses ∈ answersOf page.deeds → Distinct responses) ∧
      page.deeds.length = 2 ∧ ∃ receipts, page.result = .ok receipts ∧ (receipts.map Prod.fst).Nodup ∧
        ∀ hash, hash ∈ receipts.map Prod.fst ↔ ∃ p ∈ (pieces batchSize eleven.toList).zip (answersOf page.deeds),
          ∃ value, Terms.Found p.1 p.2 hash value := by
  let _ := midnight
  have known : Registry.get [("eth", backwards)] "eth" = .ok backwards := rfl
  have addressed : evm.Addressed eleven := fun h => nomatch h
  have nodup : (eleven.toList.map (·.hash)).Nodup := by decide +kernel
  have hids : (answersOf (evm.receiptsOf [("eth", backwards)] "eth" eleven ()).deeds).all (fun
      | .ok responses => decide (responses.filterMap (·.id.number?)).Nodup
      | .error _ => false) = true := by decide +kernel
  have distinct : ∀ responses,
      .ok responses ∈ answersOf (evm.receiptsOf [("eth", backwards)] "eth" eleven ()).deeds →
        Distinct responses := by
    intro responses hmem
    have hnodup : (responses.filterMap (·.id.number?)).Nodup :=
      of_decide_eq_true (List.all_eq_true.mp hids _ hmem)
    exact hnodup
  have hsucceeds : (evm.receiptsOf [("eth", backwards)] "eth" eleven ()).result.toOption.isSome = true := by
    decide +kernel
  obtain ⟨-, -, -, -, -, hsent⟩ := receipts_in_batches evm known eleven ()
  obtain ⟨hdelivery, hcount, -⟩ := (hsent addressed).2 nodup distinct
  cases hresult : (evm.receiptsOf [("eth", backwards)] "eth" eleven ()).result with
  | error e =>
    rw [hresult] at hsucceeds
    cases hsucceeds
  | ok receipts =>
    refine ⟨addressed, nodup, distinct, hcount ⟨receipts, hresult⟩, receipts, hresult, ?_⟩
    exact ⟨hdelivery.nodup receipts hresult, hdelivery.mem_keys_iff receipts hresult⟩

end ChainFamily

end ChainFeed

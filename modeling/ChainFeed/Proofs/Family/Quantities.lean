import ChainFeed.Proofs.Family.Receipts
import ChainFeed.Proofs.Text.Quantity

/-!
# The numbers that quantities stand for

A node of the Ethereum family writes its numbers as quantities. Each record is read in steps: some parts
have to be there, some quantities have to be read, and records that it consists of have to be read in the
same way. `Family.Reads` tells what such a reading does, and is put together along the steps. So every
number of a record is the one that its quantity denotes, except for the time of a block, which is the
number as a signed word.
-/

namespace ChainFeed

open Quantity (Denotes)

namespace Family

/-- A reading that needs some parts and some quantities. What it accepts is whole, its quantities denote
words, and what is made of it has its meaning. What it does not accept is faulty, and when nothing is
missing the fault names a quantity that denotes no word. -/
structure Reads {α : Type} (read : Except RepositoryError α) (whole : Prop) (quantities : List String)
    (means : α → Prop) : Prop where
  ok : ∀ a, read = .ok a → whole ∧ (∀ text ∈ quantities, ∃ n < 2 ^ 64, Denotes text n) ∧ means a
  error : ∀ e, read = .error e → (∃ f, e = .protocol f) ∧
    (whole → ∃ field, ∃ text ∈ quantities, e = .protocol (.badHex field text) ∧
      ∀ n < 2 ^ 64, ¬ Denotes text n)

section

variable {ρ α : Type} (raw? : Json → Option ρ)

/-- The quantities of the record that a JSON value stands for, if it stands for one. -/
def quantitiesOf (quantities : ρ → List String) (j : Json) : List String := ((raw? j).map quantities).getD []

/-- What is read from a JSON value has the meaning of the record that the value stands for. -/
def MeansOf (means : ρ → α → Prop) (j : Json) (a : α) : Prop := ∃ raw, raw? j = some raw ∧ means raw a

end

namespace Reads

variable {α β ρ : Type} {read : Except RepositoryError α} {whole whole' : Prop}
  {quantities quantities' : List String} {means : α → Prop}

theorem of_eq (hwhole : whole ↔ whole') (hquantities : quantities = quantities')
    (h : Reads read whole quantities means) : Reads read whole' quantities' means := by
  rw [← propext hwhole, ← hquantities]
  exact h

protected theorem pure {a : α} (h : means a) : Reads (pure a) True [] means where
  ok := by
    rintro _ ⟨⟩
    exact ⟨trivial, by simp, h⟩
  error := by
    rintro _ ⟨⟩

protected theorem present (subject part : String) (o : Option α) :
    Reads (present subject part o) (o.isSome = true) [] (o = some ·) := by
  cases o with
  | none =>
    refine ⟨fun _ h => (nomatch h), fun e h => ?_⟩
    cases h
    exact ⟨⟨_, rfl⟩, fun h => nomatch h⟩
  | some a =>
    refine ⟨fun _ h => ?_, fun _ h => nomatch h⟩
    cases h
    exact ⟨rfl, by simp, rfl⟩

protected theorem quantity (field text : String) :
    Reads (quantity field text) True [text] (fun n => Denotes text n.toNat) := by
  unfold Family.quantity
  cases hread : Quantity.read? text with
  | none =>
    refine ⟨fun _ h => (nomatch h), fun e h => ?_⟩
    cases h
    exact ⟨⟨_, rfl⟩, fun _ =>
      ⟨field, text, List.mem_singleton_self text, rfl, Quantity.read?_eq_none_iff.mp hread⟩⟩
  | some n =>
    refine ⟨fun _ h => ?_, fun _ h => nomatch h⟩
    cases h
    have hdenotes := Quantity.read?_eq_some_iff.mp hread
    exact ⟨trivial, by simpa using ⟨n.toNat, n.toNat_lt, hdenotes⟩, hdenotes⟩

/-- The second of two readings may use what the first has read. -/
protected theorem bind {next : α → Except RepositoryError β} {means' : β → Prop}
    (h : Reads read whole quantities means)
    (hnext : ∀ a, means a → Reads (next a) whole' quantities' means') :
    Reads (read >>= next) (whole ∧ whole') (quantities ++ quantities') means' := by
  cases hread : read with
  | error e =>
    obtain ⟨hfault, hnamed⟩ := h.error e hread
    refine ⟨fun _ hb => (nomatch hb), fun _ he => ?_⟩
    cases he
    refine ⟨hfault, fun hwhole => ?_⟩
    obtain ⟨field, text, htext, hbad⟩ := hnamed hwhole.1
    exact ⟨field, text, List.mem_append_left _ htext, hbad⟩
  | ok a =>
    obtain ⟨hwhole, hall, hmeans⟩ := h.ok a hread
    refine ⟨fun b hb => ?_, fun e he => ?_⟩
    · obtain ⟨hwhole', hall', hmeans'⟩ := (hnext a hmeans).ok b hb
      exact ⟨⟨hwhole, hwhole'⟩, List.forall_mem_append.mpr ⟨hall, hall'⟩, hmeans'⟩
    · obtain ⟨hfault, hnamed⟩ := (hnext a hmeans).error e he
      refine ⟨hfault, fun hwhole => ?_⟩
      obtain ⟨field, text, htext, hbad⟩ := hnamed hwhole.2
      exact ⟨field, text, List.mem_append_right _ htext, hbad⟩

protected theorem map {g : α → β} {means' : β → Prop} (h : Reads read whole quantities means)
    (hmeans : ∀ a, means a → means' (g a)) : Reads (read.map g) whole quantities means' where
  ok := by
    intro b hb
    cases hread : read with
    | error e =>
      rw [hread] at hb
      cases hb
    | ok a =>
      rw [hread] at hb
      cases hb
      obtain ⟨hwhole, hall, ha⟩ := h.ok a hread
      exact ⟨hwhole, hall, hmeans a ha⟩
  error := fun e he => h.error e ((map_eq_error_iff g).mp he)

protected theorem record {what : String} {raw? : Json → Option ρ} {next : ρ → Except RepositoryError α}
    {whole : ρ → Prop} {quantities : ρ → List String} {means : ρ → α → Prop}
    (h : ∀ raw, Reads (next raw) (whole raw) (quantities raw) (means raw)) (j : Json) :
    Reads (readPart what raw? j >>= next) (∃ raw, raw? j = some raw ∧ whole raw) (quantitiesOf raw? quantities j)
      (MeansOf raw? means j) := by
  unfold readPart quantitiesOf MeansOf
  cases hraw : raw? j with
  | none =>
    refine ⟨fun _ h => (nomatch h), fun e h => ?_⟩
    cases h
    exact ⟨⟨_, rfl⟩, fun ⟨_, hnone, _⟩ => nomatch hnone⟩
  | some raw =>
    refine ⟨fun a ha => ?_, fun e he => ?_⟩
    · obtain ⟨hwhole, hall, hmeans⟩ := (h raw).ok a ha
      exact ⟨⟨raw, rfl, hwhole⟩, hall, raw, rfl, hmeans⟩
    · obtain ⟨hfault, hnamed⟩ := (h raw).error e he
      refine ⟨hfault, ?_⟩
      rintro ⟨_, ⟨⟩, hwhole⟩
      exact hnamed hwhole

protected theorem simpleRecord {what : String} {raw? : Json → Option ρ} {next : ρ → Except RepositoryError α}
    {quantities : ρ → List String} {means : ρ → α → Prop}
    (h : ∀ raw, Reads (next raw) True (quantities raw) (means raw)) (j : Json) :
    Reads (readPart what raw? j >>= next) (∃ raw, raw? j = some raw) (quantitiesOf raw? quantities j)
      (MeansOf raw? means j) :=
  .of_eq (exists_congr fun _ => (and_true _).to_iff) rfl (.record h j)

protected theorem mapM {g : ρ → Except RepositoryError α} {whole : ρ → Prop} {quantities : ρ → List String}
    {means : ρ → α → Prop} (h : ∀ x, Reads (g x) (whole x) (quantities x) (means x)) (xs : List ρ) :
    Reads (xs.mapM g) (∀ x ∈ xs, whole x) (xs.flatMap quantities) (List.Forall₂ means xs) where
  ok := by
    intro ys hys
    have hall := mapM_eq_ok_iff.mp hys
    have hread : ∀ x ∈ xs, ∃ y, g x = .ok y := exists_mapM_iff.mp ⟨ys, hys⟩
    refine ⟨fun x hx => ?_, fun text htext => ?_, hall.imp fun x y hy => ((h x).ok y hy).2.2⟩
    · obtain ⟨y, hy⟩ := hread x hx
      exact ((h x).ok y hy).1
    · obtain ⟨x, hx, htext⟩ := List.mem_flatMap.mp htext
      obtain ⟨y, hy⟩ := hread x hx
      exact ((h x).ok y hy).2.1 text htext
  error := by
    intro e he
    obtain ⟨i, x, hx, he, -⟩ := mapM_eq_error_iff.mp he
    have hmem := List.mem_of_getElem? hx
    obtain ⟨hfault, hnamed⟩ := (h x).error e he
    refine ⟨hfault, fun hwhole => ?_⟩
    obtain ⟨field, text, htext, hbad⟩ := hnamed (hwhole x hmem)
    exact ⟨field, text, List.mem_flatMap.mpr ⟨x, hmem, htext⟩, hbad⟩

theorem needed {next : UInt64 → Except RepositoryError α} (subject part field : String) (o : Option String)
    (h : ∀ text n, o = some text → Denotes text n.toNat → Reads (next n) whole quantities means) :
    Reads (present subject part o >>= fun text => quantity field text >>= next) (o.isSome = true ∧ whole)
      (o.toList ++ quantities) means := by
  refine (Reads.present subject part o).bind fun text htext => ?_
  refine .of_eq (true_and whole).to_iff ?_ ((Reads.quantity field text).bind fun n hn => h text n htext hn)
  rw [htext]
  rfl

theorem optional {next : β → Except RepositoryError α} (field : String) (g : UInt64 → β) (missing : β)
    (o : Option String)
    (hsome : ∀ text n, o = some text → Denotes text n.toNat → Reads (next (g n)) whole quantities means)
    (hnone : o = none → Reads (next missing) whole quantities means) :
    Reads (match o with
        | some text => (quantity field text).map g >>= next
        | none => pure missing >>= next) whole (o.toList ++ quantities) means := by
  cases o with
  | none => exact hnone rfl
  | some text =>
    have hread : Reads ((quantity field text).map g) True [text] fun b => ∃ n, b = g n ∧ Denotes text n.toNat :=
      (Reads.quantity field text).map fun n hn => ⟨n, rfl, hn⟩
    refine .of_eq (true_and whole).to_iff rfl (hread.bind ?_)
    rintro _ ⟨n, rfl, hn⟩
    exact hsome text n rfl hn

end Reads

end Family

namespace Evm

open Family

/-- The text is the decimal form of the number that the quantity denotes. -/
def IsIndex (text index : String) : Prop := ∃ n, Denotes text n ∧ index = Nat.repr n

def RawLog.quantities (raw : RawLog) : List String :=
  [raw.blockNumber, raw.transactionIndex, raw.logIndex]

structure RawLog.Means (raw : RawLog) (l : Log) : Prop where
  blockNumber : Denotes raw.blockNumber l.blockNumber.toNat
  transactionIndex : IsIndex raw.transactionIndex l.transactionIndex
  logIndex : Denotes raw.logIndex l.logIndex.toNat

theorem RawLog.normalize_reads (chainId : UInt64) (raw : RawLog) :
    Reads (raw.normalize chainId) True raw.quantities raw.Means :=
  .of_eq (by simp) rfl <|
    (Reads.quantity _ _).bind fun _ hblock => (Reads.quantity _ _).bind fun _ htransaction =>
      (Reads.quantity _ _).bind fun _ hlog => .pure ⟨hblock, ⟨_, htransaction, rfl⟩, hlog⟩

theorem logsAnswer_reads (chainId : UInt64) (answer : Json) :
    Reads (readPart "eth_getLogs result" (Json.list? RawLog.ofJson?) answer >>= (·.mapM (·.normalize chainId)))
      (∃ raw, Json.list? RawLog.ofJson? answer = some raw)
      (quantitiesOf (Json.list? RawLog.ofJson?) (·.flatMap RawLog.quantities) answer)
      (MeansOf (Json.list? RawLog.ofJson?) (List.Forall₂ RawLog.Means) answer) :=
  .simpleRecord (fun raw => .of_eq (by simp) rfl (Reads.mapM (RawLog.normalize_reads chainId) raw)) answer

def RawTransaction.quantities (raw : RawTransaction) : List String := raw.transactionIndex.toList

structure RawTransaction.Means (blockNumber : UInt64) (raw : RawTransaction) (t : Transaction) : Prop where
  blockNumber : t.blockNumber = blockNumber
  indexed : ∀ text, raw.transactionIndex = some text → IsIndex text t.transactionIndex
  unindexed : raw.transactionIndex = none → t.transactionIndex = ""

theorem readTransaction_reads (number : UInt64) (hash : String) (j : Json) :
    Reads (readTransaction number hash j) (∃ raw, RawTransaction.ofJson? j = some raw)
      (quantitiesOf RawTransaction.ofJson? RawTransaction.quantities j)
      (MeansOf RawTransaction.ofJson? (RawTransaction.Means number) j) := by
  refine .simpleRecord (fun raw => ?_) j
  refine .of_eq Iff.rfl (List.append_nil _) (Reads.optional _ _ _ raw.transactionIndex (fun text n htext hn => ?_)
    fun hnone => ?_)
  · refine .pure ⟨rfl, fun text' htext' => ?_, fun hnone => ?_⟩
    · cases htext.symm.trans htext'
      exact ⟨_, hn, rfl⟩
    · cases htext.symm.trans hnone
  · refine .pure ⟨rfl, fun text' htext' => ?_, fun _ => rfl⟩
    cases hnone.symm.trans htext'

/-- What a block needs; its transactions are needed only when `full`. -/
structure RawBlock.Whole (full : Bool) (raw : RawBlock) : Prop where
  number : raw.number.isSome = true
  hash : (nonEmpty raw.hash).isSome = true
  timestamp : raw.timestamp.isSome = true
  transactions : full = true → ∀ j ∈ raw.transactions, ∃ t, RawTransaction.ofJson? j = some t

def RawBlock.quantities (full : Bool) (raw : RawBlock) : List String :=
  raw.number.toList ++ raw.timestamp.toList ++
    if full then raw.transactions.flatMap (quantitiesOf RawTransaction.ofJson? RawTransaction.quantities) else []

/-- The number as a signed word. -/
def wrapped (n : Nat) : Int := if n < 2 ^ 63 then n else n - 2 ^ 64

theorem toInt_toInt64 (n : UInt64) : n.toInt64.toInt = wrapped n.toNat := by
  change n.toBitVec.toInt = _
  rw [BitVec.toInt_eq_toNat_cond, wrapped]
  have htoNat : n.toBitVec.toNat = n.toNat := rfl
  rw [htoNat]
  split <;> split <;> omega

/-- The block and its transactions have the numbers that their quantities denote, its time as a signed word. -/
structure RawBlock.Means (full : Bool) (raw : RawBlock) (b : Block) : Prop where
  number : ∃ text, raw.number = some text ∧ Denotes text b.number.toNat
  timestamp : ∃ text n, raw.timestamp = some text ∧ Denotes text n ∧ n < 2 ^ 64 ∧
    b.timestamp.toInt = wrapped n
  transactions : full = true → ∃ transactions, b.transactions = some transactions ∧
    List.Forall₂ (MeansOf RawTransaction.ofJson? (RawTransaction.Means b.number)) raw.transactions transactions

theorem RawBlock.finish_reads (full : Bool) (raw : RawBlock) (hash : String) {numberText timeText : String}
    {number time : UInt64} (hnumberText : raw.number = some numberText) (hnumber : Denotes numberText number.toNat)
    (htimeText : raw.timestamp = some timeText) (htime : Denotes timeText time.toNat) :
    Reads (if full = true then
          (raw.transactions.mapM (readTransaction number hash)).map some >>= fun transactions =>
            pure (⟨number, hash, time.toInt64, transactions⟩ : Block)
        else
          pure none >>= fun transactions => pure ⟨number, hash, time.toInt64, transactions⟩)
      (full = true → ∀ j ∈ raw.transactions, ∃ t, RawTransaction.ofJson? j = some t)
      (if full then raw.transactions.flatMap (quantitiesOf RawTransaction.ofJson? RawTransaction.quantities) else [])
      (raw.Means full) := by
  have hnumbered : ∃ text, raw.number = some text ∧ Denotes text number.toNat := ⟨_, hnumberText, hnumber⟩
  have htimed : ∃ text n, raw.timestamp = some text ∧ Denotes text n ∧ n < 2 ^ 64 ∧
      time.toInt64.toInt = wrapped n :=
    ⟨_, _, htimeText, htime, time.toNat_lt, toInt_toInt64 time⟩
  cases full with
  | false => exact .of_eq (by simp) rfl (.pure ⟨hnumbered, htimed, fun h => nomatch h⟩)
  | true =>
    have hread : Reads ((raw.transactions.mapM (readTransaction number hash)).map some)
        (∀ j ∈ raw.transactions, ∃ t, RawTransaction.ofJson? j = some t)
        (raw.transactions.flatMap (quantitiesOf RawTransaction.ofJson? RawTransaction.quantities))
        (fun o => ∃ ts, o = some ts ∧
          List.Forall₂ (MeansOf RawTransaction.ofJson? (RawTransaction.Means number)) raw.transactions ts) :=
      (Reads.mapM (readTransaction_reads number hash) _).map fun ts hts => ⟨ts, rfl, hts⟩
    exact .of_eq (by simp) (List.append_nil _) (hread.bind fun _ hts => .pure ⟨hnumbered, htimed, fun _ => hts⟩)

theorem readBlock_reads (full : Bool) (j : Json) :
    Reads (readBlock full j) (∃ raw, RawBlock.ofJson? j = some raw ∧ raw.Whole full)
      (quantitiesOf RawBlock.ofJson? (RawBlock.quantities full) j)
      (MeansOf RawBlock.ofJson? (RawBlock.Means full) j) := by
  refine .record (fun raw => ?_) j
  have hwhole : (raw.number.isSome = true ∧ (nonEmpty raw.hash).isSome = true ∧ raw.timestamp.isSome = true ∧
      (full = true → ∀ j ∈ raw.transactions, ∃ t, RawTransaction.ofJson? j = some t)) ↔ raw.Whole full :=
    ⟨fun ⟨hnumber, hhash, htime, hall⟩ => ⟨hnumber, hhash, htime, hall⟩,
      fun ⟨hnumber, hhash, htime, hall⟩ => ⟨hnumber, hhash, htime, hall⟩⟩
  exact .of_eq hwhole (List.append_assoc ..).symm <|
    Reads.needed _ _ _ raw.number fun _ number hnumberText hnumber =>
      (Reads.present _ _ (nonEmpty raw.hash)).bind fun hash _ =>
        Reads.needed _ _ _ raw.timestamp fun _ _ htimeText htime =>
          raw.finish_reads full hash hnumberText hnumber htimeText htime

def RawReceipt.quantities (raw : RawReceipt) : List String :=
  raw.gasUsed.toList ++ raw.logs.flatMap RawLog.quantities ++ [raw.blockNumber]

structure RawReceipt.Means (raw : RawReceipt) (r : Receipt) : Prop where
  blockNumber : Denotes raw.blockNumber r.blockNumber.toNat
  gasUsed : Option.Rel (fun text (n : UInt64) => Denotes text n.toNat) raw.gasUsed r.gasUsed
  logs : List.Forall₂ RawLog.Means raw.logs r.logs

theorem readReceipt_reads (chainId : UInt64) (j : Json) :
    Reads (readReceipt chainId j) (∃ raw, RawReceipt.ofJson? j = some raw)
      (quantitiesOf RawReceipt.ofJson? RawReceipt.quantities j)
      (MeansOf RawReceipt.ofJson? RawReceipt.Means j) := by
  refine .simpleRecord (fun raw => ?_) j
  have hrest : ∀ gasUsed, Option.Rel (fun text (n : UInt64) => Denotes text n.toNat) raw.gasUsed gasUsed →
      Reads (raw.logs.mapM (·.normalize chainId) >>= fun logs =>
          quantity "receipt.blockNumber" raw.blockNumber >>= fun blockNumber =>
            pure (⟨raw.transactionHash, blockNumber, raw.blockHash, raw.sender, raw.receiver,
              readStatus raw.status, logs, gasUsed⟩ : Receipt))
        True (raw.logs.flatMap RawLog.quantities ++ [raw.blockNumber]) raw.Means := by
    intro gasUsed hgas
    exact .of_eq (by simp) rfl <| (Reads.mapM (RawLog.normalize_reads chainId) raw.logs).bind fun _ hlogs =>
      (Reads.quantity _ _).bind fun _ hblock => .pure ⟨hblock, hgas, hlogs⟩
  refine .of_eq Iff.rfl (List.append_assoc ..).symm (Reads.optional _ _ _ raw.gasUsed (fun text n htext hn => ?_)
    fun hnone => ?_)
  · exact hrest (some n) (htext ▸ .some hn)
  · exact hrest none (hnone ▸ .none)

/-- The records of the family are accepted just when their parts are there and each of their quantities
denotes a word, and then every number is the one that its quantity denotes, but for the time of a block, which
is that number as a signed word. What is not accepted is faulty. -/
theorem numbers_of_quantities (chainId number : UInt64) (hash : String) (full : Bool) :
    (∀ raw : RawLog, Reads (raw.normalize chainId) True raw.quantities raw.Means) ∧
    (∀ answer, Reads
      (readPart "eth_getLogs result" (Json.list? RawLog.ofJson?) answer >>= (·.mapM (·.normalize chainId)))
      (∃ raw, Json.list? RawLog.ofJson? answer = some raw)
      (quantitiesOf (Json.list? RawLog.ofJson?) (·.flatMap RawLog.quantities) answer)
      (MeansOf (Json.list? RawLog.ofJson?) (List.Forall₂ RawLog.Means) answer)) ∧
    (∀ j, Reads (readTransaction number hash j) (∃ raw, RawTransaction.ofJson? j = some raw)
      (quantitiesOf RawTransaction.ofJson? RawTransaction.quantities j)
      (MeansOf RawTransaction.ofJson? (RawTransaction.Means number) j)) ∧
    (∀ j, Reads (readBlock full j) (∃ raw, RawBlock.ofJson? j = some raw ∧ raw.Whole full)
      (quantitiesOf RawBlock.ofJson? (RawBlock.quantities full) j)
      (MeansOf RawBlock.ofJson? (RawBlock.Means full) j)) ∧
    (∀ j, Reads (readReceipt chainId j) (∃ raw, RawReceipt.ofJson? j = some raw)
      (quantitiesOf RawReceipt.ofJson? RawReceipt.quantities j)
      (MeansOf RawReceipt.ofJson? RawReceipt.Means j)) :=
  ⟨RawLog.normalize_reads chainId, logsAnswer_reads chainId, readTransaction_reads number hash,
    readBlock_reads full, readReceipt_reads chainId⟩

private def lateBlock : Json :=
  .obj [("number", .str "0x7"), ("hash", .str "Ab"), ("timestamp", .str "0x8000000000000000")]

/-- A time that does not fit is not rejected: it becomes one before the epoch. -/
theorem late_time_wraps :
    readBlock false lateBlock = .ok ⟨7, "Ab", Int64.minValue, none⟩ ∧ Denotes "0x8000000000000000" (2 ^ 63) ∧
    ¬ ∀ full j b, readBlock full j = .ok b → ∃ raw text n, RawBlock.ofJson? j = some raw ∧
      raw.timestamp = some text ∧ Denotes text n ∧ b.timestamp.toInt = n := by
  have hread : readBlock false lateBlock = .ok ⟨7, "Ab", Int64.minValue, none⟩ := by rfl
  refine ⟨hread, Quantity.denotes_iff.mpr rfl, fun hall => ?_⟩
  obtain ⟨_, _, n, -, -, -, htime⟩ := hall _ _ _ hread
  have hbefore : Int64.minValue.toInt < 0 := by decide
  have hafter : 0 ≤ Int64.minValue.toInt := htime ▸ Int.natCast_nonneg n
  omega

end Evm

end ChainFeed

import ChainFeed.Proofs.Rpc.Responses
import ChainFeed.Service

/-!
# What an answer says about a block

`ChainFamily.Finds` tells what a family finds in the answer of a node for one block: the block, that the
node cannot serve it, or why the call fails. Only the response with the number of the block matters.
-/

namespace ChainFeed

open Rpc (Request Response NodeError)
open Rpc.Response (Distinct Told Silent Agree)

theorem Family.map_eq_error_iff {α β : Type} (g : α → β) {read : Except RepositoryError α}
    {e : RepositoryError} : read.map g = .error e ↔ read = .error e := by
  cases read <;> simp [Except.map]

namespace Family.BlockDialect

variable {β γ : Type}

/-- What a dialect makes of the outcome of the answer to the request for block `n`. -/
def judge (d : BlockDialect β) (n : UInt64) : Except NodeError Json → Except RepositoryError (Option β)
  | .error e => if d.isUnavailable e then .ok none else .error (.transport (.rpc e))
  | .ok .null => .ok none
  | .ok value => (d.read n value).map some

theorem judge_given (d : BlockDialect β) (n : UInt64) {value : Json} (given : value.isNull = false) :
    d.judge n (.ok value) = (d.read n value).map some := by
  cases value with
  | null => cases given
  | _ => rfl

theorem readAnswer_of_none (d : BlockDialect β) {responses : List Response} {n : UInt64}
    (h : Response.answer? responses n = none) :
    d.readAnswer responses n = .error (.protocol (.unanswered d.method n)) := by
  simp only [readAnswer, Family.answer, h, Family.fault]

theorem readAnswer_of_some (d : BlockDialect β) {responses : List Response} {n : UInt64} {r : Response}
    (h : Response.answer? responses n = some r) : d.readAnswer responses n = d.judge n r.outcome := by
  simp only [readAnswer, Family.answer, h]
  rfl

def map (g : β → γ) (d : BlockDialect β) : BlockDialect γ where
  method := d.method
  request := d.request
  isUnavailable := d.isUnavailable
  read n j := (d.read n j).map g

theorem judge_map (g : β → γ) (d : BlockDialect β) (n : UInt64) (outcome : Except NodeError Json) :
    (d.map g).judge n outcome = (d.judge n outcome).map (Option.map g) := by
  cases outcome with
  | error e =>
    have hmap : (d.map g).isUnavailable e = d.isUnavailable e := rfl
    rw [judge, judge, hmap]
    cases d.isUnavailable e <;> rfl
  | ok value =>
    cases hnull : value.isNull with
    | false =>
      have hmap : (d.map g).read n value = (d.read n value).map g := rfl
      rw [judge_given _ _ hnull, judge_given _ _ hnull, hmap]
      cases d.read n value <;> rfl
    | true =>
      cases value with
      | null => rfl
      | _ => cases hnull

theorem readAnswer_map (g : β → γ) (d : BlockDialect β) (responses : List Response) (n : UInt64) :
    (d.map g).readAnswer responses n = (d.readAnswer responses n).map (Option.map g) := by
  cases hanswer : Response.answer? responses n with
  | none =>
    rw [readAnswer_of_none _ hanswer, readAnswer_of_none _ hanswer]
    rfl
  | some r => rw [readAnswer_of_some _ hanswer, readAnswer_of_some _ hanswer, judge_map]

theorem readAnswers_map (g : β → γ) (d : BlockDialect β) (responses : List Response) (ns : List UInt64) :
    (d.map g).readAnswers responses ns =
      (d.readAnswers responses ns).map (List.map fun p => (p.1, p.2.map g)) := by
  induction ns with
  | nil => rfl
  | cons n ns ih =>
    rw [readAnswers, readAnswers, readAnswer_map]
    cases d.readAnswer responses n with
    | error e => rfl
    | ok found =>
      simp only [Except.map, ih]
      cases d.readAnswers responses ns <;> rfl

variable (d : BlockDialect β) {responses responses' : List Response} {ns : List UInt64}

theorem readAnswers_congr (h : ∀ n ∈ ns, d.readAnswer responses n = d.readAnswer responses' n) :
    d.readAnswers responses ns = d.readAnswers responses' ns := by
  induction ns with
  | nil => rfl
  | cons n ns ih =>
    obtain ⟨hn, hns⟩ := List.forall_mem_cons.mp h
    rw [readAnswers, readAnswers, hn, ih hns]

theorem readAnswers_ok {found : List (UInt64 × Option β)} (h : d.readAnswers responses ns = .ok found) :
    found.map Prod.fst = ns ∧ ∀ p ∈ found, d.readAnswer responses p.1 = .ok p.2 := by
  induction ns generalizing found with
  | nil =>
    cases h
    exact ⟨rfl, by simp⟩
  | cons n ns ih =>
    rw [readAnswers] at h
    split at h
    · cases h
    · next b hb =>
      cases hrest : d.readAnswers responses ns with
      | error e =>
        rw [hrest] at h
        cases h
      | ok rest =>
        rw [hrest] at h
        cases h
        obtain ⟨hnumbers, hall⟩ := ih hrest
        exact ⟨congrArg (n :: ·) hnumbers, List.forall_mem_cons.mpr ⟨hb, hall⟩⟩

theorem readAnswers_error_iff (sorted : ns.Pairwise (· < ·)) (e : RepositoryError) :
    d.readAnswers responses ns = .error e ↔
      ∃ n ∈ ns, d.readAnswer responses n = .error e ∧
        ∀ k ∈ ns, k < n → ∀ e', d.readAnswer responses k ≠ .error e' := by
  induction ns with
  | nil => simp [readAnswers]
  | cons n ns ih =>
    obtain ⟨hfirst, hsorted⟩ := List.pairwise_cons.mp sorted
    rw [readAnswers]
    cases hanswer : d.readAnswer responses n with
    | error e' =>
      constructor
      · intro he
        cases he
        refine ⟨n, List.mem_cons_self, hanswer, fun k hk hlt => ?_⟩
        rcases List.mem_cons.mp hk with rfl | hk
        · exact absurd hlt (UInt64.lt_irrefl k)
        · exact absurd (UInt64.lt_trans hlt (hfirst k hk)) (UInt64.lt_irrefl k)
      · rintro ⟨k, hk, hfails, hleast⟩
        rcases List.mem_cons.mp hk with rfl | hk
        · rw [hanswer] at hfails
          cases hfails
          rfl
        · exact absurd hanswer (hleast n List.mem_cons_self (hfirst k hk) e')
    | ok found =>
      refine ((map_eq_error_iff ((n, found) :: ·)).trans (ih hsorted)).trans ⟨?_, ?_⟩
      -- The first answer can be used, so the least failure is among the others.
      · rintro ⟨k, hk, hfails, hleast⟩
        refine ⟨k, List.mem_cons_of_mem _ hk, hfails, List.forall_mem_cons.mpr ⟨fun _ e' he' => ?_, hleast⟩⟩
        rw [hanswer] at he'
        cases he'
      · rintro ⟨k, hk, hfails, hleast⟩
        rcases List.mem_cons.mp hk with rfl | hk
        · rw [hanswer] at hfails
          cases hfails
        · exact ⟨k, hk, hfails, fun j hj => hleast j (List.mem_cons_of_mem _ hj)⟩

end Family.BlockDialect

namespace ChainFamily

def question (f : ChainFamily) (n : UInt64) : Request :=
  match f with
  | .evm => Evm.blockRequest n (.number n) false
  | .solana => Solana.blockRequest false n
  | .near => Near.blockRequest n (.number n)

/-- The errors of a node that has no such block to serve. -/
def Unavailable (f : ChainFamily) (e : NodeError) : Prop :=
  match f with
  | .evm => e.code = 6969
  | .solana => e.code = -32004 ∨ e.code = -32007 ∨ e.code = -32009
  | .near => e.causeName? = some "UNKNOWN_BLOCK"

def readBlock (f : ChainFamily) (n : UInt64) (value : Json) : Except RepositoryError Block :=
  match f with
  | .evm => Evm.readBlock false value
  | .solana => Solana.readBlock false n value
  | .near => (Near.readBlock value).map Prod.fst

/-- What a family finds in the responses to a batch for block `n`: an error, a block, or that there is
none. -/
inductive Finds (f : ChainFamily) (responses : List Response) (n : UInt64) :
    Except RepositoryError (Option Block) → Prop
  | unanswered (silent : Silent responses n) :
      Finds f responses n (.error (.protocol (.unanswered (f.question n).method n)))
  | failed (e : NodeError) (told : Told responses n (.error e)) (other : ¬ f.Unavailable e) :
      Finds f responses n (.error (.transport (.rpc e)))
  | unavailable (e : NodeError) (told : Told responses n (.error e)) (unavailable : f.Unavailable e) :
      Finds f responses n (.ok none)
  | null (told : Told responses n (.ok .null)) : Finds f responses n (.ok none)
  | unreadable (value : Json) (told : Told responses n (.ok value)) (given : value.isNull = false)
      (e : RepositoryError) (read : f.readBlock n value = .error e) : Finds f responses n (.error e)
  | served (value : Json) (told : Told responses n (.ok value)) (given : value.isNull = false)
      (b : Block) (read : f.readBlock n value = .ok b) : Finds f responses n (.ok (some b))

def dialect (f : ChainFamily) : Family.BlockDialect Block :=
  match f with
  | .evm => Evm.dialect false
  | .solana => Solana.dialect false
  | .near => Near.dialect.map Prod.fst

theorem dialect_request (f : ChainFamily) : f.dialect.request = f.question := by cases f <;> rfl

theorem dialect_method (f : ChainFamily) (n : UInt64) : f.dialect.method = (f.question n).method := by
  cases f <;> rfl

theorem dialect_read (f : ChainFamily) (n : UInt64) (value : Json) :
    f.dialect.read n value = f.readBlock n value := by cases f <;> rfl

theorem dialect_isUnavailable (f : ChainFamily) (e : NodeError) :
    f.dialect.isUnavailable e = true ↔ f.Unavailable e := by
  cases f with
  | evm => exact beq_iff_eq
  | solana => simp [dialect, Solana.dialect, Unavailable, Solana.skippedSlots]
  | near => exact beq_iff_eq

variable {f : ChainFamily} {responses responses' : List Response} {n : UInt64}
  {x : Except RepositoryError (Option Block)}

private theorem finds_judge {outcome : Except NodeError Json} (told : Told responses n outcome) :
    f.Finds responses n (f.dialect.judge n outcome) := by
  cases outcome with
  | error e =>
    simp only [Family.BlockDialect.judge]
    split
    · next hunavailable => exact .unavailable e told ((f.dialect_isUnavailable e).mp hunavailable)
    · next hother => exact .failed e told fun h => hother ((f.dialect_isUnavailable e).mpr h)
  | ok value =>
    cases hnull : value.isNull with
    | true =>
      cases value with
      | null => exact .null told
      | _ => cases hnull
    | false =>
      rw [Family.BlockDialect.judge_given _ _ hnull, dialect_read]
      cases hread : f.readBlock n value with
      | error e => exact .unreadable value told hnull e hread
      | ok b => exact .served value told hnull b hread

private theorem readAnswer_of_told (h : Distinct responses) {outcome : Except NodeError Json}
    (told : Told responses n outcome) :
    f.dialect.readAnswer responses n = f.dialect.judge n outcome := by
  obtain ⟨r, hr, hid, rfl⟩ := told
  exact f.dialect.readAnswer_of_some (h.answer?_eq_some hr hid)

/-- Of several responses to one request the last one counts. -/
theorem finds_readAnswer (f : ChainFamily) (responses : List Response) (n : UInt64) :
    f.Finds responses n (f.dialect.readAnswer responses n) := by
  cases hanswer : Response.answer? responses n with
  | none =>
    rw [f.dialect.readAnswer_of_none hanswer, dialect_method f n]
    exact .unanswered (Response.silent_of_answer? hanswer)
  | some r =>
    rw [f.dialect.readAnswer_of_some hanswer]
    exact finds_judge (Response.told_of_answer? hanswer)

theorem finds_iff (h : Distinct responses) :
    f.Finds responses n x ↔ f.dialect.readAnswer responses n = x := by
  constructor
  · intro found
    cases found with
    | unanswered silent =>
      rw [f.dialect.readAnswer_of_none (Response.answer?_eq_none silent), dialect_method f n]
    | failed e told other =>
      rw [readAnswer_of_told h told]
      exact if_neg fun hunavailable => other ((f.dialect_isUnavailable e).mp hunavailable)
    | unavailable e told unavailable =>
      rw [readAnswer_of_told h told]
      exact if_pos ((f.dialect_isUnavailable e).mpr unavailable)
    | null told => rw [readAnswer_of_told h told, Family.BlockDialect.judge]
    | unreadable value told given e read | served value told given e read =>
      rw [readAnswer_of_told h told, Family.BlockDialect.judge_given _ _ given, dialect_read, read]
      rfl
  · rintro rfl
    exact finds_readAnswer f responses n

theorem Finds.agree {numbers : List UInt64} (agree : Agree numbers responses responses')
    (hn : n ∈ numbers) (found : f.Finds responses' n x) : f.Finds responses n x := by
  have told := agree n hn
  cases found with
  | unanswered silent => exact .unanswered ((agree.silent_iff hn).mpr silent)
  | failed e fails other => exact .failed e ((told _).mpr fails) other
  | unavailable e fails unavailable => exact .unavailable e ((told _).mpr fails) unavailable
  | null nothing => exact .null ((told _).mpr nothing)
  | unreadable value given present e read => exact .unreadable value ((told _).mpr given) present e read
  | served value given present b read => exact .served value ((told _).mpr given) present b read

theorem readAnswers_agree {numbers : List UInt64} (h : Distinct responses) (h' : Distinct responses')
    (agree : Agree numbers responses responses') :
    f.dialect.readAnswers responses numbers = f.dialect.readAnswers responses' numbers := by
  refine f.dialect.readAnswers_congr fun n hn => ?_
  have found' : f.Finds responses' n (f.dialect.readAnswer responses' n) := (finds_iff h').mpr rfl
  exact (finds_iff h).mp (found'.agree agree hn)

theorem bind_eq_ok {α β : Type} {read : Except RepositoryError α}
    {next : α → Except RepositoryError β} {b : β} (h : read >>= next = .ok b) :
    ∃ a, read = .ok a ∧ next a = .ok b := by
  cases read with
  | error e => cases h
  | ok a => exact ⟨a, rfl, h⟩

theorem present_nonEmpty {subject part hash : String} {given : Option String}
    (read : Family.present subject part (Family.nonEmpty given) = .ok hash) : hash.isEmpty = false := by
  cases hkept : Family.nonEmpty given with
  | none =>
    rw [hkept] at read
    cases read
  | some kept =>
    rw [hkept] at read
    cases read
    simpa using (Option.filter_eq_some_iff.mp hkept).2

end ChainFamily

theorem Evm.readBlock_isPlaceholder {full : Bool} {value : Json} {b : Block}
    (h : readBlock full value = .ok b) : b.isPlaceholder = false := by
  unfold readBlock at h
  obtain ⟨raw, -, h⟩ := ChainFamily.bind_eq_ok h
  obtain ⟨text, -, h⟩ := ChainFamily.bind_eq_ok h
  obtain ⟨number, -, h⟩ := ChainFamily.bind_eq_ok h
  obtain ⟨hash, hhash, h⟩ := ChainFamily.bind_eq_ok h
  obtain ⟨time, -, h⟩ := ChainFamily.bind_eq_ok h
  obtain ⟨timestamp, -, h⟩ := ChainFamily.bind_eq_ok h
  cases full with
  | false =>
    cases h
    exact ChainFamily.present_nonEmpty hhash
  | true =>
    obtain ⟨transactions, -, h⟩ := ChainFamily.bind_eq_ok h
    cases h
    exact ChainFamily.present_nonEmpty hhash

theorem Solana.readBlock_isPlaceholder {full : Bool} {slot : UInt64} {value : Json} {b : Block}
    (h : readBlock full slot value = .ok b) : b.isPlaceholder = false := by
  unfold readBlock at h
  obtain ⟨raw, -, h⟩ := ChainFamily.bind_eq_ok h
  obtain ⟨hash, hhash, h⟩ := ChainFamily.bind_eq_ok h
  obtain ⟨time, -, h⟩ := ChainFamily.bind_eq_ok h
  cases full with
  | false =>
    cases h
    exact ChainFamily.present_nonEmpty hhash
  | true =>
    obtain ⟨transactions, -, h⟩ := ChainFamily.bind_eq_ok h
    cases h
    exact ChainFamily.present_nonEmpty hhash

theorem Near.readBlock_isPlaceholder {value : Json} {b : Block × List String}
    (h : readBlock value = .ok b) : b.1.isPlaceholder = false := by
  unfold readBlock at h
  obtain ⟨raw, -, h⟩ := ChainFamily.bind_eq_ok h
  obtain ⟨number, -, h⟩ := ChainFamily.bind_eq_ok h
  obtain ⟨hash, hhash, h⟩ := ChainFamily.bind_eq_ok h
  obtain ⟨time, -, h⟩ := ChainFamily.bind_eq_ok h
  cases h
  exact ChainFamily.present_nonEmpty hhash

namespace ChainFamily

variable {f : ChainFamily} {responses : List Response} {n : UInt64}

theorem readBlock_isPlaceholder {value : Json} {b : Block} (h : f.readBlock n value = .ok b) :
    b.isPlaceholder = false := by
  cases f with
  | evm => exact Evm.readBlock_isPlaceholder h
  | solana => exact Solana.readBlock_isPlaceholder h
  | near =>
    change (Near.readBlock value).map Prod.fst = .ok b at h
    cases hread : Near.readBlock value with
    | error e =>
      rw [hread] at h
      cases h
    | ok found =>
      rw [hread] at h
      cases h
      exact Near.readBlock_isPlaceholder hread

theorem Finds.isPlaceholder {b : Block} (h : f.Finds responses n (.ok (some b))) :
    b.isPlaceholder = false := by
  cases h with
  | served value told given b read => exact readBlock_isPlaceholder read

end ChainFamily
end ChainFeed

import Mathlib.Data.List.Nodup
import Mathlib.Data.List.Pairwise
import ChainFeed.Proofs.Text.Numeral
import ChainFeed.Rpc.Message

/-!
# Responses by their ids

The answer to a batch is a number of responses in any order, told apart by their numeric ids. If the ids
differ, an answer is known by what it says to each id.
-/

namespace ChainFeed.Rpc.Response

def Distinct (responses : List Response) : Prop := (responses.filterMap (·.id.number?)).Nodup

def Told (responses : List Response) (n : UInt64) (outcome : Except NodeError Json) : Prop :=
  ∃ r ∈ responses, r.id.number? = some n ∧ r.outcome = outcome

def Silent (responses : List Response) (n : UInt64) : Prop := ∀ r ∈ responses, r.id.number? ≠ some n

def echoed (r : Response) : Response :=
  match r.id with
  | .number n => { r with id := .text (toString n) }
  | _ => r

theorem number?_echoed (r : Response) : r.echoed.id.number? = r.id.number? := by
  unfold echoed
  split
  · next n hid =>
    rw [hid]
    exact Text.decimalWord?_toString n
  · rfl

theorem outcome_echoed (r : Response) : r.echoed.outcome = r.outcome := by
  unfold echoed
  split <;> rfl

variable {responses : List Response} {n : UInt64}

theorem Distinct.eq_of_number (h : Distinct responses) {r r' : Response} (hr : r ∈ responses)
    (hr' : r' ∈ responses) (hid : r.id.number? = some n) (hid' : r'.id.number? = some n) : r = r' := by
  by_contra hne
  rw [Distinct, List.Nodup, List.pairwise_filterMap] at h
  have hsymm : Std.Symm fun a a' : Response => ∀ b, a.id.number? = some b → ∀ b', a'.id.number? = some b' →
      b ≠ b' := ⟨fun _ _ hdiffer b hb b' hb' he => hdiffer b' hb' b hb he.symm⟩
  exact h.forall hr hr' hne n hid n hid' rfl

theorem answer?_eq_none (h : Silent responses n) : answer? responses n = none := by
  rw [answer?, List.find?_eq_none]
  intro r hr hid
  exact h r (List.mem_reverse.mp hr) (eq_of_beq hid)

theorem Distinct.answer?_eq_some (h : Distinct responses) {r : Response} (hr : r ∈ responses)
    (hid : r.id.number? = some n) : answer? responses n = some r := by
  cases hanswer : answer? responses n with
  | none =>
    rw [answer?, List.find?_eq_none] at hanswer
    exact absurd (beq_iff_eq.mpr hid) (hanswer r (List.mem_reverse.mpr hr))
  | some r' =>
    have hmem := List.mem_reverse.mp (List.mem_of_find?_eq_some hanswer)
    have hid' := List.find?_some hanswer
    rw [h.eq_of_number hmem hr (eq_of_beq hid') hid]

theorem told_of_answer? {r : Response} (h : answer? responses n = some r) :
    Told responses n r.outcome := by
  have hid := List.find?_some h
  exact ⟨r, List.mem_reverse.mp (List.mem_of_find?_eq_some h), eq_of_beq hid, rfl⟩

theorem silent_of_answer? (h : answer? responses n = none) : Silent responses n := by
  rw [answer?, List.find?_eq_none] at h
  intro r hr hid
  exact h r (List.mem_reverse.mpr hr) (beq_iff_eq.mpr hid)

/-- Two answers say the same about these numbers. -/
def Agree (numbers : List UInt64) (responses responses' : List Response) : Prop :=
  ∀ n ∈ numbers, ∀ outcome, Told responses n outcome ↔ Told responses' n outcome

/-- An answer and other ways to give it, as far as these numbers are concerned. -/
inductive Varied (numbers : List UInt64) : List Response → List Response → Prop
  | permuted {responses responses' : List Response} (same : responses.Perm responses') :
      Varied numbers responses responses'
  | extended (responses extra : List Response)
      (unasked : ∀ r ∈ extra, ∀ n ∈ numbers, r.id.number? ≠ some n) :
      Varied numbers responses (responses ++ extra)
  | echoed (before : List Response) (r : Response) (after : List Response) :
      Varied numbers (before ++ r :: after) (before ++ r.echoed :: after)
  | trans {first second third : List Response} (former : Varied numbers first second)
      (latter : Varied numbers second third) : Varied numbers first third

theorem Varied.agree {numbers : List UInt64} {responses' : List Response}
    (h : Varied numbers responses responses') : Agree numbers responses responses' := by
  induction h with
  | permuted same =>
    intro n _ outcome
    simp only [Told, same.mem_iff]
  | extended responses extra unasked =>
    intro n hn outcome
    constructor
    · rintro ⟨r, hr, htold⟩
      exact ⟨r, List.mem_append_left _ hr, htold⟩
    · rintro ⟨r, hr, hid, htold⟩
      rcases List.mem_append.mp hr with hr | hr
      · exact ⟨r, hr, hid, htold⟩
      · exact absurd hid (unasked r hr n hn)
  | echoed before r after =>
    intro n _ outcome
    simp only [Told, List.mem_append, List.mem_cons, or_and_right, exists_or, exists_eq_left,
      number?_echoed, outcome_echoed]
  | trans _ _ ih ih' => exact fun n hn outcome => (ih n hn outcome).trans (ih' n hn outcome)

theorem Agree.silent_iff {numbers : List UInt64} {responses' : List Response}
    (h : Agree numbers responses responses') (hn : n ∈ numbers) :
    Silent responses n ↔ Silent responses' n := by
  have htold : ∀ rs : List Response, Silent rs n ↔ ∀ outcome, ¬ Told rs n outcome := by
    intro rs
    constructor
    · rintro silent outcome ⟨r, hr, hid, -⟩
      exact silent r hr hid
    · exact fun hnone r hr hid => hnone r.outcome ⟨r, hr, hid, rfl⟩
  rw [htold, htold]
  exact forall_congr' fun outcome => not_congr (h n hn outcome)

end ChainFeed.Rpc.Response

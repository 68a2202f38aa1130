import ChainFeed.Proofs.Family.Watched

/-!
# Lookups in batches

Keys are looked up in batches of ten, one after the other. `Lookup.Course` says what can come of it: the
first batch that fails, or in whose answer something cannot be read, is the last one that is sent.
-/

namespace ChainFeed.Family

open Rpc (Request Response TransportError)

section Pieces

variable {α : Type} {size : Nat}

theorem pieces_of_ne_nil (hsize : size ≠ 0) {l : List α} (h : l ≠ []) :
    pieces size l = l.take size :: pieces size (l.drop size) := by
  rw [pieces, dif_neg (not_or.mpr ⟨h, hsize⟩)]

@[simp] theorem pieces_nil : pieces size ([] : List α) = [] := by
  rw [pieces, dif_pos (.inl rfl)]

theorem flatten_pieces (hsize : size ≠ 0) (l : List α) : (pieces size l).flatten = l := by
  induction l using pieces.induct size with
  | case1 l h => simp [h.resolve_right hsize]
  | case2 l h ih =>
    rw [pieces_of_ne_nil hsize (not_or.mp h).1, List.flatten_cons, ih, List.take_append_drop]

theorem length_of_mem_pieces (hsize : size ≠ 0) {l p : List α} (hp : p ∈ pieces size l) :
    p ≠ [] ∧ p.length ≤ size := by
  induction l using pieces.induct size with
  | case1 l h => simp [h.resolve_right hsize] at hp
  | case2 l h ih =>
    have hl := (not_or.mp h).1
    rw [pieces_of_ne_nil hsize hl] at hp
    rcases List.mem_cons.mp hp with rfl | hp
    · exact ⟨by simp [hl, hsize], List.length_take_le size l⟩
    · exact ih hp

theorem length_of_mem_dropLast_pieces (hsize : size ≠ 0) {l p : List α} (hp : p ∈ (pieces size l).dropLast) :
    p.length = size := by
  induction l using pieces.induct size with
  | case1 l h => simp [h.resolve_right hsize] at hp
  | case2 l h ih =>
    rw [pieces_of_ne_nil hsize (not_or.mp h).1] at hp
    by_cases hdrop : l.drop size = []
    · simp [hdrop] at hp
    · have hlong : size < l.length := by simpa using hdrop
      rw [pieces_of_ne_nil hsize hdrop, List.dropLast_cons_cons, List.mem_cons,
        ← pieces_of_ne_nil hsize hdrop] at hp
      rcases hp with rfl | hp
      · exact List.length_take_of_le (Nat.le_of_lt hlong)
      · exact ih hp

theorem length_pieces (hsize : size ≠ 0) (l : List α) :
    (pieces size l).length = (l.length + (size - 1)) / size := by
  induction l using pieces.induct size with
  | case1 l h =>
    rw [h.resolve_right hsize, pieces_nil, List.length_nil, List.length_nil, Nat.div_eq_of_lt (by omega)]
  | case2 l h ih =>
    have hl := List.length_pos_iff.mpr (not_or.mp h).1
    have hpos := Nat.pos_of_ne_zero hsize
    rw [pieces_of_ne_nil hsize (not_or.mp h).1, List.length_cons, ih, List.length_drop]
    by_cases hshort : l.length ≤ size
    · rw [Nat.sub_eq_zero_of_le hshort, Nat.div_eq_of_lt (by omega),
        Nat.div_eq_of_lt_le (k := 1) (by omega) (by omega)]
    · rw [← Nat.add_div_right _ hpos]
      congr 1
      omega

theorem pieces_map {β : Type} (hsize : size ≠ 0) (g : α → β) (l : List α) :
    pieces size (l.map g) = (pieces size l).map (List.map g) := by
  induction l using pieces.induct size with
  | case1 l h => simp [h.resolve_right hsize]
  | case2 l h ih =>
    have hl := (not_or.mp h).1
    rw [pieces_of_ne_nil hsize hl, pieces_of_ne_nil hsize (by simpa using hl), List.map_cons, ← ih,
      List.map_take, List.map_drop]

end Pieces

theorem map_eq_ok_iff {α β : Type} (g : α → β) {read : Except RepositoryError α} {b : β} :
    read.map g = .ok b ↔ ∃ a, read = .ok a ∧ b = g a := by
  cases read <;> simp [Except.map, eq_comm]

namespace Lookup

variable {κ β : Type} (l : Lookup κ β)

def readOne (responses : List Response) (i : Nat) : Except RepositoryError (Option β) :=
  match (answer responses l.method (UInt64.ofNat i)).bind result with
  | .error e => .error e
  | .ok .null => .ok none
  | .ok value => (l.read value).map some

theorem readAnswers_cons (responses : List Response) (k : κ) (i : Nat) (keys : List (κ × Nat)) :
    l.readAnswers responses ((k, i) :: keys) =
      match l.readOne responses i with
      | .error e => .error e
      | .ok none => l.readAnswers responses keys
      | .ok (some b) => (l.readAnswers responses keys).map ((k, b) :: ·) := by
  rw [readAnswers, readOne]
  cases (answer responses l.method (UInt64.ofNat i)).bind result with
  | error e => rfl
  | ok value =>
    cases value with
    | null => rfl
    | _ =>
      dsimp only
      cases l.read _ <;> rfl

/-- What was found for the keys, given that all answers can be read. -/
def finds (responses : List Response) (keys : List (κ × Nat)) : List (κ × β) :=
  keys.filterMap fun p => (l.readOne responses p.2).toOption.join.map (p.1, ·)

theorem readAnswers_eq_ok_iff (responses : List Response) (keys : List (κ × Nat)) (found : List (κ × β)) :
    l.readAnswers responses keys = .ok found ↔
      (∀ p ∈ keys, ∃ o, l.readOne responses p.2 = .ok o) ∧ found = l.finds responses keys := by
  induction keys generalizing found with
  | nil => simp [readAnswers, finds, eq_comm]
  | cons p keys ih =>
    obtain ⟨k, i⟩ := p
    rw [readAnswers_cons, List.forall_mem_cons, finds, List.filterMap_cons]
    cases hone : l.readOne responses i with
    | error e => simp
    | ok o =>
      cases o with
      | none =>
        have hskip : ((none : Option β).map (k, ·)) = none := rfl
        simp only [Except.toOption, Option.join_some, hskip, ih, Except.ok.injEq, exists_eq', true_and]
        rfl
      | some b =>
        simp only [Except.toOption, Option.join_some, Option.map_some, Except.ok.injEq, exists_eq', true_and,
          map_eq_ok_iff, ih, and_assoc, exists_and_left, exists_eq_left]
        rfl

variable {l}

theorem mem_finds {responses : List Response} {keys : List κ} {k : κ} {b : β} :
    (k, b) ∈ l.finds responses keys.zipIdx ↔
      ∃ i, keys[i]? = some k ∧ l.readOne responses i = .ok (some b) := by
  have hread : ∀ i, (l.readOne responses i).toOption.join = some b ↔ l.readOne responses i = .ok (some b) := by
    intro i
    cases l.readOne responses i with
    | error e => simp [Except.toOption]
    | ok o => cases o <;> simp [Except.toOption]
  simp [finds, List.mem_filterMap, List.mem_zipIdx_iff_getElem?, hread]

theorem keys_finds_sublist (responses : List Response) (keys : List κ) :
    ((l.finds responses keys.zipIdx).map Prod.fst).Sublist keys := by
  suffices hfrom : ∀ pairs : List (κ × Nat),
      ((l.finds responses pairs).map Prod.fst).Sublist (pairs.map Prod.fst) by
    simpa using hfrom keys.zipIdx
  intro pairs
  induction pairs with
  | nil => exact List.Sublist.slnil
  | cons p pairs ih =>
    rw [finds, List.filterMap_cons]
    cases (l.readOne responses p.2).toOption.join with
    | none => exact ih.cons p.1
    | some b => exact ih.cons_cons p.1

/-- The courses that looking up batches can take: what the node answers to the batches that are sent, and
what comes of it. -/
inductive Course (l : Lookup κ β) : List (List κ) → List (Except TransportError (List Response)) →
    Except RepositoryError (List (κ × β)) → Prop
  | done : Course l [] [] (.ok [])
  | failed (keys : List κ) (rest : List (List κ)) (e : TransportError) :
      Course l (keys :: rest) [.error e] (.error (.ofTransport e))
  | unread (keys : List κ) (rest : List (List κ)) (responses : List Response) (e : RepositoryError)
      (read : l.readAnswers responses keys.zipIdx = .error e) :
      Course l (keys :: rest) [.ok responses] (.error e)
  | more {keys : List κ} {rest : List (List κ)} {responses : List Response} {found : List (κ × β)}
      {answers : List (Except TransportError (List Response))} {others : Except RepositoryError (List (κ × β))}
      (read : l.readAnswers responses keys.zipIdx = .ok found) (later : Course l rest answers others) :
      Course l (keys :: rest) (.ok responses :: answers) (others.map (found ++ ·))

/-- What is written down when batches are looked up is one of the courses. -/
theorem fetchPieces_course {σ : Type} (l : Lookup κ β) (chain : String) (c : ChainSettings (StateM σ))
    {batches : List (List κ)} (h : ∀ keys ∈ batches, keys ≠ []) (s : σ) :
    ∃ answers found after,
      (l.fetchPieces (Registry.watchedChain chain c).transport batches).run.run s =
        ⟨found, List.zipWith (fun keys answer => .batched chain (l.requests keys) answer) batches answers,
          after⟩ ∧ l.Course batches answers found := by
  induction batches generalizing s with
  | nil => exact ⟨[], .ok [], s, rfl, .done⟩
  | cons keys rest ih =>
    obtain ⟨hkeys, hrest⟩ := List.forall_mem_cons.mp h
    have hcarried := Registry.run_askAll chain c (l.requests keys) (by simp [requests, hkeys]) s
    obtain ⟨⟨answer, s₁⟩, hanswer⟩ : ∃ p, c.transport.batch (l.requests keys) s = p := ⟨_, rfl⟩
    rw [hanswer] at hcarried
    cases answer with
    | error e =>
      refine ⟨[.error e], .error (.ofTransport e), s₁, ?_, .failed keys rest e⟩
      rw [List.zipWith_cons_cons, List.zipWith_nil_right]
      exact Journal.run_bind_error hcarried
    | ok responses =>
      cases hread : l.readAnswers responses keys.zipIdx with
      | error e =>
        refine ⟨[.ok responses], .error e, s₁, ?_, .unread keys rest responses e hread⟩
        rw [List.zipWith_cons_cons, List.zipWith_nil_right]
        have hunread : (having (l.readAnswers responses keys.zipIdx) :
            ExceptT RepositoryError (Journal Registry.Deed σ) _).run.run s₁ = ⟨.error e, [], s₁⟩ := by
          rw [hread]
          rfl
        exact Journal.run_bind_ok hcarried (Journal.run_bind_error hunread)
      | ok found =>
        obtain ⟨answers, others, after, hothers, course⟩ := ih hrest s₁
        refine ⟨.ok responses :: answers, others.map (found ++ ·), after, ?_, .more hread course⟩
        have hfound : (having (l.readAnswers responses keys.zipIdx) :
            ExceptT RepositoryError (Journal Registry.Deed σ) _).run.run s₁ = ⟨.ok found, [], s₁⟩ := by
          rw [hread]
          rfl
        exact Journal.run_bind_ok hcarried (Journal.run_bind_ok hfound (Journal.run_bind_pure hothers _))

def Usable (l : Lookup κ β) (keys : List κ) (answer : Except TransportError (List Response)) : Prop :=
  ∃ responses, answer = .ok responses ∧ ∀ i < keys.length, ∃ o, l.readOne responses i = .ok o

theorem usable_iff {keys : List κ} {responses : List Response} :
    l.Usable keys (.ok responses) ↔ ∃ found, l.readAnswers responses keys.zipIdx = .ok found := by
  have hindex : (∀ p ∈ keys.zipIdx, ∃ o, l.readOne responses p.2 = .ok o) ↔
      ∀ i < keys.length, ∃ o, l.readOne responses i = .ok o := by
    constructor
    · intro h i hi
      exact h (keys[i], i) (List.mem_zipIdx_iff_getElem?.mpr (List.getElem?_eq_getElem hi))
    · intro h p hp
      obtain ⟨hi, -⟩ := List.getElem?_eq_some_iff.mp (List.mem_zipIdx_iff_getElem?.mp hp)
      exact h p.2 hi
  simp only [Usable, Except.ok.injEq, exists_eq_left', readAnswers_eq_ok_iff, hindex, exists_and_left,
    exists_eq, and_true]

/-- Two answers from which the same is read, or the same failure. -/
inductive Alike (l : Lookup κ β) : Except TransportError (List Response) →
    Except TransportError (List Response) → Prop
  | failed (e : TransportError) : Alike l (.error e) (.error e)
  | given {responses responses' : List Response}
      (same : ∀ i, l.readOne responses i = l.readOne responses' i) : Alike l (.ok responses) (.ok responses')

theorem readAnswers_congr {responses responses' : List Response}
    (same : ∀ i, l.readOne responses i = l.readOne responses' i) (keys : List (κ × Nat)) :
    l.readAnswers responses keys = l.readAnswers responses' keys := by
  induction keys with
  | nil => rfl
  | cons p keys ih => rw [readAnswers_cons, readAnswers_cons, same p.2, ih]

namespace Course

variable {batches : List (List κ)} {answers answers' : List (Except TransportError (List Response))}
  {x x' : Except RepositoryError (List (κ × β))} {found : List (κ × β)}

theorem length_le (h : l.Course batches answers x) : answers.length ≤ batches.length := by
  induction h with
  | done => exact Nat.le_refl 0
  | failed | unread => simp
  | more _ _ ih => exact Nat.succ_le_succ ih

theorem ok_iff (h : l.Course batches answers x) :
    (∃ found, x = .ok found) ↔
      answers.length = batches.length ∧ ∀ p ∈ batches.zip answers, l.Usable p.1 p.2 := by
  induction h with
  | done => simp
  | failed keys rest e => simp [Usable]
  | unread keys rest responses e read =>
    have hunusable : ¬ l.Usable keys (.ok responses) := by
      rw [usable_iff, read]
      simp
    simp [hunusable]
  | @more keys rest responses found answers others read later ih =>
    have husable : l.Usable keys (.ok responses) := usable_iff.mpr ⟨found, read⟩
    have hothers : (∃ all, others.map (found ++ ·) = .ok all) ↔ ∃ later, others = .ok later := by
      cases others <;> simp [Except.map]
    rw [hothers, ih]
    simp [husable]

theorem mem_iff (h : l.Course batches answers x) (hx : x = .ok found) {k : κ} {b : β} :
    (k, b) ∈ found ↔ ∃ keys responses, (keys, .ok responses) ∈ batches.zip answers ∧
      ∃ i, keys[i]? = some k ∧ l.readOne responses i = .ok (some b) := by
  induction h generalizing found with
  | done =>
    cases hx
    simp
  | failed | unread => cases hx
  | @more keys rest responses first answers others read later ih =>
    obtain ⟨last, rfl, rfl⟩ := (map_eq_ok_iff _).mp hx
    obtain ⟨-, rfl⟩ := (l.readAnswers_eq_ok_iff _ _ _).mp read
    simp only [List.mem_append, mem_finds, ih rfl, List.zip_cons_cons, List.mem_cons, Prod.mk.injEq,
      Except.ok.injEq]
    constructor
    · rintro (⟨i, hi⟩ | ⟨keys', responses', hmem, hi⟩)
      · exact ⟨keys, responses, .inl ⟨rfl, rfl⟩, i, hi⟩
      · exact ⟨keys', responses', .inr hmem, hi⟩
    · rintro ⟨keys', responses', ⟨rfl, rfl⟩ | hmem, hi⟩
      · exact .inl hi
      · exact .inr ⟨keys', responses', hmem, hi⟩

theorem keys_sublist (h : l.Course batches answers x) (hx : x = .ok found) :
    (found.map Prod.fst).Sublist batches.flatten := by
  induction h generalizing found with
  | done =>
    cases hx
    exact List.Sublist.slnil
  | failed | unread => cases hx
  | more read later ih =>
    obtain ⟨last, rfl, rfl⟩ := (map_eq_ok_iff _).mp hx
    obtain ⟨-, rfl⟩ := (l.readAnswers_eq_ok_iff _ _ _).mp read
    rw [List.map_append, List.flatten_cons]
    exact (keys_finds_sublist _ _).append (ih rfl)

theorem stops (h : l.Course batches answers x) {k : Nat} {keys : List κ}
    {answer : Except TransportError (List Response)} (hkeys : batches[k]? = some keys)
    (hanswer : answers[k]? = some answer) (unusable : ¬ l.Usable keys answer) :
    answers.length = k + 1 ∧ ∃ e, x = .error e := by
  induction h generalizing k with
  | done => simp at hanswer
  | failed | unread =>
    obtain ⟨hlt, -⟩ := List.getElem?_eq_some_iff.mp hanswer
    have hzero : k = 0 := by simpa using hlt
    exact ⟨by simp [hzero], _, rfl⟩
  | more read later ih =>
    cases k with
    | zero =>
      cases hkeys
      cases hanswer
      exact absurd (usable_iff.mpr ⟨_, read⟩) unusable
    | succ k =>
      obtain ⟨hlength, e, rfl⟩ := ih hkeys hanswer
      exact ⟨congrArg Nat.succ hlength, e, rfl⟩

/-- What comes of it depends on what is read from the answers only. -/
theorem agree (h : l.Course batches answers x) (h' : l.Course batches answers' x')
    (alike : ∀ (k : Nat) a a', answers[k]? = some a → answers'[k]? = some a' → l.Alike a a') :
    x = x' ∧ answers.length = answers'.length := by
  -- By induction on the first course: like answers take the same turn, so the second one goes the same way.
  induction h generalizing answers' x' with
  | done =>
    cases h'
    exact ⟨rfl, rfl⟩
  | failed keys rest e =>
    cases h' with
    | failed e' =>
      cases alike 0 _ _ rfl rfl
      exact ⟨rfl, rfl⟩
    | unread | more => cases alike 0 _ _ rfl rfl
  | unread keys rest responses e read =>
    cases h' with
    | failed => cases alike 0 _ _ rfl rfl
    | unread _ _ responses' e' read' =>
      cases alike 0 _ _ rfl rfl with
      | given same =>
        rw [readAnswers_congr same, read'] at read
        cases read
        exact ⟨rfl, rfl⟩
    | more read' =>
      cases alike 0 _ _ rfl rfl with
      | given same =>
        rw [readAnswers_congr same, read'] at read
        cases read
  | more read later ih =>
    cases h' with
    | failed => cases alike 0 _ _ rfl rfl
    | unread _ _ responses' e' read' =>
      cases alike 0 _ _ rfl rfl with
      | given same =>
        rw [readAnswers_congr same, read'] at read
        cases read
    | more read' later' =>
      cases alike 0 _ _ rfl rfl with
      | given same =>
        rw [readAnswers_congr same, read'] at read
        cases read
        obtain ⟨rfl, hlength⟩ := ih later' fun k a a' ha ha' => alike (k + 1) a a' ha ha'
        exact ⟨rfl, congrArg Nat.succ hlength⟩

end Course

end Lookup

end ChainFeed.Family

import ChainFeed.Proofs.Policy.Admission

/-!
# Onlookers of a breaker

A breaker whose cool-down is over becomes half-open when someone looks at it or asks for admission, but
not when it is told of an outcome. Looking at it therefore changes no answer, unless an outcome comes in
late: after the cool-down, and before anyone has asked.
-/

namespace ChainFeed.Breaker

variable {c : Config} {b b' : Breaker} {t now : Nat}

theorem refresh_refresh (h : t ≤ now) : (b.refresh c t).refresh c now = b.refresh c now := by
  cases b with
  | closed | halfOpen => rfl
  | opened since =>
    by_cases due : since + c.openFor ≤ t
    · have hdue : since + c.openFor ≤ now := Nat.le_trans due h
      simp [refresh, due, hdue]
    · simp [refresh, due]

theorem refresh_eq_self_of_le (h : t ≤ now) (settled : b.refresh c now = b) : b.refresh c t = b := by
  cases b with
  | closed | halfOpen => rfl
  | opened since =>
    have early : ¬ since + c.openFor ≤ now := by
      intro due
      simp [refresh, due] at settled
    have hearly : ¬ since + c.openFor ≤ t := fun due => early (Nat.le_trans due h)
    simp [refresh, hearly]

theorem acquire_congr (h : b'.refresh c now = b.refresh c now) : b'.acquire c now = b.acquire c now := by
  simp only [acquire, h]

def afterAll (c : Config) (b : Breaker) (events : List Event) : Breaker :=
  events.foldl (fun b e => b.after c e.time e.use) b

/-- What those who ask for admission are answered. -/
def admissions (c : Config) : Breaker → List Event → List Bool
  | _, [] => []
  | b, e :: rest =>
    (if e.use = .acquire then [b.admits c e.time] else []) ++ admissions c (b.after c e.time e.use) rest

/-- What they are answered by a breaker that becomes half-open as soon as its cool-down is over. -/
def promptAdmissions (c : Config) : Breaker → List Event → List Bool
  | _, [] => []
  | b, e :: rest =>
    let b := b.refresh c e.time
    (if e.use = .acquire then [b.admits c e.time] else []) ++
      promptAdmissions c (b.after c e.time e.use) rest

def Ordered (events : List Event) : Prop := events.Pairwise fun e e' => e.time ≤ e'.time

instance (events : List Event) : Decidable (Ordered events) :=
  inferInstanceAs (Decidable (events.Pairwise _))

def unwatched (events : List Event) : List Event := events.filter (·.use != .observe)

def prompted (events : List Event) : List Event := events.flatMap fun e => [⟨e.time, .observe⟩, e]

/-- An outcome is told to an open breaker whose cool-down is over. -/
def IsLate (c : Config) (b : Breaker) (e : Event) : Prop :=
  e.use.isRecord = true ∧ b.refresh c e.time ≠ b

instance (c : Config) (b : Breaker) (e : Event) : Decidable (IsLate c b e) :=
  inferInstanceAs (Decidable (_ ∧ _))

/-- No outcome is late. -/
def Timely (c : Config) (b : Breaker) (events : List Event) : Prop :=
  ∀ before e after, events = before ++ e :: after → ¬ IsLate c (afterAll c b before) e

theorem timely_cons_iff {e : Event} {rest : List Event} :
    Timely c b (e :: rest) ↔ ¬ IsLate c b e ∧ Timely c (b.after c e.time e.use) rest := by
  constructor
  · intro h
    refine ⟨h [] e rest rfl, fun before e' after hrest => ?_⟩
    exact h (e :: before) e' after (congrArg (e :: ·) hrest)
  · rintro ⟨hhead, htail⟩ before e' after hwhole
    cases before with
    | nil =>
      cases hwhole
      exact hhead
    | cons e₁ before =>
      cases hwhole
      exact htail before e' after rfl

instance decidableTimely (c : Config) : (b : Breaker) → (events : List Event) → Decidable (Timely c b events)
  | _, [] => .isTrue fun _ _ _ h => by simp at h
  | b, e :: rest =>
    have : Decidable (Timely c (b.after c e.time e.use) rest) := decidableTimely c _ rest
    decidable_of_iff _ timely_cons_iff.symm

theorem admissions_append (b : Breaker) (events more : List Event) :
    admissions c b (events ++ more) = admissions c b events ++ admissions c (afterAll c b events) more := by
  induction events generalizing b with
  | nil => rfl
  | cons e rest ih => simp [admissions, afterAll, ih]

theorem unwatched_prompted (events : List Event) : unwatched (prompted events) = unwatched events := by
  induction events with
  | nil => rfl
  | cons e rest ih =>
    change unwatched (e :: prompted rest) = unwatched (e :: rest)
    simp only [unwatched, List.filter_cons] at ih ⊢
    rw [ih]

theorem Ordered.extend {before more : List Event} {e : Event} (h : Ordered (before ++ [e]))
    (same : ∀ e' ∈ more, e'.time = e.time) : Ordered (before ++ e :: more) := by
  obtain ⟨hbefore, -, hlast⟩ := List.pairwise_append.mp h
  have hmore : Ordered more := by
    refine List.pairwise_of_forall_mem_list fun e₁ h₁ e₂ h₂ => ?_
    exact Nat.le_of_eq ((same e₁ h₁).trans (same e₂ h₂).symm)
  have hnext : ∀ e' ∈ e :: more, e'.time = e.time := List.forall_mem_cons.mpr ⟨rfl, same⟩
  refine List.pairwise_append.mpr ⟨hbefore, List.pairwise_cons.mpr ⟨?_, hmore⟩, ?_⟩
  · exact fun e' he' => Nat.le_of_eq (same e' he').symm
  · intro e₁ h₁ e₂ h₂
    rw [hnext e₂ h₂]
    exact hlast e₁ h₁ e List.mem_cons_self

theorem Ordered.prompted {events : List Event} (h : Ordered events) : Ordered (prompted events) := by
  induction events with
  | nil => exact .nil
  | cons e rest ih =>
    obtain ⟨hlater, hrest⟩ := List.pairwise_cons.mp h
    have hall : ∀ e' ∈ Breaker.prompted rest, e.time ≤ e'.time := by
      intro e' he'
      obtain ⟨x, hx, hmem⟩ := List.mem_flatMap.mp he'
      have hx := hlater x hx
      simp only [List.mem_cons, List.not_mem_nil, or_false] at hmem
      rcases hmem with rfl | rfl <;> exact hx
    refine List.pairwise_cons.mpr ⟨?_, List.pairwise_cons.mpr ⟨hall, ih hrest⟩⟩
    exact List.forall_mem_cons.mpr ⟨Nat.le_refl _, hall⟩

theorem admissions_prompted (b : Breaker) (events : List Event) :
    admissions c b (prompted events) = promptAdmissions c b events := by
  induction events generalizing b with
  | nil => rfl
  | cons e rest ih => exact congrArg _ (ih _)

/-- The first breaker is the second one, or what it becomes when someone looks at a moment before these
uses. -/
def Ahead (c : Config) (b' b : Breaker) (events : List Event) : Prop :=
  b' = b ∨ ∃ t, (∀ e ∈ events, t ≤ e.time) ∧ b' = b.refresh c t

theorem Ahead.refresh_eq {e : Event} {rest : List Event} (h : Ahead c b' b (e :: rest)) :
    b'.refresh c e.time = b.refresh c e.time := by
  rcases h with rfl | ⟨t, hbefore, rfl⟩
  · rfl
  · exact refresh_refresh (hbefore e List.mem_cons_self)

theorem Ahead.eq_of_settled {e : Event} {rest : List Event} (h : Ahead c b' b (e :: rest))
    (settled : b.refresh c e.time = b) : b' = b := by
  rcases h with rfl | ⟨t, hbefore, rfl⟩
  · rfl
  · exact refresh_eq_self_of_le (hbefore e List.mem_cons_self) settled

theorem Ahead.admissions_eq {events : List Event} (h : Ahead c b' b events) (ordered : Ordered events)
    (timely : Timely c b (unwatched events)) : admissions c b' events = admissions c b (unwatched events) := by
  induction events generalizing b b' with
  | nil => rfl
  | cons e rest ih =>
    obtain ⟨hlater, hrest⟩ := List.pairwise_cons.mp ordered
    have hrefresh := h.refresh_eq
    obtain ⟨time, use⟩ := e
    cases use with
    | observe => exact ih (.inr ⟨time, hlater, hrefresh⟩) hrest timely
    | acquire =>
      have hacquire : b'.acquire c time = b.acquire c time := acquire_congr hrefresh
      have hafter : b'.after c time .acquire = b.after c time .acquire := congrArg Prod.snd hacquire
      have hadmits : b'.admits c time = b.admits c time := congrArg Prod.fst hacquire
      have hnext := ih (.inl hafter) hrest (timely_cons_iff.mp timely).2
      simp only [unwatched, admissions, List.filter_cons] at hnext ⊢
      simp [hadmits, hnext, admissions]
    | succeed | fail =>
      obtain ⟨hhead, htail⟩ := timely_cons_iff.mp timely
      have settled : b.refresh c time = b := Decidable.byContradiction fun hlate => hhead ⟨rfl, hlate⟩
      obtain rfl := h.eq_of_settled settled
      exact ih (.inl rfl) hrest htail

def successesAt (t n : Nat) : List Event := List.replicate n ⟨t, .succeed⟩

theorem admissions_successesAt (b : Breaker) (t n : Nat) (more : List Event) :
    admissions c b (successesAt t n ++ more) = admissions c (afterAll c b (successesAt t n)) more := by
  induction n generalizing b with
  | zero => rfl
  | succ n ih => exact ih (b.succeed c)

theorem afterAll_opened (since t n : Nat) : afterAll c (.opened since) (successesAt t n) = .opened since := by
  induction n with
  | zero => rfl
  | succ n ih => exact ih

theorem afterAll_closed (t n : Nat) : afterAll c (.closed 0) (successesAt t n) = .closed 0 := by
  induction n with
  | zero => rfl
  | succ n ih => exact ih

theorem afterAll_halfOpen (t : Nat) {n k : Nat} {trial : Option Nat}
    (enough : c.successThreshold ≤ k + (n + 1)) :
    afterAll c (.halfOpen k trial) (successesAt t (n + 1)) = .closed 0 := by
  induction n generalizing k trial with
  | zero => simp [successesAt, afterAll, after, succeed, enough]
  | succ n ih =>
    change afterAll c (if c.successThreshold ≤ k + 1 then .closed 0 else .halfOpen (k + 1) none)
      (successesAt t (n + 1)) = .closed 0
    split
    · exact afterAll_closed t (n + 1)
    · exact ih (by omega)

private def pair (t : Nat) : List Event := [⟨t, .acquire⟩, ⟨t, .acquire⟩]

private theorem pair_closed : admissions c (.closed 0) (pair t) = [true, true] := rfl

section

variable (cool : 0 < c.openFor)
include cool

private theorem pair_due {since : Nat} (due : since + c.openFor ≤ t) :
    admissions c (.opened since) (pair t) = [true, false] := by
  simp [pair, admissions, admits, after, acquire, refresh, due, cool]

private theorem pair_opened : admissions c (.opened t) (pair t) = [false, false] := by
  have early : ¬ t + c.openFor ≤ t := by omega
  simp [pair, admissions, admits, after, acquire, refresh, early]

/-- A late outcome counts if someone has looked, and does not count if nobody has. What comes next is
answered accordingly. -/
theorem IsLate.shows {e : Event} (late : IsLate c b e) :
    ∃ more : List Event, (∀ e' ∈ more, e'.time = e.time) ∧
      admissions c b (⟨e.time, .observe⟩ :: e :: more) ≠ admissions c b (e :: more) := by
  obtain ⟨time, use⟩ := e
  obtain ⟨hrecord, hchanged⟩ := late
  cases b with
  | closed | halfOpen => exact absurd rfl hchanged
  | opened since =>
    have due : since + c.openFor ≤ time := Decidable.byContradiction fun early => hchanged (if_neg early)
    have hlook : (opened since).after c time .observe = .halfOpen 0 none := if_pos due
    -- As many successes as it takes to close a half-open breaker, and then two calls.
    refine ⟨successesAt time (c.successThreshold - 1) ++ pair time, ?_, ?_⟩
    · intro e' he'
      rcases List.mem_append.mp he' with he' | he'
      · rw [List.eq_of_mem_replicate he']
      · simp only [pair, List.mem_cons, List.not_mem_nil, or_false, or_self] at he'
        rw [he']
    · have hplain : admissions c (.opened since) (successesAt time (c.successThreshold - 1) ++ pair time) =
          [true, false] := by
        rw [admissions_successesAt, afterAll_opened, pair_due cool due]
      cases use with
      | observe | acquire => cases hrecord
      | succeed =>
        have hclosed : admissions c (.halfOpen 0 none)
            (successesAt time (c.successThreshold - 1 + 1) ++ pair time) = [true, true] := by
          rw [admissions_successesAt, afterAll_halfOpen time (by omega), pair_closed]
        intro hsame
        change admissions c ((opened since).after c time .observe)
          (successesAt time (c.successThreshold - 1 + 1) ++ pair time) =
            admissions c (.opened since) (successesAt time (c.successThreshold - 1) ++ pair time) at hsame
        rw [hlook, hclosed, hplain] at hsame
        cases hsame
      | fail =>
        have hreopened : admissions c (.opened time)
            (successesAt time (c.successThreshold - 1) ++ pair time) = [false, false] := by
          rw [admissions_successesAt, afterAll_opened, pair_opened cool]
        intro hsame
        change admissions c (((opened since).after c time .observe).fail c time)
          (successesAt time (c.successThreshold - 1) ++ pair time) =
            admissions c (.opened since) (successesAt time (c.successThreshold - 1) ++ pair time) at hsame
        rw [hlook, hplain] at hsame
        cases hsame.symm.trans hreopened

end

theorem admissions_of_no_cool_down (uncooled : c.openFor = 0) {events : List Event} (ordered : Ordered events)
    (past : ∀ t ∈ b.blockedSince, ∀ e ∈ events, t ≤ e.time) :
    admissions c b events = (events.filter (·.use == .acquire)).map fun _ => true := by
  induction events generalizing b with
  | nil => rfl
  | cons e rest ih =>
    obtain ⟨hlater, hrest⟩ := List.pairwise_cons.mp ordered
    have hadmits : b.admits c e.time = true := by
      refine admits_iff.mpr fun t ht => ?_
      rw [uncooled]
      exact past t ht e List.mem_cons_self
    have hnext := ih (b := b.after c e.time e.use) hrest ?_
    · by_cases hacquire : e.use = .acquire
      · rw [hacquire] at hnext
        simp [admissions, hacquire, hadmits, hnext]
      · simp [admissions, hacquire, hnext]
    · intro t ht e' he'
      rcases (step_after c e.time b e.use).blockedSince t ht with rfl | hbefore
      · exact hlater e' he'
      · exact past t hbefore e' (List.mem_cons_of_mem e he')

/-- Looking at a breaker, at any moments and however often, changes none of the answers of calls that ask
for admission, and a breaker that becomes half-open as soon as its cool-down is over gives the same
answers, as long as no outcome is late, or if there is no cool-down. But where an outcome is late, looking
once right before it changes the answers of calls that come next. -/
theorem looks_show_when_late (c : Config) :
    (∀ events, Ordered events → Timely c .initial (unwatched events) ∨ c.openFor = 0 →
      admissions c .initial events = admissions c .initial (unwatched events) ∧
        promptAdmissions c .initial events = admissions c .initial (unwatched events)) ∧
    (0 < c.openFor → ∀ before e, Ordered (before ++ [e]) → IsLate c (afterAll c .initial before) e →
      ∃ more, Ordered (before ++ e :: more) ∧
        admissions c .initial (before ++ ⟨e.time, .observe⟩ :: e :: more) ≠
          admissions c .initial (before ++ e :: more)) := by
  have hsame : ∀ events, Ordered events → Timely c .initial (unwatched events) ∨ c.openFor = 0 →
      admissions c .initial events = admissions c .initial (unwatched events) := by
    rintro events ordered (timely | uncooled)
    · exact Ahead.admissions_eq (.inl rfl) ordered timely
    · have hplain : Ordered (unwatched events) := List.Pairwise.filter _ ordered
      have hfree : ∀ es : List Event, ∀ t ∈ Breaker.initial.blockedSince, ∀ e ∈ es, t ≤ e.time :=
        fun _ _ ht => nomatch ht
      rw [admissions_of_no_cool_down uncooled ordered (hfree _),
        admissions_of_no_cool_down uncooled hplain (hfree _), unwatched, List.filter_filter]
      congr 2
      funext e
      cases e.use <;> rfl
  refine ⟨fun events ordered h => ⟨hsame events ordered h, ?_⟩, ?_⟩
  · rw [← admissions_prompted, ← unwatched_prompted]
    exact hsame _ ordered.prompted ((unwatched_prompted events).symm ▸ h)
  · intro cool before e ordered late
    obtain ⟨more, htimes, hshows⟩ := late.shows cool
    refine ⟨more, ordered.extend htimes, ?_⟩
    · rw [admissions_append, admissions_append]
      exact fun h => hshows (List.append_cancel_left h)

private def watchedDay : List Event :=
  [⟨0, .fail⟩, ⟨20, .observe⟩, ⟨25, .acquire⟩, ⟨26, .fail⟩, ⟨30, .succeed⟩, ⟨46, .observe⟩, ⟨50, .acquire⟩,
    ⟨50, .observe⟩, ⟨51, .succeed⟩, ⟨52, .acquire⟩, ⟨52, .acquire⟩]

private def impatient : Config := { failureThreshold := 1, openFor := 20, successThreshold := 1 }

theorem watchedDay_shows_nothing :
    Ordered watchedDay ∧ Timely impatient .initial (unwatched watchedDay) ∧
      admissions impatient .initial (unwatched watchedDay) = [true, true, true, true] ∧
      admissions impatient .initial watchedDay = [true, true, true, true] ∧
      IsLate impatient (afterAll impatient .initial [⟨0, .fail⟩]) ⟨20, .succeed⟩ ∧
      ∃ more, admissions impatient .initial (⟨0, .fail⟩ :: ⟨20, .observe⟩ :: ⟨20, .succeed⟩ :: more) ≠
        admissions impatient .initial (⟨0, .fail⟩ :: ⟨20, .succeed⟩ :: more) := by
  have ordered : Ordered watchedDay := by decide
  have timely : Timely impatient .initial (unwatched watchedDay) := by decide
  have late : IsLate impatient (afterAll impatient .initial [⟨0, .fail⟩]) ⟨20, .succeed⟩ := by decide
  have hplain : admissions impatient .initial (unwatched watchedDay) = [true, true, true, true] := by decide
  obtain ⟨hunseen, hshows⟩ := looks_show_when_late impatient
  obtain ⟨more, -, hmore⟩ := hshows (by decide) [⟨0, .fail⟩] ⟨20, .succeed⟩ (by decide) late
  exact ⟨ordered, timely, hplain, (hunseen watchedDay ordered (.inl timely)).1.trans hplain, late, more, hmore⟩

def LooksUnseen (c : Config) : Prop :=
  ∀ events, Ordered events → admissions c .initial events = admissions c .initial (unwatched events)

def IsPrompt (c : Config) : Prop :=
  ∀ events, Ordered events → admissions c .initial events = promptAdmissions c .initial events

theorem late_outcome_shows : ∃ c : Config, 0 < c.openFor ∧ ¬ LooksUnseen c ∧ ¬ IsPrompt c := by
  refine ⟨impatient, by decide, fun unseen => ?_, fun prompt => ?_⟩
  · have hsame := unseen [⟨0, .fail⟩, ⟨20, .observe⟩, ⟨20, .succeed⟩, ⟨20, .acquire⟩, ⟨20, .acquire⟩] (by decide)
    revert hsame
    decide
  · have hsame := prompt [⟨0, .fail⟩, ⟨20, .succeed⟩, ⟨20, .acquire⟩, ⟨20, .acquire⟩] (by decide)
    revert hsame
    decide

end ChainFeed.Breaker

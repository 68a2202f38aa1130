import ChainFeed.Rehearsal.World

/-!
# Chains that do not feel each other

Many calls go through one guarded repository at once, while the repository behind the guards answers when
and what it likes. Each call keeps to the guard of its chain (`Request.keeps`). What becomes of the calls of
one chain is therefore a matter of what happens to this chain, and of nothing else (`State.view_run`).
-/

namespace ChainFeed

open Rehearsal (Question Finding)

namespace Crowd

structure Site where
  guards : Guards := []
  counters : Counters := []
  /-- What the repository behind the guards answers, at a moment when it answers. -/
  reply : Option (Repository Id) := none
  invoked : Nat := 0

def nowhere : Repository Id where
  height chain _ := .error (.unknownChain chain)
  blocks chain _ _ := .error (.unknownChain chain)
  block chain _ _ := .error (.unknownChain chain)
  logs chain _ := .error (.unknownChain chain)
  receipts chain _ := .error (.unknownChain chain)

/-- Calls the repository behind the guards and waits for its answer, however long it takes. -/
def asking {α : Type} (pick : Repository Id → α) : Activity Site α :=
  .act (fun _ w => ((), { w with invoked := w.invoked + 1 })) fun _ =>
    .wait none (·.reply.isSome) (.act (fun _ w => (pick (w.reply.getD nowhere), { w with reply := none })) .done)

def delegate : Repository (Activity Site) where
  height chain tag := asking (·.height chain tag)
  blocks chain numbers full := asking (·.blocks chain numbers full)
  block chain tag full := asking (·.block chain tag full)
  logs chain filter := asking (·.logs chain filter)
  receipts chain refs := asking (·.receipts chain refs)

def post (c : Resilience) : GuardPost (Activity Site) where
  config := c
  guards := Activity.shared (·.guards) fun gs w => { w with guards := gs }
  count m := Activity.update fun _ w => ((), { w with counters := w.counters.record m })

inductive Request where
  | call (question : Question)
  | circuit (chain : String)

inductive Answer where
  | call (result : Except RepositoryError Finding)
  | circuit (phase : Breaker.Phase)

namespace Request

def chain : Request → String
  | .call (.height chain _) | .call (.blocks chain _ _) | .call (.block chain _ _) | .call (.logs chain _)
  | .call (.receipts chain _) | .circuit chain => chain

def run (c : Resilience) : Request → Activity Site Answer
  | .call question => do return .call (← question.ask ((post c).repository delegate))
  | .circuit chain => do return .circuit (← (post c).phase chain)

end Request

/-- A request and how far it has come. -/
structure Entry where
  chain : String
  key : Nat
  /-- How often it has called the repository behind the guards. -/
  invoked : Nat
  progress : Activity.Progress Site Answer

/-- A turn of a request: it goes on if it is one of those that may, and does not have to wait any longer. -/
def Entry.turn (may : Entry → Bool) (now : Nat) (reply : Option (Repository Id)) (e : Entry) (w : Site) :
    Entry × Site :=
  match may e, e.progress with
  | true, .waiting x =>
    let (progress, w) := x.resume (some now) now { w with reply, invoked := 0 }
    ({ e with progress, invoked := e.invoked + w.invoked }, w)
  | _, _ => (e, w)

def turns (may : Entry → Bool) (now : Nat) (reply : Option (Repository Id)) : List Entry → Site → List Entry × Site
  | [], w => ([], w)
  | e :: rest, w =>
    let (e, w) := e.turn may now reply w
    let (rest, w) := turns may now reply rest w
    (e :: rest, w)

structure State where
  now : Nat := 0
  site : Site := {}
  /-- The earliest first. -/
  entries : List Entry := []

inductive Event where
  | tick
  | made (key : Nat) (request : Request)
  /-- The repository behind the guards answers a call. -/
  | answered (chain : String) (key : Nat) (reply : Repository Id)

/-- Whether something happens to a chain; time passes for all of them. -/
def Event.concerns (chain : String) : Event → Bool
  | .tick => true
  | .made _ request => request.chain = chain
  | .answered other _ _ => other = chain

namespace State

def letGo (s : State) (may : Entry → Bool) (reply : Option (Repository Id)) : State :=
  let (entries, site) := turns may s.now reply s.entries s.site
  { s with entries, site }

def step (c : Resilience) (s : State) : Event → State
  | .tick => { s with now := s.now + 1 }.letGo (fun _ => true) none
  | .made key request =>
    let (progress, site) := (request.run c).runUntil (some s.now) s.now { s.site with reply := none, invoked := 0 }
    { s with site, entries := s.entries ++ [⟨request.chain, key, site.invoked, progress⟩] }
  | .answered chain key reply => s.letGo (fun e => e.chain = chain && e.key = key) (some reply)

def run (c : Resilience) (s : State) (events : List Event) : State := events.foldl (step c) s

end State

structure Alike (chain : String) (w w' : Site) : Prop where
  guard : w.guards.get? chain = w'.guards.get? chain
  reply : w.reply = w'.reply
  invoked : w.invoked = w'.invoked

/-- A use of a site that uses the guard of no other chain, and learns nothing of the others. -/
structure Local (chain : String) {α : Type u} (use : Site → α × Site) : Prop where
  alike : ∀ w w', Alike chain w w' → (use w).1 = (use w').1 ∧ Alike chain (use w).2 (use w').2
  others : ∀ w other, other ≠ chain → (use w).2.guards.get? other = w.guards.get? other

inductive Keeps (chain : String) {α : Type} : Activity Site α → Prop
  | done (a : α) : Keeps chain (.done a)
  | act {β : Type} {use : Nat → Site → β × Site} {next : β → Activity Site α}
      (uses : ∀ now, Local chain (use now)) (goes_on : ∀ b, Keeps chain (next b)) : Keeps chain (.act use next)
  | wait (ms : Option Nat) {wakeWhen : Site → Bool} {next : Activity Site α}
      (wakes : ∀ w w', Alike chain w w' → wakeWhen w = wakeWhen w') (goes_on : Keeps chain next) :
      Keeps chain (.wait ms wakeWhen next)

variable {chain : String} {α β : Type}

theorem local_const {α : Type u} (a : α) : Local chain fun w => (a, w) where
  alike _ _ h := ⟨rfl, h⟩
  others _ _ _ := rfl

theorem Keeps.bind {x : Activity Site α} {f : α → Activity Site β} (hx : Keeps chain x)
    (hf : ∀ a, Keeps chain (f a)) : Keeps chain (x >>= f) := by
  induction hx with
  | done a => exact hf a
  | act uses _ ih => exact .act uses ih
  | wait ms wakes _ ih => exact .wait ms wakes ih

theorem keeps_now : Keeps chain (Clock.now : Activity Site Nat) := .act (fun now => local_const now) .done

theorem keeps_sleep (ms : Nat) : Keeps chain (Clock.sleep ms : Activity Site PUnit) := by
  change Keeps chain (if ms = 0 then pure () else .wait (some ms) (fun _ => false) (pure ()))
  split
  · exact .done ()
  · exact .wait _ (fun _ _ _ => rfl) (.done ())

theorem keeps_on (c : Resilience) (f : Nat → Guard → α × Guard) : Keeps chain ((post c).on chain f) := by
  refine keeps_now.bind fun now => .act (fun _ => ⟨?_, ?_⟩) .done
  · rintro w w' ⟨guard, reply, invoked⟩
    refine ⟨?_, ?_, reply, invoked⟩
    · simp only [post, Guards.on, guard]
    · simp only [post, Guards.on, guard, Table.get?_insert_self]
  · intro w other h
    exact Table.get?_insert_of_ne w.guards h _

theorem keeps_count (c : Resilience) (m : Metric) : Keeps chain ((post c).count m) :=
  .act (fun _ => ⟨fun _ _ h => ⟨rfl, h.guard, h.reply, h.invoked⟩, fun _ _ _ => rfl⟩) .done

theorem keeps_asking (pick : Repository Id → α) : Keeps chain (asking pick) := by
  refine .act (fun _ => ⟨?invokes, fun _ _ _ => rfl⟩) fun _ =>
    .wait none ?wakes (.act (fun _ => ⟨?picks, fun _ _ _ => rfl⟩) .done)
  case invokes =>
    rintro w w' ⟨guard, reply, invoked⟩
    exact ⟨rfl, guard, reply, congrArg (· + 1) invoked⟩
  case wakes =>
    rintro w w' ⟨guard, reply, invoked⟩
    exact congrArg Option.isSome reply
  case picks =>
    rintro w w' ⟨guard, reply, invoked⟩
    exact ⟨by rw [reply], guard, rfl, invoked⟩

theorem keeps_round (c : Resilience) (method : String) {call : Activity Site (Except RepositoryError α)}
    (h : Keeps chain call) : Keeps chain ((post c).round chain method call) := by
  unfold GuardPost.round
  refine (keeps_on c _).bind fun phase => ?_
  split
  · exact .done _
  refine (keeps_on c _).bind fun given => ?_
  split
  · exact .done _
  refine (keeps_on c _).bind fun admitted => ?_
  split
  · exact .done _
  exact h.bind fun result => (keeps_on c _).bind fun _ => (keeps_count c _).bind fun _ => .done _

theorem keeps_repeatFrom {ε : Type} (r : Retry) (retryable : ε → Bool) {action : Activity Site (Except ε α)}
    (h : Keeps chain action) (left attempt : Nat) :
    Keeps chain (r.repeatFrom retryable action left attempt) := by
  induction left generalizing attempt with
  | zero => exact h
  | succ left ih =>
    refine h.bind fun result => ?_
    cases result with
    | ok value => exact .done _
    | error e =>
      dsimp only
      split
      · exact (keeps_sleep _).bind fun _ => ih (attempt + 1)
      · exact .done _

theorem keeps_call (c : Resilience) (method : String) {call : Activity Site (Except RepositoryError α)}
    (h : Keeps chain call) : Keeps chain ((post c).call chain method call) :=
  keeps_repeatFrom _ _ (keeps_round c method h) _ _

theorem keeps_ask (c : Resilience) (question : Question) :
    Keeps (Request.call question).chain (question.ask ((post c).repository delegate)) := by
  cases question with
  | height | blocks | block | logs | receipts =>
    simp only [Request.chain, Question.ask, GuardPost.repository, delegate]
    exact (keeps_call c _ (keeps_asking _)).bind fun _ => .done _

theorem Request.keeps (c : Resilience) (r : Request) : Keeps r.chain (r.run c) := by
  cases r with
  | circuit chain => exact (keeps_on c _).bind fun _ => .done _
  | call question => exact (keeps_ask c question).bind fun _ => .done _

theorem Local.andThen {α : Type u} {β : Type v} {use : Site → α × Site} {next : α → Site → β × Site}
    (first : Local chain use) (second : ∀ a, Local chain (next a)) :
    Local chain fun w => next (use w).1 (use w).2 where
  alike w w' h := by
    obtain ⟨hresult, hafter⟩ := first.alike w w' h
    rw [hresult]
    exact (second _).alike _ _ hafter
  others w other h := ((second _).others _ other h).trans (first.others w other h)

theorem Local.ite {α : Type u} {test : Site → Bool} {use use' : Site → α × Site}
    (tests : ∀ w w', Alike chain w w' → test w = test w') (yes : Local chain use) (no : Local chain use') :
    Local chain fun w => if test w then use w else use' w where
  alike w w' h := by
    rw [tests w w' h]
    split
    · exact yes.alike w w' h
    · exact no.alike w w' h
  others w other h := by
    split
    · exact yes.others w other h
    · exact no.others w other h

/-- What a request does after its wait is local to a chain. -/
def Waits (chain : String) : Activity.Progress Site α → Prop
  | .ended _ _ => True
  | .waiting x => Keeps chain (.wait x.wake x.wakeWhen x.next)

theorem Keeps.local_runUntil {a : Activity Site α} (h : Keeps chain a) (limit : Option Nat) (now : Nat) :
    Local chain (a.runUntil limit now) := by
  induction h generalizing now with
  | done a => exact local_const _
  | act uses _ ih => exact (uses now).andThen fun b => ih b now
  | wait ms wakes _ ih =>
    refine .ite wakes (ih now) ?_
    cases ms with
    | none => exact local_const _
    | some d =>
      by_cases hreach : Activity.reachable limit (now + d) = true
      · simp only [hreach, if_true]
        exact ih (now + d)
      · simp only [hreach]
        exact local_const _

theorem Keeps.waits_runUntil {a : Activity Site α} (h : Keeps chain a) (limit : Option Nat) (now : Nat)
    (w : Site) : Waits chain (a.runUntil limit now w).1 := by
  induction h generalizing now w with
  | done a => trivial
  | act _ _ ih => exact ih _ now _
  | wait ms wakes goes_on ih =>
    unfold Activity.runUntil
    split
    · exact ih now w
    · cases ms with
      | none => exact .wait none wakes goes_on
      | some d =>
        dsimp only
        split
        · exact ih (now + d) w
        · exact .wait _ wakes goes_on

theorem Waits.local_resume {x : Activity.Suspended Site α} (h : Waits chain (.waiting x)) (limit : Option Nat)
    (now : Nat) : Local chain (x.resume limit now) := by
  cases h with
  | wait _ wakes goes_on =>
    refine .ite wakes (goes_on.local_runUntil limit now) ?_
    cases x.wake with
    | none => exact local_const _
    | some t =>
      by_cases hreach : Activity.reachable limit t = true
      · simp only [hreach, if_true]
        exact goes_on.local_runUntil limit (max now t)
      · simp only [hreach]
        exact local_const _

theorem Waits.waits_resume {x : Activity.Suspended Site α} (h : Waits chain (.waiting x)) (limit : Option Nat)
    (now : Nat) (w : Site) : Waits chain (x.resume limit now w).1 := by
  have hnext : Keeps chain x.next := by
    cases h with
    | wait _ _ goes_on => exact goes_on
  unfold Activity.Suspended.resume
  split
  · exact hnext.waits_runUntil limit now w
  · cases x.wake with
    | none => exact h
    | some t =>
      dsimp only
      split
      · exact hnext.waits_runUntil limit (max now t) w
      · exact h

def Entry.IsLocal (e : Entry) : Prop := Waits e.chain e.progress

variable {may : Entry → Bool} {now : Nat} {reply : Option (Repository Id)} {e : Entry} {w w' : Site}

namespace Entry

theorem chain_turn : (e.turn may now reply w).1.chain = e.chain := by
  unfold turn
  split <;> rfl

theorem turn_of_not (h : may e = false) : e.turn may now reply w = (e, w) := by
  simp [turn, h]

theorem IsLocal.turn (h : e.IsLocal) : (e.turn may now reply w).1.IsLocal := by
  unfold Entry.turn
  split
  · next x _ hprogress =>
    have hwaits : Waits e.chain (.waiting x) := hprogress ▸ h
    exact hwaits.waits_resume _ _ _
  · exact h

theorem IsLocal.turn_others (h : e.IsLocal) {other : String} (hne : other ≠ e.chain) :
    (e.turn may now reply w).2.guards.get? other = w.guards.get? other := by
  unfold Entry.turn
  split
  · next x _ hprogress =>
    have hwaits : Waits e.chain (.waiting x) := hprogress ▸ h
    exact (hwaits.local_resume _ _).others _ other hne
  · rfl

theorem IsLocal.turn_alike (may : Entry → Bool) (now : Nat) (reply : Option (Repository Id)) (h : e.IsLocal)
    (same : w.guards.get? e.chain = w'.guards.get? e.chain) :
    (e.turn may now reply w).1 = (e.turn may now reply w').1 ∧
      (e.turn may now reply w).2.guards.get? e.chain = (e.turn may now reply w').2.guards.get? e.chain := by
  unfold Entry.turn
  split
  · next x _ hprogress =>
    have hwaits : Waits e.chain (.waiting x) := hprogress ▸ h
    obtain ⟨hresult, halike⟩ := (hwaits.local_resume (some now) now).alike
      { w with reply, invoked := 0 } { w' with reply, invoked := 0 } ⟨same, rfl, rfl⟩
    exact ⟨by simp only [hresult, halike.invoked], halike.guard⟩
  · exact ⟨rfl, same⟩

end Entry

variable {entries : List Entry}

theorem turns_cons (e : Entry) (rest : List Entry) (w : Site) :
    turns may now reply (e :: rest) w =
      ((e.turn may now reply w).1 :: (turns may now reply rest (e.turn may now reply w).2).1,
        (turns may now reply rest (e.turn may now reply w).2).2) := rfl

theorem turns_of_none (h : ∀ e ∈ entries, may e = false) (w : Site) :
    turns may now reply entries w = (entries, w) := by
  induction entries with
  | nil => rfl
  | cons e rest ih =>
    obtain ⟨hhead, hrest⟩ := List.forall_mem_cons.mp h
    rw [turns_cons, Entry.turn_of_not hhead, ih hrest]

theorem turns_isLocal (h : ∀ e ∈ entries, e.IsLocal) (w : Site) :
    ∀ e ∈ (turns may now reply entries w).1, e.IsLocal := by
  induction entries generalizing w with
  | nil => exact h
  | cons e rest ih =>
    obtain ⟨hhead, hrest⟩ := List.forall_mem_cons.mp h
    exact List.forall_mem_cons.mpr ⟨hhead.turn, ih hrest _⟩

/-- The requests of a chain take their turns as if there were no others. -/
theorem turns_filter (may : Entry → Bool) (now : Nat) (reply : Option (Repository Id))
    (h : ∀ e ∈ entries, e.IsLocal) (same : w.guards.get? chain = w'.guards.get? chain) :
    (turns may now reply entries w).1.filter (·.chain = chain) =
        (turns may now reply (entries.filter (·.chain = chain)) w').1 ∧
      (turns may now reply entries w).2.guards.get? chain =
        (turns may now reply (entries.filter (·.chain = chain)) w').2.guards.get? chain := by
  induction entries generalizing w w' with
  | nil => exact ⟨rfl, same⟩
  | cons e rest ih =>
    obtain ⟨hhead, hrest⟩ := List.forall_mem_cons.mp h
    by_cases hchain : e.chain = chain
    · subst hchain
      obtain ⟨hentry, hguard⟩ := hhead.turn_alike may now reply same
      obtain ⟨hentries, hafter⟩ := ih hrest hguard
      rw [List.filter_cons_of_pos (by simp), turns_cons, turns_cons,
        List.filter_cons_of_pos (by simp [Entry.chain_turn])]
      exact ⟨congr (congrArg List.cons hentry) hentries, hafter⟩
    · have hkept : (e.turn may now reply w).2.guards.get? chain = w'.guards.get? chain :=
        (hhead.turn_others (Ne.symm hchain)).trans same
      rw [List.filter_cons_of_neg (by simpa using hchain), turns_cons,
        List.filter_cons_of_neg (by simpa [Entry.chain_turn] using hchain)]
      exact ih hrest hkept

/-- What there is of a chain: its guard and the requests that were made of it. -/
structure View where
  now : Nat
  guard : Option Guard
  entries : List Entry

namespace State

variable {c : Resilience} {s s' : State} {event : Event}

def view (chain : String) (s : State) : View :=
  ⟨s.now, s.site.guards.get? chain, s.entries.filter (·.chain = chain)⟩

def IsLocal (s : State) : Prop := ∀ e ∈ s.entries, e.IsLocal

theorem IsLocal.letGo (h : s.IsLocal) : (s.letGo may reply).IsLocal := turns_isLocal h _

theorem IsLocal.step (h : s.IsLocal) : (s.step c event).IsLocal := by
  cases event with
  | tick => exact IsLocal.letGo (s := { s with now := s.now + 1 }) h
  | answered => exact h.letGo
  | made key request =>
    refine List.forall_mem_append.mpr ⟨h, List.forall_mem_singleton.mpr ?_⟩
    exact (request.keeps c).waits_runUntil _ _ _

theorem view_letGo (h : s.IsLocal) (h' : s'.IsLocal) (same : s.view chain = s'.view chain) :
    (s.letGo may reply).view chain = (s'.letGo may reply).view chain := by
  simp only [view, View.mk.injEq] at same
  obtain ⟨hnow, hguard, hentries⟩ := same
  have hself : s'.site.guards.get? chain = s'.site.guards.get? chain := rfl
  obtain ⟨hturns, hafter⟩ := turns_filter may s.now reply h hguard
  obtain ⟨hturns', hafter'⟩ := turns_filter may s.now reply h' hself
  rw [hentries] at hturns hafter
  simp only [view, letGo, ← hnow, hturns, hafter, hturns', hafter']

/-- What becomes of a chain by something that happens to it depends on what there is of it. -/
theorem view_step (h : s.IsLocal) (h' : s'.IsLocal) (same : s.view chain = s'.view chain)
    (concerned : event.concerns chain = true) : (s.step c event).view chain = (s'.step c event).view chain := by
  cases event with
  | answered => exact view_letGo h h' same
  | tick =>
    have hlater : { s with now := s.now + 1 }.view chain = { s' with now := s'.now + 1 }.view chain := by
      simp only [view, View.mk.injEq] at same ⊢
      exact ⟨congrArg (· + 1) same.1, same.2⟩
    exact view_letGo h h' hlater
  | made key request =>
    have hchain : request.chain = chain := of_decide_eq_true concerned
    subst hchain
    simp only [view, View.mk.injEq] at same
    obtain ⟨hnow, hguard, hentries⟩ := same
    have hlocal := (request.keeps c).local_runUntil (some s.now) s.now
    obtain ⟨hprogress, halike⟩ := hlocal.alike { s.site with reply := none, invoked := 0 }
      { s'.site with reply := none, invoked := 0 } ⟨hguard, rfl, rfl⟩
    simp only [view, step, ← hnow, hprogress, halike.guard, halike.invoked, List.filter_append, hentries]

theorem view_step_of_not (h : s.IsLocal) (unconcerned : event.concerns chain = false) :
    (s.step c event).view chain = s.view chain := by
  cases event with
  | tick => cases unconcerned
  | answered other key reply =>
    have hother : other ≠ chain := of_decide_eq_false unconcerned
    let may (e : Entry) : Bool := e.chain = other && e.key = key
    have hself : s.site.guards.get? chain = s.site.guards.get? chain := rfl
    obtain ⟨hturns, hafter⟩ := turns_filter may s.now (some reply) h hself
    have hnone : ∀ e ∈ s.entries.filter (·.chain = chain), may e = false := by
      intro e he
      have hchain : e.chain = chain := of_decide_eq_true (List.mem_filter.mp he).2
      simp [may, hchain, Ne.symm hother]
    rw [turns_of_none hnone] at hturns hafter
    simp only [view, step, letGo]
    rw [hturns, hafter]
  | made key request =>
    have hother : request.chain ≠ chain := of_decide_eq_false unconcerned
    have hlocal := (request.keeps c).local_runUntil (some s.now) s.now
    have hguard := hlocal.others { s.site with reply := none, invoked := 0 } chain (Ne.symm hother)
    simp only [view, step, hguard, List.filter_append]
    simp [hother]

/-- What becomes of a chain is what would become of it if nothing happened to the others. -/
theorem view_run (h : s.IsLocal) (h' : s'.IsLocal) (same : s.view chain = s'.view chain) (events : List Event) :
    (s.run c events).view chain = (s'.run c (events.filter (·.concerns chain))).view chain := by
  induction events generalizing s s' with
  | nil => exact same
  | cons event events ih =>
    cases hconcerns : event.concerns chain with
    | true =>
      rw [List.filter_cons_of_pos hconcerns]
      exact ih h.step h'.step (view_step h h' same hconcerns)
    | false =>
      rw [List.filter_cons_of_neg (by simp [hconcerns])]
      exact ih h.step h' ((view_step_of_not h hconcerns).trans same)

end State

/-- What is told of a request: how often it has called the repository behind the guards, and its answer with
the moment when it came, if it has come. -/
structure Report where
  key : Nat
  invoked : Nat
  answer : Option (Answer × Nat)

def Entry.report (e : Entry) : Report :=
  ⟨e.key, e.invoked, match e.progress with
    | .ended answer at' => some (answer, at')
    | .waiting _ => none⟩

def State.reports (chain : String) (s : State) : List Report := (s.view chain).entries.map Entry.report

/-- If the same happens to a chain at the same times, then the same comes of all calls to it and of all
queries of its breaker, and they call the repository behind the guards equally often, whatever happens to
other chains in between. -/
theorem reports_congr (c : Resilience) (chain : String) (events events' : List Event)
    (same : events.filter (·.concerns chain) = events'.filter (·.concerns chain)) :
    (State.run c {} events).reports chain = (State.run c {} events').reports chain := by
  have hstart : ({} : State).IsLocal := List.forall_mem_nil _
  unfold State.reports
  rw [State.view_run hstart hstart rfl events, State.view_run hstart hstart rfl events', same]

private def strict : Resilience :=
  { period := 60000, limit := 2, interval := 1, attempts := 1, breaker := { failureThreshold := 1 } }

private def height (chain : String) : Request := .call (.height chain .latest)

private def at42 : Repository Id := { nowhere with height := fun _ _ => .ok 42 }

private def calm : List Event :=
  [.made 0 (height "calm"), .tick, .answered "calm" 0 at42, .made 1 (.circuit "calm"), .made 2 (height "calm"),
    .answered "calm" 2 at42, .made 3 (height "calm"), .tick]

private def busy : List Event :=
  [.made 0 (height "down"), .made 0 (height "calm"), .answered "down" 0 nowhere, .made 1 (height "down"), .tick,
    .made 1 (height "full"), .answered "calm" 0 at42, .made 2 (height "full"), .made 3 (height "full"),
    .made 1 (.circuit "calm"), .answered "full" 1 nowhere, .made 2 (height "calm"), .made 2 (.circuit "down"),
    .answered "calm" 2 at42, .made 3 (height "calm"), .tick]

theorem busy_reports :
    busy.filter (·.concerns "calm") = calm ∧
      ((State.run strict {} busy).reports "down").map (fun r => (r.invoked, r.answer.map (·.2))) =
        [(1, some 0), (0, some 0), (0, some 1)] ∧
      ((State.run strict {} busy).reports "full").map (fun r => (r.invoked, r.answer.map (·.2))) =
        [(1, some 1), (1, none), (0, some 2)] ∧
      (State.run strict {} busy).reports "calm" = (State.run strict {} calm).reports "calm" ∧
      ((State.run strict {} calm).reports "calm").map (fun r => (r.invoked, r.answer.map (·.2))) =
        [(1, some 1), (0, some 1), (1, some 1), (0, some 2)] := by
  have same : busy.filter (·.concerns "calm") = calm := rfl
  have hcalm : calm.filter (·.concerns "calm") = calm := rfl
  exact ⟨same, by decide +kernel, by decide +kernel,
    reports_congr strict "calm" busy calm (same.trans hcalm.symm), by decide +kernel⟩

end Crowd

end ChainFeed

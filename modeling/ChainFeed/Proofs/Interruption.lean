import ChainFeed.Proofs.Activity
import ChainFeed.Proofs.Queue.Settlement
import ChainFeed.Rehearsal.Polling

/-!
# Loops and the signal that ends them

The loops of pollers and consumers end when a value is sent to them or its sender is lost. As long as
nothing of the kind happens they go on, and all that they have begun is done. But what the value is makes
no difference.
-/

namespace ChainFeed

open Activity Rehearsal

namespace Poller

/-- Nothing was sent to the loop, and the sender is still there. -/
def IsLeftAlone (w : World) : Prop := w.signal = {}

def Shutdown.never : Shutdown (Activity World) where
  requested := pure false
  during a := some <$> a

variable {ι : Type} (p : Poller (Activity World) ι) (fuel : Nat) (cursor : Option UInt64)

theorem samePlays_requested : SamePlays IsLeftAlone shutdown.requested Shutdown.never.requested := by
  intro now w o alone
  have hvalue : w.signal.value = false := by rw [show w.signal = {} from alone]
  refine plays_act.trans ?_
  rw [hvalue]
  exact and_iff_right alone

theorem samePlays_during {α : Type} (a : Activity World α) :
    SamePlays IsLeftAlone (shutdown.during a) (Shutdown.never.during a) :=
  samePlays_whileNot (fun w alone => by rw [show w.signal = {} from alone]) a

/-- A loop that is left alone does what it would do if nobody could end it. -/
theorem samePlays_run :
    SamePlays IsLeftAlone (p.run shutdown fuel cursor) (p.run Shutdown.never fuel cursor) := by
  induction fuel generalizing cursor with
  | zero => exact .refl _
  | succ fuel ih =>
    refine samePlays_requested.bind fun told => ?_
    split
    · exact .refl _
    refine (samePlays_during _).bind fun done => ?_
    cases done with
    | none => exact .refl _
    | some done =>
      obtain ⟨outcome, cursor⟩ := done
      dsimp only
      split
      · exact .refl _
      · exact ih cursor
      · refine (samePlays_during _).bind fun rested => ?_
        cases rested with
        | none => exact .refl _
        | some _ => exact ih cursor

theorem after_progress_ne_stop (r : BlockRange) (items : Nat) (caughtUp : Bool) :
    Next.after (.ok (.progress r items caughtUp)) ≠ .stop := by
  cases caughtUp <;> exact Next.noConfusion

theorem gives_cycle : (p.cycle cursor).Gives fun r => Next.after r.1 = .stop → p.config.toBlock ≠ none := by
  unfold cycle
  split
  · next done =>
    intro _ unbounded
    simp [PollerConfig.isDone, unbounded] at done
  refine (gives_any _).bind fun answer _ => ?_
  cases answer with
  | error e => exact nofun
  | ok head =>
    dsimp only
    split
    · exact nofun
    refine (gives_any _).bind fun items _ => ?_
    cases items with
    | error e => exact nofun
    | ok items =>
      refine (gives_any _).bind fun reply _ => ?_
      cases reply with
      | error e => exact nofun
      | ok _ =>
        exact (gives_any _).bind fun _ _ hstop => absurd hstop (after_progress_ne_stop _ _ _)

theorem gives_run : (p.run Shutdown.never fuel cursor).Gives fun e =>
    e ≠ .stopped ∧ (e = .finished → p.config.toBlock ≠ none) := by
  induction fuel generalizing cursor with
  | zero => exact ⟨Ending.noConfusion, Ending.noConfusion⟩
  | succ fuel ih =>
    have hrequested : Shutdown.never.requested.Gives (· = false) := rfl
    refine hrequested.bind ?_
    rintro _ rfl
    rw [if_neg Bool.false_ne_true]
    refine ((gives_cycle p cursor).map some).bind ?_
    rintro _ ⟨⟨outcome, cursor⟩, hfinished, rfl⟩
    dsimp only
    split
    · next hstop => exact ⟨Ending.noConfusion, fun _ => hfinished hstop⟩
    · exact ih cursor
    · refine ((gives_any _).map some).bind ?_
      rintro _ ⟨_, -, rfl⟩
      exact ih cursor

theorem endsWhen_during {α : Type} (a : Activity World α) {k : Option α → Activity World Ending}
    (dropped : k none = pure .stopped) (kept : ∀ r, EndsWhen (·.signal.changed) .stopped (k (some r))) :
    EndsWhen (·.signal.changed) .stopped (shutdown.during a >>= k) :=
  endsWhen_whileNot dropped kept a

/-- At every wait of its calls and between its cycles a loop is ended by whatever is sent to it. -/
theorem endsWhen_run : (p.run shutdown fuel cursor).EndsWhen (·.signal.changed) .stopped := by
  induction fuel generalizing cursor with
  | zero => exact .done _
  | succ fuel ih =>
    refine .act fun told => ?_
    change EndsWhen _ _ (if told = true then _ else _)
    split
    · exact .done _
    refine endsWhen_during _ rfl ?_
    rintro ⟨outcome, cursor⟩
    dsimp only
    split
    · exact .done _
    · exact ih cursor
    · exact endsWhen_during _ rfl fun _ => ih cursor

end Poller

namespace Consumer

def Move.isSignal : Move → Bool
  | .tell _ | .hangUp => true
  | _ => false

/-- Whether the move is one that can end the consumer: a signal, or the loss of those who receive from it. -/
def Move.isIntervention : Move → Bool
  | .tell _ | .hangUp | .close => true
  | _ => false

/-- All that a run has brought has been dealt with, in order, or is still to come. -/
def IsComplete (trail : List (Consumer × Move)) (s : Consumer) : Prop :=
  trail.flatMap (brought ·.2) = (trail.flatMap fun p => dealtWith p.1 p.2) ++ s.rest

variable {c : Config} {s t last : Consumer} {m : Move} {calls : List Call}

theorem isSome_stop : (move? c s .stop).isSome = true ↔ s.signalled = true ∧ s.isWaiting = true := by
  rw [move?, Option.isSome_map, step?, ← Bool.and_eq_true_iff]
  cases s.signalled && s.isWaiting with
  | false => simp
  | true =>
    simp only [if_true, iff_true]
    split <;> rfl

/-- Whatever a consumer is told while it waits, it can end then. -/
theorem stops_after_tell (value : Bool) (waiting : s.isWaiting = true) :
    ∃ t u, move? c s (.tell value) = some t ∧ move? c t .stop = some u := by
  refine ⟨{ s with told := value, signalled := true }, ?_⟩
  obtain ⟨u, hstop⟩ := Option.isSome_iff_exists.mp
    (isSome_stop (c := c) (s := { s with told := value, signalled := true }) |>.mpr ⟨rfl, waiting⟩)
  exact ⟨u, rfl, hstop⟩

namespace Step

theorem signalled_eq (h : Step c s m calls t) : t.signalled = (s.signalled || m.isSignal) := by
  cases h <;> simp [Move.isSignal, count, acquire, release]

end Step

/-- A consumer that was told nothing and goes on, after a run in which nothing was lost. -/
structure IsGoing (trail : List (Consumer × Move)) (s : Consumer) : Prop where
  told : s.told = false
  signalled : s.signalled = false
  closed : s.closed = false
  running : s.phase ≠ .stopped
  kept : ∀ q ∈ settled trail, q.2 ≠ .lost
  complete : IsComplete trail s

theorem isGoing_start : IsGoing [] {} := ⟨rfl, rfl, rfl, Phase.noConfusion, List.forall_mem_nil _, rfl⟩

namespace Step

variable {trail : List (Consumer × Move)}

theorem settles_kept (h : Step c s m calls t) (going : IsGoing trail s) (alone : m.isIntervention = false) :
    ∀ q ∈ s.settles m, q.2 ≠ .lost := by
  intro q hq
  cases h with
  | close => cases alone
  | stop _ signalled | stopSending _ _ _ signalled => cases going.signalled.symm.trans signalled
  | unsent | sent => simp [settles, going.closed] at hq
  | acked | discard =>
    obtain ⟨h, -, rfl⟩ := List.mem_map.mp hq
    exact Fate.noConfusion
  | _ => cases hq

theorem goes_on (h : Step c s m calls t) (going : IsGoing trail s) (alone : m.isIntervention = false) :
    t.told = false ∧ t.signalled = false ∧ t.closed = false ∧ t.phase ≠ .stopped := by
  cases h with
  | quit _ ended => simp [going.told, going.closed] at ended
  | unsent _ _ _ closed => cases going.closed.symm.trans closed
  | stopSending _ _ _ signalled | stop _ signalled => cases going.signalled.symm.trans signalled
  | tell | hangUp | close => cases alone
  | take | ack | acked | discard => exact ⟨going.told, going.signalled, going.closed, going.running⟩
  | _ => exact ⟨going.told, going.signalled, going.closed, Phase.noConfusion⟩

theorem isGoing (h : Step c s m calls t) (going : IsGoing trail s) (alone : m.isIntervention = false) :
    IsGoing (trail ++ [(s, m)]) t := by
  obtain ⟨told, signalled, closed, running⟩ := h.goes_on going alone
  refine ⟨told, signalled, closed, running, ?_, ?_⟩
  · rw [settled_concat]
    exact List.forall_mem_append.mpr ⟨going.kept, h.settles_kept going alone⟩
  · have hcomplete := going.complete
    unfold IsComplete at hcomplete ⊢
    simp only [List.flatMap_append, List.flatMap_singleton, hcomplete, List.append_assoc, h.rest_eq running]

end Step

variable {trail : List (Consumer × Move)}

/-- A consumer that is left alone goes on, and loses nothing. -/
theorem isGoing_run (h : Run (move? c) {} trail s) (alone : ∀ p ∈ trail, p.2.isIntervention = false) :
    IsGoing trail s := by
  apply run_invariant (P := fun trail s => (∀ p ∈ trail, p.2.isIntervention = false) → IsGoing trail s) h
    (fun _ => isGoing_start) ?_ alone
  intro trail s m calls t hbefore hstep alone
  obtain ⟨hearlier, hlast⟩ := List.forall_mem_append.mp alone
  exact (Step.of_step? hstep).isGoing (hbefore hearlier) (hlast (s, m) List.mem_cons_self)

theorem signalled_run (h : Run (move? c) {} trail s) : s.signalled = trail.any (·.2.isSignal) := by
  apply run_invariant (P := fun trail s => s.signalled = trail.any (·.2.isSignal)) h rfl
  intro trail s m calls t hbefore hstep
  rw [(Step.of_step? hstep).signalled_eq, hbefore, List.any_append, List.any_cons, List.any_nil, Bool.or_false]

theorem phase_stop (h : move? c s .stop = some t) : t.phase = .stopped := by
  obtain ⟨⟨calls, t⟩, hstep, rfl⟩ := Option.map_eq_some_iff.mp h
  cases Step.of_step? hstep <;> rfl

theorem stopped_run (stopped : s.phase = .stopped) (h : Run (move? c) s trail last) :
    last.phase = .stopped := by
  apply run_invariant (P := fun _ s => s.phase = .stopped) h stopped
  intro trail s m calls t hbefore hstep
  exact (Step.of_step? hstep).stays_stopped hbefore

end Consumer

/-- A poller loop to which nothing is sent, and whose sender is there, does what it would do if nobody could
end it, whatever else happens while it waits, and ends only after its last block. A consumer that is left
alone does not end either, drops no forwarded message and deals with every message of every batch. But
wherever they wait, any value that is sent ends them, and they leave what they have begun. -/
theorem loops_end_by_any_signal {ι : Type} (p : Poller (Activity World) ι) (fuel : Nat)
    (cursor : Option UInt64) (c : Consumer.Config) {trail : List (Consumer × Consumer.Move)} {s : Consumer}
    (h : Run (Consumer.move? c) {} trail s) :
    (∀ now w o, Poller.IsLeftAlone w →
      ((p.run shutdown fuel cursor).Plays Poller.IsLeftAlone now w o ↔
        (p.run Poller.Shutdown.never fuel cursor).Plays Poller.IsLeftAlone now w o)) ∧
    (∀ now w e t w', Poller.IsLeftAlone w →
      (p.run shutdown fuel cursor).Plays Poller.IsLeftAlone now w (.ended e t w') →
        e ≠ .stopped ∧ (e = .finished → p.config.toBlock ≠ none)) ∧
    (p.run shutdown fuel cursor).EndsWhen (·.signal.changed) .stopped ∧
    ((∀ q ∈ trail, q.2.isIntervention = false) →
      s.phase ≠ .stopped ∧ (∀ q ∈ Consumer.settled trail, q.2 ≠ .lost) ∧ Consumer.IsComplete trail s) ∧
    ((Consumer.move? c s .stop).isSome = true ↔ trail.any (·.2.isSignal) = true ∧ s.isWaiting = true) ∧
    ∀ t, Consumer.move? c s .stop = some t →
      s.settles .stop = s.sending.map (·, .lost) ∧ t.rest = [] ∧
        ∀ later last, Run (Consumer.move? c) t later last → last.phase = .stopped := by
  have hsame := p.samePlays_run fuel cursor
  refine ⟨hsame, ?_, p.endsWhen_run fuel cursor, fun alone => ?_, ?_, fun t hstop => ?_⟩
  · intro now w e t w' alone hended
    exact (p.gives_run fuel cursor).result ((hsame now w _ alone).mp hended)
  · have hgoing := Consumer.isGoing_run h alone
    exact ⟨hgoing.running, hgoing.kept, hgoing.complete⟩
  · rw [Consumer.isSome_stop, Consumer.signalled_run h]
  · have hphase := Consumer.phase_stop hstop
    refine ⟨rfl, by simp [Consumer.rest, hphase], fun later last hlater => ?_⟩
    exact Consumer.stopped_run hphase hlater

private def slow : Poller (Activity World) Emitted where
  config := { toBlock := some 3 }
  height _ _ := .wait (some 5) (fun _ => false) (pure (.ok 3))
  fetch _ := pure (.ok [])
  publish := World.publish
  count := World.count

private def errands : List Consumer.Move :=
  [.ask, .answer 10 (.ok [⟨"a", "a#1", Consumer.sampleBody⟩, ⟨"b", "b#1", "?"⟩]), .dispatch]

private def narrow : Consumer.Config := { capacity := 1, visibility := 5 }

private theorem slow_waits : (slow.run shutdown 1 none).Plays Poller.IsLeftAlone 0 {} (.waiting 2 {}) :=
  ⟨rfl, 2, {}, Nat.zero_le 2, rfl, .inl rfl⟩

private theorem slow_finishes :
    (slow.run shutdown 1 (some 3)).Plays Poller.IsLeftAlone 0 {} (.ended .finished 0 {}) :=
  ⟨rfl, rfl⟩

private theorem errands_run : ∃ trail s, Run (Consumer.move? narrow) {} trail s ∧
    (∀ p ∈ trail, p.2.isIntervention = false) ∧ s.isWaiting = true ∧ s.rest.length = 1 := by
  have hall : (replay? (Consumer.move? narrow) {} errands).map
      (fun p => (p.1.all (!·.2.isIntervention), p.2.isWaiting, p.2.rest.length)) = some (true, true, 1) := by
    decide +kernel
  obtain ⟨⟨trail, s⟩, hreplay, hend⟩ := Option.map_eq_some_iff.mp hall
  simp only [Prod.mk.injEq] at hend
  obtain ⟨halone, hwaiting, hrest⟩ := hend
  exact ⟨trail, s, Run.of_replay hreplay, by simpa using halone, hwaiting, hrest⟩

theorem slow_and_errands_end_by_any_signal :
    ((slow.run shutdown 1 none).Plays Poller.IsLeftAlone 0 {} (.waiting 2 {}) ∧
      (slow.run Poller.Shutdown.never 1 none).Plays Poller.IsLeftAlone 0 {} (.waiting 2 {})) ∧
    ((slow.run shutdown 1 (some 3)).Plays Poller.IsLeftAlone 0 {} (.ended .finished 0 {}) ∧
      slow.config.toBlock ≠ none) ∧
    ∃ trail s, Run (Consumer.move? narrow) {} trail s ∧
      ((∀ p ∈ trail, p.2.isIntervention = false) ∧ s.phase ≠ .stopped ∧
        (∀ q ∈ Consumer.settled trail, q.2 ≠ .lost) ∧ Consumer.IsComplete trail s ∧ s.rest.length = 1) ∧
      ∃ t u, Run (Consumer.move? narrow) {} (trail ++ [(s, .tell false)]) t ∧
        Consumer.move? narrow t .stop = some u ∧ u.rest = [] ∧ u.phase = .stopped := by
  obtain ⟨trail, s, hrun, halone, hwaiting, hlength⟩ := errands_run
  obtain ⟨hsame, -, -, hgoes, -⟩ := loops_end_by_any_signal slow 1 none narrow hrun
  obtain ⟨hrunning, hkept, hcomplete⟩ := hgoes halone
  obtain ⟨t, u, htell, hstop⟩ := Consumer.stops_after_tell (c := narrow) false hwaiting
  obtain ⟨-, hends, -, -, -, hstopped⟩ := loops_end_by_any_signal slow 1 (some 3) narrow (hrun.step htell)
  have hfinished := hends 0 {} .finished 0 {} rfl slow_finishes
  obtain ⟨-, hrest, hlater⟩ := hstopped u hstop
  refine ⟨⟨slow_waits, (hsame 0 {} _ rfl).mp slow_waits⟩, ⟨slow_finishes, hfinished.2 rfl⟩, ?_⟩
  exact ⟨trail, s, hrun, ⟨halone, hrunning, hkept, hcomplete, hlength⟩, t, u, hrun.step htell, hstop, hrest,
    hlater [] u .start⟩

/-- Whether a loop is told to end: by the value `true`, or by the loss of the sender. -/
def tellsToEnd : Happening → Bool
  | .send value => value
  | .hangUp => true
  | _ => false

/-- A poller loop does not end as long as it is not told to. -/
def PollersGoOn : Prop :=
  ∀ (p : Poller (Activity World) Emitted) (fuel : Nat) (cursor : Option UInt64)
    (happenings : List (Nat × Happening)), (∀ h ∈ happenings, tellsToEnd h.2 = false) →
      ∀ t w, (through happenings 0 ((p.run shutdown fuel cursor).runUntil (some 0) 0 {})).2 ≠
        (.ended .stopped t, w)

def Consumer.Move.tellsToEnd : Consumer.Move → Bool
  | .tell value => value
  | .hangUp | .close => true
  | _ => false

theorem Consumer.tellsToEnd_of_not {m : Consumer.Move} (h : m.isIntervention = false) :
    m.tellsToEnd = false := by
  cases m with
  | tell | hangUp | close => cases h
  | _ => rfl

/-- A consumer does not end, and leaves no message of a batch behind, as long as it is not told to end. -/
def ConsumersGoOn : Prop :=
  ∀ c trail s, Run (Consumer.move? c) {} trail s → (∀ p ∈ trail, p.2.tellsToEnd = false) →
    s.phase ≠ .stopped ∧ Consumer.IsComplete trail s

/-- The value `false` ends both loops: a poller while it asks for the head, and a consumer while a message
waits for room and another one has not been dealt with. -/
theorem false_ends_loops : ¬ PollersGoOn ∧ ¬ ConsumersGoOn := by
  constructor
  · intro goes
    refine goes slow 1 none [(2, .send false)] ?_ 2 { signal := { value := false, changed := true } } rfl
    exact List.forall_mem_singleton.mpr rfl
  · intro goes
    obtain ⟨trail, s, hrun, halone, hwaiting, -⟩ := errands_run
    obtain ⟨t, u, htell, hstop⟩ := Consumer.stops_after_tell (c := narrow) false hwaiting
    have hquiet : ∀ p ∈ trail ++ [(s, .tell false)] ++ [(t, .stop)], p.2.tellsToEnd = false := by
      simp only [List.forall_mem_append, List.forall_mem_singleton]
      exact ⟨⟨fun p hp => Consumer.tellsToEnd_of_not (halone p hp), rfl⟩, rfl⟩
    exact (goes narrow _ u ((hrun.step htell).step hstop) hquiet).1 (Consumer.phase_stop hstop)

end ChainFeed

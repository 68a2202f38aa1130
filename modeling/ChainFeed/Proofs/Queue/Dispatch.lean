import ChainFeed.Proofs.Counters
import ChainFeed.Proofs.Queue.Decoding
import ChainFeed.Proofs.Queue.Outstanding

/-!
# Batches are accounted for message by message

A consumer goes through a batch in order. A message that cannot be decoded stays in the queue, one that
the filter rejects is deleted, and the others go into the channel one after the other. Only a signal or
the loss of those who receive ends that early, and gives up the one message that is on its way. The
counters say the same for every chain.
-/

namespace ChainFeed.Consumer

/-- The events of a batch that can be decoded. -/
def decoded (batch : List Handout) : List ChainEvent := batch.filterMap fun h => decodeMessage? h.body

/-- The messages of a batch that can be decoded and that the filter accepts, all with the same lease. -/
def accepted (c : Config) (expires : Nat) (batch : List Handout) : List Delivery :=
  batch.filterMap fun h => (decodeMessage? h.body).bind fun event =>
    if c.filter event = .accept then some ⟨event, h.id, h.handle, expires⟩ else none

/-- The messages of a batch that can be decoded and that the filter rejects. -/
def rejected (c : Config) (batch : List Handout) : List Handout :=
  batch.filter fun h => (decodeMessage? h.body).any (c.filter · = .skip)

def metrics (c : Config) (event : ChainEvent) : List Metric :=
  [.consumed event.chainId,
    match c.filter event with
    | .accept => .unfiltered event.chainId
    | .skip => .filtered event.chainId]

def puts (s : Consumer) : Move → List Delivery
  | .send => if s.closed then [] else s.sending
  | _ => []

/-- The messages that a move gives up on their way into the channel. -/
def abandons (s : Consumer) : Move → List Delivery
  | .send => if s.closed then s.sending else []
  | .stop => s.sending
  | _ => []

/-- The messages that leave the channel with a move: one goes to a worker, or all are lost. -/
def leaves (s : Consumer) : Move → List Delivery
  | .take => s.channel.take 1
  | .close => s.channel
  | _ => []

/-- The messages that are in the channel or in the hands of workers. -/
def offered (s : Consumer) : List Delivery := s.channel ++ s.held.map (·.message)

def Move.isDispatch : Move → Bool
  | .dispatch => true
  | _ => false

/-- The leases of the batch that a consumer goes through end at `expires`. -/
def IsLeased (expires : Nat) (s : Consumer) : Prop :=
  match s.phase with
  | .dispatching e _ => e = expires
  | .sending d _ => d.expires = expires
  | _ => True

/-- A value was sent to end the consumer, its sender is gone, or nobody receives from the channel. -/
def IsCalledOff (s : Consumer) : Prop := s.told = true ∨ s.signalled = true ∨ s.closed = true

section Batches

variable {c : Config} {expires : Nat} {batch first second : List Handout} {h : Handout}

theorem decoded_append : decoded (first ++ second) = decoded first ++ decoded second :=
  List.filterMap_append

theorem accepted_append :
    accepted c expires (first ++ second) = accepted c expires first ++ accepted c expires second :=
  List.filterMap_append

theorem rejected_append : rejected c (first ++ second) = rejected c first ++ rejected c second :=
  List.filter_append _ _

theorem mem_accepted {d : Delivery} :
    d ∈ accepted c expires batch ↔ ∃ h ∈ batch, ∃ event, decodeMessage? h.body = some event ∧
      c.filter event = .accept ∧ ⟨event, h.id, h.handle, expires⟩ = d := by
  simp [accepted, Option.bind_eq_some_iff]

theorem mem_rejected :
    h ∈ rejected c batch ↔ h ∈ batch ∧ ∃ event, decodeMessage? h.body = some event ∧
      c.filter event = .skip := by
  simp [rejected, Option.any_eq_true]

theorem decoded_rejected : decoded (rejected c batch) = (decoded batch).filter (c.filter · = .skip) := by
  induction batch with
  | nil => rfl
  | cons h batch ih =>
    cases body : decodeMessage? h.body with
    | none => simpa [decoded, rejected, body] using ih
    | some event =>
      by_cases verdict : c.filter event = .skip <;>
        simpa [decoded, rejected, body, verdict] using ih

theorem events_accepted :
    (accepted c expires batch).map (·.event) = (decoded batch).filter (c.filter · = .accept) := by
  induction batch with
  | nil => rfl
  | cons h batch ih =>
    cases body : decodeMessage? h.body with
    | none => simpa [decoded, accepted, body] using ih
    | some event =>
      by_cases verdict : c.filter event = .accept <;>
        simpa [decoded, accepted, body, verdict] using ih

theorem count_metrics (c : Config) (id : UInt64) (events : List ChainEvent) :
    (events.flatMap (metrics c)).count (.consumed id) = events.countP (·.chainId = id) ∧
      (events.flatMap (metrics c)).count (.filtered id) =
        (events.filter (c.filter · = .skip)).countP (·.chainId = id) ∧
      (events.flatMap (metrics c)).count (.unfiltered id) =
        (events.filter (c.filter · = .accept)).countP (·.chainId = id) := by
  induction events with
  | nil => simp
  | cons event events ih =>
    obtain ⟨hconsumed, hfiltered, hunfiltered⟩ := ih
    cases verdict : c.filter event <;> by_cases hid : event.chainId = id <;>
      simp [metrics, verdict, hid, hconsumed, hfiltered, hunfiltered, Nat.add_comm]

theorem count_consumed (c : Config) (id : UInt64) (events : List ChainEvent) :
    (events.flatMap (metrics c)).count (.consumed id) =
      (events.flatMap (metrics c)).count (.filtered id) +
        (events.flatMap (metrics c)).count (.unfiltered id) := by
  induction events with
  | nil => rfl
  | cons event events ih =>
    simp only [List.flatMap_cons, List.count_append]
    cases verdict : c.filter event <;> by_cases hid : event.chainId = id <;>
      simp [metrics, verdict, hid] <;> omega

end Batches

theorem rest_of_stopped {s : Consumer} (stopped : s.phase = .stopped) : s.rest = [] := by
  rw [rest, stopped]

theorem sending_of_stopped {s : Consumer} (stopped : s.phase = .stopped) : s.sending = [] := by
  rw [sending, stopped]

theorem exists_move_of_unfinished {c : Config} {s : Consumer} (h : s.rest ≠ [] ∨ s.sending ≠ []) :
    ∃ m ∈ [Move.dispatch, .send, .take], (move? c s m).isSome = true := by
  cases phase : s.phase with
  | dispatching expires rest =>
    cases rest <;> exact ⟨.dispatch, by simp, by simp [move?, step?, phase]⟩
  | sending d rest =>
    cases closed : s.closed with
    | true => exact ⟨.send, by simp, by simp [move?, step?, phase, closed]⟩
    | false =>
      cases room : s.room c with
      | true => exact ⟨.send, by simp, by simp [move?, step?, phase, closed, room]⟩
      | false =>
        cases next : s.channel with
        | nil => simp [Consumer.room, next] at room
        | cons d channel => exact ⟨.take, by simp, by simp [move?, step?, next]⟩
  | _ => simp [rest, sending, phase] at h

theorem exists_isLeased (s : Consumer) : ∃ expires, s.IsLeased expires := by
  unfold IsLeased
  split
  · exact ⟨_, rfl⟩
  · exact ⟨_, rfl⟩
  · exact ⟨0, trivial⟩

theorem length_sending (s : Consumer) : s.sending.length ≤ 1 := by
  unfold sending
  split <;> simp

theorem puts_sublist (s : Consumer) (m : Move) : (s.puts m).Sublist s.sending := by
  unfold puts
  split
  · split <;> simp
  · exact List.nil_sublist _

theorem abandons_sublist (s : Consumer) (m : Move) : (s.abandons m).Sublist s.sending := by
  unfold abandons
  split
  · split <;> simp
  · exact List.Sublist.refl _
  · exact List.nil_sublist _

theorem brought_eq_nil {m : Move} (own : m.isAnswer = false) : brought m = [] := by
  cases m with
  | answer => cases own
  | _ => rfl

theorem dealtWith_isPrefix (s : Consumer) (m : Move) : s.dealtWith m <+: s.rest := by
  cases m with
  | dispatch =>
    cases hrest : s.rest with
    | nil => simp [dealtWith, hrest]
    | cons h rest => simp [dealtWith, hrest]
  | _ => exact List.nil_prefix

namespace Step

variable {c : Config} {s t : Consumer} {m : Move} {calls : List Call} {expires : Nat}

/-- A message on its way goes into the channel, is given up, or stays on its way, in order. -/
theorem sending_eq (h : Step c s m calls t) :
    s.sending ++ s.forwards c m = s.puts m ++ s.abandons m ++ t.sending := by
  cases h with
  | accept _ _ _ _ phase body verdict =>
    simp [sending, forwards, puts, abandons, phase, body, verdict]
  | skip _ _ _ _ phase body verdict => simp [sending, forwards, puts, abandons, phase, body, verdict]
  | undecodable _ _ _ phase body => simp [sending, forwards, puts, abandons, phase, body]
  | unsent _ _ phase going | sent _ _ phase going =>
    simp [sending, forwards, puts, abandons, phase, going]
  | stopSending _ _ phase => simp [sending, forwards, puts, abandons, phase]
  | stop _ _ unburdened =>
    change s.sending ++ [] = [] ++ s.sending ++ []
    rw [unburdened]
    rfl
  | quit phase | ask phase | refused phase | nothing phase | batch phase | resume _ _ phase
  | dispatched _ phase | settled phase => simp [sending, forwards, puts, abandons, phase]
  | take | ack | acked | discard | close | tell | hangUp => simp [sending, forwards, puts, abandons, release]

/-- The channel passes on in order what was put into it. -/
theorem channel_eq (h : Step c s m calls t) : s.channel ++ s.puts m = s.leaves m ++ t.channel := by
  cases h with
  | take _ _ next => simp [puts, leaves, next]
  | sent _ _ phase going => simp [puts, leaves, sending, phase, going]
  | unsent _ _ _ closed => simp [puts, leaves, release, closed]
  | close => rfl
  | _ => exact List.append_nil _

theorem stopped_of_abandons (h : Step c s m calls t) (hm : s.abandons m ≠ []) : t.phase = .stopped := by
  cases h with
  | unsent | stopSending | stop => rfl
  | sent _ _ _ going => simp [abandons, going] at hm
  | _ => exact absurd rfl hm

theorem isLeased (h : Step c s m calls t) (own : m.isAnswer = false) (hs : s.IsLeased expires) :
    t.IsLeased expires := by
  cases h with
  | refused | nothing | batch => cases own
  | undecodable _ _ _ phase | skip _ _ _ _ phase | accept _ _ _ _ phase | sent _ _ phase =>
    simpa [IsLeased, phase] using hs
  | take | ack | acked | discard | close | tell | hangUp => exact hs
  | _ => trivial

theorem forwards_eq (h : Step c s m calls t) (hs : s.IsLeased expires) :
    s.forwards c m = accepted c expires (s.dealtWith m) := by
  cases h with
  | dispatched _ phase => simp [forwards, accepted, dealtWith, rest, phase]
  | undecodable _ _ _ phase body => simp [forwards, accepted, dealtWith, rest, phase, body]
  | skip _ _ _ _ phase body verdict =>
    simp [forwards, accepted, dealtWith, rest, phase, body, verdict]
  | accept e _ _ _ phase body verdict =>
    have hexpires : e = expires := by simpa [IsLeased, phase] using hs
    simp [forwards, accepted, dealtWith, rest, phase, body, verdict, hexpires]
  | _ => rfl

theorem calls_of_dispatch (h : Step c s .dispatch calls t) :
    calls = (rejected c (s.dealtWith .dispatch)).map (.delete ·.handle) := by
  cases h with
  | dispatched _ phase => simp [rejected, dealtWith, rest, phase]
  | undecodable _ _ _ phase body => simp [rejected, dealtWith, rest, phase, body]
  | skip _ _ _ _ phase body verdict => simp [rejected, dealtWith, rest, phase, body, verdict]
  | accept _ _ _ _ phase body verdict => simp [rejected, dealtWith, rest, phase, body, verdict]

theorem counters_eq (h : Step c s m calls t) :
    t.counters = ((decoded (s.dealtWith m)).flatMap (metrics c)).foldl Counters.record s.counters := by
  cases h with
  | dispatched _ phase => simp [decoded, dealtWith, rest, phase]
  | undecodable _ _ _ phase body => simp [decoded, dealtWith, rest, phase, body]
  | skip _ _ _ _ phase body verdict =>
    simp [decoded, metrics, dealtWith, rest, count, phase, body, verdict]
  | accept _ _ _ _ phase body verdict =>
    simp [decoded, metrics, dealtWith, rest, count, acquire, phase, body, verdict]
  | _ => rfl

theorem calls_of_not_dispatch (h : Step c s m calls t) (hm : m.isDispatch = false) {call : Call}
    (hcall : call ∈ calls) : call = .receive ∨ ∃ d ∈ s.offered, call = .delete d.handle := by
  cases h with
  | ask => exact .inl (List.mem_singleton.mp hcall)
  | ack g held =>
    have hoffered : g.message ∈ s.offered := List.mem_append_right _ (List.mem_map_of_mem held)
    exact .inr ⟨g.message, hoffered, List.mem_singleton.mp hcall⟩
  | skip => cases hm
  | _ => cases hcall

theorem offered_subset (h : Step c s m calls t) : t.offered ⊆ s.offered ++ s.puts m := by
  cases h with
  | take m channel next => simp [offered, puts, next]
  | sent m _ phase going => simp [offered, puts, sending, phase, going]
  | ack g => simp [offered, puts, List.map_map, Function.comp_def]
  | acked | discard =>
    apply List.subset_append_of_subset_left
    exact List.append_subset.mpr ⟨List.subset_append_left _ _,
      List.subset_append_of_subset_right _ (List.filter_sublist.map _).subset⟩
  | close => simp [offered, puts, release]
  | _ => exact List.subset_append_left _ _

theorem isCalledOff (h : Step c s m calls t) (hs : s.phase = .stopped → s.IsCalledOff)
    (stopped : t.phase = .stopped) : t.IsCalledOff := by
  cases h with
  | quit _ ended =>
    rcases Bool.or_eq_true_iff.mp ended with told | closed
    · exact .inl told
    · exact .inr (.inr closed)
  | unsent _ _ _ closed => exact .inr (.inr closed)
  | stopSending _ _ _ signalled | stop _ signalled => exact .inr (.inl signalled)
  | tell | hangUp => exact .inr (.inl rfl)
  | close => exact .inr (.inr rfl)
  | take | ack | acked | discard => exact hs stopped
  | _ => cases stopped

end Step

def entered (trail : List (Consumer × Move)) : List Delivery := trail.flatMap fun p => p.1.puts p.2

def departed (trail : List (Consumer × Move)) : List Delivery := trail.flatMap fun p => p.1.leaves p.2

def abandoned (trail : List (Consumer × Move)) : List Delivery := trail.flatMap fun p => p.1.abandons p.2

/-- The messages of batches that were dealt with. -/
def reached (trail : List (Consumer × Move)) : List Handout := trail.flatMap fun p => p.1.dealtWith p.2

section Trails

variable {c : Config} {trail : List (Consumer × Move)} {s t : Consumer} {m : Move} {calls : List Call}

theorem entered_concat : entered (trail ++ [(s, m)]) = entered trail ++ s.puts m := by
  simp [entered]

theorem departed_concat : departed (trail ++ [(s, m)]) = departed trail ++ s.leaves m := by
  simp [departed]

theorem abandoned_concat : abandoned (trail ++ [(s, m)]) = abandoned trail ++ s.abandons m := by
  simp [abandoned]

theorem reached_concat : reached (trail ++ [(s, m)]) = reached trail ++ s.dealtWith m := by
  simp [reached]

theorem called_filter_concat (h : s.step? c m = some (calls, t)) (p : Consumer × Move → Bool) :
    called c ((trail ++ [(s, m)]).filter p) =
      called c (trail.filter p) ++ if p (s, m) then calls else [] := by
  cases hp : p (s, m) <;> simp [called, hp, h]

end Trails

variable {c : Config} {told signalled : Bool} {first s : Consumer} {trail : List (Consumer × Move)}

theorem sound_run (h : Run (move? c) { told, signalled } trail s) : s.Sound := by
  apply run_invariant (P := fun _ s => s.Sound) h (sound_start told signalled)
  intro _ s m calls t hs hstep
  exact (Step.of_step? hstep).sound hs

theorem isCalledOff_run (h : Run (move? c) { told, signalled } trail s) (stopped : s.phase = .stopped) :
    s.IsCalledOff := by
  apply run_invariant (P := fun _ s => s.phase = .stopped → s.IsCalledOff) h nofun ?_ stopped
  intro _ s m calls t hs hstep
  exact (Step.of_step? hstep).isCalledOff hs

/-- Where the forwarded messages of a run went: they were put into the channel in order, and are there or
have left it; but for one on which the consumer ended, or which is on its way. -/
structure Passage (c : Config) (trail : List (Consumer × Move)) (s : Consumer) : Prop where
  forwarded_eq : forwarded c trail = entered trail ++ abandoned trail ++ s.sending
  entered_eq : entered trail = departed trail ++ s.channel
  stopped : abandoned trail ≠ [] → s.phase = .stopped
  length_le : (abandoned trail).length ≤ 1

theorem Passage.step {t : Consumer} {m : Move} {calls : List Call} (h : Passage c trail s)
    (step : Step c s m calls t) : Passage c (trail ++ [(s, m)]) t := by
  have hsending := step.sending_eq
  have hentered : entered (trail ++ [(s, m)]) = departed (trail ++ [(s, m)]) ++ t.channel := by
    rw [entered_concat, departed_concat, h.entered_eq, List.append_assoc, step.channel_eq, List.append_assoc]
  by_cases hgoing : abandoned trail = []
  · refine ⟨?_, hentered, ?_, ?_⟩
    · rw [forwarded_concat, h.forwarded_eq, entered_concat, abandoned_concat, hgoing]
      simp [hsending]
    · rw [abandoned_concat, hgoing]
      exact step.stopped_of_abandons
    · rw [abandoned_concat, hgoing]
      exact Nat.le_trans (s.abandons_sublist m).length_le s.length_sending
  · -- The consumer has ended, so that nothing is on its way.
    have hstopped := h.stopped hgoing
    have hnothing := sending_of_stopped hstopped
    have hputs : s.puts m = [] := List.sublist_nil.mp (hnothing ▸ s.puts_sublist m)
    have habandons : s.abandons m = [] := List.sublist_nil.mp (hnothing ▸ s.abandons_sublist m)
    have hforwards : s.forwards c m = t.sending := by
      simpa [hnothing, hputs, habandons] using hsending
    refine ⟨?_, hentered, fun _ => step.stays_stopped hstopped, ?_⟩
    · rw [forwarded_concat, h.forwarded_eq, entered_concat, abandoned_concat, hputs, habandons, hnothing,
        hforwards]
      simp
    · rw [abandoned_concat, habandons, List.append_nil]
      exact h.length_le

theorem passage_run (h : Run (move? c) first trail s) (hfirst : first.live = []) : Passage c trail s := by
  rw [live, List.append_assoc, List.append_eq_nil_iff, List.append_eq_nil_iff] at hfirst
  obtain ⟨hsending, hchannel, -⟩ := hfirst
  apply run_invariant (P := Passage c) h
  · exact ⟨hsending.symm, hchannel.symm, fun hne => absurd rfl hne, Nat.zero_le 1⟩
  · intro trail s m calls t htrail hstep
    exact htrail.step (Step.of_step? hstep)

/-- What a run has made so far of a batch whose leases end at `expires`. -/
structure Handled (c : Config) (expires : Nat) (batch : List Handout) (trail : List (Consumer × Move))
    (s : Consumer) : Prop where
  leased : s.IsLeased expires
  reached_isPrefix : reached trail <+: batch
  /-- The others are still to come, unless the consumer has ended. -/
  complete : s.phase ≠ .stopped → reached trail ++ s.rest = batch
  forwarded_eq : forwarded c trail = accepted c expires (reached trail)
  rejected_deleted : called c (trail.filter (·.2.isDispatch)) =
    (rejected c (reached trail)).map (.delete ·.handle)
  offered_subset : s.offered ⊆ entered trail
  others : ∀ call ∈ called c (trail.filter (!·.2.isDispatch)),
    call = .receive ∨ ∃ d ∈ entered trail, call = .delete d.handle

variable {expires : Nat} {batch : List Handout}

theorem Handled.step {t : Consumer} {m : Move} {calls : List Call} (h : Handled c expires batch trail s)
    (hstep : s.step? c m = some (calls, t)) (own : m.isAnswer = false) :
    Handled c expires batch (trail ++ [(s, m)]) t := by
  have step := Step.of_step? hstep
  constructor
  case leased => exact step.isLeased own h.leased
  case reached_isPrefix =>
    rw [reached_concat]
    by_cases hstopped : s.phase = .stopped
    · have hnothing : s.dealtWith m = [] :=
        List.prefix_nil.mp (rest_of_stopped hstopped ▸ s.dealtWith_isPrefix m)
      rw [hnothing, List.append_nil]
      exact h.reached_isPrefix
    · rw [← h.complete hstopped]
      apply (List.prefix_append_right_inj _).mpr
      exact s.dealtWith_isPrefix m
  case complete =>
    intro running
    have hs : s.phase ≠ .stopped := fun hstopped => running (step.stays_stopped hstopped)
    have hrest : s.rest = s.dealtWith m ++ t.rest := by
      simpa [brought_eq_nil own] using step.rest_eq running
    rw [reached_concat, List.append_assoc, ← hrest]
    exact h.complete hs
  case forwarded_eq =>
    rw [forwarded_concat, reached_concat, accepted_append, h.forwarded_eq, step.forwards_eq h.leased]
  case rejected_deleted =>
    rw [called_filter_concat hstep, reached_concat, rejected_append, List.map_append, h.rejected_deleted]
    cases m with
    | dispatch =>
      rw [step.calls_of_dispatch]
      rfl
    | _ => rfl
  case offered_subset =>
    rw [entered_concat]
    apply List.Subset.trans step.offered_subset
    apply List.append_subset.mpr
    exact ⟨List.subset_append_of_subset_left _ h.offered_subset, List.subset_append_right _ _⟩
  case others =>
    rw [called_filter_concat hstep, entered_concat]
    intro call hcall
    have hwider : ∀ d ∈ entered trail, d ∈ entered trail ++ s.puts m := fun d => List.mem_append_left _
    rcases List.mem_append.mp hcall with hearlier | hnew
    · exact (h.others call hearlier).imp_right fun ⟨d, hd, heq⟩ => ⟨d, hwider d hd, heq⟩
    · cases hm : m.isDispatch with
      | true => simp [hm] at hnew
      | false =>
        rw [hm] at hnew
        -- What a worker deletes it had from the channel, so it was put there before.
        apply (step.calls_of_not_dispatch hm hnew).imp_right
        exact fun ⟨d, hd, heq⟩ => ⟨d, hwider d (h.offered_subset hd), heq⟩

theorem handled_received {calls : List Call} {now : Nat} {t : Consumer}
    (h : Step c s (.answer now (.ok batch)) calls t) (hs : s.Sound) :
    Handled c (now + c.visibility) batch [] t := by
  obtain ⟨-, hlive, hrest⟩ := h.answered hs
  have hleased : t.IsLeased (now + c.visibility) := by
    cases h with
    | nothing => trivial
    | batch => rfl
  have hoffered : t.offered = [] := by
    rw [live, List.append_assoc] at hlive
    exact (List.append_eq_nil_iff.mp hlive).2
  refine ⟨hleased, List.nil_prefix, fun _ => hrest, rfl, rfl, ?_, ?_⟩
  · rw [hoffered]
    exact List.nil_subset _
  · exact List.forall_mem_nil _

theorem handled_run {t : Consumer} {after : List (Consumer × Move)} (h : Run (move? c) t after s)
    (start : Handled c expires batch [] t) (current : ∀ p ∈ after, p.2.isAnswer = false) :
    Handled c expires batch after s := by
  apply run_invariant
    (P := fun after s => (∀ p ∈ after, p.2.isAnswer = false) → Handled c expires batch after s)
    h (fun _ => start) ?_ current
  intro trail s m calls t htrail hstep current
  obtain ⟨hearlier, hlast⟩ := List.forall_mem_append.mp current
  exact (htrail hearlier).step hstep (hlast (s, m) List.mem_cons_self)

structure Tallied (c : Config) (trail : List (Consumer × Move)) (s : Consumer) (id : UInt64) : Prop where
  consumed : s.counters.get ("consumed:" ++ toString id) = (decoded (reached trail)).countP (·.chainId = id)
  filtered : s.counters.get ("filtered:" ++ toString id) =
    (decoded (rejected c (reached trail))).countP (·.chainId = id)
  unfiltered : s.counters.get ("unfiltered:" ++ toString id) =
    (entered trail ++ abandoned trail ++ s.sending).countP (·.event.chainId = id)
  balance : s.counters.get ("consumed:" ++ toString id) =
    s.counters.get ("filtered:" ++ toString id) + s.counters.get ("unfiltered:" ++ toString id)

theorem counters_run (h : Run (move? c) { told, signalled } trail s) :
    s.counters = ((decoded (reached trail)).flatMap (metrics c)).foldl Counters.record [] := by
  apply run_invariant (P := fun trail s =>
    s.counters = ((decoded (reached trail)).flatMap (metrics c)).foldl Counters.record []) h rfl
  intro trail s m calls t hs hstep
  rw [(Step.of_step? hstep).counters_eq, hs, reached_concat, decoded_append, List.flatMap_append,
    List.foldl_append]

/-- What a run forwards is what it accepts. -/
theorem events_run (h : Run (move? c) { told, signalled } trail s) :
    (forwarded c trail).map (·.event) = (decoded (reached trail)).filter (c.filter · = .accept) := by
  apply run_invariant (P := fun trail _ =>
    (forwarded c trail).map (·.event) = (decoded (reached trail)).filter (c.filter · = .accept)) h rfl
  intro trail s m calls t hs hstep
  obtain ⟨expires, hleased⟩ := s.exists_isLeased
  rw [forwarded_concat, List.map_append, hs, (Step.of_step? hstep).forwards_eq hleased, events_accepted,
    reached_concat, decoded_append, List.filter_append]

theorem tallied_run (h : Run (move? c) { told, signalled } trail s) (id : UInt64) : Tallied c trail s id := by
  have hcount (tally : Metric) {key : String} (hkey : tally.messageKey? = some key) :
      s.counters.get key = ((decoded (reached trail)).flatMap (metrics c)).count tally := by
    rw [counters_run h, Counters.isSorted_nil.get_messageKey hkey]
    exact Nat.zero_add _
  have hconsumed := hcount (.consumed id) rfl
  have hfiltered := hcount (.filtered id) rfl
  have hunfiltered := hcount (.unfiltered id) rfl
  obtain ⟨hall, hskipped, haccepted⟩ := count_metrics c id (decoded (reached trail))
  have hforwarded : ((decoded (reached trail)).filter (c.filter · = .accept)).countP (·.chainId = id) =
      (entered trail ++ abandoned trail ++ s.sending).countP (·.event.chainId = id) := by
    rw [← events_run h, List.countP_map, (passage_run h rfl).forwarded_eq]
    rfl
  constructor
  case consumed => exact hconsumed.trans hall
  case filtered => rw [hfiltered, hskipped, decoded_rejected]
  case unfiltered => rw [hunfiltered, haccepted, hforwarded]
  case balance => rw [hconsumed, hfiltered, hunfiltered, count_consumed]

section Accounts

variable {after : List (Consumer × Move)} (handled : Handled c expires batch after s)
  (passage : Passage c after s)
include handled passage

theorem entered_isPrefix : entered after <+: accepted c expires batch := by
  obtain ⟨left, hleft⟩ := handled.reached_isPrefix
  rw [← hleft, accepted_append, ← handled.forwarded_eq, passage.forwarded_eq, List.append_assoc,
    List.append_assoc]
  exact List.prefix_append _ _

/-- When a consumer that goes on has nothing left of a batch, all that was accepted is in the channel. -/
theorem entered_eq (running : s.phase ≠ .stopped) (hrest : s.rest = []) (hsending : s.sending = []) :
    entered after = accepted c expires batch := by
  have hkept : abandoned after = [] := by
    by_contra hne
    exact running (passage.stopped hne)
  have hforwarded := passage.forwarded_eq
  rw [hkept, hsending, List.append_nil, List.append_nil, handled.forwarded_eq] at hforwarded
  rw [← hforwarded, ← handled.complete running, hrest, List.append_nil]

variable {h : Handout} (distinct : (batch.map (·.handle)).Nodup) (hbatch : h ∈ batch)
  (unwanted : ∀ event, decodeMessage? h.body = some event → c.filter event = .skip)
include distinct hbatch unwanted

theorem handle_notMem_entered : h.handle ∉ (entered after).map (·.handle) := by
  intro hmem
  obtain ⟨d, hd, hhandle⟩ := List.mem_map.mp hmem
  obtain ⟨h', hh', event, body, verdict, rfl⟩ := mem_accepted.mp ((entered_isPrefix handled passage).subset hd)
  have hsame : h' = h := List.inj_on_of_nodup_map distinct hh' hbatch hhandle
  rw [hsame] at body
  cases verdict.symm.trans (unwanted event body)

theorem count_delete :
    (called c after).count (.delete h.handle) = if h ∈ rejected c (reached after) then 1 else 0 := by
  have hsplit : (called c (after.filter (·.2.isDispatch)) ++
      called c (after.filter (!·.2.isDispatch))).Perm (called c after) := by
    rw [called, called, called, ← List.flatMap_append]
    exact (List.filter_append_perm _ after).flatMap_right _
  have hothers : Call.delete h.handle ∉ called c (after.filter (!·.2.isDispatch)) := by
    intro hmem
    rcases handled.others _ hmem with hreceive | ⟨d, hd, hdelete⟩
    · cases hreceive
    · apply handle_notMem_entered handled passage distinct hbatch unwanted
      rw [Call.delete.inj hdelete]
      exact List.mem_map_of_mem hd
  have hrejected : (rejected c (reached after)).Sublist batch :=
    List.filter_sublist.trans handled.reached_isPrefix.sublist
  have hnodup : ((rejected c (reached after)).map (Call.delete ·.handle)).Nodup := by
    have hhandles := (distinct.sublist (hrejected.map _)).map fun _ _ => Call.delete.inj
    rwa [List.map_map] at hhandles
  have hmem : Call.delete h.handle ∈ (rejected c (reached after)).map (Call.delete ·.handle) ↔
      h ∈ rejected c (reached after) := by
    refine ⟨fun hdelete => ?_, fun hh => List.mem_map_of_mem hh⟩
    obtain ⟨h', hh', heq⟩ := List.mem_map.mp hdelete
    exact List.inj_on_of_nodup_map distinct (hrejected.subset hh') hbatch (Call.delete.inj heq) ▸ hh'
  rw [← hsplit.count_eq, List.count_append, List.count_eq_zero.mpr hothers, handled.rejected_deleted,
    hnodup.count, Nat.add_zero]
  simp only [hmem]

end Accounts

/-- Whatever the batch, the filter, the moves of workers and queue and the outcome of the calls, up to the
next answer of the queue: a batch is gone through in order; what was put into the channel begins what the
filter accepts of it, all with the same lease, and is the whole of that when the batch is gone through,
unless the consumer was called off; every rejected message that was reached is deleted by one call and not
forwarded; one that cannot be decoded is neither deleted nor forwarded nor counted; and for every chain what
was consumed is what was rejected and what was put into the channel, with at most one message that was given
up when the consumer ended. -/
theorem accounts_for_every_message (c : Config) {told signalled : Bool}
    {trail before after : List (Consumer × Move)} {s₀ s : Consumer} {now : Nat} {batch : List Handout}
    (h : Run (move? c) { told, signalled } trail s)
    (cut : trail = before ++ (s₀, .answer now (.ok batch)) :: after)
    (current : ∀ p ∈ after, p.2.isAnswer = false) :
    Handled c (now + c.visibility) batch after s ∧ Passage c after s ∧
      entered after <+: accepted c (now + c.visibility) batch ∧
      (s.phase ≠ .stopped → s.rest = [] → s.sending = [] →
        entered after = accepted c (now + c.visibility) batch) ∧
      (s.rest ≠ [] ∨ s.sending ≠ [] → ∃ m ∈ [Move.dispatch, .send, .take], (move? c s m).isSome = true) ∧
      (s.phase = .stopped → s.IsCalledOff) ∧
      ((batch.map (·.handle)).Nodup → ∀ h ∈ batch,
        (∀ event, decodeMessage? h.body = some event → c.filter event = .skip) →
          h.handle ∉ (entered after).map (·.handle) ∧
          (called c after).count (.delete h.handle) = if h ∈ rejected c (reached after) then 1 else 0) ∧
      Passage c trail s ∧ ∀ id, Tallied c trail s id := by
  obtain ⟨hbefore, next, hnext, hafter⟩ := Run.cut (cut ▸ h)
  obtain ⟨⟨calls, next⟩, hanswer, rfl⟩ := Option.map_eq_some_iff.mp hnext
  have hstart := Step.of_step? hanswer
  have hhandled := handled_run hafter (handled_received hstart (sound_run hbefore)) current
  have hpassage := passage_run hafter (hstart.answered (sound_run hbefore)).2.1
  refine ⟨hhandled, hpassage, entered_isPrefix hhandled hpassage, entered_eq hhandled hpassage,
    exists_move_of_unfinished, isCalledOff_run h, ?_, passage_run h rfl, tallied_run h⟩
  intro distinct h hbatch unwanted
  exact ⟨handle_notMem_entered hhandled hpassage distinct hbatch unwanted,
    count_delete hhandled hpassage distinct hbatch unwanted⟩

private def bareEvent (chainId : UInt64) : ChainEvent where
  id := ""
  chainId
  emitterAddress := ""
  sequence := 0

private def bareEnvelope (chainId : UInt64) : Envelope :=
  { kind := "", messageId := "", message := (bareEvent chainId).toJson.render }

private def bareBody (chainId : UInt64) : String := (bareEnvelope chainId).toJson.render

private theorem decode_bare (chainId : UInt64) :
    decodeMessage? (bareBody chainId) = some (bareEvent chainId) := by
  have houter := Json.read?_render ((bareEnvelope chainId).legible_toJson 126)
  have hinner := Json.read?_render ((bareEvent chainId).legible_toJson 126)
  rw [decodeMessage?, bareBody, houter, Option.bind_some, Envelope.ofJson?_toJson (by simp [bareEnvelope]),
    Option.bind_some, Envelope.event?, bareEnvelope, hinner, Option.bind_some,
    ChainEvent.ofJson?_toJson (by simp [bareEvent])]

private def oneChain : Config where
  filter event := acceptChains [7] event.chainId
  capacity := 1
  visibility := 5

private def mixedBatch (wanted unwanted : String) : List Handout :=
  [⟨"a", "a#1", "?"⟩, ⟨"b", "b#1", unwanted⟩, ⟨"c", "c#1", wanted⟩, ⟨"d", "d#1", wanted⟩,
    ⟨"e", "e#1", wanted⟩]

private def asking : Consumer := { phase := .receiving }

private def received (wanted unwanted : String) : Consumer :=
  { phase := .dispatching 15 (mixedBatch wanted unwanted) }

private def cutShort : List Move :=
  [.dispatch, .dispatch, .dispatch, .send, .dispatch, .tell true, .stop]

private theorem cutShort_replay {wanted unwanted : String}
    (hwanted : decodeMessage? wanted = some (bareEvent 7))
    (hunwanted : decodeMessage? unwanted = some (bareEvent 8)) : ∃ after s,
    replay? (move? oneChain) (received wanted unwanted) cutShort = some (after, s) ∧
      (∀ p ∈ after, p.2.isAnswer = false) ∧
      (entered after).map (·.messageId) = ["c"] ∧ (abandoned after).map (·.messageId) = ["d"] ∧
      ⟨"b", "b#1", unwanted⟩ ∈ reached after ∧ s.counters.get "unfiltered:7" = 2 := by
  have hgarbled : decodeMessage? "?" = none := by decide +kernel
  have haccept : oneChain.filter (bareEvent 7) = .accept := rfl
  have hskip : oneChain.filter (bareEvent 8) = .skip := rfl
  have hroom : max oneChain.capacity 1 = 1 := rfl
  simp only [cutShort, received, mixedBatch, replay?, move?, step?, handle, hgarbled, hwanted, hunwanted,
    hskip, haccept, count, acquire, release, room, hroom, isWaiting, Option.map_some, Bool.false_eq_true,
    if_false, if_true, List.length_nil, Nat.zero_lt_one, Bool.and_true, decide_true]
  refine ⟨_, _, rfl, ?_, rfl, rfl, ?_, ?_⟩
  · simp [Move.isAnswer]
  · simp [reached, dealtWith, rest]
  · decide +kernel

private def arrived : List Handout := mixedBatch (bareBody 7) (bareBody 8)

theorem mixed_batch_accounted :
    ∃ (trail after : List (Consumer × Move)) (s₀ s : Consumer), Run (move? oneChain) {} trail s ∧
      trail = [(({} : Consumer), Move.ask)] ++ (s₀, .answer 10 (.ok arrived)) :: after ∧
      (∀ p ∈ after, p.2.isAnswer = false) ∧ s.phase = .stopped ∧ s.IsCalledOff ∧
      (entered after).map (·.messageId) = ["c"] ∧ (abandoned after).map (·.messageId) = ["d"] ∧
      entered after <+: accepted oneChain 15 arrived ∧
      (called oneChain after).count (.delete "b#1") = 1 ∧
      s.counters.get "unfiltered:7" = 2 ∧ ∀ id, Tallied oneChain trail s id := by
  obtain ⟨after, s, hreplay, hcurrent, hentered, habandoned, hreached, hcount⟩ :=
    cutShort_replay (decode_bare 7) (decode_bare 8)
  have hask : move? oneChain {} .ask = some asking := rfl
  have hanswer : move? oneChain asking (.answer 10 (.ok arrived)) =
      some (received (bareBody 7) (bareBody 8)) := rfl
  have hwhole : replay? (move? oneChain) {} (.ask :: .answer 10 (.ok arrived) :: cutShort) =
      some ([(({} : Consumer), Move.ask)] ++ (asking, .answer 10 (.ok arrived)) :: after, s) := by
    simp only [replay?, hask, hanswer, hreplay]
    rfl
  have hrun := Run.of_replay hwhole
  obtain ⟨-, hpassage, hprefix, -, -, hcalledOff, hdeleted, -, htallied⟩ :=
    accounts_for_every_message oneChain hrun rfl hcurrent
  have hstopped : s.phase = .stopped := by
    apply hpassage.stopped
    intro hnone
    simp [hnone] at habandoned
  have hrejected : (⟨"b", "b#1", bareBody 8⟩ : Handout) ∈ rejected oneChain (reached after) :=
    mem_rejected.mpr ⟨hreached, bareEvent 8, decode_bare 8, rfl⟩
  have hunwanted : ∀ event, decodeMessage? (bareBody 8) = some event → oneChain.filter event = .skip := by
    intro event body
    rw [← Option.some.inj ((decode_bare 8).symm.trans body)]
    rfl
  have hdelete := (hdeleted (by decide) ⟨"b", "b#1", bareBody 8⟩ (by simp [arrived, mixedBatch]) hunwanted).2
  rw [if_pos hrejected] at hdelete
  exact ⟨_, after, _, s, hrun, rfl, hcurrent, hstopped, hcalledOff hstopped, hentered, habandoned,
    hprefix, hdelete, hcount, htallied⟩

end ChainFeed.Consumer

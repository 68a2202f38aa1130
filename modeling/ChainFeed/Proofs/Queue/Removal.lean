import ChainFeed.Proofs.Queue.Outstanding
import ChainFeed.Proofs.Queue.Storage
import ChainFeed.Queue.Line

/-!
# Messages are removed once

A consumer that is alone on its queue deletes the messages that a worker acknowledges or the filter
rejects, and no others, however late that is: a lease that has run out is noticed only by a receive,
and there is no receive while a message is unsettled.
-/

namespace ChainFeed.Line

inductive Step (c : Config) (s : Line) : Move → Line → Prop
  | push (body : String) : Step c s (.push body) { s with queue := (s.queue.push body).2 }
  | pass (ms : Nat) : Step c s (.pass ms) { s with now := s.now + ms }
  | failed {calls : List Consumer.Call} {consumer : Consumer} (e : QueueError)
      (step : s.consumer.Step c.consumer (.answer s.now (.error e)) calls consumer) :
      Step c s .answer (calls.foldl (call c) { s with asking := none, consumer })
  | handed {calls : List Consumer.Call} {consumer : Consumer}
      (step : s.consumer.Step c.consumer (.answer s.now (.ok (s.queue.take c.queue s.now).1)) calls
        consumer) :
      Step c s .answer (calls.foldl (call c)
        { s with queue := (s.queue.take c.queue s.now).2, asking := none, consumer })
  | act {calls : List Consumer.Call} {consumer : Consumer} (m : Consumer.Move) (own : m.isAnswer = false)
      (step : s.consumer.Step c.consumer m calls consumer) :
      Step c s (.act m) (calls.foldl (call c) { s with consumer })

private theorem act_cases {c : Config} {s t : Line} {m : Consumer.Move} (h : act? c s m = some t) :
    ∃ calls consumer, s.consumer.Step c.consumer m calls consumer ∧
      t = calls.foldl (call c) { s with consumer } := by
  unfold act? at h
  split at h
  · next calls consumer hstep =>
    cases h
    exact ⟨calls, consumer, .of_step? hstep, rfl⟩
  · cases h

private theorem poll_cases {c : Queue.Config} {now : Nat} {r : Receive} {q queue : Queue}
    {handouts : List Handout} (h : r.poll c now q = (some handouts, queue)) :
    q.take c now = (handouts, queue) := by
  unfold Receive.poll at h
  generalize q.take c now = taken at h
  obtain ⟨handouts', queue'⟩ := taken
  simp only [Prod.mk.injEq] at h
  obtain ⟨hhandouts, rfl⟩ := h
  split at hhandouts <;> cases hhandouts
  rfl

theorem Step.of_step? {c : Config} {s t : Line} {m : Move} (h : s.step? c m = some t) : Step c s m t := by
  cases m with
  | push body =>
    cases h
    exact .push body
  | pass ms =>
    cases h
    exact .pass ms
  | answer =>
    simp only [step?] at h
    split at h
    · next r queue hreply =>
      obtain ⟨calls, consumer, step, rfl⟩ := act_cases h
      unfold reply at hreply
      split at hreply
      · cases hreply
        exact .failed _ step
      · next receive asking =>
        generalize hpoll : receive.poll c.queue s.now s.queue = polled at hreply
        obtain ⟨handouts?, queue'⟩ := polled
        obtain ⟨hr, rfl⟩ := Prod.mk.inj hreply
        obtain ⟨handouts, rfl, rfl⟩ := Option.map_eq_some_iff.mp hr
        have htake := poll_cases hpoll
        have hqueue : queue' = (s.queue.take c.queue s.now).2 := by rw [htake]
        have hhandouts : handouts = (s.queue.take c.queue s.now).1 := by rw [htake]
        subst hqueue hhandouts
        exact .handed step
      · cases hreply
    · cases h
  | act m =>
    have own : m.isAnswer = false := by
      cases m <;> first | rfl | cases h
    have hact : act? c s m = some t := by
      cases m <;> first | exact h | cases own
    obtain ⟨calls, consumer, step, rfl⟩ := act_cases hact
    exact .act m own step

/-- Id and handle of the message that a move deletes, if it does. -/
def removes (c : Config) (s : Line) : Move → List (String × String)
  | .act m => s.consumer.removes c.consumer m
  | _ => []

def forwards (c : Config) (s : Line) : Move → List Delivery
  | .act m => s.consumer.forwards c.consumer m
  | _ => []

def pushes (s : Line) : Move → List String
  | .push body => [(s.queue.push body).1]
  | _ => []

/-- The queue has every message in one place, no message is twice with the consumer, and what may
still be deleted is leased. -/
structure Sound (s : Line) : Prop where
  consumer : s.consumer.Sound
  whole : s.queue.Whole
  distinct : s.consumer.ids.Nodup
  backed : ∀ p ∈ s.consumer.outstanding, s.queue.Backs p
  healthy : s.deleteFault = false

private theorem foldl_delete (c : Config) (handles : List String) {s : Line}
    (healthy : s.deleteFault = false) :
    (handles.map Consumer.Call.delete).foldl (call c) s = { s with queue := s.queue.deleteAll handles } := by
  induction handles generalizing s with
  | nil => rfl
  | cons handle handles ih =>
    have hcall : call c s (.delete handle) = { s with queue := (s.queue.delete handle).2 } := by
      simp only [call, healthy]
      rfl
    rw [List.map_cons, List.foldl_cons, hcall]
    exact ih healthy

private theorem calls_kept {c : Config} {s : Line} {consumer : Consumer} {m : Consumer.Move}
    {calls : List Consumer.Call} (step : s.consumer.Step c.consumer m calls consumer)
    (own : m.isAnswer = false) (hs : s.Sound) :
    (calls.foldl (call c) { s with consumer }).Sound ∧
      (calls.foldl (call c) { s with consumer }).queue.pushed = s.queue.pushed ∧
      (calls.foldl (call c) { s with consumer }).queue.deleted.map Message.id =
        s.queue.deleted.map Message.id ++ (s.consumer.removes c.consumer m).map Prod.fst := by
  have hkept := step.outstanding_kept hs.consumer own
  have hsound := step.sound hs.consumer
  have hids := nodup_of_subperm (step.ids_kept hs.consumer own) hs.distinct
  have hbacked : ∀ p ∈ s.consumer.removes c.consumer m ++ consumer.outstanding, s.queue.Backs p :=
    fun p hp => hs.backed p (hkept.subset hp)
  rcases step.calls_eq hs.consumer with ⟨rfl, hremoves⟩ | rfl
  · rw [hremoves] at hbacked ⊢
    rw [List.map_nil, List.append_nil, List.foldl_cons, List.foldl_nil, call]
    split
    · exact ⟨⟨hsound, hs.whole, hids, hbacked, hs.healthy⟩, rfl, rfl⟩
    · exact ⟨⟨hsound, hs.whole, hids, hbacked, hs.healthy⟩, rfl, rfl⟩
  -- What is removed and what may still be deleted are different messages, so that using the leases of
  -- the first keeps those of the second.
  · have hdistinct : ((s.consumer.removes c.consumer m).map Prod.fst ++
        consumer.outstanding.map Prod.fst).Nodup := by
      rw [← List.map_append]
      obtain ⟨l, hperm, hsub⟩ := hkept
      refine nodup_of_subperm ⟨_, hperm.map _, hsub.map _⟩ ?_
      exact hs.distinct.sublist s.consumer.outstanding_sublist
    obtain ⟨hfirst, -, hdisjoint⟩ := List.nodup_append.mp hdistinct
    obtain ⟨hwhole, hpushed, hdeleted, hothers⟩ := hs.whole.deleteAll hfirst
      fun p hp => hbacked p (List.mem_append_left _ hp)
    have hcalls : (s.consumer.removes c.consumer m).map (fun p => Consumer.Call.delete p.2) =
        ((s.consumer.removes c.consumer m).map Prod.snd).map Consumer.Call.delete := by
      rw [List.map_map]
      rfl
    rw [hcalls, foldl_delete c _ (s := { s with consumer }) hs.healthy]
    refine ⟨⟨hsound, hwhole, hids, fun p hp => ?_, hs.healthy⟩, hpushed, hdeleted⟩
    refine hothers p (hbacked p (List.mem_append_right _ hp)) fun hmem => ?_
    exact hdisjoint _ hmem _ (List.mem_map_of_mem hp) rfl

private theorem answered_kept {c : Config} {s : Line} {consumer : Consumer} {queue : Queue}
    {r : Except QueueError (List Handout)} {calls : List Consumer.Call}
    (step : s.consumer.Step c.consumer (.answer s.now r) calls consumer) (hs : s.Sound)
    (hwhole : queue.Whole) (hdistinct : (consumer.rest.map (·.id)).Nodup)
    (hbacked : ∀ h ∈ consumer.rest, queue.Backs (h.id, h.handle)) :
    calls.foldl (call c) { s with queue, asking := none, consumer } =
        { s with queue, asking := none, consumer } ∧
      Sound { s with queue, asking := none, consumer } := by
  obtain ⟨rfl, hlive, -⟩ := step.answered hs.consumer
  obtain ⟨hids, houtstanding⟩ := Consumer.batch_only hlive
  refine ⟨rfl, step.sound hs.consumer, hwhole, ?_, ?_, hs.healthy⟩
  · exact hids ▸ hdistinct
  · intro p hp
    obtain ⟨h, hh, rfl⟩ := List.mem_map.mp (houtstanding ▸ hp)
    exact hbacked h hh

/-- Every move keeps a line sound, deletes what it removes, and adds what it pushes. -/
theorem Step.kept {c : Config} {s t : Line} {m : Move} (h : Step c s m t) (hs : s.Sound) :
    t.Sound ∧ t.queue.deleted.map Message.id =
        s.queue.deleted.map Message.id ++ (s.removes c m).map Prod.fst ∧
      t.queue.pushedIds = s.queue.pushedIds ++ s.pushes m := by
  cases h with
  | push body =>
    refine ⟨⟨hs.consumer, hs.whole.push body, hs.distinct, hs.backed, hs.healthy⟩, ?_, ?_⟩
    · exact (List.append_nil _).symm
    · exact s.queue.pushedIds_push body
  | pass ms =>
    refine ⟨⟨hs.consumer, hs.whole, hs.distinct, hs.backed, hs.healthy⟩, ?_, ?_⟩
    · exact (List.append_nil _).symm
    · exact (List.append_nil _).symm
  | failed e step =>
    obtain ⟨-, -, hrest⟩ := step.answered hs.consumer
    obtain ⟨heq, hsound⟩ := answered_kept step hs hs.whole (by simp [hrest]) (by simp [hrest])
    rw [heq]
    exact ⟨hsound, (List.append_nil _).symm, (List.append_nil _).symm⟩
  | handed step =>
    obtain ⟨-, -, hrest⟩ := step.answered hs.consumer
    obtain ⟨hnodup, hleased⟩ := Queue.take_handouts hs.whole c.queue s.now
    have hbacked : ∀ h ∈ (s.queue.take c.queue s.now).1,
        (s.queue.take c.queue s.now).2.Backs (h.id, h.handle) := by
      intro h hh
      obtain ⟨l, hl, rfl⟩ := hleased h hh
      exact ⟨l, hl, rfl⟩
    obtain ⟨heq, hsound⟩ := answered_kept step hs (hs.whole.take c.queue s.now) (hrest ▸ hnodup)
      (hrest ▸ hbacked)
    rw [heq]
    exact ⟨hsound, (List.append_nil _).symm, (List.append_nil _).symm⟩
  | act m own step =>
    obtain ⟨hsound, hpushed, hdeleted⟩ := calls_kept step own hs
    refine ⟨hsound, hdeleted, ?_⟩
    rw [Queue.pushedIds, hpushed]
    exact (List.append_nil _).symm

theorem forwards_notMem_deleted {c : Config} {s : Line} {m : Move} {d : Delivery} (hs : s.Sound)
    (hd : d ∈ s.forwards c m) : d.messageId ∉ s.queue.deleted.map Message.id := by
  cases m with
  | act m =>
    obtain ⟨l, hl, hpair⟩ := hs.backed _ (Consumer.forwards_outstanding hd)
    obtain ⟨hid, -⟩ := Prod.mk.inj hpair
    rw [← hid]
    exact hs.whole.leased_notMem_deleted hl
  | push | pass | answer => cases hd

/-- The ids of the messages deleted in a run: those that a worker acknowledged or the filter rejected. -/
def removed (c : Config) (trail : List (Line × Move)) : List String :=
  trail.flatMap fun p => (p.1.removes c p.2).map Prod.fst

def pushed (trail : List (Line × Move)) : List String := trail.flatMap fun p => p.1.pushes p.2

private theorem kept (c : Config) {now receiveFaults : Nat} {started told signalled : Bool}
    {trail : List (Line × Move)} {s : Line}
    (h : Run (step? c) { now, receiveFaults, started, consumer := { told, signalled } } trail s) :
    s.Sound ∧ s.queue.deleted.map Message.id = removed c trail ∧ s.queue.pushedIds = pushed trail := by
  refine h.invariant (P := fun trail s => s.Sound ∧ s.queue.deleted.map Message.id = removed c trail ∧
    s.queue.pushedIds = pushed trail) ?_ ?_
  · have hnothing : Consumer.outstanding { told, signalled } = [] := rfl
    have hbacked : ∀ p ∈ Consumer.outstanding { told, signalled }, Queue.Backs {} p := by simp [hnothing]
    exact ⟨⟨Consumer.sound_start told signalled, Queue.whole_empty, List.nodup_nil, hbacked, rfl⟩, rfl, rfl⟩
  · intro trail s m t ⟨hs, hdeleted, hpushed⟩ hmove
    obtain ⟨hsound, hdeletes, hpushes⟩ := (Step.of_step? hmove).kept hs
    refine ⟨hsound, ?_, ?_⟩
    · rw [hdeletes, hdeleted, removed, removed, List.flatMap_append]
      simp
    · rw [hpushes, hpushed, pushed, pushed, List.flatMap_append]
      simp

/-- In every run of a consumer that is alone on its queue, the deleted messages are those that a worker
acknowledged or the filter rejected, each deleted once; every other message that was pushed is visible
or leased; no two messages that exist have the same id; and what was acknowledged or rejected is not
forwarded again. -/
theorem removes_once (c : Config) {now receiveFaults : Nat} {started told signalled : Bool}
    {trail : List (Line × Move)} {s : Line}
    (h : Run (step? c) { now, receiveFaults, started, consumer := { told, signalled } } trail s) :
    s.queue.deleted.map Message.id = removed c trail ∧ (removed c trail).Nodup ∧
      (pushed trail).Perm (s.queue.visible.map Message.id ++ s.queue.leased.map (·.message.id) ++
        removed c trail) ∧ (pushed trail).Nodup ∧
      (s.consumer.live.map (·.messageId)).Nodup ∧
      ∀ m, ∀ d ∈ s.forwards c m, d.messageId ∉ removed c trail := by
  obtain ⟨hs, hdeleted, hpushed⟩ := kept c h
  have hperm := hs.whole.pushedIds_perm
  rw [hpushed, hdeleted] at hperm
  have hnodup : (pushed trail).Nodup := hpushed ▸ s.queue.pushedIds_nodup
  refine ⟨hdeleted, ?_, hperm, hnodup, ?_, ?_⟩
  · exact (List.nodup_append.mp (hperm.nodup_iff.mp hnodup)).2.1
  · exact hs.distinct.sublist (List.sublist_append_right _ _)
  · intro m d hd
    exact hdeleted ▸ forwards_notMem_deleted hs hd

private def lateErrands : List Move :=
  [.push Consumer.sampleBody, .push "?", .act .ask, .answer, .act .dispatch, .act .send, .act .take,
    .act .dispatch, .act .dispatch, .pass 60000, .act (.ack 0), .act (.acked 0), .act .settle, .act .ask,
    .answer, .act .dispatch]

theorem late_errands_remove_once :
    ∃ trail s, Run (step? {}) {} trail s ∧ s.now = 60000 ∧ s.queue.deleted.map Message.id = ["msg-1"] ∧
      s.queue.leased.map (·.message.handle) = ["msg-2#2"] ∧ removed {} trail = ["msg-1"] ∧
      (pushed trail).Perm (s.queue.visible.map Message.id ++ s.queue.leased.map (·.message.id) ++
        removed {} trail) := by
  have hall : (replay? (step? {}) {} lateErrands).map
      (fun p => (p.2.now, p.2.queue.deleted.map Message.id,
        p.2.queue.leased.map (·.message.handle))) = some (60000, ["msg-1"], ["msg-2#2"]) := by
    decide +kernel
  obtain ⟨⟨trail, s⟩, hreplay, hsummary⟩ := Option.map_eq_some_iff.mp hall
  simp only [Prod.mk.injEq] at hsummary
  obtain ⟨hnow, hdeleted, hleased⟩ := hsummary
  have hrun := Run.of_replay hreplay
  obtain ⟨hremoved, -, hpushed, -⟩ := removes_once {} hrun
  exact ⟨trail, s, hrun, hnow, hdeleted, hleased, hremoved ▸ hdeleted, hpushed⟩

end ChainFeed.Line

import ChainFeed.Proofs.Run
import ChainFeed.Queue.Consumer

/-!
# The moves of a consumer

`Step` lists everything that a consumer, its workers and its queue can do, with the calls that come
with it and what it leaves. Invariants of consumers are case analyses of it.
-/

namespace ChainFeed.Consumer

def sending (s : Consumer) : List Delivery :=
  match s.phase with
  | .sending m _ => [m]
  | _ => []

/-- The messages of the batch that the consumer has not come to. -/
def rest (s : Consumer) : List Handout :=
  match s.phase with
  | .dispatching _ rest | .sending _ rest => rest
  | _ => []

def brought : Move → List Handout
  | .answer _ (.ok batch) => batch
  | _ => []

/-- The message of the batch that a move deals with. -/
def dealtWith (s : Consumer) : Move → List Handout
  | .dispatch => s.rest.head?.toList
  | _ => []

/-- The forwarded messages that exist: on the way into the channel, in it, in the hands of workers. -/
def live (s : Consumer) : List Delivery := s.sending ++ s.channel ++ s.held.map (·.message)

def Held.mark (slot : Nat) (h : Held) : Held := if h.slot = slot then { h with acking := true } else h

@[simp] theorem Held.mark_slot (slot : Nat) (h : Held) : (h.mark slot).slot = h.slot := by
  unfold mark
  split <;> rfl

@[simp] theorem Held.mark_message (slot : Nat) (h : Held) : (h.mark slot).message = h.message := by
  unfold mark
  split <;> rfl

inductive Step (c : Config) (s : Consumer) : Move → List Call → Consumer → Prop
  | quit (phase : s.phase = .ready) (ended : (s.told || s.closed) = true) :
      Step c s .ask [] { s with phase := .stopped }
  | ask (phase : s.phase = .ready) (going : (s.told || s.closed) = false) :
      Step c s .ask [.receive] { s with phase := .receiving }
  | refused (phase : s.phase = .receiving) (now : Nat) (e : QueueError) :
      Step c s (.answer now (.error e)) [] { s with phase := .pausing (now + c.backoff) }
  | nothing (phase : s.phase = .receiving) (now : Nat) :
      Step c s (.answer now (.ok [])) [] { s with phase := .ready }
  | batch (phase : s.phase = .receiving) (now : Nat) (h : Handout) (batch : List Handout) :
      Step c s (.answer now (.ok (h :: batch))) []
        { s with phase := .dispatching (now + c.visibility) (h :: batch) }
  | resume (now wake : Nat) (phase : s.phase = .pausing wake) :
      Step c s (.resume now) [] { s with phase := .ready }
  | dispatched (expires : Nat) (phase : s.phase = .dispatching expires []) :
      Step c s .dispatch [] { s with phase := .settling }
  | undecodable (expires : Nat) (h : Handout) (rest : List Handout)
      (phase : s.phase = .dispatching expires (h :: rest)) (body : decodeMessage? h.body = none) :
      Step c s .dispatch [] { s with phase := .dispatching expires rest }
  | skip (expires : Nat) (h : Handout) (rest : List Handout) (event : ChainEvent)
      (phase : s.phase = .dispatching expires (h :: rest))
      (body : decodeMessage? h.body = some event) (verdict : c.filter event = .skip) :
      Step c s .dispatch [.delete h.handle]
        { (s.count (.consumed event.chainId)).count (.filtered event.chainId) with
          phase := .dispatching expires rest }
  | accept (expires : Nat) (h : Handout) (rest : List Handout) (event : ChainEvent)
      (phase : s.phase = .dispatching expires (h :: rest))
      (body : decodeMessage? h.body = some event) (verdict : c.filter event = .accept) :
      Step c s .dispatch []
        { ((s.count (.consumed event.chainId)).count (.unfiltered event.chainId)).acquire with
          phase := .sending ⟨event, h.id, h.handle, expires⟩ rest }
  | unsent (m : Delivery) (rest : List Handout) (phase : s.phase = .sending m rest)
      (closed : s.closed = true) : Step c s .send [] { s.release 1 with phase := .stopped }
  | sent (m : Delivery) (rest : List Handout) (phase : s.phase = .sending m rest)
      (going : s.closed = false) (room : s.room c = true) :
      Step c s .send []
        { s with channel := s.channel ++ [m], phase := .dispatching m.expires rest }
  | settled (phase : s.phase = .settling) (idle : s.inFlight = 0) :
      Step c s .settle [] { s with phase := .ready }
  | stopSending (m : Delivery) (rest : List Handout) (phase : s.phase = .sending m rest)
      (signalled : s.signalled = true) : Step c s .stop [] { s.release 1 with phase := .stopped }
  | stop (waiting : s.isWaiting = true) (signalled : s.signalled = true) (unburdened : s.sending = []) :
      Step c s .stop [] { s with phase := .stopped }
  | take (m : Delivery) (channel : List Delivery) (next : s.channel = m :: channel) :
      Step c s .take []
        { s with channel, held := s.held ++ [⟨s.taken, m, false⟩], taken := s.taken + 1 }
  | ack (h : Held) (held : h ∈ s.held) (fresh : h.acking = false) :
      Step c s (.ack h.slot) [.delete h.message.handle]
        { s with held := s.held.map (Held.mark h.slot) }
  | acked (h : Held) (held : h ∈ s.held) (acking : h.acking = true) :
      Step c s (.acked h.slot) [] { s.release 1 with held := s.held.filter (·.slot != h.slot) }
  | discard (h : Held) (held : h ∈ s.held) :
      Step c s (.discard h.slot) [] { s.release 1 with held := s.held.filter (·.slot != h.slot) }
  | close (going : s.closed = false) :
      Step c s .close [] { s.release s.channel.length with channel := [], closed := true }
  | tell (value : Bool) : Step c s (.tell value) [] { s with told := value, signalled := true }
  | hangUp : Step c s .hangUp [] { s with signalled := true }

theorem Step.of_step? {c : Config} {s t : Consumer} {m : Move} {calls : List Call}
    (h : s.step? c m = some (calls, t)) : Step c s m calls t := by
  cases m with
  | ask =>
    simp only [step?] at h
    split at h
    · next phase =>
      split at h <;> cases h
      · next ended => exact .quit phase ended
      · next going => exact .ask phase (Bool.eq_false_iff.mpr going)
    · cases h
  | answer now reply =>
    simp only [step?] at h
    split at h <;> cases h
    · next phase => exact .refused phase now _
    · next phase => exact .nothing phase now
    · next batch hne phase =>
      cases batch with
      | nil => exact (hne rfl).elim
      | cons h batch => exact .batch phase now h batch
  | resume now =>
    simp only [step?] at h
    split at h
    · next wake phase =>
      split at h <;> cases h
      exact .resume now wake phase
    · cases h
  | dispatch =>
    simp only [step?] at h
    split at h
    · next expires phase =>
      cases h
      exact .dispatched expires phase
    · next expires handout rest phase =>
      simp only [Consumer.handle] at h
      split at h
      · next body =>
        cases h
        exact .undecodable expires handout rest phase body
      · next event body =>
        split at h <;> cases h
        · next verdict => exact .skip expires handout rest event phase body verdict
        · next verdict => exact .accept expires handout rest event phase body verdict
    · cases h
  | send =>
    simp only [step?] at h
    split at h
    · next m rest phase =>
      split at h
      · next closed =>
        cases h
        exact .unsent m rest phase closed
      · next going =>
        split at h <;> cases h
        next room => exact .sent m rest phase (Bool.eq_false_iff.mpr going) room
    · cases h
  | settle =>
    simp only [step?] at h
    split at h
    · next phase =>
      split at h <;> cases h
      next idle => exact .settled phase idle
    · cases h
  | stop =>
    simp only [step?] at h
    split at h
    · next hwait =>
      obtain ⟨signalled, waiting⟩ := Bool.and_eq_true_iff.mp hwait
      split at h <;> cases h
      · next m rest phase => exact .stopSending m rest phase signalled
      · next hnot =>
        refine .stop waiting signalled ?_
        unfold sending
        split
        · next m rest phase => exact absurd phase (hnot m rest)
        · rfl
    · cases h
  | take =>
    simp only [step?] at h
    split at h <;> cases h
    next m channel next => exact .take m channel next
  | ack slot =>
    simp only [step?] at h
    split at h <;> cases h
    next held hfind =>
      have hmem := List.mem_of_find?_eq_some hfind
      have hheld := List.find?_some hfind
      obtain ⟨hslot, hfresh⟩ := Bool.and_eq_true_iff.mp hheld
      cases eq_of_beq hslot
      exact .ack held hmem (Bool.not_eq_eq_eq_not.mp hfresh)
  | acked slot =>
    simp only [step?] at h
    split at h <;> cases h
    next hany =>
      obtain ⟨held, hmem, hheld⟩ := List.any_eq_true.mp hany
      obtain ⟨hslot, hacking⟩ := Bool.and_eq_true_iff.mp hheld
      cases eq_of_beq hslot
      exact .acked held hmem hacking
  | discard slot =>
    simp only [step?] at h
    split at h <;> cases h
    next hany =>
      obtain ⟨held, hmem, hslot⟩ := List.any_eq_true.mp hany
      cases eq_of_beq hslot
      exact .discard held hmem
  | close =>
    simp only [step?] at h
    split at h <;> cases h
    next going => exact .close (Bool.eq_false_iff.mpr going)
  | tell value =>
    cases h
    exact .tell value
  | hangUp =>
    cases h
    exact .hangUp

namespace Step

variable {c : Config} {s t : Consumer} {m : Move} {calls : List Call}

/-- A batch is gone through message by message, unless the consumer ends. -/
theorem rest_eq (h : Step c s m calls t) (running : t.phase ≠ .stopped) :
    s.rest ++ brought m = dealtWith s m ++ t.rest := by
  cases h with
  | quit | unsent | stopSending | stop => exact absurd rfl running
  | ask phase | refused phase | nothing phase | batch phase | resume _ _ phase | dispatched _ phase
  | undecodable _ _ _ phase | skip _ _ _ _ phase | accept _ _ _ _ phase | sent _ _ phase | settled phase =>
    simp [rest, brought, dealtWith, phase]
  | take | ack | acked | discard | close | tell | hangUp =>
    simp [rest, brought, dealtWith, release]

theorem stays_stopped (h : Step c s m calls t) (stopped : s.phase = .stopped) : t.phase = .stopped := by
  cases h with
  | take | ack | acked | discard | close | tell | hangUp => exact stopped
  | quit | stopSending | stop | unsent => rfl
  | ask phase | refused phase | nothing phase | batch phase | resume _ _ phase | dispatched _ phase
  | undecodable _ _ _ phase | skip _ _ _ _ phase | accept _ _ _ _ phase | sent _ _ phase | settled phase =>
    cases stopped.symm.trans phase

end Step

end ChainFeed.Consumer

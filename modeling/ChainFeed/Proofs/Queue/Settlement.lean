import ChainFeed.Proofs.Keyed
import ChainFeed.Proofs.Queue.Moves

/-!
# Batches are settled before the next one

A consumer counts the messages that it has forwarded and that are not settled. The count is the
number of those that exist, wherever they are, so that the consumer asks for the next batch only when
everything it forwarded has been acknowledged, failed or dropped.
-/

namespace ChainFeed.Consumer

/-- How a forwarded message was settled. -/
inductive Fate where
  /-- A worker acknowledged it, and the queue has answered the call that deletes it. -/
  | acked
  | discarded
  /-- It was dropped on its way to a worker. -/
  | lost
  deriving DecidableEq

def forwards (c : Config) (s : Consumer) : Move → List Delivery
  | .dispatch =>
    match s.phase with
    | .dispatching expires (h :: _) =>
      match decodeMessage? h.body with
      | some event =>
        match c.filter event with
        | .accept => [⟨event, h.id, h.handle, expires⟩]
        | .skip => []
      | none => []
    | _ => []
  | _ => []

def settles (s : Consumer) : Move → List (Delivery × Fate)
  | .acked slot => (s.held.filter fun h => h.slot == slot).map fun h => (h.message, .acked)
  | .discard slot => (s.held.filter fun h => h.slot == slot).map fun h => (h.message, .discarded)
  | .close => s.channel.map fun m => (m, .lost)
  | .send => if s.closed then s.sending.map fun m => (m, .lost) else []
  | .stop => s.sending.map fun m => (m, .lost)
  | _ => []

def isBetween (s : Consumer) : Bool :=
  match s.phase with
  | .ready | .receiving | .pausing _ => true
  | _ => false

/-- The count is right, workers hold messages under different numbers, and between batches no
forwarded message exists. -/
structure Sound (s : Consumer) : Prop where
  slots : (s.held.map (·.slot)).Nodup
  taken : ∀ h ∈ s.held, h.slot < s.taken
  count : s.inFlight = s.live.length
  between : s.isBetween = true → s.live = []

theorem sound_start (told signalled : Bool) : Sound { told, signalled } :=
  ⟨List.nodup_nil, fun _ h => (List.not_mem_nil h).elim, rfl, fun _ => rfl⟩

namespace Step

variable {c : Config} {s t : Consumer} {m : Move} {calls : List Call}

/-- Every message that is forwarded by a move or exists before it is settled by it or exists after it. -/
theorem balance (h : Step c s m calls t) (hs : s.Sound) :
    (s.forwards c m ++ s.live).Perm ((s.settles m).map Prod.fst ++ t.live) := by
  cases h with
  | quit phase | ask phase | refused phase | nothing phase | batch phase | resume _ _ phase
  | dispatched _ phase | settled phase => simp [forwards, settles, live, sending, phase]
  | undecodable _ _ _ phase body => simp [forwards, settles, live, sending, phase, body]
  | skip _ _ _ _ phase body verdict =>
    simp [forwards, settles, live, sending, count, phase, body, verdict]
  | accept _ _ _ _ phase body verdict =>
    simp [forwards, settles, live, sending, count, acquire, phase, body, verdict]
  | unsent _ _ phase closed => simp [forwards, settles, live, sending, release, phase, closed]
  | sent m _ phase going =>
    simp only [forwards, settles, live, sending, phase, going, List.nil_append]
    exact (List.perm_append_comm).append_right _
  | stopSending _ _ phase => simp [forwards, settles, live, sending, release, phase]
  | stop _ _ unburdened =>
    simp only [forwards, settles, live, unburdened, List.map_nil, List.nil_append]
    exact List.Perm.refl _
  | take m channel next =>
    simp only [forwards, settles, live, next, List.nil_append, List.map_nil, List.map_append,
      List.map_cons, List.append_assoc]
    refine List.Perm.append_left _ ?_
    rw [← List.append_assoc]
    exact (List.perm_append_singleton m _).symm
  | ack g =>
    have hmap : (s.held.map (Held.mark g.slot)).map (·.message) = s.held.map (·.message) := by
      rw [List.map_map]
      exact List.map_congr_left fun f _ => f.mark_message g.slot
    simp only [forwards, settles, live, hmap, List.nil_append, List.map_nil]
    exact List.Perm.refl _
  | acked g held | discard g held =>
    have hperm := (perm_cons_filter_key_ne hs.slots held).map (·.message)
    simp only [forwards, settles, live, filter_key_eq hs.slots held, List.map_cons, List.map_nil,
      List.nil_append, List.singleton_append]
    exact (hperm.append_left _).trans List.perm_middle
  | close =>
    have hmap : (s.channel.map fun m => (m, Fate.lost)).map Prod.fst = s.channel := by
      simp [Function.comp_def]
    change (s.sending ++ s.channel ++ s.held.map (·.message)).Perm
      (_ ++ (s.sending ++ [] ++ s.held.map (·.message)))
    rw [settles, hmap, List.append_nil, ← List.append_assoc]
    exact List.perm_append_comm.append_right _
  | tell | hangUp => simp [forwards, settles, live, sending]

private theorem counts (h : Step c s m calls t) (hs : s.Sound) :
    t.inFlight + (s.settles m).length = s.inFlight + (s.forwards c m).length := by
  cases h with
  | accept _ _ _ _ phase body verdict =>
    simp [forwards, settles, count, acquire, phase, body, verdict]
  | skip _ _ _ _ phase body verdict => simp [forwards, settles, count, phase, body, verdict]
  | undecodable _ _ _ phase body => simp [forwards, settles, phase, body]
  | dispatched _ phase => simp [forwards, settles, phase]
  | unsent _ _ phase closed => simp [forwards, settles, sending, release, phase, closed]
  | stopSending _ _ phase => simp [forwards, settles, sending, release, phase]
  | sent _ _ _ going => simp [forwards, settles, going]
  | stop _ _ unburdened => simp [forwards, settles, unburdened]
  | acked g held | discard g held =>
    simp [forwards, settles, release, filter_key_eq hs.slots held]
  | close => simp [forwards, settles, release]
  | quit | ask | refused | nothing | batch | resume | settled | take | ack | tell | hangUp =>
    simp [forwards, settles]

private theorem between_of_between (h : Step c s m calls t) (ht : t.isBetween = true) :
    s.forwards c m = [] ∧ (s.isBetween = true ∨ s.inFlight = 0) := by
  cases h with
  | ask phase | nothing phase | refused phase | resume _ _ phase =>
    exact ⟨rfl, .inl (by simp [isBetween, phase])⟩
  | settled _ idle => exact ⟨rfl, .inr idle⟩
  | take | ack | acked | discard | close | tell | hangUp => exact ⟨rfl, .inl ht⟩
  | quit | batch | dispatched | undecodable | skip | accept | unsent | sent | stopSending | stop =>
    simp [isBetween] at ht

theorem isBetween_of_receive (h : Step c s m calls t) (hreceive : Call.receive ∈ calls) :
    s.isBetween = true := by
  cases h with
  | ask phase => simp [isBetween, phase]
  | skip | ack => simp at hreceive
  | _ => simp at hreceive

private theorem slots_kept (h : Step c s m calls t) (hs : s.Sound) :
    (t.held.map (·.slot)).Nodup ∧ ∀ g ∈ t.held, g.slot < t.taken := by
  cases h with
  | take m =>
    refine ⟨?_, ?_⟩
    · rw [List.map_append, List.nodup_append]
      refine ⟨hs.slots, List.nodup_singleton _, ?_⟩
      intro slot hslot slot' hnew heq
      obtain ⟨g, hg, rfl⟩ := List.mem_map.mp hslot
      have := hs.taken g hg
      simp only [List.map_cons, List.map_nil, List.mem_singleton] at hnew
      omega
    · intro g hg
      rcases List.mem_append.mp hg with hg | hg
      · exact Nat.lt_succ_of_lt (hs.taken g hg)
      · rw [List.mem_singleton.mp hg]
        exact Nat.lt_succ_self s.taken
  | ack g =>
    have hmap : (s.held.map (Held.mark g.slot)).map (·.slot) = s.held.map (·.slot) := by
      rw [List.map_map]
      exact List.map_congr_left fun f _ => f.mark_slot g.slot
    refine ⟨hmap ▸ hs.slots, ?_⟩
    intro f hf
    obtain ⟨f', hf', rfl⟩ := List.mem_map.mp hf
    rw [Held.mark_slot]
    exact hs.taken f' hf'
  | acked g | discard g =>
    exact ⟨hs.slots.sublist (List.filter_sublist.map _),
      fun f hf => hs.taken f (List.mem_of_mem_filter hf)⟩
  | _ => exact ⟨hs.slots, hs.taken⟩

theorem sound (h : Step c s m calls t) (hs : s.Sound) : t.Sound where
  slots := (h.slots_kept hs).1
  taken := (h.slots_kept hs).2
  count := by
    -- Both sides of the balance have the same length.
    have hlength := (h.balance hs).length_eq
    have hcounts := h.counts hs
    have hcount := hs.count
    simp only [List.length_append, List.length_map] at hlength
    omega
  between := by
    intro ht
    obtain ⟨hforwards, hbefore⟩ := h.between_of_between ht
    -- Settling ends only at a count of zero, which is the number of messages that exist.
    have hlive : s.live = [] := by
      rcases hbefore with hbetween | hzero
      · exact hs.between hbetween
      · rw [hs.count] at hzero
        exact List.eq_nil_of_length_eq_zero (Int.ofNat_eq_zero.mp hzero)
    have hperm := h.balance hs
    rw [hforwards, hlive] at hperm
    exact (List.append_eq_nil_iff.mp (List.nil_perm.mp hperm)).2

end Step

def move? (c : Config) (s : Consumer) (m : Move) : Option Consumer := (s.step? c m).map Prod.snd

def called (c : Config) (trail : List (Consumer × Move)) : List Call :=
  trail.flatMap fun p => ((p.1.step? c p.2).map Prod.fst).getD []

def forwarded (c : Config) (trail : List (Consumer × Move)) : List Delivery :=
  trail.flatMap fun p => p.1.forwards c p.2

def settled (trail : List (Consumer × Move)) : List (Delivery × Fate) :=
  trail.flatMap fun p => p.1.settles p.2

section Trails

variable {c : Config} {first s t : Consumer} {m : Move} {calls : List Call} {trail : List (Consumer × Move)}

theorem called_concat (h : s.step? c m = some (calls, t)) :
    called c (trail ++ [(s, m)]) = called c trail ++ calls := by
  simp [called, h]

theorem forwarded_concat : forwarded c (trail ++ [(s, m)]) = forwarded c trail ++ s.forwards c m := by
  simp [forwarded]

theorem settled_concat : settled (trail ++ [(s, m)]) = settled trail ++ s.settles m := by
  simp [settled]

theorem run_invariant {P : List (Consumer × Move) → Consumer → Prop} (h : Run (move? c) first trail s)
    (start : P [] first)
    (kept : ∀ trail s m calls t, P trail s → s.step? c m = some (calls, t) → P (trail ++ [(s, m)]) t) :
    P trail s := by
  apply h.invariant start
  intro trail s m t htrail hmove
  obtain ⟨⟨calls, t⟩, hstep, rfl⟩ := Option.map_eq_some_iff.mp hmove
  exact kept trail s m calls t htrail hstep

end Trails

/-- The books of a run: what was forwarded is what was settled and what exists, and a message that is
or was acknowledged has been deleted. -/
private structure Books (c : Config) (trail : List (Consumer × Move)) (s : Consumer) : Prop where
  sound : s.Sound
  balance : (forwarded c trail).Perm ((settled trail).map Prod.fst ++ s.live)
  acking : ∀ h ∈ s.held, h.acking = true → .delete h.message.handle ∈ called c trail
  acked : ∀ d, (d, Fate.acked) ∈ settled trail → .delete d.handle ∈ called c trail

private theorem Step.acking_called {c : Config} {s t : Consumer} {m : Move} {calls : List Call}
    (h : Step c s m calls t) (hs : s.Sound) (g : Held) (hg : g ∈ t.held) (hacking : g.acking = true) :
    g ∈ s.held ∨ .delete g.message.handle ∈ calls := by
  cases h with
  | take m =>
    rcases List.mem_append.mp hg with hg | hg
    · exact .inl hg
    · rw [List.mem_singleton.mp hg] at hacking
      cases hacking
  | ack f held =>
    obtain ⟨f', hf', rfl⟩ := List.mem_map.mp hg
    by_cases hslot : f'.slot = f.slot
    · have hsame : f' = f := List.inj_on_of_nodup_map hs.slots hf' held hslot
      rw [hsame, Held.mark_message]
      exact .inr (List.mem_singleton.mpr rfl)
    · rw [Held.mark, if_neg hslot]
      exact .inl hf'
  | acked | discard => exact .inl (List.mem_of_mem_filter hg)
  | _ => exact .inl hg

private theorem Step.acked_held {c : Config} {s t : Consumer} {m : Move} {calls : List Call}
    (h : Step c s m calls t) (hs : s.Sound) (d : Delivery) (hd : (d, Fate.acked) ∈ s.settles m) :
    ∃ g ∈ s.held, g.acking = true ∧ g.message = d := by
  cases h with
  | acked g held acking =>
    simp only [settles, filter_key_eq hs.slots held, List.map_cons, List.map_nil,
      List.mem_singleton, Prod.mk.injEq, and_true] at hd
    exact ⟨g, held, acking, hd.symm⟩
  | _ => simp [settles] at hd

private theorem books (c : Config) {told signalled : Bool} {trail : List (Consumer × Move)}
    {s : Consumer} (h : Run (move? c) { told, signalled } trail s) : Books c trail s := by
  apply run_invariant (P := Books c) h
  · exact ⟨sound_start told signalled, List.Perm.refl _, by simp, by simp [settled]⟩
  · intro trail s m calls t hbooks hstep
    have step := Step.of_step? hstep
    refine ⟨step.sound hbooks.sound, ?_, ?_, ?_⟩
    · have hstart : (forwarded c trail ++ s.forwards c m).Perm
          ((settled trail).map Prod.fst ++ (s.forwards c m ++ s.live)) := by
        refine (hbooks.balance.append_right _).trans ?_
        rw [List.append_assoc]
        exact List.perm_append_comm.append_left _
      rw [forwarded_concat, settled_concat, List.map_append, List.append_assoc]
      exact hstart.trans ((step.balance hbooks.sound).append_left _)
    · intro g hg hacking
      rw [called_concat hstep, List.mem_append]
      rcases step.acking_called hbooks.sound g hg hacking with hold | hnew
      · exact .inl (hbooks.acking g hold hacking)
      · exact .inr hnew
    · intro d hd
      rw [called_concat hstep, List.mem_append]
      rcases List.mem_append.mp (settled_concat ▸ hd) with hold | hnew
      · exact .inl (hbooks.acked d hold)
      · obtain ⟨g, hg, hacking, rfl⟩ := step.acked_held hbooks.sound d hnew
        exact .inl (hbooks.acking g hg hacking)

/-- In every run the consumer counts the forwarded messages that exist, and it asks for a batch only
when all that it forwarded have been settled, the acknowledged ones by a call that deleted them. -/
theorem receives_after_settlement (c : Config) {told signalled : Bool}
    {trail : List (Consumer × Move)} {s : Consumer}
    (h : Run (move? c) { told, signalled } trail s) :
    s.inFlight = s.live.length ∧ 0 ≤ s.inFlight ∧
      (forwarded c trail).Perm ((settled trail).map Prod.fst ++ s.live) ∧
      (∀ d, (d, Fate.acked) ∈ settled trail → .delete d.handle ∈ called c trail) ∧
      ∀ m calls t, s.step? c m = some (calls, t) → .receive ∈ calls →
        s.live = [] ∧ (forwarded c trail).Perm ((settled trail).map Prod.fst) := by
  have hbooks := books c h
  refine ⟨hbooks.sound.count, ?_, hbooks.balance, hbooks.acked, ?_⟩
  · rw [hbooks.sound.count]
    exact Int.natCast_nonneg _
  · intro m calls t hstep hreceive
    have hlive : s.live = [] :=
      hbooks.sound.between ((Step.of_step? hstep).isBetween_of_receive hreceive)
    have hbalance := hbooks.balance
    rw [hlive, List.append_nil] at hbalance
    exact ⟨hlive, hbalance⟩

def sampleBody : String :=
  Queue.eventBody { id := "e", chainId := 7, emitterAddress := "", sequence := 3 } ⟨1970, 1, 1, 0, 0⟩

private def errands : List Move :=
  [.ask, .answer 10 (.ok [⟨"a", "a#1", "?"⟩, ⟨"b", "b#1", sampleBody⟩, ⟨"c", "c#1", sampleBody⟩]),
    .dispatch, .dispatch, .send, .dispatch, .take, .ack 0, .send, .take, .acked 0, .dispatch, .discard 1,
    .settle]

theorem errands_receive_after_settlement :
    ∃ trail s, Run (move? { capacity := 1, visibility := 5 }) {} trail s ∧
      (settled trail).map (fun p => (p.1.messageId, p.2)) = [("b", .acked), ("c", .discarded)] ∧
      (s.step? { capacity := 1, visibility := 5 } .ask).map Prod.fst = some [.receive] ∧
      (forwarded { capacity := 1, visibility := 5 } trail).Perm ((settled trail).map Prod.fst) := by
  have hall : (replay? (move? { capacity := 1, visibility := 5 }) {} errands).map
      (fun p => ((settled p.1).map fun q => (q.1.messageId, q.2),
        (p.2.step? { capacity := 1, visibility := 5 } .ask).map Prod.fst)) =
      some ([("b", .acked), ("c", .discarded)], some [.receive]) := by
    decide +kernel
  obtain ⟨⟨trail, s⟩, hreplay, hpair⟩ := Option.map_eq_some_iff.mp hall
  obtain ⟨hfates, hask⟩ := Prod.mk.inj hpair
  have hrun := Run.of_replay hreplay
  obtain ⟨⟨calls, t⟩, hstep, hcalls⟩ := Option.map_eq_some_iff.mp hask
  have hreceive : Call.receive ∈ calls := by
    rw [show calls = [.receive] from hcalls]
    exact List.mem_singleton.mpr rfl
  have hsettled := receives_after_settlement { capacity := 1, visibility := 5 } hrun
  exact ⟨trail, s, hrun, hfates, hask, (hsettled.2.2.2.2 _ _ _ hstep hreceive).2⟩

end ChainFeed.Consumer

import ChainFeed.Proofs.Queue.Settlement

/-!
# What a consumer can delete

A message of a batch may be deleted from the time it is handed out until a worker acknowledges it, the
filter rejects it, or it is settled otherwise. Only an answer of the queue adds to what may be deleted,
and it comes when there is nothing else.
-/

namespace ChainFeed.Consumer

def pending (s : Consumer) : List Delivery :=
  s.sending ++ s.channel ++ (s.held.filter fun h => !h.acking).map (·.message)

/-- Ids and handles of the messages that may still be deleted. -/
def outstanding (s : Consumer) : List (String × String) :=
  s.rest.map (fun h => (h.id, h.handle)) ++ s.pending.map fun d => (d.messageId, d.handle)

def ids (s : Consumer) : List String := s.rest.map (·.id) ++ s.live.map (·.messageId)

/-- Id and handle of the message that a move deletes, if it does. -/
def removes (c : Config) (s : Consumer) : Move → List (String × String)
  | .ack slot =>
    (s.held.filter fun h => !h.acking && h.slot == slot).map fun h => (h.message.messageId, h.message.handle)
  | .dispatch =>
    match s.phase with
    | .dispatching _ (h :: _) =>
      match decodeMessage? h.body with
      | some event =>
        match c.filter event with
        | .accept => []
        | .skip => [(h.id, h.handle)]
      | none => []
    | _ => []
  | _ => []

def Move.isAnswer : Move → Bool
  | .answer _ _ => true
  | _ => false

theorem outstanding_sublist (s : Consumer) : (s.outstanding.map Prod.fst).Sublist s.ids := by
  rw [outstanding, List.map_append, List.map_map, List.map_map]
  refine List.Sublist.append (List.Sublist.refl _) ?_
  exact ((List.filter_sublist.map _).append_left _).map _

theorem batch_only {s : Consumer} (h : s.live = []) :
    s.ids = s.rest.map (·.id) ∧ s.outstanding = s.rest.map fun r => (r.id, r.handle) := by
  have hpending : s.pending = [] := by
    have hsub : s.pending.Sublist s.live := (List.filter_sublist.map _).append_left _
    exact List.sublist_nil.mp (h ▸ hsub)
  rw [ids, outstanding, h, hpending]
  exact ⟨List.append_nil _, List.append_nil _⟩

private theorem fresh_marked {held : List Held} {slot : Nat} :
    ((held.map (Held.mark slot)).filter fun g => !g.acking) =
      (held.filter fun g => !g.acking).filter (·.slot != slot) := by
  rw [List.filter_map, List.filter_filter]
  have hcond : ((fun g : Held => !g.acking) ∘ Held.mark slot) = fun g => g.slot != slot && !g.acking := by
    funext g
    by_cases hslot : g.slot = slot <;> simp [Held.mark, hslot]
  rw [hcond]
  refine (List.map_congr_left fun g hg => ?_).trans (List.map_id _)
  have hslot := (Bool.and_eq_true_iff.mp (List.mem_filter.mp hg).2).1
  exact if_neg (bne_iff_ne.mp hslot)

namespace Step

variable {c : Config} {s t : Consumer} {m : Move} {calls : List Call}

private theorem removes_ack (hs : s.Sound) {g : Held} (held : g ∈ s.held) (fresh : g.acking = false) :
    s.removes c (.ack g.slot) = [(g.message.messageId, g.message.handle)] := by
  have hmem : g ∈ s.held.filter fun f => f.slot == g.slot :=
    List.mem_filter.mpr ⟨held, beq_self_eq_true g.slot⟩
  rw [removes, ← List.filter_filter, filter_key_eq hs.slots held]
  simp [fresh]

private theorem outstanding_mono (hrest : t.rest.Sublist s.rest) (hpending : t.pending.Subperm s.pending) :
    t.outstanding.Subperm s.outstanding := by
  obtain ⟨pending, hperm, hsub⟩ := hpending
  exact ⟨_, (hperm.map _).append_left _, (hrest.map _).append (hsub.map _)⟩

/-- A move takes what it deletes from what may be deleted, and adds nothing. -/
theorem outstanding_kept (h : Step c s m calls t) (hs : s.Sound) (own : m.isAnswer = false) :
    (s.removes c m ++ t.outstanding).Subperm s.outstanding := by
  cases h with
  | refused | nothing | batch => cases own
  | quit phase | ask phase | resume _ _ phase | settled phase | dispatched _ phase =>
    simp only [removes, outstanding, rest, pending, sending, phase]
    exact List.Subperm.refl _
  | undecodable _ _ _ phase body =>
    simp only [removes, outstanding, rest, pending, sending, phase, body]
    exact (List.sublist_cons_self _ _).subperm
  | skip _ _ _ _ phase body verdict =>
    simp only [removes, outstanding, rest, pending, sending, phase, body, verdict, count]
    exact List.Subperm.refl _
  | accept _ _ _ _ phase body verdict =>
    simp only [removes, outstanding, rest, pending, sending, phase, body, verdict, count, acquire]
    exact List.perm_middle.subperm
  | unsent _ _ phase | stopSending _ _ phase =>
    refine outstanding_mono (List.nil_sublist _) (List.Sublist.subperm ?_)
    simp only [pending, sending, phase, release]
    exact List.sublist_cons_self _ _
  | sent m rest phase going =>
    refine outstanding_mono (by simp [Consumer.rest, phase]) (List.Perm.subperm ?_)
    simp only [pending, sending, phase]
    rw [List.nil_append]
    exact List.perm_append_comm.append_right _
  | stop _ _ unburdened =>
    refine outstanding_mono (List.nil_sublist _) (List.Perm.subperm ?_)
    simp only [pending, unburdened]
    exact List.Perm.refl _
  | take m channel next =>
    refine outstanding_mono (List.Sublist.refl _) (List.Perm.subperm ?_)
    simp only [pending, next, List.filter_append, List.map_append, List.append_assoc]
    refine List.Perm.append_left _ ?_
    rw [← List.append_assoc]
    exact List.perm_append_singleton m _
  | ack g held fresh =>
    -- The message that is to be deleted is pending no more; all others still are.
    have hmem : g ∈ s.held.filter fun f => !f.acking := List.mem_filter.mpr ⟨held, by simp [fresh]⟩
    have hslots : ((s.held.filter fun f => !f.acking).map (·.slot)).Nodup :=
      hs.slots.sublist (List.filter_sublist.map _)
    have hsplit := (perm_cons_filter_key_ne hslots hmem).map (·.message)
    rw [← fresh_marked] at hsplit
    have hpending := ((hsplit.append_left (s.sending ++ s.channel)).trans List.perm_middle).map
      fun d => (d.messageId, d.handle)
    rw [removes_ack hs held fresh]
    exact (List.perm_middle.symm.trans (hpending.symm.append_left _)).subperm
  | acked g held | discard g held =>
    refine outstanding_mono (List.Sublist.refl _) (List.Sublist.subperm ?_)
    exact ((List.filter_sublist.filter _).map _).append_left _
  | close =>
    refine outstanding_mono (List.Sublist.refl _) (List.Sublist.subperm ?_)
    exact ((List.nil_sublist _).append_left _).append_right _
  | tell | hangUp => exact List.Subperm.refl _

theorem calls_eq (h : Step c s m calls t) (hs : s.Sound) :
    (calls = [.receive] ∧ s.removes c m = []) ∨ calls = (s.removes c m).map fun p => .delete p.2 := by
  cases h with
  | ask => exact .inl ⟨rfl, rfl⟩
  | skip _ _ _ _ phase body verdict =>
    refine .inr ?_
    simp only [removes, phase, body, verdict]
    rfl
  | ack g held fresh =>
    rw [removes_ack hs held fresh]
    exact .inr rfl
  | dispatched _ phase => exact .inr (by simp only [removes, phase]; rfl)
  | undecodable _ _ _ phase body => exact .inr (by simp only [removes, phase, body]; rfl)
  | accept _ _ _ _ phase body verdict => exact .inr (by simp only [removes, phase, body, verdict]; rfl)
  | _ => exact .inr rfl

private theorem rest_kept (h : Step c s m calls t) (own : m.isAnswer = false) :
    ((s.forwards c m).map (·.messageId) ++ t.rest.map (·.id)).Sublist (s.rest.map (·.id)) := by
  cases h with
  | refused | nothing | batch => cases own
  | quit | ask | resume | settled | unsent | stopSending | stop => exact List.nil_sublist _
  | dispatched _ phase => simp [forwards, rest, phase]
  | undecodable _ _ _ phase body => simp [forwards, rest, phase, body]
  | skip _ _ _ _ phase body verdict => simp [forwards, rest, phase, body, verdict]
  | accept _ _ _ _ phase body verdict => simp [forwards, rest, phase, body, verdict]
  | sent _ _ phase => simp [forwards, rest, phase]
  | take | ack | acked | discard | close | tell | hangUp => exact List.Sublist.refl _

/-- A message goes through a consumer once. -/
theorem ids_kept (h : Step c s m calls t) (hs : s.Sound) (own : m.isAnswer = false) :
    t.ids.Subperm s.ids := by
  have hlive : ((s.forwards c m ++ s.live).map (·.messageId)).Perm
      (((s.settles m).map Prod.fst ++ t.live).map (·.messageId)) := (h.balance hs).map _
  rw [List.map_append, List.map_append] at hlive
  have hsub : t.ids.Subperm (t.rest.map (·.id) ++
      (((s.settles m).map Prod.fst).map (·.messageId) ++ t.live.map (·.messageId))) :=
    ((List.sublist_append_right _ _).append_left _).subperm
  have hmoved := (hlive.symm.append_left (t.rest.map (·.id))).trans
    (List.perm_append_comm_assoc _ _ _)
  rw [← List.append_assoc (List.map _ (s.forwards c m))] at hmoved
  exact (hsub.trans hmoved.subperm).trans ((h.rest_kept own).append_right _).subperm

theorem answered {now : Nat} {r : Except QueueError (List Handout)}
    (h : Step c s (.answer now r) calls t) (hs : s.Sound) :
    calls = [] ∧ t.live = [] ∧ t.rest = match r with
      | .ok handouts => handouts
      | .error _ => [] := by
  have hlive : s.isBetween = true → t.live = s.live → t.live = [] :=
    fun hbetween hsame => hsame.trans (hs.between hbetween)
  cases h with
  | refused phase | nothing phase | batch phase =>
    refine ⟨rfl, hlive (by simp [isBetween, phase]) ?_, rfl⟩
    simp [live, sending, phase]

end Step

theorem forwards_outstanding {c : Config} {s : Consumer} {m : Move} {d : Delivery}
    (hd : d ∈ s.forwards c m) : (d.messageId, d.handle) ∈ s.outstanding := by
  unfold forwards at hd
  split at hd
  · split at hd
    · next expires h rest phase =>
      split at hd
      · next event body =>
        split at hd
        · rw [List.mem_singleton.mp hd, outstanding, Consumer.rest, phase]
          exact List.mem_append_left _ List.mem_cons_self
        · cases hd
      · cases hd
    · cases hd
  · cases hd

end ChainFeed.Consumer

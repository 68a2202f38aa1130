import ChainFeed.Proofs.Queue.Desk

/-!
# Leases are exclusive

A handle names a message and how often it was handed out by then, so every handout has a handle of its
own. As long as its lease lasts nobody else gets the message, and its handle is good until the lease is
taken back or the message is deleted.
-/

namespace ChainFeed.Queue.Desk

variable {c : Config} {trail : List (Desk × Move)} {p : Desk × Move} {s t : Desk} {r : Handout}
  {expires : Nat}

/-- The handout is the latest one of its message, and nobody has looked for messages since its lease,
which lasts until `expires`, ran out. -/
def Current (c : Config) (trail : List (Desk × Move)) (r : Handout) (expires : Nat) : Prop :=
  ∃ before p after, trail = before ++ p :: after ∧ r ∈ handouts c p ∧
    expires = p.1.now + c.visibility ∧ (∀ x ∈ after, ∀ r' ∈ handouts c x, r'.id ≠ r.id) ∧
    ∀ x ∈ after, x.2.isLook = true → x.1.now < expires

/-- The handout is the latest one of its message, which was neither taken back nor deleted. -/
def Held (c : Config) (trail : List (Desk × Move)) (s : Desk) (r : Handout) : Prop :=
  (∃ expires, Current c trail r expires) ∧ r.id ∉ s.queue.deleted.map Message.id

/-- Two handouts, the earlier one first, have different handles, and they are not of one message at the
same time. -/
def Apart (c : Config) (a b : Nat × Handout) : Prop :=
  a.2.handle ≠ b.2.handle ∧ (a.2.id = b.2.id → a.1 + c.visibility ≤ b.1)

private theorem current_concat :
    Current c (trail ++ [p]) r expires ↔
      (r ∈ handouts c p ∧ expires = p.1.now + c.visibility) ∨
        (Current c trail r expires ∧ (∀ r' ∈ handouts c p, r'.id ≠ r.id) ∧
          (p.2.isLook = true → p.1.now < expires)) := by
  constructor
  · rintro ⟨before, q, after, hsplit, hr, hexpires, hlatest, hlasting⟩
    rcases concat_eq_append_cons hsplit with ⟨rfl, rfl, rfl⟩ | ⟨start, rfl, rfl⟩
    · exact .inl ⟨hr, hexpires⟩
    · rw [List.forall_mem_append, List.forall_mem_singleton] at hlatest hlasting
      exact .inr ⟨⟨before, q, start, rfl, hr, hexpires, hlatest.1, hlasting.1⟩, hlatest.2, hlasting.2⟩
  · rintro (⟨hr, hexpires⟩ | ⟨⟨before, q, after, rfl, hr, hexpires, hlatest, hlasting⟩, hother, hlook⟩)
    · exact ⟨trail, p, [], rfl, hr, hexpires, by simp, by simp⟩
    · refine ⟨before, q, after ++ [p], by simp, hr, hexpires, ?_, ?_⟩
      · rw [List.forall_mem_append, List.forall_mem_singleton]
        exact ⟨hlatest, hother⟩
      · rw [List.forall_mem_append, List.forall_mem_singleton]
        exact ⟨hlasting, hlook⟩

structure Kept (c : Config) (trail : List (Desk × Move)) (s : Desk) : Prop where
  whole : s.queue.Whole
  pushed : (s.queue.messages.map fun m => (m.id, m.body)).Perm (trail.flatMap pushes)
  past : ∀ a ∈ trail.flatMap (issued c), ∃ m ∈ s.queue.messages, ∃ n ≤ m.receives,
    a.2 = Message.handout { m with receives := n }
  apart : (trail.flatMap (issued c)).Pairwise (Apart c)
  visible : ∀ a ∈ trail.flatMap (issued c), ∀ m ∈ s.queue.visible, m.id = a.2.id →
    a.1 + c.visibility ≤ s.now
  leased : ∀ a ∈ trail.flatMap (issued c), ∀ l ∈ s.queue.leased, l.message.id = a.2.id →
    a.1 + c.visibility ≤ l.expires
  current : ∀ l ∈ s.queue.leased, Current c trail l.message.handout l.expires
  backed : ∀ r expires, Current c trail r expires → r.id ∉ s.queue.deleted.map Message.id →
    ∃ l ∈ s.queue.leased, l.message.handout = r ∧ l.expires = expires

private theorem kept_start (c : Config) : Kept c [] {} where
  whole := whole_empty
  pushed := List.Perm.refl _
  past := by simp
  apart := List.Pairwise.nil
  visible := by simp
  leased := by simp
  current := by simp
  backed := by simp [Current]

private theorem Kept.quiet (h : Kept c trail s) {m : Move} (hq : Quiet s t) (silent : m.isLook = false)
    (whole : t.queue.Whole)
    (pushed : (t.queue.messages.map fun m => (m.id, m.body)).Perm
      ((s.queue.messages.map fun m => (m.id, m.body)) ++ pushes (s, m))) :
    Kept c (trail ++ [(s, m)]) t := by
  have hnone : handouts c (s, m) = [] := by
    cases m with
    | look => cases silent
    | _ => rfl
  have hissued : (trail ++ [(s, m)]).flatMap (issued c) = trail.flatMap (issued c) := by
    rw [List.flatMap_append, List.flatMap_singleton, issued, hnone, List.map_nil, List.append_nil]
  have hcurrent : ∀ r expires, Current c (trail ++ [(s, m)]) r expires ↔ Current c trail r expires := by
    intro r expires
    rw [current_concat, hnone]
    simp [silent]
  constructor
  case whole => exact whole
  case pushed =>
    rw [List.flatMap_append, List.flatMap_singleton]
    exact pushed.trans (h.pushed.append_right _)
  case past =>
    rw [hissued]
    intro a ha
    obtain ⟨m, hm, n, hn, hhandout⟩ := h.past a ha
    exact ⟨m, hq.messages hm, n, hn, hhandout⟩
  case apart => exact hissued ▸ h.apart
  case visible =>
    rw [hissued]
    intro a ha m hm hid
    rcases hq.visible m hm with hold | hnew
    · exact Nat.le_trans (h.visible a ha m hold hid) hq.later
    -- A message that a move adds has a new number, so it was never handed out.
    · obtain ⟨m', hm', n, -, hhandout⟩ := h.past a ha
      have hnumber : m'.number = m.number := Message.idOf_injective (by rw [hhandout] at hid; exact hid.symm)
      exact absurd (List.mem_map.mpr ⟨m', hm', hnumber⟩) hnew
  case leased =>
    rw [hissued]
    exact fun a ha l hl => h.leased a ha l (hq.leased hl)
  case current => exact fun l hl => (hcurrent _ _).mpr (h.current l (hq.leased hl))
  case backed =>
    intro r expires hr hdeleted
    have hbefore : r.id ∉ s.queue.deleted.map Message.id :=
      fun hmem => hdeleted (List.map_subset _ hq.deleted hmem)
    obtain ⟨l, hl, rfl, hexpires⟩ := h.backed r expires ((hcurrent r expires).mp hr) hbefore
    rcases hq.kept l hl with hkept | hgone
    · exact ⟨l, hkept, rfl, hexpires⟩
    · exact absurd hgone hdeleted

/-- A message that can be leased at `now` was not handed out for so long. -/
private theorem Kept.rested (h : Kept c trail s) {a : Nat × Handout} (ha : a ∈ trail.flatMap (issued c))
    {m : Message} (hm : m ∈ (s.queue.reclaim s.now).visible) (hid : m.id = a.2.id) :
    a.1 + c.visibility ≤ s.now := by
  rcases mem_reclaim_visible.mp hm with hvisible | ⟨l, hl, hexpired, rfl⟩
  · exact h.visible a ha m hvisible hid
  · exact Nat.le_trans (h.leased a ha l hl hid) hexpired

private theorem Kept.apart_look (h : Kept c trail s) {a : Nat × Handout}
    (ha : a ∈ trail.flatMap (issued c)) {m : Message} (hm : m ∈ s.queue.batch c s.now) :
    Apart c a (s.now, m.handout) := by
  obtain ⟨waited, hwaited, rfl⟩ := mem_batch hm
  refine ⟨fun hhandle => ?_, fun hid => h.rested ha hwaited hid.symm⟩
  obtain ⟨m, hm, n, hn, hhandout⟩ := h.past a ha
  rw [hhandout] at hhandle
  obtain ⟨hnumber, hreceives⟩ := Message.number_of_handle (m := { m with receives := n }) hhandle
  have hin : waited ∈ s.queue.messages := by
    refine (reclaim_messages s.now s.queue).subset ?_
    exact List.mem_append_left _ (List.mem_append_left _ hwaited)
  have hsame := List.inj_on_of_nodup_map h.whole.nodup hm hin hnumber
  rw [hsame] at hn
  have hmore : n = waited.receives + 1 := hreceives
  omega

private theorem batch_apart (h : s.queue.Whole) :
    ((s.queue.batch c s.now).map fun m => (s.now, m.handout)).Pairwise (Apart c) := by
  have hnumbers : ((s.queue.batch c s.now).map (·.number)).Nodup :=
    (List.nodup_append.mp (h.batch_others c s.now)).1
  rw [List.pairwise_map]
  refine (List.pairwise_map.mp hnumbers).imp fun hne => ⟨fun hhandle => ?_, fun hid => ?_⟩
  · exact hne (Message.number_of_handle hhandle).1
  · exact absurd (Message.idOf_injective hid) hne

private theorem batch_fresh (h : s.queue.Whole) {m m' : Message} (hm : m ∈ s.queue.batch c s.now)
    (hm' : m' ∈ s.queue.others c s.now) : m.id ≠ m'.id := by
  intro hid
  have hdisjoint := (List.nodup_append.mp (h.batch_others c s.now)).2.2
  exact hdisjoint m.number (List.mem_map_of_mem hm) m'.number (List.mem_map_of_mem hm')
    (Message.idOf_injective hid)

private theorem batch_fresh_leased (h : s.queue.Whole) {m : Message} (hm : m ∈ s.queue.batch c s.now)
    {l : Lease} (hl : l ∈ (s.queue.reclaim s.now).leased) : m.id ≠ l.message.id :=
  batch_fresh h hm (mem_others.mpr (.inr (.inl ⟨l, hl, rfl⟩)))

private theorem Kept.look (h : Kept c trail s) (r : Receive) (waiting : List Receive) :
    Kept c (trail ++ [(s, .look r)]) { s with queue := (s.queue.take c s.now).2, waiting } := by
  have hissued : (trail ++ [(s, Move.look r)]).flatMap (issued c) =
      trail.flatMap (issued c) ++ (s.queue.batch c s.now).map fun m => (s.now, m.handout) := by
    rw [List.flatMap_append, List.flatMap_singleton, issued_look]
  constructor
  case whole => exact h.whole.take c s.now
  case pushed =>
    rw [List.flatMap_append, List.flatMap_singleton, pushes, List.append_nil]
    exact (map_take_messages (fun _ => rfl) c s.now s.queue).trans h.pushed
  case past =>
    rw [hissued, List.forall_mem_append, List.forall_mem_map]
    refine ⟨fun a ha => ?_, fun m hm => ?_⟩
    · obtain ⟨m, hm, n, hn, hhandout⟩ := h.past a ha
      obtain ⟨k, hk, hgrown⟩ := take_grows hm c s.now
      exact ⟨_, hgrown, n, Nat.le_trans hn hk, hhandout⟩
    · have hin := (s.queue.take_messages c s.now).symm.subset (List.mem_append_left _ hm)
      exact ⟨m, hin, m.receives, Nat.le_refl _, rfl⟩
  case apart =>
    rw [hissued, List.pairwise_append]
    refine ⟨h.apart, batch_apart h.whole, fun a ha => ?_⟩
    rw [List.forall_mem_map]
    exact fun m hm => h.apart_look ha hm
  case visible =>
    rw [hissued, List.forall_mem_append, List.forall_mem_map]
    refine ⟨fun a ha m hm => h.rested ha (List.mem_of_mem_drop hm), fun m hm m' hm' hid => ?_⟩
    exact absurd hid.symm (batch_fresh h.whole hm (mem_others.mpr (.inl hm')))
  case leased =>
    rw [hissued, List.forall_mem_append, List.forall_mem_map]
    refine ⟨fun a ha l hl hid => ?_, fun m hm l hl hid => ?_⟩
    · rcases mem_take_leased.mp hl with hold | ⟨m, hm, rfl⟩
      · exact h.leased a ha l (mem_reclaim_leased.mp hold).1 hid
      · obtain ⟨waited, hwaited, rfl⟩ := mem_batch hm
        exact Nat.le_trans (h.rested ha hwaited hid) (Nat.le_add_right _ _)
    · rcases mem_take_leased.mp hl with hold | ⟨m', -, rfl⟩
      · exact absurd hid.symm (batch_fresh_leased h.whole hm hold)
      · exact Nat.le_refl _
  case current =>
    intro l hl
    rw [current_concat, handouts_look]
    rcases mem_take_leased.mp hl with hold | ⟨m, hm, rfl⟩
    · obtain ⟨hheld, hlasts⟩ := mem_reclaim_leased.mp hold
      refine .inr ⟨h.current l hheld, ?_, fun _ => hlasts⟩
      rw [List.forall_mem_map]
      exact fun m hm => batch_fresh_leased h.whole hm hold
    · exact .inl ⟨List.mem_map_of_mem hm, rfl⟩
  case backed =>
    intro r' expires hr' hdeleted
    rw [current_concat, handouts_look, List.mem_map] at hr'
    rcases hr' with ⟨⟨m, hm, rfl⟩, rfl⟩ | ⟨hbefore, -, hlook⟩
    · exact ⟨_, mem_take_leased.mpr (.inr ⟨m, hm, rfl⟩), rfl, rfl⟩
    -- Its lease has not run out, for nobody has looked since then.
    · obtain ⟨l, hl, hhandout, rfl⟩ := h.backed r' expires hbefore hdeleted
      exact ⟨l, mem_take_leased.mpr (.inl (mem_reclaim_leased.mpr ⟨hl, hlook rfl⟩)), hhandout, rfl⟩

theorem kept (h : Run (step? c) {} trail s) : Kept c trail s := by
  refine h.invariant (kept_start c) fun trail s m t hs move => ?_
  have hstep := Step.of_step? move
  cases silent : m.isLook with
  | false => exact hs.quiet (hstep.quiet hs.whole silent) silent (hstep.whole hs.whole) (hstep.pushes_perm hs.whole)
  | true =>
    cases hstep with
    | look r waiting => exact hs.look r waiting
    | _ => cases silent

/-- However receivers share a queue, every message is in one place; no two handouts have one handle, and
a message is not handed out again before its lease is over. A handle deletes its message, and nothing
else, as long as its handout is the latest one of the message and the message was neither taken back nor
deleted; otherwise it changes nothing. -/
theorem leases_exclusively (h : Run (step? c) {} trail s) :
    ((trail.flatMap pushes).map Prod.fst).Nodup ∧
    (trail.flatMap pushes).Perm
      ((s.queue.visible ++ s.queue.leased.map (·.message) ++ s.queue.deleted).map
        fun m => (m.id, m.body)) ∧
    ((trail.flatMap (issued c)).map (·.2.handle)).Nodup ∧
    (trail.flatMap (issued c)).Pairwise (fun a b => a.2.id = b.2.id → a.1 + c.visibility ≤ b.1) ∧
    (∀ r, Held c trail s r → ∃ l ∈ s.queue.leased, l.message.handout = r ∧
      s.queue.delete r.handle = (.ok (), { s.queue with
        leased := s.queue.leased.filter (·.message.id != r.id)
        deleted := s.queue.deleted ++ [l.message] })) ∧
    ∀ handle, (∀ r, Held c trail s r → r.handle ≠ handle) →
      s.queue.delete handle = (.error (.unknownHandle handle), s.queue) := by
  have hkept := kept h
  have hpushed := hkept.pushed
  refine ⟨?_, hpushed.symm, ?_, hkept.apart.imp And.right, ?_, ?_⟩
  · have hids := (hpushed.map Prod.fst).symm
    rw [List.map_map] at hids
    refine hids.nodup_iff.mpr ?_
    have hnumbers := hkept.whole.nodup.map Message.idOf_injective
    rwa [List.map_map] at hnumbers
  · exact List.pairwise_map.mpr (hkept.apart.imp And.left)
  · rintro r ⟨⟨expires, hcurrent⟩, hdeleted⟩
    obtain ⟨l, hl, rfl, -⟩ := hkept.backed r expires hcurrent hdeleted
    refine ⟨l, hl, rfl, (hkept.whole.delete_leased hl).trans ?_⟩
    rw [hkept.whole.filter_handle_ne hl]
    rfl
  · intro handle hunheld
    refine delete_unknown fun l hl hhandle => ?_
    exact hunheld l.message.handout ⟨⟨_, hkept.current l hl⟩, hkept.whole.leased_notMem_deleted hl⟩ hhandle

private def tight : Config := { visibility := 40, batch := 1 }

private def rush : List Move :=
  [.push "a", .push "b", .ask, .look ⟨1000⟩, .ask, .look ⟨1000⟩,
    .mix [⟨⟨2, "b", 1⟩, 40⟩, ⟨⟨1, "a", 1⟩, 40⟩], .pass 40, .ask, .look ⟨1040⟩, .delete "msg-2#1"]

private def rushed : List (Desk × Move) × Desk := (replay? (step? tight) {} rush).getD ([], {})

theorem rush_leases_exclusively :
    Run (step? tight) {} rushed.1 rushed.2 ∧
      (rushed.1.flatMap (issued tight)).map (fun a => (a.1, a.2.handle)) =
        [(0, "msg-1#1"), (0, "msg-2#1"), (40, "msg-2#2")] ∧
      Held tight rushed.1 rushed.2 ⟨"msg-2", "msg-2#2", "b"⟩ ∧
      (rushed.2.queue.delete "msg-2#2").1 = .ok () ∧
      ((rushed.1.flatMap (issued tight)).map (·.2.handle)).Nodup := by
  have hreplay : replay? (step? tight) {} rush = some (rushed.1, rushed.2) := by decide +kernel
  have hrun := Run.of_replay hreplay
  have hheld : Held tight rushed.1 rushed.2 ⟨"msg-2", "msg-2#2", "b"⟩ := by
    refine ⟨⟨80, rushed.1.take 9, (rushed.1.drop 9).headD ({}, .ask), rushed.1.drop 10, ?_⟩, ?_⟩
    all_goals decide +kernel
  obtain ⟨-, -, hhandles, -, hdeletes, -⟩ := leases_exclusively hrun
  obtain ⟨l, -, -, hdelete⟩ := hdeletes _ hheld
  exact ⟨hrun, by decide +kernel, hheld, congrArg Prod.fst hdelete, hhandles⟩

end ChainFeed.Queue.Desk

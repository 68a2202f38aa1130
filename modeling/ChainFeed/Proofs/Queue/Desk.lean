import ChainFeed.Proofs.Queue.Storage
import ChainFeed.Proofs.Run

/-!
# A queue and its receivers

Any number of receivers share a queue. Pushes, receives and deletes come in any order, and a receive
looks for messages as often as it likes until it gets some or gives up. `Step` lists everything that
can happen, with what it does to the queue.
-/

namespace ChainFeed.Queue

/-- A queue and the receives that are under way. -/
structure Desk where
  now : Nat := 0
  queue : Queue := {}
  waiting : List Receive := []
  deriving DecidableEq, Repr

namespace Desk

inductive Move where
  | pass (ms : Nat)
  | push (body : String)
  | ask
  /-- A receive looks for messages. It ends if there are some, or if it is past its deadline. -/
  | look (r : Receive)
  | leave (r : Receive)
  | delete (handle : String)
  /-- The leases come in another order; none is promised. -/
  | mix (leased : List Lease)
  deriving DecidableEq, Repr

def step? (c : Config) (s : Desk) : Move → Option Desk
  | .pass ms => some { s with now := s.now + ms }
  | .push body => some { s with queue := (s.queue.push body).2 }
  | .ask =>
    let (r, queue) := Receive.start c s.now s.queue
    some { s with queue, waiting := r :: s.waiting }
  | .look r =>
    if r ∈ s.waiting then
      let (batch, queue) := r.poll c s.now s.queue
      some { s with queue, waiting := if batch.isSome then s.waiting.erase r else s.waiting }
    else none
  | .leave r => if r ∈ s.waiting then some { s with waiting := s.waiting.erase r } else none
  | .delete handle => some { s with queue := (s.queue.delete handle).2 }
  | .mix leased =>
    if leased.Perm s.queue.leased then some { s with queue := { s.queue with leased } } else none

/-- Whether a receive looks for messages, by which leases that have run out are taken back. -/
def Move.isLook : Move → Bool
  | .look _ => true
  | _ => false

def pushes (p : Desk × Move) : List (String × String) :=
  match p.2 with
  | .push body => [((p.1.queue.push body).1, body)]
  | _ => []

/-- What a receiver gets by a move. -/
def handouts (c : Config) (p : Desk × Move) : List Handout :=
  match p.2 with
  | .look r => (r.poll c p.1.now p.1.queue).1.getD []
  | _ => []

def issued (c : Config) (p : Desk × Move) : List (Nat × Handout) := (handouts c p).map (p.1.now, ·)

theorem handouts_look (c : Config) (s : Desk) (r : Receive) :
    handouts c (s, .look r) = (s.queue.batch c s.now).map Message.handout := by
  have hbatch : (s.queue.take c s.now).1 = (s.queue.batch c s.now).map Message.handout := rfl
  simp only [handouts, Receive.poll]
  split
  · next hempty =>
    have hnone := List.isEmpty_iff.mp (Bool.and_eq_true_iff.mp hempty).1
    rw [← hbatch, hnone]
    rfl
  · exact hbatch

theorem issued_look (c : Config) (s : Desk) (r : Receive) :
    issued c (s, .look r) = (s.queue.batch c s.now).map fun m => (s.now, m.handout) := by
  rw [issued, handouts_look, List.map_map]
  rfl

inductive Step (c : Config) (s : Desk) : Move → Desk → Prop
  | pass (ms : Nat) : Step c s (.pass ms) { s with now := s.now + ms }
  | push (body : String) : Step c s (.push body) { s with queue := (s.queue.push body).2 }
  | ask (r : Receive) :
      Step c s .ask
        { s with queue := { s.queue with receives := s.queue.receives + 1 }, waiting := r :: s.waiting }
  | look (r : Receive) (waiting : List Receive) :
      Step c s (.look r) { s with queue := (s.queue.take c s.now).2, waiting }
  | leave (r : Receive) : Step c s (.leave r) { s with waiting := s.waiting.erase r }
  | delete (l : Lease) (held : l ∈ s.queue.leased) :
      Step c s (.delete l.message.handle) { s with queue := (s.queue.delete l.message.handle).2 }
  | refuse (handle : String) : Step c s (.delete handle) s
  | mix (leased : List Lease) (same : leased.Perm s.queue.leased) :
      Step c s (.mix leased) { s with queue := { s.queue with leased } }

theorem Step.of_step? {c : Config} {s t : Desk} {m : Move} (h : s.step? c m = some t) :
    Step c s m t := by
  cases m with
  | pass ms => cases h; exact .pass ms
  | push body => cases h; exact .push body
  | ask => cases h; exact .ask _
  | look r =>
    simp only [step?] at h
    split at h
    · cases h; exact .look r _
    · cases h
  | leave r =>
    simp only [step?] at h
    split at h
    · cases h; exact .leave r
    · cases h
  | delete handle =>
    cases h
    by_cases hheld : ∃ l ∈ s.queue.leased, l.message.handle = handle
    · obtain ⟨l, hl, rfl⟩ := hheld
      exact .delete l hl
    · rw [delete_unknown fun l hl hhandle => hheld ⟨l, hl, hhandle⟩]
      exact .refuse handle
  | mix leased =>
    simp only [step?] at h
    split at h
    · next same => cases h; exact .mix leased same
    · cases h

/-- What a move that is not a look leaves as it is. -/
structure Quiet (s t : Desk) : Prop where
  later : s.now ≤ t.now
  messages : s.queue.messages ⊆ t.queue.messages
  visible : ∀ m ∈ t.queue.visible, m ∈ s.queue.visible ∨ m.number ∉ s.queue.messages.map (·.number)
  leased : t.queue.leased ⊆ s.queue.leased
  kept : ∀ l ∈ s.queue.leased, l ∈ t.queue.leased ∨ l.message.id ∈ t.queue.deleted.map Message.id
  deleted : s.queue.deleted ⊆ t.queue.deleted

private theorem Quiet.of_eq {s t : Desk} (later : s.now ≤ t.now) (visible : t.queue.visible = s.queue.visible)
    (leased : t.queue.leased.Perm s.queue.leased) (deleted : t.queue.deleted = s.queue.deleted) :
    Quiet s t where
  later := later
  messages := by
    simp only [Queue.messages, visible, deleted]
    exact (((leased.map _).append_left _).append_right _).symm.subset
  visible m hm := .inl (visible ▸ hm)
  leased := leased.subset
  kept l hl := .inl (leased.symm.subset hl)
  deleted := deleted ▸ List.Subset.refl _

namespace Step

variable {c : Config} {s t : Desk} {m : Move}

theorem whole (h : Step c s m t) (hs : s.queue.Whole) : t.queue.Whole := by
  cases h with
  | pass | ask | leave | refuse => exact hs
  | push body => exact hs.push body
  | look r waiting => exact hs.take c s.now
  | delete l held => exact hs.delete held
  | mix leased same =>
    have hmessages : { s.queue with leased }.messages.Perm s.queue.messages :=
      ((same.map _).append_left _).append_right _
    exact (hmessages.map _).trans hs

theorem pushes_perm (h : Step c s m t) (hs : s.queue.Whole) :
    (t.queue.messages.map fun m => (m.id, m.body)).Perm
      ((s.queue.messages.map fun m => (m.id, m.body)) ++ pushes (s, m)) := by
  cases h with
  | pass | ask | leave | refuse => exact .of_eq (List.append_nil _).symm
  | push body =>
    have hnew := (s.queue.push_messages body).map fun m => (m.id, m.body)
    rw [List.map_append] at hnew
    exact hnew
  | look r waiting =>
    rw [pushes, List.append_nil]
    exact map_take_messages (fun _ => rfl) c s.now s.queue
  | delete l held =>
    rw [pushes, List.append_nil]
    exact (hs.delete_messages held).map _
  | mix leased same =>
    rw [pushes, List.append_nil]
    exact (((same.map _).append_left _).append_right _).map _

theorem quiet (h : Step c s m t) (hs : s.queue.Whole) (silent : m.isLook = false) : Quiet s t := by
  cases h with
  | pass ms => exact .of_eq (Nat.le_add_right _ _) rfl (List.Perm.refl _) rfl
  | ask | leave | refuse => exact .of_eq (Nat.le_refl _) rfl (List.Perm.refl _) rfl
  | mix leased same => exact .of_eq (Nat.le_refl _) rfl same rfl
  | look => cases silent
  | push body =>
    refine ⟨Nat.le_refl _, ?_, ?_, List.Subset.refl _, fun _ hl => .inl hl, List.Subset.refl _⟩
    · exact fun m hm => (s.queue.push_messages body).symm.subset (List.mem_append_left _ hm)
    · intro m hm
      rcases List.mem_append.mp hm with hm | hm
      · exact .inl hm
      · rw [List.mem_singleton.mp hm]
        refine .inr fun hnumber => ?_
        have hrange := (List.mem_range'_1.mp (hs.subset hnumber)).2
        exact absurd hrange (by simp [Nat.add_comm])
  | delete l held =>
    have hdelete := hs.delete_leased held
    refine ⟨Nat.le_refl _, (hs.delete_messages held).symm.subset, ?_, ?_, ?_, ?_⟩
    · rw [hdelete]
      exact fun _ hm => .inl hm
    · rw [hdelete]
      exact List.filter_sublist.subset
    · rw [hdelete]
      intro k hk
      by_cases hhandle : k.message.handle = l.message.handle
      · refine .inr (List.mem_map.mpr ⟨l.message, List.mem_append_right _ List.mem_cons_self, ?_⟩)
        exact congrArg Message.idOf (Message.number_of_handle hhandle).1.symm
      · exact .inl (List.mem_filter.mpr ⟨hk, bne_iff_ne.mpr hhandle⟩)
    · rw [hdelete]
      exact List.subset_append_left _ _

end Step
end Desk
end ChainFeed.Queue

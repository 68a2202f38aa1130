import Mathlib.Data.List.Basic
import Std.Data.String.ToNat
import ChainFeed.Proofs.Keyed
import ChainFeed.Queue.Leases

/-!
# The messages of a queue

Every pushed message is in one place of the queue, and its id and its handles are its own. Receiving
and deleting only move messages from one place to another.
-/

namespace ChainFeed

namespace Message

def idOf (n : Nat) : String := "msg-" ++ toString n

@[simp] theorem id_eq (m : Message) : m.id = idOf m.number := rfl

theorem idOf_injective : Function.Injective idOf := by
  intro n k h
  have hlist := congrArg String.toList h
  simp only [idOf, String.toList_append] at hlist
  exact Nat.repr_injective (String.toList_inj.mp (List.append_cancel_left hlist))

private theorem hash_notMem (n : Nat) : '#' ∉ (toString n).toList := by
  intro hmem
  rw [Nat.toString_eq_repr, Nat.toList_repr] at hmem
  have hdigit := Nat.isDigit_of_mem_toDigits (by decide) (by decide) hmem
  exact absurd hdigit (by decide)

theorem number_of_handle {m m' : Message} (h : m.handle = m'.handle) :
    m.number = m'.number ∧ m.receives = m'.receives := by
  have hlist := congrArg String.toList h
  simp only [handle, id_eq, idOf, String.toList_append, List.append_assoc] at hlist
  have hrest := List.append_cancel_left hlist
  obtain ⟨hnumber, -, hreceives⟩ :=
    (List.append_cons_inj_of_notMem (hash_notMem m'.number) (hash_notMem _)).mp hrest.symm
  exact ⟨Nat.repr_injective (String.toList_inj.mp hnumber.symm),
    Nat.repr_injective (String.toList_inj.mp hreceives.symm)⟩

end Message

namespace Queue

def messages (q : Queue) : List Message := q.visible ++ q.leased.map (·.message) ++ q.deleted

/-- The messages of the queue are those that were pushed. -/
def Whole (q : Queue) : Prop := (q.messages.map (·.number)).Perm (List.range' 1 q.pushed)

def pushedIds (q : Queue) : List String := (List.range' 1 q.pushed).map Message.idOf

theorem Whole.pushedIds_perm {q : Queue} (h : q.Whole) :
    q.pushedIds.Perm (q.visible.map Message.id ++ q.leased.map (·.message.id) ++
      q.deleted.map Message.id) := by
  have hids := (h.map Message.idOf).symm
  rw [messages, List.map_append, List.map_append, List.map_append, List.map_append] at hids
  simp only [List.map_map] at hids
  exact hids

theorem pushedIds_nodup (q : Queue) : q.pushedIds.Nodup :=
  List.Nodup.map Message.idOf_injective List.nodup_range'

theorem pushedIds_push (q : Queue) (body : String) :
    (q.push body).2.pushedIds = q.pushedIds ++ [(q.push body).1] := by
  simp only [pushedIds, Queue.push, List.range'_concat, List.map_append]
  rw [Nat.one_mul, Nat.add_comm 1]
  rfl

theorem whole_empty : Whole {} := List.Perm.refl _

theorem Whole.nodup {q : Queue} (h : q.Whole) : (q.messages.map (·.number)).Nodup :=
  h.nodup_iff.mpr List.nodup_range'

theorem push_messages (q : Queue) (body : String) :
    (q.push body).2.messages.Perm (q.messages ++ [⟨q.pushed + 1, body, 0⟩]) := by
  simp only [Queue.push, messages, List.append_assoc]
  refine List.Perm.append_left _ ?_
  rw [← List.append_assoc _ q.deleted]
  exact List.perm_append_comm

theorem Whole.push {q : Queue} (h : q.Whole) (body : String) : (q.push body).2.Whole := by
  have hnumbers := (q.push_messages body).map (·.number)
  rw [List.map_append] at hnumbers
  have hrange : List.range' 1 (q.pushed + 1) = List.range' 1 q.pushed ++ [q.pushed + 1] := by
    rw [List.range'_concat, Nat.one_mul, Nat.add_comm]
  exact hnumbers.trans (hrange ▸ h.append_right _)

theorem reclaim_messages (now : Nat) (q : Queue) : (q.reclaim now).messages.Perm q.messages := by
  have hsplit := (List.filter_append_perm (fun l => decide (l.expires ≤ now)) q.leased).map (·.message)
  rw [List.map_append] at hsplit
  simp only [reclaim, messages, List.append_assoc]
  rw [← List.append_assoc (List.map _ _)]
  exact (hsplit.append_right _).append_left _

def batch (c : Config) (now : Nat) (q : Queue) : List Message :=
  ((q.reclaim now).visible.take c.batchSize).map Message.received

def others (c : Config) (now : Nat) (q : Queue) : List Message :=
  (q.reclaim now).visible.drop c.batchSize ++ (q.reclaim now).leased.map (·.message) ++ q.deleted

theorem take_messages (c : Config) (now : Nat) (q : Queue) :
    (q.take c now).2.messages.Perm (q.batch c now ++ q.others c now) := by
  have hleased : (q.take c now).2.leased.map (·.message) =
      (q.reclaim now).leased.map (·.message) ++ q.batch c now := by
    simp only [Queue.take, batch, List.map_append, List.map_map, Function.comp_def]
  have hmessages : (q.take c now).2.messages = (q.reclaim now).visible.drop c.batchSize ++
      (q.take c now).2.leased.map (·.message) ++ q.deleted := rfl
  rw [hmessages, hleased, ← List.append_assoc, List.append_assoc]
  exact List.perm_append_comm_assoc _ _ _

theorem map_take_messages {α : Type} {f : Message → α} (kept : ∀ m, f m.received = f m) (c : Config)
    (now : Nat) (q : Queue) : ((q.take c now).2.messages.map f).Perm (q.messages.map f) := by
  have hbatch : (q.batch c now).map f = ((q.reclaim now).visible.take c.batchSize).map f := by
    rw [batch, List.map_map]
    exact List.map_congr_left fun m _ => kept m
  have hreclaimed : (q.reclaim now).messages.map f = (q.batch c now).map f ++ (q.others c now).map f := by
    rw [hbatch, ← List.map_append, messages, others]
    nth_rewrite 1 [← List.take_append_drop c.batchSize (q.reclaim now).visible]
    simp only [List.append_assoc]
    rfl
  have hmoved := (q.take_messages c now).map f
  rw [List.map_append, ← hreclaimed] at hmoved
  exact hmoved.trans ((reclaim_messages now q).map f)

theorem Whole.take {q : Queue} (h : q.Whole) (c : Config) (now : Nat) : (q.take c now).2.Whole :=
  (map_take_messages (fun _ => rfl) c now q).trans h

theorem Whole.batch_others {q : Queue} (h : q.Whole) (c : Config) (now : Nat) :
    ((q.batch c now).map (·.number) ++ (q.others c now).map (·.number)).Nodup := by
  have hall := (h.take c now).nodup
  rwa [((q.take_messages c now).map _).nodup_iff, List.map_append] at hall

theorem mem_reclaim_visible {q : Queue} {now : Nat} {m : Message} :
    m ∈ (q.reclaim now).visible ↔ m ∈ q.visible ∨ ∃ l ∈ q.leased, l.expires ≤ now ∧ l.message = m := by
  simp only [reclaim, List.mem_append, List.mem_map, List.mem_filter, decide_eq_true_eq, and_assoc]

theorem mem_reclaim_leased {q : Queue} {now : Nat} {l : Lease} :
    l ∈ (q.reclaim now).leased ↔ l ∈ q.leased ∧ now < l.expires := by
  simp only [reclaim, List.mem_filter, Bool.not_eq_true', decide_eq_false_iff_not, Nat.not_le]

theorem mem_take_leased {q : Queue} {c : Config} {now : Nat} {l : Lease} :
    l ∈ (q.take c now).2.leased ↔
      l ∈ (q.reclaim now).leased ∨ ∃ m ∈ q.batch c now, l = ⟨m, now + c.visibility⟩ := by
  have hleased : (q.take c now).2.leased =
      (q.reclaim now).leased ++ (q.batch c now).map (⟨·, now + c.visibility⟩) := rfl
  rw [hleased, List.mem_append, List.mem_map]
  simp only [eq_comm]

theorem mem_others {q : Queue} {c : Config} {now : Nat} {m : Message} :
    m ∈ q.others c now ↔ m ∈ (q.take c now).2.visible ∨
      (∃ l ∈ (q.reclaim now).leased, l.message = m) ∨ m ∈ q.deleted := by
  have hvisible : (q.take c now).2.visible = (q.reclaim now).visible.drop c.batchSize := rfl
  rw [hvisible, others, List.mem_append, List.mem_append, List.mem_map, or_assoc]

theorem mem_batch {q : Queue} {c : Config} {now : Nat} {m : Message} (h : m ∈ q.batch c now) :
    ∃ waited ∈ (q.reclaim now).visible, waited.received = m := by
  obtain ⟨waited, hwaited, hreceived⟩ := List.mem_map.mp h
  exact ⟨waited, List.mem_of_mem_take hwaited, hreceived⟩

/-- A message is at most handed out once more by a receive. -/
theorem take_grows {q : Queue} {m : Message} (hm : m ∈ q.messages) (c : Config) (now : Nat) :
    ∃ n ≥ m.receives, { m with receives := n } ∈ (q.take c now).2.messages := by
  have htake := (q.take_messages c now).symm.subset
  have hreclaimed := (reclaim_messages now q).symm.subset hm
  rw [messages, List.append_assoc, ← List.take_append_drop c.batchSize (q.reclaim now).visible,
    List.append_assoc, ← List.append_assoc (List.drop _ _)] at hreclaimed
  rcases List.mem_append.mp hreclaimed with hleased | hother
  · have hbatch : m.received ∈ q.batch c now := List.mem_map_of_mem hleased
    exact ⟨m.receives + 1, Nat.le_succ _, htake (List.mem_append_left _ hbatch)⟩
  · exact ⟨m.receives, Nat.le_refl _, htake (List.mem_append_right _ hother)⟩

/-- What a receive hands out are different messages, and each has its lease. -/
theorem take_handouts {q : Queue} (h : q.Whole) (c : Config) (now : Nat) :
    ((q.take c now).1.map (·.id)).Nodup ∧
      ∀ r ∈ (q.take c now).1, ∃ l ∈ (q.take c now).2.leased, l.message.handout = r := by
  have hhandouts : (q.take c now).1 = (q.batch c now).map Message.handout := rfl
  constructor
  · have hbatch : ((q.batch c now).map (·.number)).Nodup :=
      (List.nodup_append.mp (h.batch_others c now)).1
    have hids : (q.take c now).1.map (·.id) = ((q.batch c now).map (·.number)).map Message.idOf := by
      rw [hhandouts, List.map_map, List.map_map]
      rfl
    rw [hids]
    exact hbatch.map Message.idOf_injective
  · intro r hr
    rw [hhandouts] at hr
    obtain ⟨m, hm, rfl⟩ := List.mem_map.mp hr
    exact ⟨⟨m, now + c.visibility⟩, mem_take_leased.mpr (.inr ⟨m, hm, rfl⟩), rfl⟩

private theorem Whole.leased_nodup {q : Queue} (h : q.Whole) :
    (q.leased.map (·.message.number)).Nodup := by
  have hall := h.nodup
  rw [messages, List.map_append, List.map_append, List.map_map] at hall
  exact (List.nodup_append.mp (List.nodup_append.mp hall).1).2.1

private theorem Whole.leased_handles {q : Queue} (h : q.Whole) :
    (q.leased.map (·.message.handle)).Nodup := by
  refine List.Nodup.map_on ?_ (List.Nodup.of_map _ h.leased_nodup)
  intro l hl l' hl' hhandle
  exact List.inj_on_of_nodup_map h.leased_nodup hl hl' (Message.number_of_handle hhandle).1

theorem Whole.filter_handle_ne {q : Queue} (h : q.Whole) {l : Lease} (hl : l ∈ q.leased) :
    q.leased.filter (·.message.handle != l.message.handle) =
      q.leased.filter (·.message.id != l.message.id) := by
  refine List.filter_congr fun k hk => ?_
  rw [Bool.eq_iff_iff, bne_iff_ne, bne_iff_ne]
  refine not_congr ⟨fun hhandle => ?_, fun hid => ?_⟩
  · exact congrArg Message.idOf (Message.number_of_handle hhandle).1
  · rw [List.inj_on_of_nodup_map h.leased_nodup hk hl (Message.idOf_injective hid)]

/-- A lease that exists can be used to delete its message, and nothing else. -/
theorem Whole.delete_leased {q : Queue} (h : q.Whole) {l : Lease} (hl : l ∈ q.leased) :
    q.delete l.message.handle = (.ok (), { q with
      leased := q.leased.filter (·.message.handle != l.message.handle)
      deleted := q.deleted ++ [l.message] }) := by
  have hfind : q.leased.find? (·.message.handle == l.message.handle) = some l := by
    rw [← List.head?_filter, filter_key_eq h.leased_handles hl]
    rfl
  simp only [Queue.delete, hfind]

theorem delete_unknown {q : Queue} {handle : String} (h : ∀ l ∈ q.leased, l.message.handle ≠ handle) :
    q.delete handle = (.error (.unknownHandle handle), q) := by
  have hfind : q.leased.find? (·.message.handle == handle) = none := by
    rw [List.find?_eq_none]
    intro l hl hhandle
    exact h l hl (eq_of_beq hhandle)
  simp only [Queue.delete, hfind]

theorem Whole.delete_messages {q : Queue} (h : q.Whole) {l : Lease} (hl : l ∈ q.leased) :
    (q.delete l.message.handle).2.messages.Perm q.messages := by
  have hsplit := (perm_cons_filter_key_ne h.leased_handles hl).map (·.message)
  rw [h.delete_leased hl]
  have hmoved : ((q.leased.filter (·.message.handle != l.message.handle)).map (·.message) ++
      (q.deleted ++ [l.message])).Perm (q.leased.map (·.message) ++ q.deleted) := by
    refine List.Perm.trans ?_ (hsplit.append_right q.deleted).symm
    rw [← List.append_assoc]
    exact List.perm_append_comm
  simp only [messages, List.append_assoc]
  exact hmoved.append_left _

theorem Whole.delete {q : Queue} (h : q.Whole) {l : Lease} (hl : l ∈ q.leased) :
    (q.delete l.message.handle).2.Whole := by
  have hnumbers := (h.delete_messages hl).map (·.number)
  have hpushed : (q.delete l.message.handle).2.pushed = q.pushed := by rw [h.delete_leased hl]
  rw [Whole, hpushed]
  exact hnumbers.trans h

theorem Whole.leased_notMem_deleted {q : Queue} (h : q.Whole) {l : Lease} (hl : l ∈ q.leased) :
    l.message.id ∉ q.deleted.map Message.id := by
  intro hmem
  obtain ⟨m, hm, hid⟩ := List.mem_map.mp hmem
  have hall := h.nodup
  rw [messages, List.map_append, List.nodup_append] at hall
  refine hall.2.2 l.message.number ?_ m.number (List.mem_map_of_mem hm) ?_
  · exact List.mem_map_of_mem (List.mem_append_right _ (List.mem_map_of_mem hl))
  · exact (Message.idOf_injective hid).symm

def Backs (q : Queue) (p : String × String) : Prop :=
  ∃ l ∈ q.leased, (l.message.id, l.message.handle) = p

def deleteAll (handles : List String) (q : Queue) : Queue :=
  handles.foldl (fun q handle => (q.delete handle).2) q

/-- Using the leases of different messages deletes these messages in this order, and keeps all other
leases. -/
theorem Whole.deleteAll {ps : List (String × String)} {q : Queue} (h : q.Whole)
    (distinct : (ps.map Prod.fst).Nodup) (backed : ∀ p ∈ ps, q.Backs p) :
    (q.deleteAll (ps.map Prod.snd)).Whole ∧ (q.deleteAll (ps.map Prod.snd)).pushed = q.pushed ∧
      (q.deleteAll (ps.map Prod.snd)).deleted.map Message.id =
        q.deleted.map Message.id ++ ps.map Prod.fst ∧
      ∀ p, q.Backs p → p.1 ∉ ps.map Prod.fst → (q.deleteAll (ps.map Prod.snd)).Backs p := by
  induction ps generalizing q with
  | nil => exact ⟨h, rfl, (List.append_nil _).symm, fun p hp _ => hp⟩
  | cons p ps ih =>
    obtain ⟨hp, hps⟩ := List.nodup_cons.mp distinct
    obtain ⟨l, hl, rfl⟩ := backed p List.mem_cons_self
    have kept : ∀ p', q.Backs p' → p'.1 ≠ l.message.id → (q.delete l.message.handle).2.Backs p' := by
      intro p' hbacked hne
      obtain ⟨l', hl', rfl⟩ := hbacked
      rw [h.delete_leased hl]
      refine ⟨l', List.mem_filter.mpr ⟨hl', bne_iff_ne.mpr fun hhandle => hne ?_⟩, rfl⟩
      exact congrArg Message.idOf (Message.number_of_handle hhandle).1
    have later : ∀ p' ∈ ps, (q.delete l.message.handle).2.Backs p' := fun p' hp' =>
      kept p' (backed p' (List.mem_cons_of_mem _ hp')) fun he => hp (List.mem_map.mpr ⟨p', hp', he⟩)
    obtain ⟨hwhole, hpushed, hdeleted, hothers⟩ := ih (h.delete hl) hps later
    refine ⟨hwhole, hpushed.trans ?_, hdeleted.trans ?_, ?_⟩
    · rw [h.delete_leased hl]
    · rw [h.delete_leased hl, List.map_append, List.append_assoc]
      rfl
    · intro p' hbacked hnot
      obtain ⟨hne, hnot⟩ := not_or.mp (mt List.mem_cons.mpr hnot)
      exact hothers p' (kept p' hbacked hne) hnot

end Queue
end ChainFeed

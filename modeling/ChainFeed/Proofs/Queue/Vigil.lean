import ChainFeed.Proofs.Queue.Storage
import ChainFeed.Proofs.Run
import ChainFeed.Queue.Waiting

/-!
# How long a receive waits

One receive waits at a queue while pushes and deletes come at any times. While it sleeps nothing is to be
had before its wake: a visible message would have woken it, and no lease runs out earlier. So it ends as
soon as it can get something, or at its deadline. It looks in vain only after a push that some look before
it had found already, or after a delete that took the lease it was to wake for.
-/

namespace ChainFeed

namespace Queue

variable {c : Config} {now : Nat} {q : Queue}

/-- What a look at time `now` can get: the visible messages, and then those whose leases have run out. -/
def available (now : Nat) (q : Queue) : List Message :=
  q.visible ++ (q.leased.filter fun l => l.expires ≤ now).map (·.message)

theorem available_eq_nil_iff :
    q.available now = [] ↔ q.visible = [] ∧ ∀ l ∈ q.leased, now < l.expires := by
  simp [available]

theorem take_fst (c : Config) (now : Nat) (q : Queue) :
    (q.take c now).1 = ((q.available now).take c.batchSize).map fun m => m.received.handout :=
  List.map_map

theorem take_fst_eq_nil_iff : (q.take c now).1 = [] ↔ q.available now = [] := by
  have hsize : c.batchSize ≠ 0 := by
    simp only [Config.batchSize]
    omega
  simp [take_fst, hsize]

/-- Where nothing is to be had, a look changes nothing. -/
theorem take_of_available_eq_nil (h : q.available now = []) : q.take c now = ([], q) := by
  obtain ⟨hvisible, hleased⟩ := available_eq_nil_iff.mp h
  have hkeep : q.leased.filter (fun l => !decide (l.expires ≤ now)) = q.leased := by
    rw [List.filter_eq_self]
    intro l hl
    simpa using hleased l hl
  have hback : q.leased.filter (fun l => decide (l.expires ≤ now)) = [] := by
    rw [List.filter_eq_nil_iff]
    intro l hl
    simpa using hleased l hl
  obtain ⟨visible, leased, deleted, pushed, receives⟩ := q
  obtain rfl : visible = [] := hvisible
  simp only at hkeep hback
  simp [take, reclaim, hkeep, hback]

end Queue

namespace Receive

variable {q : Queue} {r : Receive}

theorem wake_le (q : Queue) (r : Receive) : r.wake q ≤ r.deadline := by
  unfold wake
  split <;> omega

theorem wake_le_expires {l : Lease} (hl : l ∈ q.leased) : r.wake q ≤ l.expires := by
  unfold wake Queue.nextExpiry
  split
  · next t ht =>
    have hle := (List.min?_eq_some_iff.mp ht).2 l.expires (List.mem_map_of_mem hl)
    omega
  · next hnone => simp [List.ne_nil_of_mem hl] at hnone

theorem wake_eq (q : Queue) (r : Receive) : r.wake q = r.deadline ∨ ∃ l ∈ q.leased, l.expires = r.wake q := by
  unfold wake Queue.nextExpiry
  split
  · next t ht =>
    by_cases hle : r.deadline ≤ t
    · exact .inl (Nat.min_eq_right hle)
    · obtain ⟨l, hl, rfl⟩ := List.mem_map.mp (List.min?_eq_some_iff.mp ht).1
      exact .inr ⟨l, hl, by omega⟩
  · exact .inl rfl

theorem lt_wake {now : Nat} (nothing : q.available now = []) (early : now < r.deadline) : now < r.wake q := by
  rcases wake_eq q r with h | ⟨l, hl, h⟩
  · omega
  · have := (Queue.available_eq_nil_iff.mp nothing).2 l hl
    omega

end Receive

namespace Receive.Stage

def isLooking : Stage → Bool
  | .looking => true
  | _ => false

def isServed : Stage → Bool
  | .served _ _ => true
  | _ => false

end Receive.Stage

namespace Vigil

inductive Move where
  | pass (ms : Nat)
  | push (body : String)
  | delete (handle : String)
  | look
  | hear
  | rouse
  /-- The leases come in another order; none is promised. -/
  | mix (leased : List Lease)
  deriving DecidableEq, Repr

namespace Move

def isLook : Move → Bool
  | .look => true
  | _ => false

def isDelete : Move → Bool
  | .delete _ => true
  | _ => false

/-- Whether it is a move of the receive or of the clock, and of nobody else. -/
def isOwn : Move → Bool
  | .pass _ | .look | .hear | .rouse => true
  | _ => false

end Move

def mix (leased : List Lease) (v : Vigil) : Vigil := { v with queue := { v.queue with leased } }

def step? (c : Queue.Config) (v : Vigil) : Move → Option Vigil
  | .pass ms => if 0 < ms then v.pass? ms else none
  | .push body => some (v.push body)
  | .delete handle => some (v.delete handle)
  | .look => v.look? c
  | .hear => v.hear?
  | .rouse => v.rouse?
  | .mix leased => if leased.Perm v.queue.leased then some (v.mix leased) else none

inductive Step (c : Queue.Config) (v : Vigil) : Move → Vigil → Prop
  | pass {wake : Nat} (ms : Nat) (asleep : v.stage = .asleep wake) (silent : v.rung = false) (some : 0 < ms)
      (short : v.now + ms ≤ wake) : Step c v (.pass ms) { v with now := v.now + ms }
  | push (body : String) : Step c v (.push body) (v.push body)
  | delete (handle : String) : Step c v (.delete handle) (v.delete handle)
  | serve (looking : v.stage = .looking)
      (ending : v.queue.available v.now ≠ [] ∨ v.receive.deadline ≤ v.now) :
      Step c v .look
        { v with queue := (v.queue.take c v.now).2, stage := .served (v.queue.take c v.now).1 v.now }
  | sleep (looking : v.stage = .looking) (nothing : v.queue.available v.now = [])
      (early : v.now < v.receive.deadline) :
      Step c v .look { v with stage := .asleep (v.receive.wake v.queue) }
  | hear {wake : Nat} (asleep : v.stage = .asleep wake) (rung : v.rung = true) :
      Step c v .hear { v with rung := false, stage := .looking }
  | rouse {wake : Nat} (asleep : v.stage = .asleep wake) (due : wake ≤ v.now) :
      Step c v .rouse { v with stage := .looking }
  | mix (leased : List Lease) (same : leased.Perm v.queue.leased) : Step c v (.mix leased) (v.mix leased)

theorem Step.of_step? {c : Queue.Config} {v w : Vigil} {m : Move} (h : v.step? c m = some w) :
    Step c v m w := by
  cases m with
  | push body => cases h; exact .push body
  | delete handle => cases h; exact .delete handle
  | pass ms =>
    simp only [step?, pass?] at h
    split at h
    · next pos =>
      split at h
      · next wake asleep =>
        split at h
        · cases h
        · next quiet =>
          simp only [Bool.or_eq_true, decide_eq_true_eq, not_or, Bool.not_eq_true] at quiet
          cases h
          exact .pass ms asleep quiet.1 pos (Nat.le_of_not_lt quiet.2)
      · cases h
    · cases h
  | look =>
    simp only [step?, look?] at h
    split at h
    · next looking =>
      by_cases hsleep : v.queue.available v.now = [] ∧ v.now < v.receive.deadline
      · simp [Receive.poll, Queue.take_of_available_eq_nil hsleep.1, hsleep.2] at h
        subst h
        exact .sleep looking hsleep.1 hsleep.2
      · have hdone : ((v.queue.take c v.now).1.isEmpty && decide (v.now < v.receive.deadline)) = false := by
          rw [Bool.eq_false_iff]
          simpa [Queue.take_fst_eq_nil_iff] using hsleep
        simp [Receive.poll, hdone] at h
        subst h
        refine .serve looking ?_
        by_cases hnone : v.queue.available v.now = []
        · exact .inr (Nat.le_of_not_lt fun early => hsleep ⟨hnone, early⟩)
        · exact .inl hnone
    · cases h
  | hear =>
    simp only [step?, hear?] at h
    split at h
    · next wake asleep =>
      split at h
      · next rung => cases h; exact .hear asleep rung
      · cases h
    · cases h
  | rouse =>
    simp only [step?, rouse?] at h
    split at h
    · next wake asleep =>
      split at h
      · next due => cases h; exact .rouse asleep due
      · cases h
    · cases h
  | mix leased =>
    simp only [step?] at h
    split at h
    · next same => cases h; exact .mix leased same
    · cases h

structure Sound (c : Queue.Config) (start : Nat) (v : Vigil) : Prop where
  deadline : v.receive.deadline = start + c.wait
  begun : start ≤ v.now
  timely : v.now ≤ start + c.wait
  /-- A visible message is one that a push has brought, and the receive will hear of it. -/
  heard : ∀ wake, v.stage = .asleep wake → v.queue.visible ≠ [] → v.rung = true
  watchful : ∀ wake, v.stage = .asleep wake →
    v.now ≤ wake ∧ wake ≤ start + c.wait ∧ ∀ l ∈ v.queue.leased, wake ≤ l.expires

variable {c : Queue.Config} {start : Nat} {v w : Vigil} {m : Move}

theorem sound_begin (c : Queue.Config) (start : Nat) (rung : Bool) (q : Queue) :
    Sound c start (begin c start rung q) where
  deadline := rfl
  begun := Nat.le_refl _
  timely := Nat.le_add_right _ _
  heard := nofun
  watchful := nofun

theorem mem_leased_delete {handle : String} {l : Lease} (h : l ∈ (v.delete handle).queue.leased) :
    l ∈ v.queue.leased := by
  simp only [delete, Queue.delete] at h
  split at h
  · exact (List.mem_filter.mp h).1
  · exact h

@[simp] theorem visible_delete (handle : String) (v : Vigil) :
    (v.delete handle).queue.visible = v.queue.visible := by
  simp only [delete, Queue.delete]
  split <;> rfl

theorem Step.sound (h : Step c v m w) (hv : Sound c start v) : Sound c start w := by
  cases h with
  | push body => exact { hv with heard := fun _ _ _ => rfl }
  | delete handle =>
    refine { hv with heard := ?_, watchful := ?_ }
    · intro wake asleep hvisible
      exact hv.heard wake asleep (visible_delete handle v ▸ hvisible)
    · intro wake asleep
      obtain ⟨hnow, hwake, hleased⟩ := hv.watchful wake asleep
      exact ⟨hnow, hwake, fun l hl => hleased l (mem_leased_delete hl)⟩
  | serve | hear | rouse => exact { hv with heard := nofun, watchful := nofun }
  | sleep looking nothing early =>
    refine { hv with heard := ?_, watchful := ?_ }
    · intro _ _ hvisible
      exact absurd (Queue.available_eq_nil_iff.mp nothing).1 hvisible
    · rintro _ ⟨⟩
      refine ⟨Nat.le_of_lt (Receive.lt_wake nothing early), ?_, fun l hl => Receive.wake_le_expires hl⟩
      exact hv.deadline ▸ Receive.wake_le v.queue v.receive
  | pass ms asleep silent pos short =>
    obtain ⟨hnow, hwake, hleased⟩ := hv.watchful _ asleep
    have hbegun := hv.begun
    refine { hv with begun := ?_, timely := ?_, watchful := ?_ }
    · simp only
      omega
    · simp only
      omega
    · intro wake' asleep'
      obtain rfl : _ = wake' := by simpa using asleep.symm.trans asleep'
      exact ⟨short, hwake, hleased⟩
  | mix leased same =>
    refine { hv with watchful := ?_ }
    intro wake asleep
    obtain ⟨hnow, hwake, hleased⟩ := hv.watchful wake asleep
    exact ⟨hnow, hwake, fun l hl => hleased l (same.subset hl)⟩

/-- In the move, time goes on from `moment`. -/
def Passes (moment : Nat) (p : Vigil × Move) : Prop :=
  ∃ ms, p.2 = .pass ms ∧ p.1.now ≤ moment ∧ moment < p.1.now + ms

theorem Step.available_of_passes (h : Step c v m w) (hv : Sound c start v) {moment : Nat}
    (passes : Passes moment (v, m)) : v.queue.available moment = [] := by
  obtain ⟨ms, hm, hle, hlt⟩ := passes
  dsimp only at hm hle hlt
  subst hm
  cases h with
  | pass _ asleep silent pos short =>
    obtain ⟨-, -, hleased⟩ := hv.watchful _ asleep
    refine Queue.available_eq_nil_iff.mpr ⟨?_, fun l hl => ?_⟩
    · by_contra hvisible
      simp [hv.heard _ asleep hvisible] at silent
    · have := hleased l hl
      omega

/-- What the receive ended with in state `s`, and that it may end then with nothing only at its deadline. -/
def Serves (c : Queue.Config) (start : Nat) (s : Vigil) (batch : List Handout) : Prop :=
  batch = ((s.queue.available s.now).take c.batchSize).map (fun m => m.received.handout) ∧
  batch.length = min c.batchSize (s.queue.available s.now).length ∧
  (batch = [] → s.now = start + c.wait ∧ s.queue.available s.now = [])

theorem serves_of_ending (hv : Sound c start v)
    (ending : v.queue.available v.now ≠ [] ∨ v.receive.deadline ≤ v.now) :
    Serves c start v (v.queue.take c v.now).1 := by
  refine ⟨Queue.take_fst c v.now v.queue, by simp [Queue.take_fst], fun hnil => ?_⟩
  have hnone := Queue.take_fst_eq_nil_iff.mp hnil
  have hdeadline := ending.resolve_left (not_not_intro hnone)
  have := hv.timely
  have := hv.deadline
  exact ⟨by omega, hnone⟩

structure Told (c : Queue.Config) (start : Nat) (trail : List (Vigil × Move)) (v : Vigil) : Prop where
  sound : Sound c start v
  vacant : ∀ p ∈ trail, ∀ moment, Passes moment p → p.1.queue.available moment = []
  covered : ∀ moment, start ≤ moment → moment < v.now → ∃ p ∈ trail, Passes moment p
  served : ∀ batch moment, v.stage = .served batch moment →
    v.now = moment ∧ ∃ s, (s, Move.look) ∈ trail ∧ s.now = moment ∧ Serves c start s batch

theorem Step.told (h : Step c v m w) {trail : List (Vigil × Move)} (hv : Told c start trail v) :
    Told c start (trail ++ [(v, m)]) w where
  sound := h.sound hv.sound
  vacant := by
    rw [List.forall_mem_append, List.forall_mem_singleton]
    exact ⟨hv.vacant, fun moment passes => h.available_of_passes hv.sound passes⟩
  covered moment hle hlt := by
    by_cases hbefore : moment < v.now
    · obtain ⟨p, hp, passes⟩ := hv.covered moment hle hbefore
      exact ⟨p, List.mem_append_left _ hp, passes⟩
    · cases h with
      | pass ms => exact ⟨_, List.mem_concat_self, ms, rfl, Nat.le_of_not_lt hbefore, hlt⟩
      | push | delete | serve | sleep | hear | rouse | mix => exact absurd hlt hbefore
  served batch moment hserved := by
    have hearlier : v.stage = .served batch moment → w.now = v.now → w.now = moment ∧
        ∃ s, (s, Move.look) ∈ trail ++ [(v, m)] ∧ s.now = moment ∧ Serves c start s batch := by
      intro hstage hnow
      obtain ⟨hmoment, s, hs, hserves⟩ := hv.served batch moment hstage
      exact ⟨hnow.trans hmoment, s, List.mem_append_left _ hs, hserves⟩
    cases h with
    | push | delete | mix => exact hearlier hserved rfl
    | pass _ asleep => cases asleep.symm.trans hserved
    | sleep | hear | rouse => cases hserved
    | serve looking ending =>
      cases hserved
      exact ⟨rfl, v, List.mem_concat_self, rfl, serves_of_ending hv.sound ending⟩

/-- Whether a push is remembered that brought nothing which is still there. -/
def isStale (v : Vigil) : Bool := v.rung && v.queue.visible.isEmpty

/-- Whether the receive, if nothing happens but that it is woken by the clock, looks in vain. -/
def isVain (v : Vigil) : Bool :=
  match v.stage with
  | .looking => (v.queue.available v.now).isEmpty && decide (v.now < v.receive.deadline)
  | .asleep wake => decide (wake < v.receive.deadline) && v.queue.leased.all (·.expires != wake)
  | .served _ _ => false

/-- How many looks in vain the receive is in for as things stand. -/
def debt (v : Vigil) : Nat :=
  match v.stage with
  | .served _ _ => 0
  | _ => v.isStale.toNat + v.isVain.toNat

theorem debt_push (body : String) (v : Vigil) : (v.push body).debt ≤ v.debt := by
  have hstale : (v.push body).isStale = false := by simp [isStale, push, Queue.push]
  cases hstage : v.stage with
  | looking =>
    have hvain : (v.push body).isVain = false := by
      simp [isVain, push, hstage, Queue.push, Queue.available]
    simp [debt, hstage, hstale, hvain, show (v.push body).stage = v.stage from rfl]
  | asleep wake =>
    have hvain : (v.push body).isVain = v.isVain := by simp [isVain, push, hstage, Queue.push]
    simp [debt, hstage, hstale, hvain, show (v.push body).stage = v.stage from rfl]
  | served => simp [debt, hstage, show (v.push body).stage = v.stage from rfl]

theorem debt_delete (handle : String) (v : Vigil) : (v.delete handle).debt ≤ v.debt + 1 := by
  have hstale : (v.delete handle).isStale = v.isStale := by
    simp [isStale, show (v.delete handle).rung = v.rung from rfl]
  have hvain := (v.delete handle).isVain.toNat_le
  cases hstage : v.stage <;>
    simp only [debt, hstage, hstale, show (v.delete handle).stage = v.stage from rfl] <;> omega

theorem debt_sleep (looking : v.stage = .looking) (nothing : v.queue.available v.now = [])
    (early : v.now < v.receive.deadline) :
    { v with stage := .asleep (v.receive.wake v.queue) }.debt + 1 = v.debt := by
  have hvain : v.isVain = true := by simp [isVain, looking, nothing, early]
  have hsleep : { v with stage := .asleep (v.receive.wake v.queue) }.isVain = false := by
    rw [Bool.eq_false_iff]
    simp only [isVain, ne_eq, Bool.and_eq_true, decide_eq_true_eq, List.all_eq_true, bne_iff_ne, not_and]
    intro hlt hall
    rcases Receive.wake_eq v.queue v.receive with h | ⟨l, hl, h⟩
    · omega
    · exact hall l hl h
  simp [debt, looking, hvain, hsleep, isStale]

theorem debt_hear {wake : Nat} (asleep : v.stage = .asleep wake) (rung : v.rung = true) :
    { v with rung := false, stage := .looking }.debt ≤ v.debt := by
  have hstale : { v with rung := false, stage := Receive.Stage.looking }.isStale = false := by simp [isStale]
  by_cases hvisible : v.queue.visible = []
  · have hbefore : v.isStale = true := by simp [isStale, rung, hvisible]
    have hvain := { v with rung := false, stage := Receive.Stage.looking }.isVain.toNat_le
    simp only [debt, asleep, hstale, hbefore]
    simp only [Bool.toNat_false, Bool.toNat_true]
    omega
  · have hvain : { v with rung := false, stage := Receive.Stage.looking }.isVain = false := by
      simp [isVain, Queue.available_eq_nil_iff, hvisible]
    simp [debt, hstale, hvain]

theorem debt_rouse {wake : Nat} (asleep : v.stage = .asleep wake) (due : wake ≤ v.now) :
    { v with stage := .looking }.debt ≤ v.debt := by
  have hvain : { v with stage := Receive.Stage.looking }.isVain = true → v.isVain = true := by
    simp only [isVain, asleep, Bool.and_eq_true, decide_eq_true_eq, List.isEmpty_iff,
      Queue.available_eq_nil_iff, List.all_eq_true, bne_iff_ne]
    rintro ⟨⟨-, hleased⟩, hearly⟩
    refine ⟨by omega, fun l hl => ?_⟩
    have := hleased l hl
    omega
  simp only [debt, asleep, show { v with stage := Receive.Stage.looking }.isStale = v.isStale from rfl]
  cases hlook : { v with stage := Receive.Stage.looking }.isVain with
  | false => simp
  | true => simp [hvain hlook]

theorem debt_mix {leased : List Lease} (same : leased.Perm v.queue.leased) :
    (v.mix leased).debt = v.debt := by
  have hvain : (v.mix leased).isVain = v.isVain := by
    rw [Bool.eq_iff_iff]
    cases hstage : v.stage <;>
      simp only [isVain, mix, hstage, Bool.and_eq_true, List.isEmpty_iff, Queue.available_eq_nil_iff,
        List.all_eq_true, same.mem_iff]
  unfold debt
  rw [hvain]
  rfl

/-- A look is one that the receive was in for, or one that ends it; and only a delete can make it be in for
one look more. -/
theorem Step.looks (h : Step c v m w) : m.isLook.toNat + w.debt + v.stage.isServed.toNat ≤
    v.debt + m.isDelete.toNat + w.stage.isServed.toNat := by
  cases h with
  | push body =>
    have := debt_push body v
    have hstage : (v.push body).stage = v.stage := rfl
    simp only [Move.isLook, Move.isDelete, Bool.toNat_false, hstage]
    omega
  | delete handle =>
    have := debt_delete handle v
    have hstage : (v.delete handle).stage = v.stage := rfl
    simp only [Move.isLook, Move.isDelete, Bool.toNat_false, Bool.toNat_true, hstage]
    omega
  | serve looking ending =>
    simp [Move.isLook, Move.isDelete, Receive.Stage.isServed, looking, debt]
  | sleep looking nothing early =>
    have := debt_sleep looking nothing early
    simp only [Move.isLook, Move.isDelete, Receive.Stage.isServed, looking, Bool.toNat_false, Bool.toNat_true]
    omega
  | hear asleep rung =>
    have := debt_hear asleep rung
    simp only [Move.isLook, Move.isDelete, Receive.Stage.isServed, asleep, Bool.toNat_false]
    omega
  | rouse asleep due =>
    have := debt_rouse asleep due
    simp only [Move.isLook, Move.isDelete, Receive.Stage.isServed, asleep, Bool.toNat_false]
    omega
  | pass ms asleep silent pos short =>
    have hsame : { v with now := v.now + ms }.debt = v.debt := by simp [debt, isStale, isVain, asleep]
    simp [Move.isLook, Move.isDelete, hsame]
  | mix leased same =>
    have := debt_mix same
    have hstage : (v.mix leased).stage = v.stage := rfl
    simp only [Move.isLook, Move.isDelete, Bool.toNat_false, hstage]
    omega

theorem Step.moves (h : Step c v m w) : m.isOwn.toNat + (!w.stage.isLooking).toNat + v.now ≤
    2 * m.isLook.toNat + (!v.stage.isLooking).toNat + w.now := by
  cases h with
  | push | delete | mix =>
    simp only [Move.isOwn, Move.isLook, Bool.toNat_false, Nat.mul_zero]
    exact Nat.le_refl _
  | serve looking | sleep looking => simp [Move.isOwn, Move.isLook, Receive.Stage.isLooking, looking]
  | hear asleep | rouse asleep => simp [Move.isOwn, Move.isLook, Receive.Stage.isLooking, asleep]
  | pass ms asleep silent pos short =>
    simp only [Move.isOwn, Move.isLook, Receive.Stage.isLooking, asleep, Bool.not_false, Bool.toNat_true,
      Bool.toNat_false]
    omega

theorem debt_begin (c : Queue.Config) (start : Nat) (rung : Bool) (q : Queue) :
    (begin c start rung q).debt ≤ rung.toNat + 1 := by
  have hstale : (begin c start rung q).isStale.toNat ≤ rung.toNat := by
    cases rung <;> simp [isStale, begin, Receive.start, Bool.toNat_le]
  have hvain := (begin c start rung q).isVain.toNat_le
  have hdebt : (begin c start rung q).debt =
      (begin c start rung q).isStale.toNat + (begin c start rung q).isVain.toNat := rfl
  omega

theorem countP_concat {f : Move → Bool} (trail : List (Vigil × Move)) (p : Vigil × Move) :
    (trail ++ [p]).countP (fun p => f p.2) = trail.countP (fun p => f p.2) + (f p.2).toNat := by
  rw [List.countP_append, List.countP_singleton]
  cases f p.2 <;> rfl

theorem looks_le {rung : Bool} {q : Queue} {trail : List (Vigil × Move)}
    (h : Run (step? c) (begin c start rung q) trail v) :
    trail.countP (·.2.isLook) + v.debt ≤
      trail.countP (·.2.isDelete) + rung.toNat + 1 + v.stage.isServed.toNat ∧
    trail.countP (·.2.isOwn) + (!v.stage.isLooking).toNat + start ≤
      2 * trail.countP (·.2.isLook) + v.now := by
  induction h with
  | start =>
    have := debt_begin c start rung q
    have hlooking : (begin c start rung q).stage.isLooking = true := rfl
    simp only [List.countP_nil, hlooking]
    exact ⟨by omega, by simp [begin, Receive.start]⟩
  | step _ move ih =>
    have hlooks := (Step.of_step? move).looks
    have hmoves := (Step.of_step? move).moves
    simp only [countP_concat]
    omega

theorem told_of_run {rung : Bool} {q : Queue} {trail : List (Vigil × Move)}
    (h : Run (step? c) (begin c start rung q) trail v) : Told c start trail v := by
  induction h with
  | start => exact ⟨sound_begin c start rung q, nofun, fun _ hle hlt => absurd hlt (Nat.not_lt.mpr hle), nofun⟩
  | step _ move ih => exact (Step.of_step? move).told ih

/-- A receive that has not ended can look, or wake up, or time can pass. -/
theorem Sound.goes_on (hv : Sound c start v) (waiting : v.stage.isServed = false) :
    ∃ m w, m.isOwn = true ∧ step? c v m = some w := by
  cases hstage : v.stage with
  | served => simp [Receive.Stage.isServed, hstage] at waiting
  | looking =>
    refine ⟨.look, ?_⟩
    simp only [step?, look?, hstage]
    split <;> exact ⟨_, rfl, rfl⟩
  | asleep wake =>
    obtain ⟨hnow, -, -⟩ := hv.watchful wake hstage
    by_cases hrung : v.rung = true
    · exact ⟨.hear, { v with rung := false, stage := .looking }, rfl, by simp [step?, hear?, hstage, hrung]⟩
    · by_cases hdue : wake ≤ v.now
      · exact ⟨.rouse, { v with stage := .looking }, rfl, by simp [step?, rouse?, hstage, hdue]⟩
      · refine ⟨.pass (wake - v.now), { v with now := v.now + (wake - v.now) }, rfl, ?_⟩
        have hpos : 0 < wake - v.now := by omega
        have hshort : ¬ wake < v.now + (wake - v.now) := by omega
        simp [step?, pass?, hstage, hpos, hrung, hshort]

/-- Any wait of a receive, from any queue on, whether or not a push before it has woken nobody, while pushes
and deletes come at any times and nobody else receives. It is never later than the deadline. As long as time
goes on there is nothing to be had, so the receive ends at the first time when there is; it ends with what
there is then, up to the size of a batch, the visible messages first, and only at the deadline with nothing.
Until it has ended it always goes on: it looks, or wakes up, or time passes. It looks no more than two times,
once for each delete, and once for a push before it that has woken nobody. So the moves of the receive and of
the clock are bounded, too. -/
theorem receive_is_timely {rung : Bool} {q : Queue} {trail : List (Vigil × Move)}
    (h : Run (step? c) (begin c start rung q) trail v) :
    (start ≤ v.now ∧ v.now ≤ start + c.wait) ∧
    (∀ p ∈ trail, ∀ moment, Passes moment p → p.1.queue.available moment = []) ∧
    (∀ moment, start ≤ moment → moment < v.now → ∃ p ∈ trail, Passes moment p) ∧
    (∀ batch moment, v.stage = .served batch moment → v.now = moment ∧
      ∃ s, (s, .look) ∈ trail ∧ s.now = moment ∧
        batch = ((s.queue.available moment).take c.batchSize).map (fun m => m.received.handout) ∧
        batch.length = min c.batchSize (s.queue.available moment).length ∧
        (batch = [] → moment = start + c.wait ∧ s.queue.available moment = [])) ∧
    (v.stage.isServed = false → ∃ m w, m.isOwn = true ∧ step? c v m = some w) ∧
    trail.countP (·.2.isLook) ≤ trail.countP (·.2.isDelete) + rung.toNat + 2 ∧
    trail.countP (·.2.isOwn) ≤ 2 * (trail.countP (·.2.isDelete) + rung.toNat + 2) + c.wait := by
  have htold := told_of_run h
  obtain ⟨hlooks, hmoves⟩ := looks_le h
  have hserved := v.stage.isServed.toNat_le
  have htimely := htold.sound.timely
  refine ⟨⟨htold.sound.begun, htimely⟩, htold.vacant, htold.covered, ?_, htold.sound.goes_on, ?_, ?_⟩
  · intro batch moment hstage
    obtain ⟨hnow, s, hs, rfl, hserves⟩ := htold.served batch moment hstage
    exact ⟨hnow, s, hs, rfl, hserves⟩
  · omega
  · omega

private def lent : Queue where
  leased := [⟨⟨1, "a", 1⟩, 40⟩, ⟨⟨2, "b", 1⟩, 100⟩]
  pushed := 2

private def patient : Queue.Config := { wait := 100, batch := 2 }

private def wait : List Move :=
  [.look, .hear, .look, .pass 10, .delete "msg-1#1", .pass 30, .rouse, .look, .pass 60, .rouse, .look]

private def waited : List (Vigil × Move) × Vigil :=
  (replay? (step? patient) (begin patient 0 true lent) wait).getD ([], begin patient 0 true lent)

theorem wait_is_timely :
    Run (step? patient) (begin patient 0 true lent) waited.1 waited.2 ∧
      waited.2.stage = .served [⟨"msg-2", "msg-2#2", "b"⟩] 100 ∧
      waited.1.countP (·.2.isLook) = 4 ∧ waited.1.countP (·.2.isDelete) = 1 ∧
      (∀ moment < 100, ∃ p ∈ waited.1, Passes moment p ∧ p.1.queue.available moment = []) ∧
      ∃ s, (s, .look) ∈ waited.1 ∧ s.now = 100 ∧ (s.queue.available 100).length = 1 := by
  have hreplay : replay? (step? patient) (begin patient 0 true lent) wait = some (waited.1, waited.2) := by
    decide +kernel
  have hrun := Run.of_replay hreplay
  have hstage : waited.2.stage = .served [⟨"msg-2", "msg-2#2", "b"⟩] 100 := by decide +kernel
  have hnow : waited.2.now = 100 := by decide +kernel
  obtain ⟨-, hvacant, hcovered, hserved, -⟩ := receive_is_timely hrun
  obtain ⟨-, s, hs, hlate, -, hlength, -⟩ := hserved _ _ hstage
  refine ⟨hrun, hstage, by decide +kernel, by decide +kernel, ?_, s, hs, hlate, ?_⟩
  · intro moment hlt
    obtain ⟨p, hp, passes⟩ := hcovered moment (Nat.zero_le _) (hnow ▸ hlt)
    exact ⟨p, hp, passes, hvacant p hp moment passes⟩
  · have hsize : patient.batchSize = 2 := rfl
    simp only [List.length_singleton, hsize] at hlength
    omega

end Vigil

end ChainFeed

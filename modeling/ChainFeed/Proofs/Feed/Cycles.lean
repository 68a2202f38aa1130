import ChainFeed.Feed.Poller
import ChainFeed.Proofs.Journal

/-!
# Watched cycles

A poller is watched in surroundings that answer in any way they like. `cycle_course` says everything
that a cycle can do: the calls that it makes in order, what they answer, and what becomes of the
cursor. Whatever holds of all cycles is a case analysis of `Course`.
-/

namespace ChainFeed

namespace BlockRange

def numbers (r : BlockRange) : List Nat := List.range' r.first.toNat r.size

end BlockRange

namespace Poller

inductive Deed (ι : Type) where
  | asked (head : Except RepositoryError UInt64)
  | fetched (range : BlockRange) (result : Except PollError (List ι))
  | published (poller : String) (items : List ι) (result : Except PollError PUnit)
  | counted (m : Metric)

namespace Deed

variable {ι : Type}

def head? : Deed ι → Option UInt64
  | .asked (.ok head) => some head
  | _ => none

def range? : Deed ι → Option BlockRange
  | .fetched r _ => some r
  | _ => none

def isAcceptance : Deed ι → Bool
  | .published _ _ (.ok _) => true
  | _ => false

def isFailure : Deed ι → Bool
  | .asked (.error _) | .fetched _ (.error _) | .published _ _ (.error _) => true
  | _ => false

def isCount : Deed ι → Bool
  | .counted _ => true
  | _ => false

end Deed

variable {σ ι : Type}

/-- The same poller in the same surroundings, with its calls written down. -/
def watched (p : Poller (StateM σ) ι) : Poller (Journal (Deed ι) σ) ι where
  config := p.config
  height chain tag := .watch .asked (p.height chain tag)
  fetch r := .watch (.fetched r) (p.fetch r)
  publish poller items := .watch (.published poller items) (p.publish poller items)
  count m := .watch (fun _ => .counted m) (p.count m)

/-- The courses that a cycle can take from a cursor: its calls, its outcome, the cursor after it. -/
inductive Course (c : PollerConfig) (cursor : Option UInt64) :
    List (Deed ι) → Except PollError Cycle → Option UInt64 → Prop
  | finished (done : c.isDone cursor = true) : Course c cursor [] (.ok .finished) cursor
  | headless (due : c.isDone cursor = false) (e : RepositoryError) :
      Course c cursor [.asked (.error e)] (.error (.repository e)) cursor
  | idle (due : c.isDone cursor = false) (head : UInt64) (nothing : c.nextRange cursor head = none) :
      Course c cursor [.asked (.ok head)] (.ok .idle) cursor
  | unfetched (due : c.isDone cursor = false) (head : UInt64) (r : BlockRange)
      (next : c.nextRange cursor head = some r) (e : PollError) :
      Course c cursor [.asked (.ok head), .fetched r (.error e)] (.error e) cursor
  | rejected (due : c.isDone cursor = false) (head : UInt64) (r : BlockRange)
      (next : c.nextRange cursor head = some r) (items : List ι) (e : PollError) :
      Course c cursor [.asked (.ok head), .fetched r (.ok items), .published c.id items (.error e)]
        (.error e) cursor
  | accepted (due : c.isDone cursor = false) (head : UInt64) (r : BlockRange)
      (next : c.nextRange cursor head = some r) (items : List ι) :
      Course c cursor [.asked (.ok head), .fetched r (.ok items), .published c.id items (.ok ()),
        .counted (.cycle c.id items.length)]
        (.ok (.progress r items.length (c.target head ≤ r.last))) (some r.last)

/-- What a watched cycle writes down is one of the courses. -/
theorem cycle_course (p : Poller (StateM σ) ι) (cursor : Option UInt64) (s : σ) :
    Course p.config cursor ((p.watched.cycle cursor).run s).deeds
      ((p.watched.cycle cursor).run s).result.1 ((p.watched.cycle cursor).run s).result.2 := by
  cases hdone : p.config.isDone cursor with
  | true =>
    have hpage : (p.watched.cycle cursor).run s = ⟨(.ok .finished, cursor), [], s⟩ := by
      simp [cycle, watched, hdone]
    rw [hpage]
    exact .finished hdone
  | false =>
    obtain ⟨⟨answer, s₁⟩, hheight⟩ : ∃ r, p.height p.config.chain p.config.finality s = r := ⟨_, rfl⟩
    cases answer with
    | error e =>
      have hpage : (p.watched.cycle cursor).run s =
          ⟨(.error (.repository e), cursor), [.asked (.error e)], s₁⟩ := by
        simp [cycle, watched, hdone, hheight]
      rw [hpage]
      exact .headless hdone e
    | ok head =>
      cases hnext : p.config.nextRange cursor head with
      | none =>
        have hpage : (p.watched.cycle cursor).run s =
            ⟨(.ok .idle, cursor), [.asked (.ok head)], s₁⟩ := by
          simp [cycle, watched, hdone, hheight, hnext]
        rw [hpage]
        exact .idle hdone head hnext
      | some r =>
        obtain ⟨⟨records, s₂⟩, hfetch⟩ : ∃ x, p.fetch r s₁ = x := ⟨_, rfl⟩
        cases records with
        | error e =>
          have hpage : (p.watched.cycle cursor).run s =
              ⟨(.error e, cursor), [.asked (.ok head), .fetched r (.error e)], s₂⟩ := by
            simp [cycle, advance, watched, hdone, hheight, hnext, hfetch]
          rw [hpage]
          exact .unfetched hdone head r hnext e
        | ok items =>
          obtain ⟨⟨reply, s₃⟩, hpublish⟩ : ∃ x, p.publish p.config.id items s₂ = x := ⟨_, rfl⟩
          cases reply with
          | error e =>
            have hpage : (p.watched.cycle cursor).run s =
                ⟨(.error e, cursor), [.asked (.ok head), .fetched r (.ok items),
                  .published p.config.id items (.error e)], s₃⟩ := by
              simp [cycle, advance, watched, hdone, hheight, hnext, hfetch, hpublish]
            rw [hpage]
            exact .rejected hdone head r hnext items e
          | ok _ =>
            have hpage : (p.watched.cycle cursor).run s =
                ⟨(.ok (.progress r items.length (p.config.target head ≤ r.last)), some r.last),
                  [.asked (.ok head), .fetched r (.ok items), .published p.config.id items (.ok ()),
                    .counted (.cycle p.config.id items.length)],
                  (p.count (.cycle p.config.id items.length) s₃).2⟩ := by
              simp [cycle, advance, watched, hdone, hheight, hnext, hfetch, hpublish]
              rfl
            rw [hpage]
            exact .accepted hdone head r hnext items

def Deed.IsGenuine (p : Poller (StateM σ) ι) : Deed ι → Prop
  | .fetched r result => ∃ s, result = (p.fetch r s).1
  | _ => True

theorem cycle_genuine (p : Poller (StateM σ) ι) (cursor : Option UInt64) :
    (p.watched.cycle cursor).Only (Deed.IsGenuine p) := by
  have hadvance : ∀ r target, (p.watched.advance r target cursor).Only (Deed.IsGenuine p) := by
    intro r target
    have hfetch : Journal.Only (Deed.IsGenuine p) (p.watched.fetch r) := Journal.only_watch fun s => ⟨s, rfl⟩
    have hpublish : ∀ items, Journal.Only (Deed.IsGenuine p) (p.watched.publish p.config.id items) :=
      fun items => Journal.only_watch fun _ => trivial
    have hcount : ∀ m, Journal.Only (Deed.IsGenuine p) (p.watched.count m) := by
      intro m s d hd
      rw [List.mem_singleton.mp hd]
      trivial
    refine hfetch.bind fun items => ?_
    cases items with
    | error e => exact Journal.only_pure _
    | ok items =>
      refine (hpublish items).bind fun reply => ?_
      cases reply with
      | error e => exact Journal.only_pure _
      | ok _ => exact (hcount _).bind fun _ => Journal.only_pure _
  have hheight : Journal.Only (Deed.IsGenuine p) (p.watched.height p.config.chain p.config.finality) :=
    Journal.only_watch fun _ => trivial
  unfold cycle
  split
  · exact Journal.only_pure _
  · refine hheight.bind fun answer => ?_
    cases answer with
    | error e => exact Journal.only_pure _
    | ok head =>
      dsimp only
      split
      · exact Journal.only_pure _
      · exact hadvance _ _

end Poller

end ChainFeed

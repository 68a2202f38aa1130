import ChainFeed.Feed.Poller
import ChainFeed.Rehearsal.Stage

/-!
# Rehearsing a poller

Single cycles of a poller, and its loop while things happen around it.
-/

namespace ChainFeed.Rehearsal

def rehearsedPoller (s : Source) (config : PollerConfig) (repo : Repository (Activity World)) :
    Poller (Activity World) Emitted :=
  s.poller config repo World.publish World.count

inductive Happening where
  | head (n : UInt64)
  | always (beat : Option Beat)
  | sinkFault (message : Option String)
  | send (value : Bool)
  | hangUp
  deriving Inhabited

def Happening.apply (h : Happening) (w : World) : World :=
  match h with
  | .head n => { w with script := { w.script with head := n } }
  | .always beat => { w with script := { w.script with always := beat } }
  | .sinkFault m => { w with sinkFault := m }
  | .send value => { w with signal := { value, changed := true } }
  | .hangUp => { w with signal := { w.signal with changed := true } }

def shutdown : Poller.Shutdown (Activity World) where
  requested := Activity.update fun _ w => (w.signal.value, w)
  during a := a.whileNot (·.signal.changed)

def cycleBudget : Nat := 10000000

def goOn {α : Type} (limit now : Nat) : Activity.Progress World α × World → Activity.Progress World α × World
  | (.waiting x, w) => x.resume (some limit) now w
  | (.ended a at', w) => (.ended a at', w)

/-- Lets things happen at their moments while an activity goes on. -/
def through {α : Type} :
    List (Nat × Happening) → Nat → Activity.Progress World α × World → Nat × Activity.Progress World α × World
  | [], now, p => (now, p)
  | (moment, h) :: rest, now, p =>
    let (progress, w) := goOn moment now p
    through rest moment (goOn moment moment (progress, h.apply w))

namespace Stage

/-- Runs the loop of a poller from now on while things happen, and for less than `rest` milliseconds
more; the moment at which it ended, if it did. -/
def runLoop (s : Stage) (p : Poller (Activity World) Emitted) (cursor : Option UInt64) (stopped : Bool)
    (happenings : List (Nat × Happening)) (rest : Nat) : Option Nat × Stage :=
  let world := { s.world with signal := { value := stopped } }
  let first := (happenings.head?.map (·.1)).getD s.now
  let started := (p.run shutdown cycleBudget cursor).runUntil (some first) s.now world
  let (last, progress) := through happenings s.now started
  match goOn (last + rest - 1) last progress with
  | (.ended _ at', world) => (some at', { s with now := max last at', world })
  | (.waiting _, world) => (none, { s with now := last + rest, world })

end Stage

end ChainFeed.Rehearsal

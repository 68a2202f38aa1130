import ChainFeed.Chain.Guard
import ChainFeed.Proofs.Journal

/-!
# Watched rounds

A guarded call is watched in surroundings that answer in any way they like and may change the guards
between any two uses of them. `round_course` says everything that one round can do: how it uses the
guard, whether the call is made, and what is recorded of it.
-/

namespace ChainFeed

namespace Breaker

/-- What a breaker counts: failures in a row, successful trials, the start of the trial under way. -/
def tally : Breaker → Nat × Nat × Option Nat
  | .closed failures => (failures, 0, none)
  | .opened _ => (0, 0, none)
  | .halfOpen successes trial => (0, successes, trial)

theorem tally_refresh (c : Config) (now : Nat) (b : Breaker) : (b.refresh c now).tally = b.tally := by
  cases b with
  | closed | halfOpen => rfl
  | opened since =>
    simp only [refresh]
    split <;> rfl

end Breaker

def Guards.tally (gs : Guards) (chain : String) : Nat × Nat × Option Nat :=
  ((Table.get? gs chain).map fun g => g.breaker.tally).getD Breaker.initial.tally

theorem Guards.tally_on {α : Type} {f : Guard → α × Guard}
    (h : ∀ g, (f g).2.breaker.tally = g.breaker.tally) (c : Resilience) (now : Nat) (chain : String)
    (gs : Guards) (other : String) : (gs.on c now chain f).2.tally other = gs.tally other := by
  by_cases hsame : other = chain
  · subst hsame
    simp only [Guards.on, tally, Table.get?_insert_self, Option.map_some, Option.getD_some, h]
    cases Table.get? gs other with
    | none => rfl
    | some g => rfl
  · simp only [Guards.on, tally, Table.get?_insert_of_ne gs hsame]

namespace GuardPost

inductive Deed (β : Type) where
  | read (now : Nat)
  | used (before after : Guards)
  | invoked (outcome : Except RepositoryError β)
  | counted (m : Metric)
  | slept (ms : Nat)

def Deed.invocation? {β : Type} : Deed β → Option (Except RepositoryError β)
  | .invoked outcome => some outcome
  | _ => none

def Deed.metric? {β : Type} : Deed β → Option Metric
  | .counted m => some m
  | _ => none

structure Surroundings (σ : Type) where
  look : σ → Guards
  put : Guards → σ → σ
  count : Metric → StateM σ PUnit

variable {σ α β : Type}

instance [Clock (StateM σ)] : Clock (Journal (Deed β) σ) where
  now := .watch .read Clock.now
  sleep ms := .watch (fun _ => .slept ms) (Clock.sleep ms)
  wall := .quiet Clock.wall
  unixTime := .quiet Clock.unixTime

def watched (c : Resilience) (w : Surroundings σ) : GuardPost (Journal (Deed β) σ) where
  config := c
  guards := ⟨fun f => ⟨fun s =>
    ⟨(f (w.look s)).1, [.used (w.look s) (f (w.look s)).2], w.put (f (w.look s)).2 s⟩⟩⟩
  count m := .watch (fun _ => .counted m) (w.count m)

@[simp] theorem watched_count (c : Resilience) (w : Surroundings σ) (m : Metric) :
    (watched (β := β) c w).count m = .watch (fun _ => .counted m) (w.count m) := rfl

/-- A use of the guards, and when it was. -/
structure Use where
  now : Nat
  before : Guards
  after : Guards

def Use.deeds (u : Use) : List (Deed β) := [.read u.now, .used u.before u.after]

def Use.Does (c : Resilience) (chain : String) (f : Nat → Guard → α × Guard) (a : α) (u : Use) : Prop :=
  u.before.on c u.now chain (f u.now) = (a, u.after)

def Use.Looks (c : Resilience) (chain : String) (phase : Breaker.Phase) (u : Use) : Prop :=
  u.Does c chain (fun now => Guard.onBreaker (·.observe c.breaker now)) phase

def Use.Draws (c : Resilience) (chain : String) (given : Bool) (u : Use) : Prop :=
  u.Does c chain (fun now => Guard.onBucket (·.acquire now)) given

def Use.Enters (c : Resilience) (chain : String) (admitted : Bool) (u : Use) : Prop :=
  u.Does c chain (fun now => Guard.onBreaker (·.acquire c.breaker now)) admitted

def Use.Records (c : Resilience) (chain : String) (ok : Bool) (u : Use) : Prop :=
  u.Does c chain (fun now => Guard.onBreaker fun b => ((), b.record c.breaker now ok)) ()

private theorem Use.Does.tally {c : Resilience} {chain : String} {f : Nat → Guard → α × Guard} {a : α}
    {u : Use} (h : u.Does c chain f a) (kept : ∀ g, (f u.now g).2.breaker.tally = g.breaker.tally)
    (other : String) : u.after.tally other = u.before.tally other := by
  have hkept := Guards.tally_on kept c u.now chain u.before other
  rw [show u.before.on c u.now chain (f u.now) = (a, u.after) from h] at hkept
  exact hkept

section

variable [Clock (StateM σ)] (c : Resilience) (w : Surroundings σ) (chain : String) (s : σ)

private theorem on_use (f : Nat → Guard → α × Guard) :
    ∃ u : Use, u.Does c chain f (((watched (β := β) c w).on chain f).run s).result ∧
      (((watched (β := β) c w).on chain f).run s).deeds = u.deeds := by
  let moment := (Clock.now : StateM σ Nat) s
  let before := w.look moment.2
  exact ⟨⟨moment.1, before, (before.on c moment.1 chain (f moment.1)).2⟩, rfl, rfl⟩

private theorem phase_use :
    ∃ u : Use, u.Looks c chain (((watched (β := β) c w).phase chain).run s).result ∧
      (((watched (β := β) c w).phase chain).run s).deeds = u.deeds :=
  on_use c w chain s _

private theorem takeToken_use :
    ∃ u : Use, u.Draws c chain (((watched (β := β) c w).takeToken chain).run s).result ∧
      (((watched (β := β) c w).takeToken chain).run s).deeds = u.deeds :=
  on_use c w chain s _

private theorem enter_use :
    ∃ u : Use, u.Enters c chain (((watched (β := β) c w).enter chain).run s).result ∧
      (((watched (β := β) c w).enter chain).run s).deeds = u.deeds :=
  on_use c w chain s _

private theorem record_use (ok : Bool) :
    ∃ u : Use, u.Records c chain ok ∧ (((watched (β := β) c w).record chain ok).run s).deeds = u.deeds :=
  on_use c w chain s _

end

inductive Round (β : Type) where
  | barred (look : Use)
  | dry (look draw : Use)
  | unadmitted (look draw enter : Use)
  | made (look draw enter : Use) (outcome : Except RepositoryError β) (record : Use)

namespace Round

def deeds (chain method : String) : Round β → List (Deed β)
  | .barred look => look.deeds
  | .dry look draw => look.deeds ++ draw.deeds
  | .unadmitted look draw enter => look.deeds ++ draw.deeds ++ enter.deeds
  | .made look draw enter outcome record =>
    look.deeds ++ draw.deeds ++ enter.deeds ++
      ([.invoked outcome] ++ record.deeds ++ [.counted (.rpc chain method outcome.isOk)])

def outcome (chain : String) : Round β → Except RepositoryError β
  | .barred _ | .unadmitted _ _ _ => .error (.circuitOpen chain)
  | .dry _ _ => .error (.rateLimited chain)
  | .made _ _ _ outcome _ => outcome

/-- The uses of the guard are those of the round: the call is made when the breaker is not open, the
bucket has given a token and the breaker has admitted the call, and its outcome is recorded. -/
def Lawful (c : Resilience) (chain : String) : Round β → Prop
  | .barred look => look.Looks c chain .opened
  | .dry look draw => (∃ phase ≠ .opened, look.Looks c chain phase) ∧ draw.Draws c chain false
  | .unadmitted look draw enter =>
    (∃ phase ≠ .opened, look.Looks c chain phase) ∧ draw.Draws c chain true ∧ enter.Enters c chain false
  | .made look draw enter outcome record =>
    (∃ phase ≠ .opened, look.Looks c chain phase) ∧ draw.Draws c chain true ∧
      enter.Enters c chain true ∧ record.Records c chain outcome.isOk

/-- A round without a token leaves the counts of all breakers as they are. -/
theorem Lawful.dry_keeps {c : Resilience} {chain : String} {look draw : Use}
    (h : (Round.dry look draw : Round β).Lawful c chain) (other : String) :
    look.after.tally other = look.before.tally other ∧
      draw.after.tally other = draw.before.tally other := by
  obtain ⟨⟨phase, -, hlook⟩, hdraw⟩ := h
  refine ⟨Use.Does.tally hlook (fun g => ?_) other, Use.Does.tally hdraw (fun _ => rfl) other⟩
  exact Breaker.tally_refresh c.breaker look.now g.breaker

end Round

/-- A call in its surroundings, with its outcome written down under a form of it. -/
def invoking (form : α → β) (x : StateM σ (Except RepositoryError α)) :
    Journal (Deed β) σ (Except RepositoryError α) :=
  .watch (fun outcome => .invoked (outcome.map form)) x

@[simp] theorem run_invoking (form : α → β) (x : StateM σ (Except RepositoryError α)) (s : σ) :
    (invoking form x).run s = ⟨(x s).1, [.invoked ((x s).1.map form)], (x s).2⟩ := rfl

private theorem isOk_map (form : α → β) (r : Except RepositoryError α) : (r.map form).isOk = r.isOk := by
  cases r <;> rfl

/-- What a watched round writes down is the deeds of a lawful round. -/
theorem round_course [Clock (StateM σ)] (c : Resilience) (w : Surroundings σ) (chain method : String)
    (form : α → β) (x : StateM σ (Except RepositoryError α)) (s : σ) :
    ∃ r : Round β, r.Lawful c chain ∧
      (((watched c w).round chain method (invoking form x)).run s).deeds = r.deeds chain method ∧
      (((watched c w).round chain method (invoking form x)).run s).result.map form = r.outcome chain := by
  obtain ⟨look, hlook, hlooked⟩ := phase_use (β := β) c w chain s
  rw [round, Journal.run_bind]
  generalize ((watched c w).phase chain).run s = looked at hlook hlooked ⊢
  by_cases hopen : looked.result = .opened
  · rw [hopen] at hlook
    rw [if_pos hopen]
    exact ⟨.barred look, hlook, by simp [hlooked, Round.deeds], rfl⟩
  have hseen : ∃ phase ≠ .opened, look.Looks c chain phase := ⟨_, hopen, hlook⟩
  rw [if_neg hopen, Journal.run_bind]
  obtain ⟨draw, hdraw, hdrawn⟩ := takeToken_use (β := β) c w chain looked.after
  generalize ((watched c w).takeToken chain).run looked.after = drawn at hdraw hdrawn ⊢
  cases hgiven : drawn.result with
  | false =>
    rw [hgiven] at hdraw
    exact ⟨.dry look draw, ⟨hseen, hdraw⟩, by simp [hlooked, hdrawn, Round.deeds], rfl⟩
  | true =>
    rw [hgiven] at hdraw
    rw [if_neg (by simp), Journal.run_bind]
    obtain ⟨enter, henter, hentered⟩ := enter_use (β := β) c w chain drawn.after
    generalize ((watched c w).enter chain).run drawn.after = entered at henter hentered ⊢
    cases hadmitted : entered.result with
    | false =>
      rw [hadmitted] at henter
      exact ⟨.unadmitted look draw enter, ⟨hseen, hdraw, henter⟩,
        by simp [hlooked, hdrawn, hentered, Round.deeds], rfl⟩
    | true =>
      rw [hadmitted] at henter
      rw [if_neg (by simp), Journal.run_bind]
      obtain ⟨record, hrecord, hrecorded⟩ := record_use (β := β) c w chain
        (x entered.after).2 ((x entered.after).1.map form).isOk
      refine ⟨.made look draw enter ((x entered.after).1.map form) record,
        ⟨hseen, hdraw, henter, hrecord⟩, ?_, rfl⟩
      rw [isOk_map] at hrecorded
      simp [hlooked, hdrawn, hentered, hrecorded, Round.deeds, isOk_map]

end GuardPost

end ChainFeed

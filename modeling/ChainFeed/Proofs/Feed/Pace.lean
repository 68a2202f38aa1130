import ChainFeed.Proofs.Feed.Finishing
import Mathlib.Algebra.Order.Floor.Div

/-!
# The pace of a poller

After each cycle the loop of a poller ends, rests, or goes on at once. It goes on at once only if the
cursor has moved and is still short of the head, so what it does between two rests is bounded by the
blocks that are there, and a bounded poller rests once: when it has fetched its last block.
-/

namespace ChainFeed

namespace PollerConfig

variable {c : PollerConfig} {cursor : Option UInt64} {head last : UInt64} {r : BlockRange}

theorem lt_last_of_nextRange (next : c.nextRange cursor head = some r)
    (hcursor : cursor ≠ some 0xffffffffffffffff) : cursor < some r.last := by
  obtain ⟨hfirst, hle, -⟩ := nextRange_bounds next
  cases cursor with
  | none => simp
  | some block =>
    have hnext := toNat_nextBlock_some c block head (fun h => hcursor (congrArg some h))
    rw [hfirst, UInt64.le_iff_toNat_le, hnext] at hle
    simp only [Option.some_lt_some, UInt64.lt_iff_toNat_lt]
    omega

theorem start_ne (c : PollerConfig) : c.start ≠ some 0xffffffffffffffff := by
  unfold start
  cases c.fromBlock with
  | none => simp
  | some b =>
    by_cases hb : b = 0
    · simp [hb]
    · have hpos := UInt64.toNat_inj.not.mpr hb
      have hlt := b.toNat_lt
      simp only [hb, if_false, ne_eq, Option.some.injEq, ← UInt64.toNat_inj, UInt64.toNat_sub,
        UInt64.reduceToNat] at hpos ⊢
      omega

theorem left_start {first : UInt64} (hfrom : c.fromBlock = some first) (hle : first ≤ last) :
    c.left last c.start = last.toNat - first.toNat + 1 := by
  rw [UInt64.le_iff_toNat_le] at hle
  unfold start
  rw [hfrom]
  by_cases hb : first = 0
  · simp [hb, left, hfrom]
  · have hpos := UInt64.toNat_inj.not.mpr hb
    have hlt := first.toNat_lt
    simp only [hb, if_false, left, UInt64.toNat_sub, UInt64.reduceToNat] at hpos ⊢
    omega

theorem toNat_last_of_nextRange (next : c.nextRange cursor head = some r) :
    r.last.toNat = min (r.first.toNat + (max c.batch.toNat 1 - 1)) (c.target head).toNat := by
  unfold nextRange at next
  dsimp only at next
  split at next
  · cases next
  · cases next
    exact toNat_rangeEnd c _ _

theorem nextBlock_of_short (next : c.nextRange cursor head = some r) (short : r.last < c.target head)
    (other : UInt64) : c.nextBlock cursor other = r.first := by
  obtain ⟨hfirst, hle, -⟩ := nextRange_bounds next
  have hlt : r.first < head :=
    UInt64.lt_of_le_of_lt hle (UInt64.lt_of_lt_of_le short (target_le_head c head))
  cases cursor with
  | some block => exact hfirst.symm
  | none =>
    cases hfrom : c.fromBlock with
    | none =>
      have hsame : r.first = head := by simpa [nextBlock, hfrom] using hfirst
      exact absurd (hsame ▸ hlt) (UInt64.lt_irrefl _)
    | some b => simp [nextBlock, hfrom, hfirst]

def rounds (c : PollerConfig) (last : UInt64) (cursor : Option UInt64) : Nat :=
  c.left last cursor ⌈/⌉ max c.batch.toNat 1

theorem rounds_of_left_eq_zero (h : c.left last cursor = 0) : c.rounds last cursor = 0 := by
  simp [rounds, h]

theorem rounds_succ {after : Option UInt64} (hpos : 0 < c.left last cursor)
    (hafter : c.left last after = c.left last cursor - max c.batch.toNat 1) :
    c.rounds last after + 1 = c.rounds last cursor := by
  unfold rounds
  rw [hafter, Nat.ceilDiv_eq_add_pred_div, Nat.ceilDiv_eq_add_pred_div]
  generalize hbatch : max c.batch.toNat 1 = batch
  have hone : 0 < batch := by omega
  rw [Nat.div_eq_sub_div hone (a := c.left last cursor + batch - 1) (by omega)]
  congr 1
  by_cases hle : batch ≤ c.left last cursor
  · congr 1
    omega
  · rw [Nat.div_eq_of_lt (by omega), Nat.div_eq_of_lt (by omega)]

end PollerConfig

namespace Poller

variable {σ ι : Type}

namespace Course

variable {c : PollerConfig} {cursor after : Option UInt64} {deeds : List (Deed ι)}
  {outcome : Except PollError Cycle}

/-- The loop goes on at once only behind a range that ends short of the head. -/
theorem of_again (h : Course c cursor deeds outcome after) (next : Next.after outcome = .again) :
    ∃ head r, .asked (.ok head) ∈ deeds ∧ c.nextRange cursor head = some r ∧ r.last < c.target head ∧
      after = some r.last := by
  cases h with
  | finished | headless | idle | unfetched | rejected => cases next
  | accepted due head r hnext items =>
    refine ⟨head, r, by simp, hnext, ?_, rfl⟩
    by_cases hle : c.target head ≤ r.last
    · simp [hle, Next.after] at next
    · exact UInt64.not_le.mp hle

theorem after_ne (h : Course c cursor deeds outcome after)
    (heads : ∀ head, .asked (.ok head) ∈ deeds → head < 0xffffffffffffffff)
    (hcursor : cursor ≠ some 0xffffffffffffffff) : after ≠ some 0xffffffffffffffff := by
  cases h with
  | finished | headless | idle | unfetched | rejected => exact hcursor
  | accepted due head r next items =>
    obtain ⟨-, -, -, hlast, -⟩ := PollerConfig.nextRange_bounds next
    have hlt := UInt64.lt_of_le_of_lt hlast (heads head (by simp))
    simpa using UInt64.ne_of_lt hlt

theorem of_passed (h : Course c cursor deeds outcome after) {last : UInt64} (bounded : c.toBlock = some last)
    (begun : cursor = none → c.fromBlock = some 0) (ok : ∀ d ∈ deeds, d.isFailure = false)
    (passed : ∀ head, .asked (.ok head) ∈ deeds → last ≤ head) :
    (Next.after outcome = .stop ∧ deeds = [] ∧ c.left last cursor = 0) ∨
      (0 < c.left last cursor ∧ c.left last after = c.left last cursor - max c.batch.toNat 1 ∧
        deeds.countP Deed.isAcceptance = 1 ∧
        Next.after outcome = if c.left last after = 0 then .rest else .again) := by
  cases h with
  | finished done => exact .inl ⟨rfl, rfl, PollerConfig.left_of_isDone bounded done⟩
  | headless | unfetched | rejected => simp [Deed.isFailure] at ok
  | idle due head nothing =>
    have hpassed := passed head (by simp)
    obtain ⟨hcursor, hlt⟩ := (PollerConfig.nextRange_eq_none_iff bounded due hpassed).mp nothing
    rw [begun hcursor] at hlt
    exact absurd hlt UInt64.not_lt_zero
  | accepted due head r next items =>
    have htarget := PollerConfig.target_of_le bounded (passed head (by simp))
    obtain ⟨hfirst, hle, -⟩ := PollerConfig.nextRange_bounds next
    have hlast := PollerConfig.toNat_last_of_nextRange next
    rw [htarget] at hlast
    have hleft : c.left last cursor = last.toNat + 1 - r.first.toNat := by
      cases cursor with
      | none => simp [PollerConfig.left, hfirst, PollerConfig.nextBlock, begun]
      | some block =>
        have hlt := PollerConfig.lt_of_not_isDone bounded due
        rw [hfirst, PollerConfig.toNat_nextBlock_some_of_lt c head hlt]
        simp only [PollerConfig.left]
        omega
    have hafter : c.left last (some r.last) = last.toNat - r.last.toNat := rfl
    rw [UInt64.le_iff_toNat_le] at hle
    refine .inr ⟨by omega, by omega, by simp [List.countP_cons, Deed.isAcceptance], ?_⟩
    by_cases hdone : last ≤ r.last
    · have := UInt64.le_iff_toNat_le.mp hdone
      rw [if_pos (by omega)]
      simp [htarget, hdone, Next.after]
    · have := UInt64.le_iff_toNat_le.not.mp hdone
      rw [if_neg (by omega)]
      simp [htarget, hdone, Next.after]

end Course

/-- What a loop is seen to do: a call in a cycle, or a rest of so many milliseconds between two. -/
inductive Beat (ι : Type) where
  | call (d : Deed ι)
  | rest (duration : Nat)

namespace Beat

def isAcceptance : Beat ι → Bool
  | .call d => d.isAcceptance
  | .rest _ => false

def isRest : Beat ι → Bool
  | .call _ => false
  | .rest _ => true

end Beat

instance [Clock (StateM σ)] : Clock (Journal (Beat ι) σ) where
  now := .quiet Clock.now
  sleep duration := .watch (fun _ => .rest duration) (Clock.sleep duration)
  wall := .quiet Clock.wall
  unixTime := .quiet Clock.unixTime

/-- The same poller in the same surroundings, watched together with its rests. -/
def paced (p : Poller (StateM σ) ι) : Poller (Journal (Beat ι) σ) ι where
  config := p.config
  height chain tag := (p.watched.height chain tag).relabel .call
  fetch r := (p.watched.fetch r).relabel .call
  publish poller items := (p.watched.publish poller items).relabel .call
  count m := (p.watched.count m).relabel .call

theorem advance_paced (p : Poller (StateM σ) ι) (r : BlockRange) (target : UInt64)
    (cursor : Option UInt64) :
    p.paced.advance r target cursor = (p.watched.advance r target cursor).relabel .call := by
  unfold advance
  rw [Journal.relabel_bind]
  refine bind_congr fun items => ?_
  cases items with
  | error e => rfl
  | ok items =>
    dsimp only
    rw [Journal.relabel_bind]
    refine bind_congr fun reply => ?_
    cases reply with
    | error e => rfl
    | ok _ =>
      dsimp only
      rw [Journal.relabel_bind]
      rfl

theorem cycle_paced (p : Poller (StateM σ) ι) (cursor : Option UInt64) :
    p.paced.cycle cursor = (p.watched.cycle cursor).relabel .call := by
  unfold cycle
  change (if p.config.isDone cursor then _ else _) = Journal.relabel _ (if p.config.isDone cursor then _ else _)
  by_cases hdone : p.config.isDone cursor
  · rw [if_pos hdone, if_pos hdone]
    rfl
  · rw [if_neg hdone, if_neg hdone, Journal.relabel_bind]
    refine bind_congr fun answer => ?_
    cases answer with
    | error e => rfl
    | ok head =>
      have hpaced : p.paced.config = p.config := rfl
      have hwatched : p.watched.config = p.config := rfl
      dsimp only
      rw [hpaced, hwatched]
      cases p.config.nextRange cursor head with
      | none => rfl
      | some r => exact advance_paced p r _ cursor

/-- What a loop is told is not written down. A computation that it may drop meanwhile is done as at some
moment, or only a part of that. -/
structure Shutdown.Interrupts {δ : Type} (shutdown : Shutdown (Journal δ σ)) : Prop where
  requested (s : σ) : (shutdown.requested.run s).deeds = []
  during {α : Type} (a : Journal δ σ α) (s : σ) : ∃ s',
    (((shutdown.during a).run s).result = some (a.run s').result ∧
      ((shutdown.during a).run s).deeds = (a.run s').deeds) ∨
    (((shutdown.during a).run s).result = none ∧ ((shutdown.during a).run s).deeds <+: (a.run s').deeds)

/-- A cycle of the loop that came to its end, and whether there was a rest after it. -/
structure Lap (ι : Type) where
  account : Account ι
  rested : Bool

namespace Lap

def beats (interval : Nat) (l : Lap ι) : List (Beat ι) :=
  l.account.deeds.map .call ++ if l.rested then [.rest interval] else []

theorem countP_isAcceptance_beats (interval : Nat) (laps : List (Lap ι)) :
    (laps.flatMap (beats interval)).countP Beat.isAcceptance =
      (laps.map (·.account.deeds.countP Deed.isAcceptance)).sum := by
  induction laps with
  | nil => rfl
  | cons l laps ih =>
    rw [List.flatMap_cons, List.countP_append, ih]
    cases hrested : l.rested <;>
      simp [beats, hrested, Beat.isAcceptance, List.countP_map, Function.comp_def]

theorem filter_isRest_beats (interval : Nat) (laps : List (Lap ι)) :
    (laps.flatMap (beats interval)).filter Beat.isRest =
      List.replicate (laps.countP (·.rested)) (.rest interval) := by
  induction laps with
  | nil => rfl
  | cons l laps ih =>
    rw [List.flatMap_cons, List.filter_append, ih]
    cases hrested : l.rested <;>
      simp [beats, hrested, Beat.isRest, List.filter_map, List.filter_cons, Function.comp_def,
        List.replicate_succ]

end Lap

/-- What a loop can do from a cursor: its laps, how it ends, and what it does after the last lap. -/
inductive Laps (c : PollerConfig) :
    Nat → Option UInt64 → List (Lap ι) → Ending → List (Beat ι) → Prop
  | spent (cursor : Option UInt64) : Laps c 0 cursor [] .unfinished []
  | told (fuel : Nat) (cursor : Option UInt64) : Laps c (fuel + 1) cursor [] .stopped []
  /-- It was told to end during a cycle, of which only a part is done. -/
  | dropped (fuel : Nat) (cursor : Option UInt64) {deeds part : List (Deed ι)}
      {outcome : Except PollError Cycle} {after : Option UInt64}
      (whole : Course c cursor deeds outcome after) (done : part <+: deeds) :
      Laps c (fuel + 1) cursor [] .stopped (part.map .call)
  | finished (fuel : Nat) {a : Account ι} (course : Course c a.before a.deeds a.outcome a.after)
      (next : Next.after a.outcome = .stop) : Laps c (fuel + 1) a.before [⟨a, false⟩] .finished []
  | roused (fuel : Nat) {a : Account ι} {rest : List (Beat ι)}
      (course : Course c a.before a.deeds a.outcome a.after) (next : Next.after a.outcome = .rest)
      (done : rest <+: [.rest c.interval]) : Laps c (fuel + 1) a.before [⟨a, false⟩] .stopped rest
  | onward {fuel : Nat} {a : Account ι} (rested : Bool) {laps : List (Lap ι)} {ending : Ending}
      {tail : List (Beat ι)} (course : Course c a.before a.deeds a.outcome a.after)
      (next : Next.after a.outcome = if rested then .rest else .again)
      (later : Laps c fuel a.after laps ending tail) :
      Laps c (fuel + 1) a.before (⟨a, rested⟩ :: laps) ending tail

/-- How one lap leads to the next without a rest: it has fetched a range that ends short of the head. -/
def Lap.Leads (c : PollerConfig) (a b : Lap ι) : Prop :=
  a.rested = false → ∃ head r, .asked (.ok head) ∈ a.account.deeds ∧
    c.nextRange a.account.before head = some r ∧ r.last < c.target head ∧ b.account.before = some r.last

/-- Between two rests there is at most one lap for each block from where the first of them begins up to the
head. -/
theorem length_le_of_leads {c : PollerConfig} {stretch : List (Lap ι)} (hchain : stretch.IsChain (Lap.Leads c))
    (unrested : ∀ lap ∈ stretch.dropLast, lap.rested = false) {h : UInt64}
    (heads : ∀ lap ∈ stretch, ∀ head, .asked (.ok head) ∈ lap.account.deeds → head ≤ h) :
    ∀ first ∈ stretch.head?,
      stretch.length ≤ max 1 (h.toNat + 1 - (c.nextBlock first.account.before h).toNat) := by
  -- From lap to lap the next block moves up and stays below the head, so the numbers left bound the laps.
  induction stretch with
  | nil => simp
  | cons a stretch ih =>
    rintro _ ⟨⟩
    cases stretch with
    | nil => simp
    | cons b stretch =>
      obtain ⟨hlink, hrest⟩ := List.isChain_cons_cons.mp hchain
      simp only [List.dropLast_cons_cons, List.forall_mem_cons] at unrested
      obtain ⟨head, r, hhead, hnext, hshort, hbefore⟩ := hlink unrested.1
      have hle := ih hrest unrested.2 (fun lap hlap => heads lap (List.mem_cons_of_mem _ hlap)) b rfl
      rw [hbefore, PollerConfig.toNat_nextBlock_some_of_lt c h hshort] at hle
      rw [PollerConfig.nextBlock_of_short hnext hshort]
      have hfirst := UInt64.le_iff_toNat_le.mp (PollerConfig.nextRange_bounds hnext).2.1
      have hlast := UInt64.lt_iff_toNat_lt.mp
        (UInt64.lt_of_lt_of_le hshort (PollerConfig.target_le_head c head))
      have hhead := UInt64.le_iff_toNat_le.mp (heads a List.mem_cons_self head hhead)
      simp only [List.length_cons] at hle ⊢
      omega

namespace Laps

variable {c : PollerConfig} {fuel : Nat} {cursor : Option UInt64} {laps : List (Lap ι)} {ending : Ending}
  {tail : List (Beat ι)}

theorem length_of_unfinished (h : Laps c fuel cursor laps ending tail) (hending : ending = .unfinished) :
    laps.length = fuel := by
  induction h with
  | spent => rfl
  | told | dropped | finished | roused => cases hending
  | onward _ _ _ _ ih => simp [ih hending]

/-- The loop ends behind a lap, rests behind it, or has moved the cursor forward. -/
theorem ends_rests_or_advances (h : Laps c fuel cursor laps ending tail)
    (hcursor : cursor ≠ some 0xffffffffffffffff)
    (heads : ∀ lap ∈ laps, ∀ head, .asked (.ok head) ∈ lap.account.deeds → head < 0xffffffffffffffff)
    {lap : Lap ι} {rest : List (Lap ι)} (hlap : lap :: rest <:+ laps) :
    lap.rested = true ∨ lap.account.before < lap.account.after ∨ (rest = [] ∧ ending ≠ .unfinished) := by
  induction h with
  | spent | told | dropped => simp at hlap
  | finished | roused =>
    have hrest : lap :: rest = [_] := (List.suffix_cons_iff.mp hlap).resolve_right (by simp)
    exact .inr (.inr ⟨(List.cons.inj hrest).2, Ending.noConfusion⟩)
  | @onward _ a rested _ _ _ course next later ih =>
    obtain ⟨ha, hlater⟩ := List.forall_mem_cons.mp heads
    rcases List.suffix_cons_iff.mp hlap with heq | hlap
    · obtain ⟨rfl, -⟩ := List.cons.inj heq
      cases rested with
      | true => exact .inl rfl
      | false =>
        obtain ⟨head, r, -, hnext, -, hafter⟩ := course.of_again next
        refine .inr (.inl ?_)
        simpa only [hafter] using PollerConfig.lt_last_of_nextRange hnext hcursor
    · exact ih (course.after_ne ha hcursor) hlater hlap

theorem leads (h : Laps c fuel cursor laps ending tail) :
    (∀ lap ∈ laps.head?, lap.account.before = cursor) ∧ laps.IsChain (Lap.Leads c) := by
  induction h with
  | spent | told | dropped | finished | roused => simp
  | onward _ course next later ih =>
    refine ⟨by simp, List.isChain_cons.mpr ⟨fun b hb hrested => ?_, ih.2⟩⟩
    obtain rfl : _ = false := hrested
    obtain ⟨head, r, hhead, hnext, hshort, hafter⟩ := course.of_again next
    exact ⟨head, r, hhead, hnext, hshort, (ih.1 b hb).trans hafter⟩

theorem finishes (h : Laps c fuel cursor laps ending tail) {last : UInt64}
    (bounded : c.toBlock = some last) (begun : cursor = none → c.fromBlock = some 0)
    (ok : ∀ lap ∈ laps, ∀ d ∈ lap.account.deeds, d.isFailure = false)
    (passed : ∀ lap ∈ laps, ∀ head, .asked (.ok head) ∈ lap.account.deeds → last ≤ head)
    (free : ending ≠ .stopped) (enough : c.rounds last cursor < fuel) :
    ending = .finished ∧ tail = [] ∧
      (laps.map (·.account.deeds.countP Deed.isAcceptance)).sum = c.rounds last cursor ∧
      laps.countP (·.rested) = if c.left last cursor = 0 then 0 else 1 := by
  induction h with
  | spent => exact absurd enough (Nat.not_lt_zero _)
  | told | dropped | roused => exact absurd rfl free
  | finished _ course next =>
    rcases course.of_passed bounded begun (by simpa using ok) (by simpa using passed) with
      ⟨-, hdeeds, hleft⟩ | ⟨-, -, -, hnext⟩
    · simp [hdeeds, hleft, PollerConfig.rounds_of_left_eq_zero]
    · rw [next] at hnext
      split at hnext <;> cases hnext
  | @onward _ a rested _ _ _ course next later ih =>
    obtain ⟨hok, hoks⟩ := List.forall_mem_cons.mp ok
    obtain ⟨hpassed, hpasseds⟩ := List.forall_mem_cons.mp passed
    rcases course.of_passed bounded begun hok hpassed with ⟨hstop, -⟩ | ⟨hpos, hafter, haccepted, hnext⟩
    · rw [next] at hstop
      split at hstop <;> cases hstop
    · have hrounds := PollerConfig.rounds_succ hpos hafter
      have hrested : rested = true ↔ c.left last a.after = 0 := by
        rw [next] at hnext
        by_cases hzero : c.left last a.after = 0 <;> cases rested <;> simp [hzero] at hnext ⊢
      obtain ⟨hending, htail, hcount, hrests⟩ := ih (fun hnone => begun (course.began hnone)) hoks hpasseds
        free (by omega)
      refine ⟨hending, htail, ?_, ?_⟩
      · simp only [List.map_cons, List.sum_cons, haccepted, hcount]
        omega
      · rw [List.countP_cons, hrests, if_neg hpos.ne']
        by_cases hzero : c.left last a.after = 0 <;> simp [hrested, hzero]

end Laps

section

variable (p : Poller (StateM σ) ι) {shutdown : Shutdown (Journal (Beat ι) σ)} (law : shutdown.Interrupts)
include law

theorem during_cycle (cursor : Option UInt64) (s : σ) :
    ∃ a : Account ι, a.before = cursor ∧ Course p.config a.before a.deeds a.outcome a.after ∧
      ((((shutdown.during (p.paced.cycle cursor)).run s).result = some (a.outcome, a.after) ∧
        ((shutdown.during (p.paced.cycle cursor)).run s).deeds = a.deeds.map .call) ∨
      (((shutdown.during (p.paced.cycle cursor)).run s).result = none ∧ ∃ part, part <+: a.deeds ∧
        ((shutdown.during (p.paced.cycle cursor)).run s).deeds = part.map .call)) := by
  obtain ⟨s', hcycle⟩ := law.during (p.paced.cycle cursor) s
  rw [cycle_paced, Journal.run_relabel, ← cycle_paced] at hcycle
  refine ⟨⟨cursor, _, _, _⟩, rfl, cycle_course p cursor s', ?_⟩
  rcases hcycle with ⟨hresult, hdeeds⟩ | ⟨hresult, hpart⟩
  · exact .inl ⟨hresult, hdeeds⟩
  · obtain ⟨part, hpart, hwritten⟩ := List.prefix_map_iff.mp hpart
    exact .inr ⟨hresult, part, hpart, hwritten⟩

/-- What a watched loop does is something that a loop can do. -/
theorem run_laps [Clock (StateM σ)] (fuel : Nat) (cursor : Option UInt64) (s : σ) :
    ∃ laps tail,
      Laps p.config fuel cursor laps ((p.paced.run shutdown fuel cursor).run s).result tail ∧
      ((p.paced.run shutdown fuel cursor).run s).deeds =
        laps.flatMap (Lap.beats p.config.interval) ++ tail := by
  induction fuel generalizing cursor s with
  | zero => exact ⟨[], [], .spent cursor, rfl⟩
  | succ fuel ih =>
    rw [run, Journal.run_bind, law.requested, List.nil_append]
    generalize (shutdown.requested.run s).after = s₁
    cases (shutdown.requested.run s).result with
    | true => exact ⟨[], [], .told fuel cursor, rfl⟩
    | false =>
      simp only [Bool.false_eq_true, if_false, Journal.run_bind]
      obtain ⟨a, rfl, hcourse, hcycle⟩ := during_cycle p law cursor s₁
      generalize (shutdown.during (p.paced.cycle a.before)).run s₁ = page at hcycle ⊢
      obtain ⟨result, written, s₂⟩ := page
      dsimp only at hcycle ⊢
      -- The cycle came to its end, or it was dropped on its way.
      rcases hcycle with ⟨rfl, rfl⟩ | ⟨rfl, part, hpart, rfl⟩
      · dsimp only
        cases hnext : Next.after a.outcome with
        | stop =>
          refine ⟨_, _, .finished fuel hcourse hnext, ?_⟩
          simp [Lap.beats]
        | again =>
          obtain ⟨laps, tail, hlaps, hdeeds⟩ := ih a.after s₂
          refine ⟨_, tail, .onward false hcourse hnext hlaps, ?_⟩
          simp [Lap.beats, hdeeds]
        | rest =>
          obtain ⟨s', hrest⟩ := law.during (Clock.sleep p.paced.config.interval) s₂
          change _ ∧ _ = [Beat.rest p.config.interval] ∨ _ ∧ _ <+: [Beat.rest p.config.interval] at hrest
          dsimp only
          rw [Journal.run_bind]
          generalize (shutdown.during (Clock.sleep p.paced.config.interval)).run s₂ = pause at hrest ⊢
          obtain ⟨result, written, s₃⟩ := pause
          dsimp only at hrest ⊢
          rcases hrest with ⟨rfl, rfl⟩ | ⟨rfl, hpart⟩
          · obtain ⟨laps, tail, hlaps, hdeeds⟩ := ih a.after s₃
            refine ⟨_, tail, .onward true hcourse hnext hlaps, ?_⟩
            simp [Lap.beats, hdeeds]
          · refine ⟨_, written, .roused fuel hcourse hnext hpart, ?_⟩
            simp [Lap.beats]
      · exact ⟨[], part.map .call, .dropped fuel a.before hcourse hpart, by simp⟩

/-- The loop of a poller, in surroundings that answer in any way they like and may end it at any time. Its
laps are all its cycles but one that is dropped. As long as no head is the last number there is, behind each
lap the loop ends, or rests for the interval, or has moved the cursor forward. So with a head of `h` at most,
there are no more laps without a rest between them than blocks from where the first of them begins up to `h`
(one lap if there are no such blocks). When the poller is bounded, its last block is not before the first one,
the chain has always come to it, no call fails and nobody ends the loop, then the loop finishes by itself, has
accepted as many ranges as it takes, and has rested once. -/
theorem run_keeps_pace [Clock (StateM σ)] (fuel : Nat) (s : σ) :
    let page := (p.paced.run shutdown fuel p.config.start).run s
    ∃ laps tail, Laps p.config fuel p.config.start laps page.result tail ∧
      page.deeds = laps.flatMap (Lap.beats p.config.interval) ++ tail ∧
      (page.result = .unfinished → laps.length = fuel) ∧
      ((∀ head, .call (.asked (.ok head)) ∈ page.deeds → head < 0xffffffffffffffff) →
        ∀ lap rest, lap :: rest <:+ laps → lap.rested = true ∨ lap.account.before < lap.account.after ∨
          (rest = [] ∧ page.result ≠ .unfinished)) ∧
      (∀ stretch, stretch <:+: laps → (∀ lap ∈ stretch.dropLast, lap.rested = false) →
        ∀ h, (∀ lap ∈ stretch, ∀ head, .asked (.ok head) ∈ lap.account.deeds → head ≤ h) →
        ∀ first ∈ stretch.head?,
          stretch.length ≤ max 1 (h.toNat + 1 - (p.config.nextBlock first.account.before h).toNat)) ∧
      ∀ first last, p.config.fromBlock = some first → p.config.toBlock = some last → first ≤ last →
        (∀ head, .call (.asked (.ok head)) ∈ page.deeds → last ≤ head) →
        (∀ d, .call d ∈ page.deeds → d.isFailure = false) → page.result ≠ .stopped →
        (last.toNat - first.toNat + 1) ⌈/⌉ max p.config.batch.toNat 1 < fuel →
        page.result = .finished ∧
        page.deeds.countP Beat.isAcceptance =
          (last.toNat - first.toNat + 1) ⌈/⌉ max p.config.batch.toNat 1 ∧
        page.deeds.filter Beat.isRest = [.rest p.config.interval] := by
  intro page
  obtain ⟨laps, tail, hlaps, hdeeds⟩ := run_laps p law fuel p.config.start s
  have hmem : ∀ lap ∈ laps, ∀ d ∈ lap.account.deeds, .call d ∈ page.deeds := by
    intro lap hlap d hd
    rw [hdeeds]
    refine List.mem_append_left _ (List.mem_flatMap_of_mem hlap ?_)
    exact List.mem_append_left _ (List.mem_map_of_mem hd)
  refine ⟨laps, tail, hlaps, hdeeds, hlaps.length_of_unfinished, ?_, ?_, ?_⟩
  · intro heads lap rest hlap
    refine hlaps.ends_rests_or_advances ?_ (fun l hl head hhead => heads head (hmem l hl _ hhead)) hlap
    exact PollerConfig.start_ne p.config
  · intro stretch hstretch unrested h heads
    obtain ⟨earlier, later, rfl⟩ := hstretch
    exact length_le_of_leads hlaps.leads.2.left_of_append.right_of_append unrested heads
  · intro first last hfrom hto hle passed ok free enough
    have hleft := PollerConfig.left_start hfrom hle
    rw [← hleft] at enough ⊢
    have begun : p.config.start = none → p.config.fromBlock = some 0 := by
      intro hnone
      simpa [hfrom] using PollerConfig.start_eq_none_iff.mp hnone
    obtain ⟨hending, rfl, hcount, hrests⟩ := hlaps.finishes hto begun
      (fun l hl d hd => ok d (hmem l hl d hd)) (fun l hl head hhead => passed head (hmem l hl _ hhead))
      free enough
    rw [hdeeds, List.append_nil]
    refine ⟨hending, (Lap.countP_isAcceptance_beats _ laps).trans hcount, ?_⟩
    rw [Lap.filter_isRest_beats, hrests, if_neg (by omega)]
    rfl

end

def behind : Poller (StateM Nat) Unit where
  config := { fromBlock := some 10, toBlock := some 21, batch := 5 }
  height _ _ := fun n => (.ok 100, n + 1)
  fetch _ := fun n => (.ok [()], n + 1)
  publish _ _ := fun n => (.ok (), n + 1)
  count _ := fun n => ((), n)

def Shutdown.afterCalls {δ : Type} (calls : Nat) : Shutdown (Journal δ Nat) where
  requested := .quiet fun n => (decide (calls ≤ n), n)
  during a := ⟨fun n =>
    if (a.run n).after < calls then ⟨some (a.run n).result, (a.run n).deeds, (a.run n).after⟩
    else ⟨none, [], calls⟩⟩

theorem Shutdown.interrupts_afterCalls {δ : Type} (calls : Nat) :
    (afterCalls calls : Shutdown (Journal δ Nat)).Interrupts where
  requested _ := rfl
  during a n := by
    refine ⟨n, ?_⟩
    by_cases h : (a.run n).after < calls <;> simp [afterCalls, h]

@[reducible] private def unhurried : Clock (StateM Nat) where
  now := fun n => (n, n)
  sleep _ := fun n => ((), n)
  wall := fun n => (⟨1970, 1, 1, 0, 0⟩, n)
  unixTime := fun n => (0, n)

theorem behind_keeps_pace : letI := unhurried
    let page := (behind.paced.run (Shutdown.afterCalls 40) 5 behind.config.start).run 0
    (Shutdown.afterCalls 40 : Shutdown (Journal (Beat Unit) Nat)).Interrupts ∧
    (∀ head, .call (.asked (.ok head)) ∈ page.deeds → head = 100) ∧
    (∀ d, .call d ∈ page.deeds → d.isFailure = false) ∧ page.result ≠ .stopped ∧
    page.result = .finished ∧ page.deeds.countP Beat.isAcceptance = 3 ∧
    page.deeds.filter Beat.isRest = [.rest 5000] ∧
    ∃ laps tail, Laps behind.config 5 behind.config.start laps page.result tail ∧
      page.deeds = laps.flatMap (Lap.beats 5000) ++ tail ∧ ∀ lap rest, lap :: rest <:+ laps →
        lap.rested = true ∨ lap.account.before < lap.account.after ∨ rest = [] := by
  let _ := unhurried
  intro page
  have hlaw : (Shutdown.afterCalls 40 : Shutdown (Journal (Beat Unit) Nat)).Interrupts :=
    Shutdown.interrupts_afterCalls 40
  have hdeeds : page.deeds = [⟨10, 14⟩, ⟨15, 19⟩, ⟨20, 21⟩].flatMap (fun r =>
      [.call (.asked (.ok 100)), .call (.fetched r (.ok [()])),
        .call (.published "default" [()] (.ok ())), .call (.counted (.cycle "default" 1))]) ++
      [.rest 5000] := rfl
  have hheads : ∀ head, .call (.asked (.ok head)) ∈ page.deeds → head = 100 := by
    rw [hdeeds]
    simp
  have hok : ∀ d, .call d ∈ page.deeds → d.isFailure = false := by
    rw [hdeeds]
    simp [Deed.isFailure]
  obtain ⟨laps, tail, hlaps, hbeats, -, hadvance, -, hfinish⟩ := run_keeps_pace behind hlaw 5 0
  have hstopped : page.result ≠ .stopped := Ending.noConfusion
  obtain ⟨hresult, hcount, hrests⟩ := hfinish 10 21 rfl rfl (by decide)
    (fun head hhead => by rw [hheads head hhead]; decide) hok hstopped (by decide)
  refine ⟨hlaw, hheads, hok, hstopped, hresult, hcount.trans (by decide), hrests, laps, tail, hlaps,
    hbeats, ?_⟩
  intro lap rest hlap
  refine (hadvance (fun head hhead => ?_) lap rest hlap).imp_right (Or.imp_right And.left)
  rw [hheads head hhead]
  decide

end Poller

end ChainFeed

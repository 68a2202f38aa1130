import ChainFeed.Proofs.Feed.Cycles
import Mathlib.Data.List.Chain

/-!
# What a poller covers

However the head moves and whatever calls fail, the ranges that the sink of a poller accepts follow
one another without gap or overlap. The cursor carries this from cycle to cycle: the next range
begins right behind it, and only an acceptance moves it.
-/

namespace ChainFeed

namespace PollerConfig

theorem target_le_head (c : PollerConfig) (head : UInt64) : c.target head ≤ head := by
  unfold target
  split
  · split
    · assumption
    · exact UInt64.le_refl head
  · exact UInt64.le_refl head

private theorem target_le_last (c : PollerConfig) (head last : UInt64) (h : c.toBlock = some last) :
    c.target head ≤ last := by
  unfold target
  rw [h]
  dsimp only
  split
  · exact UInt64.le_refl last
  · next hlt => exact UInt64.le_of_lt (UInt64.not_le.mp hlt)

theorem toNat_rangeEnd (c : PollerConfig) (first target : UInt64) :
    (c.rangeEnd first target).toNat = min (first.toNat + (max c.batch.toNat 1 - 1)) target.toNat := by
  have ht := target.toNat_lt
  unfold rangeEnd
  rw [UInt64.toNat_ofNat']
  omega

theorem nextRange_bounds {c : PollerConfig} {cursor : Option UInt64} {head : UInt64} {r : BlockRange}
    (h : c.nextRange cursor head = some r) :
    r.first = c.nextBlock cursor head ∧ r.first ≤ r.last ∧ r.size ≤ max c.batch.toNat 1 ∧
      r.last ≤ head ∧ ∀ last, c.toBlock = some last → r.last ≤ last := by
  unfold nextRange at h
  dsimp only at h
  split at h
  · cases h
  · next hnot =>
    cases h
    have hle := UInt64.le_iff_toNat_le.mp (UInt64.not_lt.mp hnot)
    have hend := toNat_rangeEnd c (c.nextBlock cursor head) (c.target head)
    have htarget : c.rangeEnd (c.nextBlock cursor head) (c.target head) ≤ c.target head := by
      rw [UInt64.le_iff_toNat_le, hend]
      exact Nat.min_le_right _ _
    refine ⟨rfl, ?_, ?_, UInt64.le_trans htarget (target_le_head c head), ?_⟩
    · change c.nextBlock cursor head ≤ c.rangeEnd _ _
      rw [UInt64.le_iff_toNat_le, hend]
      omega
    · simp only [BlockRange.size, hend]
      omega
    · intro last hlast
      exact UInt64.le_trans htarget (target_le_last c head last hlast)

theorem isDone_none (c : PollerConfig) : c.isDone none = false := by
  unfold isDone
  cases c.toBlock <;> rfl

theorem nextBlock_start (c : PollerConfig) (head : UInt64) :
    c.nextBlock c.start head = c.fromBlock.getD head := by
  unfold nextBlock start
  cases hfrom : c.fromBlock with
  | none => rfl
  | some b =>
    by_cases hb : b = 0 <;> simp [hb]

theorem toNat_nextBlock_some (c : PollerConfig) (block head : UInt64)
    (h : block ≠ 0xffffffffffffffff) : (c.nextBlock (some block) head).toNat = block.toNat + 1 := by
  have hlt := block.toNat_lt
  have hne : block.toNat ≠ 0xffffffffffffffff := fun he => h (UInt64.toNat_inj.mp he)
  simp only [nextBlock, UInt64.toNat_add, UInt64.reduceToNat]
  omega

end PollerConfig

namespace BlockRange

/-- Ranges each of which begins right behind the one before hold consecutive numbers. -/
theorem numbers_consecutive (rs : List BlockRange) (hne : ∀ r ∈ rs, r.first ≤ r.last)
    (hchain : rs.IsChain fun r r' => r'.first.toNat = r.last.toNat + 1) :
    ∃ count, rs.flatMap numbers = List.range' ((rs.head?.map (·.first.toNat)).getD 0) count := by
  induction rs with
  | nil => exact ⟨0, rfl⟩
  | cons r rs ih =>
    obtain ⟨hnext, hrest⟩ := List.isChain_cons.mp hchain
    obtain ⟨count, hcount⟩ := ih (fun r' hr' => hne r' (List.mem_cons_of_mem r hr')) hrest
    have hle := UInt64.le_iff_toNat_le.mp (hne r List.mem_cons_self)
    cases rs with
    | nil => exact ⟨r.size, by simp [numbers]⟩
    | cons r' rs =>
      have hfirst : r'.first.toNat = r.first.toNat + r.size := by
        have := hnext r' rfl
        simp only [size]
        omega
      refine ⟨r.size + count, ?_⟩
      rw [List.flatMap_cons, hcount]
      simp only [List.head?_cons, Option.map_some, Option.getD_some, numbers, hfirst]
      exact List.range'_append_1

end BlockRange

namespace Poller

variable {σ ι : Type}

/-- What was seen of a cycle: the cursor before it, the calls, the outcome, the cursor after it. -/
structure Account (ι : Type) where
  before : Option UInt64
  deeds : List (Deed ι)
  outcome : Except PollError Cycle
  after : Option UInt64

def Account.head? (a : Account ι) : Option UInt64 := a.deeds.findSome? Deed.head?

def Account.acceptance? (a : Account ι) : Option (UInt64 × BlockRange) :=
  if a.deeds.any Deed.isAcceptance then
    (a.deeds.findSome? Deed.head?).bind fun head =>
      (a.deeds.findSome? Deed.range?).map fun r => (head, r)
  else none

/-- The accounts of so many cycles, one after the other. -/
def accounts (p : Poller (StateM σ) ι) : Nat → Option UInt64 → σ → List (Account ι)
  | 0, _, _ => []
  | cycles + 1, cursor, s =>
    let page := (p.watched.cycle cursor).run s
    ⟨cursor, page.deeds, page.result.1, page.result.2⟩ :: accounts p cycles page.result.2 page.after

theorem accounts_course (p : Poller (StateM σ) ι) (cycles : Nat) (cursor : Option UInt64)
    (s : σ) : ∀ a ∈ p.accounts cycles cursor s, Course p.config a.before a.deeds a.outcome a.after := by
  induction cycles generalizing cursor s with
  | zero => simp [accounts]
  | succ cycles ih =>
    intro a ha
    rcases List.mem_cons.mp ha with rfl | ha
    · exact cycle_course p cursor s
    · exact ih _ _ a ha

namespace Course

variable {c : PollerConfig} {cursor after : Option UInt64} {deeds : List (Deed ι)}
  {outcome : Except PollError Cycle}

private theorem asks_nonempty (h : Course c cursor deeds outcome after) (r : BlockRange)
    (hr : r ∈ deeds.filterMap Deed.range?) : r.isEmpty = false := by
  have hbounds {head : UInt64} (hnext : c.nextRange cursor head = some r) : r.isEmpty = false :=
    decide_eq_false (UInt64.not_lt.mpr (PollerConfig.nextRange_bounds hnext).2.1)
  cases h with
  | finished | headless | idle => simp [Deed.range?] at hr
  | unfetched _ _ r' hnext | rejected _ _ r' hnext | accepted _ _ r' hnext =>
    have heq : r' = r := by simpa [Deed.range?] using hr
    exact hbounds (heq ▸ hnext)

private theorem failure_keeps (h : Course c cursor deeds outcome after)
    (hfail : deeds.any Deed.isFailure = true) :
    after = cursor ∧ deeds.any Deed.isCount = false := by
  cases h with
  | headless | unfetched | rejected => exact ⟨rfl, by simp [Deed.isCount]⟩
  | finished | idle | accepted => simp [Deed.isFailure] at hfail

theorem acceptance_some {a : Account ι} (h : Course c a.before a.deeds a.outcome a.after)
    {t : UInt64 × BlockRange} (ht : a.acceptance? = some t) :
    c.nextRange a.before t.1 = some t.2 ∧ a.after = some t.2.last := by
  obtain ⟨before, deeds, outcome, after⟩ := a
  cases h with
  | finished | headless | idle | unfetched | rejected =>
    simp [Account.acceptance?, Deed.isAcceptance] at ht
  | accepted _ head r hnext =>
    cases (show some (head, r) = some t from ht)
    exact ⟨hnext, rfl⟩

theorem acceptance_none {a : Account ι} (h : Course c a.before a.deeds a.outcome a.after)
    (ht : a.acceptance? = none) : a.after = a.before ∧ a.deeds.any Deed.isAcceptance = false := by
  obtain ⟨before, deeds, outcome, after⟩ := a
  cases h with
  | finished | headless | idle | unfetched | rejected => exact ⟨rfl, by simp [Deed.isAcceptance]⟩
  | accepted _ head r => cases (show some (head, r) = none from ht)

end Course

/-- From a cursor on, the first accepted range begins at the next block of its cycle, and every later
one right behind the one before. -/
theorem acceptances_follow (p : Poller (StateM σ) ι) (cycles : Nat) (cursor : Option UInt64)
    (s : σ) (hcursor : ∀ a ∈ p.accounts cycles cursor s, a.before ≠ some 0xffffffffffffffff) :
    (∀ t ∈ ((p.accounts cycles cursor s).filterMap Account.acceptance?).head?,
      t.2.first = p.config.nextBlock cursor t.1) ∧
    ((p.accounts cycles cursor s).filterMap Account.acceptance?).IsChain
      fun t u => u.2.first.toNat = t.2.last.toNat + 1 := by
  induction cycles generalizing cursor s with
  | zero => simp [accounts]
  | succ cycles ih =>
    rw [accounts] at hcursor ⊢
    generalize hpage : (p.watched.cycle cursor).run s = page at hcursor ⊢
    have hcourse : Course p.config cursor page.deeds page.result.1 page.result.2 :=
      hpage ▸ cycle_course p cursor s
    obtain ⟨hfirst, hchain⟩ := ih page.result.2 page.after
      fun a ha => hcursor a (List.mem_cons_of_mem _ ha)
    cases htaken : Account.acceptance? ⟨cursor, page.deeds, page.result.1, page.result.2⟩ with
    | none =>
      have hkeep : page.result.2 = cursor := (hcourse.acceptance_none htaken).1
      rw [List.filterMap_cons_none htaken, hkeep]
      rw [hkeep] at hfirst hchain
      exact ⟨hfirst, hchain⟩
    | some t =>
      obtain ⟨hnext, hlast⟩ := hcourse.acceptance_some htaken
      rw [List.filterMap_cons_some htaken]
      refine ⟨?_, List.isChain_cons.mpr ⟨?_, hchain⟩⟩
      · intro u hu
        cases hu
        exact (PollerConfig.nextRange_bounds hnext).1
      · intro u hu
        have hstep := hfirst u hu
        change page.result.2 = some t.2.last at hlast
        rw [hlast] at hstep hu hcursor
        -- The next cycle begins with this cursor, so it can be counted up.
        have hne : t.2.last ≠ 0xffffffffffffffff := by
          intro he
          cases cycles with
          | zero => simp [accounts] at hu
          | succ cycles =>
            exact hcursor _ (List.mem_cons_of_mem _ (by rw [accounts]; exact List.mem_cons_self))
              (congrArg some he)
        rw [hstep]
        exact PollerConfig.toNat_nextBlock_some p.config t.2.last u.1 hne

/-- Over any run of cycles, in surroundings that answer in any way they like, as long as no cycle
begins with the last number there is for a cursor: only nonempty ranges are asked for; the accepted
ranges begin at the configured block, or at the head of the cycle that accepts the first one, and
follow one another without gap or overlap; each is as large as configured at most and ends neither
behind the head of its cycle nor behind the configured end; the cursor is at the end of an accepted
range, and a cycle in which nothing is accepted moves it no more than it counts something. -/
theorem accepts_consecutive_ranges (p : Poller (StateM σ) ι) (cycles : Nat) (s : σ)
    (hcursor : ∀ a ∈ p.accounts cycles p.config.start s, a.before ≠ some 0xffffffffffffffff) :
    let accounts := p.accounts cycles p.config.start s
    let taken := accounts.filterMap Account.acceptance?
    (∀ a ∈ accounts, ∀ r ∈ a.deeds.filterMap Deed.range?, r.isEmpty = false) ∧
    (∀ t ∈ taken.head?, t.2.first = p.config.fromBlock.getD t.1) ∧
    taken.IsChain (fun t u => u.2.first.toNat = t.2.last.toNat + 1) ∧
    (∃ first count, taken.flatMap (·.2.numbers) = List.range' first count) ∧
    (∀ t ∈ taken, t.2.size ≤ max p.config.batch.toNat 1 ∧ t.2.last ≤ t.1 ∧
      ∀ last, p.config.toBlock = some last → t.2.last ≤ last) ∧
    (∀ a ∈ accounts, a.deeds.any Deed.isAcceptance = true →
      ∃ t, a.acceptance? = some t ∧ a.after = some t.2.last) ∧
    (∀ a ∈ accounts, a.deeds.any Deed.isFailure = true →
      a.after = a.before ∧ a.deeds.any Deed.isCount = false) := by
  intro accounts taken
  have hcourse := accounts_course p cycles p.config.start s
  obtain ⟨hfirst, hchain⟩ := acceptances_follow p cycles p.config.start s hcursor
  have htaken : ∀ t ∈ taken, ∃ cursor, p.config.nextRange cursor t.1 = some t.2 := by
    intro t ht
    obtain ⟨a, ha, hat⟩ := List.mem_filterMap.mp ht
    exact ⟨a.before, ((hcourse a ha).acceptance_some hat).1⟩
  refine ⟨?_, ?_, hchain, ?_, ?_, ?_, ?_⟩
  · intro a ha r hr
    exact (hcourse a ha).asks_nonempty r hr
  · intro t ht
    rw [hfirst t ht]
    exact PollerConfig.nextBlock_start p.config t.1
  · have hranges : (taken.map (·.2)).IsChain fun r r' => r'.first.toNat = r.last.toNat + 1 :=
      (List.isChain_map _).mpr hchain
    have hne : ∀ r ∈ taken.map (·.2), r.first ≤ r.last := by
      intro r hr
      obtain ⟨t, ht, rfl⟩ := List.mem_map.mp hr
      obtain ⟨cursor, hnext⟩ := htaken t ht
      exact (PollerConfig.nextRange_bounds hnext).2.1
    obtain ⟨count, hcount⟩ := BlockRange.numbers_consecutive (taken.map (·.2)) hne hranges
    exact ⟨_, count, by rw [← hcount, List.flatMap_map]⟩
  · intro t ht
    obtain ⟨cursor, hnext⟩ := htaken t ht
    exact (PollerConfig.nextRange_bounds hnext).2.2
  · intro a ha haccept
    cases hat : a.acceptance? with
    | none => simp [((hcourse a ha).acceptance_none hat).2] at haccept
    | some t => exact ⟨t, rfl, ((hcourse a ha).acceptance_some hat).2⟩
  · intro a ha hfail
    exact (hcourse a ha).failure_keeps hfail

def unsteady : Poller (StateM Nat) Unit where
  config := { fromBlock := some 10, toBlock := some 13, batch := 3 }
  height chain _ := fun n =>
    match n with
    | 0 => (.ok 12, 1)
    | 1 => (.ok 9, 2)
    | 2 => (.error (.unknownChain chain), 3)
    | 3 => (.ok 11, 4)
    | n => (.ok 20, n + 1)
  fetch _ := fun n => (.ok [()], n)
  publish _ _ := fun n => (if n = 1 then .error (.sink "full") else .ok (), n)
  count _ := fun n => ((), n)

theorem unsteady_accepts_consecutive_ranges :
    (∀ a ∈ unsteady.accounts 7 unsteady.config.start 0, a.before ≠ some 0xffffffffffffffff) ∧
    (unsteady.accounts 7 unsteady.config.start 0).filterMap Account.acceptance? =
      [(11, ⟨10, 11⟩), (20, ⟨12, 13⟩)] ∧
    ∃ first count, ((unsteady.accounts 7 unsteady.config.start 0).filterMap
      Account.acceptance?).flatMap (·.2.numbers) = List.range' first count :=
  ⟨by decide, by decide, (accepts_consecutive_ranges unsteady 7 0 (by decide)).2.2.2.1⟩

end Poller

end ChainFeed

import ChainFeed.Proofs.Feed.Coverage

/-!
# Where open pollers start

A poller with neither a first nor a last block starts at the head of the cycle whose range is accepted first. The
heads that it saw before are not kept: a cycle that fails leaves no cursor, and the next one asks for its own
head alone. What the chain gained in between is in no range.
-/

namespace ChainFeed

theorem PollerConfig.nextRange_head {c : PollerConfig} (unset : c.fromBlock = none)
    (unbounded : c.toBlock = none) (head : UInt64) : c.nextRange none head = some ⟨head, head⟩ := by
  have hend : c.rangeEnd head head = head := by
    unfold rangeEnd
    dsimp only
    rw [Nat.min_eq_right (Nat.le_add_right _ _), UInt64.ofNat_toNat]
  have htarget : c.target head = head := by
    unfold target
    rw [unbounded]
  unfold nextRange
  simp [nextBlock, unset, htarget, hend]

namespace Poller

variable {σ ι : Type}

section

variable {c : PollerConfig} (unset : c.fromBlock = none) (unbounded : c.toBlock = none)
include unset unbounded

/-- What a cycle can do before anything was fetched: it sees no head, or it fails to fetch the head and
forgets it, or the head is accepted. -/
theorem Course.opening {a : Account ι} (h : Course c a.before a.deeds a.outcome a.after)
    (fresh : a.before = none) :
    (a.head? = none ∧ a.acceptance? = none ∧ a.after = none) ∨
      ∃ head, a.head? = some head ∧ a.deeds.filterMap Deed.range? = [⟨head, head⟩] ∧
        ((a.outcome.isOk = false ∧ a.acceptance? = none ∧ a.after = none) ∨
          a.acceptance? = some (head, ⟨head, head⟩)) := by
  obtain ⟨before, deeds, outcome, after⟩ := a
  obtain rfl : before = none := fresh
  cases h with
  | finished done => cases (PollerConfig.isDone_none c).symm.trans done
  | headless => exact .inl ⟨rfl, rfl, rfl⟩
  | idle _ head nothing =>
    rw [PollerConfig.nextRange_head unset unbounded] at nothing
    cases nothing
  | unfetched _ head r next | rejected _ head r next =>
    cases (PollerConfig.nextRange_head unset unbounded head).symm.trans next
    exact .inr ⟨head, rfl, rfl, .inl ⟨rfl, rfl, rfl⟩⟩
  | accepted _ head r next =>
    cases (PollerConfig.nextRange_head unset unbounded head).symm.trans next
    exact .inr ⟨head, rfl, rfl, .inr rfl⟩

end

/-- The first range that is accepted is the head of its cycle; it is the first head of all if that
cycle did not fail. -/
theorem accounts_opening (p : Poller (StateM σ) ι) (unset : p.config.fromBlock = none)
    (unbounded : p.config.toBlock = none) (cycles : Nat) (s : σ) :
    ∀ t ∈ ((p.accounts cycles none s).filterMap Account.acceptance?).head?,
      t.2 = ⟨t.1, t.1⟩ ∧ t.1 ∈ (p.accounts cycles none s).filterMap Account.head? ∧
      ((∀ a ∈ (p.accounts cycles none s).find? (·.head?.isSome), a.outcome.isOk = true) →
        ((p.accounts cycles none s).filterMap Account.head?).head? = some t.1) := by
  -- A cycle that accepts nothing leaves no cursor, so what comes after it is an opening again.
  induction cycles generalizing s with
  | zero => simp [accounts]
  | succ cycles ih =>
    intro t ht
    rw [accounts] at ht ⊢
    generalize hpage : (p.watched.cycle none).run s = page at ht ⊢
    have hcourse : Course p.config none page.deeds page.result.1 page.result.2 := hpage ▸ cycle_course p none s
    rcases hcourse.opening (a := ⟨none, page.deeds, page.result.1, page.result.2⟩) unset unbounded rfl with
      ⟨hhead, htaken, hafter⟩ | ⟨head, hhead, -, ⟨hfailed, htaken, hafter⟩ | htaken⟩
    · rw [List.filterMap_cons_none htaken, show page.result.2 = none from hafter] at ht
      obtain ⟨hrange, hmem, hfirst⟩ := ih page.after t ht
      rw [List.filterMap_cons_none hhead, List.find?_cons_of_neg (by simp [hhead]),
        show page.result.2 = none from hafter]
      exact ⟨hrange, hmem, hfirst⟩
    · rw [List.filterMap_cons_none htaken, show page.result.2 = none from hafter] at ht
      obtain ⟨hrange, hmem, -⟩ := ih page.after t ht
      rw [List.filterMap_cons_some hhead, List.find?_cons_of_pos (by simp [hhead]),
        show page.result.2 = none from hafter]
      refine ⟨hrange, List.mem_cons_of_mem head hmem, fun hok => ?_⟩
      rw [hok _ rfl] at hfailed
      cases hfailed
    · rw [List.filterMap_cons_some htaken] at ht
      cases ht
      rw [List.filterMap_cons_some hhead]
      exact ⟨rfl, List.mem_cons_self, fun _ => rfl⟩

theorem not_mem_accepted (p : Poller (StateM σ) ι) (cycles : Nat) (s : σ)
    (hcursor : ∀ a ∈ p.accounts cycles p.config.start s, a.before ≠ some 0xffffffffffffffff) :
    let taken := (p.accounts cycles p.config.start s).filterMap Account.acceptance?
    ∀ t ∈ taken.head?, ∀ n < t.2.first.toNat, n ∉ taken.flatMap (·.2.numbers) := by
  intro taken t ht n hn hmem
  have hchain := (acceptances_follow p cycles p.config.start s hcursor).2
  have hranges : (taken.map (·.2)).IsChain fun r r' => r'.first.toNat = r.last.toNat + 1 :=
    (List.isChain_map _).mpr hchain
  have hne : ∀ r ∈ taken.map (·.2), r.first ≤ r.last := by
    intro r hr
    obtain ⟨u, hu, rfl⟩ := List.mem_map.mp hr
    obtain ⟨a, ha, hau⟩ := List.mem_filterMap.mp hu
    have hcourse := accounts_course p cycles p.config.start s a ha
    exact (PollerConfig.nextRange_bounds (hcourse.acceptance_some hau).1).2.1
  obtain ⟨count, hcount⟩ := BlockRange.numbers_consecutive (taken.map (·.2)) hne hranges
  rw [← List.flatMap_map, hcount, List.head?_map, ht] at hmem
  exact Nat.not_le_of_lt hn (List.mem_range'_1.mp hmem).1

/-- A poller with neither a first nor a last block in surroundings that answer in any way they like. Before
anything was accepted, a cycle asks for the head that it sees and nothing else, and fails if that is not
accepted. The first range that is accepted is such a head, not the first one that was seen: it is not before
that one if heads do not go down, and it is that one if its cycle did not fail. Below it nothing is accepted, then
or later. -/
theorem first_range_is_head (p : Poller (StateM σ) ι) (unset : p.config.fromBlock = none)
    (unbounded : p.config.toBlock = none) (cycles : Nat) (s : σ) :
    let accounts := p.accounts cycles p.config.start s
    let heads := accounts.filterMap Account.head?
    let taken := accounts.filterMap Account.acceptance?
    (∀ a ∈ accounts, a.before = none → ∀ head ∈ a.head?,
      a.deeds.filterMap Deed.range? = [⟨head, head⟩] ∧ (a.acceptance? = none → a.outcome.isOk = false)) ∧
    ∀ t ∈ taken.head?,
      t.2 = ⟨t.1, t.1⟩ ∧ t.1 ∈ heads ∧
      (heads.Pairwise (· ≤ ·) → ∀ first ∈ heads.head?, first ≤ t.2.first) ∧
      ((∀ a ∈ accounts.find? (·.head?.isSome), a.outcome.isOk = true) → heads.head? = some t.2.first) ∧
      ((∀ a ∈ accounts, a.before ≠ some 0xffffffffffffffff) →
        ∀ n < t.2.first.toNat, n ∉ taken.flatMap (·.2.numbers)) := by
  have hstart : p.config.start = none := by
    unfold PollerConfig.start
    rw [unset]
  intro accounts heads taken
  have hcourse := accounts_course p cycles p.config.start s
  refine ⟨?_, ?_⟩
  · intro a ha hbefore head hhead
    rcases (hcourse a ha).opening unset unbounded hbefore with
      ⟨hblind, -⟩ | ⟨seen, hseen, hranges, hend⟩
    · rw [hblind] at hhead
      cases hhead
    · cases hseen.symm.trans hhead
      refine ⟨hranges, fun hnone => ?_⟩
      rcases hend with ⟨hfailed, -⟩ | htaken
      · exact hfailed
      · cases hnone.symm.trans htaken
  · intro t ht
    have hopening := accounts_opening p unset unbounded cycles s t
    rw [← hstart] at hopening
    obtain ⟨hrange, (hmem : t.1 ∈ heads), hfirst⟩ := hopening ht
    have hbegin : t.2.first = t.1 := by rw [hrange]
    rw [hbegin]
    refine ⟨hrange, hmem, ?_, hfirst, ?_⟩
    · intro hsorted first hhead
      obtain ⟨rest, hheads⟩ := List.head?_eq_some_iff.mp hhead
      rw [hheads] at hsorted hmem
      rcases List.mem_cons.mp hmem with heq | hrest
      · exact heq ▸ UInt64.le_refl t.1
      · exact List.rel_of_pairwise_cons hsorted hrest
    · intro hcursor n hn
      exact not_mem_accepted p cycles s hcursor t ht n (hbegin ▸ hn)

def tripped : Poller (StateM Nat) Unit where
  config := {}
  height _ _ := fun n => (.ok (10 + 2 * UInt64.ofNat n), n + 1)
  fetch _ := fun n => (.ok [()], n)
  publish _ _ := fun n => (if n = 1 then .error (.sink "down") else .ok (), n)
  count _ := fun n => ((), n)

theorem tripped_first_range_is_head :
    tripped.config.fromBlock = none ∧ tripped.config.toBlock = none ∧
    (∀ a ∈ tripped.accounts 3 tripped.config.start 0, a.before ≠ some 0xffffffffffffffff) ∧
    (tripped.accounts 3 tripped.config.start 0).filterMap Account.head? = [10, 12, 14] ∧
    (tripped.accounts 3 tripped.config.start 0).filterMap Account.acceptance? =
      [(12, ⟨12, 12⟩), (14, ⟨13, 14⟩)] ∧
    (∀ n < 12, n ∉ ((tripped.accounts 3 tripped.config.start 0).filterMap Account.acceptance?).flatMap
      (·.2.numbers)) ∧
    ((tripped.accounts 3 tripped.config.start 1).filterMap Account.head?).head? = some 12 := by
  have hcursor : ∀ a ∈ tripped.accounts 3 tripped.config.start 0,
      a.before ≠ some 0xffffffffffffffff := by decide
  have hlost := ((first_range_is_head tripped rfl rfl 3 0).2 (12, ⟨12, 12⟩) (by decide)).2.2.2.2
  have hkept := ((first_range_is_head tripped rfl rfl 3 1).2 (12, ⟨12, 12⟩) (by decide)).2.2.2.1
  exact ⟨rfl, rfl, hcursor, by decide, by decide, hlost hcursor, hkept (by decide)⟩

/-- The first range that is accepted begins at the first head that was seen, if heads do not go down. -/
def StartsAtFirstHead (p : Poller (StateM σ) ι) : Prop :=
  ∀ cycles s,
    let accounts := p.accounts cycles p.config.start s
    (accounts.filterMap Account.head?).Pairwise (· ≤ ·) →
      ∀ t ∈ (accounts.filterMap Account.acceptance?).head?,
        (accounts.filterMap Account.head?).head? = some t.2.first

theorem tripped_starts_late :
    tripped.config.fromBlock = none ∧ tripped.config.toBlock = none ∧ ¬ StartsAtFirstHead tripped := by
  refine ⟨rfl, rfl, fun starts => ?_⟩
  exact absurd (starts 2 0 (by decide) (12, ⟨12, 12⟩) (by decide)) (by decide)

end Poller

end ChainFeed

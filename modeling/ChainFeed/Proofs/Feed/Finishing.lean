import ChainFeed.Proofs.Feed.Coverage

/-!
# How bounded pollers finish

A poller that shall stop at some block fetches up to it and is then finished. Once the chain has come to
that block, a cycle never idles, but for one case: a poller without a first block begins at the head, and
when the head is past the last block already there is nothing between them, and it goes on idling.
-/

namespace ChainFeed

namespace PollerConfig

variable {c : PollerConfig} {cursor : Option UInt64} {head last : UInt64}

/-- How many blocks are left to fetch, up to `last`; a poller without a first block begins there. -/
def left (c : PollerConfig) (last : UInt64) : Option UInt64 → Nat
  | some block => last.toNat - block.toNat
  | none => last.toNat + 1 - (c.fromBlock.getD last).toNat

theorem start_eq_none_iff : c.start = none ↔ c.fromBlock = none ∨ c.fromBlock = some 0 := by
  unfold start
  cases c.fromBlock with
  | none => simp
  | some b => by_cases hb : b = 0 <;> simp [hb]

theorem toNat_nextBlock_some_of_lt (c : PollerConfig) {block last : UInt64} (head : UInt64)
    (h : block < last) : (c.nextBlock (some block) head).toNat = block.toNat + 1 := by
  refine toNat_nextBlock_some c block head ?_
  rintro rfl
  have hlt := UInt64.lt_iff_toNat_lt.mp h
  have hbound := last.toNat_lt
  simp only [UInt64.reduceToNat] at hlt
  omega

section

variable (bounded : c.toBlock = some last)
include bounded

theorem lt_of_not_isDone {block : UInt64} (due : c.isDone (some block) = false) : block < last := by
  unfold isDone at due
  rw [bounded] at due
  exact UInt64.not_le.mp (of_decide_eq_false due)

theorem left_of_isDone (done : c.isDone cursor = true) : c.left last cursor = 0 := by
  unfold isDone at done
  rw [bounded] at done
  cases cursor with
  | none => cases done
  | some block => exact Nat.sub_eq_zero_of_le (UInt64.le_iff_toNat_le.mp (of_decide_eq_true done))

theorem target_of_le (passed : last ≤ head) : c.target head = last := by
  unfold target
  rw [bounded]
  exact if_pos passed

theorem nextRange_eq_none_iff (due : c.isDone cursor = false) (passed : last ≤ head) :
    c.nextRange cursor head = none ↔ cursor = none ∧ last < c.fromBlock.getD head := by
  have hnone : c.nextRange cursor head = none ↔ last < c.nextBlock cursor head := by
    unfold nextRange
    simp [target_of_le bounded passed]
  rw [hnone]
  cases cursor with
  | none => simp [nextBlock]
  | some block =>
    have hlt := lt_of_not_isDone bounded due
    have hnext := toNat_nextBlock_some_of_lt c head hlt
    simp only [UInt64.lt_iff_toNat_lt, hnext, reduceCtorEq, false_and, iff_false] at hlt ⊢
    omega

/-- Whatever range is next, fewer blocks are left after it. -/
theorem left_lt_of_nextRange (due : c.isDone cursor = false) {r : BlockRange}
    (next : c.nextRange cursor head = some r) (timely : c.fromBlock = none → cursor = none → head = last) :
    c.left last (some r.last) < c.left last cursor := by
  obtain ⟨hfirst, hle, -, -, hlast⟩ := nextRange_bounds next
  have hstop := UInt64.le_iff_toNat_le.mp (hlast last bounded)
  have hbegin := UInt64.le_iff_toNat_le.mp hle
  rw [hfirst] at hbegin
  cases cursor with
  | some block =>
    have hlt := lt_of_not_isDone bounded due
    rw [toNat_nextBlock_some_of_lt c head hlt] at hbegin
    have hblock := UInt64.lt_iff_toNat_lt.mp hlt
    simp only [left]
    omega
  | none =>
    have hsame : c.fromBlock.getD head = c.fromBlock.getD last := by
      cases hfrom : c.fromBlock with
      | none => exact timely hfrom rfl
      | some b => rfl
    rw [nextBlock, hsame] at hbegin
    simp only [left]
    omega

end

end PollerConfig

namespace Poller

variable {σ ι : Type}

theorem Course.idle_iff {c : PollerConfig} {a : Account ι} (h : Course c a.before a.deeds a.outcome a.after)
    {head : UInt64} (seen : a.head? = some head) :
    a.outcome = .ok .idle ↔ c.isDone a.before = false ∧ c.nextRange a.before head = none := by
  obtain ⟨before, deeds, outcome, after⟩ := a
  cases h with
  | finished | headless => cases seen
  | idle due _ nothing =>
    cases seen
    exact ⟨fun _ => ⟨due, nothing⟩, fun _ => rfl⟩
  | unfetched _ _ _ next | rejected _ _ _ next | accepted _ _ _ next =>
    cases seen
    exact ⟨nofun, fun h => by simp [h.2] at next⟩

/-- The cycle does not fail, and the chain has come to `last`; a poller without a first block begins no
later than there. -/
structure Account.Calm (c : PollerConfig) (last : UInt64) (a : Account ι) : Prop where
  ok : a.outcome.isOk = true
  passed : ∀ head ∈ a.head?, last ≤ head
  timely : c.fromBlock = none → a.before = none → ∀ head ∈ a.head?, head = last

theorem Account.calm_iff {c : PollerConfig} {last : UInt64} {a : Account ι} : a.Calm c last ↔
    (a.outcome.isOk && a.head?.all (fun head => decide (last ≤ head)) &&
      (c.fromBlock.isSome || a.before.isSome || a.head?.all (· == last))) = true := by
  have hiff : a.Calm c last ↔ a.outcome.isOk = true ∧ (∀ head ∈ a.head?, last ≤ head) ∧
      (c.fromBlock = none → a.before = none → ∀ head ∈ a.head?, head = last) :=
    ⟨fun h => ⟨h.ok, h.passed, h.timely⟩, fun h => ⟨h.1, h.2.1, h.2.2⟩⟩
  rw [hiff, Bool.and_eq_true, Bool.and_eq_true, and_assoc]
  cases a.head? <;> cases c.fromBlock <;> cases a.before <;> simp

instance (c : PollerConfig) (last : UInt64) (a : Account ι) : Decidable (a.Calm c last) :=
  decidable_of_iff _ Account.calm_iff.symm

theorem Course.calm {c : PollerConfig} {last : UInt64} (bounded : c.toBlock = some last) {a : Account ι}
    (h : Course c a.before a.deeds a.outcome a.after) (calm : a.Calm c last)
    (begun : a.before = none → c.fromBlock = none ∨ c.fromBlock = some 0) :
    (a.outcome = .ok .finished ∧ a.after = a.before ∧ c.left last a.before = 0) ∨
      ∃ t, a.acceptance? = some t ∧ a.after = some t.2.last ∧ t.2.last ≤ last ∧
        c.left last (some t.2.last) < c.left last a.before := by
  obtain ⟨before, deeds, outcome, after⟩ := a
  obtain ⟨ok, passed, timely⟩ := calm
  cases h with
  | headless | unfetched | rejected => cases ok
  | finished done => exact .inl ⟨rfl, rfl, PollerConfig.left_of_isDone bounded done⟩
  | idle due head nothing =>
    obtain ⟨rfl, hpast⟩ :=
      (PollerConfig.nextRange_eq_none_iff bounded due (passed head rfl)).mp nothing
    rcases begun rfl with hfrom | hfrom
    · rw [hfrom, timely hfrom rfl head rfl] at hpast
      exact absurd hpast (UInt64.lt_irrefl last)
    · rw [hfrom] at hpast
      exact absurd hpast UInt64.not_lt_zero
  | accepted due head r next items =>
    obtain ⟨-, -, -, -, hlast⟩ := PollerConfig.nextRange_bounds next
    exact .inr ⟨(head, r), rfl, rfl, hlast last bounded,
      PollerConfig.left_lt_of_nextRange bounded due next fun hfrom hbefore => timely hfrom hbefore head rfl⟩

theorem Course.began {c : PollerConfig} {cursor after : Option UInt64} {deeds : List (Deed ι)}
    {outcome : Except PollError Cycle} (h : Course c cursor deeds outcome after) (hafter : after = none) :
    cursor = none := by
  cases h with
  | finished | headless | idle | unfetched | rejected => exact hafter
  | accepted => cases hafter

/-- A poller without a first block never begins while the head is past the last block. -/
theorem Course.stranded {c : PollerConfig} {last : UInt64} (bounded : c.toBlock = some last) {a : Account ι}
    (h : Course c a.before a.deeds a.outcome a.after) (fresh : c.fromBlock = none ∧ a.before = none)
    (past : ∀ head ∈ a.head?, last < head) :
    a.after = none ∧ a.acceptance? = none ∧ a.outcome ≠ .ok .finished := by
  obtain ⟨before, deeds, outcome, after⟩ := a
  obtain ⟨unset, rfl⟩ := fresh
  cases h with
  | finished done => cases (PollerConfig.isDone_none c).symm.trans done
  | headless | idle | unfetched | rejected => exact ⟨rfl, rfl, nofun⟩
  | accepted due head r next items =>
    have hhead := past head rfl
    have hnone := (PollerConfig.nextRange_eq_none_iff bounded due (UInt64.le_of_lt hhead)).mpr
      ⟨rfl, by rwa [unset]⟩
    rw [hnone] at next
    cases next

theorem accounts_drop (p : Poller (StateM σ) ι) (first cycles : Nat) (cursor : Option UInt64) (s : σ) :
    ∃ cursor' s', (p.accounts (first + cycles) cursor s).drop first = p.accounts cycles cursor' s' ∧
      (cursor' = none → cursor = none) := by
  induction first generalizing cursor s with
  | zero => exact ⟨cursor, s, by rw [Nat.zero_add, List.drop_zero], id⟩
  | succ first ih =>
    rw [Nat.succ_add, accounts, List.drop_succ_cons]
    obtain ⟨cursor', s', hdrop, hnone⟩ := ih ((p.watched.cycle cursor).run s).result.2
      ((p.watched.cycle cursor).run s).after
    exact ⟨cursor', s', hdrop, fun h => (cycle_course p cursor s).began (hnone h)⟩

theorem begun_accounts (p : Poller (StateM σ) ι) (cycles : Nat) (cursor : Option UInt64) (s : σ) :
    ∀ a ∈ p.accounts cycles cursor s, a.before = none → cursor = none := by
  induction cycles generalizing cursor s with
  | zero => simp [accounts]
  | succ cycles ih =>
    intro a ha hbefore
    rcases List.mem_cons.mp ha with rfl | ha
    · exact hbefore
    · exact (cycle_course p cursor s).began (ih _ _ a ha hbefore)

section

variable (p : Poller (StateM σ) ι) {last : UInt64} (bounded : p.config.toBlock = some last)
include bounded

/-- In calm cycles a poller is finished as soon as there were as many of them as blocks were left, and
the last range that it fetched ends at the last block. -/
theorem accounts_calm (cycles : Nat) (cursor : Option UInt64) (s : σ)
    (begun : cursor = none → p.config.fromBlock = none ∨ p.config.fromBlock = some 0)
    (calm : ∀ a ∈ p.accounts cycles cursor s, a.Calm p.config last) :
    (∀ a ∈ (p.accounts cycles cursor s).drop (p.config.left last cursor), a.outcome = .ok .finished) ∧
    (0 < p.config.left last cursor → p.config.left last cursor ≤ cycles →
      ∃ t ∈ (p.accounts cycles cursor s).filterMap Account.acceptance?, t.2.last = last) := by
  -- Each calm cycle lowers what is left or finds nothing left, so the cycles to drop run out with it.
  induction cycles generalizing cursor s with
  | zero => exact ⟨by simp [accounts], fun hpos hle => by omega⟩
  | succ cycles ih =>
    rw [accounts] at calm ⊢
    generalize hpage : (p.watched.cycle cursor).run s = page at calm ⊢
    have hcourse : Course p.config cursor page.deeds page.result.1 page.result.2 :=
      hpage ▸ cycle_course p cursor s
    have hrest := ih page.result.2 page.after (fun h => begun (hcourse.began h))
      fun a ha => calm a (List.mem_cons_of_mem _ ha)
    rcases hcourse.calm (a := ⟨cursor, page.deeds, page.result.1, page.result.2⟩) bounded
      (calm _ List.mem_cons_self) begun with ⟨hfinished, hkeep, hleft⟩ | ⟨t, ht, hafter, hle, hlower⟩
    · have hstill : p.config.left last page.result.2 = 0 := (congrArg _ hkeep).trans hleft
      rw [hstill, List.drop_zero] at hrest
      rw [show p.config.left last cursor = 0 from hleft]
      refine ⟨fun a ha => ?_, fun hpos => absurd hpos (Nat.lt_irrefl 0)⟩
      rcases List.mem_cons.mp ha with rfl | ha
      · exact hfinished
      · exact hrest.1 a ha
    · rw [← show page.result.2 = some t.2.last from hafter] at hlower
      rw [List.filterMap_cons_some ht]
      obtain ⟨before, hbefore⟩ := Nat.exists_eq_add_one_of_ne_zero (Nat.ne_zero_of_lt hlower)
      rw [hbefore] at hlower ⊢
      refine ⟨fun a ha => ?_, fun _ hcycles => ?_⟩
      · rw [List.drop_succ_cons] at ha
        exact hrest.1 a (List.drop_subset_drop_left _ (Nat.le_of_lt_succ hlower) ha)
      · rcases Nat.eq_zero_or_pos (p.config.left last page.result.2) with hzero | hpos
        · refine ⟨t, List.mem_cons_self, ?_⟩
          rw [show page.result.2 = some t.2.last from hafter] at hzero
          have hreach : last ≤ t.2.last := UInt64.le_iff_toNat_le.mpr (Nat.sub_eq_zero_iff_le.mp hzero)
          exact UInt64.le_antisymm hle hreach
        · obtain ⟨u, hu, hlast⟩ := hrest.2 hpos (by omega)
          exact ⟨u, List.mem_cons_of_mem _ hu, hlast⟩

theorem accounts_stranded (unset : p.config.fromBlock = none) (cycles : Nat) (s : σ)
    (past : ∀ a ∈ p.accounts cycles none s, ∀ head ∈ a.head?, last < head) :
    ∀ a ∈ p.accounts cycles none s, a.acceptance? = none ∧ a.outcome ≠ .ok .finished := by
  induction cycles generalizing s with
  | zero => simp [accounts]
  | succ cycles ih =>
    rw [accounts] at past ⊢
    generalize hpage : (p.watched.cycle none).run s = page at past ⊢
    have hcourse : Course p.config none page.deeds page.result.1 page.result.2 :=
      hpage ▸ cycle_course p none s
    obtain ⟨hafter, hidle⟩ := hcourse.stranded
      (a := ⟨none, page.deeds, page.result.1, page.result.2⟩) bounded ⟨unset, rfl⟩
      (past _ List.mem_cons_self)
    intro a ha
    rcases List.mem_cons.mp ha with rfl | ha
    · exact hidle
    · rw [show page.result.2 = none from hafter] at past ha
      exact ih page.after (fun b hb => past b (List.mem_cons_of_mem _ hb)) a ha

/-- A bounded poller in surroundings that answer in any way they like. Once the chain has come to the last
block, a cycle idles exactly if there is no first block, no range was accepted before, and the head is
past the last block. Over calm cycles, whatever was before them, the poller is finished as soon as there
were as many of them as blocks were left, and has fetched the last one. Without a first block and with
the head past the last one in all cycles, it fetches nothing and is never finished. -/
theorem bounded_idle_iff (first cycles : Nat) (s : σ) :
    let accounts := p.accounts (first + cycles) p.config.start s
    (∀ a ∈ accounts, ∀ head ∈ a.head?, last ≤ head →
      (a.outcome = .ok .idle ↔ p.config.fromBlock = none ∧ a.before = none ∧ last < head)) ∧
    ((∀ a ∈ accounts.drop first, a.Calm p.config last) → ∀ a ∈ (accounts.drop first).head?,
      (∀ b ∈ accounts.drop (first + p.config.left last a.before), b.outcome = .ok .finished) ∧
      (0 < p.config.left last a.before → p.config.left last a.before ≤ cycles →
        ∃ t ∈ (accounts.drop first).filterMap Account.acceptance?, t.2.last = last)) ∧
    (p.config.fromBlock = none → (∀ a ∈ accounts, ∀ head ∈ a.head?, last < head) →
      ∀ a ∈ accounts, a.acceptance? = none ∧ a.outcome ≠ .ok .finished) := by
  intro accounts
  refine ⟨?_, ?_, ?_⟩
  · intro a ha head hhead hpassed
    have hcourse := accounts_course p (first + cycles) p.config.start s a ha
    rw [hcourse.idle_iff hhead]
    constructor
    · rintro ⟨due, nothing⟩
      obtain ⟨hbefore, hpast⟩ := (PollerConfig.nextRange_eq_none_iff bounded due hpassed).mp nothing
      have hstart := begun_accounts p (first + cycles) p.config.start s a ha hbefore
      rcases PollerConfig.start_eq_none_iff.mp hstart with hfrom | hfrom
      · exact ⟨hfrom, hbefore, by rwa [hfrom] at hpast⟩
      · rw [hfrom] at hpast
        exact absurd hpast UInt64.not_lt_zero
    · rintro ⟨hfrom, hbefore, hpast⟩
      have due : p.config.isDone a.before = false := hbefore ▸ p.config.isDone_none
      exact ⟨due, (PollerConfig.nextRange_eq_none_iff bounded due hpassed).mpr
        ⟨hbefore, by rwa [hfrom]⟩⟩
  · intro calm a ha
    obtain ⟨cursor, t, hdrop, hnone⟩ := accounts_drop p first cycles p.config.start s
    have hbefore : a.before = cursor := by
      rw [hdrop] at ha
      cases cycles with
      | zero => cases ha
      | succ cycles =>
        cases ha
        rfl
    obtain ⟨hfinished, hlast⟩ := accounts_calm p bounded cycles cursor t
      (fun h => PollerConfig.start_eq_none_iff.mp (hnone h)) (hdrop ▸ calm)
    rw [← List.drop_drop, hbefore, hdrop]
    exact ⟨hfinished, hlast⟩
  · intro unset past
    have hstart : p.config.start = none := PollerConfig.start_eq_none_iff.mpr (.inl unset)
    rw [show accounts = p.accounts (first + cycles) none s by rw [← hstart]] at past ⊢
    exact accounts_stranded p bounded unset (first + cycles) s past

end

def late : Poller (StateM Nat) Unit where
  config := { toBlock := some 5 }
  height _ _ := fun n => (.ok 9, n + 1)
  fetch _ := fun n => (.ok [()], n)
  publish _ _ := fun n => (.ok (), n)
  count _ := fun n => ((), n)

private theorem late_accounts (cycles s : Nat) : late.accounts cycles late.config.start s =
    List.replicate cycles ⟨none, [.asked (.ok 9)], .ok .idle, none⟩ := by
  induction cycles generalizing s with
  | zero => rfl
  | succ cycles ih => exact congrArg (_ :: ·) (ih (s + 1))

theorem unsteady_finishes_late_strands :
    unsteady.config.toBlock = some 13 ∧ late.config.toBlock = some 5 ∧ late.config.fromBlock = none ∧
    (∀ a ∈ (unsteady.accounts 8 unsteady.config.start 0).drop 4, a.Calm unsteady.config 13) ∧
    (∀ b ∈ (unsteady.accounts 8 unsteady.config.start 0).drop 6, b.outcome = .ok .finished) ∧
    (∃ t ∈ ((unsteady.accounts 8 unsteady.config.start 0).drop 4).filterMap Account.acceptance?,
      t.2.last = 13) ∧
    (∀ a ∈ late.accounts 3 late.config.start 0, ∀ head ∈ a.head?, 5 < head) ∧
    ∀ a ∈ late.accounts 3 late.config.start 0, a.acceptance? = none ∧ a.outcome ≠ .ok .finished := by
  have hcalm : ∀ a ∈ (unsteady.accounts 8 unsteady.config.start 0).drop 4, a.Calm unsteady.config 13 := by
    decide
  have hpast : ∀ a ∈ late.accounts 3 late.config.start 0, ∀ head ∈ a.head?, 5 < head := by
    intro a ha head hhead
    rw [late_accounts] at ha
    obtain rfl := List.eq_of_mem_replicate ha
    cases hhead
    decide
  obtain ⟨hfinished, hlast⟩ := (bounded_idle_iff unsteady rfl 4 4 0).2.1 hcalm _ rfl
  exact ⟨rfl, rfl, rfl, hcalm, hfinished, hlast (by decide) (by decide), hpast,
    (bounded_idle_iff late rfl 0 3 0).2.2 rfl hpast⟩

/-- Whenever the chain has come to the last block, a cycle does something else than to idle. -/
def NeverIdlesPast (p : Poller (StateM σ) ι) (last : UInt64) : Prop :=
  ∀ cycles s, ∀ a ∈ p.accounts cycles p.config.start s, ∀ head ∈ a.head?, last ≤ head →
    a.outcome ≠ .ok .idle

theorem late_idles_for_ever :
    late.config.toBlock = some 5 ∧ ¬ NeverIdlesPast late 5 ∧
    ∀ cycles s, ∀ a ∈ late.accounts cycles late.config.start s,
      a.head? = some 9 ∧ a.outcome = .ok .idle := by
  have hidle : ∀ cycles s, ∀ a ∈ late.accounts cycles late.config.start s,
      a.head? = some 9 ∧ a.outcome = .ok .idle := by
    intro cycles s a ha
    rw [late_accounts] at ha
    obtain rfl := List.eq_of_mem_replicate ha
    exact ⟨rfl, rfl⟩
  refine ⟨rfl, fun never => ?_, hidle⟩
  exact never 1 0 _ List.mem_cons_self 9 rfl (by decide) rfl

end Poller

end ChainFeed

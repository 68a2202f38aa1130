import Mathlib.Data.Nat.ModEq
import ChainFeed.Rpc.Pool

/-!
# One pick of a pool

Whenever a provider is eligible, the pick is the first eligible one in ring order, from the one whose
turn it is; otherwise it is one that failed longest ago.
-/

namespace ChainFeed.Rpc

namespace Provider

/-- Healthy, or done with its cool-down. -/
def Eligible (q : Provider) (cooldown now : Nat) : Prop :=
  q.healthy = true ∨ ∀ t, q.failedAt = some t → t + cooldown ≤ now

variable {q q' : Provider} {cooldown now : Nat}

theorem isEligible_iff : q.isEligible cooldown now = true ↔ q.Eligible cooldown now := by
  cases hfailed : q.failedAt <;> simp [isEligible, Eligible, hfailed]

theorem failedAt_of_not_eligible (h : ¬ q.Eligible cooldown now) : ∃ t, q.failedAt = some t := by
  cases hfailed : q.failedAt with
  | none => exact absurd (Or.inr fun t ht => by rw [hfailed] at ht; cases ht) h
  | some t => exact ⟨t, rfl⟩

/-- Providers by the time of their failure, those that never failed first. -/
private def rank (q : Provider) : Nat := (q.failedAt.map (· + 1)).getD 0

private theorem failedBefore_iff : q.failedBefore q' = true ↔ q.rank < q'.rank := by
  unfold failedBefore rank
  cases q.failedAt <;> cases q'.failedAt <;> simp

private theorem rank_of_failedAt {t : Nat} (h : q.failedAt = some t) : q.rank = t + 1 := by
  simp [rank, h]

end Provider

namespace Pool

def Eligible (p : Pool) (cooldown now i : Nat) : Prop :=
  ∃ q, p.providers[i]? = some q ∧ q.Eligible cooldown now

/-- The first eligible place in ring order, from the one whose turn it is. -/
def IsNext (p : Pool) (cooldown now i : Nat) : Prop :=
  ∃ k < p.size, i = (p.cursor + k) % p.size ∧ p.Eligible cooldown now i ∧
    ∀ j < k, ¬ p.Eligible cooldown now ((p.cursor + j) % p.size)

/-- No provider failed before the one at this place. -/
def FailedFirst (p : Pool) (i : Nat) : Prop :=
  ∃ q t, p.providers[i]? = some q ∧ q.failedAt = some t ∧
    ∀ q' ∈ p.providers, ∃ t', q'.failedAt = some t' ∧ t ≤ t'

variable {p : Pool} {cooldown now i : Nat}

theorem Eligible.lt_size (h : p.Eligible cooldown now i) : i < p.size := by
  obtain ⟨q, hq, -⟩ := h
  exact (List.getElem?_eq_some_iff.mp hq).1

theorem FailedFirst.lt_size (h : p.FailedFirst i) : i < p.size := by
  obtain ⟨q, t, hq, -⟩ := h
  exact (List.getElem?_eq_some_iff.mp hq).1

private theorem any_isEligible_iff :
    (p.providers[i]?).any (·.isEligible cooldown now) = true ↔ p.Eligible cooldown now i := by
  simp only [Option.any_eq_true, Provider.isEligible_iff, Eligible]

/-- Every place has its turn within one round. -/
theorem exists_turn {n : Nat} (cursor : Nat) (h : i < n) : ∃ k < n, (cursor + k) % n = i := by
  have hn : 0 < n := Nat.zero_lt_of_lt h
  refine ⟨(i + (n - cursor % n)) % n, Nat.mod_lt _ hn, ?_⟩
  have hlt : cursor % n < n := Nat.mod_lt _ hn
  have hsum : cursor + (i + (n - cursor % n)) = i + n * (cursor / n + 1) := by
    have hdiv := Nat.div_add_mod cursor n
    rw [Nat.mul_add]
    omega
  rw [Nat.add_mod_mod, hsum, Nat.add_mul_mod_self_left, Nat.mod_eq_of_lt h]

theorem turn_injective {n k k' : Nat} (cursor : Nat) (hk : k < n) (hk' : k' < n)
    (h : (cursor + k) % n = (cursor + k') % n) : k = k' := by
  have hmod : k ≡ k' [MOD n] := Nat.ModEq.add_left_cancel' cursor h
  rwa [Nat.ModEq, Nat.mod_eq_of_lt hk, Nat.mod_eq_of_lt hk'] at hmod

private theorem find?_turns (p : Pool) (eligible : Nat → Bool) :
    p.turns.find? eligible = ((List.range p.size).find? fun k => eligible ((p.cursor + k) % p.size)).map
      fun k => (p.cursor + k) % p.size :=
  List.find?_map ..

private def longer (best : Option (Provider × Nat)) (q : Provider × Nat) : Option (Provider × Nat) :=
  match best with
  | some b => if q.1.failedBefore b.1 then some q else some b
  | none => some q

/-- The fold keeps one of what it has seen, before which nothing of it failed. -/
private theorem foldl_longer (rest : List (Provider × Nat)) (b : Provider × Nat) :
    ∃ found, rest.foldl longer (some b) = some found ∧ found ∈ b :: rest ∧
      ∀ q ∈ b :: rest, found.1.rank ≤ q.1.rank := by
  induction rest generalizing b with
  | nil => exact ⟨b, rfl, List.mem_cons_self, fun q hq => by rw [List.mem_singleton.mp hq]⟩
  | cons q rest ih =>
    rw [List.foldl_cons, longer]
    by_cases hearlier : q.1.failedBefore b.1 = true
    · rw [if_pos hearlier]
      have hrank := Provider.failedBefore_iff.mp hearlier
      obtain ⟨found, hfound, hmem, hfirst⟩ := ih q
      have hq := hfirst q List.mem_cons_self
      refine ⟨found, hfound, List.mem_cons_of_mem b hmem, ?_⟩
      exact List.forall_mem_cons.mpr ⟨by omega, hfirst⟩
    · rw [if_neg hearlier]
      have hrank := mt Provider.failedBefore_iff.mpr hearlier
      obtain ⟨found, hfound, hmem, hfirst⟩ := ih b
      obtain ⟨hb, hrest⟩ := List.forall_mem_cons.mp hfirst
      refine ⟨found, hfound, ?_, ?_⟩
      · rcases List.mem_cons.mp hmem with rfl | hmem
        · exact List.mem_cons_self
        · exact List.mem_cons_of_mem b (List.mem_cons_of_mem q hmem)
      · exact List.forall_mem_cons.mpr ⟨hb, List.forall_mem_cons.mpr ⟨by omega, hrest⟩⟩

private theorem longestFailed_first {ps : List Provider} (some_provider : ps ≠ []) :
    ∃ q, ps[longestFailed ps]? = some q ∧ ∀ q' ∈ ps, q.rank ≤ q'.rank := by
  obtain ⟨first, rest, rfl⟩ := List.exists_cons_of_ne_nil some_provider
  have hzip : (first :: rest).zipIdx = (first, 0) :: rest.zipIdx 1 := rfl
  obtain ⟨⟨q, i⟩, hfound, hmem, hfirst⟩ := foldl_longer (rest.zipIdx 1) (first, 0)
  have hlongest : longestFailed (first :: rest) = i := by
    change ((rest.zipIdx 1).foldl longer (some (first, 0))).elim 0 (·.2) = i
    rw [hfound]
    rfl
  rw [← hzip] at hmem hfirst
  refine ⟨q, ?_, ?_⟩
  · rw [hlongest]
    exact List.mem_zipIdx_iff_getElem?.mp hmem
  · intro q' hq'
    obtain ⟨k, hk, rfl⟩ := List.getElem_of_mem hq'
    exact hfirst ((first :: rest)[k], k) (List.mem_zipIdx_iff_getElem?.mpr (List.getElem?_eq_getElem hk))

theorem pick_of_empty (h : p.providers = []) : p.pick cooldown now = (none, p) := by
  simp [pick, h]

theorem pick_after (h : p.providers ≠ []) : (p.pick cooldown now).2 = { p with cursor := p.cursor + 1 } := by
  simp [pick, h]

theorem pick_next (h : p.Eligible cooldown now i) :
    ∃ j, (p.pick cooldown now).1 = some j ∧ p.IsNext cooldown now j := by
  have hsize := h.lt_size
  have hsome : p.providers.isEmpty = false := by
    rw [List.isEmpty_eq_false_iff]
    exact List.ne_nil_of_length_pos (Nat.zero_lt_of_lt hsize)
  simp only [pick, hsome, find?_turns]
  cases hfound : (List.range p.size).find? fun k =>
      (p.providers[(p.cursor + k) % p.size]?).any (·.isEligible cooldown now) with
  | none =>
    obtain ⟨k, hk, rfl⟩ := exists_turn p.cursor hsize
    have hnone := List.find?_range_eq_none.mp hfound k hk
    rw [any_isEligible_iff.mpr h] at hnone
    cases hnone
  | some k =>
    obtain ⟨heligible, hk, hskipped⟩ := List.find?_range_eq_some.mp hfound
    refine ⟨(p.cursor + k) % p.size, rfl, k, List.mem_range.mp hk, rfl, any_isEligible_iff.mp heligible, ?_⟩
    intro j hj helig
    have hnot := hskipped j hj
    rw [any_isEligible_iff.mpr helig] at hnot
    cases hnot

theorem pick_failedFirst (some_provider : p.providers ≠ []) (h : ∀ i, ¬ p.Eligible cooldown now i) :
    ∃ j, (p.pick cooldown now).1 = some j ∧ p.FailedFirst j := by
  have hskipped : (p.turns.find? fun i => (p.providers[i]?).any (·.isEligible cooldown now)) = none := by
    rw [List.find?_eq_none]
    exact fun i _ helig => h i (any_isEligible_iff.mp helig)
  have hpick : (p.pick cooldown now).1 = some (longestFailed p.providers) := by
    simp [pick, some_provider, hskipped]
  have hfailed : ∀ q ∈ p.providers, ∃ t, q.failedAt = some t := by
    intro q hq
    obtain ⟨i, hi, rfl⟩ := List.getElem_of_mem hq
    exact Provider.failedAt_of_not_eligible fun helig => h i ⟨_, List.getElem?_eq_getElem hi, helig⟩
  obtain ⟨q, hq, hfirst⟩ := longestFailed_first some_provider
  obtain ⟨t, ht⟩ := hfailed q (List.mem_of_getElem? hq)
  refine ⟨_, hpick, q, t, hq, ht, ?_⟩
  intro q' hq'
  obtain ⟨t', ht'⟩ := hfailed q' hq'
  have hrank := hfirst q' hq'
  rw [Provider.rank_of_failedAt ht, Provider.rank_of_failedAt ht'] at hrank
  exact ⟨t', ht', Nat.le_of_succ_le_succ hrank⟩

theorem IsNext.eq_turn {j : Nat} (h : p.IsNext cooldown now j)
    (turn : p.Eligible cooldown now (p.cursor % p.size)) : j = p.cursor % p.size := by
  obtain ⟨k, -, rfl, -, hskipped⟩ := h
  cases k with
  | zero => rfl
  | succ k => exact absurd turn (hskipped 0 (Nat.succ_pos k))

end Pool
end ChainFeed.Rpc

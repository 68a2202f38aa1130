import Mathlib.Data.List.Count
import Mathlib.Data.List.Nodup
import ChainFeed.Proofs.Rpc.Picks
import ChainFeed.Proofs.Run

/-!
# Taking turns

A pool is used in any order: providers are picked and marked, calls through them end well or badly, and
time passes. The cursor counts the picks and nothing else moves it, so in as many picks as there are
providers every place has its turn once.
-/

namespace ChainFeed.Rpc

/-- A pool in use, and the moment. -/
structure Rota where
  pool : Pool
  now : Nat
  deriving DecidableEq, Repr

namespace Rota

inductive Move where
  | get
  | online (i : Nat)
  | offline (i : Nat)
  /-- A call that began with a `get` comes to its end. -/
  | learn (i : Nat) (result : Except TransportError PUnit)
  | pass (ms : Nat)

def Move.isGet : Move → Bool
  | .get => true
  | _ => false

def step? (cooldown : Nat) (s : Rota) : Move → Option Rota
  | .get => some { s with pool := (s.pool.pick cooldown s.now).2 }
  | .online i => some { s with pool := s.pool.markOnline i }
  | .offline i => some { s with pool := s.pool.markOffline s.now i }
  | .learn i result => some { s with pool := s.pool.learn s.now i result }
  | .pass ms => some { s with now := s.now + ms }

def picked? (cooldown : Nat) (p : Rota × Move) : Option Nat :=
  match p.2 with
  | .get => (p.1.pool.pick cooldown p.1.now).1
  | _ => none

variable {cooldown : Nat} {first last s t : Rota} {m : Move} {trail : List (Rota × Move)} {i : Nat}

theorem step_size (move : s.step? cooldown m = some t) : t.pool.size = s.pool.size := by
  cases m with
  | get =>
    cases move
    by_cases hempty : s.pool.providers = []
    · rw [Pool.pick_of_empty hempty]
    · rw [Pool.pick_after hempty]
      rfl
  | online i => cases move; exact List.length_modify ..
  | offline i => cases move; exact List.length_modify ..
  | learn i result =>
    cases move
    cases result with
    | ok => exact List.length_modify ..
    | error e =>
      simp only [Pool.learn]
      split
      · exact List.length_modify ..
      · rfl
  | pass => cases move; rfl

theorem step_cursor (some_provider : 0 < s.pool.size) (move : s.step? cooldown m = some t) :
    t.pool.cursor = s.pool.cursor + if m.isGet then 1 else 0 := by
  cases m with
  | get =>
    cases move
    rw [Pool.pick_after (List.ne_nil_of_length_pos some_provider)]
    rfl
  | online i => cases move; rfl
  | offline i => cases move; rfl
  | learn i result =>
    cases move
    cases result with
    | ok => rfl
    | error e =>
      simp only [Pool.learn]
      split <;> rfl
  | pass => cases move; rfl

theorem run_size (h : Run (step? cooldown) first trail last) : last.pool.size = first.pool.size := by
  refine h.invariant (P := fun _ s => s.pool.size = first.pool.size) rfl ?_
  intro _ s m t hs move
  exact (step_size move).trans hs

theorem run_cursors (some_provider : 0 < first.pool.size) (h : Run (step? cooldown) first trail last) :
    last.pool.cursor = first.pool.cursor + trail.countP (·.2.isGet) ∧
      (trail.filter (·.2.isGet)).map (·.1.pool.cursor) =
        List.range' first.pool.cursor (trail.countP (·.2.isGet)) := by
  induction h with
  | start => exact ⟨rfl, rfl⟩
  | @step trail s t m before move ih =>
    obtain ⟨hcursor, hcursors⟩ := ih
    have hsize : 0 < s.pool.size := by
      rw [run_size before]
      exact some_provider
    have hnext := step_cursor hsize move
    rw [List.countP_append, List.filter_append, List.map_append, hcursors]
    cases hget : m.isGet with
    | false =>
      rw [hget] at hnext
      refine ⟨by simpa [hget] using hnext.trans hcursor, by simp [hget]⟩
    | true =>
      rw [hget] at hnext
      refine ⟨by simp [hget, hnext, hcursor, Nat.add_assoc], ?_⟩
      simp [hget, hcursor, List.range'_concat]

theorem picked_spec (some_provider : 0 < s.pool.size) :
    ∃ i < s.pool.size, picked? cooldown (s, .get) = some i ∧
      ((∃ j, s.pool.Eligible cooldown s.now j) → s.pool.IsNext cooldown s.now i) ∧
      ((∀ j, ¬ s.pool.Eligible cooldown s.now j) → s.pool.FailedFirst i) := by
  by_cases heligible : ∃ j, s.pool.Eligible cooldown s.now j
  · obtain ⟨j, hj⟩ := heligible
    obtain ⟨i, hpick, hnext⟩ := Pool.pick_next hj
    have hlt : i < s.pool.size := by
      obtain ⟨k, -, -, helig, -⟩ := hnext
      exact helig.lt_size
    exact ⟨i, hlt, hpick, fun _ => hnext, fun hnone => absurd hj (hnone j)⟩
  · have hnone : ∀ j, ¬ s.pool.Eligible cooldown s.now j := fun j hj => heligible ⟨j, hj⟩
    obtain ⟨i, hpick, hfirst⟩ := Pool.pick_failedFirst (List.ne_nil_of_length_pos some_provider) hnone
    exact ⟨i, hfirst.lt_size, hpick, fun hsome => absurd hsome heligible, fun _ => hfirst⟩

theorem picked_turn (turn : s.pool.Eligible cooldown s.now (s.pool.cursor % s.pool.size)) :
    picked? cooldown (s, .get) = some (s.pool.cursor % s.pool.size) := by
  obtain ⟨i, hpick, hnext⟩ := Pool.pick_next turn
  rw [← hnext.eq_turn turn]
  exact hpick

private theorem filterMap_picked (window : List (Rota × Move)) :
    window.filterMap (picked? cooldown) = (window.filter (·.2.isGet)).filterMap (picked? cooldown) := by
  rw [List.filterMap_filter]
  congr 1
  funext p
  obtain ⟨s, m⟩ := p
  cases m <;> rfl

private theorem window_size (h : Run (step? cooldown) first trail last) {p : Rota × Move}
    (hp : p ∈ trail) : p.1.pool.size = first.pool.size := by
  obtain ⟨before, after, rfl⟩ := List.append_of_mem hp
  exact run_size h.cut.1

/-- In as many picks as there are providers, one that can be used all along is picked. -/
private theorem window_picks (h : Run (step? cooldown) first trail last)
    (whole : trail.countP (·.2.isGet) = first.pool.size) (hi : i < first.pool.size)
    (eligible : ∀ p ∈ trail, p.2.isGet = true → p.1.pool.Eligible cooldown p.1.now i) :
    i ∈ trail.filterMap (picked? cooldown) := by
  obtain ⟨k, hk, hturn⟩ := Pool.exists_turn first.pool.cursor hi
  obtain ⟨-, hcursors⟩ := run_cursors (Nat.zero_lt_of_lt hi) h
  -- The window has as many picks as a round has turns, and so one whose turn it is.
  have hmem : first.pool.cursor + k ∈ (trail.filter (·.2.isGet)).map (·.1.pool.cursor) := by
    rw [hcursors, whole, List.mem_range'_1]
    omega
  obtain ⟨⟨s, m⟩, hp, hcursor⟩ := List.mem_map.mp hmem
  obtain ⟨hp, hget⟩ := List.mem_filter.mp hp
  have hplace : s.pool.cursor % s.pool.size = i := by
    rw [show s.pool.cursor = first.pool.cursor + k from hcursor, window_size h hp, hturn]
  cases m with
  | get =>
    refine List.mem_filterMap.mpr ⟨(s, .get), hp, ?_⟩
    rw [picked_turn (hplace ▸ eligible _ hp rfl), hplace]
  | _ => cases hget

/-- If all can be used all along, they are picked in ring order. -/
private theorem window_ring (h : Run (step? cooldown) first trail last) (some_provider : 0 < first.pool.size)
    (eligible : ∀ i < first.pool.size, ∀ p ∈ trail, p.2.isGet = true →
      p.1.pool.Eligible cooldown p.1.now i) :
    trail.filterMap (picked? cooldown) =
      (List.range' first.pool.cursor (trail.countP (·.2.isGet))).map (· % first.pool.size) := by
  obtain ⟨-, hcursors⟩ := run_cursors some_provider h
  rw [filterMap_picked, ← hcursors, List.map_map, ← List.filterMap_eq_map]
  apply List.filterMap_congr
  intro p hp
  obtain ⟨hp, hget⟩ := List.mem_filter.mp hp
  have hsize := window_size h hp
  have hlt : p.1.pool.cursor % first.pool.size < first.pool.size := Nat.mod_lt _ some_provider
  obtain ⟨s, m⟩ := p
  cases m with
  | get =>
    have hturn : s.pool.Eligible cooldown s.now (s.pool.cursor % s.pool.size) := by
      rw [hsize]
      exact eligible _ hlt _ hp rfl
    rw [picked_turn hturn, hsize]
    rfl
  | _ => cases hget

private theorem count_ring {n : Nat} (cursor : Nat) (hi : i < n) :
    ((List.range' cursor n).map (· % n)).count i = 1 := by
  have hshift : List.range' cursor n = (List.range n).map (cursor + ·) := List.range'_eq_map_range ..
  rw [hshift, List.map_map]
  apply List.count_eq_one_of_mem
  · refine List.Nodup.map_on ?_ List.nodup_range
    intro k hk k' hk' hsame
    exact Pool.turn_injective cursor (List.mem_range.mp hk) (List.mem_range.mp hk') hsame
  · obtain ⟨k, hk, hturn⟩ := Pool.exists_turn cursor hi
    exact List.mem_map.mpr ⟨k, List.mem_range.mpr hk, hturn⟩

/-- However a pool with providers is used, a pick gives a provider and changes none. It is the first one
in ring order that is eligible, or one that failed first if none is. In as many picks as there are
providers, whatever happens to the others meanwhile, one that stays eligible is picked; if all stay
eligible, each is picked once. As long as there were fewer picks, the cursor fits into a word. -/
theorem takes_turns {start : Nat} {urls : List String} (some_url : urls ≠ [])
    (h : Run (step? cooldown) ⟨.ofUrls urls, start⟩ trail last)
    (few : trail.countP (·.2.isGet) < 2 ^ 64) :
    (∀ before s after, trail = before ++ (s, .get) :: after →
      s.pool.cursor = before.countP (·.2.isGet) ∧ s.pool.cursor < 2 ^ 64 ∧ s.pool.size = urls.length ∧
      (s.pool.pick cooldown s.now).2.providers = s.pool.providers ∧
      ∃ i < urls.length, picked? cooldown (s, .get) = some i ∧
        ((∃ j, s.pool.Eligible cooldown s.now j) → s.pool.IsNext cooldown s.now i) ∧
        ((∀ j, ¬ s.pool.Eligible cooldown s.now j) → s.pool.FailedFirst i)) ∧
    ∀ before window after, trail = before ++ window ++ after →
      window.countP (·.2.isGet) = urls.length →
        (∀ i < urls.length, (∀ p ∈ window, p.2.isGet = true → p.1.pool.Eligible cooldown p.1.now i) →
          i ∈ window.filterMap (picked? cooldown)) ∧
        ((∀ i < urls.length, ∀ p ∈ window, p.2.isGet = true → p.1.pool.Eligible cooldown p.1.now i) →
          ∀ i < urls.length, (window.filterMap (picked? cooldown)).count i = 1) := by
  have hurls : (Pool.ofUrls urls).size = urls.length := List.length_map ..
  have hsome : 0 < (Pool.ofUrls urls).size := by
    rw [hurls]
    exact List.length_pos_of_ne_nil some_url
  constructor
  · intro before s after htrail
    subst htrail
    have hbefore := h.cut.1
    have hsize : s.pool.size = urls.length := (run_size hbefore).trans hurls
    have hprovider : 0 < s.pool.size := by
      rw [run_size hbefore]
      exact hsome
    have hcursor : s.pool.cursor = before.countP (·.2.isGet) :=
      (run_cursors hsome hbefore).1.trans (Nat.zero_add _)
    obtain ⟨i, hi, hpick⟩ := @picked_spec cooldown s hprovider
    refine ⟨hcursor, ?_, hsize, ?_, i, hsize ▸ hi, hpick⟩
    · rw [List.countP_append] at few
      omega
    · rw [Pool.pick_after (List.ne_nil_of_length_pos hprovider)]
  · intro before window after htrail whole
    subst htrail
    obtain ⟨_, hrun, -⟩ := h.split
    obtain ⟨begun, hbefore, hwindow⟩ := hrun.split
    have hsize : begun.pool.size = urls.length := (run_size hbefore).trans hurls
    rw [← hsize] at whole ⊢
    constructor
    · intro i hi heligible
      exact window_picks hwindow whole hi heligible
    · intro heligible i hi
      rw [window_ring hwindow (Nat.zero_lt_of_lt hi) heligible, whole]
      exact count_ring _ hi

private def shift : List Move :=
  [.get, .learn 0 (.error (.http "down")), .pass 5, .get, .learn 1 (.ok ()), .offline 2, .get, .pass 26,
    .online 2, .get, .get]

private def shifted : List (Rota × Move) × Rota :=
  (replay? (step? 30) ⟨.ofUrls ["a", "b", "c"], 0⟩ shift).getD ([], ⟨.ofUrls [], 0⟩)

theorem rough_shift_takes_turns :
    Run (step? 30) ⟨.ofUrls ["a", "b", "c"], 0⟩ shifted.1 shifted.2 ∧
      shifted.1.countP (·.2.isGet) < 2 ^ 64 ∧
      shifted.1.filterMap (picked? 30) = [0, 1, 1, 0, 1] ∧
      1 ∈ ((shifted.1.drop 3).take 7).filterMap (picked? 30) := by
  have hreplay : replay? (step? 30) ⟨.ofUrls ["a", "b", "c"], 0⟩ shift = some (shifted.1, shifted.2) := rfl
  have hrun := Run.of_replay hreplay
  have hfew : shifted.1.countP (·.2.isGet) < 2 ^ 64 := by decide
  obtain ⟨-, hwindows⟩ := takes_turns (by decide) hrun hfew
  have hwindow := hwindows (shifted.1.take 3) ((shifted.1.drop 3).take 7) (shifted.1.drop 10) rfl rfl
  refine ⟨hrun, hfew, rfl, hwindow.1 1 (by decide) ?_⟩
  intro p hp _
  have hhealthy : ∀ p ∈ (shifted.1.drop 3).take 7, (p.1.pool.providers[1]?).map (·.healthy) = some true := by
    decide
  obtain ⟨q, hq, hqhealthy⟩ := Option.map_eq_some_iff.mp (hhealthy p hp)
  exact ⟨q, hq, .inl hqhealthy⟩

end Rota
end ChainFeed.Rpc

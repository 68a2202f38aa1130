import ChainFeed.Policy.TokenBucket
import Mathlib.Algebra.Order.Field.Rat
import Mathlib.Tactic.FieldSimp
import Mathlib.Tactic.Linarith
import Mathlib.Tactic.Positivity
import Mathlib.Tactic.Ring

/-!
# What a bucket admits in a window of time

Tokens are counted exactly. A bucket saves up `limit` tokens and gets as many again in a period, so a
window as long as the period may admit the saved tokens and those that come in meanwhile: almost twice
the limit, and no more. It keeps to the limit if the bucket is empty when it begins.
-/

namespace ChainFeed.TokenBucket

section

variable {α : Type} [TokenNumber α]

/-- The bucket after tries at some moments. -/
def after (b : TokenBucket α) (times : List Nat) : TokenBucket α :=
  times.foldl (fun b now => (b.acquire now).2) b

def admitted (b : TokenBucket α) : List Nat → List Nat
  | [] => []
  | now :: later =>
    if (b.acquire now).1 then now :: (b.acquire now).2.admitted later else (b.acquire now).2.admitted later

def inWindow (start length t : Nat) : Bool := start ≤ 1000 * t && 1000 * t < start + length

/-- How many tries find a token in the window. -/
def admittedIn (b : TokenBucket α) (times : List Nat) (start length : Nat) : Nat :=
  (b.admitted times).countP (inWindow start length)

theorem inWindow_iff {start length t : Nat} :
    inWindow start length t = true ↔ start ≤ 1000 * t ∧ 1000 * t < start + length := by
  simp [inWindow]

theorem admitted_append (b : TokenBucket α) (earlier later : List Nat) :
    b.admitted (earlier ++ later) = b.admitted earlier ++ (b.after earlier).admitted later := by
  induction earlier generalizing b with
  | nil => rfl
  | cons now earlier ih =>
    simp only [List.cons_append, admitted, ih, after, List.foldl_cons]
    split <;> rfl

theorem admitted_sublist (b : TokenBucket α) (times : List Nat) : (b.admitted times).Sublist times := by
  induction times generalizing b with
  | nil => exact List.Sublist.refl _
  | cons now later ih =>
    rw [admitted]
    split
    · exact (ih _).cons_cons now
    · exact (ih _).cons now

end

variable {b : TokenBucket Rat} {micros limit now start length : Nat} {times : List Nat}

def pace (micros limit : Nat) : Rat := limit * 1000 / micros

theorem pace_nonneg (micros limit : Nat) : 0 ≤ pace micros limit := by
  unfold pace
  positivity

private theorem seconds_eq (whole nanos : Nat) : (seconds whole nanos : Rat) = whole + nanos / 1000000000 :=
  rfl

theorem ofMillis_eq (ms : Nat) : (ofMillis ms : Rat) = ms / 1000 := by
  have hdiv : ((1000 * (ms / 1000) + ms % 1000 : Nat) : Rat) = ms := by rw [Nat.div_add_mod]
  rw [ofMillis, seconds_eq]
  push_cast at hdiv ⊢
  linarith

theorem period_eq (micros : Nat) :
    (seconds (micros / 1000000) (micros % 1000000 * 1000) : Rat) = micros / 1000000 := by
  have hdiv : ((1000000 * (micros / 1000000) + micros % 1000000 : Nat) : Rat) = micros := by
    rw [Nat.div_add_mod]
  rw [seconds_eq]
  push_cast at hdiv ⊢
  linarith

/-- A bucket for `limit` calls in a period, from which no more has been taken than was there. -/
structure Sound (b : TokenBucket Rat) (micros limit : Nat) : Prop where
  capacity : b.capacity = limit
  rate : b.rate = some (1000 * pace micros limit)
  tokens : 0 ≤ b.tokens

theorem sound_full (positive : 0 < micros) (limit now : Nat) :
    Sound (full micros limit now) micros limit where
  capacity := rfl
  rate := by
    have hrate : (full micros limit now : TokenBucket Rat).rate =
        some ((limit : Rat) / seconds (micros / 1000000) (micros % 1000000 * 1000)) := by
      rw [full, if_neg (Nat.ne_of_gt positive)]
      rfl
    rw [hrate, period_eq, pace]
    field_simp
    norm_num
  tokens := Nat.cast_nonneg limit

namespace Sound

theorem level_eq (h : b.Sound micros limit) (now : Nat) :
    b.level now = min (b.tokens + (now - b.refilledAt : Nat) * pace micros limit) limit := by
  have hgrown : b.tokens + ofMillis (now - b.refilledAt) * (1000 * pace micros limit) =
      b.tokens + (now - b.refilledAt : Nat) * pace micros limit := by
    rw [ofMillis_eq]
    ring
  have hlevel : b.level now =
      if b.tokens + ofMillis (now - b.refilledAt) * (1000 * pace micros limit) ≤ b.capacity then
        b.tokens + ofMillis (now - b.refilledAt) * (1000 * pace micros limit)
      else b.capacity := by
    rw [level, h.rate]
  rw [hlevel, hgrown, h.capacity, min_def]

theorem level_nonneg (h : b.Sound micros limit) (now : Nat) : 0 ≤ b.level now := by
  have hpace := pace_nonneg micros limit
  have htokens := h.tokens
  rw [h.level_eq]
  positivity

theorem level_le (h : b.Sound micros limit) (now : Nat) : b.level now ≤ limit := by
  rw [h.level_eq]
  exact min_le_right _ _

theorem level_le_grown (h : b.Sound micros limit) (later : b.refilledAt ≤ now) :
    b.level now ≤ b.tokens + ((now : Rat) - b.refilledAt) * pace micros limit := by
  rw [h.level_eq, Nat.cast_sub later]
  exact min_le_left _ _

end Sound

theorem acquire_eq (b : TokenBucket Rat) (now : Nat) :
    b.acquire now = if 1 ≤ b.level now then (true, { b with tokens := b.level now - 1, refilledAt := now })
      else (false, { b with tokens := b.level now, refilledAt := now }) :=
  rfl

theorem admits_iff : (b.acquire now).1 = true ↔ 1 ≤ b.level now := by
  rw [acquire_eq]
  split <;> simp_all

theorem acquire_tokens (b : TokenBucket Rat) (now : Nat) :
    (b.acquire now).2.tokens + (if (b.acquire now).1 then 1 else 0) = b.level now := by
  rw [acquire_eq]
  split <;> simp

@[simp] theorem acquire_refilledAt (b : TokenBucket Rat) (now : Nat) : (b.acquire now).2.refilledAt = now := by
  rw [acquire_eq]
  split <;> rfl

theorem Sound.acquire (h : b.Sound micros limit) (now : Nat) : (b.acquire now).2.Sound micros limit := by
  have hlevel := h.level_nonneg now
  rw [acquire_eq]
  split
  · next hfound => exact ⟨h.capacity, h.rate, sub_nonneg.mpr hfound⟩
  · exact ⟨h.capacity, h.rate, hlevel⟩

theorem Sound.after (h : b.Sound micros limit) (times : List Nat) : (b.after times).Sound micros limit := by
  induction times generalizing b with
  | nil => exact h
  | cons now later ih => exact ih (h.acquire now)

theorem admittedIn_cons (b : TokenBucket Rat) (times : List Nat) (inside : inWindow start length now = true) :
    (b.admittedIn (now :: times) start length : Rat) =
      (b.acquire now).2.admittedIn times start length + if (b.acquire now).1 then 1 else 0 := by
  unfold admittedIn
  rw [admitted]
  split <;> simp [inside]

theorem admittedIn_cons_of_outside (b : TokenBucket Rat) (times : List Nat)
    (outside : inWindow start length now = false) :
    b.admittedIn (now :: times) start length = (b.acquire now).2.admittedIn times start length := by
  unfold admittedIn
  rw [admitted]
  split <;> simp [outside]

theorem admittedIn_of_late (b : TokenBucket Rat) (ordered : (now :: times).Pairwise (· ≤ ·))
    (late : start + length ≤ 1000 * now) : b.admittedIn (now :: times) start length = 0 := by
  rw [admittedIn, List.countP_eq_zero]
  intro t ht
  have hle : now ≤ t := by
    rcases List.mem_cons.mp ((admitted_sublist b _).subset ht) with rfl | ht
    · exact Nat.le_refl _
    · exact (List.pairwise_cons.mp ordered).1 t ht
  rw [inWindow_iff]
  omega

theorem Sound.admittedIn_le_tokens (h : b.Sound micros limit) (begun : inWindow start length b.refilledAt = true)
    (ordered : (b.refilledAt :: times).Pairwise (· ≤ ·)) :
    ∃ last, inWindow start length last = true ∧ (b.admittedIn times start length : Rat) ≤
      b.tokens + ((last : Rat) - b.refilledAt) * pace micros limit := by
  induction times generalizing b with
  | nil => exact ⟨b.refilledAt, begun, by simpa [admittedIn, admitted] using h.tokens⟩
  | cons now later ih =>
    obtain ⟨hfirst, hrest⟩ := List.pairwise_cons.mp ordered
    have hnow : b.refilledAt ≤ now := hfirst now List.mem_cons_self
    by_cases hstop : 1000 * now < start + length
    · have hinside : inWindow start length now = true := by
        rw [inWindow_iff] at begun ⊢
        omega
      obtain ⟨last, hlast, hcount⟩ := ih (h.acquire now) (by rwa [acquire_refilledAt])
        (by rwa [acquire_refilledAt])
      rw [acquire_refilledAt] at hcount
      refine ⟨last, hlast, ?_⟩
      have hspent := acquire_tokens b now
      have hlevel := h.level_le_grown hnow
      rw [admittedIn_cons b later hinside]
      linarith
    · refine ⟨b.refilledAt, begun, ?_⟩
      rw [b.admittedIn_of_late hrest (Nat.le_of_not_lt hstop)]
      simpa using h.tokens

/-- In a window, a bucket admits no more than it can save up and what comes in. -/
theorem Sound.admittedIn_le (h : b.Sound micros limit) (ordered : times.Pairwise (· ≤ ·)) (start length : Nat) :
    b.admittedIn times start length = 0 ∨ ∃ first last, inWindow start length first = true ∧
      inWindow start length last = true ∧
        (b.admittedIn times start length : Rat) ≤ limit + ((last : Rat) - first) * pace micros limit := by
  induction times generalizing b with
  | nil => exact .inl rfl
  | cons now later ih =>
    by_cases hstop : 1000 * now < start + length
    · cases hinside : inWindow start length now with
      | true =>
        obtain ⟨last, hlast, hcount⟩ := (h.acquire now).admittedIn_le_tokens
          (by rwa [acquire_refilledAt]) (by rwa [acquire_refilledAt])
        rw [acquire_refilledAt] at hcount
        refine .inr ⟨now, last, hinside, hlast, ?_⟩
        have hspent := acquire_tokens b now
        have hlevel := h.level_le now
        rw [admittedIn_cons b later hinside]
        linarith
      | false =>
        rw [admittedIn_cons_of_outside b later hinside]
        exact ih (h.acquire now) (List.pairwise_cons.mp ordered).2
    · exact .inl (b.admittedIn_of_late ordered (Nat.le_of_not_lt hstop))

theorem gain_mul_lt {first last : Nat} (positive : 0 < micros) (some_limit : 0 < limit)
    (hfirst : inWindow start length first = true) (hlast : inWindow start length last = true) :
    ((last : Rat) - first) * pace micros limit * micros < limit * length := by
  have hmicros : (micros : Rat) ≠ 0 := Nat.cast_ne_zero.mpr (Nat.ne_of_gt positive)
  have hlimit : (0 : Rat) < limit := Nat.cast_pos.mpr some_limit
  have hwithin : ((1000 * last : Nat) : Rat) < ((1000 * first + length : Nat) : Rat) := by
    rw [inWindow_iff] at hfirst hlast
    exact Nat.cast_lt.mpr (by omega)
  push_cast at hwithin
  calc ((last : Rat) - first) * pace micros limit * micros
      = limit * (1000 * ((last : Rat) - first)) := by
        rw [pace]
        field_simp
    _ < limit * length := mul_lt_mul_of_pos_left (by linarith) hlimit

/-- For all that is admitted in a window there is a token, one that was saved up or one that came in. -/
theorem Sound.admittedIn_mul_lt (h : b.Sound micros limit) (positive : 0 < micros)
    (ordered : times.Pairwise (· ≤ ·)) (start length : Nat) :
    b.admittedIn times start length = 0 ∨
      b.admittedIn times start length * micros < limit * (micros + length) := by
  rcases h.admittedIn_le ordered start length with hnone | ⟨first, last, hfirst, hlast, hcount⟩
  · exact .inl hnone
  rcases Nat.eq_zero_or_pos limit with rfl | hlimit
  · refine .inl ?_
    simpa [pace] using hcount
  · have hgain := gain_mul_lt positive hlimit hfirst hlast
    have hmul := mul_le_mul_of_nonneg_right hcount (Nat.cast_nonneg (α := Rat) micros)
    refine .inr (Nat.cast_lt (α := Rat) |>.mp ?_)
    push_cast
    linarith

/-- A period that begins with a try that finds no token has only those tokens that come in. -/
theorem Sound.admittedIn_le_of_refused (h : b.Sound micros limit) (positive : 0 < micros)
    (refused : (b.acquire now).1 = false) (ordered : (now :: times).Pairwise (· ≤ ·)) :
    (b.acquire now).2.admittedIn times (1000 * now) micros ≤ limit := by
  have hbegun : inWindow (1000 * now) micros now = true := by
    rw [inWindow_iff]
    omega
  obtain ⟨last, hlast, hcount⟩ := (h.acquire now).admittedIn_le_tokens
    (by rwa [acquire_refilledAt]) (by rwa [acquire_refilledAt])
  have hempty : (b.acquire now).2.tokens < 1 := by
    have hspent := acquire_tokens b now
    have hlevel := mt admits_iff.mpr (by rw [refused]; exact Bool.false_ne_true)
    rw [refused] at hspent
    simp only [Bool.false_eq_true, if_false, add_zero] at hspent
    linarith
  rw [acquire_refilledAt] at hcount
  refine Nat.lt_succ_iff.mp (Nat.cast_lt (α := Rat) |>.mp ?_)
  push_cast
  rcases Nat.eq_zero_or_pos limit with rfl | hlimit
  · simp only [pace, Nat.cast_zero, zero_mul, zero_div, mul_zero, add_zero] at hcount ⊢
    linarith
  · have hgain := gain_mul_lt positive hlimit hbegun hlast
    have hgain' := lt_of_mul_lt_mul_right hgain (Nat.cast_nonneg (α := Rat) micros)
    linarith

theorem Sound.admitted_replicate (h : b.Sound micros limit) {count : Nat} (enough : (count : Rat) ≤ b.level now) :
    b.admitted (List.replicate count now) = List.replicate count now := by
  induction count generalizing b with
  | zero => rfl
  | succ count ih =>
    push_cast at enough
    have hcount : (0 : Rat) ≤ count := Nat.cast_nonneg count
    have hfound : (b.acquire now).1 = true := admits_iff.mpr (by linarith)
    have hspent := acquire_tokens b now
    have hlevel := h.level_le now
    have hleft : (count : Rat) ≤ (b.acquire now).2.level now := by
      rw [(h.acquire now).level_eq, acquire_refilledAt]
      rw [hfound] at hspent
      simp only [if_true, Nat.sub_self, Nat.cast_zero, zero_mul, add_zero] at hspent ⊢
      exact le_min (by linarith) (by linarith)
    rw [List.replicate_succ, admitted, hfound, if_pos rfl, ih (h.acquire now) hleft]

theorem after_replicate_refilledAt (b : TokenBucket Rat) {count : Nat} (some_count : 0 < count) (now : Nat) :
    (b.after (List.replicate count now)).refilledAt = now := by
  obtain ⟨count, rfl⟩ := Nat.exists_eq_succ_of_ne_zero (Nat.ne_of_gt some_count)
  rw [Nat.succ_eq_add_one, List.replicate_succ', after, List.foldl_append]
  exact acquire_refilledAt _ now

theorem Sound.level_refilled (h : b.Sound micros limit) (positive : 0 < micros) (fine : 1000 * limit ≤ micros) :
    ((limit - 1 : Nat) : Rat) ≤ b.level (b.refilledAt + (micros - 1) / 1000) := by
  have hmicros : (0 : Rat) < micros := Nat.cast_pos.mpr positive
  have henough : (limit - 1) * micros ≤ limit * (1000 * ((micros - 1) / 1000)) := by
    have hround : micros ≤ 1000 * ((micros - 1) / 1000) + 1000 := by omega
    have hmul := Nat.mul_le_mul_left limit hround
    rw [Nat.mul_add] at hmul
    rw [Nat.sub_mul, Nat.one_mul]
    omega
  have hgain : ((limit - 1 : Nat) : Rat) ≤ ((micros - 1) / 1000 : Nat) * pace micros limit := by
    rw [pace, mul_div_assoc', le_div_iff₀ hmicros]
    calc ((limit - 1 : Nat) : Rat) * micros
        ≤ ((limit * (1000 * ((micros - 1) / 1000)) : Nat) : Rat) := by
          rw [← Nat.cast_mul]
          exact Nat.cast_le.mpr henough
      _ = ((micros - 1) / 1000 : Nat) * ((limit : Rat) * 1000) := by
          push_cast
          ring
  have htokens := h.tokens
  rw [h.level_eq, Nat.add_sub_cancel_left]
  exact le_min (by linarith) (Nat.cast_le.mpr (Nat.sub_le limit 1))

def rush (micros limit now : Nat) : List Nat :=
  List.replicate limit now ++ List.replicate (limit - 1) (now + (micros - 1) / 1000)

theorem rush_ordered (micros limit now : Nat) : (rush micros limit now).Pairwise (· ≤ ·) := by
  refine List.pairwise_append.mpr ⟨List.pairwise_replicate.mpr ?_, List.pairwise_replicate.mpr ?_, ?_⟩
  · exact .inr (Nat.le_refl _)
  · exact .inr (Nat.le_refl _)
  · intro t ht t' ht'
    rw [List.eq_of_mem_replicate ht, List.eq_of_mem_replicate ht']
    exact Nat.le_add_right _ _

theorem admitted_rush (positive : 0 < micros) (fine : 1000 * limit ≤ micros) (now : Nat) :
    (full micros limit now : TokenBucket Rat).admitted (rush micros limit now) = rush micros limit now := by
  have hsound := sound_full positive limit now
  rcases Nat.eq_zero_or_pos limit with rfl | hlimit
  · rfl
  have hburst : (limit : Rat) ≤ (full micros limit now : TokenBucket Rat).level now := by
    rw [hsound.level_eq]
    refine le_min ?_ (le_refl _)
    simp [full, TokenNumber.ofNat]
  have hback := (hsound.after (List.replicate limit now)).level_refilled positive fine
  rw [after_replicate_refilledAt _ hlimit] at hback
  rw [rush, admitted_append, hsound.admitted_replicate hburst, (hsound.after _).admitted_replicate hback]

theorem admittedIn_rush (positive : 0 < micros) (fine : 1000 * limit ≤ micros) (now : Nat) :
    (full micros limit now : TokenBucket Rat).admittedIn (rush micros limit now) (1000 * now) micros =
      2 * limit - 1 := by
  have hall : (rush micros limit now).countP (inWindow (1000 * now) micros) =
      (rush micros limit now).length := by
    rw [List.countP_eq_length]
    intro t ht
    have hle : now ≤ t ∧ t ≤ now + (micros - 1) / 1000 := by
      rcases List.mem_append.mp ht with ht | ht <;> rw [List.eq_of_mem_replicate ht] <;> omega
    rw [inWindow_iff]
    omega
  rw [admittedIn, admitted_rush positive fine, hall, rush, List.length_append, List.length_replicate,
    List.length_replicate]
  omega

/-- However an exact bucket is tried, less than twice its limit is admitted in any window as long as a
period, since the tokens that were saved up and those that come in add up; a burst and another one before
the period is over are admitted up to that. A period that begins with a try that finds no token keeps to
the limit, and in the long run the limit is kept on average. -/
theorem admits_less_than_twice (positive : 0 < micros) (limit now : Nat) :
    let bucket : TokenBucket Rat := full micros limit now
    (∀ times : List Nat, times.Pairwise (· ≤ ·) → ∀ start,
      bucket.admittedIn times start micros ≤ 2 * limit - 1 ∧
      ∀ length, bucket.admittedIn times start length * micros ≤ limit * (micros + length)) ∧
    (∀ earlier refused times, (earlier ++ refused :: times).Pairwise (· ≤ ·) →
      ((bucket.after earlier).acquire refused).1 = false →
        (bucket.after (earlier ++ [refused])).admittedIn times (1000 * refused) micros ≤ limit) ∧
    (1000 * limit ≤ micros → ∃ times : List Nat, times.Pairwise (· ≤ ·) ∧ (∀ t ∈ times, now ≤ t) ∧
      bucket.admitted times = times ∧ bucket.admittedIn times (1000 * now) micros = 2 * limit - 1) := by
  intro bucket
  have hsound : bucket.Sound micros limit := sound_full positive limit now
  refine ⟨?_, ?_, ?_⟩
  · intro times ordered start
    constructor
    · rcases hsound.admittedIn_mul_lt positive ordered start micros with hnone | hlt
      · omega
      · have hlt' : bucket.admittedIn times start micros < limit * 2 := by
          refine Nat.lt_of_mul_lt_mul_right (a := micros) ?_
          calc bucket.admittedIn times start micros * micros
              < limit * (micros + micros) := hlt
            _ = limit * 2 * micros := by ring
        omega
    · intro length
      rcases hsound.admittedIn_mul_lt positive ordered start length with hnone | hlt
      · rw [hnone, Nat.zero_mul]
        exact Nat.zero_le _
      · exact hlt.le
  · intro earlier refused times ordered hrefused
    have hafter : bucket.after (earlier ++ [refused]) = ((bucket.after earlier).acquire refused).2 := by
      rw [after, List.foldl_append]
      rfl
    rw [hafter]
    exact (hsound.after earlier).admittedIn_le_of_refused positive hrefused (List.pairwise_append.mp ordered).2.1
  · intro fine
    refine ⟨rush micros limit now, rush_ordered micros limit now, ?_, admitted_rush positive fine now,
      admittedIn_rush positive fine now⟩
    intro t ht
    rcases List.mem_append.mp ht with ht | ht
    · rw [List.eq_of_mem_replicate ht]
    · rw [List.eq_of_mem_replicate ht]
      exact Nat.le_add_right _ _

private def steady : List Nat := (List.range 19).map fun i => 50 * (i + 1)

theorem busy_second_admits_less_than_twice :
    let bucket : TokenBucket Rat := full 1000000 20 0
    let burst := List.replicate 20 0
    0 < 1000000 ∧ (burst ++ 0 :: steady).Pairwise (· ≤ ·) ∧
      ((bucket.after burst).acquire 0).1 = false ∧
      bucket.admittedIn (burst ++ 0 :: steady) 0 1000000 = 39 ∧
      bucket.admittedIn (burst ++ 0 :: steady) 0 1000000 ≤ 2 * 20 - 1 ∧
      (bucket.after (burst ++ [0])).admittedIn steady 0 1000000 ≤ 20 := by
  intro bucket burst
  have hordered : (burst ++ 0 :: steady).Pairwise (· ≤ ·) := by decide
  have hrefused : ((bucket.after burst).acquire 0).1 = false := by decide +kernel
  have positive : 0 < 1000000 := by decide
  obtain ⟨hwindows, hrefusals, -⟩ := admits_less_than_twice positive 20 0
  exact ⟨positive, hordered, hrefused, by decide +kernel, (hwindows _ hordered 0).1,
    hrefusals burst 0 steady hordered hrefused⟩

/-- Two calls at once and one after half a period are three in a period for two. -/
theorem burst_then_refill_exceeds :
    (full 1000000 2 0 : TokenBucket Rat).admitted [0, 0, 500] = [0, 0, 500] ∧
      ¬ ∀ (micros limit now : Nat) (times : List Nat) (start : Nat), 0 < micros → times.Pairwise (· ≤ ·) →
        (full micros limit now : TokenBucket Rat).admittedIn times start micros ≤ limit := by
  constructor
  · decide +kernel
  · intro hall
    have hthree : (full 1000000 2 0 : TokenBucket Rat).admittedIn [0, 0, 500] 0 1000000 = 3 := by
      decide +kernel
    have htwo := hall 1000000 2 0 [0, 0, 500] 0 (by decide) (by decide)
    rw [hthree] at htwo
    exact absurd htwo (by decide)

end ChainFeed.TokenBucket

import ChainFeed.Activity

/-!
# Activities among others

While an activity waits, others may change the state in any way they like, and it may be let go on later
than it has asked for. `Plays` says what an activity can come to then. Two activities that come to the same
have the same plays, and binding respects this.
-/

namespace ChainFeed.Activity

inductive Outcome (σ α : Type) where
  | ended (result : α) (now : Nat) (s : σ)
  | waiting (now : Nat) (s : σ)

variable {σ α β : Type}

/-- What the activity can come to from a moment and a state, when it and the others bring about only states
that satisfy `Q`. -/
def Plays (Q : σ → Prop) : Activity σ α → Nat → σ → Outcome σ α → Prop
  | .done a, now, s, o => o = .ended a now s
  | .act use next, now, s, o => Q (use now s).2 ∧ (next (use now s).1).Plays Q now (use now s).2 o
  | .wait ms wakeWhen next, now, _, o =>
    ∃ t s', now ≤ t ∧ Q s' ∧
      (o = .waiting t s' ∨ (wakeWhen s' = true ∨ ∃ d ∈ ms, now + d ≤ t) ∧ next.Plays Q t s' o)

variable {Q : σ → Prop} {now : Nat} {s : σ} {a a' : Activity σ α}

theorem plays_act {γ : Type} {use : Nat → σ → γ × σ} {next : γ → Activity σ α} {o : Outcome σ α} :
    (Activity.act use next).Plays Q now s o ↔
      Q (use now s).2 ∧ (next (use now s).1).Plays Q now (use now s).2 o := Iff.rfl

theorem Plays.holds {r : α} {t : Nat} {s' : σ} (h : a.Plays Q now s (.ended r t s')) (start : Q s) : Q s' := by
  induction a generalizing now s with
  | done b =>
    cases h
    exact start
  | act use next ih => exact ih _ h.2 h.1
  | wait ms wakeWhen next ih =>
    obtain ⟨t', s₁, -, hs₁, hwaits | ⟨-, hnext⟩⟩ := h
    · cases hwaits
    · exact ih hnext hs₁

/-- A play of one activity after another is a play of the first one that does not end, or one that ends and
then one of the second. -/
theorem plays_bind {x : Activity σ α} {f : α → Activity σ β} {o : Outcome σ β} :
    (x >>= f).Plays Q now s o ↔
      (∃ t s', x.Plays Q now s (.waiting t s') ∧ o = .waiting t s') ∨
        ∃ r t s', x.Plays Q now s (.ended r t s') ∧ (f r).Plays Q t s' o := by
  induction x generalizing now s with
  | done r =>
    constructor
    · exact fun h => .inr ⟨r, now, s, rfl, h⟩
    · rintro (⟨t, s', hwaits, -⟩ | ⟨r', t, s', hended, h⟩)
      · cases hwaits
      · cases hended
        exact h
  | act use next ih =>
    refine (and_congr_right fun _ => ih (use now s).1).trans ?_
    simp only [plays_act, and_or_left, ← exists_and_left, and_assoc]
  | wait ms wakeWhen next ih =>
    constructor
    · rintro ⟨t, s₁, hlater, hs₁, rfl | ⟨hdue, hnext⟩⟩
      · exact .inl ⟨t, s₁, ⟨t, s₁, hlater, hs₁, .inl rfl⟩, rfl⟩
      · rcases ih.mp hnext with ⟨t', s', hwaits, ho⟩ | ⟨r, t', s', hended, h⟩
        · exact .inl ⟨t', s', ⟨t, s₁, hlater, hs₁, .inr ⟨hdue, hwaits⟩⟩, ho⟩
        · exact .inr ⟨r, t', s', ⟨t, s₁, hlater, hs₁, .inr ⟨hdue, hended⟩⟩, h⟩
    · rintro (⟨t', s', ⟨t, s₁, hlater, hs₁, hwaits | ⟨hdue, hnext⟩⟩, rfl⟩ |
        ⟨r, t', s', ⟨t, s₁, hlater, hs₁, hwaits | ⟨hdue, hnext⟩⟩, h⟩)
      · cases hwaits
        exact ⟨t', s', hlater, hs₁, .inl rfl⟩
      · exact ⟨t, s₁, hlater, hs₁, .inr ⟨hdue, ih.mpr (.inl ⟨t', s', hnext, rfl⟩)⟩⟩
      · cases hwaits
      · exact ⟨t, s₁, hlater, hs₁, .inr ⟨hdue, ih.mpr (.inr ⟨r, t', s', hnext, h⟩)⟩⟩

def SamePlays (Q : σ → Prop) (a a' : Activity σ α) : Prop :=
  ∀ now s o, Q s → (a.Plays Q now s o ↔ a'.Plays Q now s o)

theorem SamePlays.refl (a : Activity σ α) : SamePlays Q a a := fun _ _ _ _ => Iff.rfl

theorem SamePlays.bind {x x' : Activity σ α} {f f' : α → Activity σ β} (hx : SamePlays Q x x')
    (hf : ∀ r, SamePlays Q (f r) (f' r)) : SamePlays Q (x >>= f) (x' >>= f') := by
  intro now s o start
  simp only [plays_bind, hx _ _ _ start]
  refine or_congr_right (exists_congr fun r => exists_congr fun t => exists_congr fun s' => ?_)
  refine and_congr_right fun hended => hf r t s' o ?_
  exact ((hx now s _ start).mpr hended).holds start

/-- An activity that is not to be dropped in any state that can come about is not dropped. -/
theorem samePlays_whileNot {stop : σ → Bool} (never : ∀ s, Q s → stop s = false) (a : Activity σ α) :
    SamePlays Q (a.whileNot stop) (some <$> a) := by
  induction a with
  | done r => exact .refl _
  | act use next ih =>
    intro now s o _
    exact and_congr_right fun h => ih _ now _ o h
  | wait ms wakeWhen next ih =>
    intro now s o _
    refine exists_congr fun t => exists_congr fun s' => and_congr_right fun _ => and_congr_right fun hs' => ?_
    simp only [never s' hs', Bool.or_false, plays_act, hs', true_and]
    exact or_congr_right (and_congr_right fun _ => ih t s' o hs')

def Gives (P : α → Prop) : Activity σ α → Prop
  | .done a => P a
  | .act _ next => ∀ b, (next b).Gives P
  | .wait _ _ next => next.Gives P

theorem Gives.bind {P : α → Prop} {R : β → Prop} {x : Activity σ α} {f : α → Activity σ β} (hx : x.Gives P)
    (hf : ∀ r, P r → (f r).Gives R) : (x >>= f).Gives R := by
  induction x with
  | done r => exact hf r hx
  | act use next ih => exact fun b => ih b (hx b)
  | wait ms wakeWhen next ih => exact ih hx

theorem gives_any (a : Activity σ α) : a.Gives fun _ => True := by
  induction a with
  | done r => trivial
  | act use next ih => exact ih
  | wait ms wakeWhen next ih => exact ih

theorem Gives.map {P : α → Prop} {a : Activity σ α} (h : a.Gives P) (g : α → β) :
    (g <$> a).Gives fun r => ∃ x, P x ∧ r = g x :=
  h.bind fun x hx => ⟨x, hx, rfl⟩

theorem Gives.result {P : α → Prop} (h : a.Gives P) {r : α} {t : Nat} {s' : σ}
    (ended : a.Plays Q now s (.ended r t s')) : P r := by
  induction a generalizing now s with
  | done b =>
    cases ended
    exact h
  | act use next ih => exact ih _ (h _) ended.2
  | wait ms wakeWhen next ih =>
    obtain ⟨t', s₁, -, -, hwaits | ⟨-, hnext⟩⟩ := ended
    · cases hwaits
    · exact ih h hnext

/-- At every wait the activity ends with `r` as soon as it is let go on in a state that meets the condition,
and does nothing more. -/
inductive EndsWhen (stop : σ → Bool) (r : α) : Activity σ α → Prop
  | done (a : α) : EndsWhen stop r (.done a)
  | act {γ : Type} {use : Nat → σ → γ × σ} {next : γ → Activity σ α} (goes_on : ∀ b, EndsWhen stop r (next b)) :
      EndsWhen stop r (.act use next)
  | wait {ms : Option Nat} {wakeWhen : σ → Bool} {next : Activity σ α}
      (ends : ∀ limit now s, stop s = true →
        (Activity.wait ms wakeWhen next).runUntil limit now s = (.ended r now, s))
      (goes_on : EndsWhen stop r next) : EndsWhen stop r (.wait ms wakeWhen next)

theorem endsWhen_whileNot {stop : σ → Bool} {r : β} {k : Option α → Activity σ β} (dropped : k none = .done r)
    (kept : ∀ x, EndsWhen stop r (k (some x))) (a : Activity σ α) : EndsWhen stop r (a.whileNot stop >>= k) := by
  induction a with
  | done x => exact kept x
  | act use next ih => exact .act ih
  | wait ms wakeWhen next ih =>
    refine .wait ?_ (.act fun stopped => ?_)
    · intro limit now s hstop
      simp only [Activity.bind, runUntil, hstop, dropped, Bool.or_true, if_true]
    · cases stopped with
      | true =>
        change EndsWhen stop r (k none)
        exact dropped ▸ .done r
      | false => exact ih

end ChainFeed.Activity

import Mathlib.Data.Stream.Init
import ChainFeed.Proofs.Journal
import ChainFeed.Rpc.Http

/-!
# The POSTs of a call

A server follows a script of outcomes, one for each POST that reaches it, and everything the client does is
written down. A call posts one body again and again, with a wait before each repetition, up to the first
outcome that settles it or until there are no retries left, and returns what the last POST gave.
-/

namespace ChainFeed.Rpc.Http

inductive Deed where
  | posted (body : String)
  | slept (ms : Nat)

def Deed.body? : Deed → Option String
  | .posted body => some body
  | .slept _ => none

abbrev Script := Stream' Outcome

/-- The client waits, but has no use for the time. -/
instance : Clock (Journal Deed Script) where
  now := pure 0
  sleep ms := .watch (fun _ => .slept ms) (pure ())
  wall := pure (.ofUnix 0 0)
  unixTime := pure 0

/-- The server gives the next outcome of its script, whatever is posted. -/
def follow (body : String) : Journal Deed Script Outcome :=
  .watch (fun _ => .posted body) fun script => (script.head, script.tail)

def client (config : Config) (url : String) : Transport (Journal Deed Script) := transport follow config url

def Outcome.Settles : Outcome → Prop
  | .reply status _ => 200 ≤ status ∧ status < 300
  | .timedOut | .unreached _ => False

instance : DecidablePred Outcome.Settles := fun o =>
  match o with
  | .reply status _ => inferInstanceAs (Decidable (200 ≤ status ∧ status < 300))
  | .timedOut | .unreached _ => inferInstanceAs (Decidable False)

section

variable {α : Type} (url : String) (timeout : UInt64) (read : Json → Option α)

/-- What each outcome gives. -/
inductive Outcome.Gives : Outcome → Except TransportError α → Prop
  | value {status : Nat} {body : String} {j : Json} {a : α} (low : 200 ≤ status) (high : status < 300)
      (parsed : Json.read? body = some j) (decoded : read j = some a) : Gives (.reply status body) (.ok a)
  | undecodable {status : Nat} {body : String} (low : 200 ≤ status) (high : status < 300)
      (unread : ∀ j, Json.read? body = some j → read j = none) :
      Gives (.reply status body) (.error .undecodable)
  | limited (body : String) : Gives (.reply 429 body) (.error (.rateLimited url))
  | refused {status : Nat} (body : String) (other : status ≠ 429) (outside : status < 200 ∨ 300 ≤ status) :
      Gives (.reply status body) (.error (.http ("HTTP " ++ toString status ++ ": " ++ body)))
  | timedOut : Gives .timedOut (.error (.timeout timeout))
  | unreached (reason : String) : Gives (.unreached reason) (.error (.http reason))

theorem Outcome.gives_result (o : Outcome) : Gives url timeout read o (o.result url timeout read) := by
  cases o with
  | timedOut => exact .timedOut
  | unreached reason => exact .unreached reason
  | reply status body =>
    simp only [result]
    split
    · next h => exact h ▸ .limited body
    · next hother =>
      split
      · next houtside => exact .refused body hother houtside
      · next hinside =>
        have hlow : 200 ≤ status := by omega
        have hhigh : status < 300 := by omega
        cases hread : (Json.read? body).bind read with
        | none => exact .undecodable hlow hhigh fun j hj => by simpa [hj] using hread
        | some a =>
          obtain ⟨j, hparsed, hdecoded⟩ := Option.bind_eq_some_iff.mp hread
          exact .value hlow hhigh hparsed hdecoded

theorem Outcome.settles_iff (o : Outcome) :
    o.Settles ↔ ∀ e, o.result url timeout read = .error e → e.isRetryable = false := by
  have hgives := o.gives_result url timeout read
  generalize o.result url timeout read = r at hgives
  cases hgives with
  | value low high => simp [Settles, low, high]
  | undecodable low high => simp [Settles, low, high, TransportError.isRetryable]
  | limited body => simp [Settles, TransportError.isRetryable]
  | refused body other outside =>
    simp only [Settles, TransportError.isRetryable]
    constructor
    · rintro ⟨low, high⟩
      omega
    · intro h
      cases h _ rfl
  | timedOut | unreached => simp [Settles, TransportError.isRetryable]

end

/-- The place of the first outcome among `retries + 1` that settles the call, counted from one, or all of
them when there is none. -/
def posts (script : Script) (retries : Nat) : Nat :=
  match (script.take (retries + 1)).findIdx? (·.Settles) with
  | some k => k + 1
  | none => retries + 1

variable {script : Script} {retries : Nat}

theorem posts_zero : posts script 0 = 1 := by
  by_cases h : script.head.Settles <;> simp [posts, Stream'.take_succ, h]

theorem posts_of_settles (h : script.head.Settles) : posts script (retries + 1) = 1 := by
  rw [posts, Stream'.take_succ, List.findIdx?_cons]
  simp [h]

theorem posts_of_not_settles (h : ¬ script.head.Settles) :
    posts script (retries + 1) = posts script.tail retries + 1 := by
  rw [posts, posts, Stream'.take_succ, List.findIdx?_cons]
  simp only [h, decide_false, Bool.false_eq_true, if_false]
  cases (script.tail.take (retries + 1)).findIdx? (·.Settles) <;> rfl

theorem posts_pos (script : Script) (retries : Nat) : 0 < posts script retries := by
  unfold posts
  split <;> exact Nat.succ_pos _

theorem posts_le (script : Script) (retries : Nat) : posts script retries ≤ retries + 1 := by
  unfold posts
  split
  · next k hk =>
    have hlt : k < (script.take (retries + 1)).length := (List.findIdx?_eq_some_iff_getElem.mp hk).1
    rw [Stream'.length_take] at hlt
    exact hlt
  · exact Nat.le_refl _

/-- The third outcome is the first that settles a call. -/
example : posts (.cons (.reply 500 "busy") (.cons .timedOut (.const (.reply 200 "null")))) 5 = 3 := by decide

/-- The deeds of `count` POSTs of one body, the first of them try number `attempt`: between two of them there
is one wait, as long as the schedule says after the try before. -/
def talk (r : Retry) (body : String) (attempt count : Nat) : List Deed :=
  .posted body :: (List.range' attempt (count - 1)).flatMap fun k => [.slept (r.delay k), .posted body]

theorem talk_succ (r : Retry) (body : String) (attempt : Nat) {count : Nat} (h : 0 < count) :
    talk r body attempt (count + 1) = .posted body :: .slept (r.delay attempt) :: talk r body (attempt + 1) count := by
  obtain ⟨count, rfl⟩ := Nat.exists_eq_succ_of_ne_zero (Nat.ne_of_gt h)
  simp [talk, List.range'_succ]

theorem bodies_talk (r : Retry) (body : String) (attempt : Nat) {count : Nat} (h : 0 < count) :
    (talk r body attempt count).filterMap Deed.body? = List.replicate count body := by
  induction count, h using Nat.le_induction generalizing attempt with
  | base => rfl
  | succ count h ih => simp [talk_succ r body attempt h, List.filterMap_cons, Deed.body?, ih, List.replicate_succ]

section

variable {α : Type} (config : Config) (url : String) (body : Json) (read : Json → Option α)

def once : Journal Deed Script (Except TransportError α) := do
  return (← follow body.render).result url config.timeout read

theorem run_once (script : Script) : (once config url body read).run script =
    ⟨script.head.result url config.timeout read, [.posted body.render], script.tail⟩ := rfl

def repeated (left attempt : Nat) : Journal Deed Script (Except TransportError α) :=
  config.retry.repeatFrom TransportError.isRetryable (once config url body read) left attempt

theorem run_repeated_of_settles (left attempt : Nat) (h : script.head.Settles) :
    (repeated config url body read (left + 1) attempt).run script = (once config url body read).run script := by
  have hfinal := (script.head.settles_iff url config.timeout read).mp h
  rw [repeated, Retry.repeatFrom, Journal.run_bind, run_once]
  cases hresult : script.head.result url config.timeout read with
  | ok a => rfl
  | error e => simp [hfinal e hresult]

theorem run_repeated_of_not_settles (left attempt : Nat) (h : ¬ script.head.Settles) :
    let rest := (repeated config url body read left (attempt + 1)).run script.tail
    (repeated config url body read (left + 1) attempt).run script =
      ⟨rest.result, .posted body.render :: .slept (config.retry.delay attempt) :: rest.deeds, rest.after⟩ := by
  intro rest
  obtain ⟨e, hresult, hagain⟩ : ∃ e, script.head.result url config.timeout read = .error e ∧
      e.isRetryable = true := by
    simpa [Outcome.settles_iff url config.timeout read] using h
  rw [repeated, Retry.repeatFrom, Journal.run_bind, run_once, hresult]
  simp only [hagain, if_true]
  rfl

/-- A call posts its body up to the outcome that decides it, and returns what that outcome gives. -/
theorem run_repeated (left attempt : Nat) (script : Script) :
    (repeated config url body read left attempt).run script =
      ⟨(script.get (posts script left - 1)).result url config.timeout read,
        talk config.retry body.render attempt (posts script left), script.drop (posts script left)⟩ := by
  induction left generalizing attempt script with
  | zero =>
    rw [repeated, Retry.repeatFrom, run_once, posts_zero]
    rfl
  | succ left ih =>
    by_cases h : script.head.Settles
    · rw [run_repeated_of_settles config url body read left attempt h, run_once, posts_of_settles h]
      rfl
    · have hpos := posts_pos script.tail left
      have hget : script.get (posts script.tail left) = script.tail.get (posts script.tail left - 1) := by
        rw [Stream'.get_tail, Nat.sub_add_cancel hpos]
      rw [run_repeated_of_not_settles config url body read left attempt h, ih, posts_of_not_settles h,
        talk_succ _ _ _ hpos, Nat.add_sub_cancel, hget, Stream'.drop_succ]

/-- What a call does and returns while the server follows the script. -/
structure Conducts (script : Script) (page : Journal.Page Deed Script (Except TransportError α)) : Prop where
  /-- It posts the same body each time, up to the outcome that settles it or to the last retry. -/
  posted : page.deeds.filterMap Deed.body? = List.replicate (posts script config.retry.maxRetries) body.render
  /-- Between two POSTs it waits once. -/
  deeds : page.deeds = talk config.retry body.render 1 (posts script config.retry.maxRetries)
  /-- Each wait is the one that the schedule has after as many tries. -/
  waits : ∀ k, 1 ≤ k → k < posts script config.retry.maxRetries →
    config.retry.delay? k = some (config.retry.delay k)
  returned : Outcome.Gives url config.timeout read (script.get (posts script config.retry.maxRetries - 1)) page.result
  after : page.after = script.drop (posts script config.retry.maxRetries)

theorem exchange_conducts (script : Script) :
    Conducts config url body read script ((exchange follow config url body read).run script) := by
  have hrun : (exchange follow config url body read).run script = _ :=
    run_repeated config url body read config.retry.maxRetries 1 script
  rw [hrun]
  refine ⟨bodies_talk _ _ _ (posts_pos _ _), rfl, fun k hfirst hlast => ?_, Outcome.gives_result .., rfl⟩
  have hle := posts_le script config.retry.maxRetries
  rw [Retry.delay?, if_neg (by omega)]

end

/-- Single requests and batches that are not empty are posted in the same way. -/
theorem posts_until_settled (script : Script) (config : Config) (url : String) :
    (∀ r : Request, Conducts config url r.toJson Response.ofJson? script (((client config url).send r).run script)) ∧
    (∀ (r : Request) (rs : List Request),
      Conducts config url (.arr ((r :: rs).map Request.toJson)) (Json.list? Response.ofJson?) script
        (((client config url).batch (r :: rs)).run script)) :=
  ⟨fun r => exchange_conducts config url r.toJson Response.ofJson? script,
    fun r rs => exchange_conducts config url (.arr ((r :: rs).map Request.toJson)) (Json.list? Response.ofJson?) script⟩

end ChainFeed.Rpc.Http

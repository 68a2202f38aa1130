import ChainFeed.Rpc.Transport

/-!
# Scripted nodes

A node that answers from a list of rules. Of the rules whose conditions a request meets and that have
not been used up, the first one answers it.
-/

namespace ChainFeed.Rehearsal

open Rpc

inductive Reply where
  | silent
  | failure (error : TransportError)
  /-- With this message, read as a response. -/
  | message (json : Json)
  /-- With a message that has these members and an id, that of the request unless one is given. -/
  | members (id : Option Json) (rest : List (String × Json))

/-- A rule; a condition that is there has to be met, also when it is null. -/
structure Rule where
  method : Option Json := none
  params : Option Json := none
  argument : Option Json := none
  before : Option Json := none
  id : Option Json := none
  /-- How often the rule may still be used; without a number, always. -/
  times : Option Nat := none
  reply : Reply

def argumentAt (params : Json) (i : Nat) : Option Json :=
  match params with
  | .arr items => items[i]?
  | _ => none

def agrees (wanted found : Option Json) : Bool :=
  match wanted, found with
  | none, _ => true
  | some w, some f => w == f
  | some _, none => false

def Rule.applies (rule : Rule) (r : Request) : Bool :=
  rule.times != some 0 &&
    agrees rule.method (some (.str r.method)) &&
    agrees rule.params (some r.params) &&
    agrees rule.argument (argumentAt r.params 0) &&
    agrees rule.before ((argumentAt r.params 1).bind (·.get? "before")) &&
    agrees rule.id (some r.id.toJson)

def Rule.use (rule : Rule) : Rule := { rule with times := rule.times.map (· - 1) }

structure Node where
  url : String := "node"
  rules : List Rule := []
  reversed : Bool := false
  /-- Whether batches are sent one request at a time. -/
  sequential : Bool := false

/-- What a node makes of one request: a response, no answer, or a failure of the call. -/
abbrev Answer := Except TransportError (Option Response)

def readResponse (j : Json) : Answer :=
  match Response.ofJson? j with
  | some r => .ok (some r)
  | none => .error .undecodable

def Reply.answer (reply : Reply) (r : Request) : Answer :=
  match reply with
  | .silent => .ok none
  | .failure e => .error e
  | .message j => readResponse j
  | .members id rest =>
    readResponse (.obj ([("jsonrpc", .str "2.0"), ("id", id.getD r.id.toJson)] ++ rest))

def methodNotFound (r : Request) : Answer :=
  .ok (some { id := r.id, error := some { code := -32601, message := "Method not found" } })

def answerWith : List Rule → Request → Answer × List Rule
  | [], r => (methodNotFound r, [])
  | rule :: rules, r =>
    if rule.applies r then (rule.reply.answer r, rule.use :: rules)
    else
      let (a, rules) := answerWith rules r
      (a, rule :: rules)

namespace Node

def send (n : Node) (r : Request) : Except TransportError Response × Node :=
  let (a, rules) := answerWith n.rules r
  let result := match a with
    | .error e => .error e
    | .ok none => .error (.http "no response")
    | .ok (some response) => .ok response
  (result, { n with rules })

def answers : List Request → List Rule → Except TransportError (List Response) × List Rule
  | [], rules => (.ok [], rules)
  | r :: rs, rules =>
    match answerWith rules r with
    | (.error e, rules) => (.error e, rules)
    | (.ok first, rules) =>
      let (rest, rules) := answers rs rules
      (rest.map (first.toList ++ ·), rules)

def batch (n : Node) (rs : List Request) : Except TransportError (List Response) × Node :=
  let (result, rules) := answers rs n.rules
  (result.map fun responses => if n.reversed then responses.reverse else responses, { n with rules })

end Node

end ChainFeed.Rehearsal

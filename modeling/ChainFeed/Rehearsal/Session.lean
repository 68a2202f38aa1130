import ChainFeed.Rehearsal.Directory
import ChainFeed.Rehearsal.Polling
import ChainFeed.Rehearsal.Server

/-!
# Rehearsing the command line

A command runs among some files, with at most one node that is served over HTTP.
-/

namespace ChainFeed.Rehearsal

structure Session where
  files : Directory := []
  node : Option (String × Node) := none
  online : Bool := true

structure Aftermath where
  output : Cli.Output
  world : World := {}

namespace Session

def post (s : Session) (url : String) (_timeout : UInt64) (body : String) : Act Rpc.Http.Outcome :=
  match s.node with
  | some (address, _) =>
    if s.online && (Text.afterStart? address url).isSome then World.postToNode 0 body
    else return .unreached (unreachedReason url)
  | none => return .unreached (unreachedReason url)

def surroundings (s : Session) : Surroundings (Activity World) where
  post := s.post
  pools := World.poolCell
  guards := World.guardCell
  count := World.count
  publish := World.publish

def stage (s : Session) : Stage := { world := { nodes := (s.node.map (·.2)).toList } }

/-- Runs the pollers of a configuration until each has come to its end. -/
def serve (s : Session) (c : Config) : Aftermath :=
  let loops := (s.surroundings.pollers c).map fun p => p.run shutdown cycleBudget p.config.start
  let (_, stage) := s.stage.together loops
  { output := {}, world := stage.world }

def run (s : Session) (args : List String) : Aftermath :=
  match Cli.Task.ofArgs args with
  | .print output => { output }
  | .check url family =>
    let (output, stage) := s.stage.perform (Cli.check s.surroundings url family)
    { output := output.getD {}, world := stage.world }
  | .load path =>
    match Cli.loaded path (s.files.read path) with
    | .error output => { output }
    | .ok c => s.serve c

end Session

end ChainFeed.Rehearsal

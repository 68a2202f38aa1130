import ChainFeed.Cli
import Std.Time.DateTime.Timestamp

/-!
# The executable

Files, the clocks and the console. There is no HTTP client behind it: every endpoint is out of reach.
-/

namespace ChainFeed

instance : Clock IO where
  now := IO.monoMsNow
  sleep ms := IO.sleep (UInt32.ofNat ms)
  wall := do
    let t ← Std.Time.Timestamp.now
    return .ofUnix t.toSecondsSinceUnixEpoch.val 0
  unixTime := do return Int64.ofInt (← Std.Time.Timestamp.now).toSecondsSinceUnixEpoch.val

namespace Cli

def cell {s : Type} (ref : IO.Ref s) : Shared IO s where
  update f := ref.modifyGet f

def printRecords (poller : String) (items : List Emitted) : IO (Except PollError PUnit) := do
  for item in items do
    IO.println ("emitted poller=" ++ poller ++ " record=" ++ item.toJson.render)
  return .ok ()

def surroundings (pools : IO.Ref (Table Rpc.Pool)) (guards : IO.Ref Guards) : Surroundings IO where
  post url _ _ := return .unreached ("error sending request for url (" ++ url ++ ")")
  pools := cell pools
  guards := cell guards
  count _ := return ()
  publish := printRecords

def untilKilled : Poller.Shutdown IO where
  requested := return false
  during action := do return some (← action)

def cycles : Nat := 0x4000000000000000

def serve (s : Surroundings IO) (c : Config) : IO Output := do
  let tasks ← (s.pollers c).mapM fun p => (p.run untilKilled cycles p.config.start).asTask
  tasks.forM fun task => do let _ ← IO.wait task
  return {}

/-- What the system says about a file that it cannot read. -/
def fileFault : IO.Error → FileFault
  | .noFileOrDirectory .. => .missing
  | .permissionDenied .. => .denied
  | .inappropriateType _ code _ => if code = 21 then .isDirectory else .notDirectory
  | .invalidArgument _ code details => if code = 36 then .nameTooLong else .other details
  | .userError _ => .notText
  | e => .other (toString e)

def readFile (path : String) : IO (Except FileFault String) := do
  try return .ok (← IO.FS.readFile path)
  catch e => return .error (fileFault e)

def perform (s : Surroundings IO) : Task → IO Output
  | .print output => return output
  | .check url family => check s url family
  | .load path => do
    match loaded path (← readFile path) with
    | .error output => return output
    | .ok c => serve s c

end Cli

end ChainFeed

def main (args : List String) : IO UInt32 := do
  let s := ChainFeed.Cli.surroundings (← IO.mkRef []) (← IO.mkRef [])
  let output ← ChainFeed.Cli.perform s (ChainFeed.Cli.Task.ofArgs args)
  IO.print output.out
  IO.eprint output.err
  return output.code.toUInt32

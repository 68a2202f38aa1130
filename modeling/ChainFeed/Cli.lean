import ChainFeed.Config.Reader
import ChainFeed.Service

/-!
# The command line

One command runs the pollers of a configuration file, one checks an endpoint, and two print texts. What
a command prints and its exit code are computed here.
-/

namespace ChainFeed

universe u

inductive FileFault where
  | missing
  | denied
  /-- The path goes on behind a file. -/
  | notDirectory
  | isDirectory
  | nameTooLong
  | notText
  | other (reason : String)
  deriving DecidableEq, Repr

def FileFault.message : FileFault → String
  | .missing => "No such file or directory (os error 2)"
  | .denied => "Permission denied (os error 13)"
  | .notDirectory => "Not a directory (os error 20)"
  | .isDirectory => "Is a directory (os error 21)"
  | .nameTooLong => "File name too long (os error 36)"
  | .notText => "stream did not contain valid UTF-8"
  | .other reason => reason

namespace Cli

structure Output where
  code : UInt8 := 0
  out : String := ""
  err : String := ""
  deriving DecidableEq, Repr

def lines (l : List String) : String := String.join (l.map (· ++ "\n"))

def version : String := "chainingest 0.1.0"

def usage : List String := [
  version,
  "Poll blockchains for logs and transactions",
  "",
  "USAGE:",
  "    chainingest <COMMAND>",
  "",
  "COMMANDS:",
  "    run        Run the pollers of a config file until Ctrl-C",
  "    check      Check an RPC endpoint (height, latency)",
  "    version    Print version",
  "    help       Print this help",
  "",
  "RUN FLAGS:",
  "    --config <FILE>   YAML config file  [required]",
  "",
  "CHECK FLAGS:",
  "    --url <URL>       RPC endpoint URL  [required]",
  "    --family <NAME>   evm | solana | near  [default: evm]"]

def failure (message : String) : Output := { code := 1, err := lines ["Error: " ++ message] }

/-- What follows the first occurrence of a flag. -/
def flag? (args : List String) (flag : String) : Option String :=
  match args with
  | [] => none
  | a :: rest => if a = flag then rest.head? else flag? rest flag

def trace : RepositoryError → String
  | .transport e => (RepositoryError.transport e).message ++ ": " ++ e.message
  | e => e.message

inductive Task where
  /-- Nothing that needs the network. -/
  | print (o : Output)
  | check (url : String) (family : ChainFamily)
  | load (path : String)
  deriving DecidableEq, Repr

def checkTask (args : List String) : Task :=
  match flag? args "--url" with
  | none => .print (failure "--url is required")
  | some url =>
    let name := (flag? args "--family").getD ChainFamily.evm.name
    match ChainFamily.ofName? name with
    | some family => .check url family
    | none => .print (failure (ChainFamily.unknownMessage name))

def Task.ofArgs : List String → Task
  | [] => .print { code := 1, out := lines usage }
  | "run" :: args =>
    match flag? args "--config" with
    | some path => .load path
    | none => .print (failure "--config is required")
  | "check" :: args => checkTask args
  | command :: _ =>
    if ["version", "--version", "-V"].contains command then .print { out := lines [version] }
    else if ["help", "--help", "-h"].contains command then .print { out := lines usage }
    else .print { code := 1, out := lines usage, err := lines ["Unknown command: " ++ command] }

def loaded (path : String) : Except FileFault String → Except Output Config
  | .error fault => .error (failure ("reading config file " ++ path ++ ": " ++ fault.message))
  | .ok text =>
    (Config.ofText text).mapError fun e => failure ("loading config file " ++ path ++ ": " ++ e.message)

variable {m : Type → Type u} [Monad m] [Clock m]

def check (s : Surroundings m) (url : String) (family : ChainFamily) : m Output := do
  let repo := family.repository [("endpoint", ⟨0, s.endpoint {} url⟩)]
  let announced := "Checking " ++ url ++ "..."
  let start ← Clock.now
  match ← repo.height "endpoint" .latest with
  | .error e => return { failure (trace e) with out := lines [announced] }
  | .ok height =>
    let finish ← Clock.now
    return { out := lines [announced, "  Status:       OK", "  Family:       " ++ family.title,
      "  Height:       " ++ toString height, "  Latency:      " ++ toString (finish - start) ++ "ms"] }

end Cli

end ChainFeed

import AnonCred.CommandLine
import AnonCred.Config.Layers
import AnonCred.Deployment
import AnonCred.Knowledge.Round

/-!
# The program

Runs one proof of knowledge and then a whole deployment, over a group and with a secret that the
settings and the command line give.
-/

namespace AnonCred.Program

/-! ## Outcomes -/

/-- Why a run fails. -/
inductive Failure
  | usage (error : CommandLine.UsageError)
  | settings (error : Config.LoadError)
  | flawed (flaw : Config.Flaw)
  | refused (error : Error)
  | rejected
deriving DecidableEq, Repr

/-- The exit status of a run that cannot be finished. -/
def unfinishedStatus : UInt32 := 101

/-- The exit status of a failed run. A wrong command line has one of its own. -/
def Failure.status : Failure → UInt32
  | .usage _ => 2
  | .settings (.interrupted _) => unfinishedStatus
  | .settings _ | .flawed _ | .refused _ | .rejected => 1

def Failure.message : Failure → String
  | .usage error => error.message
  | .settings error => error.message
  | .flawed flaw => flaw.message
  | .refused error => error.message
  | .rejected => "credential transfer rejected"

/-- What a run has to report: the name of the group, whether the proof of knowledge was accepted,
and the session key. -/
structure Report where
  group : String
  verified : Bool
  sessionKey : SessionKey
deriving DecidableEq

/-- The report with a label in front of each line. -/
def Report.fields (report : Report) : List (String × String) :=
  [("group", report.group), ("schnorr verified", if report.verified then "true" else "false"),
    ("session key", report.sessionKey.toHex)]

/-- A label with its colon takes up this many characters, with spaces behind it. -/
def labelWidth : Nat := 18

def Report.lines (report : Report) : List String :=
  report.fields.map fun (label, text) =>
    String.ofList ((label ++ ":").toList.rightpad labelWidth ' ') ++ text

/-- What a successful run answers. -/
inductive Answer
  | help
  | version
  | report (report : Report)
deriving DecidableEq

/-! ## Runs -/

/-- The secret where none is given. -/
def standardSecret : Nat := 345345345334

/-- The settings, with what the command line gives in place of what was loaded. -/
def override (config : Config) (arguments : CommandLine.Arguments) : Config :=
  { config with
    group := arguments.group.getD config.group
    challengeMode := arguments.mode.getD config.challengeMode }

/-- One proof of knowledge, and the deployment, which may end without a session key. Both take the
secret modulo the group's order. -/
def demonstrate {E : Type} [DecidableEq E] (G : CyclicGroup E) (config : Config) (secret : Nat) :
    Drawn (Option Report) := do
  let secret := secret % G.order
  let round ← Knowledge.round G config.challengeMode secret
  let sessionKey ← Deployment.run G config secret
  pure (sessionKey.map fun key => ⟨G.name, round.verified, key⟩)

/-- Runs with settings that are complete. -/
def runWith (config : Config) (secret : Nat) : ExceptT Failure Draw Report := do
  match ← (config.group.withGroup fun G => demonstrate G config secret).run with
  | .error error => throw (.refused error)
  | .ok none => throw .rejected
  | .ok (some report) => pure report

/-- Settings, and the secret for a run. -/
def prepare (arguments : CommandLine.Arguments) (file : Option String)
    (environment : List (String × String)) : Except Failure (Config × Nat) := do
  let loaded ← (Config.load file environment).mapError .settings
  let config := override loaded arguments
  config.validate.mapError .flawed
  pure (config, arguments.secret.getD standardSecret)

/-- Does what a command line asks for. -/
def run (words : List String) (file : Option String) (environment : List (String × String)) :
    ExceptT Failure Draw Answer := do
  match CommandLine.parse words environment with
  | .error error => throw (.usage error)
  | .ok .help => pure .help
  | .ok .version => pure .version
  | .ok (.run arguments) => do
    match prepare arguments file environment with
    | .error failure => throw failure
    | .ok (config, secret) => do
      let report ← runWith config secret
      pure (.report report)

end AnonCred.Program

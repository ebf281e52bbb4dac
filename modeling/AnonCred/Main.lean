import AnonCred.Program

/-!
# The executable

Fetches the file of settings, the environment and random bytes, and prints what `Program.run`
answers.
-/

namespace AnonCred.Main

/-- What the names of all variables start with. -/
def variableStart : String := "PSEUDONYM_"

/-- The variables that are looked at, without their common start. -/
def variableNames : List String :=
  ["GROUP", "CHALLENGE_MODE", "SESSION_KEY_BYTES", "ORGANIZATIONS", "REGISTRATION_KEYS"]

/-- The variables that are set. -/
def environment : IO (List (String × String)) :=
  variableNames.filterMapM fun name => do
    return (← IO.getEnv (variableStart ++ name)).map fun text => (name, text)

/-- The file of settings, which need not be there. -/
def settingsFile : IO (Option String) := do
  let path := (← IO.getEnv (variableStart ++ "CONFIG_PATH")).getD "config/pseudonym.toml"
  try some <$> IO.FS.readFile path catch _ => pure none

/-- So many random bytes are enough for a run, also if it has to generate a group. -/
def randomBytes : Nat := 4194304

/-- No loop of a run is tried this often. -/
def patience : Nat := 4294967296

/-- A stream of random bytes. -/
def randomSource : IO Source := do
  let bytes ← IO.getRandomBytes (USize.ofNat randomBytes)
  let seed ← IO.getRandomBytes 8
  pure (Source.ofTape bytes.data (UInt64.ofNat (Bytes.toNat seed.toList)) patience)

/-- What the command line can hold. -/
def help : List String :=
  ["Runs a proof of knowledge and a whole pseudonym deployment",
    "",
    "Usage: anoncred [OPTIONS]",
    "",
    "Options:",
    "  -g, --group <GROUP>    p224, p256, p384, p521, rfc5114, schnorr:<bits> or qr:<bits>",
    "  -m, --mode <MODE>      sigma, zkp or zkpok",
    "  -s, --secret <SECRET>  the user's secret, reduced modulo the group order",
    "  -h, --help             print this text",
    "  -V, --version          print the version"]

/-- The lines that an answer is printed in. -/
def lines : Program.Answer → List String
  | .help => help
  | .version => ["anoncred 0.1.0"]
  | .report report => report.lines

end AnonCred.Main

open AnonCred in
def main (words : List String) : IO UInt32 := do
  let program := Program.run words (← Main.settingsFile) (← Main.environment)
  match program.run (← Main.randomSource) with
  | none => do
    IO.eprintln "the run cannot be finished"
    pure Program.unfinishedStatus
  | some (.error failure, _) => do
    IO.eprintln failure.message
    pure failure.status
  | some (.ok answer, _) => do
    (Main.lines answer).forM IO.println
    pure 0

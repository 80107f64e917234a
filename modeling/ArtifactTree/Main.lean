import ArtifactTree.Command

/-!
# The program

Connects the command to the arguments, the environment and the file system of the machine.
-/

namespace ArtifactTree

def StorageFault.ofError : IO.Error → StorageFault
  | .noFileOrDirectory .. => noSuchEntry
  | .inappropriateType _ code _ => if code = 21 then isDirectory else notDirectory
  | .noSuchThing .. => noSuchEntry
  | error => other (toString error)

def readContent (p : Path) : IO (Except StorageFault ByteArray) := do
  match ← (IO.FS.readBinFile p.text).toBaseIO with
  | .ok content => return .ok content
  | .error error => return .error (.ofError error)

def machineStorage : Storage IO where
  has p := do
    match ← readContent p with
    | .ok _ => return true
    | .error fault => return fault = .isDirectory
  isFile p := return (← readContent p).isOk
  read p := do
    match ← readContent p with
    | .ok content =>
      match String.fromUTF8? content with
      | some text => return .ok text
      | none => return .error .notText
    | .error fault => return .error fault
  write p text := do
    match ← (IO.FS.writeFile p.text text).toBaseIO with
    | .ok () => return .ok ()
    | .error error => return .error (.ofError error)

/-- Chains of dependencies are followed down to this many levels, more than memory holds. -/
def machineLimit : Nat := Nat.pow 2 60

/-- What is shown to a user whose arguments lead to no run. -/
def usageText : String :=
  "Usage: deptree [--verbose] [--no-color] tree [--manifest <FILE>]... [--repository <DIR>]\n" ++
  "         [--format text|dot|tgf|graphml|json] [--output <FILE>] [--allow-missing]\n" ++
  "         [--no-cache] [--summary] [--conflicts]\n"

end ArtifactTree

open ArtifactTree in
/-- Runs the command, prints what it says, and ends with its code. -/
def main (arguments : List String) : IO UInt32 := do
  let environment ← IO.getEnv "DEPTREE_REPOSITORY"
  match CommandLine.read arguments environment with
  | .error .information => IO.print usageText
  | .error .usage => IO.eprint usageText
  | .ok _ => pure ()
  let outcome ← Command.run machineStorage machineLimit arguments environment
  IO.eprint outcome.stderr
  IO.print outcome.stdout
  return outcome.code.toUInt32

import ArtifactTree.Path
import ArtifactTree.Render.Format

/-!
# The command line

The arguments are switches, the word `tree`, and more switches and settings. They are taken one by
one, and the first one that asks for help or is not understood decides. A setting takes its value
from the same argument or from the next one; one-letter names may be strung together. Only manifests
may be named more than once, and each level of the command has its switches at most once.
-/

namespace ArtifactTree.CommandLine

inductive Switch where
  | verbose
  | noColor
  | allowMissing
  | noCache
  | summary
  | conflicts
deriving DecidableEq

inductive Setting where
  | manifest
  | repository
  | format
  | output
deriving DecidableEq

/-- What a name on the command line stands for. -/
inductive Meaning where
  | switch (s : Switch)
  | setting (s : Setting)
  | help
  | version

/-- Names that every level of the command knows, as words. -/
def commonWords : List (String × Meaning) :=
  [("verbose", .switch .verbose), ("no-color", .switch .noColor), ("help", .help),
    ("version", .version)]

def commonLetters : List (Char × Meaning) :=
  [('v', .switch .verbose), ('h', .help), ('V', .version)]

structure Level where
  words : List (String × Meaning)
  letters : List (Char × Meaning)

/-- In front of the subcommand. -/
def Level.top : Level := ⟨commonWords, commonLetters⟩

/-- Behind `tree`. -/
def Level.tree : Level where
  words := commonWords ++
    [("manifest", .setting .manifest), ("repository", .setting .repository),
      ("format", .setting .format), ("output", .setting .output),
      ("allow-missing", .switch .allowMissing), ("no-cache", .switch .noCache),
      ("summary", .switch .summary), ("conflicts", .switch .conflicts)]
  letters := commonLetters ++
    [('m', .setting .manifest), ('r', .setting .repository), ('f', .setting .format),
      ('o', .setting .output)]

/-- Why a command line does not lead to a run. -/
inductive Stop where
  /-- Help or the version was asked for. -/
  | information
  | usage
deriving DecidableEq

structure Taken where
  switches : List Switch := []
  settings : List (Setting × String) := []
  /-- A setting that still needs its value. -/
  pending : Option Setting := none
  /-- Whether two dashes have ended the names. -/
  ended : Bool := false
deriving DecidableEq

namespace Taken

/-- Fails if a setting still needs its value. -/
def settled (t : Taken) : Except Stop Unit :=
  if t.pending.isSome then .error .usage else .ok ()

def admits : Setting → String → Bool
  | .format, value => (Format.ofName? value).isSome
  | _, value => !value.isEmpty

def assign (t : Taken) (s : Setting) (value : String) : Except Stop Taken :=
  let repeated := s != .manifest && t.settings.any (·.1 == s)
  if repeated || !admits s value then .error .usage
  else .ok { t with settings := t.settings ++ [(s, value)], pending := none }

/-- Takes a name together with the value that is attached to it. -/
def meet (t : Taken) (meaning : Meaning) (attached : Option String) : Except Stop Taken := do
  t.settled
  match meaning, attached with
  | .setting s, some value => t.assign s value
  | .setting s, none => return { t with pending := some s }
  | _, some _ => throw .usage
  | .switch s, none =>
    if t.switches.contains s then throw .usage
    return { t with switches := s :: t.switches }
  | .help, none => throw .information
  | .version, none => throw .information

/-- Takes names of one letter. Behind a setting, the rest is its value, with or without an equals
sign in front. -/
def takeLetters (level : Level) (t : Taken) : List Char → Except Stop Taken
  | [] => .ok t
  | c :: rest =>
    match level.letters.lookup c with
    | none => .error .usage
    | some (.setting s) =>
      t.meet (.setting s) <|
        match rest with
        | [] => none
        | '=' :: value => some (.ofList value)
        | value => some (.ofList value)
    | some meaning => do takeLetters level (← t.meet meaning none) rest

/-- Takes a name that is a word, with a value attached by an equals sign if there is one. -/
def takeWord (level : Level) (t : Taken) (text : List Char) : Except Stop Taken :=
  let (name, attached) := match text.span (· != '=') with
    | (name, _ :: value) => (name, some (String.ofList value))
    | (name, []) => (name, none)
  match level.words.lookup (.ofList name) with
  | none => .error .usage
  | some meaning => t.meet meaning attached

def take (level : Level) (t : Taken) (argument : String) : Except Stop Taken :=
  if t.ended then .error .usage
  else
    match argument.toList with
    | ['-', '-'] => .ok { t with ended := true }
    | '-' :: '-' :: text => t.takeWord level text
    | '-' :: c :: text => t.takeLetters level (c :: text)
    | _ =>
      match t.pending with
      | some s => t.assign s argument
      | none => .error .usage

def value? (t : Taken) (s : Setting) : Option String := t.settings.lookup s

end Taken

structure Options where
  manifests : List Path
  /-- The descriptor repository, instead of the one that a manifest names. -/
  repository : Option Path := none
  /-- The output format, instead of the one that a manifest names. -/
  format : Option Format := none
  /-- The file to write to, instead of standard output. -/
  output : Option Path := none
  allowMissing : Bool := false
  noCache : Bool := false
  /-- Whether to show the counts of each analysis. -/
  summary : Bool := false
  /-- Whether to list the conflicts of each analysis. -/
  conflicts : Bool := false

def defaultManifest : Path := ⟨"deptree.toml"⟩

/-- The options that the arguments of `tree` make. The environment names the repository if no
argument does; it may not name an empty one. -/
def options (t : Taken) (environment : Option String) : Except Stop Options := do
  t.settled
  let repository := t.value? .repository <|> environment
  if repository = some "" then throw .usage
  let named := (t.settings.filter (·.1 == .manifest)).map fun setting => Path.mk setting.2
  return {
    manifests := if named.isEmpty then [defaultManifest] else named
    repository := repository.map Path.mk
    format := (t.value? .format).bind Format.ofName?
    output := (t.value? .output).map Path.mk
    allowMissing := t.switches.contains .allowMissing
    noCache := t.switches.contains .noCache
    summary := t.switches.contains .summary
    conflicts := t.switches.contains .conflicts }

/-- Asks for help on a command. -/
def help : List String → Stop
  | [] => .information
  | [command] => if command = "tree" || command = "help" then .information else .usage
  | _ => .usage

def readTop (t : Taken) (environment : Option String) : List String → Except Stop Options
  | [] => .error .usage
  | argument :: arguments =>
    if !t.ended && argument = "tree" then do
      options (← arguments.foldlM (Taken.take .tree) {}) environment
    else if !t.ended && argument = "help" then .error (help arguments)
    else do readTop (← t.take .top argument) environment arguments

/-- What the arguments ask for. The environment may name a repository. -/
def read (arguments : List String) (environment : Option String) : Except Stop Options :=
  readTop {} environment arguments

end ArtifactTree.CommandLine

import PromptChain.Command.Arguments
import PromptChain.Command.Error
import PromptChain.Command.Variables
import PromptChain.Instant

/-! Commands: running, checking and listing scripts on a host. -/
namespace PromptChain

/-- What a command leaves behind: its exit code and what it printed. -/
structure Outcome where
  exitCode : Nat
  printed : Text
deriving DecidableEq, Repr

namespace Command

variable {m : Type → Type} [Monad m]

/-- A task that a command error can end. -/
abbrev Task (m : Type → Type) := ExceptT CommandError m

def attempt {ε α : Type} (wrap : ε → CommandError) (x : m (Except ε α)) : Task m α :=
  ExceptT.mk ((Except.mapError wrap) <$> x)

/-- The path of an argument: below the current directory unless it is absolute. -/
def resolve (host : Host m) (raw : Text) : Task m Path :=
  if Path.isAbsolute raw then pure raw
  else do
    let directory ← attempt .sourcePath host.currentDirectory
    pure (Path.join directory raw)

def isScript (p : Path) : Bool :=
  Path.extension? p == some scriptExtension

def readText (host : Host m) (p : Path) : m (Except SystemError Text) := do
  match ← host.read p with
  | .error e => return .error e
  | .ok bytes =>
    match Utf8.decode? bytes with
    | some text => return .ok text
    | none => return .error .notText

def loadScript (host : Host m) (file : Text) : Task m Text := do
  let path ← resolve host file
  if !(← host.isFile path) then throw (.noScript path)
  if !isScript path then throw (.wrongExtension path)
  attempt .unreadable (readText host path)

/-- The scripts that an argument names: a file, or all below a directory in order of their paths. -/
def collectScripts (host : Host m) (target : Text) : Task m (List Path) := do
  let root ← resolve host target
  if !(← host.isPresent root) then throw (.noPath root)
  if ← host.isFile root then
    if isScript root then pure [root] else throw (.wrongExtension root)
  else do
    let files ← host.filesBelow root
    let scripts := (files.filter isScript).mergeSort fun p q =>
      !decide (Path.components q < Path.components p)
    if scripts.isEmpty then throw (.noScriptsBelow root)
    pure scripts

def modelVariable : Text :=
  "HEROML_MODEL".toList

def defaultModel : Text :=
  "gpt-3.5-turbo".toList

def makeProvider (host : Host m) (shell : Table Text) (o : RunOptions) : Task m Provider :=
  match o.provider with
  | .echo => pure Provider.echo
  | .chat => do
    let model := (o.model.or (shell.get? modelVariable)).getD defaultModel
    let config ← attempt .config
      (pure (Chat.Config.ofLookup (fun name => shell.get? name) model o.timeoutSeconds))
    let transport ← attempt (fun causes => .config (.noClient causes)) (host.connect config)
    pure (Chat.provider transport config)

def save (host : Host m) (directory : Path) (filename : Text) (e : Environment) :
    m (Except SystemError Path) := do
  match ← host.createDirectories directory with
  | .error e => return .error e
  | .ok () =>
    let path := Path.join directory filename
    match ← host.write path (Utf8.encode e.toJson.pretty) with
    | .error e => return .error e
    | .ok () => return .ok path

def runReport (path : Path) (keys : Nat) : Text :=
  reportLine "RESULT".toList "OK".toList ++ reportLine "OUTPUT".toList path ++
    reportLine "KEYS".toList (Text.ofNat keys)

/-- The name of the file that a run is saved in, after the time if no name is given. -/
def outputName (host : Host m) (o : RunOptions) : m Text :=
  match o.filename with
  | some filename => pure filename
  | none => do return (Instant.ofMillis (← host.now)).fileName

/-- Saves the environment of a run, whether it failed or not. A failure of the run is told before a
failure to save. -/
def conclude (host : Host m) (directory : Path) (filename : Text) (r : Run) : Task m Text := do
  let saved ← (save host directory filename r.environment : m _)
  match r.failure, saved with
  | some f, _ => throw (.run f)
  | none, .error e => throw (.save e)
  | none, .ok path => pure (runReport path r.environment.entries.length)

/-- Runs a script. The provider is made before inputs are asked for. -/
def runFile (host : Host m) (shell : Table Text) (o : RunOptions) : Task m Text := do
  let source ← loadScript host o.file
  let script ← attempt .compile (pure (Script.compile source))
  let provider ← makeProvider host shell o
  let supplied ← attempt .input
    (Inputs.collect host.ask script.requiredInputs o.vars o.noPrompt)
  let r := script.run supplied provider
  let filename ← (outputName host o : m _)
  conclude host o.output filename r

/-- The code of what is wrong with a script file, if anything is. -/
def checkScript (host : Host m) (p : Path) : m (Option Text) := do
  match ← readText host p with
  | .error e => return some (CommandError.unreadable e).diagnostic.code
  | .ok source =>
    match Script.compile source with
    | .ok _ => return none
    | .error e => return some e.diagnostic.code

def checkFiles (host : Host m) (target : Text) : Task m Outcome := do
  let scripts ← collectScripts host target
  let codes ← scripts.mapM fun p => do
    let code ← (checkScript host p : m _)
    pure (p, code)
  let lines := codes.flatMap fun (p, code) =>
    reportLine "CHECK".toList (p ++ ':' :: code.getD Verdict.valid.code)
  let failed := (codes.filter fun (_, code) => code.isSome).length
  if failed = 0 then pure ⟨0, lines ++ reportLine "RESULT".toList "OK".toList⟩
  else
    pure ⟨1, lines ++ reportLine "RESULT".toList "FAILED".toList ++
      reportLine "FAILED".toList (Text.ofNat failed ++ '/' :: Text.ofNat scripts.length)⟩

def listInputs (host : Host m) (file : Text) : Task m Text := do
  let source ← loadScript host file
  let script ← attempt .compile (pure (Script.compile source))
  pure (script.requiredInputs.flatMap fun name => name ++ ['\n'])

def perform (host : Host m) (shell : Table Text) : Command → Task m Outcome
  | run options => do pure ⟨0, ← runFile host shell options⟩
  | check path => checkFiles host path
  | inputs file => do pure ⟨0, ← listInputs host file⟩

def usageCode : Nat :=
  2

/-- The exit code of a program whose variables cannot be set. -/
def abortCode : Nat :=
  101

/-- Carries out what the arguments ask for. Variables that cannot be set are told before arguments
that are not well formed. -/
def execute (host : Host m) (args : List Text) : m Outcome := do
  match ← Variables.load host [Chat.keyVariable, Chat.baseVariable, modelVariable] with
  | .error _ => return ⟨abortCode, []⟩
  | .ok shell =>
    match Arguments.command? args with
    | none => return ⟨usageCode, []⟩
    | some command =>
      match ← (perform host shell command).run with
      | .ok outcome => return outcome
      | .error e => return ⟨1, e.diagnostic.report⟩

end Command

end PromptChain

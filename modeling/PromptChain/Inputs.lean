import PromptChain.Json.Read
import PromptChain.Run
import PromptChain.Text.Utf8

/-! Inputs: the initial values of a script, given as assignments or asked for. -/
namespace PromptChain

/-- The value of a raw text: what it is in JSON, else the text itself. -/
def Value.ofInput (raw : Text) : Value :=
  match Json.read? raw with
  | some json => ofJson json
  | none => string raw

inductive InputError where
  | notAssignment (raw : Text)
  | emptyName (raw : Text)
  | missing (names : List Text)
  | unreadable
  | ended (name : Text)
deriving DecidableEq, Repr

def InputError.diagnostic : InputError → Diagnostic
  | notAssignment raw =>
    ⟨"CLI_VAR_INVALID".toList, "Expected NAME=VALUE, got ".toList ++ raw.quoted, none⟩
  | emptyName raw =>
    ⟨"CLI_VAR_INVALID".toList, "Variable name is empty in ".toList ++ raw.quoted, none⟩
  | missing names =>
    ⟨"CLI_INPUT_MISSING".toList,
      "Missing initial values: ".toList ++ ", ".toList.intercalate names, none⟩
  | unreadable =>
    ⟨"CLI_INPUT_READ".toList, "stream did not contain valid UTF-8".toList, none⟩
  | ended name =>
    ⟨"CLI_INPUT_MISSING".toList,
      "Input ended before a value for ".toList ++ name.quoted ++ " was given".toList, none⟩

namespace Inputs

/-- The name and the value of an assignment `name=value`. -/
def assignment (raw : Text) : Except InputError (Text × Value) :=
  match raw.dropWhile (· != '=') with
  | [] => .error (.notAssignment raw)
  | _ :: value =>
    let name := Text.trim (raw.takeWhile (· != '='))
    if name.isEmpty then .error (.emptyName raw) else .ok (name, Value.ofInput value)

/-- The values of assignments, where a later one replaces an earlier one. -/
def assignments : List Text → Table Value → Except InputError (Table Value)
  | [], values => .ok values
  | raw :: rest, values => do
    let (name, value) ← assignment raw
    assignments rest (values.insert name value)

def question (name : Text) : Text :=
  "Enter value for ".toList ++ name ++ ": ".toList

def isLineEnd (c : Char) : Bool :=
  c == '\r' || c == '\n'

def withoutLineEnd (line : Text) : Text :=
  (line.reverse.dropWhile isLineEnd).reverse

/-- The value that a line of input gives to a name. No bytes at all mean that the input has ended.
-/
def answer (name : Text) (line : Bytes) : Except InputError Value :=
  match Utf8.decode? line with
  | none => .error .unreadable
  | some [] => .error (.ended name)
  | some text => .ok (Value.ofInput (withoutLineEnd text))

variable {m : Type → Type} [Monad m]

/-- Asks for the values of names in turn. `ask` shows a question and takes a line of input. -/
def askAll (ask : Text → m Bytes) :
    List Text → Table Value → m (Except InputError (Table Value))
  | [], values => pure (.ok values)
  | name :: rest, values => do
    let line ← ask (question name)
    match answer name line with
    | .error e => pure (.error e)
    | .ok value => askAll ask rest (values.insert name value)

/-- The values of assignments and, for the required names that have none, of input lines. -/
def collect (ask : Text → m Bytes) (required vars : List Text) (noPrompt : Bool) :
    m (Except InputError (Table Value)) :=
  match assignments vars ∅ with
  | .error e => pure (.error e)
  | .ok values =>
    let missing := Script.missingInputs required values
    if missing.isEmpty then pure (.ok values)
    else if noPrompt then pure (.error (.missing missing))
    else askAll ask missing values

end Inputs

/-- A console: the input that is not taken yet, and what was shown. -/
structure Console where
  input : Bytes
  shown : Text

namespace Console

/-- The bytes up to and including the first line feed, and the rest. -/
def cutLine : Bytes → Bytes × Bytes
  | [] => ([], [])
  | b :: rest =>
    if b = 10 then ([b], rest)
    else
      let (line, rest) := cutLine rest
      (b :: line, rest)

def ask (question : Text) : StateM Console Bytes := fun console =>
  let (line, rest) := cutLine console.input
  (line, { input := rest, shown := console.shown ++ question })

end Console

end PromptChain

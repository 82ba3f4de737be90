import PromptChain.Path

/-! The arguments of the command line. -/
namespace PromptChain

inductive ProviderChoice where
  | chat
  | echo
deriving DecidableEq, Repr

structure RunOptions where
  file : Text
  output : Path
  filename : Option Text
  vars : List Text
  provider : ProviderChoice
  model : Option Text
  timeoutSeconds : Nat
  noPrompt : Bool
deriving DecidableEq, Repr

inductive Command where
  | run (options : RunOptions)
  | check (path : Text)
  | inputs (file : Text)
deriving DecidableEq, Repr

namespace Arguments

inductive Setting where
  | output
  | filename
  | var
  | provider
  | model
  | timeout
deriving DecidableEq, Repr

/-- An argument: a bare word, an option with its value, or the flag against questions. -/
inductive Item where
  | word (t : Text)
  | setting (s : Setting) (value : Text)
  | noPrompt
deriving DecidableEq, Repr

/-- The options of a command: those that take a value, by their long names, and the flags. -/
structure Options where
  settings : List (Text × Setting)
  letters : List (Char × Setting)
  flags : List Text

def runOptions : Options where
  settings :=
    [("output".toList, .output), ("filename".toList, .filename), ("var".toList, .var),
     ("provider".toList, .provider), ("model".toList, .model), ("timeout-secs".toList, .timeout)]
  letters := [('o', .output), ('f', .filename)]
  flags := ["no-prompt".toList]

def noOptions : Options :=
  ⟨[], [], []⟩

/-- Whether an argument of its own can be the value of an option: it does not look like an option.
-/
def isValue (t : Text) : Bool :=
  t.head? != some '-' || t == ['-']

/-- Reads arguments from left to right; none if one of them is out of place. -/
def items? (options : Options) : List Text → Option (List Item)
  | [] => some []
  | arg :: rest =>
    -- All that follows two hyphens is bare.
    if arg = ['-', '-'] then some (rest.map .word)
    else if isValue arg then (items? options rest).map (.word arg :: ·)
    else
      match Text.after? ['-', '-'] arg with
      | some long =>
        let name := long.takeWhile (· != '=')
        let attached := long.dropWhile (· != '=')
        if name ∈ options.flags then
          if attached.isEmpty then (items? options rest).map (.noPrompt :: ·) else none
        else
          match options.settings.lookup name, attached with
          | some s, _ :: value => (items? options rest).map (.setting s value :: ·)
          | some s, [] =>
            match rest with
            | value :: rest =>
              if isValue value then (items? options rest).map (.setting s value :: ·) else none
            | [] => none
          | none, _ => none
      | none =>
        match arg with
        | _ :: letter :: attached =>
          match options.letters.lookup letter, attached with
          | some s, [] =>
            match rest with
            | value :: rest =>
              if isValue value then (items? options rest).map (.setting s value :: ·) else none
            | [] => none
          -- A value may follow its letter directly or after an equals sign.
          | some s, value =>
            let value := (Text.after? ['='] value).getD value
            (items? options rest).map (.setting s value :: ·)
          | none, _ => none
        | _ => none

def words (items : List Item) : List Text :=
  items.filterMap fun
    | .word t => some t
    | _ => none

def valuesOf (s : Setting) (items : List Item) : List Text :=
  items.filterMap fun
    | .setting s' value => if s = s' then some value else none
    | _ => none

def word? (items : List Item) : Option Text :=
  match words items with
  | [t] => some t
  | _ => none

/-- The value of an option that may be given once. -/
def optional? (s : Setting) (items : List Item) : Option (Option Text) :=
  match valuesOf s items with
  | [] => some none
  | [value] => some (some value)
  | _ => none

def provider? : Option Text → Option ProviderChoice
  | none => some .chat
  | some name =>
    if name = "openai".toList then some .chat
    else if name = "echo".toList then some .echo
    else none

def timeout? : Option Text → Option Nat
  | none => some 120
  | some t => Text.word? t

def run? (args : List Text) : Option RunOptions := do
  let items ← items? runOptions args
  let file ← word? items
  let output ← optional? .output items
  let filename ← optional? .filename items
  let provider ← provider? (← optional? .provider items)
  let model ← optional? .model items
  let timeoutSeconds ← timeout? (← optional? .timeout items)
  if items.count .noPrompt ≤ 1 then
    some
      { file, filename, provider, model, timeoutSeconds
        output := output.getD "./outputs".toList
        vars := valuesOf .var items
        noPrompt := items.contains .noPrompt }
  else none

/-- What arguments ask for, if they are well formed. -/
def command? : List Text → Option Command
  | [] => none
  | verb :: args =>
    if verb = "run".toList then (run? args).map .run
    else if verb = "check".toList then ((items? noOptions args).bind word?).map .check
    else if verb = "inputs".toList then ((items? noOptions args).bind word?).map .inputs
    else none

end Arguments

end PromptChain

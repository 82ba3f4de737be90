import PromptChain.Text.Blank

/-! Steps of a script, the names under which their outputs are kept, and what is told about errors. -/
namespace PromptChain

/-- A numbered piece of a script. -/
structure Step where
  index : Nat
  text : Text
deriving DecidableEq, Repr

namespace Step

def separator : Text :=
  "->>>>".toList

def cut (t : Text) : List Text :=
  match _h : separator.after? t with
  | some rest => [] :: cut rest
  | none =>
    match t with
    | [] => [[]]
    | c :: rest => Text.push c (cut rest)
termination_by t.length
decreasing_by
  · have := Text.length_of_after? _h
    simp [separator] at this
    omega
  · simp

/-- The steps of a script, numbered from one, without blanks at their ends. -/
def split (script : Text) : List Step :=
  ((cut script).zipIdx 1).map fun (t, i) => ⟨i, t.trim⟩

def outputStem : Text :=
  "step".toList

def outputKey (n : Nat) : Text :=
  outputStem ++ '_' :: Text.ofNat n

/-- The name of the output of step `n` for item `m` of its list. -/
def itemKey (n m : Nat) : Text :=
  outputKey n ++ '_' :: Text.ofNat m

/-- Whether a name has the shape of an output's name: `step_` and decimal digits of any script. -/
def isReference (name : Text) : Bool :=
  match Text.after? (outputStem ++ ['_']) name with
  | some digits => !digits.isEmpty && digits.all Text.isDecimalDigit
  | none => false

end Step

/-- An error as it is told: a code that never changes, a sentence, and the step it is about. -/
structure Diagnostic where
  code : Text
  message : Text
  step : Option Nat
deriving DecidableEq, Repr

def Diagnostic.display (d : Diagnostic) : Text :=
  d.code ++ ": ".toList ++ d.message

end PromptChain

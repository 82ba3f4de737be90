import PromptChain.Action.Basic
import PromptChain.Placeholder
import PromptChain.Step
import PromptChain.Text.WordCharacter

/-! Reading the action of a step from its text. -/
namespace PromptChain

def Rules.ofText (t : Text) : Rules where
  shown := !Text.has "--hide-item-from-list".toList t
  isPromptDirective := Text.has "--is-ai-prompt".toList t

/-- What follows the first `header` that is followed by an accepted character. -/
def headed? (header : Text) (accepts : Char → Bool) : Text → Option Text
  | [] => none
  | c :: t =>
    match Text.after? header (c :: t) with
    | some (d :: rest) => if accepts d then some (d :: rest) else headed? header accepts t
    | _ => headed? header accepts t

def actionHeader : Text :=
  "ACTION: ".toList

def loopWord : Text :=
  "Loop".toList

def itemMark : Text :=
  "ForEveryItemDoThis:".toList

def isLineCharacter (c : Char) : Bool :=
  c != '\n'

def actionWord? (t : Text) : Option Text :=
  (headed? actionHeader Text.isWordCharacter t).map (List.takeWhile Text.isWordCharacter)

/-- The template that stands after the first item header, up to the end of its line. -/
def itemTemplate? (t : Text) : Option Text :=
  (headed? (itemMark ++ [' ']) isLineCharacter t).map fun rest =>
    Text.trim (rest.takeWhile isLineCharacter)

/-- Whether the first flag of that name says that a list has many items. -/
def manyItems? : Text → Option Bool
  | [] => none
  | c :: t =>
    if (Text.after? "ManyItems: TRUE".toList (c :: t)).isSome then some true
    else if (Text.after? "ManyItems: FALSE".toList (c :: t)).isSome then some false
    else manyItems? t

/-- The placeholder that ends a line, blanks after it apart. -/
def endingPlaceholder? : Text → Option Text
  | [] => none
  | c :: t =>
    match Text.placeholder? (c :: t) with
    | some (name, rest) => if Text.allBlank rest then some name else endingPlaceholder? t
    | none => endingPlaceholder? t

/-- The source of a loop: the first placeholder that ends a line, from the first line with the item
mark on. -/
def loopSource? (t : Text) : Option Text :=
  (t.lines.dropWhile fun line => !Text.has itemMark line).findSome? endingPlaceholder?

structure UnknownAction where
  step : Nat
  word : Text
deriving DecidableEq, Repr

/-- The action of a step: a loop if the step has an action word and an item template, else a prompt
of its whole text. -/
def Step.action (s : Step) : Except UnknownAction Action :=
  let heading (kind : Kind) : Heading := ⟨kind, s.text.declared, Rules.ofText s.text⟩
  match actionWord? s.text, itemTemplate? s.text with
  -- An unknown word is an error only beside an item template.
  | some word, some template =>
    if word = loopWord then
      let kind := .loop (loopSource? s.text) (!(manyItems? s.text).getD false)
      .ok (.text (heading kind) template)
    else
      .error ⟨s.index, word⟩
  | _, _ => .ok (.text (heading .default) s.text.trim)

def Action.ofSteps (steps : List Step) : Except UnknownAction (List Action) :=
  steps.mapM Step.action

end PromptChain

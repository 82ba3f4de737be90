import PromptChain.Node
import PromptChain.Prompt
import PromptChain.Provider
import PromptChain.Script

/-! Runs: nodes are asked one after the other, and their outputs are committed. -/
namespace PromptChain

/-- A prompt that was sent for an output, and what came back. -/
structure Call where
  key : Text
  prompt : Text
  reply : Except ProviderError Text

/-- The output of a call: a reply that is not empty. -/
def Call.output? (c : Call) : Option Text :=
  match c.reply with
  | .ok text => if text.isEmpty then none else some text
  | .error _ => none

/-- Why a node cannot be run. -/
inductive Cause where
  | branch
  | undefined (name : Text)
  | duplicate (key : Text)
  | unnamedSource
  | unboundSource (name : Text)
  | notAList (name : Text) (typeName : Text)
deriving DecidableEq, Repr

namespace Cause

def code : Cause → Text
  | branch => "ENGINE_NODE_CONTENT_UNSUPPORTED".toList
  | undefined _ => "ENGINE_VAR_UNDEFINED".toList
  | duplicate _ => "ENGINE_OUTPUT_DUPLICATE".toList
  | unnamedSource => "ENGINE_LOOP_SOURCE_MISSING".toList
  | unboundSource _ => "ENGINE_LOOP_SOURCE_MISSING".toList
  | notAList _ _ => "ENGINE_LOOP_SOURCE_NOT_ARRAY".toList

def message : Cause → Text
  | branch => "content must be a single templated text.".toList
  | undefined name => "Undefined variable: ".toList ++ name
  | duplicate key => "Output key ".toList ++ key.quoted ++ " is already bound.".toList
  | unnamedSource => "loop does not name a source list.".toList
  | unboundSource name => "loop source ".toList ++ name.quoted ++ " has no value.".toList
  | notAList name typeName =>
    "loop source ".toList ++ name.quoted ++ " is a ".toList ++ typeName ++ ", not an array.".toList

def diagnostic (c : Cause) : Diagnostic :=
  ⟨c.code, c.message, none⟩

end Cause

structure Failure where
  step : Nat
  kind : Kind
  cause : Cause
deriving DecidableEq, Repr

def Failure.diagnostic (f : Failure) : Diagnostic where
  code := f.cause.code
  message := f.kind.name ++ " node at step ".toList ++ Text.ofNat f.step ++ ": ".toList ++
    f.cause.message
  step := some f.step

/-- The items of a list: of a list value, or of a text that is a list in JSON. -/
def Value.items? : Value → Option (List Json)
  | array items => some (jsonsWith numberJson items)
  | string s =>
    match Json.read? s.trim with
    | some (.array items) => some items
    | _ => none
  | _ => none

/-- The state of a run: all prompts that the provider was asked, the environment, the calls of the
run in order, and the failure that stopped it. -/
structure Run where
  asked : List Text
  environment : Environment
  calls : List Call
  failure : Option Failure

namespace Run

/-- A run that has asked nothing, after the given prompts. -/
def start (earlier : List Text) (e : Environment) : Run :=
  ⟨earlier, e, [], none⟩

def stop (r : Run) (step : Nat) (kind : Kind) (cause : Cause) : Run :=
  { r with failure := some ⟨step, kind, cause⟩ }

def call (p : Provider) (key prompt : Text) (r : Run) : Call :=
  ⟨key, prompt, p.reply r.asked prompt⟩

def record (c : Call) (r : Run) : Run :=
  { r with asked := r.asked ++ [c.prompt], calls := r.calls ++ [c] }

/-- Sends a prompt, and commits its output. -/
def ask (p : Provider) (step : Nat) (kind : Kind) (key prompt : Text) (r : Run) : Run :=
  let c := r.call p key prompt
  match c.output? with
  -- No output is no failure: the run goes on without one.
  | none => r.record c
  | some output =>
    match Environment.commit key (.string output) r.environment with
    | .ok e => { r.record c with environment := e }
    | .error e => (r.record c).stop step kind (.duplicate e.key)

def runPrompt (p : Provider) (step : Nat) (kind : Kind) (text : Text) (r : Run) : Run :=
  match render r.environment ∅ text with
  | .ok prompt => r.ask p step kind (Step.outputKey step) prompt
  | .error e => r.stop step kind (.undefined e.name)

/-- The bindings of a loop's item: its value under the first declared name. -/
def itemBindings (heading : Heading) (item : Json) : Table Value :=
  match heading.declared with
  | [] => ∅
  | name :: _ => Table.insert name (Value.ofJson item) ∅

/-- The prompt of a loop's item: the filled template, and the item on a line of its own. -/
def itemPrompt (filled : Text) (item : Json) : Text :=
  filled ++ [' ', '\n'] ++ item.compact

/-- The prompt of a loop's item in an environment, or the name that has no value there. -/
def promptOfItem (e : Environment) (heading : Heading) (text : Text) (item : Json) :
    Except UndefinedVariable Text :=
  (render e (itemBindings heading item) text).map fun filled => itemPrompt filled item

/-- Runs a loop for its item of number `index`, unless the run has stopped. -/
def runItem (p : Provider) (step : Nat) (heading : Heading) (text : Text) (r : Run) (item : Json)
    (index : Nat) : Run :=
  if r.failure.isSome then r
  else
    match promptOfItem r.environment heading text item with
    | .ok prompt => r.ask p step heading.kind (Step.itemKey step index) prompt
    | .error e => r.stop step heading.kind (.undefined e.name)

def runItems (p : Provider) (step : Nat) (heading : Heading) (text : Text) (index : Nat)
    (items : List Json) (r : Run) : Run :=
  (items.zipIdx index).foldl (fun r (item, index) => runItem p step heading text r item index) r

def runLoop (p : Provider) (step : Nat) (heading : Heading) (source : Option Text) (text : Text)
    (r : Run) : Run :=
  match source with
  | none => r.stop step heading.kind .unnamedSource
  | some name =>
    match r.environment.get? name with
    | none => r.stop step heading.kind (.unboundSource name)
    | some value =>
      match value.items? with
      | none => r.stop step heading.kind (.notAList name value.typeName)
      | some items => r.runItems p step heading text 1 items

/-- Runs the node of a step, unless the run has stopped. -/
def runNode (p : Provider) (r : Run) (node : Node) (step : Nat) : Run :=
  if r.failure.isSome then r
  else
    match node with
    | .branch heading _ _ => r.stop step heading.kind .branch
    | .leaf heading _ text =>
      match heading.kind with
      | .default => r.runPrompt p step heading.kind text
      | .loop source _ => r.runLoop p step heading source text

/-- Runs nodes in order, the first of them as step `first`. -/
def runNodesFrom (p : Provider) (first : Nat) (nodes : List Node) (r : Run) : Run :=
  (nodes.zipIdx first).foldl (fun r (node, step) => runNode p r node step) r

def runNodes (p : Provider) (nodes : List Node) (r : Run) : Run :=
  r.runNodesFrom p 1 nodes

end Run

namespace Script

def missingInputs (required : List Text) (supplied : Table Value) : List Text :=
  required.filter fun name => !supplied.has name

/-- The environment that a run starts from: the required names that a value was supplied for. -/
def initialEnvironment (required : List Text) (supplied : Table Value) : Environment :=
  Table.ofList (required.filterMap fun name => (supplied.get? name).map fun value => (name, value))

def run (s : Script) (initial : Table Value) (p : Provider) : Run :=
  (Run.start [] (initialEnvironment s.requiredInputs initial)).runNodes p s.nodes

end Script

end PromptChain

import PromptChain.Action.Basic
import PromptChain.Json.Basic
import PromptChain.Node
import PromptChain.Step

/-! The JSON forms of steps, actions and nodes. -/
namespace PromptChain

namespace Json

/-- The value of a member is smaller than the object. -/
theorem sizeOf_field? {name : Text} {json value : Json} (h : json.field? name = some value) :
    sizeOf value < sizeOf json := by
  unfold field? at h
  split at h
  · next members =>
    obtain ⟨⟨key, found⟩, hf, rfl⟩ := Option.map_eq_some_iff.1 h
    have hm : (key, found) ∈ members := by simpa using List.mem_of_find?_eq_some hf
    have hs := List.sizeOf_lt_of_mem hm
    simp only [Prod.mk.sizeOf_spec, object.sizeOf_spec] at hs ⊢
    omega
  · cases h

/-- A field of a record that has the given fields: a member of an object, or the item in the same
place of a list of all the fields. -/
def part? (fields : List Text) (name : Text) : Json → Option Json
  | array items =>
    if items.length = fields.length then
      ((fields.zip items).find? fun part => part.1 == name).map Prod.snd
    else none
  | json => json.field? name

/-- A field is smaller than its record. -/
theorem sizeOf_part? {fields : List Text} {name : Text} {json value : Json}
    (h : json.part? fields name = some value) : sizeOf value < sizeOf json := by
  unfold part? at h
  split at h
  · next items =>
    split at h
    · obtain ⟨⟨key, found⟩, hf, rfl⟩ := Option.map_eq_some_iff.1 h
      have hm := (List.of_mem_zip (List.mem_of_find?_eq_some hf)).2
      have hs := List.sizeOf_lt_of_mem hm
      simp only [array.sizeOf_spec]
      omega
    · cases h
  · exact sizeOf_field? h

def asBool? : Json → Option Bool
  | bool b => some b
  | _ => none

def asString? : Json → Option Text
  | string s => some s
  | _ => none

/-- An integer that is not negative. -/
def asNat? : Json → Option Nat
  | number (.integer (.ofNat n)) => some n
  | _ => none

def asStrings? : Json → Option (List Text)
  | array items => items.mapM asString?
  | _ => none

def ofNat (n : Nat) : Json :=
  number (.integer n)

def ofStrings (names : List Text) : Json :=
  array (names.map string)

def ofOption {α : Type} (f : α → Json) : Option α → Json
  | some a => f a
  | none => null

end Json

namespace Step

def toJson (s : Step) : Json :=
  .object [("index".toList, .ofNat s.index), ("text".toList, .string s.text)]

def fields : List Text :=
  ["index".toList, "text".toList]

def ofJson? (j : Json) : Option Step := do
  let index ← (← j.part? fields "index".toList).asNat?
  let text ← (← j.part? fields "text".toList).asString?
  pure ⟨index, text⟩

end Step

namespace Rules

def toJson (r : Rules) : Json :=
  .object
    [("showInList".toList, .bool r.shown), ("isPromptDirective".toList, .bool r.isPromptDirective)]

def fields : List Text :=
  ["showInList".toList, "isPromptDirective".toList]

def ofJson? (j : Json) : Option Rules := do
  let shown ← (← j.part? fields "showInList".toList).asBool?
  let directive ← (← j.part? fields "isPromptDirective".toList).asBool?
  pure ⟨shown, directive⟩

end Rules

namespace Kind

def toJson : Kind → Json
  | default => .object [("kind".toList, .string "default".toList)]
  | loop source aggregate =>
    .object
      [("kind".toList, .string "loop".toList),
       ("referencedSource".toList, .ofOption .string source),
       ("aggregateResponses".toList, .bool aggregate)]

def sourceOfJson? : Json → Option (Option Text)
  | .null => some none
  | .string s => some (some s)
  | _ => none

/-- The kind of a word and, for a loop, its source and its flag. -/
def ofWord? (word : Text) (source aggregate : Option Json) : Option Kind :=
  if word = "default".toList then some default
  else if word = "loop".toList then do
    pure (loop (← sourceOfJson? (source.getD .null)) (← (← aggregate).asBool?))
  else none

def ofJson? : Json → Option Kind
  | .array [.string word] => if word = "default".toList then some default else none
  | .array [.string word, source, aggregate] =>
    if word = "loop".toList then ofWord? word source aggregate else none
  | j => do
    let word ← (← j.field? "kind".toList).asString?
    ofWord? word (j.field? "referencedSource".toList) (j.field? "aggregateResponses".toList)

end Kind

def Heading.members (h : Heading) : List (Text × Json) :=
  [("kind".toList, h.kind.toJson), ("declaredVariables".toList, .ofStrings h.declared),
   ("rules".toList, h.rules.toJson)]

/-- The heading in the JSON form of an action or a node that has the given fields. -/
def Heading.ofJson? (fields : List Text) (j : Json) : Option Heading := do
  let kind ← Kind.ofJson? (← j.part? fields "kind".toList)
  let declared ← (← j.part? fields "declaredVariables".toList).asStrings?
  let rules ← Rules.ofJson? (← j.part? fields "rules".toList)
  pure ⟨kind, declared, rules⟩

/-- A value with a word that says what it is. -/
def tagged (tag : Text) (value : Json) : Json :=
  .object [("kind".toList, .string tag), ("value".toList, value)]

/-- The word of a tagged value, which may also be the name of a single member that is null. -/
def word? : Json → Option Text
  | .string word => some word
  | .object [(word, .null)] => some word
  | _ => none

/-- The word and the value of a tagged value: two members of an object, or the items of a list. -/
def tagged? : Json → Option (Text × Json)
  | .array [.string word, value] => some (word, value)
  | j => do
    let word ← word? (← j.field? "kind".toList)
    let value ← j.field? "value".toList
    pure (word, value)

/-- A value is smaller than its tagged form. -/
theorem sizeOf_tagged? {json value : Json} {word : Text} (h : tagged? json = some (word, value)) :
    sizeOf value < sizeOf json := by
  unfold tagged? at h
  split at h
  · simp only [Option.some.injEq, Prod.mk.injEq] at h
    obtain ⟨-, rfl⟩ := h
    simp only [Json.array.sizeOf_spec, List.cons.sizeOf_spec]
    omega
  · simp only [Option.bind_eq_bind] at h
    obtain ⟨_, -, h⟩ := Option.bind_eq_some_iff.1 h
    obtain ⟨_, -, h⟩ := Option.bind_eq_some_iff.1 h
    obtain ⟨found, hf, h⟩ := Option.bind_eq_some_iff.1 h
    cases h
    exact Json.sizeOf_field? hf

namespace Action

mutual

def toJson : Action → Json
  | .text heading body =>
    .object (("body".toList, tagged "text".toList (.string body)) :: heading.members)
  | .steps heading children =>
    .object (("body".toList, tagged "steps".toList (.array (toJsons children))) :: heading.members)

def toJsons : List Action → List Json
  | [] => []
  | a :: rest => toJson a :: toJsons rest

end

def fields : List Text :=
  ["kind".toList, "declaredVariables".toList, "body".toList, "rules".toList]

def ofJson? (j : Json) : Option Action := do
  let heading ← Heading.ofJson? fields j
  match _hb : j.part? fields "body".toList with
  | none => none
  | some body =>
    match _ht : tagged? body with
    | some (word, .string body) =>
      if word = "text".toList then pure (.text heading body) else none
    | some (word, .array items) =>
      if word = "steps".toList then do
        let children ← items.attach.mapM fun ⟨item, _⟩ => ofJson? item
        pure (.steps heading children)
      else none
    | _ => none
termination_by sizeOf j
decreasing_by
  have h1 := Json.sizeOf_part? _hb
  have h2 := sizeOf_tagged? _ht
  have h3 := List.sizeOf_lt_of_mem ‹item ∈ items›
  simp only [Json.array.sizeOf_spec] at h2
  omega

def listOfJson? : Json → Option (List Action)
  | .array items => items.mapM ofJson?
  | _ => none

end Action

namespace Node

mutual

def toJson : Node → Json
  | .leaf heading references text =>
    .object (("content".toList, tagged "leaf".toList (.string text)) ::
      ("references".toList, .ofStrings references) :: heading.members)
  | .branch heading references children =>
    .object (("content".toList, tagged "branch".toList (.array (toJsons children))) ::
      ("references".toList, .ofStrings references) :: heading.members)

def toJsons : List Node → List Json
  | [] => []
  | node :: rest => toJson node :: toJsons rest

end

def fields : List Text :=
  ["kind".toList, "declaredVariables".toList, "rules".toList, "content".toList,
   "references".toList]

def ofJson? (j : Json) : Option Node := do
  let heading ← Heading.ofJson? fields j
  let references ← (← j.part? fields "references".toList).asStrings?
  match _hb : j.part? fields "content".toList with
  | none => none
  | some content =>
    match _ht : tagged? content with
    | some (word, .string body) =>
      if word = "leaf".toList then pure (.leaf heading (nameSet references) body) else none
    | some (word, .array items) =>
      if word = "branch".toList then do
        let children ← items.attach.mapM fun ⟨item, _⟩ => ofJson? item
        pure (.branch heading (nameSet references) children)
      else none
    | _ => none
termination_by sizeOf j
decreasing_by
  have h1 := Json.sizeOf_part? _hb
  have h2 := sizeOf_tagged? _ht
  have h3 := List.sizeOf_lt_of_mem ‹item ∈ items›
  simp only [Json.array.sizeOf_spec] at h2
  omega

def listOfJson? : Json → Option (List Node)
  | .array items => items.mapM ofJson?
  | _ => none

end Node

end PromptChain

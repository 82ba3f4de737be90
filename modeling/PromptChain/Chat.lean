import PromptChain.Json.Read
import PromptChain.Json.Write
import PromptChain.Provider
import PromptChain.Text.Blank
import PromptChain.Text.Utf8

/-! Chat services: how they are configured, what is sent to them and what comes back. -/
namespace PromptChain.Chat

structure Config where
  apiKey : Text
  model : Text
  baseUrl : Text
  timeoutSeconds : Nat
deriving DecidableEq, Repr

def defaultBase : Text :=
  "https://api.openai.com/v1".toList

def keyVariable : Text :=
  "OPENAI_API_KEY".toList

def baseVariable : Text :=
  "HEROML_API_BASE".toList

/-- A message with the causes of what it tells, from the nearest to the first. -/
def told (message : Text) (causes : List Text) : Text :=
  ": ".toList.intercalate (message :: causes)

/-- Why a service cannot be asked: there is no key for it, or no way to it. -/
inductive ConfigError where
  | missingKey
  | noClient (causes : List Text)
deriving DecidableEq, Repr

def ConfigError.message : ConfigError → Text
  | missingKey =>
    "OPENAI_API_KEY is not set; export it, add it to .env, or use --provider echo".toList
  | noClient causes => told "Failed to create HTTP client".toList causes

def ConfigError.diagnostic (e : ConfigError) : Diagnostic :=
  ⟨"CLI_PROVIDER_CONFIG".toList, e.message, none⟩

def given? (lookup : Text → Option Text) (name : Text) : Option Text :=
  (lookup name).filter fun value => !value.allBlank

def withoutSlashes (t : Text) : Text :=
  (t.reverse.dropWhile (· == '/')).reverse

def Config.ofLookup (lookup : Text → Option Text) (model : Text) (timeoutSeconds : Nat) :
    Except ConfigError Config :=
  match given? lookup keyVariable with
  | none => .error .missingKey
  | some apiKey =>
    .ok ⟨apiKey, model, withoutSlashes ((given? lookup baseVariable).getD defaultBase),
      timeoutSeconds⟩

/-- What is sent for a prompt: a single message of a user. -/
def request (model prompt : Text) : Json :=
  .object
    [("model".toList, .string model),
     ("messages".toList,
      .array [.object [("role".toList, .string "user".toList),
                       ("content".toList, .string prompt)]])]

def requestBody (model prompt : Text) : Text :=
  (request model prompt).compact

open Json (Raw StringPart)

/-- The values of the members of a name. All the names have to be texts. -/
def valuesOf? (name : Text) : List (List StringPart × Raw) → Option (List Raw)
  | [] => some []
  | (parts, value) :: rest => do
    let text ← Json.decode? parts
    let values ← valuesOf? name rest
    pure (if text = name then value :: values else values)

/-- The one field of a record that knows one name: the member of that name, which may be missing but
not be repeated, or the only item of a list. -/
def field? (name : Text) : Raw → Option (Option Raw)
  | .array [value] => some (some value)
  | .object members => do
    match ← valuesOf? name members with
    | [] => pure none
    | [value] => pure (some value)
    | _ => none
  | _ => none

/-- The content of a message, which may be missing. -/
def content? (message : Raw) : Option (Option Text) := do
  match ← field? "content".toList message with
  | none => pure none
  | some .null => pure none
  | some (.string parts) => (Json.decode? parts).map some
  | some _ => none

def choice? (choice : Raw) : Option (Option Text) := do
  let message ← field? "message".toList choice
  content? (← message)

def choices? (reply : Raw) : Option (List (Option Text)) := do
  let choices ← field? "choices".toList reply
  match ← choices with
  | .array items => items.mapM choice?
  | _ => none

/-- The text of a reply: the content of its first choice, or nothing. Fields of other names are not
looked into. -/
def reply? (body : Bytes) : Option Text := do
  let raw ← Raw.read? (Utf8.symbols body)
  let contents ← choices? raw
  pure ((contents.head?.bind id).getD [])

/-- What a service sends back: a status with its usual wording, the body if all of it arrives, the
body as a text, and the causes that are told if it cannot be read. -/
structure Response where
  status : Nat
  reason : Text
  body : Option Bytes
  text : Text
  causes : List Text

namespace Response

def isSuccess (r : Response) : Bool :=
  200 ≤ r.status && r.status < 300

def content (r : Response) : Except ProviderError Text :=
  if r.isSuccess then
    match r.body.bind reply? with
    | some text => .ok text
    | none => .error (.request (told "Failed to parse chat completion response".toList r.causes))
  else
    .error (.request ("Chat completion API error (".toList ++ Text.ofNat r.status ++
      ' ' :: r.reason ++ "): ".toList ++ r.text))

end Response

/-- How a request reaches a service: what comes back for a body, in the light of the prompts that
were sent before, or the causes of its not being sent. -/
abbrev Transport := (earlier : List Text) → (body : Text) → Except (List Text) Response

def offline : Transport := fun _ _ => .error []

def provider (transport : Transport) (config : Config) : Provider where
  name := "openai".toList
  reply earlier prompt :=
    match transport earlier (requestBody config.model prompt) with
    | .ok response => response.content
    | .error causes =>
      .error (.request (told "Failed to send chat completion request".toList causes))

end PromptChain.Chat

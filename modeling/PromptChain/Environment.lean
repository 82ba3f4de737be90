import PromptChain.Json.Read
import PromptChain.Value

/-! Environments: the values of names, which outputs are added to and never replaced. -/
namespace PromptChain

/-- Values under names. -/
abbrev Environment := Table Value

structure DuplicateOutput where
  key : Text
deriving DecidableEq, Repr

namespace Environment

/-- Adds an output under a name that has no value yet. -/
def commit (key : Text) (value : Value) (e : Environment) : Except DuplicateOutput Environment :=
  if e.has key then .error ⟨key⟩ else .ok (e.insert key value)

def toJson (e : Environment) : Json :=
  .object (Value.membersWith Value.numberJson e.entries)

/-- The environment in JSON in which integers keep a fraction. -/
def toFloatJson (e : Environment) : Json :=
  .object (Value.membersWith Value.floatJson e.entries)

/-- The environment that a text holds: an object without nulls. -/
def ofText? (t : Text) : Option Environment :=
  match Json.readWritten? t with
  | some (.object members) => (Value.ofNullFreeMembers? members).map Table.ofList
  | _ => none

end Environment

end PromptChain

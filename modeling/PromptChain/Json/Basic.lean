import PromptChain.Binary64.Basic
import PromptChain.Table

/-! JSON values. -/
namespace PromptChain

/-- A number of a JSON text: an integer of 64 bits, or a binary floating-point number. -/
inductive JsonNumber where
  | integer (n : Int)
  | float (x : Binary64)
deriving DecidableEq, Repr

/-- A JSON value. The members of an object stand in the order in which they were written, and a name
may be written twice. -/
inductive Json where
  | null
  | bool (b : Bool)
  | number (n : JsonNumber)
  | string (s : Text)
  | array (items : List Json)
  | object (members : List (Text × Json))
deriving Repr

namespace Json

mutual

/-- A value whose objects have sorted members; of two members of one name the later one counts. -/
def canonical : Json → Json
  | array items => array (canonicalItems items)
  | object members => object (Table.ofList (canonicalMembers members)).entries
  | json => json

def canonicalItems : List Json → List Json
  | [] => []
  | item :: rest => canonical item :: canonicalItems rest

def canonicalMembers : List (Text × Json) → List (Text × Json)
  | [] => []
  | (name, value) :: rest => (name, canonical value) :: canonicalMembers rest

end

/-- The value of the member that counts for a name. -/
def field? (name : Text) : Json → Option Json
  | object members => (members.reverse.find? fun member => member.1 == name).map Prod.snd
  | _ => none

end Json

end PromptChain

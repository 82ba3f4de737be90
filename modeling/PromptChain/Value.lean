import PromptChain.Json.Write
import PromptChain.Table

/-! Values: what inputs and outputs of a script are bound to. -/
namespace PromptChain

/-- A number that need not be finite. -/
inductive Extended where
  | finite (x : Binary64)
  | infinite (negative : Bool)
  | nan
deriving DecidableEq, Repr

/-- A number that was rounded. One that is too large for a finite number is infinite. -/
def Extended.ofRounded (negative : Bool) : Option Binary64 → Extended
  | some x => .finite x
  | none => .infinite negative

/-- A value. The entries of a map are those of a table. -/
inductive Value where
  | bool (b : Bool)
  | number (x : Extended)
  | string (s : Text)
  | array (items : List Value)
  | map (entries : List (Text × Value))
deriving Repr

namespace Value

def typeName : Value → Text
  | bool _ => "boolean".toList
  | number _ => "number".toList
  | string _ => "string".toList
  | array _ => "array".toList
  | map _ => "map".toList

def asString? : Value → Option Text
  | string s => some s
  | _ => none

def asArray? : Value → Option (List Value)
  | array items => some items
  | _ => none

/-- A number in JSON: an integer if it is one of magnitude below 2^63, and null if it is not finite.
-/
def numberJson : Extended → Json
  | .finite x =>
    match x.toInt? with
    | some n => .number (.integer n)
    | none => .number (.float x)
  | _ => .null

/-- A number in JSON that is never written as an integer. -/
def floatJson : Extended → Json
  | .finite x => .number (.float x)
  | _ => .null

mutual

/-- A value in JSON, with numbers as `number` writes them. -/
def jsonWith (number : Extended → Json) : Value → Json
  | bool b => .bool b
  | .number x => number x
  | string s => .string s
  | array items => .array (jsonsWith number items)
  | map entries => .object (membersWith number entries)

def jsonsWith (number : Extended → Json) : List Value → List Json
  | [] => []
  | item :: rest => jsonWith number item :: jsonsWith number rest

def membersWith (number : Extended → Json) : List (Text × Value) → List (Text × Json)
  | [] => []
  | (name, value) :: rest => (name, jsonWith number value) :: membersWith number rest

end

def toJson (v : Value) : Json :=
  jsonWith numberJson v

/-- A value in JSON in which integers keep a fraction. -/
def toFloatJson (v : Value) : Json :=
  jsonWith floatJson v

def jsonText (v : Value) : Text :=
  v.toJson.compact

mutual

/-- What stands in a prompt for a value: a string as it is, a list with commas, all else in JSON. -/
def promptText : Value → Text
  | string s => s
  | array items => promptItems items
  | value => value.jsonText

def promptItems : List Value → Text
  | [] => []
  | [item] => promptText item
  | item :: rest => promptText item ++ ',' :: ' ' :: promptItems rest

end

/-- The number of a JSON number, rounded to a binary floating-point number. -/
def numberOfJson : JsonNumber → Extended
  | .integer n => .ofRounded (n < 0) (Binary64.ofInt? n)
  | .float x => .finite x

mutual

/-- The value of a JSON value. Null is the string `null`. -/
def ofJson : Json → Value
  | .null => string "null".toList
  | .bool b => bool b
  | .number n => number (numberOfJson n)
  | .string s => string s
  | .array items => array (ofJsons items)
  | .object members => map (Table.ofList (ofMembers members)).entries

def ofJsons : List Json → List Value
  | [] => []
  | item :: rest => ofJson item :: ofJsons rest

def ofMembers : List (Text × Json) → List (Text × Value)
  | [] => []
  | (name, value) :: rest => (name, ofJson value) :: ofMembers rest

end

mutual

/-- The value of a JSON value that has no null in it, not even in a member that a later one
replaces. -/
def ofNullFree? : Json → Option Value
  | .null => none
  | .bool b => some (bool b)
  | .number n => some (number (numberOfJson n))
  | .string s => some (string s)
  | .array items => (ofNullFreeItems? items).map array
  | .object members => (ofNullFreeMembers? members).map fun entries => map (Table.ofList entries).entries

def ofNullFreeItems? : List Json → Option (List Value)
  | [] => some []
  | item :: rest => do
    let value ← ofNullFree? item
    let values ← ofNullFreeItems? rest
    pure (value :: values)

def ofNullFreeMembers? : List (Text × Json) → Option (List (Text × Value))
  | [] => some []
  | (name, item) :: rest => do
    let value ← ofNullFree? item
    let entries ← ofNullFreeMembers? rest
    pure ((name, value) :: entries)

end

end Value

end PromptChain

import PromptChain.Directive.Basic

/-! The directives that every script may use: requests for replies in JSON. -/
namespace PromptChain.Directive

/-- A list of strings. -/
def strings : Directive where
  token := "--return-json-array-strings".toList
  expansion :=
    "Please output a valid JSON array of strings, formatted correctly. This array ".toList ++
    "should contain one or more string values. Each string value must be ".toList ++
    "enclosed in double quotes and separated from the next string by a comma. ".toList ++
    "Remember, the entire array should be enclosed in square brackets.\n\n".toList ++
    "Here's an example of the format of the array I'm expecting:\n".toList ++
    "[\"this is a string\", \"this is another string\", \"another random string\"]\n\n".toList ++
    "Note that there should be no trailing comma after the last string in the ".toList ++
    "array, and no single quotes are used around string values.\n".toList ++
    "Please avoid breaking the JSON structure by ensuring all opening brackets, ".toList ++
    "quotes, and commas have corresponding closing brackets, quotes, and commas.".toList

def numbers : Directive where
  token := "--return-json-array-numbers".toList
  expansion :=
    "Only return a json array of numbers as a plain text response. For example:\n".toList ++
    "[1, 2, 3, 4]".toList

def booleans : Directive where
  token := "--return-json-array-boolean".toList
  expansion :=
    "Only return a json array of boolean values as a plain text response. For ".toList ++
    "example:\n".toList ++
    "[true, false, true]".toList

def dates : Directive where
  token := "--return-json-array-dates".toList
  expansion :=
    "Only return a json array of date strings as a plain text response. For ".toList ++
    "example:\n".toList ++
    "[\"2023-06-14\", \"2023-06-15\", \"2023-06-16\"]".toList

def objects : Directive where
  token := "--return-json-array-objects".toList
  expansion :=
    "Only return a json array of objects as a plain text response. Each object ".toList ++
    "should be simple and have consistent keys. For example:\n".toList ++
    "[\x7b\"name\":\"John\", \"age\":30\x7d, \x7b\"name\":\"Anna\", \"age\":27\x7d]".toList

def twoKeys : Directive where
  token := "--return-json-array-objects-two-keys".toList
  expansion :=
    "Only return a JSON array of objects, where each object has exactly two keys. ".toList ++
    "For example:\n".toList ++
    "[\n".toList ++
    "\x7b\"key1\":\"value1\", \"key2\":\"value2\"\x7d,\n".toList ++
    "\x7b\"key1\":\"value3\", \"key2\":\"value4\"\x7d\n".toList ++
    "]".toList

def threeKeys : Directive where
  token := "--return-json-array-objects-three-keys".toList
  expansion :=
    "Only return a JSON array of objects, where each object has exactly three ".toList ++
    "keys. For example:\n".toList ++
    "[\n".toList ++
    "\x7b\"key1\":\"value1\", \"key2\":\"value2\", \"key3\":\"value3\"\x7d,\n".toList ++
    "\x7b\"key1\":\"value4\", \"key2\":\"value5\", \"key3\":\"value6\"\x7d\n".toList ++
    "]".toList

def mixedObjects : Directive where
  token := "--return-json-array-objects-mixed".toList
  expansion :=
    "Only return a JSON array of objects, where each object can have mixed ".toList ++
    "key-value types. For example:\n".toList ++
    "[\n".toList ++
    "\x7b\"key1\":\"value1\", \"key2\":2\x7d,\n".toList ++
    "\x7b\"key1\":\"value3\", \"key2\":4, \"key3\": true\x7d\n".toList ++
    "]".toList

def nestedObjects : Directive where
  token := "--return-json-array-objects-nested".toList
  expansion :=
    "Only return a JSON array of objects, where some objects contain nested ".toList ++
    "objects. For example:\n".toList ++
    "[\n".toList ++
    "\x7b\"name\":\"John\", \"age\":30, ".toList ++
    "\"address\": \x7b\"city\": \"New York\", \"country\": \"USA\"\x7d \x7d,\n".toList ++
    "\x7b\"name\":\"Anna\", \"age\":27, ".toList ++
    "\"address\": \x7b\"city\": \"Berlin\", \"country\": \"Germany\"\x7d \x7d\n".toList ++
    "]".toList

def arrayObjects : Directive where
  token := "--return-json-array-objects-arrays".toList
  expansion :=
    "Only return a JSON array of objects, where some objects contain arrays. For ".toList ++
    "example:\n".toList ++
    "[\n".toList ++
    "\x7b\"name\":\"John\", \"age\":30, \"hobbies\": [\"swimming\", \"reading\"]\x7d,\n".toList ++
    "\x7b\"name\":\"Anna\", \"age\":27, \"hobbies\": [\"painting\", \"coding\"]\x7d\n".toList ++
    "]".toList

def mixed : Directive where
  token := "--return-json-array-mixed".toList
  expansion :=
    "Only return a JSON array with mixed value types (strings, numbers, objects, ".toList ++
    "arrays). For example:\n".toList ++
    "[\n".toList ++
    "\"String\",\n".toList ++
    "42,\n".toList ++
    "\x7b\"key\": \"value\"\x7d,\n".toList ++
    "[\"Item1\", \"Item2\"]\n".toList ++
    "]".toList

/-- The directives of every script. -/
def standard : List Directive :=
  [strings, numbers, booleans, dates, objects, twoKeys,
   threeKeys, mixedObjects, nestedObjects, arrayObjects, mixed]

end PromptChain.Directive

/-!
# JSON

Values of JSON and two ways to write them: on lines of their own with an indent of
two spaces, and on one line.  The fields of an object are written in the order in
which they are given.
-/

namespace BugLang

/-- A JSON value.  The only numbers are natural ones. -/
inductive Json
  | null
  | bool (value : Bool)
  | number (value : Nat)
  | string (value : String)
  | array (items : List Json)
  | object (fields : List (String × Json))
deriving Repr

namespace Json

/-- A character as it stands in a string.  Quotation marks, backslashes and control
characters are escaped, the usual ones by a letter. -/
def escaped (c : Char) : List Char :=
  if c = '"' then ['\\', '"']
  else if c = '\\' then ['\\', '\\']
  else if c = '\x08' then ['\\', 'b']
  else if c = '\x0c' then ['\\', 'f']
  else if c = '\n' then ['\\', 'n']
  else if c = '\r' then ['\\', 'r']
  else if c = '\t' then ['\\', 't']
  else if c.toNat < 0x20 then
    ['\\', 'u', '0', '0', Nat.digitChar (c.toNat / 16), Nat.digitChar (c.toNat % 16)]
  else [c]

/-- A string between quotation marks. -/
def quoted (text : String) : List Char :=
  '"' :: (text.toList.flatMap escaped ++ ['"'])

/-- A line break and the indent of the next line. -/
def newLine (depth : Nat) : List Char :=
  '\n' :: List.replicate (2 * depth) ' '

mutual

/-- A value on lines of its own, as it stands at a depth. -/
def pretty (depth : Nat) : Json → List Char
  | .null => "null".toList
  | .bool value => (if value then "true" else "false").toList
  | .number value => Nat.toDigits 10 value
  | .string value => quoted value
  | .array items =>
    if items.isEmpty then ['[', ']']
    else '[' :: (prettyItems (depth + 1) items ++ newLine depth ++ [']'])
  | .object fields =>
    if fields.isEmpty then ['\x7b', '\x7d']
    else '\x7b' :: (prettyFields (depth + 1) fields ++ newLine depth ++ ['\x7d'])

/-- The items of an array, each on a line of its own. -/
def prettyItems (depth : Nat) : List Json → List Char
  | [] => []
  | item :: items =>
    newLine depth ++ pretty depth item ++
      if items.isEmpty then [] else ',' :: prettyItems depth items

/-- The fields of an object, each on a line of its own. -/
def prettyFields (depth : Nat) : List (String × Json) → List Char
  | [] => []
  | (name, value) :: fields =>
    newLine depth ++ quoted name ++ ':' :: ' ' :: pretty depth value ++
      if fields.isEmpty then [] else ',' :: prettyFields depth fields

end

mutual

/-- A value on one line. -/
def compact : Json → List Char
  | .null => "null".toList
  | .bool value => (if value then "true" else "false").toList
  | .number value => Nat.toDigits 10 value
  | .string value => quoted value
  | .array items => '[' :: (compactItems items ++ [']'])
  | .object fields => '\x7b' :: (compactFields fields ++ ['\x7d'])

/-- The items of an array with commas between them. -/
def compactItems : List Json → List Char
  | [] => []
  | item :: items =>
    compact item ++ if items.isEmpty then [] else ',' :: compactItems items

/-- The fields of an object with commas between them. -/
def compactFields : List (String × Json) → List Char
  | [] => []
  | (name, value) :: fields =>
    quoted name ++ ':' :: compact value ++
      if fields.isEmpty then [] else ',' :: compactFields fields

end

end Json

end BugLang

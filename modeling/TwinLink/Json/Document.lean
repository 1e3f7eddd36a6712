/-!
# Writing JSON documents

* `Document.quote s` : a string in quotes, with only what must be escaped escaped;
* `Document` : strings, truth values, arrays and objects;
* `Document.render` : a document over several lines, two blanks for each level.
-/

namespace TwinLink

namespace Document

/-- A digit below sixteen, in lower case. -/
def hexDigit (n : Nat) : Char :=
  if n < 10 then Char.ofNat (48 + n) else Char.ofNat (87 + n)

/-- Quotes, backslashes and control characters are escaped, the common ones by a letter. -/
def escapeChar (c : Char) : List Char :=
  if c = '"' then ['\\', '"']
  else if c = '\\' then ['\\', '\\']
  else if 32 ≤ c.toNat then [c]
  else if c.toNat = 8 then ['\\', 'b']
  else if c.toNat = 9 then ['\\', 't']
  else if c.toNat = 10 then ['\\', 'n']
  else if c.toNat = 12 then ['\\', 'f']
  else if c.toNat = 13 then ['\\', 'r']
  else ['\\', 'u', '0', '0', hexDigit (c.toNat / 16), hexDigit (c.toNat % 16)]

/-- A string in quotes. -/
def quote (s : String) : List Char := '"' :: s.toList.flatMap escapeChar ++ ['"']

end Document

/-- A document of strings, truth values, arrays and objects. -/
inductive Document
  | text (s : String)
  | flag (b : Bool)
  | array (items : List Document)
  | object (fields : List (String × Document))

namespace Document

/-- The start of a line `depth` levels in. -/
def newline (depth : Nat) : List Char := '\n' :: List.replicate (2 * depth) ' '

mutual

/-- A document whose first line has begun, `depth` levels in. -/
def renderAt (depth : Nat) : Document → List Char
  | .text s => quote s
  | .flag true => ['t', 'r', 'u', 'e']
  | .flag false => ['f', 'a', 'l', 's', 'e']
  | .array [] => ['[', ']']
  | .array (x :: xs) =>
    '[' :: newline (depth + 1) ++ renderAt (depth + 1) x ++ renderItems (depth + 1) xs ++ newline depth ++ [']']
  | .object [] => ['\x7b', '\x7d']
  | .object ((key, x) :: rest) =>
    '\x7b' :: newline (depth + 1) ++ quote key ++ [':', ' '] ++ renderAt (depth + 1) x
      ++ renderFields (depth + 1) rest ++ newline depth ++ ['\x7d']

/-- The items of an array after the first. -/
def renderItems (depth : Nat) : List Document → List Char
  | [] => []
  | x :: xs => ',' :: newline depth ++ renderAt depth x ++ renderItems depth xs

/-- The fields of an object after the first. -/
def renderFields (depth : Nat) : List (String × Document) → List Char
  | [] => []
  | (key, x) :: rest =>
    ',' :: newline depth ++ quote key ++ [':', ' '] ++ renderAt depth x ++ renderFields depth rest

end

/-- The text of a document. -/
def render (d : Document) : String := String.ofList (renderAt 0 d)

end Document
end TwinLink

/-
# Writing JSON text

`Json.print` writes a value without blanks. Strings keep their characters,
apart from the quote, the backslash and the control characters.

Key definitions: `Json.print`, `Json.writeString`.
-/
import TwoPhase.Json.Basic
import TwoPhase.Trid

namespace TwoPhase.Json

/-- A character as it stands in a string. -/
def escape (c : Char) : List Char :=
  if c = '"' then ['\\', '"']
  else if c = '\\' then ['\\', '\\']
  else if c = '\n' then ['\\', 'n']
  else if c = '\r' then ['\\', 'r']
  else if c = '\t' then ['\\', 't']
  else if c.toNat = 8 then ['\\', 'b']
  else if c.toNat = 12 then ['\\', 'f']
  else if c.toNat < 32 then ['\\', 'u', '0', '0', hexDigit (c.toNat / 16), hexDigit (c.toNat % 16)]
  else [c]

/-- A string between its quotes, in front of `rest`. -/
def writeString (s : String) (rest : List Char) : List Char :=
  '"' :: s.toList.foldr (fun c r => escape c ++ r) ('"' :: rest)

/-- A text that has half a surrogate pair has no characters to be written
with; the empty string stands in. -/
def writeText (s : Option String) (rest : List Char) : List Char :=
  writeString (s.getD "") rest

mutual

/-- A value in front of `rest`. -/
def write : Json → List Char → List Char
  | null, rest => 'n' :: 'u' :: 'l' :: 'l' :: rest
  | bool true, rest => 't' :: 'r' :: 'u' :: 'e' :: rest
  | bool false, rest => 'f' :: 'a' :: 'l' :: 's' :: 'e' :: rest
  | integer n, rest => (toString n).toList ++ rest
  | decimal d, rest => (toString d.significand).toList ++ 'e' :: ((toString d.exponent).toList ++ rest)
  | string s, rest => writeText s rest
  | array [], rest => '[' :: ']' :: rest
  | array (j :: js), rest => '[' :: write j (writeElements js rest)
  | object [], rest => '\x7b' :: '\x7d' :: rest
  | object ((k, j) :: es), rest => '\x7b' :: writeText k (':' :: write j (writeMembers es rest))

/-- The elements of an array after the first one and the closing bracket, in
front of `rest`. -/
def writeElements : List Json → List Char → List Char
  | [], rest => ']' :: rest
  | j :: js, rest => ',' :: write j (writeElements js rest)

/-- The entries of an object after the first one and the closing brace, in
front of `rest`. -/
def writeMembers : List (Option String × Json) → List Char → List Char
  | [], rest => '\x7d' :: rest
  | (k, j) :: es, rest => ',' :: writeText k (':' :: write j (writeMembers es rest))

end

/-- A value as text. -/
def print (j : Json) : String :=
  String.ofList (write j [])

end TwoPhase.Json

/-
# Reading JSON text

`Json.parse?` reads a text that is exactly one JSON value, with blanks around
it. There are no comments, no trailing commas, no leading zeros, and no control
characters in strings. Escapes of a string are read as UTF-16 units first
(`stringUnits`); `textOfUnits` joins the pairs of them.

The reader goes down the nesting of the text with a measure that each level
and each element lowers. Twice the length of the text is always enough:
every two steps use up a character.

Key definitions: `Json.parse?`, `Json.value`, `Json.stringUnits`, `Json.number`.
-/
import TwoPhase.Json.Basic
import TwoPhase.Trid

namespace TwoPhase.Json

/-- The blanks that may stand between the parts of a JSON text. -/
def isBlank (c : Char) : Bool :=
  c == ' ' || c == '\t' || c == '\n' || c == '\r'

def skipBlanks (cs : List Char) : List Char :=
  cs.dropWhile isBlank

/-- What comes after `word`, if the text begins with it. -/
def afterWord? : List Char → List Char → Option (List Char)
  | [], cs => some cs
  | w :: ws, c :: cs => if w = c then afterWord? ws cs else none
  | _ :: _, [] => none

/-- The number that four hexadecimal digits write. -/
def hexUnit? (a b c d : Char) : Option Nat := do
  let a ← hexValue? a
  let b ← hexValue? b
  let c ← hexValue? c
  let d ← hexValue? d
  return ((a * 16 + b) * 16 + c) * 16 + d

/-- The unit that an escape of one character stands for. -/
def escapedUnit? : Char → Option Nat
  | '"' => some 34
  | '\\' => some 92
  | '/' => some 47
  | 'b' => some 8
  | 'f' => some 12
  | 'n' => some 10
  | 'r' => some 13
  | 't' => some 9
  | _ => none

/-- The rest of a string after its opening quote: its units, one for each
character and each escape, and the text after the closing quote. -/
def stringUnits : List Char → Option (List Nat × List Char)
  | [] => none
  | '"' :: rest => some ([], rest)
  | '\\' :: 'u' :: a :: b :: c :: d :: rest => do
    let u ← hexUnit? a b c d
    let (us, after) ← stringUnits rest
    return (u :: us, after)
  | '\\' :: e :: rest => do
    let u ← escapedUnit? e
    let (us, after) ← stringUnits rest
    return (u :: us, after)
  | c :: rest =>
    if c.toNat < 32 then none
    else do
      let (us, after) ← stringUnits rest
      return (c.toNat :: us, after)

/-- The unit is the first half of a surrogate pair. -/
def isLeadUnit (u : Nat) : Bool :=
  0xD800 ≤ u && u < 0xDC00

/-- The unit is the second half of a surrogate pair. -/
def isTrailUnit (u : Nat) : Bool :=
  0xDC00 ≤ u && u < 0xE000

/-- The characters that units stand for; none if half a pair is left over. -/
def textOfUnits : List Nat → Option (List Char)
  | [] => some []
  | u :: us =>
    if isTrailUnit u then none
    else if isLeadUnit u then
      match us with
      | v :: vs =>
        if isTrailUnit v then
          (textOfUnits vs).map (Char.ofNat (0x10000 + (u - 0xD800) * 0x400 + (v - 0xDC00)) :: ·)
        else none
      | [] => none
    else (textOfUnits us).map (Char.ofNat u :: ·)

/-- A string after its opening quote, and the text after it. -/
def stringRest (cs : List Char) : Option (Option String × List Char) := do
  let (us, after) ← stringUnits cs
  return ((textOfUnits us).map String.ofList, after)

/-- The number that decimal digits write. -/
def digitsValue (ds : List Char) : Nat :=
  ds.foldl (fun n d => 10 * n + Decimal.digit d) 0

/-- Decimal digits, at least one, and the text after them. -/
def digits1 (cs : List Char) : Option (List Char × List Char) :=
  let ds := cs.takeWhile Char.isDigit
  if ds.isEmpty then none else some (ds, cs.dropWhile Char.isDigit)

/-- The digits after a decimal point, if there is one. -/
def fraction (cs : List Char) : Option (Option (List Char) × List Char) :=
  match cs with
  | '.' :: rest => do
    let (ds, after) ← digits1 rest
    return (some ds, after)
  | _ => some (none, cs)

/-- The exponent, if there is one. -/
def exponent (cs : List Char) : Option (Option Int × List Char) :=
  match cs with
  | c :: rest =>
    if c = 'e' ∨ c = 'E' then
      match rest with
      | '-' :: rest => do
        let (ds, after) ← digits1 rest
        return (some (-(digitsValue ds : Int)), after)
      | '+' :: rest => do
        let (ds, after) ← digits1 rest
        return (some (digitsValue ds : Int), after)
      | _ => do
        let (ds, after) ← digits1 rest
        return (some (digitsValue ds : Int), after)
    else some (none, cs)
  | [] => some (none, cs)

/-- A number after its sign. -/
def unsigned (negative : Bool) (cs : List Char) : Option (Json × List Char) := do
  let (whole, cs) ← digits1 cs
  if whole.length > 1 ∧ whole.head? = some '0' then none
  else
    let (places, cs) ← fraction cs
    let (power, cs) ← exponent cs
    let n := digitsValue whole
    if places.isNone ∧ power.isNone ∧ n < 1 <<< 64 ∧ ¬ (negative ∧ n = 0) then
      return (.integer (if negative then -(n : Int) else n), cs)
    else return (.decimal (.ofDigits whole (places.getD []) (power.getD 0)), cs)

/-- A number, and the text after it. -/
def number : List Char → Option (Json × List Char)
  | '-' :: rest => unsigned true rest
  | cs => unsigned false cs

mutual

/-- The value that the text begins with, and the text after it. -/
def value : Nat → List Char → Option (Json × List Char)
  | 0, _ => none
  | fuel + 1, cs =>
    match skipBlanks cs with
    | '"' :: rest => do
      let (s, after) ← stringRest rest
      return (.string s, after)
    | '[' :: rest =>
      match skipBlanks rest with
      | ']' :: after => some (.array [], after)
      | _ => do
        let (items, after) ← elements fuel rest
        return (.array items, after)
    | '\x7b' :: rest =>
      match skipBlanks rest with
      | '\x7d' :: after => some (.object [], after)
      | _ => do
        let (entries, after) ← members fuel rest
        return (.object entries, after)
    | 'n' :: rest => (afterWord? ['u', 'l', 'l'] rest).map (.null, ·)
    | 't' :: rest => (afterWord? ['r', 'u', 'e'] rest).map (.bool true, ·)
    | 'f' :: rest => (afterWord? ['a', 'l', 's', 'e'] rest).map (.bool false, ·)
    | cs => number cs

/-- The elements of an array up to its closing bracket, and the text after it. -/
def elements : Nat → List Char → Option (List Json × List Char)
  | 0, _ => none
  | fuel + 1, cs => do
    let (j, cs) ← value fuel cs
    match skipBlanks cs with
    | ',' :: rest =>
      let (js, after) ← elements fuel rest
      return (j :: js, after)
    | ']' :: after => return ([j], after)
    | _ => none

/-- The entries of an object up to its closing brace, and the text after it. -/
def members : Nat → List Char → Option (List (Option String × Json) × List Char)
  | 0, _ => none
  | fuel + 1, cs => do
    match skipBlanks cs with
    | '"' :: rest =>
      let (key, cs) ← stringRest rest
      match skipBlanks cs with
      | ':' :: rest =>
        let (j, cs) ← value fuel rest
        match skipBlanks cs with
        | ',' :: rest =>
          let (es, after) ← members fuel rest
          return ((key, j) :: es, after)
        | '\x7d' :: after => return ([(key, j)], after)
        | _ => none
      | _ => none
    | _ => none

end

/-- The value that a text is. -/
def parseChars? (cs : List Char) : Option Json :=
  match value (2 * cs.length + 2) cs with
  | some (j, rest) => if (skipBlanks rest).isEmpty then some j else none
  | none => none

/-- The value that a text is. -/
def parse? (s : String) : Option Json :=
  parseChars? s.toList

end TwoPhase.Json

/-
# What is printed is read back

A JSON value whose text is written by `Json.print` is read back from it by
`Json.parse?`, if it holds what a writer puts there: texts, integers of less than
64 bits, and no other numbers (`Json.Plain`). A part of a value is read back in
front of whatever may follow it in the text (`Json.Stops`).

The reader counts the levels and elements that it goes through. A value needs
`Json.steps` of them, which its text has the length for.

Key definitions: `Json.Plain`, `Json.Stops`, `Json.steps`.
Key theorems: `Json.stringRest_writeString`, `Json.number_integer`, `Json.value_write`, `Json.parse?_print`.
-/
import Mathlib.Tactic.FinCases
import Mathlib.Tactic.IntervalCases
import Mathlib.Tactic.SplitIfs
import TwoPhase.Json.Printer
import TwoPhase.Json.Reader

namespace TwoPhase.Json

/-! ### Strings -/

theorem hexValue?_hexDigit {n : Nat} (h : n < 16) : hexValue? (hexDigit n) = some n :=
  (by decide : ∀ n < 16, hexValue? (hexDigit n) = some n) n h

/-- An escape of one letter. -/
theorem stringUnits_escaped {e : Char} {u : Nat} (he : escapedUnit? e = some u) (rest : List Char) :
    stringUnits ('\\' :: e :: rest) = (stringUnits rest).map fun x => (u :: x.1, x.2) := by
  have hu : e ≠ 'u' := by
    rintro rfl
    cases he
  rw [stringUnits]
  · rw [he]
    cases stringUnits rest <;> rfl
  · rintro a b c d rest rfl
    exact absurd rfl hu

/-- A character that stands for itself. -/
theorem stringUnits_plain {c : Char} (quote : c ≠ '"') (backslash : c ≠ '\\') (high : 32 ≤ c.toNat)
    (rest : List Char) : stringUnits (c :: rest) = (stringUnits rest).map fun x => (c.toNat :: x.1, x.2) := by
  rw [stringUnits]
  · rw [if_neg (by omega)]
    cases stringUnits rest <;> rfl
  · exact quote
  · intro a b c d rest h
    exact absurd h backslash
  · intro e rest h
    exact absurd h backslash

/-- An escape of four digits. -/
theorem stringUnits_unit {n : Nat} (low : n < 256) (rest : List Char) :
    stringUnits ('\\' :: 'u' :: '0' :: '0' :: hexDigit (n / 16) :: hexDigit (n % 16) :: rest) =
      (stringUnits rest).map fun x => (n :: x.1, x.2) := by
  have hhigh : hexValue? (hexDigit (n / 16)) = some (n / 16) := hexValue?_hexDigit (by omega)
  have hlow : hexValue? (hexDigit (n % 16)) = some (n % 16) := hexValue?_hexDigit (by omega)
  have hunit : hexUnit? '0' '0' (hexDigit (n / 16)) (hexDigit (n % 16)) = some n := by
    have hzero : hexValue? '0' = some 0 := by decide
    simp only [hexUnit?, hzero, hhigh, hlow, Option.bind_eq_bind, Option.bind_some, Option.pure_def]
    congr 1
    omega
  rw [stringUnits, hunit]
  cases stringUnits rest <;> rfl

/-- A character is read back as its only unit. -/
theorem stringUnits_escape (c : Char) (rest : List Char) :
    stringUnits (escape c ++ rest) = (stringUnits rest).map fun x => (c.toNat :: x.1, x.2) := by
  unfold escape
  split_ifs with quote backslash feed carriage tab back page control
  · rw [quote]
    exact stringUnits_escaped rfl rest
  · rw [backslash]
    exact stringUnits_escaped rfl rest
  · rw [feed]
    exact stringUnits_escaped rfl rest
  · rw [carriage]
    exact stringUnits_escaped rfl rest
  · rw [tab]
    exact stringUnits_escaped rfl rest
  · rw [back]
    exact stringUnits_escaped rfl rest
  · rw [page]
    exact stringUnits_escaped rfl rest
  · exact stringUnits_unit (by omega) rest
  · exact stringUnits_plain quote backslash (by omega) rest

theorem stringUnits_foldr (cs rest : List Char) :
    stringUnits (cs.foldr (fun c r => escape c ++ r) ('"' :: rest)) = some (cs.map (·.toNat), rest) := by
  induction cs with
  | nil => rfl
  | cons c cs ih => rw [List.foldr_cons, stringUnits_escape, ih, Option.map_some, List.map_cons]

/-- Characters are no halves of surrogate pairs. -/
theorem textOfUnits_toNat : ∀ cs : List Char, textOfUnits (cs.map (·.toNat)) = some cs
  | [] => rfl
  | c :: cs => by
    have hvalid : c.toNat < 0xD800 ∨ 0xDFFF < c.toNat ∧ c.toNat < 0x110000 := c.valid
    have htrail : isTrailUnit c.toNat = false := by
      unfold isTrailUnit
      simp
      omega
    have hlead : isLeadUnit c.toNat = false := by
      unfold isLeadUnit
      simp
      omega
    rw [List.map_cons, textOfUnits.eq_def]
    simp only [htrail, hlead, textOfUnits_toNat cs]
    simp

theorem stringRest_writeString (s : String) (rest : List Char) :
    ∃ cs, writeString s rest = '"' :: cs ∧ stringRest cs = some (some s, rest) := by
  refine ⟨_, rfl, ?_⟩
  simp only [stringRest, stringUnits_foldr, textOfUnits_toNat, Option.bind_eq_bind, Option.bind_some, Option.map_some,
    Option.pure_def, String.ofList_toList]

/-! ### Numbers -/

/-- What may stand after a value: nothing, or what ends an element or an entry. -/
def Stops (rest : List Char) : Prop :=
  ∀ c ∈ rest.head?, c = ',' ∨ c = ']' ∨ c = '\x7d'

theorem digits1_toDigits (n : Nat) {rest : List Char} (stops : Stops rest) :
    digits1 (Nat.toDigits 10 n ++ rest) = some (Nat.toDigits 10 n, rest) := by
  have hdigits : ∀ c ∈ Nat.toDigits 10 n, c.isDigit = true := fun c hc =>
    Nat.isDigit_of_mem_toDigits (by omega) (by omega) hc
  have hrest : rest.takeWhile Char.isDigit = [] ∧ rest.dropWhile Char.isDigit = rest := by
    cases rest with
    | nil => exact ⟨rfl, rfl⟩
    | cons c rest =>
      have hc : c.isDigit = false := by rcases stops c rfl with rfl | rfl | rfl <;> rfl
      simp [hc]
  unfold digits1
  rw [List.takeWhile_append_of_pos hdigits, List.dropWhile_append_of_pos hdigits, hrest.1, hrest.2, List.append_nil]
  simp [Nat.toDigits_ne_nil]

theorem digitsValue_toDigits (n : Nat) : digitsValue (Nat.toDigits 10 n) = n :=
  Nat.ofDigitChars_ten_toDigits

/-- A number of two digits or more does not begin with a zero. -/
theorem head?_toDigits {n : Nat} (h : 10 ≤ n) : (Nat.toDigits 10 n).head? ≠ some '0' := by
  induction n using Nat.strongRecOn with
  | _ n ih =>
    rw [Nat.toDigits_of_base_le (by omega) h, List.head?_append_of_ne_nil _ Nat.toDigits_ne_nil]
    by_cases hsmall : n / 10 < 10
    · rw [Nat.toDigits_of_lt_base hsmall]
      have hpos : 0 < n / 10 := by omega
      generalize n / 10 = d at hsmall hpos
      interval_cases d <;> decide
    · exact ih (n / 10) (by omega) (by omega)

theorem fraction_of_stops {rest : List Char} (stops : Stops rest) : fraction rest = some (none, rest) := by
  cases rest with
  | nil => rfl
  | cons c rest => rcases stops c rfl with rfl | rfl | rfl <;> rfl

theorem exponent_of_stops {rest : List Char} (stops : Stops rest) : exponent rest = some (none, rest) := by
  cases rest with
  | nil => rfl
  | cons c rest => rcases stops c rfl with rfl | rfl | rfl <;> rfl

/-- An integer after its sign is read back; a zero has none. -/
theorem unsigned_toDigits {n : Nat} (small : n < 2 ^ 64) (negative : Bool) (sign : negative = true → n ≠ 0)
    {rest : List Char} (stops : Stops rest) :
    unsigned negative (Nat.toDigits 10 n ++ rest) = some (.integer (if negative then -(n : Int) else n), rest) := by
  have hzeros : ¬ ((Nat.toDigits 10 n).length > 1 ∧ (Nat.toDigits 10 n).head? = some '0') := by
    rintro ⟨hlength, hzero⟩
    refine head?_toDigits ?_ hzero
    by_contra hsmall
    rw [Nat.toDigits_of_lt_base (by omega)] at hlength
    exact absurd hlength (by simp)
  have hlimit : n < 1 <<< 64 := by rwa [Nat.one_shiftLeft]
  have hsign : ¬ (negative = true ∧ n = 0) := fun h => sign h.1 h.2
  simp only [unsigned, digits1_toDigits n stops, fraction_of_stops stops, exponent_of_stops stops,
    digitsValue_toDigits, Option.bind_eq_bind, Option.bind_some, if_neg hzeros]
  rw [if_pos ⟨rfl, rfl, hlimit, hsign⟩]
  rfl

theorem toList_toString_ofNat (n : Nat) : (toString (Int.ofNat n)).toList = Nat.toDigits 10 n := Nat.toList_repr

theorem toList_toString_negSucc (n : Nat) : (toString (Int.negSucc n)).toList = '-' :: Nat.toDigits 10 (n + 1) := by
  rw [Int.toString_eq_repr]
  simp [Int.repr]

theorem head_toDigits (n : Nat) : ∃ d ds, Nat.toDigits 10 n = d :: ds ∧ d.isDigit = true := by
  obtain ⟨d, ds, hds⟩ := List.exists_cons_of_ne_nil (Nat.toDigits_ne_nil (n := n) (b := 10))
  exact ⟨d, ds, hds, Nat.isDigit_of_mem_toDigits (b := 10) (by omega) (by omega) (hds ▸ List.mem_cons_self)⟩

/-- An integer begins with a digit or its sign. -/
theorem head_toString (n : Int) : ∃ c cs, (toString n).toList = c :: cs ∧ (c.isDigit = true ∨ c = '-') := by
  cases n with
  | ofNat n =>
    obtain ⟨d, ds, hds, hd⟩ := head_toDigits n
    exact ⟨d, ds, (toList_toString_ofNat n).trans hds, .inl hd⟩
  | negSucc n => exact ⟨_, _, toList_toString_negSucc n, .inr rfl⟩

/-- An integer is read back, whatever stops it. -/
theorem number_integer {n : Int} (small : n.natAbs < 2 ^ 64) {rest : List Char} (stops : Stops rest) :
    number ((toString n).toList ++ rest) = some (.integer n, rest) := by
  cases n with
  | ofNat n =>
    have hread := unsigned_toDigits (n := n) small false (by simp) stops
    obtain ⟨d, ds, hds, hd⟩ := head_toDigits n
    rw [toList_toString_ofNat]
    unfold number
    split
    · -- no digit is a sign
      rename_i hminus
      rw [hds] at hminus
      cases hminus
      cases hd
    · exact hread
  | negSucc n =>
    rw [toList_toString_negSucc]
    exact unsigned_toDigits (n := n + 1) small true (by simp) stops

/-! ### Values -/

mutual

/-- The value is one that is written as it is: strings and keys are text, and
numbers are integers of less than 64 bits. -/
def Plain : Json → Prop
  | null | bool _ => True
  | integer n => n.natAbs < 2 ^ 64
  | decimal _ => False
  | string s => s.isSome = true
  | array items => ArePlain items
  | object entries => EntriesArePlain entries

def ArePlain : List Json → Prop
  | [] => True
  | j :: js => Plain j ∧ ArePlain js

def EntriesArePlain : List (Option String × Json) → Prop
  | [] => True
  | (k, j) :: es => k.isSome = true ∧ Plain j ∧ EntriesArePlain es

end

mutual

/-- The steps that the reader takes for a value. -/
def steps : Json → Nat
  | array items => stepsAll items + 1
  | object entries => stepsEntries entries + 1
  | _ => 1

def stepsAll : List Json → Nat
  | [] => 0
  | j :: js => steps j + stepsAll js + 1

def stepsEntries : List (Option String × Json) → Nat
  | [] => 0
  | (_, j) :: es => steps j + stepsEntries es + 1

end

theorem length_writeString (s : String) (rest : List Char) : rest.length + 2 ≤ (writeString s rest).length := by
  have hfold : ∀ cs : List Char, rest.length + 1 ≤ (cs.foldr (fun c r => escape c ++ r) ('"' :: rest)).length := by
    intro cs
    induction cs with
    | nil => exact Nat.le_refl _
    | cons c cs ih =>
      rw [List.foldr_cons, List.length_append]
      omega
  exact Nat.succ_le_succ (hfold s.toList)

mutual

/-- Every step uses up half a character at least. -/
theorem steps_le_length : ∀ (j : Json) (rest : List Char), j.steps + 2 * rest.length ≤ 2 * (write j rest).length
  | null, rest => by simp [steps, write]; omega
  | bool b, rest => by cases b <;> simp [steps, write] <;> omega
  | integer n, rest => by
    obtain ⟨c, cs, hn, -⟩ := head_toString n
    simp only [steps, write, hn, List.length_append, List.length_cons]
    omega
  | decimal d, rest => by
    simp only [steps, write, List.length_append, List.length_cons]
    omega
  | string s, rest => by
    have := length_writeString (s.getD "") rest
    simp only [steps, write, writeText]
    omega
  | array [], rest => by simp [steps, stepsAll, write]; omega
  | array (j :: js), rest => by
    have hj := steps_le_length j (writeElements js rest)
    have hjs := stepsAll_le_length js rest
    simp only [steps, stepsAll, write, List.length_cons]
    omega
  | object [], rest => by simp [steps, stepsEntries, write]; omega
  | object ((k, j) :: es), rest => by
    have hj := steps_le_length j (writeMembers es rest)
    have hes := stepsEntries_le_length es rest
    have hk := length_writeString (k.getD "") (':' :: write j (writeMembers es rest))
    simp only [steps, stepsEntries, write, writeText, List.length_cons] at hk ⊢
    omega

theorem stepsAll_le_length : ∀ (js : List Json) (rest : List Char),
    stepsAll js + 2 * rest.length + 2 ≤ 2 * (writeElements js rest).length
  | [], rest => by simp [stepsAll, writeElements]; omega
  | j :: js, rest => by
    have hj := steps_le_length j (writeElements js rest)
    have hjs := stepsAll_le_length js rest
    simp only [stepsAll, writeElements, List.length_cons]
    omega

theorem stepsEntries_le_length : ∀ (es : List (Option String × Json)) (rest : List Char),
    stepsEntries es + 2 * rest.length + 2 ≤ 2 * (writeMembers es rest).length
  | [], rest => by simp [stepsEntries, writeMembers]; omega
  | (k, j) :: es, rest => by
    have hj := steps_le_length j (writeMembers es rest)
    have hes := stepsEntries_le_length es rest
    have hk := length_writeString (k.getD "") (':' :: write j (writeMembers es rest))
    simp only [stepsEntries, writeMembers, writeText, List.length_cons] at hk ⊢
    omega

end

/-! ### Reading values back -/

theorem skipBlanks_cons {c : Char} (h : isBlank c = false) (cs : List Char) : skipBlanks (c :: cs) = c :: cs :=
  List.dropWhile_cons_of_neg (by simp [h])

/-- What a number begins with is no blank, and begins nothing else. -/
theorem ne_of_digit {c d : Char} (h : c.isDigit = true ∨ c = '-')
    (hd : d ∈ [' ', '\t', '\n', '\r', '"', '[', ']', '\x7b', 'n', 't', 'f']) : c ≠ d := by
  rintro rfl
  revert h
  fin_cases hd <;> decide

theorem isBlank_of_digit {c : Char} (h : c.isDigit = true ∨ c = '-') : isBlank c = false := by
  simp [isBlank, ne_of_digit h]

/-- A text that begins like a number is read as one. -/
theorem value_number {c : Char} (h : c.isDigit = true ∨ c = '-') (fuel : Nat) (cs : List Char) :
    value (fuel + 1) (c :: cs) = number (c :: cs) := by
  rw [value, skipBlanks_cons (isBlank_of_digit h)]
  split
  case h_7 => rfl
  all_goals
    rename_i heq
    cases heq
    exact absurd rfl (ne_of_digit h (by decide))

/-- A value begins with a character that is not blank and closes no array. -/
theorem write_head (j : Json) (plain : j.Plain) (rest : List Char) :
    ∃ c cs, write j rest = c :: cs ∧ isBlank c = false ∧ c ≠ ']' := by
  cases j with
  | null => exact ⟨_, _, rfl, rfl, by decide⟩
  | bool b => cases b <;> exact ⟨_, _, rfl, rfl, by decide⟩
  | integer n =>
    obtain ⟨c, cs, hn, hc⟩ := head_toString n
    exact ⟨c, cs ++ rest, by rw [write, hn, List.cons_append], isBlank_of_digit hc, ne_of_digit hc (by decide)⟩
  | decimal d => exact plain.elim
  | string s => exact ⟨_, _, rfl, rfl, by decide⟩
  | array items => cases items <;> exact ⟨_, _, rfl, rfl, by decide⟩
  | object entries => rcases entries with _ | ⟨⟨k, j⟩, es⟩ <;> exact ⟨_, _, rfl, rfl, by decide⟩

theorem stops_writeElements (js : List Json) (rest : List Char) : Stops (writeElements js rest) := by
  cases js with
  | nil => exact fun c hc => .inr (.inl (Option.some.inj hc).symm)
  | cons j js => exact fun c hc => .inl (Option.some.inj hc).symm

theorem stops_writeMembers (es : List (Option String × Json)) (rest : List Char) : Stops (writeMembers es rest) := by
  cases es with
  | nil => exact fun c hc => .inr (.inr (Option.some.inj hc).symm)
  | cons e es => exact fun c hc => .inl (Option.some.inj hc).symm

mutual

/-- A value is read back, whatever stops it. -/
theorem value_write : ∀ (j : Json) (fuel : Nat) (rest : List Char), j.Plain → Stops rest → j.steps ≤ fuel →
    value fuel (write j rest) = some (j, rest)
  | j, 0, rest, _, _, enough => by
    cases j <;> simp [steps] at enough
  | null, fuel + 1, rest, _, _, _ => rfl
  | bool b, fuel + 1, rest, _, _, _ => by cases b <;> rfl
  | integer n, fuel + 1, rest, plain, stops, _ => by
    have hread := number_integer plain stops
    obtain ⟨c, cs, hn, hc⟩ := head_toString n
    rw [hn, List.cons_append] at hread
    rw [write, hn, List.cons_append, value_number hc, hread]
  | string none, _, rest, plain, _, _ => by cases plain
  | string (some s), fuel + 1, rest, _, _, _ => by
    obtain ⟨cs, htext, hread⟩ := stringRest_writeString s rest
    have hwrite : write (string (some s)) rest = '"' :: cs := htext
    rw [hwrite, value, skipBlanks_cons rfl]
    simp only [hread]
    rfl
  | array [], fuel + 1, rest, _, _, _ => rfl
  | array (j :: js), fuel + 1, rest, plain, _, enough => by
    have hitems := elements_write (j :: js) fuel rest (by simp) plain (by simpa [steps] using enough)
    obtain ⟨c, cs, hhead, hblank, hopen⟩ := write_head j plain.1 (writeElements js rest)
    have htail : (writeElements (j :: js) rest).tail = c :: cs := hhead
    rw [htail] at hitems
    rw [write, hhead, value, skipBlanks_cons rfl]
    simp only [skipBlanks_cons hblank]
    split
    · rename_i heq
      cases heq
      exact absurd rfl hopen
    · rw [hitems]
      rfl
  | object [], fuel + 1, rest, _, _, _ => rfl
  | object ((k, j) :: es), fuel + 1, rest, plain, _, enough => by
    have hentries := members_write ((k, j) :: es) fuel rest (by simp) plain
      (by simpa [steps] using enough)
    obtain ⟨cs, hquote⟩ : ∃ cs, writeText k (':' :: write j (writeMembers es rest)) = '"' :: cs := ⟨_, rfl⟩
    have htail : (writeMembers ((k, j) :: es) rest).tail = '"' :: cs := hquote
    rw [htail] at hentries
    rw [write, hquote, value, skipBlanks_cons rfl]
    simp only [skipBlanks_cons (c := '"') rfl, hentries]
    rfl

/-- The elements of an array that is not empty are read back from the text after
its opening bracket. -/
theorem elements_write : ∀ (js : List Json) (fuel : Nat) (rest : List Char), js ≠ [] → ArePlain js →
    stepsAll js ≤ fuel → elements fuel (writeElements js rest).tail = some (js, rest)
  | [], _, _, inhabited, _, _ => absurd rfl inhabited
  | j :: js, 0, _, _, _, enough => by simp [stepsAll] at enough
  | j :: js, fuel + 1, rest, _, plain, enough => by
    rw [stepsAll] at enough
    have hj := value_write j fuel _ plain.1 (stops_writeElements js rest) (by omega)
    have htail : (writeElements (j :: js) rest).tail = write j (writeElements js rest) := rfl
    rw [htail, elements, hj]
    cases js with
    | nil => rfl
    | cons j' js =>
      have hjs := elements_write (j' :: js) fuel rest (by simp) plain.2 (by omega)
      have hcomma : writeElements (j' :: js) rest = ',' :: (writeElements (j' :: js) rest).tail := rfl
      rw [hcomma]
      simp only [skipBlanks_cons (c := ',') rfl, Option.bind_eq_bind, Option.bind_some, hjs]
      rfl

/-- The entries of an object that is not empty are read back from the text after
its opening brace. -/
theorem members_write : ∀ (es : List (Option String × Json)) (fuel : Nat) (rest : List Char), es ≠ [] →
    EntriesArePlain es → stepsEntries es ≤ fuel → members fuel (writeMembers es rest).tail = some (es, rest)
  | [], _, _, inhabited, _, _ => absurd rfl inhabited
  | (k, j) :: es, 0, _, _, _, enough => by simp [stepsEntries] at enough
  | (none, j) :: es, fuel + 1, rest, _, plain, enough => by cases plain.1
  | (some k, j) :: es, fuel + 1, rest, _, plain, enough => by
    rw [stepsEntries] at enough
    have hj := value_write j fuel _ plain.2.1 (stops_writeMembers es rest) (by omega)
    obtain ⟨cs, hkey, hread⟩ := stringRest_writeString k (':' :: write j (writeMembers es rest))
    have htail : (writeMembers ((some k, j) :: es) rest).tail = '"' :: cs := hkey
    rw [htail, members, skipBlanks_cons rfl]
    simp only [hread, hj, skipBlanks_cons (c := ':') rfl, Option.bind_eq_bind, Option.bind_some]
    cases es with
    | nil => rfl
    | cons e es =>
      have hes := members_write (e :: es) fuel rest (by simp) plain.2.2 (by omega)
      have hcomma : writeMembers (e :: es) rest = ',' :: (writeMembers (e :: es) rest).tail := rfl
      rw [hcomma]
      simp only [skipBlanks_cons (c := ',') rfl, hes]
      rfl

end

/-- What is printed is read back. -/
theorem parse?_print {j : Json} (plain : j.Plain) : parse? (print j) = some j := by
  have hlength := steps_le_length j []
  rw [List.length_nil] at hlength
  have hread := value_write j (2 * (write j []).length + 2) [] plain (by simp [Stops]) (by omega)
  simp [parse?, print, parseChars?, hread, skipBlanks]

end TwoPhase.Json

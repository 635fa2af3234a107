import TemplateCheck.Json.Number

/-!
Reading JSON text. Arrays and objects nest to a limited depth, numbers must have a finite binary64
value, and nothing but blanks may follow the value.
-/

namespace TemplateCheck.Json

/-- How deep arrays and objects may nest in a text. -/
def nestingLimit : Nat := 127

def isBlank (c : Char) : Bool := c == ' ' || c == '\n' || c == '\t' || c == '\r'

def skipBlanks (text : List Char) : List Char := text.dropWhile isBlank

inductive StringUnit where
  | char (c : Char)
  | code (unit : Nat)
deriving DecidableEq, Repr

def hexValue? (c : Char) : Option Nat :=
  if c.isDigit then some (c.toNat - '0'.toNat)
  else if 'a' ≤ c ∧ c ≤ 'f' then some (c.toNat - 'a'.toNat + 10)
  else if 'A' ≤ c ∧ c ≤ 'F' then some (c.toNat - 'A'.toNat + 10)
  else none

def hexNumber? (digits : List Char) : Option Nat :=
  digits.foldlM (fun n c => (hexValue? c).map fun d => 16 * n + d) 0

def unescape? (letter : Char) : Option Char :=
  if letter = '/' then some '/'
  else (shortEscapes.find? (·.2 == letter)).map (·.1)

def readUnits : List Char → Option (List StringUnit × List Char)
  | [] => none
  | '"' :: rest => some ([], rest)
  | '\\' :: 'u' :: a :: b :: c :: d :: rest => do
    let unit ← hexNumber? [a, b, c, d]
    let (units, rest) ← readUnits rest
    return (.code unit :: units, rest)
  | '\\' :: letter :: rest => do
    let c ← unescape? letter
    let (units, rest) ← readUnits rest
    return (.char c :: units, rest)
  | c :: rest =>
    if c.toNat < 32 then none
    else do
      let (units, rest) ← readUnits rest
      return (.char c :: units, rest)

def isHighSurrogate (unit : Nat) : Bool := 0xD800 ≤ unit && unit < 0xDC00

def isLowSurrogate (unit : Nat) : Bool := 0xDC00 ≤ unit && unit < 0xE000

/-- Joins surrogate pairs; a surrogate without its partner is a fault. -/
def joinUnits : List StringUnit → Option (List Char)
  | [] => some []
  | .char c :: rest => (joinUnits rest).map (c :: ·)
  | .code high :: .code low :: rest =>
    if isHighSurrogate high then
      if isLowSurrogate low then
        (joinUnits rest).map
          (Char.ofNat (0x10000 + (high - 0xD800) * 0x400 + (low - 0xDC00)) :: ·)
      else none
    else if isLowSurrogate high then none
    else (joinUnits (.code low :: rest)).map (Char.ofNat high :: ·)
  | .code unit :: rest =>
    if isHighSurrogate unit || isLowSurrogate unit then none
    else (joinUnits rest).map (Char.ofNat unit :: ·)

def readString (text : List Char) : Option (String × List Char) := do
  let (units, rest) ← readUnits text
  let chars ← joinUnits units
  return (String.ofList chars, rest)

def readDigits (text : List Char) : Option (List Char × List Char) :=
  let digits := text.takeWhile Char.isDigit
  if digits.isEmpty then none else some (digits, text.drop digits.length)

def readWhole (text : List Char) : Option (List Char × List Char) := do
  let (digits, rest) ← readDigits text
  if digits.head? = some '0' ∧ 1 < digits.length then none else some (digits, rest)

def readDecimals : List Char → Option (List Char × List Char)
  | '.' :: rest => readDigits rest
  | text => some ([], text)

def readSign : List Char → Int × List Char
  | '-' :: rest => (-1, rest)
  | '+' :: rest => (1, rest)
  | text => (1, text)

def readExponent : List Char → Option (Option Int × List Char)
  | [] => some (none, [])
  | c :: rest =>
    if c = 'e' ∨ c = 'E' then do
      let (sign, rest) := readSign rest
      let (digits, rest) ← readDigits rest
      return (some (sign * Nat.ofDigitChars 10 digits 0), rest)
    else some (none, c :: rest)

def readNumeral (text : List Char) : Option (Numeral × List Char) := do
  let (whole, rest) ← readWhole text
  let (decimals, rest) ← readDecimals rest
  let (exponent, rest) ← readExponent rest
  return (⟨whole, decimals, exponent⟩, rest)

def readNumber (text : List Char) : Option (Json × List Char) := do
  let negative := text.head? = some '-'
  let (n, rest) ← readNumeral (if negative then text.drop 1 else text)
  if !n.isFinite then none
  else match n.natural? with
    | some value => if negative then return (otherNumber, rest) else return (natural value, rest)
    | none => return (otherNumber, rest)

section Containers

variable (nested : List Char → Option (Json × List Char))

def readItems : Nat → List Char → Option (List Json × List Char)
  | 0, _ => none
  | fuel + 1, text => do
    let (item, rest) ← nested text
    match skipBlanks rest with
    | ',' :: rest => do
      let (items, rest) ← readItems fuel rest
      return (item :: items, rest)
    | ']' :: rest => return ([item], rest)
    | _ => none

def readMembers : Nat → List Char → Option (List (String × Json) × List Char)
  | 0, _ => none
  | fuel + 1, text => do
    match skipBlanks text with
    | '"' :: rest => do
      let (key, rest) ← readString rest
      match skipBlanks rest with
      | ':' :: rest => do
        let (value, rest) ← nested rest
        match skipBlanks rest with
        | ',' :: rest => do
          let (members, rest) ← readMembers fuel rest
          return ((key, value) :: members, rest)
        | '}' :: rest => return ([(key, value)], rest)
        | _ => none
      | _ => none
    | _ => none

def readArray (fuel : Nat) (text : List Char) : Option (Json × List Char) :=
  match skipBlanks text with
  | ']' :: rest => some (array [], rest)
  | text => (readItems nested fuel text).map fun (items, rest) => (array items, rest)

def readObject (fuel : Nat) (text : List Char) : Option (Json × List Char) :=
  match skipBlanks text with
  | '}' :: rest => some (object [], rest)
  | text => (readMembers nested fuel text).map fun (members, rest) => (object members, rest)

end Containers

def readKeyword (keyword : String) (value : Json) (text : List Char) : Option (Json × List Char) :=
  if keyword.toList.isPrefixOf text then some (value, text.drop keyword.length) else none

/-- A value whose containers nest at most `depth` deep; `fuel` bounds the lengths of its parts. -/
def readWithin (fuel : Nat) : Nat → List Char → Option (Json × List Char)
  | depth, text =>
    match skipBlanks text with
    | '"' :: rest => (readString rest).map fun (value, rest) => (string value, rest)
    | '[' :: rest =>
      match depth with
      | 0 => none
      | depth + 1 => readArray (readWithin fuel depth) fuel rest
    | '{' :: rest =>
      match depth with
      | 0 => none
      | depth + 1 => readObject (readWithin fuel depth) fuel rest
    | 'n' :: rest => readKeyword "ull" null rest
    | 't' :: rest => readKeyword "rue" (bool true) rest
    | 'f' :: rest => readKeyword "alse" (bool false) rest
    | text => readNumber text

def parse? (text : String) : Option Json := do
  let chars := text.toList
  let (value, rest) ← readWithin chars.length nestingLimit chars
  if (skipBlanks rest).isEmpty then some value else none

end TemplateCheck.Json

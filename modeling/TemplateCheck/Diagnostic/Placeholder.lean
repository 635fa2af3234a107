/-!
Filling the numbered placeholders of a message text. The text is read once from left to right, so
an argument is copied as it is, whatever braces it contains; a placeholder that no argument answers
stays.
-/

namespace TemplateCheck.Diagnostic

/-- A decimal index below `2 ^ 64`, which may have a plus sign and leading zeros. -/
def readIndex (text : List Char) : Option Nat :=
  let digits := match text with
    | '+' :: rest => rest
    | _ => text
  if digits.isEmpty || !digits.all Char.isDigit then none
  else
    let value := Nat.ofDigitChars 10 digits 0
    if value < Nat.pow 2 64 then some value else none

/-- For the text after an opening brace: the argument that the placeholder names, and the number of
characters up to the closing brace inclusive. -/
def placeholder? (arguments : List String) (text : List Char) : Option (String × Nat) := do
  let inner := text.takeWhile (· != '}')
  if inner.length = text.length then none
  else
    let index ← readIndex inner
    let argument ← arguments[index]?
    return (argument, inner.length + 1)

def fillFrom (arguments : List String) : Nat → List Char → List Char
  | _, [] => []
  | skip + 1, _ :: rest => fillFrom arguments skip rest
  | 0, c :: rest =>
    if c = '{' then
      match placeholder? arguments rest with
      | some (argument, width) => argument.toList ++ fillFrom arguments width rest
      | none => c :: fillFrom arguments 0 rest
    else c :: fillFrom arguments 0 rest

def fill (template : String) (arguments : List String) : String :=
  String.ofList (fillFrom arguments 0 template.toList)

end TemplateCheck.Diagnostic

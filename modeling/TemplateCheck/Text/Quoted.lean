/-!
Single-quoted text with backslash escapes, and reading it back. Reading also accepts the double
quote as delimiter, and an escaped character without a meaning of its own stands for itself.
-/

namespace TemplateCheck.Text

abbrev Escapes := List (Char × Char)

def typeEscapes : Escapes :=
  [('\'', '\''), ('\\', '\\'), ('\n', 'n'), ('\r', 'r'), ('\t', 't')]

def expressionEscapes : Escapes :=
  [('\'', '\''), ('\\', '\\'), ('\n', 'n')]

def Escapes.write (escapes : Escapes) (c : Char) : List Char :=
  match escapes.lookup c with
  | some letter => ['\\', letter]
  | none => [c]

def Escapes.quote (escapes : Escapes) (text : List Char) : List Char :=
  '\'' :: (text.flatMap escapes.write ++ ['\''])

def Escapes.quoteString (escapes : Escapes) (text : String) : String :=
  String.ofList (escapes.quote text.toList)

def unescape : Char → Char
  | 'n' => '\n'
  | 'r' => '\r'
  | 't' => '\t'
  | c => c

/-- The value of a quoted text after its opening delimiter, and the number of characters up to the
closing one inclusive; `none` if it is never closed. -/
def readQuoted (delimiter : Char) : List Char → Option (List Char × Nat)
  | [] => none
  | c :: rest =>
    if c = delimiter then some ([], 1)
    else if c = '\\' then
      match rest with
      | [] => none
      | letter :: rest =>
        (readQuoted delimiter rest).map fun (value, width) => (unescape letter :: value, width + 2)
    else (readQuoted delimiter rest).map fun (value, width) => (c :: value, width + 1)

end TemplateCheck.Text

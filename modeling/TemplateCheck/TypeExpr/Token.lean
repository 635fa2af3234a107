import TemplateCheck.Text.Blank
import TemplateCheck.Text.Quoted

/-!
Tokens of type expressions and the scanner, which always takes the longest token. Places are byte
offsets into the UTF-8 encoding of the text.
-/

namespace TemplateCheck.TypeExpr

inductive Token where
  /-- An identifier, possibly dotted. -/
  | name (text : String)
  /-- The text after the `@` of an attribute name. -/
  | attributeName (text : String)
  | quoted (value : String)
  | number (text : String)
  | less
  | greater
  | openParen
  | closeParen
  | openBracket
  | closeBracket
  | comma
  | colon
  | question
  | bar
  | ampersand
  | dot
  | arrow
  | ellipsis
deriving DecidableEq, Repr

def Token.describe : Token → String
  | name text => text
  | attributeName text => "@" ++ text
  | quoted value => "'" ++ value ++ "'"
  | number text => text
  | less => "<"
  | greater => ">"
  | openParen => "("
  | closeParen => ")"
  | openBracket => "["
  | closeBracket => "]"
  | comma => ","
  | colon => ":"
  | question => "?"
  | bar => "|"
  | ampersand => "&"
  | dot => "."
  | arrow => "=>"
  | ellipsis => "..."

structure PlacedToken where
  token : Token
  start : Nat
  stop : Nat
deriving DecidableEq, Repr

inductive Expected where
  | type
  | closingQuote
  | fieldName
  | parameterName
  | propertyName
  | colon
  | arrow
  | closeAngle
  | closeParen
  | closeParenOrComma
  | closeBracket
  | endOfType
deriving DecidableEq, Repr

def Expected.text : Expected → String
  | type => "a type"
  | closingQuote => "a closing quote"
  | fieldName => "a record field name"
  | parameterName => "a parameter name"
  | propertyName => "a property name"
  | colon => "':'"
  | arrow => "'=>'"
  | closeAngle => "'>' or ','"
  | closeParen => "')'"
  | closeParenOrComma => "')' or ','"
  | closeBracket => "']' or ','"
  | endOfType => "end of type expression"

inductive SyntaxFault where
  | unexpected (expected : Expected) (found : String)
  | tooDeep
deriving DecidableEq, Repr

structure SyntaxError where
  fault : SyntaxFault
  start : Nat
  stop : Nat
deriving DecidableEq, Repr

def endOfInput : String := "end of input"

def isNameStart (c : Char) : Bool := c.isAlpha || c == '_' || c == '$'

def isNamePart (c : Char) : Bool := c.isAlphanum || c == '_' || c == '$'

def isAttributePart (c : Char) : Bool := isNamePart c || c == '-'

def isNumberPart (c : Char) : Bool := c.isDigit || c == '.'

def startsWith (test : Char → Bool) (text : List Char) : Bool := text.head?.any test

/-- The rest of a name whose first character has been read. A dot belongs to the name if another
name follows it at once. -/
def nameTail : List Char → List Char
  | [] => []
  | c :: rest =>
    if isNamePart c then c :: nameTail rest
    else if c = '.' && startsWith isNameStart rest then c :: nameTail rest
    else []

def symbols : List (Char × Token) :=
  [('<', .less), ('>', .greater), ('(', .openParen), (')', .closeParen), ('[', .openBracket),
    (']', .closeBracket), (',', .comma), (':', .colon), ('?', .question), ('|', .bar),
    ('&', .ampersand)]

inductive LexemeFault where
  | unclosedQuote
  | unexpected
deriving DecidableEq, Repr

/-- The token that starts with `c`, and how many of the following characters it takes. -/
def lexeme (c : Char) (rest : List Char) : Except LexemeFault (Token × Nat) :=
  match symbols.lookup c with
  | some token => .ok (token, 0)
  | none =>
    if c = '=' && startsWith (· == '>') rest then .ok (.arrow, 1)
    else if c = '.' then
      if rest.take 2 = ['.', '.'] then .ok (.ellipsis, 2) else .ok (.dot, 0)
    else if c = '@' && startsWith isNameStart rest then
      let text := rest.takeWhile isAttributePart
      .ok (.attributeName (String.ofList text), text.length)
    else if c = '\'' || c = '"' then
      match Text.readQuoted c rest with
      | some (value, width) => .ok (.quoted (String.ofList value), width)
      | none => .error .unclosedQuote
    else if c.isDigit || (c = '-' && startsWith Char.isDigit rest) then
      let text := rest.takeWhile isNumberPart
      .ok (.number (String.ofList (c :: text)), text.length)
    else if isNameStart c then
      let text := nameTail rest
      .ok (.name (String.ofList (c :: text)), text.length)
    else .error .unexpected

def byteCount : List Char → Nat
  | [] => 0
  | c :: rest => c.utf8Size + byteCount rest

def scanFrom : Nat → Nat → List Char → Except SyntaxError (List PlacedToken)
  | 0, _, _ => .ok []
  | _, _, [] => .ok []
  | fuel + 1, start, c :: rest =>
    if Text.isBlank c then scanFrom fuel (start + c.utf8Size) rest
    else match lexeme c rest with
      | .error .unclosedQuote =>
        .error ⟨.unexpected .closingQuote endOfInput, start, start + byteCount (c :: rest)⟩
      | .error .unexpected => .error ⟨.unexpected .type c.toString, start, start + c.utf8Size⟩
      | .ok (token, width) => do
        let stop := start + c.utf8Size + byteCount (rest.take width)
        let tokens ← scanFrom fuel stop (rest.drop width)
        return ⟨token, start, stop⟩ :: tokens

def scan (text : List Char) : Except SyntaxError (List PlacedToken) :=
  scanFrom text.length 0 text

end TemplateCheck.TypeExpr

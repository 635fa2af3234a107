import TemplateCheck.Diagnostic.Basic
import TemplateCheck.Text.DottedName
import TemplateCheck.TypeExpr.Basic
import TemplateCheck.TypeExpr.Token

/-!
Reading type expressions. A type is a union of intersections of primaries with properties; the
type after an arrow extends as far as possible. Types nest at most `nestingLimit` deep, and the
parser of the nested types is an argument of each rule.
-/

namespace TemplateCheck.TypeExpr

/-- What is left to read. `lastStop` is the end of the token read last, `size` that of the text. -/
structure Cursor where
  file : Option String
  size : Nat
  tokens : List PlacedToken
  lastStop : Nat

abbrev Parse := StateT Cursor (Except SyntaxError)

namespace Parse

def locate (start stop : Nat) : Parse Location := return ⟨(← get).file, start, stop⟩

def lookahead (ahead : Nat) : Parse (Option Token) :=
  return ((← get).tokens[ahead]?).map (·.token)

def peek : Parse (Option Token) := lookahead 0

def here : Parse (Nat × Nat) := do
  let cursor ← get
  return match cursor.tokens with
    | [] => (cursor.size, cursor.size)
    | next :: _ => (next.start, next.stop)

def advance : Parse Location := do
  let cursor ← get
  match cursor.tokens with
  | [] => return ⟨cursor.file, cursor.size, cursor.size⟩
  | next :: rest =>
    set { cursor with tokens := rest, lastStop := next.stop }
    return ⟨cursor.file, next.start, next.stop⟩

def failWith (fault : SyntaxFault) {α : Type} : Parse α := do
  let (start, stop) ← here
  throw ⟨fault, start, stop⟩

def fail (expected : Expected) {α : Type} : Parse α := do
  let found := ((← peek).map Token.describe).getD endOfInput
  failWith (.unexpected expected found)

def eat (token : Token) : Parse Bool := do
  if (← peek) = some token then
    let _ ← advance
    return true
  else return false

def expect (token : Token) (expected : Expected) : Parse Location := do
  if (← peek) = some token then advance else fail expected

def simpleName (expected : Expected) : Parse (String × Location) := do
  match ← peek with
  | some (.name text) =>
    if Text.isDotted text then fail expected else return (text, ← advance)
  | _ => fail expected

/-- The items after the first one, each behind a separator; `fuel` bounds their number. -/
def separated (separator : Token) (item : Parse α) : Nat → Parse (List α)
  | 0 => return []
  | fuel + 1 => do
    if ← eat separator then
      let first ← item
      return first :: (← separated separator item fuel)
    else return []

def entries (close : Token) (item : Parse α) : Nat → Parse (List α)
  | 0 => return []
  | fuel + 1 => do
    if (← peek) = some close then return []
    let first ← item
    if ← eat .comma then return first :: (← entries close item fuel) else return [first]

/-- One operand alone stands for itself; several make a node from the first one's start to the end
of the last token. -/
def chain (fuel : Nat) (separator : Token) (make : Location → List TypeExpr → TypeExpr)
    (operand : Parse TypeExpr) : Parse TypeExpr := do
  let first ← operand
  let others ← separated separator operand fuel
  if others.isEmpty then return first
  else return make (← locate first.location.start (← get).lastStop) (first :: others)

def properties : Nat → TypeExpr → Parse TypeExpr
  | 0, base => return base
  | fuel + 1, base => do
    if ← eat .dot then
      match ← peek with
      | some (.name path) =>
        let place ← advance
        let location ← locate base.location.start place.stop
        properties fuel ((Text.segments path).foldl (fun base p => indexed location base p) base)
      | _ => fail .propertyName
    else return base

def opensFunction : Parse Bool := do
  match ← lookahead 1 with
  | some .closeParen => return true
  | some .ellipsis => return true
  | some (.name text) => return !Text.isDotted text && (← lookahead 2) == some .colon
  | _ => return false

section Rules

variable (fuel : Nat) (type : Parse TypeExpr)

def field : Parse (Field TypeExpr) := do
  let (name, location) ← simpleName .fieldName
  let optional ← eat .question
  let _ ← expect .colon .colon
  return ⟨name, location, optional, ← type⟩

def recordType : Parse TypeExpr := do
  let opening ← advance
  let fields ← entries .closeBracket (field type) fuel
  let closing ← expect .closeBracket .closeBracket
  return record (← locate opening.start closing.stop) fields

def functionParam : Parse (FunctionParam TypeExpr) := do
  let variadic ← eat .ellipsis
  let (name, location) ← simpleName .parameterName
  let _ ← expect .colon .colon
  return ⟨name, name, location, variadic, ← type⟩

def resultType : Parse TypeExpr := do
  let _ ← expect .closeParen .closeParenOrComma
  let _ ← expect .arrow .arrow
  type

def functionType : Parse TypeExpr := do
  let opening ← advance
  let parameters ← entries .closeParen (functionParam type) fuel
  let result ← resultType type
  return function (← locate opening.start result.location.stop) parameters result

def templateParamName : Parse (String × String × ParameterKind) := do
  match ← peek with
  | some (.name text) =>
    if Text.isDotted text then fail .parameterName else return (text, text, .regular)
  | some (.attributeName text) =>
    return (ParameterName.ofAttribute text, "@" ++ text, .htmlAttribute)
  | _ => fail .parameterName

def templateParam : Parse (TemplateParam TypeExpr) := do
  let (name, spelling, kind) ← templateParamName
  let location ← advance
  let optional ← eat .question
  let _ ← expect .colon .colon
  return ⟨name, spelling, location, kind, !optional, ← type⟩

def templateType : Parse TypeExpr := do
  let keyword ← advance
  let _ ← advance
  let parameters ← entries .closeParen (templateParam type) fuel
  let result ← resultType type
  return template (← locate keyword.start result.location.stop) parameters result

def genericArguments : Parse (List TypeExpr) := do
  if (← peek) = some .greater then return []
  let first ← type
  return first :: (← separated .comma type fuel)

def keywordLiteral (name : String) : Option Literal :=
  if name = "null" then some .null
  else if name = "undefined" then some .undefined
  else if name = "true" ∨ name = "false" then some (.other name)
  else none

def namedType (name : String) : Parse TypeExpr := do
  let place ← advance
  match keywordLiteral name with
  | some value => return literal place value
  | none =>
    if ← eat .less then
      let arguments ← genericArguments fuel type
      let closing ← expect .greater .closeAngle
      return generic (← locate place.start closing.stop) name arguments
    else return named place name

def parenthesized : Parse TypeExpr := do
  let _ ← advance
  let inner ← type
  let _ ← expect .closeParen .closeParen
  return inner

def primary : Parse TypeExpr := do
  match ← peek with
  | some (.name name) =>
    if name = "template" ∧ (← lookahead 1) = some .openParen then templateType fuel type
    else namedType fuel type name
  | some .question => return named (← advance) "?"
  | some (.quoted value) => return literal (← advance) (.string value)
  | some (.number text) => return literal (← advance) (.other text)
  | some .openBracket => recordType fuel type
  | some .openParen => if ← opensFunction then functionType fuel type else parenthesized type
  | _ => fail .type

def postfixed : Parse TypeExpr := do properties fuel (← primary fuel type)

def intersectionType : Parse TypeExpr := chain fuel .ampersand intersection (postfixed fuel type)

def unionType : Parse TypeExpr := chain fuel .bar union (intersectionType fuel type)

end Rules

/-- A type that nests at most `depth` deep. -/
def typeWithin (fuel : Nat) : Nat → Parse TypeExpr
  | 0 => failWith .tooDeep
  | depth + 1 => unionType fuel (typeWithin fuel depth)

def whole (fuel : Nat) : Parse TypeExpr := do
  let e ← typeWithin fuel nestingLimit
  if (← peek).isSome then fail .endOfType else return e

end Parse

def ofTokens (file : Option String) (size : Nat) (tokens : List PlacedToken) :
    Except SyntaxError TypeExpr :=
  (Parse.whole tokens.length).run' ⟨file, size, tokens, 0⟩

/-- The expression that a text spells, with its locations in `file`. -/
def parse (text : String) (file : Option String) : Except SyntaxError TypeExpr := do
  let chars := text.toList
  ofTokens file (byteCount chars) (← scan chars)

def SyntaxError.report (e : SyntaxError) (file : Option String) (report : Report) : Report :=
  match e.fault with
  | .unexpected expected found =>
    report.error ⟨file, e.start, e.stop⟩ .typeSyntaxError [expected.text, found]
  | .tooDeep => report.error ⟨file, e.start, e.stop⟩ .typeTooDeep [toString nestingLimit]

/-- Reads an expression, reporting the fault of a text that is none. -/
def parseReporting (text : String) (file : Option String) (report : Report) :
    Option TypeExpr × Report :=
  match parse text file with
  | .ok e => (some e, report)
  | .error e => (none, e.report file report)

end TemplateCheck.TypeExpr

import TemplateCheck.TypeExpr.Basic
import TemplateCheck.Text.ParameterList
import TemplateCheck.Text.Quoted

/-!
Type expressions as text. Parentheses stand where the bare text would be read as another expression.
-/

namespace TemplateCheck.TypeExpr

inductive Position where
  | argument
  | unionMember
  | intersectionMember
  | base
deriving DecidableEq, Repr

/-- A bare name or keyword before a dot would merge with the property into one dotted name, and a
bare number would take the dot as its own. -/
def needsParens : Position → TypeExpr → Bool
  | .argument, _ => false
  | .unionMember, e => match e with
    | template .. | function .. | union .. => true
    | _ => false
  | .intersectionMember, e => match e with
    | template .. | function .. | union .. | intersection .. => true
    | _ => false
  | .base, e => match e with
    | template .. | function .. | named .. | union .. | intersection .. => true
    | literal _ (.string _) => false
    | literal .. => true
    | _ => false

def Literal.print : Literal → String
  | .null => "null"
  | .undefined => "undefined"
  | .string value => Text.typeEscapes.quoteString value
  | .other text => text

mutual

def print : TypeExpr → String
  | named _ name => name
  | generic _ name arguments =>
    name ++ "<" ++ Text.commaList (printAll .argument arguments) ++ ">"
  | union _ candidates => Text.joinWith "|" (printAll .unionMember candidates)
  | intersection _ candidates => Text.joinWith " & " (printAll .intersectionMember candidates)
  | record _ fields => "[" ++ Text.commaList (printFields fields) ++ "]"
  | template _ parameters result =>
    "template " ++ Text.parameterList (printTemplateParams parameters) ++ " => " ++ print result
  | function _ parameters result =>
    Text.parameterList (printFunctionParams parameters) ++ " => " ++ print result
  | indexed _ base property =>
    Text.parenthesize (needsParens .base base) (print base) ++ "." ++ property
  | literal _ value => value.print

def printAll (position : Position) : List TypeExpr → List String
  | [] => []
  | e :: rest => Text.parenthesize (needsParens position e) (print e) :: printAll position rest

def printFields : List (Field TypeExpr) → List String
  | [] => []
  | ⟨name, _, optional, type⟩ :: rest =>
    (name ++ Text.typeMark optional ++ print type) :: printFields rest

def printTemplateParams : List (TemplateParam TypeExpr) → List String
  | [] => []
  | ⟨_, spelling, _, _, required, type⟩ :: rest =>
    (spelling ++ Text.typeMark (!required) ++ print type) :: printTemplateParams rest

def printFunctionParams : List (FunctionParam TypeExpr) → List String
  | [] => []
  | ⟨_, spelling, _, variadic, type⟩ :: rest =>
    (Text.variadicMark variadic ++ spelling ++ Text.typeMark false ++ print type) ::
      printFunctionParams rest

end

end TemplateCheck.TypeExpr

import TemplateCheck.Location
import TemplateCheck.ParameterName

/-!
Type expressions, as written in annotations, with the place of each part in the source text.
-/

namespace TemplateCheck

namespace TypeExpr

inductive Literal where
  | null
  | undefined
  | string (value : String)
  | other (text : String)
deriving DecidableEq, Repr

structure Field (τ : Type) where
  name : String
  nameLocation : Location
  optional : Bool
  type : τ

/-- A parameter of a template. `spelling` is the name as written, with the `@` of an attribute. -/
structure TemplateParam (τ : Type) where
  name : String
  spelling : String
  nameLocation : Location
  kind : ParameterKind
  required : Bool
  type : τ

structure FunctionParam (τ : Type) where
  name : String
  spelling : String
  nameLocation : Location
  variadic : Bool
  type : τ

end TypeExpr

inductive TypeExpr where
  /-- A builtin, an alias or a proto, possibly dotted; `?` is the unknown type. -/
  | named (location : Location) (name : String)
  | generic (location : Location) (name : String) (arguments : List TypeExpr)
  | union (location : Location) (candidates : List TypeExpr)
  | intersection (location : Location) (candidates : List TypeExpr)
  | record (location : Location) (fields : List (TypeExpr.Field TypeExpr))
  | template (location : Location) (parameters : List (TypeExpr.TemplateParam TypeExpr))
      (result : TypeExpr)
  | function (location : Location) (parameters : List (TypeExpr.FunctionParam TypeExpr))
      (result : TypeExpr)
  /-- The type of a property of a type. -/
  | indexed (location : Location) (base : TypeExpr) (property : String)
  | literal (location : Location) (value : TypeExpr.Literal)

namespace TypeExpr

/-- How deep types may nest, in source texts and in resolution. -/
def nestingLimit : Nat := 200

def location : TypeExpr → Location
  | named l _ => l
  | generic l _ _ => l
  | union l _ => l
  | intersection l _ => l
  | record l _ => l
  | template l _ _ => l
  | function l _ _ => l
  | indexed l _ _ => l
  | literal l _ => l

def isFunctionLike : TypeExpr → Bool
  | template .. => true
  | function .. => true
  | _ => false

end TypeExpr
end TemplateCheck

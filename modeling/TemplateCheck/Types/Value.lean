import TemplateCheck.Binary64.Basic
import TemplateCheck.Types.ContentKind
import TemplateCheck.Types.Fold

/-!
Values at rendering time, and whether they belong to a type. The test is loose where values carry
less than their types: both kinds of numbers are alike, elements are html with any tag, and
containers are not searched.
-/

namespace TemplateCheck

inductive Value where
  | null
  | undefined
  | bool (value : Bool)
  | int (value : Int)
  | float (value : Binary64)
  | string (value : String)
  | sanitized (kind : ContentKind) (content : String)
  | list (items : List Value)
  | set (items : List Value)
  | map (entries : List (Value × Value))
  | legacyObjectMap (entries : List (String × Value))
  | record (fields : List (String × Value))
  | proto (m : Proto.Registered Proto.MessageDescriptor) (fields : List (String × Value))
  /-- A template, by its full name. -/
  | template (name : String)
  /-- A function, by its name. -/
  | function (name : String)
  deriving Inhabited

namespace Value

def isContentOf (kind : ContentKind) : Value → Bool
  | sanitized k _ => k == kind
  | _ => false

def isIn (v : Value) : Intrinsic → Bool
  | .any => true
  | .unknown => true
  | .never => false
  | .null => match v with | null => true | _ => false
  | .undefined => match v with | undefined => true | _ => false
  | .bool => match v with | bool _ => true | _ => false
  | .int => match v with | int _ | float _ => true | _ => false
  | .float => match v with | int _ | float _ => true | _ => false
  | .string => match v with | string _ => true | _ => false
  | .html => v.isContentOf .html
  | .css => v.isContentOf .css
  | .js => v.isContentOf .js
  | .uri => v.isContentOf .uri || v.isContentOf .trustedResourceUri
  | .trustedResourceUri => v.isContentOf .trustedResourceUri
  | .attributes => v.isContentOf .attributes
  | .message => match v with | proto .. => true | _ => false

/-- The test on forms other than unions and intersections. An enum value is its number. -/
def fits (v : Value) : TypeData → Bool
  | .error => true
  | .intrinsic kind => v.isIn kind
  | .element _ => v.isContentOf .html || v.isContentOf .htmlElement
  | .list _ => match v with | list _ => true | _ => false
  | .set _ => match v with | set _ => true | _ => false
  | .iterable _ => match v with | list _ | set _ => true | _ => false
  | .map .. => match v with | map _ => true | _ => false
  | .legacyObjectMap .. => match v with | legacyObjectMap _ => true | _ => false
  | .record _ => match v with | record _ => true | _ => false
  | .template _ => match v with | template _ => true | _ => false
  | .function _ => match v with | function _ => true | _ => false
  | .literal text => match v with | string value => value == text | _ => false
  | .message m => match v with | proto n _ => n == m | _ => false
  | .enum _ => match v with | int _ => true | _ => false
  | .union _ => false
  | .intersection _ => true

end Value

namespace TypeStore

def hasValueWithin (s : TypeStore) (v : Value) : Nat → TypeId → Bool
  | 0, _ => true
  | depth + 1, t =>
    match s.data t with
    | .union members => members.any (s.hasValueWithin v depth)
    | .intersection members => members.all (s.hasValueWithin v depth)
    | d => v.fits d

/-- Whether a value is a member of a type. -/
def hasValue (s : TypeStore) (t : TypeId) (v : Value) : Bool := s.hasValueWithin v s.nesting t

end TypeStore
end TemplateCheck

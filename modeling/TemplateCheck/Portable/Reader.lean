import TemplateCheck.Json.Reader
import TemplateCheck.Portable.Basic

/-!
Portable types from JSON. A description is an object with a `kind`, or an array of the kind and the
fields in their order. Unknown members are ignored, but a known one must not occur twice.
-/

namespace TemplateCheck.PortableType

abbrev Members := List (String × Json)

def member? (members : Members) (key : String) : Option Json :=
  match members.filter (·.1 == key) with
  | [(_, value)] => some value
  | _ => none

def text? (members : Members) (key : String) : Option String :=
  match member? members key with
  | some (.string value) => some value
  | _ => none

def bool? (members : Members) (key : String) : Option Bool :=
  match member? members key with
  | some (.bool value) => some value
  | _ => none

def flag? (members : Members) (key : String) : Option Bool :=
  if members.any (·.1 == key) then bool? members key else some false

def items? (members : Members) (key : String) : Option (List Json) :=
  match member? members key with
  | some (.array items) => some items
  | _ => none

/-- The members of a structure, which may be written as an array of all its fields. -/
def structure? (fields : List String) : Json → Option Members
  | .object members => some members
  | .array items => if items.length = fields.length then some (fields.zip items) else none
  | _ => none

def fieldsOf (kind : String) : List String :=
  match kind with
  | "primitive" => ["name"]
  | "element" => ["tag"]
  | "list" => ["element"]
  | "set" => ["element"]
  | "iterable" => ["element"]
  | "map" => ["key", "value"]
  | "legacy_object_map" => ["key", "value"]
  | "record" => ["properties"]
  | "template" => ["parameters", "return_type"]
  | "function" => ["parameters", "return_type"]
  | "union" => ["members"]
  | "intersection" => ["members"]
  | "literal" => ["value"]
  | "proto" => ["name"]
  | "proto_enum" => ["name"]
  | _ => []

/-- The kind that a value names; nested descriptions may give its number. -/
def kind? (nested : Bool) : Json → Option String
  | .string name => if kinds.contains name then some name else none
  | .natural index => if nested then kinds[index]? else none
  | _ => none

def tagged? (nested : Bool) : Json → Option (String × Members)
  | .object members => do
    let kind ← kind? nested (← member? members "kind")
    return (kind, members.filter (·.1 != "kind"))
  | .array (tag :: items) => do
    let kind ← kind? nested tag
    return (kind, ← structure? (fieldsOf kind) (.array items))
  | _ => none

section Parts

variable (type? : Json → Option PortableType)

def typeAt? (members : Members) (key : String) : Option PortableType :=
  (member? members key).bind type?

def property? (value : Json) : Option (RecordProperty PortableType) := do
  let members ← structure? ["name", "optional", "type"] value
  return ⟨← text? members "name", ← flag? members "optional", ← typeAt? type? members "type"⟩

def templateParameter? (value : Json) : Option (TemplateParameter PortableType) := do
  let members ← structure? ["name", "attribute", "required", "type"] value
  let kind : ParameterKind := if ← flag? members "attribute" then .htmlAttribute else .regular
  return ⟨← text? members "name", kind, ← bool? members "required", ← typeAt? type? members "type"⟩

def functionParameter? (value : Json) : Option (FunctionParameter PortableType) := do
  let members ← structure? ["name", "var_args", "type"] value
  return ⟨← text? members "name", ← flag? members "var_args", ← typeAt? type? members "type"⟩

def ofMembers? (kind : String) (members : Members) : Option PortableType :=
  match kind with
  | "error" => some .error
  | "primitive" => do return .primitive (← text? members "name")
  | "element" => do return .element (← text? members "tag")
  | "list" => do return .list (← typeAt? type? members "element")
  | "set" => do return .set (← typeAt? type? members "element")
  | "iterable" => do return .iterable (← typeAt? type? members "element")
  | "map" => do return .map (← typeAt? type? members "key") (← typeAt? type? members "value")
  | "legacy_object_map" => do
    return .legacyObjectMap (← typeAt? type? members "key") (← typeAt? type? members "value")
  | "record" => do return .record (← (← items? members "properties").mapM (property? type?))
  | "template" => do
    return .template (← (← items? members "parameters").mapM (templateParameter? type?))
      (← typeAt? type? members "return_type")
  | "function" => do
    return .function (← (← items? members "parameters").mapM (functionParameter? type?))
      (← typeAt? type? members "return_type")
  | "union" => do return .union (← (← items? members "members").mapM type?)
  | "intersection" => do return .intersection (← (← items? members "members").mapM type?)
  | "literal" => do return .literal (← text? members "value")
  | "proto" => do return .proto (← text? members "name")
  | "proto_enum" => do return .protoEnum (← text? members "name")
  | "any_enum" => some .anyEnum
  | "unknown_enum" => some .unknownEnum
  | _ => none

end Parts

def ofJsonWithin : Nat → Bool → Json → Option PortableType
  | 0, _, _ => none
  | depth + 1, nested, value => do
    let (kind, members) ← tagged? nested value
    ofMembers? (ofJsonWithin depth true) kind members

def ofJson? (value : Json) : Option PortableType := ofJsonWithin (Json.nestingLimit + 1) false value

end TemplateCheck.PortableType

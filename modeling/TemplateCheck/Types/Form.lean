import TemplateCheck.ParameterName
import TemplateCheck.Proto.Basic

/-!
The forms that a type can have. A form is one layer of a type, over whatever stands for its parts:
the numbers of a store, texts, or whole types.
-/

namespace TemplateCheck

inductive Intrinsic where
  | any
  | unknown
  | never
  | null
  | undefined
  | bool
  | int
  | float
  | string
  | html
  | css
  | js
  | uri
  | trustedResourceUri
  | attributes
  | message
deriving DecidableEq, Hashable, Repr

namespace Intrinsic

def all : List Intrinsic :=
  [any, unknown, never, null, undefined, bool, int, float, string, html, css, js, uri,
    trustedResourceUri, attributes, message]

def name : Intrinsic → String
  | any => "any"
  | unknown => "?"
  | never => "never"
  | null => "null"
  | undefined => "undefined"
  | bool => "bool"
  | int => "int"
  | float => "float"
  | string => "string"
  | html => "html"
  | css => "css"
  | js => "js"
  | uri => "uri"
  | trustedResourceUri => "trusted_resource_uri"
  | attributes => "attributes"
  | message => "Message"

def ofName? (name : String) : Option Intrinsic := all.find? (·.name == name)

end Intrinsic

inductive ElementTag where
  /-- Accepts every element. -/
  | wildcard
  /-- Accepted by every element. -/
  | any
  | named (tag : String)
deriving DecidableEq, Hashable, Repr

def ElementTag.text : ElementTag → String
  | wildcard => "?"
  | any => "any"
  | named tag => tag

inductive EnumRef where
  | any
  | unknown
  | descriptor (e : Proto.Registered Proto.EnumDescriptor)
deriving DecidableEq, Hashable, Repr

structure RecordProperty (τ : Type) where
  name : String
  optional : Bool
  type : τ
deriving DecidableEq, Hashable, Repr

structure TemplateParameter (τ : Type) where
  name : String
  kind : ParameterKind
  required : Bool
  type : τ
deriving DecidableEq, Hashable, Repr

structure FunctionParameter (τ : Type) where
  name : String
  variadic : Bool
  type : τ
deriving DecidableEq, Hashable, Repr

structure TemplateShape (τ : Type) where
  parameters : List (TemplateParameter τ)
  result : τ
deriving DecidableEq, Hashable, Repr

structure FunctionShape (τ : Type) where
  parameters : List (FunctionParameter τ)
  result : τ
deriving DecidableEq, Hashable, Repr

inductive TypeForm (τ : Type) where
  /-- What an expression without a meaning resolves to. -/
  | error
  | intrinsic (kind : Intrinsic)
  | element (tag : ElementTag)
  | list (item : τ)
  | set (item : τ)
  | iterable (item : τ)
  | map (key value : τ)
  | legacyObjectMap (key value : τ)
  | record (properties : List (RecordProperty τ))
  | template (shape : TemplateShape τ)
  | function (shape : FunctionShape τ)
  | union (members : List τ)
  | intersection (members : List τ)
  | literal (value : String)
  | message (m : Proto.Registered Proto.MessageDescriptor)
  | enum (e : EnumRef)
deriving DecidableEq, Hashable, Repr

variable {τ υ : Type}

def RecordProperty.map (f : τ → υ) (p : RecordProperty τ) : RecordProperty υ :=
  ⟨p.name, p.optional, f p.type⟩

def TemplateParameter.map (f : τ → υ) (p : TemplateParameter τ) : TemplateParameter υ :=
  ⟨p.name, p.kind, p.required, f p.type⟩

def FunctionParameter.map (f : τ → υ) (p : FunctionParameter τ) : FunctionParameter υ :=
  ⟨p.name, p.variadic, f p.type⟩

namespace TypeForm

def mapParts (f : τ → υ) : TypeForm τ → TypeForm υ
  | error => .error
  | intrinsic kind => .intrinsic kind
  | element tag => .element tag
  | list item => .list (f item)
  | set item => .set (f item)
  | iterable item => .iterable (f item)
  | map key value => .map (f key) (f value)
  | legacyObjectMap key value => .legacyObjectMap (f key) (f value)
  | record properties => .record (properties.map (·.map f))
  | template shape => .template ⟨shape.parameters.map (·.map f), f shape.result⟩
  | function shape => .function ⟨shape.parameters.map (·.map f), f shape.result⟩
  | union members => .union (members.map f)
  | intersection members => .intersection (members.map f)
  | literal value => .literal value
  | message m => .message m
  | enum e => .enum e

def parts : TypeForm τ → List τ
  | error => []
  | intrinsic _ => []
  | element _ => []
  | list item => [item]
  | set item => [item]
  | iterable item => [item]
  | map key value => [key, value]
  | legacyObjectMap key value => [key, value]
  | record properties => properties.map (·.type)
  | template shape => shape.parameters.map (·.type) ++ [shape.result]
  | function shape => shape.parameters.map (·.type) ++ [shape.result]
  | union members => members
  | intersection members => members
  | literal _ => []
  | message _ => []
  | enum _ => []

def isUnion : TypeForm τ → Bool
  | union _ => true
  | _ => false

def isFunctionLike : TypeForm τ → Bool
  | template _ => true
  | function _ => true
  | _ => false

def protoName? : TypeForm τ → Option String
  | message m => some m.descriptor.name
  | enum (.descriptor e) => some e.descriptor.name
  | _ => none

theorem parts_mapParts (f : τ → υ) (d : TypeForm τ) : (d.mapParts f).parts = d.parts.map f := by
  cases d <;>
    simp [mapParts, parts, Function.comp_def, RecordProperty.map, TemplateParameter.map,
      FunctionParameter.map]

end TypeForm

inductive Kind where
  | error
  | intrinsic (kind : Intrinsic)
  | element
  | list
  | set
  | iterable
  | map
  | legacyObjectMap
  | record
  | template
  | function
  | union
  | intersection
  | literal
  | proto
  | protoEnum
deriving DecidableEq, Repr

def TypeForm.kind : TypeForm τ → Kind
  | error => .error
  | intrinsic kind => .intrinsic kind
  | element _ => .element
  | list _ => .list
  | set _ => .set
  | iterable _ => .iterable
  | map .. => .map
  | legacyObjectMap .. => .legacyObjectMap
  | record _ => .record
  | template _ => .template
  | function _ => .function
  | union _ => .union
  | intersection _ => .intersection
  | literal _ => .literal
  | message _ => .proto
  | enum _ => .protoEnum

namespace Kind

def name : Kind → String
  | error => "Error"
  | intrinsic .any => "Any"
  | intrinsic .unknown => "Unknown"
  | intrinsic .never => "Never"
  | intrinsic .null => "Null"
  | intrinsic .undefined => "Undefined"
  | intrinsic .bool => "Bool"
  | intrinsic .int => "Int"
  | intrinsic .float => "Float"
  | intrinsic .string => "String"
  | intrinsic .html => "Html"
  | intrinsic .css => "Css"
  | intrinsic .js => "Js"
  | intrinsic .uri => "Uri"
  | intrinsic .trustedResourceUri => "TrustedResourceUri"
  | intrinsic .attributes => "Attributes"
  | intrinsic .message => "Message"
  | element => "Element"
  | list => "List"
  | set => "Set"
  | iterable => "Iterable"
  | map => "Map"
  | legacyObjectMap => "LegacyObjectMap"
  | record => "Record"
  | template => "Template"
  | function => "Function"
  | union => "Union"
  | intersection => "Intersection"
  | literal => "Literal"
  | proto => "Proto"
  | protoEnum => "ProtoEnum"

def isSanitizedContent : Kind → Bool
  | intrinsic .html | intrinsic .css | intrinsic .js | intrinsic .uri
  | intrinsic .trustedResourceUri | intrinsic .attributes | element => true
  | _ => false

def isPrimitive : Kind → Bool
  | intrinsic .bool | intrinsic .int | intrinsic .float | intrinsic .string | intrinsic .null
  | intrinsic .undefined => true
  | _ => false

end Kind
end TemplateCheck

import TemplateCheck.Json.Basic
import TemplateCheck.Text.ParameterList
import TemplateCheck.Types.Form

/-!
Types in a form that does not depend on the numbers of a store, to be written to disk and taken up
by another store. Protos are given by their full names.
-/

namespace TemplateCheck

inductive PortableType where
  | error
  | primitive (name : String)
  /-- The tag is `?` for every element and `any` for an unknown one. -/
  | element (tag : String)
  | list (item : PortableType)
  | set (item : PortableType)
  | iterable (item : PortableType)
  | map (key value : PortableType)
  | legacyObjectMap (key value : PortableType)
  | record (properties : List (RecordProperty PortableType))
  | template (parameters : List (TemplateParameter PortableType)) (result : PortableType)
  | function (parameters : List (FunctionParameter PortableType)) (result : PortableType)
  | union (members : List PortableType)
  | intersection (members : List PortableType)
  | literal (value : String)
  | proto (name : String)
  | protoEnum (name : String)
  | anyEnum
  | unknownEnum

namespace PortableType

def kinds : List String :=
  ["error", "primitive", "element", "list", "set", "iterable", "map", "legacy_object_map",
    "record", "template", "function", "union", "intersection", "literal", "proto", "proto_enum",
    "any_enum", "unknown_enum"]

def jsonObject (members : List (String × String)) : String :=
  "\x7b" ++ Text.joinWith "," (members.map fun (key, value) => Json.quote key ++ ":" ++ value) ++
    "\x7d"

def jsonArray (items : List String) : String := "[" ++ Text.joinWith "," items ++ "]"

def jsonFlag (key : String) (value : Bool) : List (String × String) :=
  if value then [(key, "true")] else []

def jsonBool (value : Bool) : String := if value then "true" else "false"

def jsonOfKind (kind : String) (members : List (String × String)) : String :=
  jsonObject (("kind", Json.quote kind) :: members)

mutual

def toJson : PortableType → String
  | error => jsonOfKind "error" []
  | primitive name => jsonOfKind "primitive" [("name", Json.quote name)]
  | element tag => jsonOfKind "element" [("tag", Json.quote tag)]
  | list item => jsonOfKind "list" [("element", toJson item)]
  | set item => jsonOfKind "set" [("element", toJson item)]
  | iterable item => jsonOfKind "iterable" [("element", toJson item)]
  | map key value => jsonOfKind "map" [("key", toJson key), ("value", toJson value)]
  | legacyObjectMap key value =>
    jsonOfKind "legacy_object_map" [("key", toJson key), ("value", toJson value)]
  | record properties =>
    jsonOfKind "record" [("properties", jsonArray (propertiesJson properties))]
  | template parameters result =>
    jsonOfKind "template" [("parameters", jsonArray (templateParametersJson parameters)),
      ("return_type", toJson result)]
  | function parameters result =>
    jsonOfKind "function" [("parameters", jsonArray (functionParametersJson parameters)),
      ("return_type", toJson result)]
  | union members => jsonOfKind "union" [("members", jsonArray (membersJson members))]
  | intersection members => jsonOfKind "intersection" [("members", jsonArray (membersJson members))]
  | literal value => jsonOfKind "literal" [("value", Json.quote value)]
  | proto name => jsonOfKind "proto" [("name", Json.quote name)]
  | protoEnum name => jsonOfKind "proto_enum" [("name", Json.quote name)]
  | anyEnum => jsonOfKind "any_enum" []
  | unknownEnum => jsonOfKind "unknown_enum" []

def membersJson : List PortableType → List String
  | [] => []
  | t :: rest => toJson t :: membersJson rest

def propertiesJson : List (RecordProperty PortableType) → List String
  | [] => []
  | ⟨name, optional, type⟩ :: rest =>
    jsonObject (("name", Json.quote name) :: jsonFlag "optional" optional ++
      [("type", toJson type)]) :: propertiesJson rest

def templateParametersJson : List (TemplateParameter PortableType) → List String
  | [] => []
  | ⟨name, kind, required, type⟩ :: rest =>
    jsonObject (("name", Json.quote name) :: jsonFlag "attribute" (kind == .htmlAttribute) ++
      [("required", jsonBool required), ("type", toJson type)]) :: templateParametersJson rest

def functionParametersJson : List (FunctionParameter PortableType) → List String
  | [] => []
  | ⟨name, variadic, type⟩ :: rest =>
    jsonObject (("name", Json.quote name) :: jsonFlag "var_args" variadic ++
      [("type", toJson type)]) :: functionParametersJson rest

end

end PortableType
end TemplateCheck

import TemplateCheck.Text.ParameterList
import TemplateCheck.Text.Quoted
import TemplateCheck.Types.Fold

/-!
Types as text. The members of a union are sorted by their texts, so the text of a type without
intersections does not depend on the numbers of its parts.
-/

namespace TemplateCheck

structure ShownType where
  text : String
  functionLike : Bool
  isUnion : Bool
deriving DecidableEq, Repr

namespace ShownType

def asUnionMember (t : ShownType) : String := Text.parenthesize t.functionLike t.text

def asIntersectionMember (t : ShownType) : String :=
  Text.parenthesize (t.functionLike || t.isUnion) t.text

def propertyText (p : RecordProperty ShownType) : String :=
  p.name ++ Text.typeMark p.optional ++ p.type.text

def templateParameterText (p : TemplateParameter ShownType) : String :=
  let name := match p.kind with
    | .regular => p.name
    | .htmlAttribute => "@" ++ ParameterName.toAttribute p.name
  name ++ Text.typeMark (!p.required) ++ p.type.text

def functionParameterText (p : FunctionParameter ShownType) : String :=
  Text.variadicMark p.variadic ++ p.name ++ Text.typeMark false ++ p.type.text

def genericText (name : String) (arguments : List ShownType) : String :=
  name ++ "<" ++ Text.commaList (arguments.map (·.text)) ++ ">"

def formText : TypeForm ShownType → String
  | .error => "<error>"
  | .intrinsic kind => kind.name
  | .element tag => "html<" ++ tag.text ++ ">"
  | .list item => genericText "list" [item]
  | .set item => genericText "set" [item]
  | .iterable item => genericText "iterable" [item]
  | .map key value => genericText "map" [key, value]
  | .legacyObjectMap key value => genericText "legacy_object_map" [key, value]
  | .record properties => "[" ++ Text.commaList (properties.map propertyText) ++ "]"
  | .template shape =>
    "template " ++ Text.parameterList (shape.parameters.map templateParameterText) ++ " => " ++
      shape.result.text
  | .function shape =>
    Text.parameterList (shape.parameters.map functionParameterText) ++ " => " ++ shape.result.text
  | .union members => Text.joinWith "|" (Order.sortTexts (members.map asUnionMember))
  | .intersection members => Text.joinWith " & " (members.map asIntersectionMember)
  | .literal value => Text.typeEscapes.quoteString value
  | .message m => m.descriptor.name
  | .enum .any => "enum<any>"
  | .enum .unknown => "enum<?>"
  | .enum (.descriptor e) => e.descriptor.name

def ofForm (d : TypeForm ShownType) : ShownType := ⟨formText d, d.isFunctionLike, d.isUnion⟩

end ShownType

/-- The text of a type in type syntax. -/
def TypeStore.display (s : TypeStore) (t : TypeId) : String := (s.fold ShownType.ofForm t).text

end TemplateCheck

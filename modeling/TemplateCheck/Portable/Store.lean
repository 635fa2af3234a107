import TemplateCheck.Portable.Basic
import TemplateCheck.Types.Display
import TemplateCheck.Types.Reach

/-!
Portable types out of a store and into a store. On the way out members are sorted by their texts,
so the result does not depend on the history of the store. On the way in protos are bound by name,
and parts are made from left to right; what was made before a fault stays.
-/

namespace TemplateCheck

namespace PortableType

def sortByText (members : List (ShownType × PortableType)) : List PortableType :=
  (Order.sortBy (fun t u => decide (t.1.text ≤ u.1.text)) members).map (·.2)

def ofForm : TypeForm (ShownType × PortableType) → PortableType
  | .error => error
  | .intrinsic kind => primitive kind.name
  | .element tag => element tag.text
  | .list item => list item.2
  | .set item => set item.2
  | .iterable item => iterable item.2
  | .map key value => map key.2 value.2
  | .legacyObjectMap key value => legacyObjectMap key.2 value.2
  | .record properties => record (properties.map (·.map (·.2)))
  | .template shape => template (shape.parameters.map (·.map (·.2))) shape.result.2
  | .function shape => function (shape.parameters.map (·.map (·.2))) shape.result.2
  | .union members => union (sortByText members)
  | .intersection members => intersection (sortByText members)
  | .literal value => literal value
  | .message m => proto m.descriptor.name
  | .enum .any => anyEnum
  | .enum .unknown => unknownEnum
  | .enum (.descriptor e) => protoEnum e.descriptor.name

end PortableType

/-- The portable form of a type. -/
def TypeStore.toPortable (s : TypeStore) (t : TypeId) : PortableType :=
  (s.fold (fun d => (ShownType.ofForm (d.mapParts (·.1)), PortableType.ofForm d)) t).2

inductive ImportError where
  | unknownPrimitive (name : String)
  | unknownMessage (name : String)
  | unknownEnum (name : String)
  | duplicateProperty (name : String)
deriving DecidableEq, Repr

def ImportError.message : ImportError → String
  | unknownPrimitive name => "unknown primitive type '" ++ name ++ "'"
  | unknownMessage name => "proto message '" ++ name ++ "' is not in the descriptor pool"
  | unknownEnum name => "proto enum '" ++ name ++ "' is not in the descriptor pool"
  | duplicateProperty name => "record property '" ++ name ++ "' is declared more than once"

abbrev Importing := ExceptT ImportError Making

namespace PortableType

def firstRepeated? : List String → List String → Option String
  | _, [] => none
  | seen, name :: rest => if seen.contains name then some name else firstRepeated? (name :: seen) rest

section Import

variable (pool : Proto.Pool)

mutual

/-- Makes the described type, with protos from the pool. -/
def importType : PortableType → Importing TypeId
  | error => return .error
  | primitive name =>
    match Intrinsic.ofName? name with
    | some kind => return .ofIntrinsic kind
    | none => throw (.unknownPrimitive name)
  | element tag => TypeStore.element tag
  | list item => do TypeStore.list (← importType item)
  | set item => do TypeStore.set (← importType item)
  | iterable item => do TypeStore.iterable (← importType item)
  | map key value => do TypeStore.map (← importType key) (← importType value)
  | legacyObjectMap key value => do
    TypeStore.legacyObjectMap (← importType key) (← importType value)
  | record properties => do
    match firstRepeated? [] (properties.map (·.name)) with
    | some name => throw (.duplicateProperty name)
    | none => TypeStore.record (← importProperties properties)
  | template parameters result => do
    TypeStore.template (← importTemplateParameters parameters) (← importType result)
  | function parameters result => do
    TypeStore.function (← importFunctionParameters parameters) (← importType result)
  | union members => do TypeStore.union (← importAll members)
  | intersection members => do TypeStore.intersection (← importAll members)
  | literal value => TypeStore.literal value
  | proto name =>
    match pool.message? name with
    | some m => TypeStore.message m
    | none => throw (.unknownMessage name)
  | protoEnum name =>
    match pool.enum? name with
    | some e => TypeStore.enum e
    | none => throw (.unknownEnum name)
  | anyEnum => return .anyEnum
  | unknownEnum => return .unknownEnum

def importAll : List PortableType → Importing (List TypeId)
  | [] => return []
  | t :: rest => do return (← importType t) :: (← importAll rest)

def importProperties :
    List (RecordProperty PortableType) → Importing (List (RecordProperty TypeId))
  | [] => return []
  | ⟨name, optional, type⟩ :: rest => do
    return ⟨name, optional, ← importType type⟩ :: (← importProperties rest)

def importTemplateParameters :
    List (TemplateParameter PortableType) → Importing (List (TemplateParameter TypeId))
  | [] => return []
  | ⟨name, kind, required, type⟩ :: rest => do
    return ⟨name, kind, required, ← importType type⟩ :: (← importTemplateParameters rest)

def importFunctionParameters :
    List (FunctionParameter PortableType) → Importing (List (FunctionParameter TypeId))
  | [] => return []
  | ⟨name, variadic, type⟩ :: rest => do
    return ⟨name, variadic, ← importType type⟩ :: (← importFunctionParameters rest)

end

end Import

end PortableType
end TemplateCheck

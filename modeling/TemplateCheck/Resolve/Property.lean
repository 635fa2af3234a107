import TemplateCheck.Resolve.Registry

/-!
The types of properties: record fields, template parameters, proto fields, and what all members of
a union have.
-/

namespace TemplateCheck

namespace Proto

def FieldType.typeId (pool : Pool) : FieldType → Making TypeId
  | bool => return .bool
  | int32 => return .int
  | int64 => return .int
  | uint32 => return .int
  | uint64 => return .int
  | float => return .float
  | double => return .float
  | string => return .string
  | bytes => return .string
  | message name =>
    match pool.message? name with
    | some m => TypeStore.message m
    | none => return .error
  | enum name =>
    match pool.enum? name with
    | some e => TypeStore.enum e
    | none => return .error

def Field.typeId (pool : Pool) (f : Field) : Making TypeId :=
  match f.label with
  | .singular type => type.typeId pool
  | .repeated type => do TypeStore.list (← type.typeId pool)
  | .map key value => do TypeStore.map (← key.typeId pool) (← value.typeId pool)

end Proto

inductive PropertyResult where
  | found (t : TypeId)
  | missing
  | notIndexable
deriving DecidableEq, Repr

namespace PropertyResult

def ofPart (optional : Bool) (t : TypeId) : Making PropertyResult := do
  if optional then return found (← TypeStore.union2 t .undefined) else return found t

def collect (one : TypeId → Making PropertyResult) :
    List TypeId → Making (Except PropertyResult (List TypeId))
  | [] => return .ok []
  | t :: rest => do
    match ← one t with
    | found u =>
      match ← collect one rest with
      | .ok us => return .ok (u :: us)
      | .error result => return .error result
    | result => return .error result

def ofForm (pool : Proto.Pool) (property : String) : TypeData → Making PropertyResult
  | .error => return found .error
  | .record properties =>
    match properties.find? (·.name == property) with
    | some p => ofPart p.optional p.type
    | none => return missing
  | .template shape =>
    match shape.parameters.find? (·.name == property) with
    | some p => ofPart (!p.required) p.type
    | none => return missing
  | .message m =>
    match m.descriptor.field? property with
    | some f => do return found (← f.typeId pool)
    | none => return missing
  | _ => return notIndexable

def within (pool : Proto.Pool) (property : String) : Nat → TypeId → Making PropertyResult
  | 0, _ => return found .error
  | depth + 1, t => do
    match (← get).data t with
    | .union members =>
      match ← collect (within pool property depth) members with
      | .ok types => return found (← TypeStore.union types)
      | .error result => return result
    | d => ofForm pool property d

end PropertyResult

/-- The property of a type. -/
def TypeStore.property (pool : Proto.Pool) (t : TypeId) (property : String) :
    Making PropertyResult := do
  PropertyResult.within pool property (← get).nesting t

end TemplateCheck

import TemplateCheck.Resolve.Property
import TemplateCheck.Text.DottedName
import TemplateCheck.TypeExpr.Printer

/-!
From type expressions to types. A faulty part is reported and stands for the error type, so that
the rest is still looked at.
-/

namespace TemplateCheck

structure Resolution where
  store : TypeStore
  report : Report

abbrev Resolving := StateM Resolution

namespace Resolving

def making {α : Type} (m : Making α) : Resolving α := fun r =>
  let (a, store) := m r.store
  (a, { r with store })

def complain (location : Location) (message : Message) (arguments : List String) :
    Resolving Unit :=
  modify fun r => { r with report := r.report.error location message arguments }

def faulty (location : Location) (message : Message) (arguments : List String) :
    Resolving TypeId := do
  complain location message arguments
  return .error

def tooDeep (location : Location) : Resolving TypeId :=
  faulty location .typeTooDeep [toString TypeExpr.nestingLimit]

def display (t : TypeId) : Resolving String := return (← get).store.display t

section Rules

variable (registry : Registry)

def indexType (base : TypeId) (property : String) (location : Location) : Resolving TypeId := do
  match ← making (TypeStore.property registry.pool base property) with
  | .found t => return t
  | .missing => faulty location .noSuchProperty [← display base, property]
  | .notIndexable => faulty location .notIndexable [← display base]

def indexAll (location : Location) : TypeId → List String → Resolving TypeId
  | t, [] => return t
  | t, property :: rest => do indexAll location (← indexType registry t property location) rest

/-- The longest known name made of the first segments, at most `count` of them, and the properties
that the other segments name. -/
def firstKnown (segments : List String) : Nat → Making (Option (TypeId × List String))
  | 0 => return none
  | count + 1 => do
    match ← registry.named? (Text.joinSegments (segments.take (count + 1))) with
    | some t => return some (t, segments.drop (count + 1))
    | none => firstKnown segments count

/-- A name; of a dotted name that is not known itself, the longest known beginning counts, and the
rest are properties. -/
def resolveName (name : String) (location : Location) : Resolving TypeId := do
  match ← making (registry.named? name) with
  | some t => return t
  | none =>
    let segments := Text.segments name
    match ← making (firstKnown registry segments (segments.length - 1)) with
    | some (t, properties) => indexAll registry location t properties
    | none =>
      match Registry.arity? name with
      | some arity => faulty location .genericArity [name, toString arity, "0"]
      | none => faulty location .unknownType [name]

def resolveNotGeneric (name : String) (location : Location) : Resolving TypeId := do
  if (← making (registry.named? name)).isSome then
    faulty location .unexpectedTypeParameters [name]
  else faulty location .notGeneric [name]

def resolveElement (location : Location) : List TypeExpr → Resolving TypeId
  | [.named tagLocation tag] =>
    if Text.isDotted tag then faulty tagLocation .elementTagExpected [tag]
    else making (TypeStore.element tag)
  | [e] => faulty e.location .elementTagExpected [e.print]
  | arguments => faulty location .genericArity ["html", "1", toString arguments.length]

def resolveLiteral (location : Location) : TypeExpr.Literal → Resolving TypeId
  | .null => return .null
  | .undefined => return .undefined
  | .string value => making (TypeStore.literal value)
  | .other text => faulty location .unsupportedLiteral [text]

def isTemplateResult : Kind → Bool
  | .error => true
  | .intrinsic .string => true
  | kind => kind.isSanitizedContent

abbrev Parts (α : Type) := List α × Bool

def Parts.add {α : Type} (part : Option α) (parts : Parts α) : Parts α :=
  match part with
  | some a => (a :: parts.1, parts.2)
  | none => (parts.1, true)

mutual

/-- Resolves an expression that may nest `room` deep. -/
def resolveWithin (room : Nat) : TypeExpr → Resolving TypeId
  | .named location name =>
    if room = 0 then tooDeep location else resolveName registry name location
  | .generic location name arguments =>
    if room = 0 then tooDeep location
    else match Registry.arity? name with
      | none => resolveNotGeneric registry name location
      | some arity =>
        if name = "html" then resolveElement location arguments
        else do
          let types ← resolveAll (room - 1) arguments
          match Registry.applyGeneric name types with
          | some make => making make
          | none =>
            faulty location .genericArity [name, toString arity, toString types.length]
  | .union location candidates =>
    if room = 0 then tooDeep location
    else do making (TypeStore.union (← resolveAll (room - 1) candidates))
  | .intersection location candidates =>
    if room = 0 then tooDeep location
    else do making (TypeStore.intersection (← resolveAll (room - 1) candidates))
  | .record location fields =>
    if room = 0 then tooDeep location
    else do
      let (properties, failed) ← resolveFields (room - 1) [] fields
      if failed then return .error else making (TypeStore.record properties)
  | .template location parameters result =>
    if room = 0 then tooDeep location
    else do
      let (parameters, failed) ← resolveTemplateParams (room - 1) [] parameters
      let resultType ← resolveWithin (room - 1) result
      if isTemplateResult ((← get).store.kind resultType) then
        if failed then return .error else making (TypeStore.template parameters resultType)
      else faulty result.location .badTemplateReturn [← display resultType]
  | .function location parameters result =>
    if room = 0 then tooDeep location
    else do
      let (parameters, failed) ← resolveFunctionParams (room - 1) [] parameters
      let resultType ← resolveWithin (room - 1) result
      if failed then return .error else making (TypeStore.function parameters resultType)
  | .indexed location base property =>
    if room = 0 then tooDeep location
    else do indexType registry (← resolveWithin (room - 1) base) property location
  | .literal location value =>
    if room = 0 then tooDeep location else resolveLiteral location value

def resolveAll (room : Nat) : List TypeExpr → Resolving (List TypeId)
  | [] => return []
  | e :: rest => do return (← resolveWithin room e) :: (← resolveAll room rest)

def resolveFields (room : Nat) (seen : List String) :
    List (TypeExpr.Field TypeExpr) → Resolving (Parts (RecordProperty TypeId))
  | [] => return ([], false)
  | ⟨name, nameLocation, optional, type⟩ :: rest => do
    let t ← resolveWithin room type
    if seen.contains name then
      complain nameLocation .duplicateRecordField [name]
      return .add none (← resolveFields room seen rest)
    else return .add (some ⟨name, optional, t⟩) (← resolveFields room (name :: seen) rest)

def resolveTemplateParams (room : Nat) (seen : List String) :
    List (TypeExpr.TemplateParam TypeExpr) → Resolving (Parts (TemplateParameter TypeId))
  | [] => return ([], false)
  | ⟨name, spelling, nameLocation, kind, required, type⟩ :: rest => do
    let t ← resolveWithin room type
    if seen.contains name then
      complain nameLocation .duplicateTemplateParameter [spelling]
      return .add none (← resolveTemplateParams room seen rest)
    else
      return .add (some ⟨name, kind, required, t⟩)
        (← resolveTemplateParams room (name :: seen) rest)

def resolveFunctionParams (room : Nat) (seen : List String) :
    List (TypeExpr.FunctionParam TypeExpr) → Resolving (Parts (FunctionParameter TypeId))
  | [] => return ([], false)
  | ⟨name, spelling, nameLocation, variadic, type⟩ :: rest => do
    let t ← resolveWithin room type
    if seen.contains name then
      complain nameLocation .duplicateFunctionParameter [spelling]
      return .add none (← resolveFunctionParams room seen rest)
    else
      return .add (some ⟨name, variadic, t⟩) (← resolveFunctionParams room (name :: seen) rest)

end

/-- The type that an expression denotes. -/
def resolve (e : TypeExpr) : Resolving TypeId := resolveWithin registry TypeExpr.nestingLimit e

end Rules

end Resolving
end TemplateCheck

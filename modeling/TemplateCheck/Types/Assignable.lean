import TemplateCheck.Types.Fold

/-!
Assignability: whether a value of one type may stand where another type is expected. Unions and
intersections are taken apart first. The error type is assignable in both directions, so that one
unresolved type does not cause further complaints.
-/

namespace TemplateCheck

/-- How `?` behaves as a source: assignable to everything, or to the top types only. -/
inductive Mode where
  | loose
  | strict
deriving DecidableEq, Repr

namespace Assignable

/-- How deep the comparison of two types goes. -/
def depthLimit : Nat := 500

def intrinsicAccepts (target : Intrinsic) (source : TypeData) : Bool :=
  match target, source with
  | .any, _ => true
  | .unknown, _ => true
  | .string, .literal _ => true
  | .html, .element _ => true
  | .uri, .intrinsic .trustedResourceUri => true
  | .message, .message _ => true
  | _, _ => false

def elementAccepts (target source : ElementTag) : Bool :=
  target == .wildcard || source == .any || target == source

def enumAccepts : EnumRef → EnumRef → Bool
  | .descriptor e, .descriptor f => e == f
  | _, _ => true

section Shapes

variable (accepts : TypeId → TypeId → Bool)

def recordAccepts (target source : List (RecordProperty TypeId)) : Bool :=
  target.all fun p =>
    match source.find? (·.name == p.name) with
    | none => p.optional
    | some q => (!q.optional || p.optional) && accepts p.type q.type

def sameParameter (p q : TemplateParameter TypeId) : Bool := p.name == q.name && p.kind == q.kind

def templateAccepts (target source : TemplateShape TypeId) : Bool :=
  target.parameters.all (fun p =>
    match source.parameters.find? (sameParameter p) with
    | none => false
    | some q => (!q.required || p.required) && accepts q.type p.type) &&
  source.parameters.all (fun q => !q.required || target.parameters.any (sameParameter q)) &&
  accepts target.result source.result

def variadicLast (shape : FunctionShape TypeId) : Option (FunctionParameter TypeId) :=
  shape.parameters.getLast?.filter (·.variadic)

def parameterAt (shape : FunctionShape TypeId) (index : Nat) : Option (FunctionParameter TypeId) :=
  (shape.parameters[index]?.filter (!·.variadic)).or (variadicLast shape)

def fixedCount (shape : FunctionShape TypeId) : Nat :=
  shape.parameters.length - if (variadicLast shape).isSome then 1 else 0

def parametersAccepted (source : FunctionShape TypeId) :
    Nat → List (FunctionParameter TypeId) → Bool
  | _, [] => true
  | index, p :: rest =>
    (match parameterAt source index with
      | some q => accepts q.type p.type
      | none => false) &&
    parametersAccepted source (index + 1) rest

def functionAccepts (target source : FunctionShape TypeId) : Bool :=
  fixedCount source ≤ target.parameters.length &&
  ((variadicLast source).isSome || target.parameters.length ≤ fixedCount source) &&
  parametersAccepted accepts source 0 target.parameters &&
  accepts target.result source.result

def formAccepts (target source : TypeData) : Bool :=
  match target, source with
  | .error, _ => true
  | .intrinsic kind, d => intrinsicAccepts kind d
  | .element t, .element u => elementAccepts t u
  | .list t, .list u => accepts t u
  | .set t, .set u => accepts t u
  | .iterable t, .iterable u => accepts t u
  | .iterable t, .list u => accepts t u
  | .iterable t, .set u => accepts t u
  | .map k t, .map l u => accepts k l && accepts t u
  | .legacyObjectMap k t, .legacyObjectMap l u => accepts k l && accepts t u
  | .record ps, .record qs => recordAccepts accepts ps qs
  | .template f, .template g => templateAccepts accepts f g
  | .function f, .function g => functionAccepts accepts f g
  | .message m, .message n => m == n
  | .enum e, .enum f => enumAccepts e f
  | _, _ => false

/-- A union as source is taken apart first, then a union and an intersection as target, then an
intersection as source. -/
def distribute (s : TypeStore) (target source : TypeId) : Bool :=
  match s.data target, s.data source with
  | _, .union members => members.all fun u => accepts target u
  | .union members, _ => members.any fun t => accepts t source
  | .intersection members, _ => members.all fun t => accepts t source
  | _, .intersection members => members.any fun u => accepts target u
  | t, u => formAccepts accepts t u

/-- One step of the comparison of two different types. -/
def step (s : TypeStore) (mode : Mode) (target source : TypeId) : Bool :=
  if target.isTop then true
  else if source = .error ∨ source = .never then true
  else if source = .unknown then mode = .loose
  else distribute accepts s target source

end Shapes

/-- Compares down to a bounded depth; deeper types are assignable only to themselves. -/
def within (s : TypeStore) (mode : Mode) : Nat → TypeId → TypeId → Bool
  | 0, target, source => target = source
  | depth + 1, target, source =>
    target = source || step (within s mode depth) s mode target source

end Assignable

/-- Whether a value of the source type may stand where the target type is expected. -/
def TypeStore.isAssignable (s : TypeStore) (mode : Mode) (target source : TypeId) : Bool :=
  Assignable.within s mode Assignable.depthLimit target source

end TemplateCheck

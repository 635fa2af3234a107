import TemplateCheck.Order.Sort
import TemplateCheck.ShardedTable
import TemplateCheck.Types.Form

/-!
The store of types. Every distinct type is kept once and known by a number, so equal types have
equal numbers. The types without parts have fixed numbers below 64; all others get theirs when they
are first made. Unions and intersections are brought into a normal form on the way: flat, without
repetitions or absorbed members, with at least two members in ascending order.
-/

namespace TemplateCheck

structure TypeId where
  number : Nat
deriving DecidableEq, Hashable, Repr

namespace TypeId

def error : TypeId := ⟨0⟩
def any : TypeId := ⟨1⟩
def unknown : TypeId := ⟨2⟩
def never : TypeId := ⟨3⟩
def null : TypeId := ⟨4⟩
def undefined : TypeId := ⟨5⟩
def bool : TypeId := ⟨6⟩
def int : TypeId := ⟨7⟩
def float : TypeId := ⟨8⟩
def string : TypeId := ⟨9⟩
def html : TypeId := ⟨10⟩
def css : TypeId := ⟨11⟩
def js : TypeId := ⟨12⟩
def uri : TypeId := ⟨13⟩
def trustedResourceUri : TypeId := ⟨14⟩
def attributes : TypeId := ⟨15⟩
def element : TypeId := ⟨16⟩
def anyElement : TypeId := ⟨17⟩
def message : TypeId := ⟨18⟩
def anyEnum : TypeId := ⟨19⟩
def unknownEnum : TypeId := ⟨20⟩

def firstStored : Nat := 64

def isFixed (t : TypeId) : Bool := t.number < firstStored

def ofIntrinsic : Intrinsic → TypeId
  | .any => any
  | .unknown => unknown
  | .never => never
  | .null => null
  | .undefined => undefined
  | .bool => bool
  | .int => int
  | .float => float
  | .string => string
  | .html => html
  | .css => css
  | .js => js
  | .uri => uri
  | .trustedResourceUri => trustedResourceUri
  | .attributes => attributes
  | .message => message

def isTop (t : TypeId) : Bool := t == any || t == unknown || t == error

def isNullish (t : TypeId) : Bool := t == null || t == undefined

end TypeId

abbrev TypeData := TypeForm TypeId

namespace TypeData

def fixedId? : TypeData → Option TypeId
  | .error => some .error
  | .intrinsic kind => some (.ofIntrinsic kind)
  | .element .wildcard => some .element
  | .element .any => some .anyElement
  | .enum .any => some .anyEnum
  | .enum .unknown => some .unknownEnum
  | _ => none

def fixed : List TypeData :=
  .error :: Intrinsic.all.map .intrinsic ++
    [.element .wildcard, .element .any, .enum .any, .enum .unknown]

def ofFixed? (t : TypeId) : Option TypeData := fixed.find? fun d => fixedId? d == some t

theorem ofFixed?_of_fixedId? {d : TypeData} {t : TypeId} (h : fixedId? d = some t) :
    ofFixed? t = some d := by
  cases d with
  | error => cases h; decide
  | intrinsic kind => cases h; cases kind <;> decide
  | element tag => cases tag <;> cases h <;> decide
  | enum e => cases e <;> cases h <;> decide
  | _ => cases h

end TypeData

/-- Besides the types, the store numbers the lists of members and the shapes that it has met, each
from 0 on in the order of their first appearance. The empty list of members is there from the
start. Records that differ only in the order of their properties count as one shape, and the order
met first is kept. -/
structure TypeStore where
  types : ShardedTable TypeData
  lists : Array (List TypeId)
  records : Array (List (RecordProperty TypeId))
  templates : Array (TemplateShape TypeId)
  functions : Array (FunctionShape TypeId)

abbrev Making := StateM TypeStore

inductive StoreFault where
  | unknownType (t : TypeId)
  | unknownList (index : Nat)
  | unknownRecord (index : Nat)
  | unknownTemplate (index : Nat)
  | unknownFunction (index : Nat)
deriving DecidableEq, Repr

def StoreFault.message : StoreFault → String
  | unknownType t => "TypeId(" ++ toString t.number ++ ") was not produced by this interner"
  | unknownList index => "type list " ++ toString index ++ " was not produced by this interner"
  | unknownRecord index =>
    "record shape " ++ toString index ++ " was not produced by this interner"
  | unknownTemplate index =>
    "template shape " ++ toString index ++ " was not produced by this interner"
  | unknownFunction index =>
    "function shape " ++ toString index ++ " was not produced by this interner"

namespace TypeStore

/-- A store without types of its own. Any placement of types on shards will do. -/
def empty (place : TypeData → Fin 64) : TypeStore := ⟨.empty place, #[[]], #[], #[], #[]⟩

def new : TypeStore := empty ShardedTable.placeByHash

def lookup (s : TypeStore) (t : TypeId) : Option TypeData :=
  if t.isFixed then TypeData.ofFixed? t else s.types.get? (t.number - TypeId.firstStored)

/-- The form of a type; a number that the store has not given out reads as the error type. -/
def data (s : TypeStore) (t : TypeId) : TypeData := (s.lookup t).getD .error

def data? (s : TypeStore) (t : TypeId) : Except StoreFault TypeData :=
  match s.lookup t with
  | some d => .ok d
  | none => .error (.unknownType t)

def list? (s : TypeStore) (index : Nat) : Except StoreFault (List TypeId) :=
  match s.lists[index]? with
  | some members => .ok members
  | none => .error (.unknownList index)

def record? (s : TypeStore) (index : Nat) : Except StoreFault (List (RecordProperty TypeId)) :=
  match s.records[index]? with
  | some properties => .ok properties
  | none => .error (.unknownRecord index)

def template? (s : TypeStore) (index : Nat) : Except StoreFault (TemplateShape TypeId) :=
  match s.templates[index]? with
  | some shape => .ok shape
  | none => .error (.unknownTemplate index)

def function? (s : TypeStore) (index : Nat) : Except StoreFault (FunctionShape TypeId) :=
  match s.functions[index]? with
  | some shape => .ok shape
  | none => .error (.unknownFunction index)

def kind (s : TypeStore) (t : TypeId) : Kind := (s.data t).kind

def size (s : TypeStore) : Nat := TypeId.firstStored + s.types.size

def isEmpty (s : TypeStore) : Bool := s.size ≤ TypeId.firstStored

def intern (d : TypeData) : Making TypeId := fun s =>
  match d.fixedId? with
  | some t => (t, s)
  | none =>
    let (code, types) := s.types.intern d
    (⟨TypeId.firstStored + code⟩, { s with types })

def literal (value : String) : Making TypeId := intern (.literal value)

def element (tag : String) : Making TypeId :=
  if tag = "" ∨ tag = "?" then return .element
  else if tag = "any" then return .anyElement
  else intern (.element (.named tag))

def list (item : TypeId) : Making TypeId := intern (.list item)

def set (item : TypeId) : Making TypeId := intern (.set item)

def iterable (item : TypeId) : Making TypeId := intern (.iterable item)

def map (key value : TypeId) : Making TypeId := intern (.map key value)

def legacyObjectMap (key value : TypeId) : Making TypeId := intern (.legacyObjectMap key value)

def message (m : Proto.Registered Proto.MessageDescriptor) : Making TypeId := intern (.message m)

def enum (e : Proto.Registered Proto.EnumDescriptor) : Making TypeId :=
  intern (.enum (.descriptor e))

def byName (properties : List (RecordProperty TypeId)) : List (RecordProperty TypeId) :=
  Order.sortBy (fun p q => decide (p.name ≤ q.name)) properties

def recordShape (properties : List (RecordProperty TypeId)) :
    Making (List (RecordProperty TypeId)) := fun s =>
  match s.records.find? fun known => byName known == byName properties with
  | some known => (known, s)
  | none => (properties, { s with records := s.records.push properties })

def record (properties : List (RecordProperty TypeId)) : Making TypeId := do
  intern (.record (← recordShape properties))

def rememberTemplate (shape : TemplateShape TypeId) : Making Unit := modify fun s =>
  if s.templates.contains shape then s else { s with templates := s.templates.push shape }

def template (parameters : List (TemplateParameter TypeId)) (result : TypeId) : Making TypeId := do
  rememberTemplate ⟨parameters, result⟩
  intern (.template ⟨parameters, result⟩)

def rememberFunction (shape : FunctionShape TypeId) : Making Unit := modify fun s =>
  if s.functions.contains shape then s else { s with functions := s.functions.push shape }

def function (parameters : List (FunctionParameter TypeId)) (result : TypeId) : Making TypeId := do
  rememberFunction ⟨parameters, result⟩
  intern (.function ⟨parameters, result⟩)

def rememberList (members : List TypeId) : Making Unit := modify fun s =>
  if s.lists.contains members then s else { s with lists := s.lists.push members }

def unionMembers (s : TypeStore) (t : TypeId) : List TypeId :=
  match s.data t with
  | .union members => members
  | _ => [t]

def intersectionMembers (s : TypeStore) (t : TypeId) : List TypeId :=
  match s.data t with
  | .intersection members => members
  | _ => [t]

inductive Combined where
  | one (t : TypeId)
  | many (members : List TypeId)
deriving DecidableEq, Repr

def Combined.ofMembers (neutral : TypeId) : List TypeId → Combined
  | [] => .one neutral
  | [t] => .one t
  | members => .many members

/-- In a union, the error type absorbs all others, then `any`, then `?`; `never` adds nothing. -/
def normalizeUnion (members : List TypeId) : Combined :=
  let members := Order.ascending TypeId.number members
  if .error ∈ members then .one .error
  else if .any ∈ members then .one .any
  else if .unknown ∈ members then .one .unknown
  else .ofMembers .never (members.filter (· != .never))

/-- In an intersection, the error type absorbs all others, then `never`, then `any`; `?` adds
nothing. -/
def normalizeIntersection (members : List TypeId) : Combined :=
  let members := Order.ascending TypeId.number members
  if .error ∈ members then .one .error
  else if .never ∈ members then .one .never
  else if .any ∈ members then .one .any
  else .ofMembers .unknown (members.filter (· != .unknown))

def union : List TypeId → Making TypeId
  | [] => return .never
  | [t] => return t
  | types => do
    let s ← get
    match normalizeUnion (types.flatMap s.unionMembers) with
    | .one t => return t
    | .many members =>
      rememberList members
      intern (.union members)

def intersection : List TypeId → Making TypeId
  | [] => return .unknown
  | [t] => return t
  | types => do
    let s ← get
    match normalizeIntersection (types.flatMap s.intersectionMembers) with
    | .one t => return t
    | .many members =>
      rememberList members
      intern (.intersection members)

def union2 (t u : TypeId) : Making TypeId := union [t, u]

def intersection2 (t u : TypeId) : Making TypeId := intersection [t, u]

def number : Making TypeId := union2 .int .float

def isNullable (s : TypeStore) (t : TypeId) : Bool := (s.unionMembers t).any (·.isNullish)

def removeNullish (t : TypeId) : Making TypeId := do
  let members := (← get).unionMembers t
  if members.any (·.isNullish) then union (members.filter (!·.isNullish)) else return t

end TypeStore
end TemplateCheck

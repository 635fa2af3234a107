/-!
Descriptors of protocol buffer messages and enums, and the pools that register them. A registered
descriptor is known by its pool as well: the same name in two pools makes two different types.
-/

namespace TemplateCheck.Proto

inductive FieldType where
  | bool
  | int32
  | int64
  | uint32
  | uint64
  | float
  | double
  | string
  | bytes
  | message (name : String)
  | enum (name : String)
deriving DecidableEq, Hashable, Repr

inductive FieldLabel where
  | singular (type : FieldType)
  | repeated (type : FieldType)
  | map (key value : FieldType)
deriving DecidableEq, Hashable, Repr

structure Field where
  name : String
  number : Int
  label : FieldLabel
deriving DecidableEq, Hashable, Repr

structure MessageDescriptor where
  name : String
  fields : List Field
deriving DecidableEq, Hashable, Repr

def MessageDescriptor.field? (m : MessageDescriptor) (name : String) : Option Field :=
  m.fields.find? (·.name == name)

structure EnumDescriptor where
  name : String
  values : List (String × Int)
deriving DecidableEq, Hashable, Repr

namespace EnumDescriptor

def number? (e : EnumDescriptor) (name : String) : Option Int := e.values.lookup name

def nameOf? (e : EnumDescriptor) (number : Int) : Option String :=
  (e.values.find? (·.2 == number)).map (·.1)

end EnumDescriptor

structure Registered (α : Type) where
  pool : Nat
  descriptor : α
deriving DecidableEq, Hashable, Repr

/-- Messages and enums in the order of their registration; no two have the same full name. -/
structure Pool where
  number : Nat
  messages : List MessageDescriptor
  enums : List EnumDescriptor
deriving Repr

inductive PoolError where
  | duplicateName (name : String)
deriving DecidableEq, Repr

def PoolError.message : PoolError → String
  | duplicateName name => "descriptor '" ++ name ++ "' is already registered in this pool"

namespace Pool

def empty (number : Nat) : Pool := ⟨number, [], []⟩

def declares (p : Pool) (name : String) : Bool :=
  p.messages.any (·.name == name) || p.enums.any (·.name == name)

def addMessage (p : Pool) (m : MessageDescriptor) : Except PoolError Pool :=
  if p.declares m.name then .error (.duplicateName m.name)
  else .ok { p with messages := p.messages ++ [m] }

def addEnum (p : Pool) (e : EnumDescriptor) : Except PoolError Pool :=
  if p.declares e.name then .error (.duplicateName e.name)
  else .ok { p with enums := p.enums ++ [e] }

def message? (p : Pool) (name : String) : Option (Registered MessageDescriptor) :=
  (p.messages.find? (·.name == name)).map (⟨p.number, ·⟩)

def enum? (p : Pool) (name : String) : Option (Registered EnumDescriptor) :=
  (p.enums.find? (·.name == name)).map (⟨p.number, ·⟩)

end Pool
end TemplateCheck.Proto

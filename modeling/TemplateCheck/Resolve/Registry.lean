import TemplateCheck.Diagnostic.Basic
import TemplateCheck.Types.Display

/-!
The names that type expressions may use: builtin types, registered aliases, and the protos of a
pool, in this order of precedence.
-/

namespace TemplateCheck

structure Registry where
  aliases : List (String × TypeId)
  pool : Proto.Pool
deriving Repr

namespace Registry

def empty (pool : Proto.Pool) : Registry := ⟨[], pool⟩

def alias? (r : Registry) (name : String) : Option TypeId := r.aliases.lookup name

def register (r : Registry) (name : String) (t : TypeId) : Registry :=
  { r with aliases := (name, t) :: r.aliases.filter (·.1 != name) }

def builtins : List (String × Making TypeId) :=
  [("any", pure .any), ("?", pure .unknown), ("never", pure .never), ("null", pure .null),
    ("undefined", pure .undefined), ("bool", pure .bool), ("int", pure .int),
    ("float", pure .float), ("number", TypeStore.number), ("string", pure .string),
    ("html", pure .html), ("css", pure .css), ("js", pure .js), ("uri", pure .uri),
    ("trusted_resource_uri", pure .trustedResourceUri), ("attributes", pure .attributes),
    ("Message", pure .message)]

def named? (r : Registry) (name : String) : Making (Option TypeId) :=
  match builtins.lookup name with
  | some make => some <$> make
  | none => match r.alias? name with
    | some t => return some t
    | none => match r.pool.message? name with
      | some m => some <$> TypeStore.message m
      | none => match r.pool.enum? name with
        | some e => some <$> TypeStore.enum e
        | none => return none

def arity? (name : String) : Option Nat :=
  ([("list", 1), ("set", 1), ("iterable", 1), ("html", 1), ("map", 2),
    ("legacy_object_map", 2)] : List (String × Nat)).lookup name

def applyGeneric (name : String) (arguments : List TypeId) : Option (Making TypeId) :=
  match name, arguments with
  | "list", [item] => some (TypeStore.list item)
  | "set", [item] => some (TypeStore.set item)
  | "iterable", [item] => some (TypeStore.iterable item)
  | "map", [key, value] => some (TypeStore.map key value)
  | "legacy_object_map", [key, value] => some (TypeStore.legacyObjectMap key value)
  | _, _ => none

end Registry
end TemplateCheck

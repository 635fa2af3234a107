import TemplateCheck.Portable.Reader
import TemplateCheck.Portable.Store

/-!
Types to JSON text and back.
-/

namespace TemplateCheck

/-- A library for JSON texts. -/
structure JsonLibrary where
  write : PortableType → String
  read? : String → Option Json

def JsonLibrary.compact : JsonLibrary := ⟨PortableType.toJson, Json.parse?⟩

inductive JsonFault where
  | malformed
  | notImported (e : ImportError)
deriving DecidableEq, Repr

namespace TypeStore
variable (lib : JsonLibrary)

def toJson (s : TypeStore) (t : TypeId) : String := lib.write (s.toPortable t)

def fromJson (pool : Proto.Pool) (text : String) : ExceptT JsonFault Making TypeId :=
  match (lib.read? text).bind PortableType.ofJson? with
  | none => throw .malformed
  | some p => (p.importType pool).adapt .notImported

end TypeStore
end TemplateCheck

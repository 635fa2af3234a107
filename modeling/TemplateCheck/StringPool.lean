import TemplateCheck.ShardedTable

/-!
A pool of strings, each known by a number. The empty string is there from the start, as number 0.
-/

namespace TemplateCheck

structure Atom where
  index : Nat
deriving DecidableEq, Repr

def Atom.isNone (a : Atom) : Bool := a.index == 0

structure StringPool where
  table : ShardedTable String

namespace StringPool

/-- The empty string lies in shard 0, all others where `place` puts them. -/
def empty (place : String → Fin 64) : StringPool :=
  ⟨((ShardedTable.empty fun s => if s = "" then ⟨0, by decide⟩ else place s).intern "").2⟩

def intern (p : StringPool) (s : String) : Atom × StringPool :=
  let (code, table) := p.table.intern s
  (⟨code⟩, ⟨table⟩)

def resolve? (p : StringPool) (a : Atom) : Option String := p.table.get? a.index

/-- The text of an atom; one that the pool has not given out reads as the empty string. -/
def resolve (p : StringPool) (a : Atom) : String := (p.resolve? a).getD ""

def size (p : StringPool) : Nat := p.table.size

def isEmpty (p : StringPool) : Bool := p.size ≤ 1

def internAll (p : StringPool) (strings : List String) : StringPool :=
  strings.foldl (fun p s => (p.intern s).2) p

def commonStrings : List String :=
  ["any", "bool", "float", "int", "number", "string", "null", "undefined", "never", "html", "css",
    "js", "uri", "trusted_resource_uri", "attributes", "list", "set", "map", "iterable",
    "legacy_object_map", "id", "name", "value", "key", "index", "item", "data", "content", "count",
    "items", "title", "url", "text"]

def internCommon (p : StringPool) : StringPool := p.internAll commonStrings

end StringPool
end TemplateCheck

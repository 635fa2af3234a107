import TemplateCheck.Types.Store

/-!
Reading a type of a store as a tree. Parts are stored before the types made of them, so no type is
nested deeper than the number of stored types, and that many steps reach all of it.
-/

namespace TemplateCheck.TypeStore

variable {α : Type}

/-- Combines the results for the parts, down to a bounded depth; what lies deeper counts as the
error type. -/
def foldWithin (s : TypeStore) (combine : TypeForm α → α) : Nat → TypeId → α
  | 0, _ => combine .error
  | depth + 1, t => combine ((s.data t).mapParts (s.foldWithin combine depth))

def nesting (s : TypeStore) : Nat := s.types.size + 1

def fold (s : TypeStore) (combine : TypeForm α → α) (t : TypeId) : α :=
  s.foldWithin combine s.nesting t

end TemplateCheck.TypeStore

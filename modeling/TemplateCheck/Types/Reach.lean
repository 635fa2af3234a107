import TemplateCheck.Types.Fold

/-!
The types that a type refers to, directly or through others.
-/

namespace TemplateCheck.TypeStore

def children (s : TypeStore) (t : TypeId) : List TypeId := (s.data t).parts

def reachFrom (s : TypeStore) : Nat → List TypeId → List TypeId → List TypeId
  | 0, seen, _ => seen
  | rounds + 1, seen, newest =>
    let found := (newest.flatMap s.children).eraseDups.filter fun t => !seen.contains t
    if found.isEmpty then seen else s.reachFrom rounds (seen ++ found) found

/-- Every type that is reached from a type, itself included, each once. -/
def referenced (s : TypeStore) (t : TypeId) : List TypeId := s.reachFrom s.nesting [t] [t]

/-- A search for the types that a type refers to: those seen so far, and those still to be looked at,
the next one first. -/
structure Search where
  seen : List TypeId
  stack : List TypeId
deriving DecidableEq, Repr

namespace Search

def start (t : TypeId) : Search := ⟨[], [t]⟩

def step (s : TypeStore) : Search → Search
  | ⟨seen, []⟩ => ⟨seen, []⟩
  | ⟨seen, t :: stack⟩ =>
    if seen.contains t then ⟨seen, stack⟩ else ⟨t :: seen, (s.children t).reverse ++ stack⟩

end Search

def containsForm (s : TypeStore) (test : TypeData → Bool) (t : TypeId) : Bool :=
  (s.referenced t).any fun u => (s.lookup u).any test

def containsError (s : TypeStore) (t : TypeId) : Bool := s.containsForm (· == .error) t

def containsLiteral (s : TypeStore) (t : TypeId) : Bool :=
  s.containsForm (fun d => match d with | .literal _ => true | _ => false) t

/-- The full names of the protos that a type refers to, sorted. -/
def protoNames (s : TypeStore) (t : TypeId) : List String :=
  Order.sortTexts ((s.referenced t).filterMap fun u => (s.data u).protoName?).eraseDups

/-- An intersection whose order of members depends on the history of the store: two of them have
numbers of their own. -/
def hasHistoricalOrder (d : TypeData) : Bool :=
  match d with
  | .intersection members => 2 ≤ (members.filter (!·.isFixed)).length
  | _ => false

def isDisplayStable (s : TypeStore) (t : TypeId) : Bool := !s.containsForm hasHistoricalOrder t

end TemplateCheck.TypeStore

import TemplateCheck.Types.Assignable

/-!
A checker of assignability. It keeps count of the comparisons that are under way, refuses to start
one when there are too many of them, and stops comparing as soon as the answer is clear. One checker
may be asked any number of questions.
-/

namespace TemplateCheck

abbrev Comparing := StateM Nat

namespace Checker
open Assignable

section Rules

variable (compare : TypeId → TypeId → Comparing Bool)

def checkRecord (target source : List (RecordProperty TypeId)) : Comparing Bool :=
  target.allM fun p =>
    match source.find? (·.name == p.name) with
    | none => return p.optional
    | some q => if q.optional && !p.optional then return false else compare p.type q.type

def checkGiven (target source : TemplateShape TypeId) : Comparing Bool :=
  target.parameters.allM fun p =>
    match source.parameters.find? (sameParameter p) with
    | none => return false
    | some q => if q.required && !p.required then return false else compare q.type p.type

def checkTemplate (target source : TemplateShape TypeId) : Comparing Bool := do
  let given ← checkGiven compare target source
  let declared := (source.parameters.filter (·.required)).all fun q =>
    target.parameters.any (sameParameter q)
  if given && declared then compare target.result source.result else return false

def checkParameter (source : FunctionShape TypeId) (index : Nat) (p : FunctionParameter TypeId) :
    Comparing Bool :=
  match parameterAt source index with
  | some q => compare q.type p.type
  | none => return false

def checkParameters (source : FunctionShape TypeId)
    (parameters : List (FunctionParameter TypeId × Nat)) : Comparing Bool :=
  parameters.allM fun (p, index) => checkParameter compare source index p

def checkFunction (target source : FunctionShape TypeId) : Comparing Bool := do
  if target.parameters.length < fixedCount source then return false
  else if (variadicLast source).isNone && fixedCount source < target.parameters.length then
    return false
  else if ← checkParameters compare source target.parameters.zipIdx then
    compare target.result source.result
  else return false

def checkEntry (key value key' value' : TypeId) : Comparing Bool := do
  if ← compare key key' then compare value value' else return false

def checkForm (target source : TypeData) : Comparing Bool :=
  match target, source with
  | .error, _ => return true
  | .intrinsic kind, d => return intrinsicAccepts kind d
  | .element t, .element u => return elementAccepts t u
  | .list t, .list u => compare t u
  | .set t, .set u => compare t u
  | .iterable t, .iterable u => compare t u
  | .iterable t, .list u => compare t u
  | .iterable t, .set u => compare t u
  | .map k t, .map l u => checkEntry compare k t l u
  | .legacyObjectMap k t, .legacyObjectMap l u => checkEntry compare k t l u
  | .record ps, .record qs => checkRecord compare ps qs
  | .template f, .template g => checkTemplate compare f g
  | .function f, .function g => checkFunction compare f g
  | .message m, .message n => return m == n
  | .enum e, .enum f => return enumAccepts e f
  | _, _ => return false

def checkParts (s : TypeStore) (target source : TypeId) : Comparing Bool :=
  match s.data target, s.data source with
  | _, .union members => members.allM fun u => compare target u
  | .union members, _ => members.anyM fun t => compare t source
  | .intersection members, _ => members.allM fun t => compare t source
  | _, .intersection members => members.anyM fun u => compare target u
  | t, u => checkForm compare t u

def check (s : TypeStore) (mode : Mode) (target source : TypeId) : Comparing Bool :=
  if target.isTop then return true
  else if source = .error ∨ source = .never then return true
  else if source = .unknown then return mode = .loose
  else checkParts compare s target source

end Rules

def counted (m : Comparing Bool) : Comparing Bool := do
  modify (· + 1)
  let answer ← m
  modify (· - 1)
  return answer

/-- A comparison of the two types that starts at most this many others inside each other. -/
def compareWithin (s : TypeStore) (mode : Mode) : Nat → TypeId → TypeId → Comparing Bool
  | 0, target, source => return target = source
  | rounds + 1, target, source => do
    if target = source then return true
    else if depthLimit ≤ (← get) then return false
    else counted (check (compareWithin s mode rounds) s mode target source)

/-- The rounds are as many as the count leaves, so that it is the count that ends a comparison. -/
def isAssignable (s : TypeStore) (mode : Mode) (target source : TypeId) : Comparing Bool := do
  compareWithin s mode (depthLimit - (← get)) target source

end Checker
end TemplateCheck

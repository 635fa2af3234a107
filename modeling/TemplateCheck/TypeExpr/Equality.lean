import TemplateCheck.TypeExpr.Basic

/-!
Equality of type expressions up to the places where they were written.
-/

namespace TemplateCheck.TypeExpr

mutual

def same : TypeExpr → TypeExpr → Bool
  | named _ a, named _ b => a == b
  | generic _ a as, generic _ b bs => a == b && sameAll as bs
  | union _ as, union _ bs => sameAll as bs
  | intersection _ as, intersection _ bs => sameAll as bs
  | record _ as, record _ bs => sameFields as bs
  | template _ as a, template _ bs b => sameTemplateParams as bs && same a b
  | function _ as a, function _ bs b => sameFunctionParams as bs && same a b
  | indexed _ a p, indexed _ b q => p == q && same a b
  | literal _ a, literal _ b => a == b
  | _, _ => false

def sameAll : List TypeExpr → List TypeExpr → Bool
  | [], [] => true
  | a :: as, b :: bs => same a b && sameAll as bs
  | _, _ => false

def sameFields : List (Field TypeExpr) → List (Field TypeExpr) → Bool
  | [], [] => true
  | ⟨n, _, o, a⟩ :: as, ⟨m, _, p, b⟩ :: bs => n == m && o == p && same a b && sameFields as bs
  | _, _ => false

def sameTemplateParams : List (TemplateParam TypeExpr) → List (TemplateParam TypeExpr) → Bool
  | [], [] => true
  | ⟨n, s, _, k, r, a⟩ :: as, ⟨m, t, _, l, q, b⟩ :: bs =>
    n == m && s == t && k == l && r == q && same a b && sameTemplateParams as bs
  | _, _ => false

def sameFunctionParams : List (FunctionParam TypeExpr) → List (FunctionParam TypeExpr) → Bool
  | [], [] => true
  | ⟨n, s, _, v, a⟩ :: as, ⟨m, t, _, w, b⟩ :: bs =>
    n == m && s == t && v == w && same a b && sameFunctionParams as bs
  | _, _ => false

end

end TemplateCheck.TypeExpr

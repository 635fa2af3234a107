import TemplateCheck.Proofs.Lists
import TemplateCheck.Proofs.TypeExpr.Layout

/-! Expressions that can be written down, and how deep their printed text nests. -/

namespace TemplateCheck.TypeExpr

def IsTypeName (name : String) : Prop :=
  IsDottedName name ∧ name ∉ ["null", "undefined", "true", "false"]

def Literal.WellFormed : Literal → Prop
  | .other text => text = "true" ∨ text = "false" ∨ IsNumber text
  | _ => True

inductive WellFormed : TypeExpr → Prop where
  | unknown (l : Location) : WellFormed (.named l "?")
  | named {name : String} (l : Location) (h : IsTypeName name) : WellFormed (.named l name)
  | generic {name : String} {args : List TypeExpr} (l : Location) (h : IsTypeName name)
      (hargs : ∀ e ∈ args, WellFormed e) : WellFormed (.generic l name args)
  | union {members : List TypeExpr} (l : Location) (h : 2 ≤ members.length)
      (hmembers : ∀ e ∈ members, WellFormed e) : WellFormed (.union l members)
  | intersection {members : List TypeExpr} (l : Location) (h : 2 ≤ members.length)
      (hmembers : ∀ e ∈ members, WellFormed e) : WellFormed (.intersection l members)
  | record {fields : List (Field TypeExpr)} (l : Location)
      (names : ∀ f ∈ fields, IsPlainName f.name) (hfields : ∀ f ∈ fields, WellFormed f.type) :
      WellFormed (.record l fields)
  | template {params : List (TemplateParam TypeExpr)} {result : TypeExpr} (l : Location)
      (names : ∀ p ∈ params, p.Spelled) (hparams : ∀ p ∈ params, WellFormed p.type)
      (hresult : WellFormed result) : WellFormed (.template l params result)
  | function {params : List (FunctionParam TypeExpr)} {result : TypeExpr} (l : Location)
      (names : ∀ p ∈ params, p.Spelled) (hparams : ∀ p ∈ params, WellFormed p.type)
      (hresult : WellFormed result) : WellFormed (.function l params result)
  | indexed {base : TypeExpr} {property : String} (l : Location) (h : IsPlainName property)
      (hbase : WellFormed base) : WellFormed (.indexed l base property)
  | literal {value : Literal} (l : Location) (h : value.WellFormed) : WellFormed (.literal l value)

mutual

/-- How many types nest in the printed text, those in the printer's own parentheses included. -/
def nesting : TypeExpr → Nat
  | named .. => 1
  | generic _ _ args => nestingAll .argument args + 1
  | union _ members => nestingAll .unionMember members
  | intersection _ members => nestingAll .intersectionMember members
  | record _ fields => nestingFields fields + 1
  | template _ params result => max (nestingTemplateParams params) (nesting result) + 1
  | function _ params result => max (nestingFunctionParams params) (nesting result) + 1
  | indexed _ base _ => nesting base + (needsParens .base base).toNat
  | literal .. => 1

def nestingAll (position : Position) : List TypeExpr → Nat
  | [] => 0
  | e :: rest => max (nesting e + (needsParens position e).toNat) (nestingAll position rest)

def nestingFields : List (Field TypeExpr) → Nat
  | [] => 0
  | ⟨_, _, _, type⟩ :: rest => max (nesting type) (nestingFields rest)

def nestingTemplateParams : List (TemplateParam TypeExpr) → Nat
  | [] => 0
  | ⟨_, _, _, _, _, type⟩ :: rest => max (nesting type) (nestingTemplateParams rest)

def nestingFunctionParams : List (FunctionParam TypeExpr) → Nat
  | [] => 0
  | ⟨_, _, _, _, type⟩ :: rest => max (nesting type) (nestingFunctionParams rest)

end

theorem nestingAll_le_iff {position : Position} {es : List TypeExpr} {n : Nat} :
    nestingAll position es ≤ n ↔ ∀ e ∈ es, nesting e + (needsParens position e).toNat ≤ n :=
  le_iff_of_mem rfl fun _ _ => rfl

theorem nestingFields_le_iff {fs : List (Field TypeExpr)} {n : Nat} :
    nestingFields fs ≤ n ↔ ∀ f ∈ fs, nesting f.type ≤ n :=
  le_iff_of_mem (f := fun f : Field TypeExpr => nesting f.type) rfl fun _ _ => rfl

theorem nestingTemplateParams_le_iff {ps : List (TemplateParam TypeExpr)} {n : Nat} :
    nestingTemplateParams ps ≤ n ↔ ∀ p ∈ ps, nesting p.type ≤ n :=
  le_iff_of_mem (f := fun p : TemplateParam TypeExpr => nesting p.type) rfl fun _ _ => rfl

theorem nestingFunctionParams_le_iff {ps : List (FunctionParam TypeExpr)} {n : Nat} :
    nestingFunctionParams ps ≤ n ↔ ∀ p ∈ ps, nesting p.type ≤ n :=
  le_iff_of_mem (f := fun p : FunctionParam TypeExpr => nesting p.type) rfl fun _ _ => rfl

theorem nesting_le_nestingAll (position : Position) {e : TypeExpr} {es : List TypeExpr}
    (he : e ∈ es) : nesting e + (needsParens position e).toNat ≤ nestingAll position es :=
  nestingAll_le_iff.1 (Nat.le_refl _) e he

theorem nesting_le_nestingFields {f : Field TypeExpr} {fs : List (Field TypeExpr)} (hf : f ∈ fs) :
    nesting f.type ≤ nestingFields fs :=
  nestingFields_le_iff.1 (Nat.le_refl _) f hf

theorem nesting_le_nestingTemplateParams {p : TemplateParam TypeExpr}
    {ps : List (TemplateParam TypeExpr)} (hp : p ∈ ps) :
    nesting p.type ≤ nestingTemplateParams ps :=
  nestingTemplateParams_le_iff.1 (Nat.le_refl _) p hp

theorem nesting_le_nestingFunctionParams {p : FunctionParam TypeExpr}
    {ps : List (FunctionParam TypeExpr)} (hp : p ∈ ps) :
    nesting p.type ≤ nestingFunctionParams ps :=
  nestingFunctionParams_le_iff.1 (Nat.le_refl _) p hp

end TemplateCheck.TypeExpr

import Mathlib.Data.List.Forall2
import TemplateCheck.Proofs.Lists
import TemplateCheck.TypeExpr.Equality
import TemplateCheck.TypeExpr.Printer

/-! Induction over type expressions, and printing and equality part by part. -/

namespace TemplateCheck.TypeExpr

theorem induct {motive : TypeExpr → Prop}
    (named : ∀ l name, motive (.named l name))
    (generic : ∀ l name args, (∀ e ∈ args, motive e) → motive (.generic l name args))
    (union : ∀ l members, (∀ e ∈ members, motive e) → motive (.union l members))
    (intersection : ∀ l members, (∀ e ∈ members, motive e) → motive (.intersection l members))
    (record : ∀ l fields, (∀ f ∈ fields, motive f.type) → motive (.record l fields))
    (template : ∀ l params result, (∀ p ∈ params, motive p.type) → motive result →
      motive (.template l params result))
    (function : ∀ l params result, (∀ p ∈ params, motive p.type) → motive result →
      motive (.function l params result))
    (indexed : ∀ l base property, motive base → motive (.indexed l base property))
    (literal : ∀ l value, motive (.literal l value)) (e : TypeExpr) : motive e :=
  @TypeExpr.rec motive (fun es => ∀ e ∈ es, motive e) (fun fs => ∀ f ∈ fs, motive f.type)
    (fun ps => ∀ p ∈ ps, motive p.type) (fun ps => ∀ p ∈ ps, motive p.type)
    (fun f => motive f.type) (fun p => motive p.type) (fun p => motive p.type)
    named generic union intersection record template function indexed literal
    (by simp) (fun _ _ => by simp +contextual) (by simp) (fun _ _ => by simp +contextual)
    (by simp) (fun _ _ => by simp +contextual) (by simp) (fun _ _ => by simp +contextual)
    (fun _ _ _ _ => id) (fun _ _ _ _ _ _ => id) (fun _ _ _ _ _ => id) e

def memberText (position : Position) (e : TypeExpr) : String :=
  Text.parenthesize (needsParens position e) e.print

def fieldText (f : Field TypeExpr) : String := f.name ++ Text.typeMark f.optional ++ f.type.print

def templateParamText (p : TemplateParam TypeExpr) : String :=
  p.spelling ++ Text.typeMark (!p.required) ++ p.type.print

def functionParamText (p : FunctionParam TypeExpr) : String :=
  Text.variadicMark p.variadic ++ p.spelling ++ Text.typeMark false ++ p.type.print

@[simp]
theorem printAll_eq_map (position : Position) (es : List TypeExpr) :
    printAll position es = es.map (memberText position) :=
  eq_map_of_cons rfl (fun _ _ => rfl) es

@[simp]
theorem printFields_eq_map (fs : List (Field TypeExpr)) : printFields fs = fs.map fieldText :=
  eq_map_of_cons rfl (fun _ _ => rfl) fs

@[simp]
theorem printTemplateParams_eq_map (ps : List (TemplateParam TypeExpr)) :
    printTemplateParams ps = ps.map templateParamText :=
  eq_map_of_cons rfl (fun _ _ => rfl) ps

@[simp]
theorem printFunctionParams_eq_map (ps : List (FunctionParam TypeExpr)) :
    printFunctionParams ps = ps.map functionParamText :=
  eq_map_of_cons rfl (fun _ _ => rfl) ps

def SameField (f g : Field TypeExpr) : Prop :=
  f.name = g.name ∧ f.optional = g.optional ∧ same f.type g.type

def SameTemplateParam (p q : TemplateParam TypeExpr) : Prop :=
  p.name = q.name ∧ p.spelling = q.spelling ∧ p.kind = q.kind ∧ p.required = q.required ∧
    same p.type q.type

def SameFunctionParam (p q : FunctionParam TypeExpr) : Prop :=
  p.name = q.name ∧ p.spelling = q.spelling ∧ p.variadic = q.variadic ∧ same p.type q.type

@[simp]
theorem sameAll_iff {as bs : List TypeExpr} :
    sameAll as bs ↔ List.Forall₂ (fun a b => same a b) as bs := by
  induction as generalizing bs with
  | nil => cases bs <;> simp [sameAll]
  | cons a as ih => cases bs <;> simp [sameAll, ih]

@[simp]
theorem sameFields_iff {fs gs : List (Field TypeExpr)} :
    sameFields fs gs ↔ List.Forall₂ SameField fs gs := by
  induction fs generalizing gs with
  | nil => cases gs <;> simp [sameFields]
  | cons f fs ih =>
    cases gs with
    | nil => simp [sameFields]
    | cons g gs => cases f; cases g; simp [sameFields, ih, SameField, and_assoc]

@[simp]
theorem sameTemplateParams_iff {ps qs : List (TemplateParam TypeExpr)} :
    sameTemplateParams ps qs ↔ List.Forall₂ SameTemplateParam ps qs := by
  induction ps generalizing qs with
  | nil => cases qs <;> simp [sameTemplateParams]
  | cons p ps ih =>
    cases qs with
    | nil => simp [sameTemplateParams]
    | cons q qs => cases p; cases q; simp [sameTemplateParams, ih, SameTemplateParam, and_assoc]

@[simp]
theorem sameFunctionParams_iff {ps qs : List (FunctionParam TypeExpr)} :
    sameFunctionParams ps qs ↔ List.Forall₂ SameFunctionParam ps qs := by
  induction ps generalizing qs with
  | nil => cases qs <;> simp [sameFunctionParams]
  | cons p ps ih =>
    cases qs with
    | nil => simp [sameFunctionParams]
    | cons q qs => cases p; cases q; simp [sameFunctionParams, ih, SameFunctionParam, and_assoc]

section Inversion
variable {e result : TypeExpr} {l : Location}

theorem eq_named_of_same {name : String} (h : same e (.named l name)) :
    ∃ l', e = .named l' name := by
  cases e <;> simp only [same, Bool.false_eq_true, beq_iff_eq] at h
  exact ⟨_, by rw [h]⟩

theorem eq_literal_of_same {value : Literal} (h : same e (.literal l value)) :
    ∃ l', e = .literal l' value := by
  cases e <;> simp only [same, Bool.false_eq_true, beq_iff_eq] at h
  exact ⟨_, by rw [h]⟩

theorem eq_generic_of_same {name : String} {args : List TypeExpr}
    (h : same e (.generic l name args)) :
    ∃ l' es, e = .generic l' name es ∧ List.Forall₂ (fun a b => same a b) es args := by
  cases e <;> simp only [same, Bool.false_eq_true, Bool.and_eq_true, beq_iff_eq, sameAll_iff] at h
  exact ⟨_, _, by rw [h.1], h.2⟩

theorem eq_union_of_same {members : List TypeExpr} (h : same e (.union l members)) :
    ∃ l' es, e = .union l' es ∧ List.Forall₂ (fun a b => same a b) es members := by
  cases e <;> simp only [same, Bool.false_eq_true, sameAll_iff] at h
  exact ⟨_, _, rfl, h⟩

theorem eq_intersection_of_same {members : List TypeExpr} (h : same e (.intersection l members)) :
    ∃ l' es, e = .intersection l' es ∧ List.Forall₂ (fun a b => same a b) es members := by
  cases e <;> simp only [same, Bool.false_eq_true, sameAll_iff] at h
  exact ⟨_, _, rfl, h⟩

theorem eq_record_of_same {fields : List (Field TypeExpr)} (h : same e (.record l fields)) :
    ∃ l' fs, e = .record l' fs ∧ List.Forall₂ SameField fs fields := by
  cases e <;> simp only [same, Bool.false_eq_true, sameFields_iff] at h
  exact ⟨_, _, rfl, h⟩

theorem eq_template_of_same {params : List (TemplateParam TypeExpr)}
    (h : same e (.template l params result)) :
    ∃ l' ps u, e = .template l' ps u ∧ List.Forall₂ SameTemplateParam ps params ∧
      same u result := by
  cases e <;> simp only [same, Bool.false_eq_true, Bool.and_eq_true, sameTemplateParams_iff] at h
  exact ⟨_, _, _, rfl, h⟩

theorem eq_function_of_same {params : List (FunctionParam TypeExpr)}
    (h : same e (.function l params result)) :
    ∃ l' ps u, e = .function l' ps u ∧ List.Forall₂ SameFunctionParam ps params ∧
      same u result := by
  cases e <;> simp only [same, Bool.false_eq_true, Bool.and_eq_true, sameFunctionParams_iff] at h
  exact ⟨_, _, _, rfl, h⟩

theorem eq_indexed_of_same {base : TypeExpr} {property : String}
    (h : same e (.indexed l base property)) :
    ∃ l' u, e = .indexed l' u property ∧ same u base := by
  cases e <;> simp only [same, Bool.false_eq_true, Bool.and_eq_true, beq_iff_eq] at h
  exact ⟨_, _, by rw [h.1], h.2⟩

end Inversion

theorem map_eq_of_forall₂ {α β : Type} {R : α → α → Prop} {f : α → β} {as bs : List α}
    (h : List.Forall₂ R as bs) (hf : ∀ a ∈ as, ∀ b, R a b → f a = f b) : as.map f = bs.map f := by
  induction h with
  | nil => rfl
  | cons hab _ ih =>
    rw [List.map_cons, List.map_cons, hf _ (List.mem_cons_self ..) _ hab,
      ih fun a ha => hf a (List.mem_cons_of_mem _ ha)]

theorem needsParens_eq_of_same {a b : TypeExpr} (h : same a b) (position : Position) :
    needsParens position a = needsParens position b := by
  cases a <;> cases b <;> simp only [same, Bool.false_eq_true, beq_iff_eq] at h
  case literal.literal l v k w => subst h; cases position <;> cases v <;> rfl
  all_goals cases position <;> rfl

theorem memberText_eq_of_same {a b : TypeExpr} (h : same a b) (ht : a.print = b.print)
    (position : Position) : memberText position a = memberText position b := by
  rw [memberText, memberText, needsParens_eq_of_same h, ht]

theorem print_eq_of_same {a b : TypeExpr} (h : same a b) : a.print = b.print := by
  have members {as bs : List TypeExpr} (ih : ∀ a ∈ as, ∀ {b}, same a b → a.print = b.print)
      (hs : sameAll as bs) (position : Position) :
      as.map (memberText position) = bs.map (memberText position) :=
    map_eq_of_forall₂ (sameAll_iff.1 hs) fun a ha b hab =>
      memberText_eq_of_same hab (ih a ha hab) position
  induction a using induct generalizing b with
  | named l name =>
    cases b <;> simp only [same, Bool.false_eq_true, beq_iff_eq] at h
    rw [print, print, h]
  | literal l value =>
    cases b <;> simp only [same, Bool.false_eq_true, beq_iff_eq] at h
    rw [print, print, h]
  | generic l name args ih =>
    cases b <;> simp only [same, Bool.false_eq_true, Bool.and_eq_true, beq_iff_eq] at h
    simp only [print, printAll_eq_map, members ih h.2, h.1]
  | union l args ih =>
    cases b <;> simp only [same, Bool.false_eq_true] at h
    simp only [print, printAll_eq_map, members ih h]
  | intersection l args ih =>
    cases b <;> simp only [same, Bool.false_eq_true] at h
    simp only [print, printAll_eq_map, members ih h]
  | record l fields ih =>
    cases b <;> simp only [same, Bool.false_eq_true, sameFields_iff] at h
    rw [print, print, printFields_eq_map, printFields_eq_map]
    rw [map_eq_of_forall₂ h fun f hf g hfg => ?_]
    rw [fieldText, fieldText, hfg.1, hfg.2.1, ih f hf hfg.2.2]
  | template l params result ih ihr =>
    cases b <;> simp only [same, Bool.false_eq_true, Bool.and_eq_true,
      sameTemplateParams_iff] at h
    rw [print, print, printTemplateParams_eq_map, printTemplateParams_eq_map, ihr h.2]
    rw [map_eq_of_forall₂ h.1 fun p hp q hpq => ?_]
    obtain ⟨-, hspelling, -, hrequired, htype⟩ := hpq
    rw [templateParamText, templateParamText, hspelling, hrequired, ih p hp htype]
  | function l params result ih ihr =>
    cases b <;> simp only [same, Bool.false_eq_true, Bool.and_eq_true,
      sameFunctionParams_iff] at h
    rw [print, print, printFunctionParams_eq_map, printFunctionParams_eq_map, ihr h.2]
    rw [map_eq_of_forall₂ h.1 fun p hp q hpq => ?_]
    obtain ⟨-, hspelling, hvariadic, htype⟩ := hpq
    rw [functionParamText, functionParamText, hspelling, hvariadic, ih p hp htype]
  | indexed l base p ih =>
    cases b <;> simp only [same, Bool.false_eq_true, Bool.and_eq_true, beq_iff_eq] at h
    rw [print, print, needsParens_eq_of_same h.2, ih h.2, h.1]

end TemplateCheck.TypeExpr

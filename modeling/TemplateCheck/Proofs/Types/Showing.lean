import TemplateCheck.Proofs.TypeExpr.WellFormed
import TemplateCheck.Proofs.Types.Structure
import TemplateCheck.Types.Display

/-! The text of a type is the printed form of an expression. -/

namespace TemplateCheck

def TemplateParameter.spelling {τ : Type} (p : TemplateParameter τ) : String :=
  match p.kind with
  | .regular => p.name
  | .htmlAttribute => "@" ++ ParameterName.toAttribute p.name

namespace TypeExpr

def ofProperty (p : RecordProperty TypeExpr) : Field TypeExpr :=
  ⟨p.name, .unknown, p.optional, p.type⟩

def ofTemplateParameter (p : TemplateParameter TypeExpr) : TemplateParam TypeExpr :=
  ⟨p.name, p.spelling, .unknown, p.kind, p.required, p.type⟩

def ofFunctionParameter (p : FunctionParameter TypeExpr) : FunctionParam TypeExpr :=
  ⟨p.name, p.name, .unknown, p.variadic, p.type⟩

def sortMembers (members : List TypeExpr) : List TypeExpr :=
  Order.sortBy (fun a b => decide (memberText .unionMember a ≤ memberText .unionMember b)) members

def ofForm : TypeForm TypeExpr → TypeExpr
  | .error => named .unknown "<error>"
  | .intrinsic .null => literal .unknown .null
  | .intrinsic .undefined => literal .unknown .undefined
  | .intrinsic kind => named .unknown kind.name
  | .element tag => generic .unknown "html" [named .unknown tag.text]
  | .list item => generic .unknown "list" [item]
  | .set item => generic .unknown "set" [item]
  | .iterable item => generic .unknown "iterable" [item]
  | .map key value => generic .unknown "map" [key, value]
  | .legacyObjectMap key value => generic .unknown "legacy_object_map" [key, value]
  | .record properties => record .unknown (properties.map ofProperty)
  | .template shape =>
    template .unknown (shape.parameters.map ofTemplateParameter) shape.result
  | .function shape =>
    function .unknown (shape.parameters.map ofFunctionParameter) shape.result
  | .union members => union .unknown (sortMembers members)
  | .intersection members => intersection .unknown members
  | .literal value => literal .unknown (.string value)
  | .message m => named .unknown m.descriptor.name
  | .enum .any => generic .unknown "enum" [named .unknown "any"]
  | .enum .unknown => generic .unknown "enum" [named .unknown "?"]
  | .enum (.descriptor e) => named .unknown e.descriptor.name

theorem needsParens_ofForm_union (d : TypeForm TypeExpr) (h : d.kind ≠ .union) :
    needsParens .unionMember (ofForm d) = d.isFunctionLike := by
  cases d with
  | union => exact absurd rfl h
  | intrinsic kind => cases kind <;> rfl
  | enum e => cases e <;> rfl
  | _ => rfl

theorem needsParens_ofForm_intersection (d : TypeForm TypeExpr) (h : d.kind ≠ .intersection) :
    needsParens .intersectionMember (ofForm d) = (d.isFunctionLike || d.isUnion) := by
  cases d with
  | intersection => exact absurd rfl h
  | intrinsic kind => cases kind <;> rfl
  | enum e => cases e <;> rfl
  | _ => rfl

end TypeExpr

open TypeExpr

namespace TypeForm
variable {τ υ : Type} {f : τ → υ} {d : TypeForm τ}

theorem kind_mapParts : (d.mapParts f).kind = d.kind := by cases d <;> rfl

theorem isFunctionLike_mapParts : (d.mapParts f).isFunctionLike = d.isFunctionLike := by
  cases d <;> rfl

theorem isUnion_mapParts : (d.mapParts f).isUnion = d.isUnion := by cases d <;> rfl

end TypeForm

namespace TypeStore
variable {s s' : TypeStore} {t : TypeId} {d : TypeData}

/-- The expression that the text of a type spells. -/
def expression (s : TypeStore) (t : TypeId) : TypeExpr := s.fold TypeExpr.ofForm t

def shown (s : TypeStore) (t : TypeId) : ShownType := s.fold ShownType.ofForm t

theorem Sound.expression (h : s.Sound) (ht : s.lookup t = some d) :
    s.expression t = TypeExpr.ofForm (d.mapParts s.expression) := h.fold ht

theorem Sound.shown (h : s.Sound) (ht : s.lookup t = some d) :
    s.shown t = ShownType.ofForm (d.mapParts s.shown) := h.fold ht

structure ShowsExpression (s : TypeStore) (t : TypeId) : Prop where
  text : (s.shown t).text = (s.expression t).print
  unionMember : s.kind t ≠ .union →
    (s.shown t).asUnionMember = memberText .unionMember (s.expression t)
  intersectionMember : s.kind t ≠ .intersection →
    (s.shown t).asIntersectionMember = memberText .intersectionMember (s.expression t)

theorem Sound.showsExpression_of_text (h : s.Sound) (ht : s.lookup t = some d)
    (htext : (s.shown t).text = (s.expression t).print) : s.ShowsExpression t := by
  have hfunction : (s.shown t).functionLike = d.isFunctionLike := by
    rw [h.shown ht]
    exact TypeForm.isFunctionLike_mapParts
  have hunion : (s.shown t).isUnion = d.isUnion := by
    rw [h.shown ht]
    exact TypeForm.isUnion_mapParts
  refine ⟨htext, fun hkind => ?_, fun hkind => ?_⟩
  · rw [kind, data_of_lookup ht] at hkind
    rw [ShownType.asUnionMember, memberText, htext, hfunction, h.expression ht,
      needsParens_ofForm_union _ (by rwa [TypeForm.kind_mapParts]),
      TypeForm.isFunctionLike_mapParts]
  · rw [kind, data_of_lookup ht] at hkind
    rw [ShownType.asIntersectionMember, memberText, htext, hfunction, hunion, h.expression ht,
      needsParens_ofForm_intersection _ (by rwa [TypeForm.kind_mapParts]),
      TypeForm.isFunctionLike_mapParts, TypeForm.isUnion_mapParts]

section Forms
variable {properties : List (RecordProperty TypeId)} {members : List TypeId}

theorem text_generic (name : String) (arguments : List TypeId)
    (h : ∀ p ∈ arguments, s.ShowsExpression p) :
    ShownType.genericText name (arguments.map s.shown) =
      (TypeExpr.generic .unknown name (arguments.map s.expression)).print := by
  have harguments : (arguments.map s.shown).map (·.text) =
      (arguments.map s.expression).map (memberText .argument) := by
    rw [List.map_map, List.map_map]
    exact List.map_congr_left fun p hp => (h p hp).text
  rw [ShownType.genericText, harguments, print, printAll_eq_map]

theorem text_record (h : ∀ p ∈ properties, s.ShowsExpression p.type) :
    ShownType.formText ((TypeForm.record properties).mapParts s.shown) =
      (ofForm ((TypeForm.record properties).mapParts s.expression)).print := by
  rw [TypeForm.mapParts, TypeForm.mapParts, ShownType.formText, ofForm, print,
    printFields_eq_map, List.map_map, List.map_map, List.map_map]
  congr 3
  refine List.map_congr_left fun p hp => ?_
  have htext := (h p hp).text
  show p.name ++ Text.typeMark p.optional ++ (s.shown p.type).text =
    p.name ++ Text.typeMark p.optional ++ (s.expression p.type).print
  rw [htext]

theorem text_template {shape : TemplateShape TypeId}
    (h : ∀ p ∈ shape.parameters, s.ShowsExpression p.type)
    (hresult : s.ShowsExpression shape.result) :
    ShownType.formText ((TypeForm.template shape).mapParts s.shown) =
      (ofForm ((TypeForm.template shape).mapParts s.expression)).print := by
  have hparameters : (shape.parameters.map (·.map s.shown)).map ShownType.templateParameterText =
      ((shape.parameters.map (·.map s.expression)).map ofTemplateParameter).map
        templateParamText := by
    rw [List.map_map, List.map_map, List.map_map]
    refine List.map_congr_left fun p hp => ?_
    have htext := (h p hp).text
    show (p.spelling ++ Text.typeMark (!p.required) ++ (s.shown p.type).text : String) =
      p.spelling ++ Text.typeMark (!p.required) ++ (s.expression p.type).print
    rw [htext]
  rw [TypeForm.mapParts, TypeForm.mapParts, ShownType.formText, ofForm, print,
    printTemplateParams_eq_map, hparameters, hresult.text]

theorem text_function {shape : FunctionShape TypeId}
    (h : ∀ p ∈ shape.parameters, s.ShowsExpression p.type)
    (hresult : s.ShowsExpression shape.result) :
    ShownType.formText ((TypeForm.function shape).mapParts s.shown) =
      (ofForm ((TypeForm.function shape).mapParts s.expression)).print := by
  have hparameters : (shape.parameters.map (·.map s.shown)).map ShownType.functionParameterText =
      ((shape.parameters.map (·.map s.expression)).map ofFunctionParameter).map
        functionParamText := by
    rw [List.map_map, List.map_map, List.map_map]
    refine List.map_congr_left fun p hp => ?_
    have htext := (h p hp).text
    show Text.variadicMark p.variadic ++ p.name ++ Text.typeMark false ++ (s.shown p.type).text =
      Text.variadicMark p.variadic ++ p.name ++ Text.typeMark false ++ (s.expression p.type).print
    rw [htext]
  rw [TypeForm.mapParts, TypeForm.mapParts, ShownType.formText, ofForm, print,
    printFunctionParams_eq_map, hparameters, hresult.text]

theorem text_union (h : ∀ p ∈ members, s.ShowsExpression p)
    (hflat : ∀ p ∈ members, s.kind p ≠ .union) :
    ShownType.formText ((TypeForm.union members).mapParts s.shown) =
      (ofForm ((TypeForm.union members).mapParts s.expression)).print := by
  have hmembers : (members.map s.shown).map ShownType.asUnionMember =
      (members.map s.expression).map (memberText .unionMember) := by
    rw [List.map_map, List.map_map]
    exact List.map_congr_left fun p hp => (h p hp).unionMember (hflat p hp)
  rw [TypeForm.mapParts, TypeForm.mapParts, ShownType.formText, ofForm, print, printAll_eq_map,
    hmembers, Order.sortTexts, Order.sortBy_map, sortMembers]

theorem text_intersection (h : ∀ p ∈ members, s.ShowsExpression p)
    (hflat : ∀ p ∈ members, s.kind p ≠ .intersection) :
    ShownType.formText ((TypeForm.intersection members).mapParts s.shown) =
      (ofForm ((TypeForm.intersection members).mapParts s.expression)).print := by
  have hmembers : (members.map s.shown).map ShownType.asIntersectionMember =
      (members.map s.expression).map (memberText .intersectionMember) := by
    rw [List.map_map, List.map_map]
    exact List.map_congr_left fun p hp => (h p hp).intersectionMember (hflat p hp)
  rw [TypeForm.mapParts, TypeForm.mapParts, ShownType.formText, ofForm, print, printAll_eq_map,
    hmembers]

end Forms

theorem Sound.showsExpression (h : s.Sound) (ht : s.Known t) : s.ShowsExpression t := by
  refine h.induct (motive := fun t => s.ShowsExpression t) (fun t d hd ih => ?_) t ht
  refine h.showsExpression_of_text hd ?_
  rw [h.shown hd, h.expression hd]
  show ShownType.formText (d.mapParts s.shown) = (ofForm (d.mapParts s.expression)).print
  have hknown : s.Known t := ⟨d, hd⟩
  have hdata := data_of_lookup hd
  cases d with
  | error | literal | message => rfl
  | intrinsic kind => cases kind <;> rfl
  | element tag => rfl
  | enum e => cases e <;> rfl
  | list item => exact text_generic "list" [item] ih
  | set item => exact text_generic "set" [item] ih
  | iterable item => exact text_generic "iterable" [item] ih
  | map key value => exact text_generic "map" [key, value] ih
  | legacyObjectMap key value =>
    exact text_generic "legacy_object_map" [key, value] ih
  | record properties => exact text_record (List.forall_mem_map.1 ih)
  | template shape =>
    obtain ⟨hparameters, hresult⟩ := List.forall_mem_append.1 ih
    exact text_template (List.forall_mem_map.1 hparameters) (hresult _ (List.mem_singleton_self _))
  | function shape =>
    obtain ⟨hparameters, hresult⟩ := List.forall_mem_append.1 ih
    exact text_function (List.forall_mem_map.1 hparameters) (hresult _ (List.mem_singleton_self _))
  | union members => exact text_union ih (h.union_normal hknown hdata).flat
  | intersection members => exact text_intersection ih (h.intersection_normal hknown hdata).flat

theorem Sound.display_eq (h : s.Sound) (ht : s.Known t) :
    s.display t = (s.expression t).print := (h.showsExpression ht).text

end TypeStore
end TemplateCheck

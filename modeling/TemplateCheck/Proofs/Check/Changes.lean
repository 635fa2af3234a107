import TemplateCheck.Check.Types
import TemplateCheck.Proofs.Tree.Editing

/-! What the resolution of types changes in a tree. Changes leave alone what is declared, and those
that agree with each other have no further effect when they are made once more. -/

namespace TemplateCheck

def Param.setTypes : List TypeId → List Param → List Param
  | t :: types, p :: rest => { p with type := some t } :: setTypes types rest
  | _, rest => rest

def Param.declared (p : Param) : String × Option TypeExpr := (p.name, p.typeExpr)

inductive Declaration where
  | constant (name : String) (typeExpr : Option TypeExpr)
  | template (parameters : List (String × Option TypeExpr))
  | other (kind : NodeKind)

def Declaration.kind : Declaration → NodeKind
  | constant .. => .const
  | template _ => .template
  | other kind => kind

def Node.declaration : Node → Declaration
  | .const c => .constant c.name c.typeExpr
  | .template _ params => .template (params.map Param.declared)
  | node => .other node.kind

theorem Node.kind_declaration (node : Node) : node.declaration.kind = node.kind := by
  cases node <;> rfl

inductive TypeChange where
  | constant (type : TypeId)
  | parameters (types : List TypeId)
  | assign (scope : Scope)

namespace TypeChange

def apply : TypeChange → Node → Node
  | .constant t, .const c => .const { c with type := some t }
  | .parameters types, .template name params => .template name (Param.setTypes types params)
  | .assign scope, node => node.assignTypes scope
  | _, node => node

def Agrees : TypeChange → TypeChange → Prop
  | .constant t, .constant u => t = u
  | .parameters types, .parameters types' => types = types'
  | _, _ => True

variable {change other : TypeChange} {changes : List TypeChange} {node : Node}

theorem setTypes_setTypes (types : List TypeId) (params : List Param) :
    Param.setTypes types (Param.setTypes types params) = Param.setTypes types params := by
  induction types generalizing params with
  | nil => rfl
  | cons t types ih =>
    cases params with
    | nil => rfl
    | cons p rest => simp only [Param.setTypes, ih]

theorem declared_setTypes (types : List TypeId) (params : List Param) :
    (Param.setTypes types params).map Param.declared = params.map Param.declared := by
  induction types generalizing params with
  | nil => rfl
  | cons t types ih =>
    cases params with
    | nil => rfl
    | cons p rest =>
      rw [Param.setTypes, List.map_cons, List.map_cons, ih]
      rfl

theorem assignType_assignType (scope : Scope) (e : Expr) :
    (e.assignType scope).assignType scope = e.assignType scope := by
  cases e with
  | var name type =>
    cases type with
    | none => cases h : scope.lookup name <;> simp [Expr.assignType, h]
    | some t => rfl
  | _ => rfl

theorem assignType_of_fixed {scope : Scope} (later : Scope) {e : Expr}
    (h : e.assignType scope = e) :
    (e.assignType later).assignType scope = e.assignType later := by
  cases e with
  | var name type =>
    cases type with
    | none =>
      cases hlater : later.lookup name with
      | none => simpa [Expr.assignType, hlater] using h
      | some t => simp [Expr.assignType, hlater]
    | some t => rfl
  | _ => rfl

theorem apply_apply (change : TypeChange) (node : Node) :
    change.apply (change.apply node) = change.apply node := by
  cases change with
  | constant t => cases node <;> rfl
  | parameters types =>
    cases node with
    | template name params => exact congrArg (Node.template name) (setTypes_setTypes types params)
    | _ => rfl
  | assign scope =>
    cases node <;> simp [apply, Node.assignTypes, assignType_assignType, Option.map_map,
      Function.comp_def]

theorem apply_of_fixed (hagrees : change.Agrees other) (h : change.apply node = node) :
    change.apply (other.apply node) = other.apply node := by
  cases change with
  | constant t =>
    cases node with
    | const c =>
      cases other with
      | constant u =>
        obtain rfl : t = u := hagrees
        rfl
      | _ => exact h
    | _ => cases other <;> rfl
  | parameters types =>
    cases node with
    | template name params =>
      cases other with
      | parameters types' =>
        obtain rfl : types = types' := hagrees
        exact apply_apply _ _
      | _ => exact h
    | _ => cases other <;> rfl
  | assign scope =>
    cases other with
    | assign later =>
      cases node with
      | print e | key e | switch e =>
        simp only [apply, Node.assignTypes, Node.print.injEq, Node.key.injEq,
          Node.switch.injEq] at h ⊢
        exact assignType_of_fixed later h
      | case es =>
        simp only [apply, Node.assignTypes, Node.case.injEq, List.map_map] at h ⊢
        refine List.map_congr_left fun e he => assignType_of_fixed later ?_
        exact List.map_inj_left.1 (h.trans (List.map_id es).symm) e he
      | velog v =>
        obtain ⟨data, attributes, logonly, needsSynthetic, samenessKey⟩ := v
        simp only [apply, Node.assignTypes, Node.velog.injEq, Velog.mk.injEq, true_and] at h ⊢
        obtain ⟨hdata, hlogonly, -⟩ := h
        refine ⟨assignType_of_fixed later hdata, ?_, trivial⟩
        cases logonly with
        | none => rfl
        | some e => exact congrArg some (assignType_of_fixed later (Option.some.inj hlogonly))
      | _ => rfl
    | _ => cases node <;> first | exact h | rfl

theorem declaration_apply (change : TypeChange) (node : Node) :
    (change.apply node).declaration = node.declaration := by
  cases change with
  | constant t => cases node <;> rfl
  | parameters types =>
    cases node with
    | template name params => exact congrArg Declaration.template (declared_setTypes types params)
    | _ => rfl
  | assign scope => cases node <;> rfl

def applyAll (changes : List TypeChange) (node : Node) : Node :=
  changes.foldl (fun node change => change.apply node) node

theorem declaration_applyAll (changes : List TypeChange) (node : Node) :
    (applyAll changes node).declaration = node.declaration := by
  induction changes generalizing node with
  | nil => rfl
  | cons change rest ih => exact (ih _).trans (declaration_apply change node)

theorem applyAll_eq_self (h : ∀ change ∈ changes, change.apply node = node) :
    applyAll changes node = node := by
  induction changes with
  | nil => rfl
  | cons change rest ih =>
    obtain ⟨hchange, hrest⟩ := List.forall_mem_cons.1 h
    rw [applyAll, List.foldl_cons, hchange]
    exact ih hrest

theorem applyAll_of_fixed (hagrees : ∀ other ∈ changes, change.Agrees other)
    (h : change.apply node = node) :
    change.apply (applyAll changes node) = applyAll changes node := by
  induction changes generalizing node with
  | nil => exact h
  | cons other rest ih =>
    obtain ⟨hother, hrest⟩ := List.forall_mem_cons.1 hagrees
    exact ih hrest (apply_of_fixed hother h)

theorem apply_applyAll (hagrees : ∀ other ∈ changes, change.Agrees other)
    (hmem : change ∈ changes) : change.apply (applyAll changes node) = applyAll changes node := by
  induction changes generalizing node with
  | nil => cases hmem
  | cons other rest ih =>
    have hrest := (List.forall_mem_cons.1 hagrees).2
    rcases List.mem_cons.1 hmem with rfl | hmem
    · rw [applyAll, List.foldl_cons]
      exact applyAll_of_fixed hrest (apply_apply change node)
    · exact ih hrest hmem

theorem applyAll_again (hagrees : ∀ change ∈ changes, ∀ other ∈ changes, change.Agrees other) :
    applyAll changes (applyAll changes node) = applyAll changes node :=
  applyAll_eq_self fun change hmem => apply_applyAll (hagrees change hmem) hmem

end TypeChange

theorem Tree.ext_slot? {P : Type} {t u : Tree P} (h : ∀ n, t.slot? n = u.slot? n) : t = u :=
  congrArg Tree.mk (Array.ext_getElem? fun i => h ⟨i⟩)

abbrev TypeChanges := List (NodeId × TypeChange)

def TypeChanges.forNode (changes : TypeChanges) (n : NodeId) : List TypeChange :=
  (changes.filter (·.1 = n)).map (·.2)

theorem TypeChanges.forNode_cons {changes : TypeChanges} {m n : NodeId} {change : TypeChange} :
    forNode ((m, change) :: changes) n =
      if m = n then change :: changes.forNode n else changes.forNode n := by
  rw [forNode, List.filter_cons]
  by_cases hmn : m = n <;> simp [hmn, forNode]

def Tree.withTypes (t : TemplateTree) (changes : TypeChanges) : TemplateTree :=
  changes.foldl (fun t (n, change) => t.update n fun slot =>
    { slot with payload := change.apply slot.payload }) t

namespace Tree
variable {t : TemplateTree} {changes more : TypeChanges} {n : NodeId}

theorem withTypes_append : t.withTypes (changes ++ more) = (t.withTypes changes).withTypes more :=
  List.foldl_append

theorem slot?_withTypes : (t.withTypes changes).slot? n = (t.slot? n).map fun slot =>
    { slot with payload := TypeChange.applyAll (changes.forNode n) slot.payload } := by
  induction changes generalizing t with
  | nil => exact (Option.map_id_apply ..).symm
  | cons c rest ih =>
    obtain ⟨m, change⟩ := c
    rw [withTypes, List.foldl_cons]
    refine ih.trans ?_
    rw [slot?_update, TypeChanges.forNode_cons]
    by_cases hmn : m = n
    · rw [if_pos hmn, if_pos hmn, Option.map_map]
      rfl
    · rw [if_neg hmn, if_neg hmn]

@[simp]
theorem size_withTypes : (t.withTypes changes).size = t.size := by
  induction changes generalizing t with
  | nil => rfl
  | cons c rest ih => exact ih.trans size_update

theorem parentOf_withTypes : (t.withTypes changes).parentOf n = t.parentOf n := by
  rw [parentOf, slot?_withTypes, Option.bind_map]
  rfl

theorem childrenOf_withTypes : (t.withTypes changes).childrenOf n = t.childrenOf n := by
  rw [childrenOf, slot?_withTypes, childrenOf]
  cases t.slot? n <;> rfl

theorem withTypes_again (hagrees : ∀ c ∈ changes, ∀ d ∈ changes, c.1 = d.1 → c.2.Agrees d.2) :
    (t.withTypes changes).withTypes changes = t.withTypes changes := by
  refine ext_slot? fun n => ?_
  have hat : ∀ change ∈ changes.forNode n, ∀ other ∈ changes.forNode n, change.Agrees other := by
    simp only [TypeChanges.forNode, List.forall_mem_map, List.mem_filter, decide_eq_true_eq]
    rintro c ⟨hc, rfl⟩ d ⟨hd, hdc⟩
    exact hagrees c hc d hd hdc.symm
  rw [slot?_withTypes, slot?_withTypes, Option.map_map]
  congr 1
  funext slot
  exact congrArg (fun payload => { slot with payload }) (TypeChange.applyAll_again hat)

end Tree
end TemplateCheck

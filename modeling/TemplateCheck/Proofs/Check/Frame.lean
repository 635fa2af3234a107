import TemplateCheck.Proofs.Check.Again
import TemplateCheck.Proofs.Types.Matching

/-! What the checks leave alone. They fill in the types of parameters, of constants with an
annotation and of variables without a type. All else in the tree stays, and so does its text. -/

namespace TemplateCheck

inductive Expr.Gains : Expr → Expr → Prop
  | same (e : Expr) : Gains e e
  | var (name : String) (type : TypeId) : Gains (.var name none) (.var name (some type))

inductive Param.Gains : Param → Param → Prop
  | same (p : Param) : Gains p p
  | type (p : Param) (type : TypeId) : Gains p { p with type := some type }

inductive Node.Gains : Node → Node → Prop
  | same (node : Node) : Gains node node
  | const (c : Const) (e : TypeExpr) (type : TypeId) (h : c.typeExpr = some e) :
      Gains (.const c) (.const { c with type := some type })
  | template (name : String) {params params' : List Param}
      (h : List.Forall₂ Param.Gains params params') :
      Gains (.template name params) (.template name params')
  | print {e e' : Expr} (h : e.Gains e') : Gains (.print e) (.print e')
  | key {e e' : Expr} (h : e.Gains e') : Gains (.key e) (.key e')
  | switch {e e' : Expr} (h : e.Gains e') : Gains (.switch e) (.switch e')
  | case {exprs exprs' : List Expr} (h : List.Forall₂ Expr.Gains exprs exprs') :
      Gains (.case exprs) (.case exprs')
  | velog (v : Velog) {data : Expr} {logonly : Option Expr} (hdata : v.data.Gains data)
      (hlogonly : Option.Rel Expr.Gains v.logonly logonly) :
      Gains (.velog v) (.velog { v with data, logonly })

structure Slot.Gains (slot slot' : Slot Node) : Prop where
  location : slot'.location = slot.location
  parent : slot'.parent = slot.parent
  children : slot'.children = slot.children
  payload : slot.payload.Gains slot'.payload

structure Tree.Gains (t u : TemplateTree) : Prop where
  size : u.size = t.size
  slots : ∀ n, Option.Rel Slot.Gains (t.slot? n) (u.slot? n)

def Node.allExpressions : Node → List Expr
  | .print e | .key e | .switch e => [e]
  | .const c => [c.expr]
  | .case exprs => exprs
  | .velog v => v.data :: v.attributes.map (·.value) ++ v.logonly.toList
  | _ => []

def TemplateTree.expressionAt (t : TemplateTree) (n : NodeId) (i : Nat) : Option Expr :=
  (payloadOf t n).bind (·.allExpressions[i]?)

section Lifting
variable {α : Type} {R : α → α → Prop}

theorem forall₂_trans {as bs cs : List α} (hR : ∀ {a b c}, R a b → R b c → R a c)
    (h : List.Forall₂ R as bs) (h' : List.Forall₂ R bs cs) : List.Forall₂ R as cs :=
  (forall₂_comp h h').imp fun _ _ ⟨_, hab, hbc⟩ => hR hab hbc

theorem optionRel_trans {a b c : Option α} (hR : ∀ {a b c}, R a b → R b c → R a c)
    (h : Option.Rel R a b) (h' : Option.Rel R b c) : Option.Rel R a c := by
  cases h with
  | none => exact h'
  | some hab =>
    cases h' with
    | some hbc => exact .some (hR hab hbc)

theorem exists_of_optionRel {a : α} {b : Option α} (h : Option.Rel R (some a) b) :
    ∃ c, b = some c ∧ R a c := by
  cases h with
  | some hac => exact ⟨_, rfl, hac⟩

theorem forall₂_toList {a b : Option α} (h : Option.Rel R a b) :
    List.Forall₂ R a.toList b.toList := by
  cases h with
  | none => exact .nil
  | some hab => exact .cons hab .nil

theorem optionRel_getElem? {as bs : List α} (h : List.Forall₂ R as bs) (i : Nat) :
    Option.Rel R as[i]? bs[i]? := by
  induction h generalizing i with
  | nil => exact .none
  | cons hab _ ih =>
    cases i with
    | zero => exact .some hab
    | succ i => exact ih i

end Lifting

section Nodes
variable {e e' e'' : Expr} {p p' p'' : Param} {node node' node'' : Node}

theorem Expr.Gains.trans (h : e.Gains e') (h' : e'.Gains e'') : e.Gains e'' := by
  cases h with
  | same => exact h'
  | var name type =>
    cases h'
    exact .var name type

theorem Expr.Gains.text_eq (h : e.Gains e') : e'.text = e.text := by
  cases h <;> rfl

theorem Expr.gains_assignType (scope : Scope) (e : Expr) : e.Gains (e.assignType scope) := by
  cases e with
  | var name known =>
    cases known with
    | none =>
      rw [assignType]
      cases scope.lookup name with
      | none => exact .same _
      | some type => exact .var name type
    | some type => exact .same _
  | _ => exact .same _

theorem Param.Gains.trans (h : p.Gains p') (h' : p'.Gains p'') : p.Gains p'' := by
  cases h with
  | same => exact h'
  | type type =>
    cases h' with
    | same => exact .type p type
    | type type' => exact .type p type'

theorem Param.Gains.text_eq (h : p.Gains p') : Node.paramText p' = Node.paramText p := by
  cases h <;> rfl

theorem Param.gains_setTypes (types : List TypeId) (params : List Param) :
    List.Forall₂ Param.Gains params (Param.setTypes types params) := by
  induction types generalizing params with
  | nil => exact List.forall₂_same.2 fun p _ => .same p
  | cons type types ih =>
    cases params with
    | nil => exact .nil
    | cons p rest => exact .cons (.type p type) (ih rest)

theorem Node.Gains.trans (h : node.Gains node') (h' : node'.Gains node'') :
    node.Gains node'' := by
  cases h with
  | same => exact h'
  | const c e type hc =>
    cases h' with
    | same => exact .const c e type hc
    | const _ _ type' => exact .const c e type' hc
  | template name hparams =>
    cases h' with
    | same => exact .template name hparams
    | template _ hparams' =>
      exact .template name (forall₂_trans Param.Gains.trans hparams hparams')
  | print he =>
    cases h' with
    | same => exact .print he
    | print he' => exact .print (he.trans he')
  | key he =>
    cases h' with
    | same => exact .key he
    | key he' => exact .key (he.trans he')
  | switch he =>
    cases h' with
    | same => exact .switch he
    | switch he' => exact .switch (he.trans he')
  | case hexprs =>
    cases h' with
    | same => exact .case hexprs
    | case hexprs' => exact .case (forall₂_trans Expr.Gains.trans hexprs hexprs')
  | velog v hdata hlogonly =>
    cases h' with
    | same => exact .velog v hdata hlogonly
    | velog _ hdata' hlogonly' =>
      exact .velog v (hdata.trans hdata') (optionRel_trans Expr.Gains.trans hlogonly hlogonly')

theorem Node.gains_assignTypes (scope : Scope) (node : Node) :
    node.Gains (node.assignTypes scope) := by
  have hassign := Expr.gains_assignType scope
  cases node with
  | print e => exact .print (hassign e)
  | key e => exact .key (hassign e)
  | switch e => exact .switch (hassign e)
  | case exprs =>
    refine .case (List.forall₂_map_right_iff.2 ?_)
    exact List.forall₂_same.2 fun e _ => hassign e
  | velog v =>
    refine .velog v (hassign v.data) ?_
    cases v.logonly with
    | none => exact .none
    | some e => exact .some (hassign e)
  | _ => exact .same _

theorem Node.gains_parameters (types : List TypeId) (node : Node) :
    node.Gains (TypeChange.apply (.parameters types) node) := by
  cases node with
  | template name params => exact .template name (Param.gains_setTypes types params)
  | _ => exact .same _

theorem Node.Gains.kind_eq (h : node.Gains node') : node'.kind = node.kind := by
  cases h <;> rfl

theorem Node.Gains.opening_eq (h : node.Gains node') : node'.opening = node.opening := by
  cases h with
  | same | const => rfl
  | print he | key he | switch he => rw [opening, opening, he.text_eq]
  | template name hparams =>
    rw [opening, opening, forall₂_eq_map (hparams.imp fun _ _ hp => hp.text_eq.symm)]
  | case hexprs =>
    rw [opening, opening, forall₂_eq_map (hexprs.imp fun _ _ he => he.text_eq.symm)]
  | velog v hdata => rw [opening, opening, hdata.text_eq]

theorem Node.Gains.closing_eq (h : node.Gains node') : node'.closing = node.closing := by
  cases h <;> rfl

theorem Node.Gains.separator_eq (h : node.Gains node') : node'.separator = node.separator := by
  cases h <;> rfl

theorem Node.Gains.allExpressions (h : node.Gains node') :
    List.Forall₂ Expr.Gains node.allExpressions node'.allExpressions := by
  have hsame (exprs : List Expr) : List.Forall₂ Expr.Gains exprs exprs :=
    List.forall₂_same.2 fun e _ => .same e
  cases h with
  | same | const | template => exact hsame _
  | print he | key he | switch he => exact .cons he .nil
  | case hexprs => exact hexprs
  | velog v hdata hlogonly =>
    exact .cons hdata (List.rel_append (hsame _) (forall₂_toList hlogonly))

end Nodes

namespace Tree
open TemplateTree
variable {t u v : TemplateTree} {n : NodeId}

theorem Gains.refl (t : TemplateTree) : t.Gains t where
  size := rfl
  slots n := by
    cases t.slot? n with
    | none => exact .none
    | some slot => exact .some ⟨rfl, rfl, rfl, .same _⟩

theorem Gains.trans (h : t.Gains u) (h' : u.Gains v) : t.Gains v where
  size := h'.size.trans h.size
  slots n := by
    refine optionRel_trans (fun hslot hslot' => ?_) (h.slots n) (h'.slots n)
    exact ⟨hslot'.location.trans hslot.location, hslot'.parent.trans hslot.parent,
      hslot'.children.trans hslot.children, hslot.payload.trans hslot'.payload⟩

theorem gains_update {payload : Node → Node}
    (h : ∀ slot, t.slot? n = some slot → slot.payload.Gains (payload slot.payload)) :
    t.Gains (t.update n fun slot => { slot with payload := payload slot.payload }) where
  size := size_update
  slots m := by
    rw [slot?_update]
    split
    next hnm =>
      subst hnm
      cases hslot : t.slot? n with
      | none => exact .none
      | some slot => exact .some ⟨rfl, rfl, rfl, h slot hslot⟩
    next => exact (Gains.refl t).slots m

theorem gains_withTypes {changes : TypeChanges}
    (h : ∀ c ∈ changes, ∀ node, Node.Gains node (c.2.apply node)) :
    t.Gains (t.withTypes changes) := by
  induction changes generalizing t with
  | nil => exact .refl t
  | cons c rest ih =>
    obtain ⟨hc, hrest⟩ := List.forall_mem_cons.1 h
    exact (gains_update fun slot _ => hc slot.payload).trans (ih hrest)

theorem Gains.slot_cases (h : t.Gains u) (n : NodeId) :
    (t.slot? n = none ∧ u.slot? n = none) ∨
      ∃ slot slot', t.slot? n = some slot ∧ u.slot? n = some slot' ∧ Slot.Gains slot slot' := by
  have hslot := h.slots n
  generalize t.slot? n = a at hslot ⊢
  generalize u.slot? n = b at hslot ⊢
  cases hslot with
  | none => exact .inl ⟨rfl, rfl⟩
  | some hgains => exact .inr ⟨_, _, rfl, rfl, hgains⟩

theorem Gains.slot_eq {α : Type} {f : Slot Node → α} (h : t.Gains u)
    (hf : ∀ {slot slot'}, Slot.Gains slot slot' → f slot' = f slot) (n : NodeId) :
    f <$> u.slot n = f <$> t.slot n := by
  rw [slot, slot]
  rcases h.slot_cases n with ⟨ht, hu⟩ | ⟨slot, slot', ht, hu, hgains⟩
  · rw [ht, hu]
  · rw [ht, hu]
    exact congrArg Except.ok (hf hgains)

theorem Gains.parent_eq (h : t.Gains u) (n : NodeId) : u.parent n = t.parent n :=
  h.slot_eq Slot.Gains.parent n

theorem Gains.children_eq (h : t.Gains u) (n : NodeId) : u.children n = t.children n :=
  h.slot_eq Slot.Gains.children n

theorem Gains.location_eq (h : t.Gains u) (n : NodeId) : u.location n = t.location n :=
  h.slot_eq Slot.Gains.location n

theorem Gains.payload (h : t.Gains u) (n : NodeId) :
    Option.Rel Node.Gains (payloadOf t n) (payloadOf u n) := by
  rw [payloadOf, payloadOf]
  rcases h.slot_cases n with ⟨ht, hu⟩ | ⟨slot, slot', ht, hu, hgains⟩
  · rw [ht, hu]
    exact .none
  · rw [ht, hu]
    exact .some hgains.payload

theorem Gains.kind_eq (h : t.Gains u) (n : NodeId) : kindOf u n = kindOf t n := by
  rw [kindOf, kindOf, payloadOf, payloadOf]
  rcases h.slot_cases n with ⟨ht, hu⟩ | ⟨slot, slot', ht, hu, hgains⟩
  · rw [ht, hu]
  · rw [ht, hu]
    exact congrArg some hgains.payload.kind_eq

theorem Gains.expressionAt {i : Nat} {name : String} {type : TypeId} (h : t.Gains u)
    (hvar : expressionAt t n i = some (.var name (some type))) :
    expressionAt u n i = some (.var name (some type)) := by
  rw [TemplateTree.expressionAt, payloadOf] at hvar ⊢
  rcases h.slot_cases n with ⟨ht, hu⟩ | ⟨slot, slot', ht, hu, hgains⟩
  · rw [ht] at hvar
    cases hvar
  · rw [ht] at hvar
    rw [hu]
    have hvar : slot.payload.allExpressions[i]? = some (.var name (some type)) := hvar
    have hexpression := optionRel_getElem? hgains.payload.allExpressions i
    rw [hvar] at hexpression
    obtain ⟨e, he, hgain⟩ := exists_of_optionRel hexpression
    cases hgain
    exact he

theorem Gains.textWithin_eq (h : t.Gains u) (depth : Nat) (n : NodeId) :
    u.textWithin depth n = t.textWithin depth n := by
  induction depth generalizing n with
  | zero => rfl
  | succ depth ih =>
    rw [textWithin, textWithin, childrenText, childrenText, funext ih]
    rcases h.slot_cases n with ⟨ht, hu⟩ | ⟨slot, slot', ht, hu, hgains⟩
    · rw [ht, hu]
    · have hopening : Sourced.opening slot'.payload = Sourced.opening slot.payload :=
        hgains.payload.opening_eq
      have hclosing : Sourced.closing slot'.payload = Sourced.closing slot.payload :=
        hgains.payload.closing_eq
      have hseparator : Sourced.separator slot'.payload = Sourced.separator slot.payload :=
        hgains.payload.separator_eq
      rw [ht, hu]
      dsimp only
      rw [hgains.children, hopening, hclosing, hseparator]

theorem Gains.source_eq (h : t.Gains u) (n : NodeId) : u.source n = t.source n := by
  rw [source, source, text, text, h.size, h.textWithin_eq, slot, slot]
  rcases h.slot_cases n with ⟨ht, hu⟩ | ⟨slot, slot', ht, hu, -⟩
  · rw [ht, hu]
  · rw [ht, hu]
    rfl

end Tree

namespace Checking
variable {α β : Type} {registry : Registry} {check : Checking α}

def OnlyFills (check : Checking α) : Prop := ∀ s : CheckState, s.tree.Gains (check s).2.tree

theorem OnlyReports.onlyFills (h : OnlyReports check) : OnlyFills check := by
  intro s
  rw [(h s).1]
  exact .refl _

namespace OnlyFills

theorem bind {f : α → Checking β} (h : OnlyFills check) (hf : ∀ a, OnlyFills (f a)) :
    OnlyFills (check >>= f) := by
  intro s
  have hcheck := h s
  rw [run_bind]
  generalize check s = r at hcheck ⊢
  rcases r with ⟨misuse | a, s'⟩
  · exact hcheck
  · exact hcheck.trans (hf a s')

theorem ret (a : α) : OnlyFills (pure a : Checking α) := (OnlyReports.ret a).onlyFills

theorem query (question : TemplateTree → Except Misuse α) : OnlyFills (query question) :=
  (OnlyReports.query question).onlyFills

theorem forM {f : β → Checking Unit} (h : ∀ b, OnlyFills (f b)) (l : List β) :
    OnlyFills (l.forM f) := by
  induction l with
  | nil => exact ret ()
  | cons b rest ih => exact (h b).bind fun _ => ih

theorem foldlM {f : β → α → Checking β} (h : ∀ b a, OnlyFills (f b a)) (b : β) (l : List α) :
    OnlyFills (l.foldlM f b) := by
  induction l generalizing b with
  | nil => exact ret b
  | cons a rest ih => exact (h b a).bind fun b => ih b

theorem resolveConst (scope : Scope) (n : NodeId) :
    OnlyFills (resolveConst registry scope n) := by
  rintro ⟨t, s, report⟩
  cases hslot : t.slot? n with
  | none =>
    rw [Checking.resolveConst, run_bind, query_payload_foreign hslot]
    exact .refl t
  | some slot =>
    by_cases hother : ∀ name e, slot.payload.declaration ≠ .constant name (some e)
    · rw [run_resolveConst_other hslot hother]
      exact .refl t
    push Not at hother
    obtain ⟨name, e, hdeclaration⟩ := hother
    obtain ⟨c, hc, -, he⟩ := Node.declaration_eq_constant hdeclaration
    rcases hrun : Resolving.resolve registry e ⟨s, report⟩ with ⟨type, s', report'⟩
    rw [resolves_const registry scope hslot hc he s report type s' report' hrun]
    refine Tree.gains_update fun slot' hslot' => ?_
    obtain rfl : slot = slot' := Option.some.inj (hslot.symm.trans hslot')
    rw [hc]
    exact .const c e type he

theorem resolveTemplate (scope : Scope) (n : NodeId) :
    OnlyFills (resolveTemplate registry scope n) := by
  rintro ⟨t, s, report⟩
  cases hslot : t.slot? n with
  | none =>
    rw [Checking.resolveTemplate, run_bind, query_payload_foreign hslot]
    exact .refl t
  | some slot =>
    by_cases hother : ∀ parameters, slot.payload.declaration ≠ .template parameters
    · rw [run_resolveTemplate_other hslot hother]
      exact .refl t
    push Not at hother
    obtain ⟨parameters, hdeclaration⟩ := hother
    obtain ⟨name, params, hpayload, -⟩ := Node.declaration_eq_template hdeclaration
    rcases hrun : Resolving.resolveEach registry (params.map Param.declared) ⟨s, report⟩ with
      ⟨types, s', report'⟩
    rw [resolves_template registry scope hslot hpayload s report types s' report' hrun]
    refine Tree.gains_withTypes (List.forall_mem_cons.2 ⟨?_, List.forall_mem_map.2 ?_⟩)
    · exact Node.gains_parameters types
    · exact fun m _ => Node.gains_assignTypes _

theorem resolveTypes (file : NodeId) : OnlyFills (resolveTypes registry file) :=
  (query _).bind fun consts => (foldlM resolveConst [] consts).bind fun scope =>
    (query _).bind fun templates => forM (resolveTemplate scope) templates

theorem run (plan : CheckPlan) (files : List NodeId) : OnlyFills (run registry plan files) := by
  have hfile (check : FileCheck) (file : NodeId) :
      OnlyFills (runFileCheck registry check file) := by
    cases check with
    | types => exact resolveTypes file
    | keys => exact (OnlyReports.checkKeys file).onlyFills
  refine (forM (fun check => forM (hfile check) files) plan.fileChecks).bind fun _ => ?_
  exact forM (fun exempt => (OnlyReports.checkNamespaces exempt files).onlyFills) _

end OnlyFills
end Checking

section Checked
open TemplateTree

/-- Types are all that the checks fill in: nodes stay where they are and what they are, with the
same text, and a variable with a type keeps it. -/
theorem checkFiles_gains (registry : Registry) (files : List NodeId) (tree : TemplateTree)
    (store : TypeStore) :
    let checked := (checkFiles registry files tree store).2.1
    (∀ n, checked.parent n = tree.parent n ∧ checked.children n = tree.children n ∧
        checked.location n = tree.location n ∧ kindOf checked n = kindOf tree n ∧
        checked.source n = tree.source n) ∧
      (∀ n, Option.Rel Node.Gains (payloadOf tree n) (payloadOf checked n)) ∧
      ∀ n i name type, expressionAt tree n i = some (.var name (some type)) →
        expressionAt checked n i = some (.var name (some type)) := by
  intro checked
  have hgains : tree.Gains checked := by
    unfold checked
    rw [Session.checkFiles_state]
    exact Checking.OnlyFills.run .standard files ⟨tree, store, .empty⟩
  refine ⟨fun n => ?_, hgains.payload, fun n i name type => hgains.expressionAt⟩
  exact ⟨hgains.parent_eq n, hgains.children_eq n, hgains.location_eq n, hgains.kind_eq n,
    hgains.source_eq n⟩

def twice : TemplateTree :=
  (Workspace.run [.add .unknown (.file "shop.soy" "shop"),
    .add .unknown (.template ".item" [⟨"id", some (.named .unknown "string"), true, none⟩]),
    .add .unknown (.print (.var "id" (some .int))), .add .unknown (.print (.var "id" none)),
    .addChild ⟨0⟩ ⟨1⟩, .addChildren ⟨1⟩ [⟨2⟩, ⟨3⟩]]).tree

theorem checkFiles_gains_twice :
    expressionAt twice ⟨2⟩ 0 = some (.var "id" (some .int)) ∧
      expressionAt (checkFiles Session.idRegistry [⟨0⟩] twice Session.single.store).2.1 ⟨2⟩ 0 =
        some (.var "id" (some .int)) := by
  have htyped : expressionAt twice ⟨2⟩ 0 = some (.var "id" (some .int)) := rfl
  have hgains := checkFiles_gains Session.idRegistry [⟨0⟩] twice Session.single.store
  exact ⟨htyped, hgains.2.2 ⟨2⟩ 0 "id" .int htyped⟩

end Checked
end TemplateCheck

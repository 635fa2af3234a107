import TemplateCheck.Proofs.Check.Copied
import TemplateCheck.Proofs.Check.Settling

/-! The scopes of declared types. A template gives types to its own variables only: that of its last
parameter of the name, or else that of the last constant, wherever in the file the constant
stands. -/

namespace TemplateCheck

def Expr.typedBy (types : String → Option TypeId) : Expr → Expr
  | var name none => var name (types name)
  | e => e

theorem Expr.assignType_eq (scope : Scope) :
    Expr.assignType scope = typedBy (List.lookup · scope) := by
  funext e
  cases e with
  | var name type => cases type <;> rfl
  | _ => rfl

def Node.expressions : Node → List Expr
  | print e | key e | switch e => [e]
  | case es => es
  | velog v => v.data :: v.logonly.toList
  | _ => []

def Node.parameterTypes : Node → List (String × Option TypeId)
  | template _ params => params.map fun p => (p.name, p.type)
  | _ => []

def Node.constantType? : Node → Option (String × Option TypeId)
  | const c => some (c.name, c.type)
  | _ => none

theorem Node.expressions_assignTypes (scope : Scope) (node : Node) :
    (node.assignTypes scope).expressions = node.expressions.map (Expr.assignType scope) := by
  cases node with
  | velog v =>
    obtain ⟨data, attributes, logonly, needsSynthetic, samenessKey⟩ := v
    cases logonly <;> rfl
  | _ => rfl

namespace TypeChange
variable {changes : List TypeChange} {scope : Scope} {node : Node}

theorem map_expressions_applyAll (h : ∀ other, .assign other ∈ changes → other = scope) :
    (applyAll changes node).expressions.map (Expr.assignType scope) =
      node.expressions.map (Expr.assignType scope) := by
  induction changes generalizing node with
  | nil => rfl
  | cons change rest ih =>
    have hrest := @ih (change.apply node) fun other hother => h other (.tail _ hother)
    refine hrest.trans ?_
    cases change with
    | assign other =>
      obtain rfl := h other (.head _)
      rw [apply, Node.expressions_assignTypes, List.map_map]
      exact List.map_congr_left fun e _ => assignType_assignType other e
    | _ => cases node <;> rfl

theorem expressions_applyAll (hmem : .assign scope ∈ changes)
    (h : ∀ other, .assign other ∈ changes → other = scope) :
    (applyAll changes node).expressions = node.expressions.map (Expr.assignType scope) := by
  have hfixed : (assign scope).apply (applyAll changes node) = applyAll changes node :=
    apply_applyAll (fun _ _ => trivial) hmem
  rw [← map_expressions_applyAll h, ← Node.expressions_assignTypes]
  exact congrArg Node.expressions hfixed.symm

theorem parameterTypes_setTypes (meaning : Option TypeExpr → TypeId) (params : List Param) :
    (Param.setTypes ((params.map Param.declared).map fun p => meaning p.2) params).map
        (fun p => (p.name, p.type)) =
      (params.map Param.declared).map fun p => (p.1, some (meaning p.2)) := by
  induction params with
  | nil => rfl
  | cons p rest ih =>
    rw [List.map_cons, List.map_cons, Param.setTypes, List.map_cons, ih]
    rfl

theorem parameterTypes_applyAll {declared : List (String × Option TypeExpr)}
    {meaning : Option TypeExpr → TypeId}
    (hmem : .parameters (declared.map fun p => meaning p.2) ∈ changes)
    (hagrees : ∀ other ∈ changes, (parameters (declared.map fun p => meaning p.2)).Agrees other)
    (hnode : node.declaration = .template declared) :
    (applyAll changes node).parameterTypes = declared.map fun p => (p.1, some (meaning p.2)) := by
  have hfixed : (parameters _).apply (applyAll changes node) = applyAll changes node :=
    apply_applyAll hagrees hmem
  rw [← declaration_applyAll changes] at hnode
  obtain ⟨name, params, hparams, rfl⟩ := Node.declaration_eq_template hnode
  rw [← hfixed, hparams]
  exact parameterTypes_setTypes meaning params

theorem constantType?_applyAll {name : String} {e : Option TypeExpr} {t : TypeId}
    (hmem : .constant t ∈ changes) (hagrees : ∀ other ∈ changes, (constant t).Agrees other)
    (hnode : node.declaration = .constant name e) :
    (applyAll changes node).constantType? = some (name, some t) := by
  have hfixed : (constant t).apply (applyAll changes node) = applyAll changes node :=
    apply_applyAll hagrees hmem
  rw [← declaration_applyAll changes] at hnode
  obtain ⟨c, hc, rfl, -⟩ := Node.declaration_eq_constant hnode
  rw [← hfixed, hc]
  rfl

end TypeChange

open Resolving

def Declared.typeOf (registry : Registry) (s : TypeStore) (declared : Declared) (x : String) :
    Option TypeId :=
  (List.lookup x declared.reverse).map (meaning registry s)

theorem Scope.lookup_declare {registry : Registry} {s : TypeStore} (scope : Scope)
    (declared : Declared) (x : String) :
    List.lookup x (scope.declare declared (meanings registry s declared)) =
      (declared.typeOf registry s x).or (List.lookup x scope) := by
  induction declared generalizing scope with
  | nil => rfl
  | cons p rest ih =>
    obtain ⟨name, e⟩ := p
    refine (ih _).trans ?_
    rw [Declared.typeOf, Declared.typeOf, List.reverse_cons, List.lookup_append, Option.map_or,
      Option.or_assoc]
    congr 1
    rw [List.lookup_cons, List.lookup_cons]
    cases x == name <;> rfl

namespace Checking
variable {registry : Registry} {t : TemplateTree} {s : TypeStore} {f n : NodeId}

/-- What the constants of a file declare, in pre-order. -/
def constantsOf (t : TemplateTree) (f : NodeId) : Declared := (t.preorder f).flatMap t.constantAt

def fileScope (registry : Registry) (s : TypeStore) (t : TemplateTree) (f : NodeId) : Scope :=
  Scope.declare [] (constantsOf t f) (meanings registry s (constantsOf t f))

def typeChanges (registry : Registry) (s : TypeStore) (t : TemplateTree) (f : NodeId) :
    TypeChanges :=
  (t.preorder f).flatMap (constantChanges registry s t) ++
    (t.preorder f).flatMap (changesBelow registry (fileScope registry s t f) s t)

section Settled

theorem kindOf_withTypes {changed : TypeChanges} :
    TemplateTree.kindOf (t.withTypes changed) = TemplateTree.kindOf t := by
  funext n
  rw [TemplateTree.kindOf_eq, Tree.declarationOf_withTypes, ← TemplateTree.kindOf_eq]

theorem flatMap_filter {α β : Type} {p : α → Prop} [DecidablePred p] {g : α → List β}
    (h : ∀ a, ¬p a → g a = []) (l : List α) : (l.filter p).flatMap g = l.flatMap g := by
  induction l with
  | nil => rfl
  | cons a rest ih =>
    rw [List.filter_cons, List.flatMap_cons]
    by_cases ha : p a
    · rw [if_pos (decide_eq_true ha), List.flatMap_cons, ih]
    · rw [if_neg (by simpa using ha), ih, h a ha, List.nil_append]

theorem constantAt_of_kind (h : TemplateTree.kindOf t n ≠ some .const) : t.constantAt n = [] := by
  rw [Tree.constantAt]
  split
  · next hd => exact absurd (by rw [TemplateTree.kindOf_eq, hd]; rfl) h
  · rfl

theorem changesBelow_of_kind (scope : Scope) (h : TemplateTree.kindOf t n ≠ some .template) :
    changesBelow registry scope s t n = [] := by
  rw [changesBelow]
  split
  · next hd => exact absurd (by rw [TemplateTree.kindOf_eq, hd]; rfl) h
  · rfl

theorem settles_resolveTypes (hs : s.Sound) (hserves : registry.Serves False s) (ht : t.Shaped)
    (hf : t.Allocated f) :
    Settles t s (resolveTypes registry f) (fun _ => ()) fun later =>
      typeChanges registry later t f := by
  have hbelow (kind : NodeKind) :
      ∀ n ∈ (t.preorder f).filter fun m => TemplateTree.kindOf t m = some kind, t.Allocated n :=
    fun n hn => ht.allocated_preorder hf (List.mem_filter.1 hn).1
  have hconstants (n : NodeId) (hn : TemplateTree.kindOf t n ≠ some .const) (later : TypeStore) :
      constantChanges registry later t n = [] := by
    rw [constantChanges, constantAt_of_kind hn, List.map_nil]
  have hconsts := settles_resolveConsts hs hserves (hbelow .const) []
  simp only [flatMap_filter fun n => constantAt_of_kind,
    flatMap_filter fun n hn => hconstants n hn _] at hconsts
  refine .query_bind (TemplateTree.ofKind_eq hf .const) ?_
  refine hconsts.bind (g := fun _ _ => ())
    (c := fun scope later => (t.preorder f).flatMap (changesBelow registry scope later t))
    fun scope changed s' hs' hgrows => ?_
  have hsame : TemplateTree.ofKind (t.withTypes changed) f .template =
      .ok ((t.preorder f).filter fun m => TemplateTree.kindOf t m = some .template) := by
    rw [TemplateTree.ofKind_eq (allocated_withTypes.2 hf), Tree.preorder_withTypes,
      kindOf_withTypes]
  have htemplates := settles_resolveTemplates (t := t.withTypes changed) hs'
    (hserves.later id hs hgrows) (fun n hn => allocated_withTypes.2 (hbelow .template n hn)) scope
  simp only [changesBelow_withTypes, flatMap_filter fun n => changesBelow_of_kind _] at htemplates
  exact htemplates.query_bind hsame

end Settled

section Changes
variable {change other : TypeChange} {scope : Scope} {m : NodeId}

theorem mem_constantChanges : (n, change) ∈ constantChanges registry s t m ↔
    n = m ∧ ∃ name e, t.declarationOf m = some (.constant name (some e)) ∧
      change = .constant (meaning registry s (some e)) := by
  rw [constantChanges, Tree.constantAt]
  split
  · next name e hd => simp [hd]
  · next hd => simpa using fun _ name e hd' => absurd hd' (hd name e)

theorem mem_changesBelow : (n, change) ∈ changesBelow registry scope s t m ↔
    ∃ parameters, t.declarationOf m = some (.template parameters) ∧
      ((n = m ∧ change = .parameters (meanings registry s parameters)) ∨
        (n ∈ t.preorder m ∧
          change = .assign (scope.declare parameters (meanings registry s parameters)))) := by
  rw [changesBelow]
  split
  · next parameters hd => simp [hd, templateChanges, eq_comm]
  · next hd => simpa using fun parameters hd' => absurd hd' (hd parameters)

theorem mem_typeChanges : (n, change) ∈ typeChanges registry s t f ↔
    (n ∈ t.preorder f ∧ ∃ name e, t.declarationOf n = some (.constant name (some e)) ∧
      change = .constant (meaning registry s (some e))) ∨
    ∃ template ∈ t.preorder f, ∃ parameters,
      t.declarationOf template = some (.template parameters) ∧
        ((n = template ∧ change = .parameters (meanings registry s parameters)) ∨
          (n ∈ t.preorder template ∧ change = .assign ((fileScope registry s t f).declare parameters
            (meanings registry s parameters)))) := by
  rw [typeChanges, List.mem_append, List.mem_flatMap, List.mem_flatMap]
  simp only [mem_constantChanges, mem_changesBelow]
  refine or_congr ⟨?_, ?_⟩ Iff.rfl
  · rintro ⟨m, hm, rfl, hconstant⟩
    exact ⟨hm, hconstant⟩
  · rintro ⟨hn, hconstant⟩
    exact ⟨n, hn, rfl, hconstant⟩

theorem mem_forNode {changes : TypeChanges} :
    change ∈ changes.forNode n ↔ (n, change) ∈ changes := by
  simp [TypeChanges.forNode]

theorem typeChanges_agree (hchange : change ∈ (typeChanges registry s t f).forNode n)
    (hother : other ∈ (typeChanges registry s t f).forNode n) : change.Agrees other := by
  rw [mem_forNode, mem_typeChanges] at hchange hother
  rcases hchange with ⟨-, name, e, hd, rfl⟩ | ⟨template, -, parameters, hd, ⟨rfl, rfl⟩ | ⟨-, rfl⟩⟩
  · rcases hother with ⟨-, name', e', hd', rfl⟩ | ⟨_, -, _, -, ⟨-, rfl⟩ | ⟨-, rfl⟩⟩
    · cases hd.symm.trans hd'
      rfl
    · trivial
    · trivial
  · rcases hother with ⟨-, _, _, -, rfl⟩ | ⟨template', -, parameters', hd', ⟨rfl, rfl⟩ | ⟨-, rfl⟩⟩
    · trivial
    · cases hd.symm.trans hd'
      rfl
    · trivial
  · trivial

end Changes

/-- The types of a file of the tree `t` in what the resolution has left: each annotation has its
type, and each variable of a template that had none has that of the last parameter of its name, or
else that of the last of the constants. -/
structure Scoped (registry : Registry) (t : TemplateTree) (f : NodeId) (constants : Declared)
    (left : CheckState) : Prop where
  constant : ∀ n ∈ t.preorder f, ∀ name e, t.declarationOf n = some (.constant name (some e)) →
    (left.tree.payloadOf n).bind Node.constantType? =
      some (name, some (meaning registry left.store (some e)))
  template : ∀ n ∈ t.preorder f, ∀ parameters, t.declarationOf n = some (.template parameters) →
    (left.tree.payloadOf n).map Node.parameterTypes =
      some (parameters.map fun p => (p.1, some (meaning registry left.store p.2)))
  typed : ∀ n ∈ t.preorder f, ∀ parameters, t.declarationOf n = some (.template parameters) →
    ∀ m ∈ t.preorder n, (left.tree.payloadOf m).map Node.expressions =
      (t.payloadOf m).map fun node => node.expressions.map (Expr.typedBy fun x =>
        (Declared.typeOf registry left.store parameters x).or
          (constants.typeOf registry left.store x))

section Payloads
variable {changes : TypeChanges}

theorem payloadOf_withTypes : (t.withTypes changes).payloadOf n =
    (t.payloadOf n).map (TypeChange.applyAll (changes.forNode n)) := by
  rw [TemplateTree.payloadOf, Tree.slot?_withTypes, Option.map_map, TemplateTree.payloadOf,
    Option.map_map]
  rfl

theorem exists_payload {d : Declaration} (h : t.declarationOf n = some d) :
    ∃ node, t.payloadOf n = some node ∧ node.declaration = d := by
  obtain ⟨slot, hslot, hd⟩ := Option.map_eq_some_iff.1 h
  exact ⟨slot.payload, by rw [TemplateTree.payloadOf, hslot, Option.map_some], hd⟩

end Payloads

theorem kindOf_of_template {parameters : Declared}
    (h : t.declarationOf n = some (.template parameters)) :
    TemplateTree.kindOf t n = some .template := by
  rw [TemplateTree.kindOf_eq, h]
  rfl

/-- No template of the file is below another one. -/
def TemplatesApart (t : TemplateTree) (f : NodeId) : Prop :=
  ∀ n ∈ t.preorder f, ∀ m ∈ t.preorder n, TemplateTree.kindOf t n = some .template →
    TemplateTree.kindOf t m = some .template → m = n

/-- The annotated constants from the file down are its children. -/
def ConstantsOnTop (t : TemplateTree) (f : NodeId) : Prop :=
  ∀ n ∈ t.preorder f, t.constantAt n ≠ [] → n ∈ t.childrenOf f

theorem TemplatesApart.eq {n' m : NodeId} (h : TemplatesApart t f) (ht : t.Shaped)
    (hf : t.Allocated f) (hn : n ∈ t.preorder f) (hn' : n' ∈ t.preorder f)
    (hkind : TemplateTree.kindOf t n = some .template)
    (hkind' : TemplateTree.kindOf t n' = some .template) (hm : m ∈ t.preorder n)
    (hm' : m ∈ t.preorder n') : n' = n := by
  have halloc := ht.allocated_preorder hf hn
  have halloc' := ht.allocated_preorder hf hn'
  rcases Tree.Shaped.above_total ((ht.mem_preorder halloc).1 hm)
    ((ht.mem_preorder halloc').1 hm') with hbelow | hbelow
  · exact h n hn n' ((ht.mem_preorder halloc).2 hbelow) hkind hkind'
  · exact (h n' hn' n ((ht.mem_preorder halloc').2 hbelow) hkind' hkind).symm

theorem TemplatesApart.assign_eq {m : NodeId} {parameters : Declared} {scope : Scope}
    (h : TemplatesApart t f) (ht : t.Shaped) (hf : t.Allocated f) (hn : n ∈ t.preorder f)
    (hd : t.declarationOf n = some (.template parameters)) (hm : m ∈ t.preorder n)
    (hscope : (m, .assign scope) ∈ typeChanges registry s t f) :
    scope = (fileScope registry s t f).declare parameters (meanings registry s parameters) := by
  rcases mem_typeChanges.1 hscope with ⟨-, _, _, -, hchange⟩ |
    ⟨n', hn', parameters', hd', ⟨-, hchange⟩ | ⟨hm', hchange⟩⟩
  · cases hchange
  · cases hchange
  · obtain rfl := h.eq ht hf hn hn' (kindOf_of_template hd) (kindOf_of_template hd') hm hm'
    cases hd.symm.trans hd'
    exact TypeChange.assign.inj hchange

theorem scoped_withTypes (report : Report) (ht : t.Shaped) (hf : t.Allocated f)
    (hapart : TemplatesApart t f) :
    Scoped registry t f (constantsOf t f)
      ⟨t.withTypes (typeChanges registry s t f), s, report⟩ where
  constant n hn name e hd := by
    obtain ⟨node, hnode, hdeclaration⟩ := exists_payload hd
    have hmem : .constant (meaning registry s (some e)) ∈ (typeChanges registry s t f).forNode n :=
      mem_forNode.2 (mem_typeChanges.2 (.inl ⟨hn, name, e, hd, rfl⟩))
    rw [payloadOf_withTypes, hnode, Option.map_some, Option.bind_some]
    exact TypeChange.constantType?_applyAll hmem (fun _ => typeChanges_agree hmem) hdeclaration
  template n hn parameters hd := by
    obtain ⟨node, hnode, hdeclaration⟩ := exists_payload hd
    have hmem : .parameters (meanings registry s parameters) ∈
        (typeChanges registry s t f).forNode n :=
      mem_forNode.2 (mem_typeChanges.2 (.inr ⟨n, hn, parameters, hd, .inl ⟨rfl, rfl⟩⟩))
    rw [payloadOf_withTypes, hnode, Option.map_some, Option.map_some]
    exact congrArg some
      (TypeChange.parameterTypes_applyAll hmem (fun _ => typeChanges_agree hmem) hdeclaration)
  typed n hn parameters hd m hm := by
    have hassign : .assign ((fileScope registry s t f).declare parameters
        (meanings registry s parameters)) ∈ (typeChanges registry s t f).forNode m :=
      mem_forNode.2 (mem_typeChanges.2 (.inr ⟨n, hn, parameters, hd, .inr ⟨hm, rfl⟩⟩))
    have honly (scope : Scope) (hscope : .assign scope ∈ (typeChanges registry s t f).forNode m) :
        scope = (fileScope registry s t f).declare parameters (meanings registry s parameters) :=
      hapart.assign_eq ht hf hn hd hm (mem_forNode.1 hscope)
    rw [payloadOf_withTypes, Option.map_map]
    refine congrArg (Option.map · (t.payloadOf m)) (funext fun node => ?_)
    refine (TypeChange.expressions_applyAll hassign honly).trans ?_
    rw [Expr.assignType_eq]
    refine congrArg (fun types => node.expressions.map (Expr.typedBy types)) (funext fun x => ?_)
    rw [Scope.lookup_declare, fileScope, Scope.lookup_declare, List.lookup_nil, Option.or_none]

theorem ConstantsOnTop.constantAt_below {c m : NodeId} (h : ConstantsOnTop t f) (ht : t.Shaped)
    (hf : t.Allocated f) (hc : c ∈ t.childrenOf f)
    (hm : m ∈ (t.childrenOf c).flatMap t.preorder) : t.constantAt m = [] := by
  have hcf := ht.allocated f c hc
  by_contra hconstant
  have hcm : m ∈ t.preorder c := by
    rw [ht.preorder_eq hcf]
    exact .tail _ hm
  have hmf : m ∈ t.preorder f := by
    rw [ht.preorder_eq hf]
    exact .tail _ (List.mem_flatMap.2 ⟨c, hc, hcm⟩)
  have hsibling := ht.mem_childrenOf.1 (h m hmf hconstant)
  obtain rfl := ht.eq_of_siblings (ht.mem_childrenOf.1 hc) hsibling ((ht.mem_preorder hcf).1 hcm)
  have hnodup := ht.nodup_preorder hcf
  rw [ht.preorder_eq hcf] at hnodup
  exact (List.nodup_cons.1 hnodup).1 hm

theorem constantsOf_eq (ht : t.Shaped) (hfile : TemplateTree.isFile t f) (hf : t.Allocated f)
    (htop : ConstantsOnTop t f) : constantsOf t f = (t.childrenOf f).flatMap t.constantAt := by
  have hkind : TemplateTree.kindOf t f = some .file := by simpa [TemplateTree.isFile] using hfile
  have hnone : t.constantAt f = [] := constantAt_of_kind (by simp [hkind])
  rw [constantsOf, ht.preorder_eq hf, List.flatMap_cons, hnone, List.nil_append, List.flatMap_assoc]
  refine List.flatMap_congr fun c hc => ?_
  have hcf := ht.allocated f c hc
  have hbelow : ∀ m ∈ (t.childrenOf c).flatMap t.preorder, t.constantAt m = [] :=
    fun m hm => htop.constantAt_below ht hf hc hm
  rw [ht.preorder_eq hcf, List.flatMap_cons, List.flatMap_eq_nil_iff.2 hbelow, List.append_nil]

end Checking

namespace Session
open Checking
variable {σ : Session} {registry : Registry}

/-- In a file whose templates are not nested, variables get the types of the parameters of their own
template and of the constants of the file. A constant counts wherever in the file it stands. -/
theorem resolveTypes_scoped (hσ : σ.Reached)
    (haliases : ∀ entry ∈ registry.aliases, entry.2 ∈ σ.issued)
    (operations : List (Operation Node)) {f : NodeId}
    (hfile : TemplateTree.isFile (Workspace.run operations).tree f)
    (hapart : TemplatesApart (Workspace.run operations).tree f) (report : Report) :
    ∃ left,
      resolveTypes registry f ⟨(Workspace.run operations).tree, σ.store, report⟩ = (.ok (), left) ∧
      Scoped registry (Workspace.run operations).tree f
        (constantsOf (Workspace.run operations).tree f) left ∧
      (ConstantsOnTop (Workspace.run operations).tree f →
        Scoped registry (Workspace.run operations).tree f
          (((Workspace.run operations).tree.childrenOf f).flatMap
            (Tree.constantAt (Workspace.run operations).tree)) left) := by
  have hshaped := Workspace.shaped_run operations
  generalize (Workspace.run operations).tree = t at hfile hapart hshaped ⊢
  have hf : t.Allocated f := by
    by_contra hf
    rw [TemplateTree.isFile, TemplateTree.kindOf, TemplateTree.payloadOf,
      Tree.slot?_eq_none hf] at hfile
    cases hfile
  obtain ⟨s, ds, hs, -, hrun⟩ :=
    settles_resolveTypes hσ.valid.sound (serves_of_issued hσ haliases) hshaped hf
  have hscoped : Scoped registry t f (constantsOf t f)
      ⟨t.withTypes (typeChanges registry s t f), s, report.extend ds⟩ :=
    scoped_withTypes _ hshaped hf hapart
  refine ⟨_, hrun s hs (.refl s) report, hscoped, fun htop => ?_⟩
  rwa [← constantsOf_eq hshaped hfile hf htop]

theorem resolveTypes_scoped_cart :
    single.Reached ∧ (∀ entry ∈ idRegistry.aliases, entry.2 ∈ single.issued) ∧
      TemplateTree.isFile (Workspace.run cartFile).tree ⟨0⟩ ∧
      TemplatesApart (Workspace.run cartFile).tree ⟨0⟩ ∧
      ConstantsOnTop (Workspace.run cartFile).tree ⟨0⟩ ∧
      ∃ left, resolveTypes idRegistry ⟨0⟩ ⟨(Workspace.run cartFile).tree, single.store, .empty⟩ =
          (.ok (), left) ∧
        Scoped idRegistry (Workspace.run cartFile).tree ⟨0⟩
          (((Workspace.run cartFile).tree.childrenOf ⟨0⟩).flatMap
            (Tree.constantAt (Workspace.run cartFile).tree)) left := by
  have hreached : single.Reached := ⟨_, .refl⟩
  have haliases : ∀ entry ∈ idRegistry.aliases, entry.2 ∈ single.issued := by decide
  have hfile : TemplateTree.isFile (Workspace.run cartFile).tree ⟨0⟩ := by decide
  have hapart : TemplatesApart (Workspace.run cartFile).tree ⟨0⟩ := by
    unfold TemplatesApart
    decide
  have htop : ConstantsOnTop (Workspace.run cartFile).tree ⟨0⟩ := by
    unfold ConstantsOnTop
    decide
  obtain ⟨left, hrun, -, hscoped⟩ :=
    resolveTypes_scoped hreached haliases cartFile hfile hapart .empty
  exact ⟨hreached, haliases, hfile, hapart, htop, left, hrun, hscoped htop⟩

def leakyFile : List (Operation Node) :=
  [.add .unknown (.file "leaky.soy" "leaky"), .add .unknown (.template ".first" []),
    .add .unknown (.const ⟨"n", .int 1, false, some (.named .unknown "int"), none⟩),
    .add .unknown (.template ".second" []), .add .unknown (.print (.var "n" none)),
    .addChildren ⟨0⟩ [⟨1⟩, ⟨3⟩], .addChild ⟨1⟩ ⟨2⟩, .addChild ⟨3⟩ ⟨4⟩]

def leaky : TemplateTree := (Workspace.run leakyFile).tree

theorem constant_leaks :
    TemplateTree.isFile leaky ⟨0⟩ ∧ TemplatesApart leaky ⟨0⟩ ∧
      ¬∀ left, resolveTypes idRegistry ⟨0⟩ ⟨leaky, single.store, .empty⟩ = (.ok (), left) →
        Scoped idRegistry leaky ⟨0⟩ ((leaky.childrenOf ⟨0⟩).flatMap leaky.constantAt) left := by
  have hfile : TemplateTree.isFile leaky ⟨0⟩ := by decide
  have hapart : TemplatesApart leaky ⟨0⟩ := by
    unfold TemplatesApart
    decide
  refine ⟨hfile, hapart, fun h => ?_⟩
  have hrun : (resolveTypes idRegistry ⟨0⟩ ⟨leaky, single.store, .empty⟩).1 = .ok () := by
    decide +kernel
  have htyped := (h _ (Prod.ext hrun rfl)).typed ⟨3⟩ (by decide) [] rfl ⟨4⟩ (by decide)
  have hequal := congrArg (Option.map (List.map (Expr.equal (.var "n" none)))) htyped
  revert hequal
  decide +kernel

end Session
end TemplateCheck

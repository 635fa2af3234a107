import Mathlib.Data.List.Forall2
import TemplateCheck.Proofs.Check.Changes
import TemplateCheck.Template.Query

/-! Trees that declare the same at corresponding nodes. The children of such nodes correspond, and
so do all nodes of a kind from them down. Changes of types keep this. -/

namespace TemplateCheck

theorem Node.declaration_eq_constant {node : Node} {name : String} {e : Option TypeExpr}
    (h : node.declaration = .constant name e) :
    ∃ c, node = .const c ∧ c.name = name ∧ c.typeExpr = e := by
  cases node with
  | const c =>
    obtain ⟨rfl, rfl⟩ := Declaration.constant.inj h
    exact ⟨c, rfl, rfl, rfl⟩
  | _ => cases h

theorem Node.declaration_eq_template {node : Node} {parameters : List (String × Option TypeExpr)}
    (h : node.declaration = .template parameters) :
    ∃ name params, node = .template name params ∧ params.map Param.declared = parameters := by
  cases node with
  | template name params => exact ⟨name, params, rfl, Declaration.template.inj h⟩
  | _ => cases h

inductive Answers {α β : Type} (complete : Prop) (R : α → β → Prop) :
    Except Misuse α → Except Misuse β → Prop
  | ok {a b} (h : R a b) : Answers complete R (.ok a) (.ok b)
  | error (misuse : Misuse) (h : ¬complete) : Answers complete R (.error misuse) (.error misuse)

inductive SameOutline (complete : Prop) (M : NodeId → NodeId → Prop) (t u : TemplateTree)
    (n n' : NodeId) : Prop
  | missing (hcomplete : ¬complete) (heq : n = n') (hslot : t.slot? n = none)
      (hslot' : u.slot? n' = none)
  | there {slot slot' : Slot Node} (hslot : t.slot? n = some slot)
      (hslot' : u.slot? n' = some slot')
      (hdeclaration : slot.payload.declaration = slot'.payload.declaration)
      (hchildren : List.Forall₂ M slot.children slot'.children)

structure Outlines (complete : Prop) (M : NodeId → NodeId → Prop) (t u : TemplateTree) : Prop where
  size : t.size = u.size
  slots : ∀ {n n'}, M n n' → SameOutline complete M t u n n'

namespace Outlines
variable {complete : Prop} {M : NodeId → NodeId → Prop} {t u : TemplateTree} {n n' : NodeId}

theorem refl (t : TemplateTree) : Outlines False Eq t t where
  size := rfl
  slots {n n'} hn := by
    subst hn
    cases hslot : t.slot? n with
    | none => exact .missing not_false rfl hslot hslot
    | some slot =>
      refine .there hslot hslot rfl ?_
      rw [List.forall₂_eq_eq_eq]

theorem withTypes (h : Outlines complete M t u) (changes changes' : TypeChanges) :
    Outlines complete M (t.withTypes changes) (u.withTypes changes') where
  size := by rw [Tree.size_withTypes, Tree.size_withTypes, h.size]
  slots {n n'} hn := by
    cases h.slots hn with
    | missing hcomplete heq hslot hslot' =>
      exact .missing hcomplete heq (by rw [Tree.slot?_withTypes, hslot, Option.map_none])
        (by rw [Tree.slot?_withTypes, hslot', Option.map_none])
    | there hslot hslot' hdeclaration hchildren =>
      refine .there (Tree.slot?_withTypes.trans (congrArg _ hslot))
        (Tree.slot?_withTypes.trans (congrArg _ hslot')) ?_ hchildren
      rw [TypeChange.declaration_applyAll, TypeChange.declaration_applyAll, hdeclaration]

theorem childrenOf (h : Outlines complete M t u) (hn : M n n') :
    List.Forall₂ M (t.childrenOf n) (u.childrenOf n') := by
  rw [Tree.childrenOf, Tree.childrenOf]
  cases h.slots hn with
  | missing _ _ hslot hslot' =>
    rw [hslot, hslot']
    exact .nil
  | there hslot hslot' _ hchildren =>
    rw [hslot, hslot']
    exact hchildren

theorem preorder (h : Outlines complete M t u) (hn : M n n') :
    List.Forall₂ M (t.preorder n) (u.preorder n') := by
  rw [Tree.preorder, Tree.preorder, h.size]
  generalize u.size = depth
  induction depth generalizing n n' with
  | zero => exact .nil
  | succ depth ih => exact .cons hn (List.rel_flatMap (h.childrenOf hn) fun _ _ hm => ih hm)

theorem hasKind (h : Outlines complete M t u) (hn : M n n') (kind : NodeKind) :
    ((t.slot? n).any fun slot => slot.payload.kind == kind) =
      (u.slot? n').any fun slot => slot.payload.kind == kind := by
  cases h.slots hn with
  | missing _ _ hslot hslot' => rw [hslot, hslot']
  | there hslot hslot' hdeclaration _ =>
    rw [hslot, hslot', Option.any_some, Option.any_some, ← Node.kind_declaration, hdeclaration,
      Node.kind_declaration]

theorem ofKind (h : Outlines complete M t u) (hn : M n n') (kind : NodeKind) :
    Answers complete (List.Forall₂ M) (TemplateTree.ofKind t n kind)
      (TemplateTree.ofKind u n' kind) := by
  rw [TemplateTree.ofKind, TemplateTree.ofKind, Tree.matching, Tree.matching, Tree.descendants,
    Tree.descendants, Tree.slot, Tree.slot]
  cases h.slots hn with
  | missing hcomplete heq hslot hslot' =>
    rw [hslot, hslot', heq]
    exact .error _ hcomplete
  | there hslot hslot' =>
    rw [hslot, hslot']
    refine .ok (List.rel_filter (fun m m' hm => ?_) (h.preorder hn))
    exact Bool.eq_iff_iff.1 (h.hasKind hm kind)

end Outlines
end TemplateCheck

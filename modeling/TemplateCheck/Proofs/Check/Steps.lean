import TemplateCheck.Proofs.Check.Changes
import TemplateCheck.Proofs.Running

/-! The steps of the resolution of types. Each of them changes types in a tree as its annotations
resolve. -/

namespace TemplateCheck

abbrev Declared := List (String × Option TypeExpr)

namespace Resolving
variable (registry : Registry)

def resolveOptional : Option TypeExpr → Resolving TypeId
  | some e => resolve registry e
  | none => return .unknown

def resolveEach : Declared → Resolving (List TypeId)
  | [] => return []
  | (_, e) :: rest => do return (← resolveOptional registry e) :: (← resolveEach rest)

end Resolving

def Scope.declare (scope : Scope) : Declared → List TypeId → Scope
  | (name, _) :: rest, t :: types => declare ((name, t) :: scope) rest types
  | _, _ => scope

namespace Tree
variable {P : Type} {t u : Tree P} {n : NodeId}

theorem preorder_congr (hsize : t.size = u.size) (h : ∀ n, t.childrenOf n = u.childrenOf n) :
    t.preorder n = u.preorder n := by
  have hwithin : ∀ depth n, t.preorderWithin depth n = u.preorderWithin depth n := by
    intro depth
    induction depth with
    | zero => exact fun n => rfl
    | succ depth ih =>
      intro n
      rw [preorderWithin, preorderWithin, h, funext ih]
  rw [preorder, preorder, hsize, hwithin]

theorem preorder_withTypes {t : TemplateTree} (changes : TypeChanges) :
    (t.withTypes changes).preorder n = t.preorder n :=
  preorder_congr size_withTypes fun _ => childrenOf_withTypes

theorem update_congr {slot : Slot P} {change change' : Slot P → Slot P}
    (hslot : t.slot? n = some slot) (h : change slot = change' slot) :
    t.update n change = t.update n change' := by
  refine ext_slot? fun m => ?_
  rw [slot?_update, slot?_update]
  refine ite_congr rfl (fun hnm => ?_) fun _ => rfl
  rw [← hnm, hslot, Option.map_some, Option.map_some, h]

end Tree

theorem TemplateTree.ofKind_eq {t : TemplateTree} {f : NodeId} (hf : t.Allocated f)
    (kind : NodeKind) :
    TemplateTree.ofKind t f kind =
      .ok ((t.preorder f).filter fun m => TemplateTree.kindOf t m = some kind) := by
  rw [TemplateTree.ofKind, Tree.matching, Tree.descendants_eq hf]
  refine congrArg Except.ok (List.filter_congr fun m _ => ?_)
  rw [TemplateTree.kindOf, TemplateTree.payloadOf]
  cases t.slot? m with
  | none => rfl
  | some slot =>
    simp only [Option.any_some, Option.map_some, Option.some_inj]
    rfl

namespace Checking
open Resolving
variable {α β : Type} {registry : Registry} {scope : Scope} {n : NodeId} {slot : Slot Node}
  {t : TemplateTree} {s s' : TypeStore} {report report' : Report}

theorem run_query (question : TemplateTree → Except Misuse α) (s : CheckState) :
    query question s = (question s.tree, s) := by
  rw [query, run_bind, run_get]
  dsimp only
  cases question s.tree <;> rfl

theorem run_query_bind {question : TemplateTree → Except Misuse α} {a : α}
    (f : α → Checking β) (h : question t = .ok a) :
    (query question >>= f) ⟨t, s, report⟩ = f a ⟨t, s, report⟩ := by
  rw [run_bind, run_query, h]

theorem run_query_bind_error {question : TemplateTree → Except Misuse α} {misuse : Misuse}
    (f : α → Checking β) (h : question t = .error misuse) :
    (query question >>= f) ⟨t, s, report⟩ = (.error misuse, ⟨t, s, report⟩) := by
  rw [run_bind, run_query, h]

theorem query_payload (hslot : t.slot? n = some slot) :
    query (·.payload n) ⟨t, s, report⟩ = (.ok slot.payload, ⟨t, s, report⟩) := by
  rw [run_query, Tree.payload, Tree.slot, hslot]
  rfl

theorem query_payload_foreign (hslot : t.slot? n = none) :
    query (·.payload n) ⟨t, s, report⟩ = (.error (.foreign n), ⟨t, s, report⟩) := by
  rw [run_query, Tree.payload, Tree.slot, hslot]
  rfl

theorem query_descendants (hslot : t.slot? n = some slot) :
    query (·.descendants n) ⟨t, s, report⟩ = (.ok (t.preorder n), ⟨t, s, report⟩) := by
  rw [run_query, Tree.descendants_eq (Tree.allocated_of_slot? hslot)]

theorem run_modifyPayload (change : TypeChange) {payload : Node → Node}
    (hslot : t.slot? n = some slot) (h : payload slot.payload = change.apply slot.payload) :
    modifyPayload n payload ⟨t, s, report⟩ =
      (.ok (), ⟨t.withTypes [(n, change)], s, report⟩) := by
  have htree : t.update n (fun slot => { slot with payload := payload slot.payload }) =
      t.withTypes [(n, change)] :=
    Tree.update_congr hslot (congrArg (fun payload => { slot with payload }) h)
  rw [← htree]
  rfl

theorem run_resolving {m : Resolving β} {b : β} (hrun : m ⟨s, report⟩ = (b, ⟨s', report'⟩)) :
    resolving m ⟨t, s, report⟩ = (.ok b, ⟨t, s', report'⟩) := by
  rw [resolving, run_bind, run_get]
  dsimp only
  rw [hrun]
  rfl

/-- In the tree `t` the check resolves as `m` does. From what that leads to follow the result and
the changes of the tree. -/
def Resolves (t : TemplateTree) (check : Checking α) (m : Resolving β) (result : β → α)
    (changes : β → TypeChanges) : Prop :=
  ∀ s report b s' report', m ⟨s, report⟩ = (b, ⟨s', report'⟩) →
    check ⟨t, s, report⟩ = (.ok (result b), ⟨t.withTypes (changes b), s', report'⟩)

theorem resolves_const (registry : Registry) (scope : Scope) {c : Const} {e : TypeExpr}
    (hslot : t.slot? n = some slot) (hc : slot.payload = .const c) (he : c.typeExpr = some e) :
    Resolves t (resolveConst registry scope n) (Resolving.resolve registry e)
      (fun type => (c.name, type) :: scope) fun type => [(n, .constant type)] := by
  obtain ⟨name, expr, exported, annotation, known⟩ := c
  obtain rfl : annotation = some e := he
  intro s report type s' report' hrun
  rw [resolveConst, run_bind, query_payload hslot, hc]
  dsimp only
  rw [resolve, run_bind, run_resolving hrun]
  dsimp only
  rw [run_bind, run_modifyPayload (.constant type) hslot (by rw [hc]; rfl)]
  rfl

theorem run_resolveConst_other (hslot : t.slot? n = some slot)
    (h : ∀ name e, slot.payload.declaration ≠ .constant name (some e)) :
    resolveConst registry scope n ⟨t, s, report⟩ = (.ok scope, ⟨t, s, report⟩) := by
  rw [resolveConst, run_bind, query_payload hslot]
  cases hpayload : slot.payload with
  | const c =>
    obtain ⟨name, expr, exported, annotation, known⟩ := c
    cases annotation with
    | none => rfl
    | some e => exact absurd (congrArg Node.declaration hpayload) (h name e)
  | _ => rfl

theorem resolving_bind (m : Resolving α) (f : α → Resolving β) :
    resolving (m >>= f) = (resolving m >>= fun a => resolving (f a) : Checking β) := rfl

theorem resolving_pure (a : α) : (resolving (pure a) : Checking α) = pure a := rfl

theorem resolveParams_eq (params : List Param) :
    resolveParams registry scope params = (do
      let types ← resolving (resolveEach registry (params.map Param.declared))
      return (Param.setTypes types params, scope.declare (params.map Param.declared) types)) := by
  induction params generalizing scope with
  | nil => rfl
  | cons p rest ih =>
    obtain ⟨name, annotation, required, known⟩ := p
    cases annotation with
    | none =>
      simp only [resolveParams, ih, List.map_cons, Param.declared, resolveEach, resolveOptional,
        resolving_bind, resolving_pure, bind_assoc, pure_bind]
      rfl
    | some e =>
      simp only [resolveParams, ih, List.map_cons, Param.declared, resolveEach, resolveOptional,
        resolving_bind, resolving_pure, bind_assoc, pure_bind]
      rfl

theorem run_forM_modifyPayload (scope : Scope) (nodes : List NodeId) :
    (nodes.forM fun m => modifyPayload m (·.assignTypes scope)) ⟨t, s, report⟩ =
      (.ok (), ⟨t.withTypes (nodes.map fun m => (m, .assign scope)), s, report⟩) := by
  induction nodes generalizing t with
  | nil => rfl
  | cons m rest ih =>
    rw [List.forM, run_bind]
    exact ih

def templateChanges (t : TemplateTree) (n : NodeId) (scope : Scope) (parameters : Declared)
    (types : List TypeId) : TypeChanges :=
  (n, .parameters types) ::
    (t.preorder n).map fun m => (m, .assign (scope.declare parameters types))

theorem resolves_template (registry : Registry) (scope : Scope) {name : String}
    {params : List Param} (hslot : t.slot? n = some slot)
    (hpayload : slot.payload = .template name params) :
    Resolves t (resolveTemplate registry scope n)
      (resolveEach registry (params.map Param.declared)) (fun _ => ())
      (templateChanges t n scope (params.map Param.declared)) := by
  intro s report types s' report' hrun
  rw [resolveTemplate, run_bind, query_payload hslot, hpayload]
  dsimp only
  rw [resolveParams_eq, bind_assoc, run_bind, run_resolving hrun]
  dsimp only
  rw [pure_bind, run_bind, run_modifyPayload (.parameters types) hslot
    (by rw [hpayload]; rfl)]
  dsimp only
  rw [run_bind, query_descendants (Tree.slot?_withTypes.trans (congrArg _ hslot)),
    Tree.preorder_withTypes]
  dsimp only
  rw [run_forM_modifyPayload, ← Tree.withTypes_append]
  rfl

theorem run_resolveTemplate_other (hslot : t.slot? n = some slot)
    (h : ∀ parameters, slot.payload.declaration ≠ .template parameters) :
    resolveTemplate registry scope n ⟨t, s, report⟩ = (.ok (), ⟨t, s, report⟩) := by
  rw [resolveTemplate, run_bind, query_payload hslot]
  cases hpayload : slot.payload with
  | template name params => exact absurd (congrArg Node.declaration hpayload) (h _)
  | _ => rfl

end Checking
end TemplateCheck

import Mathlib.Logic.Relator
import TemplateCheck.Proofs.Check.Echoes

/-! Parts of trees that correspond node by node: what stands at corresponding nodes is the same, up
to the references to other nodes, which correspond too. Changes of types at corresponding nodes keep
this, and so do changes apart from both parts. -/

namespace TemplateCheck

namespace Node
variable {M : NodeId → NodeId → Prop} {node node' : Node}

/-- The nodes say the same. Tags are paired with corresponding tags; the velogs that velogs refer to
do not count. -/
inductive Alike (M : NodeId → NodeId → Prop) : Node → Node → Prop
  | openTag {tag : Tag} {pairs : List NodeId} (h : List.Forall₂ M tag.pairs pairs) :
      Alike M (.openTag tag) (.openTag { tag with pairs })
  | closeTag {tag : Tag} {pairs : List NodeId} (h : List.Forall₂ M tag.pairs pairs) :
      Alike M (.closeTag tag) (.closeTag { tag with pairs })
  | velog (v : Velog) (samenessKey : NodeId) : Alike M (.velog v) (.velog { v with samenessKey })
  | same {node : Node} (h : node.references = []) : Alike M node node

theorem references_apply (change : TypeChange) (node : Node) :
    (change.apply node).references = node.references := by
  cases change <;> cases node <;> rfl

namespace Alike

theorem flip (h : Alike M node node') : Alike (Function.swap M) node' node := by
  cases h with
  | @openTag tag pairs h =>
    have hflip : List.Forall₂ (Function.swap M) { tag with pairs }.pairs tag.pairs := h.flip
    exact .openTag hflip
  | @closeTag tag pairs h =>
    have hflip : List.Forall₂ (Function.swap M) { tag with pairs }.pairs tag.pairs := h.flip
    exact .closeTag hflip
  | velog v key => exact .velog { v with samenessKey := key } v.samenessKey
  | same h => exact .same h

theorem apply (h : Alike M node node') (change : TypeChange) :
    Alike M (change.apply node) (change.apply node') := by
  cases h with
  | openTag h => cases change <;> exact .openTag h
  | closeTag h => cases change <;> exact .closeTag h
  | velog v key => cases change <;> exact .velog _ key
  | same h => exact .same ((references_apply change _).trans h)

theorem applyAll (h : Alike M node node') (changes : List TypeChange) :
    Alike M (TypeChange.applyAll changes node) (TypeChange.applyAll changes node') := by
  induction changes generalizing node node' with
  | nil => exact h
  | cons change rest ih => exact ih (h.apply change)

theorem declaration_eq (h : Alike M node node') : node.declaration = node'.declaration := by
  cases h <;> rfl

theorem kind_eq (h : Alike M node node') : node.kind = node'.kind := by
  cases h <;> rfl

theorem pairs (h : Alike M node node') :
    List.Forall₂ M ((node.tag?.map (·.pairs)).getD []) ((node'.tag?.map (·.pairs)).getD []) := by
  cases h with
  | openTag h => exact h
  | closeTag h => exact h
  | velog => exact .nil
  | same h =>
    cases node with
    | openTag tag | closeTag tag =>
      have hpairs : tag.pairs = [] := h
      change List.Forall₂ M tag.pairs tag.pairs
      rw [hpairs]
      exact .nil
    | _ => exact .nil

end Alike
end Node

theorem Tree.Shaped.withTypes {t : TemplateTree} (h : t.Shaped) (changes : TypeChanges) :
    (t.withTypes changes).Shaped :=
  h.congr (Nat.le_of_eq Tree.size_withTypes.symm) (fun _ => Tree.parentOf_withTypes)
    fun _ => Tree.childrenOf_withTypes

structure TwinSlots (M : NodeId → NodeId → Prop) (slot slot' : Slot Node) : Prop where
  location : slot.location = slot'.location
  payload : Node.Alike M slot.payload slot'.payload
  children : List.Forall₂ M slot.children slot'.children

structure Twins (M : NodeId → NodeId → Prop) (top top' : NodeId) (t u : TemplateTree) : Prop where
  shaped : t.Shaped
  shaped' : u.Shaped
  size : t.size = u.size
  tops : M top top'
  unique : Relator.BiUnique M
  slots : ∀ {n n'}, M n n' → ∃ slot slot', t.slot? n = some slot ∧ u.slot? n' = some slot' ∧
    TwinSlots M slot slot'
  parents : ∀ {n n'}, M n n' → n ≠ top → ∃ p p', t.parentOf n = some p ∧ u.parentOf n' = some p' ∧
    M p p'

namespace Twins
variable {M : NodeId → NodeId → Prop} {top top' n n' : NodeId} {t u : TemplateTree}

theorem outlines (h : Twins M top top' t u) : Outlines True M t u where
  size := h.size
  slots hn := by
    obtain ⟨slot, slot', hslot, hslot', hsame⟩ := h.slots hn
    exact .there hslot hslot' hsame.payload.declaration_eq hsame.children

theorem flip (h : Twins M top top' t u) : Twins (Function.swap M) top' top u t where
  shaped := h.shaped'
  shaped' := h.shaped
  size := h.size.symm
  tops := h.tops
  unique := ⟨fun _ _ _ hn hm => h.unique.2 hn hm, fun _ _ _ hn hm => h.unique.1 hn hm⟩
  slots hn := by
    obtain ⟨slot, slot', hslot, hslot', hsame⟩ := h.slots hn
    exact ⟨slot', slot, hslot', hslot, hsame.location.symm, hsame.payload.flip,
      hsame.children.flip⟩
  parents {n n'} hn htop := by
    have hne : n' ≠ top := by
      rintro rfl
      exact htop (h.unique.2 hn h.tops)
    obtain ⟨p, p', hp, hp', hpp'⟩ := h.parents hn hne
    exact ⟨p', p, hp', hp, hpp'⟩

theorem forNode_eq {changes changes' : TypeChanges} (hunique : Relator.BiUnique M)
    (hsame : List.Forall₂ (SameChange M) changes changes') (hn : M n n') :
    changes.forNode n = changes'.forNode n' := by
  induction hsame with
  | nil => rfl
  | @cons c c' _ _ hc _ ih =>
    obtain ⟨m, change⟩ := c
    obtain ⟨m', change'⟩ := c'
    obtain ⟨hm, rfl⟩ : M m m' ∧ change = change' := hc
    have hiff : m = n ↔ m' = n' := Relator.rel_eq hunique hm hn
    rw [TypeChanges.forNode_cons, TypeChanges.forNode_cons, ih, if_congr hiff rfl rfl]

theorem forNode_eq_nil {changes : TypeChanges} (h : ∀ c ∈ changes, c.1 ≠ n) :
    changes.forNode n = [] := by
  rw [TypeChanges.forNode, List.map_eq_nil_iff, List.filter_eq_nil_iff]
  exact fun c hc => by simpa using h c hc

theorem of_forNode (h : Twins M top top' t u) {changes changes' : TypeChanges}
    (hsame : ∀ {n n'}, M n n' → changes.forNode n = changes'.forNode n') :
    Twins M top top' (t.withTypes changes) (u.withTypes changes') where
  shaped := h.shaped.withTypes changes
  shaped' := h.shaped'.withTypes changes'
  size := by rw [Tree.size_withTypes, Tree.size_withTypes, h.size]
  tops := h.tops
  unique := h.unique
  slots hn := by
    obtain ⟨slot, slot', hslot, hslot', htwins⟩ := h.slots hn
    refine ⟨_, _, Tree.slot?_withTypes.trans (congrArg _ hslot),
      Tree.slot?_withTypes.trans (congrArg _ hslot'), htwins.location, ?_, htwins.children⟩
    rw [hsame hn]
    exact htwins.payload.applyAll _
  parents hn hne := by
    rw [Tree.parentOf_withTypes, Tree.parentOf_withTypes]
    exact h.parents hn hne

theorem withTypes (h : Twins M top top' t u) {changes changes' : TypeChanges}
    (hsame : List.Forall₂ (SameChange M) changes changes') :
    Twins M top top' (t.withTypes changes) (u.withTypes changes') :=
  h.of_forNode fun hn => forNode_eq h.unique hsame hn

theorem withTypes_apart (h : Twins M top top' t u) {changes : TypeChanges}
    (hapart : ∀ c ∈ changes, ∀ n, ¬M n c.1) : Twins M top top' t (u.withTypes changes) := by
  have htwins : Twins M top top' (t.withTypes []) (u.withTypes changes) := by
    refine h.of_forNode fun {n n'} hn => ?_
    rw [forNode_eq_nil fun c hc heq => hapart c hc n (heq ▸ hn)]
    rfl
  exact htwins

end Twins
end TemplateCheck

import Mathlib.Logic.Function.Basic
import TemplateCheck.Proofs.Tree.Copying
import TemplateCheck.Template.Node

/-! Sequences of operations on a tree. A misuse ends one operation, not the sequence: what the
operation has done up to then stays. -/

namespace TemplateCheck

inductive Operation (P : Type) where
  | add (location : Location) (payload : P)
  | changePayload (n : NodeId) (change : P → P)
  | addChild (parent child : NodeId)
  | addChildAt (parent : NodeId) (index : Nat) (child : NodeId)
  | addChildren (parent : NodeId) (children : List NodeId)
  | removeChild (parent child : NodeId)
  | removeChildAt (parent : NodeId) (index : Nat)
  | replaceChild (parent old new : NodeId)
  | replaceChildAt (parent : NodeId) (index : Nat) (new : NodeId)
  | clearChildren (parent : NodeId)
  | copySubtree (root : NodeId)
  | copy (number : Nat) (root : NodeId)
  | finish (number : Nat)

/-- A tree, and the notes of the copies that are not finished, by number. -/
structure Workspace (P : Type) where
  tree : Tree P
  copies : Nat → CopyState

namespace Workspace
variable {P α : Type}

def empty : Workspace P := ⟨.empty, fun _ => .empty⟩

def edit (w : Workspace P) (action : Editing P α) : Workspace P :=
  ⟨(action w.tree).2, w.copies⟩

variable [CrossReferring P]

def copy (w : Workspace P) (number : Nat) (root : NodeId) : Workspace P :=
  let (_, tree, notes) := Copying.copy root (w.tree, w.copies number)
  ⟨tree, Function.update w.copies number notes⟩

def finish (w : Workspace P) (number : Nat) : Workspace P :=
  ⟨(w.copies number).finish w.tree, Function.update w.copies number .empty⟩

def perform (w : Workspace P) : Operation P → Workspace P
  | .add location payload => w.edit (Editing.add location payload)
  | .changePayload n change =>
    w.edit (Editing.modifySlot n fun slot => { slot with payload := change slot.payload })
  | .addChild parent child => w.edit (Editing.addChild parent child)
  | .addChildAt parent index child => w.edit (Editing.addChildAt parent index child)
  | .addChildren parent children => w.edit (Editing.addChildren parent children)
  | .removeChild parent child => w.edit (Editing.removeChild parent child)
  | .removeChildAt parent index => w.edit (Editing.removeChildAt parent index)
  | .replaceChild parent old new => w.edit (Editing.replaceChild parent old new)
  | .replaceChildAt parent index new => w.edit (Editing.replaceChildAt parent index new)
  | .clearChildren parent => w.edit (Editing.clearChildren parent)
  | .copySubtree root => w.edit (Editing.copySubtree root)
  | .copy number root => w.copy number root
  | .finish number => w.finish number

/-- What is left after a sequence of operations on an empty tree. -/
def run (operations : List (Operation P)) : Workspace P := operations.foldl perform empty

omit [CrossReferring P] in
theorem shaped_empty : (Tree.empty : Tree P).Shaped where
  allocated p c hc := by
    rw [Tree.childrenOf, Tree.slot?_eq_none (Nat.not_lt_zero _)] at hc
    cases hc
  once p c := by
    rw [Tree.childrenOf, Tree.parentOf, Tree.slot?_eq_none (Nat.not_lt_zero _),
      Tree.slot?_eq_none (Nat.not_lt_zero _)]
    rfl
  grounded n := ⟨1, by rw [Tree.climb, Tree.parentOf, Tree.slot?_eq_none (Nat.not_lt_zero _)]; rfl⟩

variable {w : Workspace P}

theorem shaped_perform (h : w.tree.Shaped) (o : Operation P) : (w.perform o).tree.Shaped := by
  cases o with
  | add location payload => exact Editing.keepsShape_add location payload _ h
  | changePayload n change =>
    let setPayload (slot : Slot P) : Slot P := { slot with payload := change slot.payload }
    exact Editing.keepsShape_modifySlot n setPayload (fun _ => rfl) (fun _ => rfl) _ h
  | addChild parent child => exact Editing.keepsShape_addChild parent child _ h
  | addChildAt parent index child => exact Editing.keepsShape_addChildAt parent index child _ h
  | addChildren parent children => exact Editing.keepsShape_addChildren parent children _ h
  | removeChild parent child => exact Editing.keepsShape_removeChild parent child _ h
  | removeChildAt parent index => exact Editing.keepsShape_removeChildAt parent index _ h
  | replaceChild parent old new => exact Editing.keepsShape_replaceChild parent old new _ h
  | replaceChildAt parent index new => exact Editing.keepsShape_replaceChildAt parent index new _ h
  | clearChildren parent => exact Editing.keepsShape_clearChildren parent _ h
  | copySubtree root => exact Editing.keepsShape_copySubtree root _ h
  | copy number root => exact (Copying.copied_copy h (w.copies number) root).shaped
  | finish number => exact (w.copies number).shaped_finish h

theorem shaped_foldl (h : w.tree.Shaped) (operations : List (Operation P)) :
    (operations.foldl perform w).tree.Shaped := by
  induction operations generalizing w with
  | nil => exact h
  | cons o operations ih => exact ih (shaped_perform h o)

theorem shaped_run (operations : List (Operation P)) : (run operations).tree.Shaped :=
  shaped_foldl shaped_empty operations

/-- Children are nodes of the tree, a node is listed once by its parent and by no other node, and
parent links end. -/
theorem links_run (operations : List (Operation P)) :
    (∀ p c, c ∈ (run operations).tree.childrenOf p → (run operations).tree.Allocated c) ∧
      (∀ p c, ((run operations).tree.childrenOf p).count c =
        if (run operations).tree.parentOf c = some p then 1 else 0) ∧
      ∀ n, ∃ k, (run operations).tree.climb k n = none :=
  ⟨(shaped_run operations).allocated, (shaped_run operations).once,
    (shaped_run operations).grounded⟩

def sample : List (Operation Node) :=
  [.add .unknown (.rawText "a"), .add .unknown (.rawText "b"), .add .unknown (.rawText "c"),
    .addChild ⟨0⟩ ⟨0⟩, .addChildren ⟨0⟩ [⟨1⟩, ⟨2⟩], .addChild ⟨1⟩ ⟨2⟩, .addChild ⟨2⟩ ⟨0⟩,
    .copySubtree ⟨0⟩, .copy 0 ⟨0⟩, .copy 0 ⟨1⟩, .replaceChild ⟨0⟩ ⟨1⟩ ⟨3⟩, .finish 0]

example : (run sample).tree.slots.toList.map (fun slot => (slot.parent, slot.children)) =
    [(none, [⟨3⟩, ⟨2⟩]), (none, []), (some ⟨0⟩, []), (some ⟨0⟩, [⟨4⟩, ⟨5⟩]), (some ⟨3⟩, []),
      (some ⟨3⟩, []), (none, [⟨7⟩, ⟨8⟩]), (some ⟨6⟩, []), (some ⟨6⟩, []), (none, [])] := by decide

end Workspace
end TemplateCheck

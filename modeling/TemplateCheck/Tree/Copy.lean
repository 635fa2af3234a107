import TemplateCheck.Tree.Edit

/-!
Copying parts of a tree. First the new nodes are built, and it is noted which node is a copy of
which, and where a payload refers to another node. When all parts are built, the references to
nodes that have copies are turned to the copies; other references stay.
-/

namespace TemplateCheck

class CrossReferring (P : Type) where
  /-- The references in their order. -/
  references : P → List NodeId
  /-- Replaces the reference at an index. -/
  redirect : Nat → NodeId → P → P

/-- A reference of a copy that may have to be turned: the owner is the copy, and the target is
still that of the node it was made from. -/
structure PendingReference where
  target : NodeId
  owner : NodeId
  index : Nat
deriving DecidableEq, Repr

structure CopyState where
  /-- Copied nodes with their copies. -/
  copies : List (NodeId × NodeId)
  pending : List PendingReference
deriving Repr

namespace CopyState

def empty : CopyState := ⟨[], []⟩

def copyOf? (c : CopyState) (n : NodeId) : Option NodeId := c.copies.lookup n

def count (c : CopyState) : Nat := c.copies.length

def record (c : CopyState) (old new : NodeId) : CopyState :=
  { c with copies := (old, new) :: c.copies.filter (·.1 != old) }

def await (c : CopyState) (owner : NodeId) (references : List NodeId) : CopyState :=
  { c with pending :=
      c.pending ++ references.zipIdx.map fun (target, index) => ⟨target, owner, index⟩ }

end CopyState

abbrev Copying (P : Type) := ExceptT Misuse (StateM (Tree P × CopyState))

namespace Copying

variable {P α : Type}

def edit (action : Editing P α) : Copying P α := fun (t, c) =>
  let (result, t) := action t
  (result, t, c)

def note (change : CopyState → CopyState) : Copying P Unit :=
  modifyThe (Tree P × CopyState) fun (t, c) => (t, change c)

def attach (parent child : NodeId) : Editing P Unit := do
  let children ← Editing.query (·.children parent)
  Editing.setChildren parent (children ++ [child])
  Editing.setParent child (some parent)

variable [CrossReferring P]

def copyNode (old : NodeId) : Copying P NodeId := do
  let slot ← edit (Editing.query (·.slot old))
  let new := (← getThe (Tree P × CopyState)).1.next
  note (·.await new (CrossReferring.references slot.payload))
  let _ ← edit (Editing.add slot.location slot.payload)
  let known := ((← getThe (Tree P × CopyState)).2.copyOf? old).isSome
  note (·.record old new)
  if known then throw (.copiedTwice old)
  return new

def copyWithin : Nat → NodeId → Copying P NodeId
  | 0, old => throw (.foreign old)
  | depth + 1, old => do
    let new ← copyNode old
    let children ← edit (Editing.query (·.children old))
    children.forM fun child => do
      let copied ← copyWithin depth child
      edit (attach new copied)
    return new

/-- Copies a node with all below it; the copy is not yet part of the tree. -/
def copy (root : NodeId) : Copying P NodeId := do
  copyWithin ((← getThe (Tree P × CopyState)).1.size + 1) root

end Copying

namespace CopyState

variable {P : Type} [CrossReferring P]

def redirectReference (c : CopyState) (t : Tree P) (r : PendingReference) : Tree P :=
  match c.copyOf? r.target with
  | some new =>
    t.update r.owner fun slot =>
      { slot with payload := CrossReferring.redirect r.index new slot.payload }
  | none => t

/-- Turns the references to nodes with copies. -/
def finish (c : CopyState) (t : Tree P) : Tree P := c.pending.foldl c.redirectReference t

def redirected (c : CopyState) : Nat :=
  (c.pending.filter fun r => (c.copyOf? r.target).isSome).length

end CopyState

/-- Copies a node with all below it, with its inner references turned to the copies. -/
def Editing.copySubtree {P : Type} [CrossReferring P] (root : NodeId) : Editing P NodeId := fun t =>
  match Copying.copy root (t, CopyState.empty) with
  | (.ok new, t, c) => (.ok new, c.finish t)
  | (.error misuse, t, _) => (.error misuse, t)

end TemplateCheck

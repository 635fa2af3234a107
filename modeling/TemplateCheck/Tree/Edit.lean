import TemplateCheck.Tree.Basic

/-!
Changing the shape of a tree. Each operation checks its arguments first; a misuse ends it, and what
has been changed up to then stays.
-/

namespace TemplateCheck

abbrev Editing (P : Type) := ExceptT Misuse (StateM (Tree P))

namespace Editing

variable {P α : Type}

def query (question : Tree P → Except Misuse α) : Editing P α := do
  match question (← getThe (Tree P)) with
  | .ok answer => return answer
  | .error misuse => throw misuse

def modifySlot (n : NodeId) (change : Slot P → Slot P) : Editing P Unit := do
  let _ ← query (·.slot n)
  modifyThe (Tree P) (·.update n change)

def setParent (n : NodeId) (parent : Option NodeId) : Editing P Unit :=
  modifySlot n fun slot => { slot with parent }

def setChildren (n : NodeId) (children : List NodeId) : Editing P Unit :=
  modifySlot n fun slot => { slot with children }

def add (location : Location) (payload : P) : Editing P NodeId := do
  let t ← getThe (Tree P)
  set (t.add location payload)
  return t.next

def checkAttachable (parent child : NodeId) : Editing P Unit := do
  match ← query (·.parent child) with
  | some existing => throw (.alreadyAttached child existing)
  | none =>
    if parent = child then throw (.cycle child parent)
    let ancestors ← query (·.ancestors parent)
    if child ∈ ancestors then throw (.cycle child parent)

def addChildAt (parent : NodeId) (index : Nat) (child : NodeId) : Editing P Unit := do
  checkAttachable parent child
  let children ← query (·.children parent)
  if children.length < index then throw (.insertionIndex index parent children.length)
  setChildren parent (children.insertIdx index child)
  setParent child (some parent)

def addChild (parent child : NodeId) : Editing P Unit := do
  addChildAt parent (← query (·.children parent)).length child

/-- Adds one child after the other; those before a misuse stay. -/
def addChildren (parent : NodeId) : List NodeId → Editing P Unit
  | [] => return ()
  | child :: rest => do
    addChild parent child
    addChildren parent rest

def removeChildAt (parent : NodeId) (index : Nat) : Editing P NodeId := do
  let child ← query (·.child parent index)
  let children ← query (·.children parent)
  setChildren parent (children.eraseIdx index)
  setParent child none
  return child

def indexOfChild (parent child : NodeId) : Editing P Nat := do
  match ← query (·.childIndex parent child) with
  | some index => return index
  | none => throw (.notChild child parent)

def removeChild (parent child : NodeId) : Editing P Unit := do
  let _ ← removeChildAt parent (← indexOfChild parent child)

/-- Puts another child in the place of one, which is returned. A child may replace itself. -/
def replaceChildAt (parent : NodeId) (index : Nat) (new : NodeId) : Editing P NodeId := do
  let old ← query (·.child parent index)
  if old = new then return old
  checkAttachable parent new
  let children ← query (·.children parent)
  setChildren parent (children.set index new)
  setParent old none
  setParent new (some parent)
  return old

def replaceChild (parent old new : NodeId) : Editing P Unit := do
  let _ ← replaceChildAt parent (← indexOfChild parent old) new

def orphanAll : List NodeId → Editing P Unit
  | [] => return ()
  | child :: rest => do
    setParent child none
    orphanAll rest

def clearChildren (parent : NodeId) : Editing P Unit := do
  let children ← query (·.children parent)
  setChildren parent []
  orphanAll children

end Editing
end TemplateCheck

import TemplateCheck.Location

/-!
Trees of nodes that are known by numbers. Numbers are given out in ascending order and never again,
so a node keeps its number when it is taken out of the tree. Each node lists its children and knows
its parent.
-/

namespace TemplateCheck

structure NodeId where
  index : Nat
deriving DecidableEq, Hashable, Repr

def NodeId.text (n : NodeId) : String := "#" ++ toString n.index

/-- Uses of a tree that are mistakes of the program, not of a template. -/
inductive Misuse where
  | foreign (node : NodeId)
  | childIndex (index : Nat) (parent : NodeId) (count : Nat)
  | insertionIndex (index : Nat) (parent : NodeId) (count : Nat)
  | notChild (node parent : NodeId)
  | alreadyAttached (node parent : NodeId)
  | cycle (node parent : NodeId)
  | copiedTwice (node : NodeId)
  /-- The node is not of the kind that is asked for. -/
  | notA (node : NodeId) (wanted : String)
  | isInstead (node : NodeId) (kind wanted : String)
  | badSamenessKey (node key : NodeId)
deriving DecidableEq, Repr

def Misuse.message : Misuse → String
  | foreign node => "node " ++ node.text ++ " does not belong to this tree"
  | childIndex index parent count =>
    "child index " ++ toString index ++ " out of range for node " ++ parent.text ++ " with " ++
      toString count ++ " children"
  | insertionIndex index parent count =>
    "insertion index " ++ toString index ++ " out of range for node " ++ parent.text ++ " with " ++
      toString count ++ " children"
  | notChild node parent => "node " ++ node.text ++ " is not a child of " ++ parent.text
  | alreadyAttached node parent =>
    "node " ++ node.text ++ " already has parent " ++ parent.text ++
      "; remove it before inserting"
  | cycle node parent =>
    "inserting " ++ node.text ++ " under " ++ parent.text ++ " would create a cycle"
  | copiedTwice node => "node " ++ node.text ++ " copied twice within one copy operation"
  | notA node wanted => "node " ++ node.text ++ " is not " ++ wanted
  | isInstead node kind wanted =>
    "node " ++ node.text ++ " is a " ++ kind ++ ", not " ++ wanted
  | badSamenessKey node key =>
    "sameness key of " ++ node.text ++ " refers to " ++ key.text ++ ", which is not a velog"

structure Slot (P : Type) where
  location : Location
  parent : Option NodeId
  children : List NodeId
  payload : P

/-- All nodes ever made, by number. -/
structure Tree (P : Type) where
  slots : Array (Slot P)

namespace Tree

variable {P : Type}

def empty : Tree P := ⟨#[]⟩

def size (t : Tree P) : Nat := t.slots.size

def next (t : Tree P) : NodeId := ⟨t.size⟩

def slot? (t : Tree P) (n : NodeId) : Option (Slot P) := t.slots[n.index]?

def slot (t : Tree P) (n : NodeId) : Except Misuse (Slot P) :=
  match t.slot? n with
  | some slot => .ok slot
  | none => .error (.foreign n)

def add (t : Tree P) (location : Location) (payload : P) : Tree P :=
  ⟨t.slots.push ⟨location, none, [], payload⟩⟩

def update (t : Tree P) (n : NodeId) (change : Slot P → Slot P) : Tree P :=
  ⟨t.slots.modify n.index change⟩

/-- A foreign node has no parent here. -/
def parentOf (t : Tree P) (n : NodeId) : Option NodeId := (t.slot? n).bind (·.parent)

def childrenOf (t : Tree P) (n : NodeId) : List NodeId :=
  match t.slot? n with
  | some slot => slot.children
  | none => []

def ancestorsFrom (t : Tree P) : Nat → Option NodeId → List NodeId
  | _, none => []
  | 0, _ => []
  | fuel + 1, some n => n :: t.ancestorsFrom fuel (t.parentOf n)

def ancestorsOf (t : Tree P) (n : NodeId) : List NodeId := t.ancestorsFrom t.size (t.parentOf n)

def preorderWithin (t : Tree P) : Nat → NodeId → List NodeId
  | 0, _ => []
  | depth + 1, n => n :: (t.childrenOf n).flatMap (t.preorderWithin depth)

/-- A node and all nodes below it, parents before children and in the order of the children. -/
def preorder (t : Tree P) (n : NodeId) : List NodeId := t.preorderWithin t.size n

section Queries

variable (t : Tree P) (n : NodeId)

def payload : Except Misuse P := return (← t.slot n).payload

def location : Except Misuse Location := return (← t.slot n).location

def parent : Except Misuse (Option NodeId) := return (← t.slot n).parent

def children : Except Misuse (List NodeId) := return (← t.slot n).children

def child (index : Nat) : Except Misuse NodeId := do
  let children ← t.children n
  match children[index]? with
  | some child => return child
  | none => throw (.childIndex index n children.length)

def childIndex (child : NodeId) : Except Misuse (Option Nat) :=
  return (← t.children n).idxOf? child

def ancestors : Except Misuse (List NodeId) := do
  let _ ← t.slot n
  return t.ancestorsOf n

def descendants : Except Misuse (List NodeId) := do
  let _ ← t.slot n
  return t.preorder n

def nextSibling : Except Misuse (Option NodeId) := do
  match ← t.parent n with
  | none => return none
  | some parent =>
    let siblings ← t.children parent
    match siblings.idxOf? n with
    | none => return none
    | some index => return siblings[index + 1]?

def matching (test : P → Bool) : Except Misuse (List NodeId) := do
  return (← t.descendants n).filter fun m => (t.slot? m).any fun slot => test slot.payload

end Queries

/-- A walk down a tree: the nodes passed so far, and the stack of those to be visited, the next one
first. -/
structure Walk where
  passed : List NodeId
  stack : List NodeId
deriving DecidableEq, Repr

namespace Walk

def start (n : NodeId) : Walk := ⟨[], [n]⟩

def step (t : Tree P) : Walk → Except Misuse Walk
  | ⟨passed, []⟩ => return ⟨passed, []⟩
  | ⟨passed, n :: stack⟩ => do
    let children ← t.children n
    return ⟨passed ++ [n], children.reverse.foldl (fun stack child => child :: stack) stack⟩

def steps (t : Tree P) : Nat → Walk → Except Misuse Walk
  | 0, w => return w
  | count + 1, w => do steps t count (← w.step t)

end Walk

end Tree
end TemplateCheck

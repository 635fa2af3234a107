/-!
Sorting by insertion, for short lists. Equal items keep their order; in a sorted set each item
occurs once.
-/

namespace TemplateCheck.Order

variable {α : Type}

def insertBy (le : α → α → Bool) (a : α) : List α → List α
  | [] => [a]
  | b :: rest => if le a b then a :: b :: rest else b :: insertBy le a rest

def sortBy (le : α → α → Bool) : List α → List α
  | [] => []
  | a :: rest => insertBy le a (sortBy le rest)

/-- Texts in the order of their characters' code points, which is also that of their UTF-8 bytes. -/
def sortTexts (texts : List String) : List String := sortBy (fun a b => decide (a ≤ b)) texts

def insertKey (key : α → Nat) (a : α) : List α → List α
  | [] => [a]
  | b :: rest =>
    if key a < key b then a :: b :: rest
    else if key a = key b then b :: rest
    else b :: insertKey key a rest

def ascending (key : α → Nat) : List α → List α
  | [] => []
  | a :: rest => insertKey key a (ascending key rest)

theorem mem_insertBy {le : α → α → Bool} {a x : α} {l : List α} :
    x ∈ insertBy le a l ↔ x = a ∨ x ∈ l := by
  induction l with
  | nil => simp [insertBy]
  | cons b rest ih =>
    simp only [insertBy]
    split
    · simp
    · simp only [List.mem_cons, ih]
      exact or_left_comm

theorem mem_sortBy {le : α → α → Bool} {x : α} {l : List α} : x ∈ sortBy le l ↔ x ∈ l := by
  induction l with
  | nil => simp [sortBy]
  | cons a rest ih => simp [sortBy, mem_insertBy, ih]

end TemplateCheck.Order

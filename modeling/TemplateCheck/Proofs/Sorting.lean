import Mathlib.Data.List.Sort
import Mathlib.Data.String.Basic
import TemplateCheck.Order.Sort

/-! Sorted lists are determined by their members. -/

namespace TemplateCheck.Order
variable {α : Type} {l m : List α}

section Keys
variable {key : α → Nat}

theorem mem_insertKey (hkey : Function.Injective key) {a x : α} :
    x ∈ insertKey key a l ↔ x = a ∨ x ∈ l := by
  induction l with
  | nil => simp [insertKey]
  | cons b rest ih =>
    rw [insertKey]
    split
    · simp
    · split
      next h => simp [hkey h]
      next => rw [List.mem_cons, ih, List.mem_cons, or_left_comm]

theorem mem_ascending (hkey : Function.Injective key) {x : α} : x ∈ ascending key l ↔ x ∈ l := by
  induction l with
  | nil => rfl
  | cons a rest ih => rw [ascending, mem_insertKey hkey, ih, List.mem_cons]

def Ascends (key : α → Nat) (l : List α) : Prop := l.Pairwise fun a b => key a < key b

theorem Ascends.nodup (h : Ascends key l) : l.Nodup :=
  h.imp fun hlt heq => Nat.ne_of_lt hlt (congrArg key heq)

theorem Ascends.insertKey (hkey : Function.Injective key) (h : Ascends key l) (a : α) :
    Ascends key (insertKey key a l) := by
  induction l with
  | nil => exact List.pairwise_singleton ..
  | cons b rest ih =>
    obtain ⟨hb, hrest⟩ := List.pairwise_cons.1 h
    rw [Order.insertKey]
    split
    next hlt =>
      refine List.pairwise_cons.2 ⟨fun c hc => ?_, h⟩
      rcases List.mem_cons.1 hc with rfl | hc
      · exact hlt
      · exact hlt.trans (hb c hc)
    next hlt =>
      split
      next => exact h
      next hne =>
        refine List.pairwise_cons.2 ⟨fun c hc => ?_, ih hrest⟩
        rcases (mem_insertKey hkey).1 hc with rfl | hc
        · omega
        · exact hb c hc

theorem ascends_ascending (hkey : Function.Injective key) (l : List α) :
    Ascends key (ascending key l) := by
  induction l with
  | nil => exact List.Pairwise.nil
  | cons a rest ih => exact ih.insertKey hkey a

theorem Ascends.eq_of_mem_iff (hl : Ascends key l) (hm : Ascends key m)
    (h : ∀ a, a ∈ l ↔ a ∈ m) : l = m := by
  have : Std.Irrefl fun a b : α => key a < key b := ⟨fun a => Nat.lt_irrefl _⟩
  have : Std.Asymm fun a b : α => key a < key b := ⟨fun a b => Nat.lt_asymm⟩
  exact List.Pairwise.eq_of_mem_iff hl hm (fun {a} => h a)

end Keys

theorem insertBy_perm (le : α → α → Bool) (a : α) (l : List α) :
    (insertBy le a l).Perm (a :: l) := by
  induction l with
  | nil => exact .refl _
  | cons b rest ih =>
    rw [insertBy]
    split
    · exact .refl _
    · exact (ih.cons b).trans (.swap a b rest)

theorem sortBy_perm (le : α → α → Bool) (l : List α) : (sortBy le l).Perm l := by
  induction l with
  | nil => exact .refl _
  | cons a rest ih => exact (insertBy_perm le a _).trans (ih.cons a)

theorem insertBy_map {β : Type} (f : α → β) (le : β → β → Bool) (a : α) (l : List α) :
    insertBy le (f a) (l.map f) = (insertBy (fun a b => le (f a) (f b)) a l).map f := by
  induction l with
  | nil => rfl
  | cons b rest ih =>
    rw [List.map_cons, insertBy, insertBy, ih]
    split <;> rfl

theorem sortBy_map {β : Type} (f : α → β) (le : β → β → Bool) (l : List α) :
    sortBy le (l.map f) = (sortBy (fun a b => le (f a) (f b)) l).map f := by
  induction l with
  | nil => rfl
  | cons a rest ih => rw [List.map_cons, sortBy, sortBy, ih, insertBy_map]

section Finding
variable {le : α → α → Bool} {p : α → Bool} {a : α}

theorem find?_insertBy (h : ∀ b, p a → p b → le a b) :
    (insertBy le a l).find? p = (a :: l).find? p := by
  induction l with
  | nil => rfl
  | cons b rest ih =>
    rw [insertBy]
    split
    next => rfl
    next hle =>
      rw [List.find?_cons, ih, List.find?_cons, List.find?_cons, List.find?_cons]
      cases ha : p a with
      | false => rfl
      | true =>
        have hb : p b = false := Bool.eq_false_iff.2 fun hb => hle (h b ha hb)
        rw [hb]

theorem find?_sortBy (h : ∀ a b, p a → p b → le a b) : (sortBy le l).find? p = l.find? p := by
  induction l with
  | nil => rfl
  | cons a rest ih => rw [sortBy, find?_insertBy (h a), List.find?_cons, List.find?_cons, ih]

end Finding

section Names
variable {name : α → String}

theorem sortBy_name_sorted (l : List α) :
    (sortBy (fun a b => decide (name a ≤ name b)) l).Pairwise fun a b => name a ≤ name b := by
  induction l with
  | nil => exact List.Pairwise.nil
  | cons a rest ih =>
    rw [sortBy]
    revert ih
    generalize sortBy (fun a b => decide (name a ≤ name b)) rest = sorted
    intro ih
    induction sorted with
    | nil => exact List.pairwise_singleton ..
    | cons b sorted ihs =>
      obtain ⟨hb, hsorted⟩ := List.pairwise_cons.1 ih
      rw [insertBy]
      split
      next hle =>
        have hle : name a ≤ name b := of_decide_eq_true hle
        refine List.pairwise_cons.2 ⟨fun c hc => ?_, ih⟩
        rcases List.mem_cons.1 hc with rfl | hc
        · exact hle
        · exact hle.trans (hb c hc)
      next hle =>
        refine List.pairwise_cons.2 ⟨fun c hc => ?_, ihs hsorted⟩
        rcases mem_insertBy.1 hc with rfl | hc
        · exact (le_total (name c) (name b)).resolve_left (by simpa using hle)
        · exact hb c hc

theorem sortBy_name_congr (hl : (l.map name).Nodup) (h : l.Perm m) :
    sortBy (fun a b => decide (name a ≤ name b)) l =
      sortBy (fun a b => decide (name a ≤ name b)) m := by
  have hperm {le : α → α → Bool} : (sortBy le l).Perm (sortBy le m) :=
    ((sortBy_perm le l).trans h).trans (sortBy_perm le m).symm
  refine hperm.eq_of_pairwise (fun a b ha hb hab hba => ?_) (sortBy_name_sorted l)
    (sortBy_name_sorted m)
  have hmem := h.mem_iff.2 (mem_sortBy.1 hb)
  exact List.inj_on_of_nodup_map hl (mem_sortBy.1 ha) hmem (le_antisymm hab hba)

end Names

end TemplateCheck.Order

import Mathlib.Data.List.Nodup
import Mathlib.Data.List.Perm.Subperm
import Mathlib.Logic.Relation
import TemplateCheck.Tree.Basic

/-! The shape of trees. The list of children and the parent link of a node say the same, and parent
links lead to a root. The nodes above a node are then told by one equation, whatever the bound on
the walk that collects them. -/

namespace TemplateCheck

theorem NodeId.index_injective : Function.Injective NodeId.index := by
  intro n m h
  cases n
  cases m
  exact congrArg NodeId.mk h

namespace Tree
variable {P : Type} {t t' : Tree P} {n m p c : NodeId}

def Allocated (t : Tree P) (n : NodeId) : Prop := n.index < t.size

instance : Decidable (t.Allocated n) := inferInstanceAs (Decidable (_ < _))

/-- The node so many parent links above a node. -/
def climb (t : Tree P) : Nat → NodeId → Option NodeId
  | 0, n => some n
  | k + 1, n => (t.parentOf n).bind (t.climb k)

structure Shaped (t : Tree P) : Prop where
  allocated : ∀ p c, c ∈ t.childrenOf p → t.Allocated c
  once : ∀ p c, (t.childrenOf p).count c = if t.parentOf c = some p then 1 else 0
  grounded : ∀ n, ∃ k, t.climb k n = none

def Parent (t : Tree P) (p c : NodeId) : Prop := t.parentOf c = some p

theorem acc_of_climb {k : Nat} (h : t.climb k n = none) : Acc t.Parent n := by
  induction k generalizing n with
  | zero => cases h
  | succ k ih =>
    refine ⟨n, fun p hp => ih ?_⟩
    rw [climb, show t.parentOf n = some p from hp] at h
    exact h

theorem exists_climb_of_acc (h : Acc t.Parent n) : ∃ k, t.climb k n = none := by
  induction h with
  | intro n _ ih =>
    cases hn : t.parentOf n with
    | none => exact ⟨1, by rw [climb, hn, Option.bind_none]⟩
    | some p =>
      obtain ⟨k, hk⟩ := ih p hn
      exact ⟨k + 1, by rw [climb, hn, Option.bind_some, hk]⟩

theorem slot?_eq_none (h : ¬ t.Allocated n) : t.slot? n = none :=
  Array.getElem?_eq_none (Nat.le_of_not_lt h)

theorem slot?_eq_some (h : t.Allocated n) : ∃ slot, t.slot? n = some slot :=
  ⟨_, Array.getElem?_eq_getElem h⟩

theorem allocated_of_slot? {slot : Slot P} (h : t.slot? n = some slot) : t.Allocated n :=
  (Array.getElem?_eq_some_iff.1 h).1

theorem allocated_of_parentOf (h : t.parentOf c = some p) : t.Allocated c := by
  by_contra hc
  rw [parentOf, slot?_eq_none hc] at h
  cases h

theorem allocated_of_childrenOf (h : c ∈ t.childrenOf p) : t.Allocated p := by
  by_contra hp
  rw [childrenOf, slot?_eq_none hp] at h
  cases h

namespace Shaped

theorem acc (h : t.Shaped) (n : NodeId) : Acc t.Parent n := by
  obtain ⟨k, hk⟩ := h.grounded n
  exact acc_of_climb hk

theorem mem_childrenOf (h : t.Shaped) : c ∈ t.childrenOf p ↔ t.parentOf c = some p := by
  rw [← List.count_pos_iff, h.once p c]
  split <;> simp_all

theorem nodup_childrenOf (h : t.Shaped) (p : NodeId) : (t.childrenOf p).Nodup := by
  rw [List.nodup_iff_count_le_one]
  intro c
  rw [h.once p c]
  split <;> omega

theorem allocated_parent (h : t.Shaped) (hc : t.parentOf c = some p) : t.Allocated p :=
  allocated_of_childrenOf (h.mem_childrenOf.2 hc)

theorem congr (h : t.Shaped) (hsize : t.size ≤ t'.size)
    (hparent : ∀ n, t'.parentOf n = t.parentOf n)
    (hchildren : ∀ n, t'.childrenOf n = t.childrenOf n) : t'.Shaped where
  allocated p c hc := by
    rw [hchildren] at hc
    exact Nat.lt_of_lt_of_le (h.allocated p c hc) hsize
  once p c := by rw [hchildren, hparent, h.once]
  grounded n := by
    have hclimb (k : Nat) (n : NodeId) : t'.climb k n = t.climb k n := by
      induction k generalizing n with
      | zero => rfl
      | succ k ih =>
        rw [climb, climb, hparent]
        congr 1
        funext p
        exact ih p
    obtain ⟨k, hk⟩ := h.grounded n
    exact ⟨k, by rw [hclimb, hk]⟩

end Shaped

section Ancestors

/-- The list consists of all nodes above a node, the nearest first. -/
def IsLine (t : Tree P) : NodeId → List NodeId → Prop
  | n, [] => t.parentOf n = none
  | n, p :: line => t.parentOf n = some p ∧ t.IsLine p line

theorem IsLine.eq {k l : List NodeId} (hk : t.IsLine n k) (hl : t.IsLine n l) : k = l := by
  induction k generalizing n l with
  | nil =>
    cases l with
    | nil => rfl
    | cons p l => cases hk.symm.trans hl.1
  | cons p k ih =>
    cases l with
    | nil => cases hl.symm.trans hk.1
    | cons q l =>
      obtain rfl := Option.some.inj (hk.1.symm.trans hl.1)
      rw [ih hk.2 hl.2]

theorem IsLine.suffix {l : List NodeId} (h : t.IsLine n l) (hm : m ∈ l) :
    ∃ k, t.IsLine m k ∧ k.length < l.length := by
  induction l generalizing n with
  | nil => cases hm
  | cons p l ih =>
    rcases List.mem_cons.1 hm with rfl | hm
    · exact ⟨l, h.2, Nat.lt_succ_self _⟩
    · obtain ⟨k, hk, hlt⟩ := ih h.2 hm
      exact ⟨k, hk, Nat.lt_succ_of_lt hlt⟩

theorem IsLine.nodup {l : List NodeId} (h : t.IsLine n l) : (n :: l).Nodup := by
  induction l generalizing n with
  | nil => exact List.nodup_singleton n
  | cons p l ih =>
    refine List.nodup_cons.2 ⟨fun hn => ?_, ih h.2⟩
    -- A node above itself would have a line shorter than its own.
    obtain ⟨k, hk, hlt⟩ := h.suffix hn
    rw [hk.eq h] at hlt
    exact Nat.lt_irrefl _ hlt

theorem IsLine.ancestorsFrom {l : List NodeId} (h : t.IsLine n l) {fuel : Nat}
    (hfuel : l.length ≤ fuel) : t.ancestorsFrom fuel (t.parentOf n) = l := by
  induction l generalizing n fuel with
  | nil =>
    rw [show t.parentOf n = none from h]
    cases fuel <;> rfl
  | cons p l ih =>
    obtain ⟨fuel, rfl⟩ := Nat.exists_eq_add_of_le' (Nat.le_trans (Nat.succ_pos _) hfuel)
    rw [h.1, Tree.ancestorsFrom, ih h.2 (Nat.le_of_succ_le_succ hfuel)]

theorem length_le_size {l : List NodeId} (hnodup : l.Nodup) (h : ∀ n ∈ l, t.Allocated n) :
    l.length ≤ t.size := by
  have hsub : l.map NodeId.index ⊆ List.range t.size := by
    intro i hi
    obtain ⟨n, hn, rfl⟩ := List.mem_map.1 hi
    exact List.mem_range.2 (h n hn)
  have hle := (List.subperm_of_subset (hnodup.map NodeId.index_injective) hsub).length_le
  rwa [List.length_map, List.length_range] at hle

namespace Shaped

theorem exists_isLine (h : t.Shaped) (n : NodeId) : ∃ l, t.IsLine n l := by
  induction h.acc n with
  | intro n _ ih =>
    cases hn : t.parentOf n with
    | none => exact ⟨[], hn⟩
    | some p =>
      obtain ⟨l, hl⟩ := ih p hn
      exact ⟨p :: l, hn, hl⟩

theorem allocated_isLine (h : t.Shaped) {l : List NodeId} (hl : t.IsLine n l) (hm : m ∈ l) :
    t.Allocated m := by
  induction l generalizing n with
  | nil => cases hm
  | cons p l ih =>
    rcases List.mem_cons.1 hm with rfl | hm
    · exact h.allocated_parent hl.1
    · exact ih hl.2 hm

theorem isLine_ancestorsOf (h : t.Shaped) (n : NodeId) : t.IsLine n (t.ancestorsOf n) := by
  obtain ⟨l, hl⟩ := h.exists_isLine n
  have hnodup := (List.nodup_cons.1 hl.nodup).2
  have hlength := length_le_size hnodup fun m hm => h.allocated_isLine hl hm
  rwa [ancestorsOf, hl.ancestorsFrom hlength]

theorem ancestorsOf_root (h : t.Shaped) (hn : t.parentOf n = none) : t.ancestorsOf n = [] :=
  (h.isLine_ancestorsOf n).eq hn

theorem ancestorsOf_child (h : t.Shaped) (hn : t.parentOf n = some p) :
    t.ancestorsOf n = p :: t.ancestorsOf p :=
  (h.isLine_ancestorsOf n).eq ⟨hn, h.isLine_ancestorsOf p⟩

theorem nodup_ancestorsOf (h : t.Shaped) (n : NodeId) : (n :: t.ancestorsOf n).Nodup :=
  (h.isLine_ancestorsOf n).nodup

theorem allocated_ancestorsOf (h : t.Shaped) (hm : m ∈ t.ancestorsOf n) : t.Allocated m :=
  h.allocated_isLine (h.isLine_ancestorsOf n) hm

theorem mem_self_ancestorsOf (h : t.Shaped) :
    m ∈ n :: t.ancestorsOf n ↔ Relation.ReflTransGen t.Parent m n := by
  induction h.acc n with
  | intro n _ ih =>
    rw [List.mem_cons, Relation.ReflTransGen.cases_tail_iff, eq_comm (a := n)]
    apply or_congr Iff.rfl
    cases hn : t.parentOf n with
    | none =>
      rw [h.ancestorsOf_root hn]
      constructor
      · intro hm
        cases hm
      · rintro ⟨p, -, hp⟩
        cases hn.symm.trans hp
    | some p =>
      rw [h.ancestorsOf_child hn, ih p hn]
      constructor
      · intro hm
        exact ⟨p, hm, hn⟩
      · rintro ⟨q, hq, hp⟩
        rwa [Option.some.inj (hn.symm.trans hp)]

theorem length_ancestorsOf_lt (h : t.Shaped) (hn : t.Allocated n) :
    (t.ancestorsOf n).length < t.size := by
  have hall : ∀ m ∈ n :: t.ancestorsOf n, t.Allocated m :=
    List.forall_mem_cons.2 ⟨hn, fun m hm => h.allocated_ancestorsOf hm⟩
  exact length_le_size (h.nodup_ancestorsOf n) hall

end Shaped

end Ancestors

end Tree
end TemplateCheck

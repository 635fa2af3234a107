import TemplateCheck.Proofs.Tree.Shape

/-! The nodes from a node down, in pre-order. In a tree of the right shape every node below a node
is met once, and the bound on the depth of the walk has no effect. -/

namespace TemplateCheck
namespace Tree
open Relation (ReflTransGen)

variable {P : Type} {t : Tree P} {n m a b c : NodeId}

def levels (t : Tree P) (n : NodeId) : Nat := t.size - (t.ancestorsOf n).length

namespace Shaped

theorem levels_pos (h : t.Shaped) (hn : t.Allocated n) : 0 < t.levels n :=
  Nat.sub_pos_of_lt (h.length_ancestorsOf_lt hn)

theorem levels_child (h : t.Shaped) (hc : c ∈ t.childrenOf n) : t.levels c < t.levels n := by
  have hlt := h.length_ancestorsOf_lt (h.allocated n c hc)
  rw [h.ancestorsOf_child (h.mem_childrenOf.1 hc), List.length_cons] at hlt
  rw [levels, levels, h.ancestorsOf_child (h.mem_childrenOf.1 hc), List.length_cons]
  omega

theorem induction_up (h : t.Shaped) {motive : NodeId → Prop}
    (node : ∀ n, (∀ c ∈ t.childrenOf n, motive c) → motive n) (n : NodeId) : motive n := by
  induction hk : t.levels n using Nat.strongRecOn generalizing n with
  | ind k ih =>
    subst hk
    exact node n fun c hc => ih _ (h.levels_child hc) c rfl

theorem preorderWithin_congr (h : t.Shaped) (hn : t.Allocated n) {k l : Nat}
    (hk : t.levels n ≤ k) (hl : t.levels n ≤ l) : t.preorderWithin k n = t.preorderWithin l n := by
  induction k generalizing n l with
  | zero => exact absurd (h.levels_pos hn) (Nat.not_lt_of_le hk)
  | succ k ih =>
    obtain ⟨l, rfl⟩ := Nat.exists_eq_add_of_le' (Nat.le_trans (h.levels_pos hn) hl)
    rw [preorderWithin, preorderWithin]
    congr 1
    refine List.flatMap_congr fun c hc => ?_
    have hlevels := h.levels_child hc
    exact ih (h.allocated n c hc) (by omega) (by omega)

theorem preorder_eq (h : t.Shaped) (hn : t.Allocated n) :
    t.preorder n = n :: (t.childrenOf n).flatMap t.preorder := by
  have hlevels : t.levels n ≤ t.size := Nat.sub_le _ _
  obtain ⟨k, hk⟩ := Nat.exists_eq_add_of_le' (Nat.le_trans (h.levels_pos hn) hlevels)
  rw [preorder, h.preorderWithin_congr hn hlevels (l := t.size + 1) (by omega), preorderWithin]
  rfl

theorem mem_preorder (h : t.Shaped) (hn : t.Allocated n) :
    m ∈ t.preorder n ↔ ReflTransGen t.Parent n m := by
  induction n using h.induction_up with
  | node n ih =>
    rw [h.preorder_eq hn, List.mem_cons, ReflTransGen.cases_head_iff, eq_comm, List.mem_flatMap]
    refine or_congr Iff.rfl (exists_congr fun c => ?_)
    rw [h.mem_childrenOf]
    refine and_congr_right fun hc => ?_
    exact ih c (h.mem_childrenOf.2 hc) (allocated_of_parentOf hc)

theorem child_mem_preorder (h : t.Shaped) (hn : t.Allocated n) (hm : m ∈ t.preorder n)
    (hc : c ∈ t.childrenOf m) : c ∈ t.preorder n := by
  rw [h.mem_preorder hn] at hm ⊢
  exact hm.tail (h.mem_childrenOf.1 hc)

theorem parent_mem_preorder (h : t.Shaped) (hn : t.Allocated n) (hm : m ∈ t.preorder n)
    (hmn : m ≠ n) (hp : t.parentOf m = some a) : a ∈ t.preorder n := by
  rw [h.mem_preorder hn] at hm ⊢
  rcases ReflTransGen.cases_tail hm with heq | ⟨p, hnp, hpm⟩
  · exact absurd heq hmn
  · rwa [Option.some.inj (hp.symm.trans hpm)]

theorem allocated_preorder (h : t.Shaped) (hn : t.Allocated n) (hm : m ∈ t.preorder n) :
    t.Allocated m := by
  rcases ReflTransGen.cases_tail ((h.mem_preorder hn).1 hm) with rfl | ⟨p, -, hp⟩
  · exact hn
  · exact allocated_of_parentOf hp

theorem above_total (ha : ReflTransGen t.Parent a m) (hb : ReflTransGen t.Parent b m) :
    ReflTransGen t.Parent a b ∨ ReflTransGen t.Parent b a := by
  have hunique : Relator.RightUnique (Function.swap t.Parent) := fun c p q hp hq =>
    Option.some.inj (Eq.trans (Eq.symm hp) hq)
  rw [← Relation.reflTransGen_swap] at ha hb
  rcases ReflTransGen.total_of_right_unique hunique ha hb with hab | hba
  · exact .inr (Relation.reflTransGen_swap.1 hab)
  · exact .inl (Relation.reflTransGen_swap.1 hba)

theorem eq_of_siblings (h : t.Shaped) (ha : t.parentOf a = some n) (hb : t.parentOf b = some n)
    (hab : ReflTransGen t.Parent a b) : a = b := by
  rcases ReflTransGen.cases_tail hab with heq | ⟨p, hap, hp⟩
  · exact heq.symm
  · obtain rfl := Option.some.inj (Eq.trans (Eq.symm hp) hb)
    have hnodup := h.nodup_ancestorsOf a
    rw [h.ancestorsOf_child ha] at hnodup
    exact absurd (h.mem_self_ancestorsOf.2 hap) (List.nodup_cons.1 hnodup).1

theorem nodup_preorder (h : t.Shaped) (hn : t.Allocated n) : (t.preorder n).Nodup := by
  induction n using h.induction_up with
  | node n ih =>
    have hbelow (c : NodeId) (hc : c ∈ t.childrenOf n) : t.Allocated c := h.allocated n c hc
    rw [h.preorder_eq hn, List.nodup_cons, List.nodup_flatMap, List.mem_flatMap]
    refine ⟨?_, fun c hc => ih c hc (hbelow c hc), ?_⟩
    · rintro ⟨c, hc, hmem⟩
      have hnodup := h.nodup_ancestorsOf c
      rw [h.ancestorsOf_child (h.mem_childrenOf.1 hc)] at hnodup
      have hcn := (h.mem_preorder (hbelow c hc)).1 hmem
      exact absurd (h.mem_self_ancestorsOf.2 hcn) (List.nodup_cons.1 hnodup).1
    · refine (h.nodup_childrenOf n).imp_of_mem fun {a b} ha hb hab m hma hmb => hab ?_
      have ham := (h.mem_preorder (hbelow a ha)).1 hma
      have hbm := (h.mem_preorder (hbelow b hb)).1 hmb
      rcases above_total ham hbm with habove | habove
      · exact h.eq_of_siblings (h.mem_childrenOf.1 ha) (h.mem_childrenOf.1 hb) habove
      · exact (h.eq_of_siblings (h.mem_childrenOf.1 hb) (h.mem_childrenOf.1 ha) habove).symm

end Shaped
end Tree
end TemplateCheck

import TemplateCheck.Proofs.Tree.Editing
import TemplateCheck.Proofs.Tree.Preorder
import TemplateCheck.Proofs.Tree.Workspace

/-! Walks with a stack of the nodes to be visited. In a tree of the right shape a walk takes one step
for each node from its start down, and passes these in pre-order. They are the nodes that have the
start among their ancestors. -/

namespace TemplateCheck
namespace Tree

variable {P : Type} {t : Tree P} {n m : NodeId}

namespace Walk
variable {passed stack : List NodeId}

theorem step_cons (h : t.Allocated n) :
    step t ⟨passed, n :: stack⟩ = .ok ⟨passed ++ [n], t.childrenOf n ++ stack⟩ := by
  have hpushed : (t.childrenOf n).reverse.foldl (fun stack child => child :: stack) stack =
      t.childrenOf n ++ stack := by simp
  rw [step, children_eq h, ← hpushed]
  rfl

theorem steps_add {i j : Nat} {w w' : Walk} (h : steps t i w = .ok w') :
    steps t (i + j) w = steps t j w' := by
  induction i generalizing w with
  | zero =>
    cases h
    rw [Nat.zero_add]
  | succ i ih =>
    rw [Nat.succ_add, steps]
    rw [steps] at h
    cases hstep : w.step t with
    | error misuse =>
      rw [hstep] at h
      cases h
    | ok next =>
      rw [hstep] at h
      exact ih h

def Passes (t : Tree P) (nodes order : List NodeId) : Prop :=
  ∀ passed stack,
    steps t order.length ⟨passed, nodes ++ stack⟩ = .ok ⟨passed ++ order, stack⟩

theorem Passes.append {ns ms order order' : List NodeId} (h : Passes t ns order)
    (h' : Passes t ms order') : Passes t (ns ++ ms) (order ++ order') := by
  intro passed stack
  have hfirst := h passed (ms ++ stack)
  rw [List.append_assoc, List.length_append, steps_add hfirst, h', List.append_assoc]

theorem passes_flatMap {nodes : List NodeId} (h : ∀ n ∈ nodes, Passes t [n] (t.preorder n)) :
    Passes t nodes (nodes.flatMap t.preorder) := by
  induction nodes with
  | nil =>
    intro passed stack
    rw [List.flatMap_nil, List.append_nil]
    rfl
  | cons n nodes ih =>
    obtain ⟨hn, hnodes⟩ := List.forall_mem_cons.1 h
    exact hn.append (ih hnodes)

end Walk

namespace Shaped

theorem passes_preorder (h : t.Shaped) (hn : t.Allocated n) :
    Walk.Passes t [n] (t.preorder n) := by
  induction n using h.induction_up with
  | node n ih =>
    have hchildren := Walk.passes_flatMap fun c hc => ih c hc (h.allocated n c hc)
    intro passed stack
    rw [h.preorder_eq hn, List.length_cons, List.singleton_append, Walk.steps, Walk.step_cons hn]
    exact (hchildren (passed ++ [n]) stack).trans (by rw [List.append_assoc]; rfl)

theorem mem_preorder_iff (h : t.Shaped) (hn : t.Allocated n) :
    m ∈ t.preorder n ↔ m = n ∨ n ∈ t.ancestorsOf m := by
  rw [h.mem_preorder hn, ← h.mem_self_ancestorsOf, List.mem_cons, eq_comm]

end Shaped
end Tree

namespace Workspace
open TemplateCheck.Tree
variable {P : Type} [CrossReferring P]

/-- The descendants of a node are the node and the descendants of its children in their order, each
once; a walk passes them with one step for each. A node is among them exactly if it is the node or
has it among its ancestors, which are all nodes that parent links lead to. -/
theorem descendants_run (operations : List (Operation P)) {r : NodeId}
    (hr : (run operations).tree.Allocated r) :
    ∃ children below nodes,
      (run operations).tree.children r = .ok children ∧
      List.Forall₂ (fun c ns => (run operations).tree.descendants c = .ok ns) children below ∧
      (run operations).tree.descendants r = .ok nodes ∧
      nodes = r :: below.flatten ∧
      Walk.steps (run operations).tree nodes.length (.start r) = .ok ⟨nodes, []⟩ ∧
      nodes.Nodup ∧ (∀ n ∈ nodes, (run operations).tree.Allocated n) ∧
      ∀ n, (run operations).tree.Allocated n → ∃ above,
        (run operations).tree.ancestors n = .ok above ∧ (run operations).tree.IsLine n above ∧
          (n ∈ nodes ↔ n = r ∨ r ∈ above) := by
  have h := shaped_run operations
  generalize (run operations).tree = t at h hr ⊢
  refine ⟨t.childrenOf r, (t.childrenOf r).map t.preorder, t.preorder r, children_eq hr, ?_,
    descendants_eq hr, ?_, ?_, h.nodup_preorder hr, fun n hn => h.allocated_preorder hr hn,
    fun n hn => ⟨t.ancestorsOf n, ancestors_eq hn, h.isLine_ancestorsOf n, h.mem_preorder_iff hr⟩⟩
  · rw [List.forall₂_map_right_iff, List.forall₂_same]
    exact fun c hc => descendants_eq (h.allocated r c hc)
  · rw [h.preorder_eq hr, List.flatMap_def]
  · have hpassed := h.passes_preorder hr [] []
    rwa [List.append_nil, List.nil_append] at hpassed

theorem descendants_run_sample : (run sample).tree.Allocated ⟨0⟩ ∧
    ∃ nodes, (run sample).tree.descendants ⟨0⟩ = .ok nodes ∧
      nodes = [⟨0⟩, ⟨3⟩, ⟨4⟩, ⟨5⟩, ⟨2⟩] ∧
      Walk.steps (run sample).tree 5 (.start ⟨0⟩) = .ok ⟨nodes, []⟩ ∧
      ∃ above, (run sample).tree.ancestors ⟨4⟩ = .ok above ∧ ⟨0⟩ ∈ above := by
  have hroot : (run sample).tree.Allocated ⟨0⟩ := by decide
  obtain ⟨children, below, nodes, -, -, hnodes, -, hsteps, -, -, habove⟩ :=
    descendants_run sample hroot
  obtain rfl : nodes = [⟨0⟩, ⟨3⟩, ⟨4⟩, ⟨5⟩, ⟨2⟩] := Except.ok.inj (hnodes.symm.trans rfl)
  obtain ⟨above, hancestors, -, hmem⟩ := habove ⟨4⟩ (by decide)
  have hroot' : ⟨0⟩ ∈ above := (hmem.1 (by decide)).resolve_left (by decide)
  exact ⟨hroot, _, hnodes, rfl, hsteps, above, hancestors, hroot'⟩

end Workspace
end TemplateCheck

import TemplateCheck.Proofs.Template.Building
import TemplateCheck.Proofs.Tree.Workspace

/-! The tags at the ends of a velog. The search goes forwards from a child to those behind it, so it
passes over declarations in front of the open tag, but not over those behind the close tag. -/

namespace TemplateCheck

namespace Tree
variable {P : Type} {t : Tree P} {n p : NodeId}

theorem Shaped.nextSibling_eq (h : t.Shaped) {before after : List NodeId}
    (hp : t.childrenOf p = before ++ n :: after) : t.nextSibling n = .ok after.head? := by
  have hn : n ∈ t.childrenOf p := hp ▸ List.mem_append_right _ (.head _)
  have hparent := h.mem_childrenOf.1 hn
  have hnodup := hp ▸ h.nodup_childrenOf p
  have hindex : (before ++ n :: after).idxOf? n = some before.length := by
    have hbefore (m : NodeId) (hm : m ∈ before) : m ≠ n :=
      (List.nodup_append.1 hnodup).2.2 m hm n (.head _)
    have hnone : before.findIdx? (· == n) = none := by simpa using hbefore
    rw [List.idxOf?, List.findIdx?_append, hnone]
    simp [List.findIdx?_cons]
  have hnext : (before ++ n :: after)[before.length + 1]? = after.head? := by
    rw [List.getElem?_append_right (Nat.le_add_right _ 1), Nat.add_sub_cancel_left,
      List.getElem?_cons_succ, List.head?_eq_getElem?]
  rw [nextSibling, parent_eq (h.allocated p n hn), hparent, ← hnext]
  simp [bind, Except.bind, children_eq (h.allocated_parent hparent), hp, hindex, pure, Except.pure]

end Tree

namespace TemplateTree
variable {t : TemplateTree} {n p : NodeId} {kind : NodeKind} {node : Node}

def renders (t : TemplateTree) (n : NodeId) : Bool := (payloadOf t n).any (·.isRendered)

/-- The children that render. -/
def rendering (t : TemplateTree) (p : NodeId) : List NodeId := (t.childrenOf p).filter (renders t)

def shown (t : TemplateTree) (n : NodeId) : NodeId :=
  match payloadOf t n, t.childrenOf n with
  | some (.msgPlaceholder _), [child] => child
  | _, _ => n

/-- What stands for a node, if it is of a kind. -/
def shownAs (t : TemplateTree) (kind : NodeKind) (n : NodeId) : Option NodeId :=
  if kindOf t (shown t n) = some kind then some (shown t n) else none

theorem kindOf_eq_some (hnode : payloadOf t n = some node) : kindOf t n = some node.kind := by
  rw [kindOf, hnode]
  rfl

theorem shownAs_self (hnode : payloadOf t n = some node) (hshown : shown t n = n) :
    shownAs t kind n = if node.kind = kind then some n else none := by
  simp only [shownAs, hshown, kindOf_eq_some hnode, Option.some.injEq]

theorem wrapped_eq (h : t.Shaped) (hnode : payloadOf t n = some node) (hkind : node.kind ≠ kind) :
    wrapped t kind n = .ok (shownAs t kind n) := by
  have hself (hshown : shown t n = n) : shownAs t kind n = none := by
    rw [shownAs_self hnode hshown, if_neg hkind]
  rw [wrapped, payload_eq hnode, Tree.children_eq (allocated_of_payload hnode)]
  cases node with
  | msgPlaceholder name =>
    cases hchildren : t.childrenOf n with
    | nil => rw [hself (by rw [shown, hnode, hchildren])]; rfl
    | cons child rest =>
      cases rest with
      | nil =>
        have hchild : child ∈ t.childrenOf n := hchildren ▸ .head _
        obtain ⟨inner, hinner⟩ := exists_payloadOf (h.allocated n child hchild)
        have hshown : shown t n = child := by rw [shown, hnode, hchildren]
        simp only [shownAs, hshown, kindOf_eq_some hinner, Option.some.injEq]
        show (do return if (← t.payload child).kind = kind then some child else none) = _
        rw [payload_eq hinner]
        rfl
      | cons second rest => rw [hself (by rw [shown, hnode, hchildren])]; rfl
  | _ => rw [hself (by rw [shown, hnode])]; rfl

theorem tagThrough_rendered (h : t.Shaped) (hkind : kind ≠ .msgPlaceholder)
    (hnode : payloadOf t n = some node) (hrendered : node.isRendered) (steps : Nat) :
    tagThrough t kind (steps + 1) n = .ok (shownAs t kind n) := by
  rw [tagThrough, payload_eq hnode]
  simp only [bind, Except.bind, hrendered, Bool.not_true, Bool.false_eq_true, if_false]
  split
  next hsame =>
    have hshown : shown t n = n := by
      cases node with
      | msgPlaceholder name => exact absurd hsame.symm hkind
      | _ => rw [shown, hnode]
    rw [shownAs_self hnode hshown, if_pos hsame]
    rfl
  next hother => exact wrapped_eq h hnode hother

theorem tagThrough_eq (h : t.Shaped) (hkind : kind ≠ .msgPlaceholder) {before after : List NodeId}
    (hp : t.childrenOf p = before ++ n :: after) {steps : Nat} (hsteps : after.length < steps) :
    tagThrough t kind steps n = .ok (((n :: after).find? (renders t)).bind (shownAs t kind)) := by
  induction steps generalizing before n after with
  | zero => exact absurd hsteps (Nat.not_lt_zero _)
  | succ steps ih =>
    have hn : n ∈ t.childrenOf p := hp ▸ List.mem_append_right _ (.head _)
    obtain ⟨node, hnode⟩ := exists_payloadOf (h.allocated p n hn)
    have hrenders : renders t n = node.isRendered := by rw [renders, hnode, Option.any_some]
    cases hrendered : node.isRendered with
    | true =>
      rw [tagThrough_rendered h hkind hnode hrendered, List.find?_cons_of_pos (hrenders ▸ hrendered),
        Option.bind_some]
    | false =>
      rw [List.find?_cons_of_neg (by rw [hrenders, hrendered]; decide), tagThrough, payload_eq hnode]
      simp only [bind, Except.bind, hrendered, Bool.not_false, if_true, h.nextSibling_eq hp]
      cases after with
      | nil => rfl
      | cons next after =>
        have hp' : t.childrenOf p = before ++ [n] ++ next :: after := by
          rw [hp, List.append_assoc, List.singleton_append]
        exact ih hp' (Nat.lt_of_succ_lt_succ hsteps)

theorem velogOpenTag_eq (h : t.Shaped) (hp : t.Allocated p) :
    velogOpenTag t p = .ok ((rendering t p).head?.bind (shownAs t .openTag)) := by
  rw [velogOpenTag, Tree.children_eq hp, rendering, List.head?_filter]
  cases hchildren : t.childrenOf p with
  | nil => rfl
  | cons first rest =>
    have hsplit : t.childrenOf p = [] ++ first :: rest := hchildren
    exact tagThrough_eq h (by decide) hsplit (Nat.lt_succ_self _)

theorem velogCloseTag_eq (h : t.Shaped) {before : List NodeId} {last : NodeId}
    (hbefore : before ≠ []) (hp : t.childrenOf p = before ++ [last]) :
    velogCloseTag t p = .ok (if renders t last then shownAs t .closeTag last else none) := by
  have hlast : last ∈ t.childrenOf p := hp ▸ List.mem_append_right _ (.head _)
  have hlength : 1 < (t.childrenOf p).length := by
    have hpos := List.length_pos_iff.2 hbefore
    rw [hp, List.length_append, List.length_singleton]
    omega
  have hthrough : tagThrough t .closeTag (t.childrenOf p).length last =
      .ok (([last].find? (renders t)).bind (shownAs t .closeTag)) :=
    tagThrough_eq h (by decide) hp (Nat.lt_of_succ_lt hlength)
  have hgetLast : (t.childrenOf p).getLast? = some last := by rw [hp, List.getLast?_concat]
  rw [velogCloseTag, Tree.children_eq (Tree.allocated_of_childrenOf hlast)]
  simp only [bind, Except.bind, if_neg (Nat.not_lt.2 hlength), hgetLast]
  rw [hthrough]
  cases hrenders : renders t last <;> simp [List.find?, hrenders]

theorem rendering_getLast? {before : List NodeId} {last : NodeId}
    (hp : t.childrenOf p = before ++ [last]) (hlast : renders t last) :
    (rendering t p).getLast? = some last := by
  rw [rendering, hp, List.filter_append, List.filter_cons_of_pos hlast]
  exact List.getLast?_concat

end TemplateTree

namespace Workspace
open TemplateTree

/-- Of a velog with two rendering children the first one that renders is looked at for the open tag,
and the last child, provided that it renders, for the close tag. -/
theorem velogTags_run (operations : List (Operation Node)) (v : NodeId)
    (h : 2 ≤ (rendering (run operations).tree v).length) :
    velogOpenTag (run operations).tree v = .ok ((rendering (run operations).tree v).head?.bind
        (shownAs (run operations).tree .openTag)) ∧
      ∃ last, ((run operations).tree.childrenOf v).getLast? = some last ∧
        velogCloseTag (run operations).tree v =
          .ok (if renders (run operations).tree last then
            (rendering (run operations).tree v).getLast?.bind
              (shownAs (run operations).tree .closeTag)
          else none) := by
  have hshaped := shaped_run operations
  have hlength := Nat.le_trans h (List.length_filter_le _ _)
  obtain ⟨before, last, hp⟩ : ∃ before last,
      (run operations).tree.childrenOf v = before ++ [last] := by
    rcases List.eq_nil_or_concat ((run operations).tree.childrenOf v) with hnil | hsplit
    · simp [hnil] at hlength
    · simpa using hsplit
  have hbefore : before ≠ [] := by
    rintro rfl
    simp [hp] at hlength
  have hmem : last ∈ (run operations).tree.childrenOf v := hp ▸ List.mem_append_right _ (.head _)
  refine ⟨velogOpenTag_eq hshaped (Tree.allocated_of_childrenOf hmem), last, ?_, ?_⟩
  · rw [hp, List.getLast?_concat]
  · rw [velogCloseTag_eq hshaped hbefore hp]
    split
    next hlast => rw [rendering_getLast? hp hlast, Option.bind_some]
    next => rfl

def markedVelog (children : List NodeId) : List (Operation Node) :=
  [.add .unknown (.velog ⟨.var "entry" none, [], none, false, ⟨0⟩⟩),
    .add .unknown (.const ⟨"total", .int 0, false, none, none⟩),
    .add .unknown (.openTag ⟨"b", false, []⟩), .add .unknown (.closeTag ⟨"b", false, []⟩),
    .addChildren ⟨0⟩ children]

theorem velogTags_run_declared_first :
    2 ≤ (rendering (run (markedVelog [⟨1⟩, ⟨2⟩, ⟨3⟩])).tree ⟨0⟩).length ∧
      velogOpenTag (run (markedVelog [⟨1⟩, ⟨2⟩, ⟨3⟩])).tree ⟨0⟩ = .ok (some ⟨2⟩) ∧
      velogCloseTag (run (markedVelog [⟨1⟩, ⟨2⟩, ⟨3⟩])).tree ⟨0⟩ = .ok (some ⟨3⟩) := by
  have htwo : 2 ≤ (rendering (run (markedVelog [⟨1⟩, ⟨2⟩, ⟨3⟩])).tree ⟨0⟩).length := by decide
  obtain ⟨hopen, last, hlast, hclose⟩ := velogTags_run (markedVelog [⟨1⟩, ⟨2⟩, ⟨3⟩]) ⟨0⟩ htwo
  obtain rfl : ⟨3⟩ = last := Option.some.inj hlast
  exact ⟨htwo, hopen.trans (by decide), hclose.trans (by decide)⟩

theorem closeTag_hidden :
    ¬∀ (operations : List (Operation Node)) (v : NodeId),
      kindOf (run operations).tree v = some .velog →
        2 ≤ (rendering (run operations).tree v).length →
          velogOpenTag (run operations).tree v = .ok ((rendering (run operations).tree v).head?.bind
            (shownAs (run operations).tree .openTag)) ∧
          velogCloseTag (run operations).tree v =
            .ok ((rendering (run operations).tree v).getLast?.bind
              (shownAs (run operations).tree .closeTag)) := by
  intro h
  have hclose := (h (markedVelog [⟨2⟩, ⟨3⟩, ⟨1⟩]) ⟨0⟩ (by decide) (by decide)).2
  have hfound : (rendering (run (markedVelog [⟨2⟩, ⟨3⟩, ⟨1⟩])).tree ⟨0⟩).getLast?.bind
      (shownAs (run (markedVelog [⟨2⟩, ⟨3⟩, ⟨1⟩])).tree .closeTag) = some ⟨3⟩ := by decide
  have hnone : velogCloseTag (run (markedVelog [⟨2⟩, ⟨3⟩, ⟨1⟩])).tree ⟨0⟩ = .ok none := by rfl
  rw [hfound, hnone] at hclose
  cases hclose

end Workspace
end TemplateCheck

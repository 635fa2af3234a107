import TemplateCheck.Proofs.Template.Building

/-! The pairs of tags. An open tag lists a close tag as often as that lists it, apart from the
pairings that have been given up half way. -/

namespace TemplateCheck

def TemplateCall.givenUp (t : TemplateTree) : TemplateCall → List (NodeId × NodeId)
  | build c => c.givenUp t
  | edit _ => []

namespace TemplateTree

/-- What is left of a tree after a sequence of calls. A misuse ends one call, not the sequence. -/
def after (t : TemplateTree) (calls : List TemplateCall) : TemplateTree :=
  calls.foldl TemplateCall.perform t

/-- The pairings that a sequence of calls has given up half way. -/
def givenUp (t : TemplateTree) : List TemplateCall → List (NodeId × NodeId)
  | [] => []
  | c :: calls => c.givenUp t ++ givenUp (c.perform t) calls

end TemplateTree

def Node.pairsAs (kind : NodeKind) (node : Node) : List NodeId :=
  if node.kind = kind then (node.tag?.map Tag.pairs).getD [] else []

namespace TemplateTree
variable {t t' : TemplateTree} {kind : NodeKind} {n m a b pair : NodeId} {node : Node}
  {given given' : List (NodeId × NodeId)}

def pairsAs (t : TemplateTree) (kind : NodeKind) (n : NodeId) : List NodeId :=
  ((t.payloadOf n).map (Node.pairsAs kind)).getD []

theorem pairsAs_add {l : Location} (h : node.Fresh t.next) :
    pairsAs (t.add l node) kind n = t.pairsAs kind n := by
  rw [pairsAs, pairsAs, payloadOf_add]
  split
  · next hn =>
    have hnone : node.pairsAs kind = [] := by
      cases node with
      | openTag tag | closeTag tag =>
        have hpairs : tag.pairs = [] := h
        simp [Node.pairsAs, Node.tag?, hpairs]
      | _ => exact ite_self _
    rw [hn, payloadOf_next, Option.map_some, hnone]
    rfl
  · rfl

theorem pairsAs_setPayload {change : Node → Node} (hm : t.payloadOf m = some node)
    (more : List NodeId) (h : (change node).pairsAs kind = node.pairsAs kind ++ more) :
    pairsAs (t.setPayload m change) kind n =
      t.pairsAs kind n ++ if m = n then more else [] := by
  rw [pairsAs, pairsAs, payloadOf_setPayload]
  by_cases hn : m = n
  · subst hn
    rw [if_pos rfl, if_pos rfl, hm, Option.map_some, Option.map_some, h]
    rfl
  · rw [if_neg hn, if_neg hn, List.append_nil]

theorem count_pairsAs_addPair {tag : Tag} (hm : t.payloadOf m = some node)
    (htag : node.tag? = some tag) :
    (pairsAs (t.setPayload m (Node.addPair pair)) kind n).count a =
      (t.pairsAs kind n).count a + if node.kind = kind ∧ m = n ∧ pair = a then 1 else 0 := by
  have hmore : (node.addPair pair).pairsAs kind =
      node.pairsAs kind ++ if node.kind = kind then [pair] else [] := by
    cases node with
    | openTag tag | closeTag tag =>
      rw [Node.pairsAs, Node.pairsAs]
      split <;> simp_all [Node.addPair, Node.changeTag, Node.tag?, Node.kind]
    | _ => cases htag
  rw [pairsAs_setPayload hm _ hmore, List.count_append]
  by_cases hkind : node.kind = kind <;> by_cases hn : m = n <;>
    simp [hkind, hn, List.count_singleton]

def Accounts (t : TemplateTree) (given : List (NodeId × NodeId)) : Prop :=
  ∀ a b, (t.pairsAs .openTag a).count b = (t.pairsAs .closeTag b).count a + given.count (a, b)

theorem Accounts.congr (h : t.Accounts given)
    (hsame : ∀ kind n, t'.pairsAs kind n = t.pairsAs kind n) : t'.Accounts given := by
  intro a b
  rw [hsame, hsame]
  exact h a b

theorem Accounts.built (h : t.Accounts given) (hbuilt : Built t t' given') :
    t'.Accounts (given ++ given') := by
  cases hbuilt with
  | made l hfresh =>
    rw [List.append_nil]
    exact h.congr fun _ _ => pairsAs_add hfresh
  | @declared n title params params' hn =>
    rw [List.append_nil]
    refine h.congr fun kind m => (pairsAs_setPayload hn [] ?_).trans ?_
    · rw [List.append_nil, Node.pairsAs, Node.pairsAs]
      rfl
    · rw [ite_self, List.append_nil]
  | refused =>
    rw [List.append_nil]
    exact h
  | @paired opening closing tag tag' hopening hclosing =>
    intro a b
    have hne : opening ≠ closing := by
      rintro rfl
      cases hopening.symm.trans hclosing
    have hlater : payloadOf (t.setPayload opening (Node.addPair closing)) closing =
        some (.closeTag tag') := by
      rw [payloadOf_setPayload, if_neg hne, hclosing]
    rw [count_pairsAs_addPair hlater rfl, count_pairsAs_addPair hlater rfl,
      count_pairsAs_addPair hopening rfl, count_pairsAs_addPair hopening rfl, h a b,
      List.append_nil]
    have hswap : (if closing = b ∧ opening = a then 1 else 0) =
        if opening = a ∧ closing = b then 1 else 0 := if_congr and_comm rfl rfl
    simp only [Node.kind, true_and, reduceCtorEq, false_and, if_false, Nat.add_zero]
    omega
  | @halfPaired opening closing tag hopening hclosing =>
    intro a b
    rw [count_pairsAs_addPair hopening rfl, count_pairsAs_addPair hopening rfl, h a b,
      List.count_append]
    have hone : [(opening, closing)].count (a, b) =
        if opening = a ∧ closing = b then 1 else 0 := by
      simp [List.count_singleton]
    simp only [Node.kind, true_and, reduceCtorEq, false_and, if_false, Nat.add_zero]
    omega

theorem Accounts.perform (h : t.Accounts given) (c : TemplateCall) :
    Accounts (c.perform t) (given ++ c.givenUp t) := by
  cases c with
  | build c => exact h.built (c.built t)
  | edit e =>
    rw [TemplateCall.givenUp, List.append_nil]
    refine h.congr fun kind n => ?_
    rw [pairsAs, TemplateCall.perform, payloadOf_perform, pairsAs]

theorem Accounts.after (h : t.Accounts given) (calls : List TemplateCall) :
    Accounts (t.after calls) (given ++ t.givenUp calls) := by
  induction calls generalizing t given with
  | nil =>
    rw [givenUp, List.append_nil]
    exact h
  | cons c calls ih =>
    rw [givenUp, ← List.append_assoc]
    exact ih (h.perform c)

theorem accounts_empty : Accounts (Tree.empty : TemplateTree) [] := by
  intro a b
  have hnone (n : NodeId) : payloadOf (Tree.empty : TemplateTree) n = none := by
    rw [payloadOf, Tree.slot?_eq_none (Nat.not_lt_zero _), Option.map_none]
  rw [pairsAs, pairsAs, hnone, hnone]
  rfl

def tagOf (t : TemplateTree) (n : NodeId) : Option Tag := (t.payloadOf n).bind Node.tag?

/-- Tags list each other equally often. Open tags list only close tags, and these only open tags. -/
structure PairedBothWays (t : TemplateTree) : Prop where
  symmetric : ∀ a b tag tag', t.tagOf a = some tag → t.tagOf b = some tag' →
    tag.pairs.count b = tag'.pairs.count a
  opened : ∀ a tag, t.payloadOf a = some (.openTag tag) → ∀ b ∈ tag.pairs,
    t.kindOf b = some .closeTag
  closed : ∀ b tag, t.payloadOf b = some (.closeTag tag) → ∀ a ∈ tag.pairs,
    t.kindOf a = some .openTag

theorem pairsAs_eq (h : t.payloadOf n = some node) : t.pairsAs kind n = node.pairsAs kind := by
  rw [pairsAs, h]
  rfl

theorem kindOf_of_mem (h : a ∈ t.pairsAs kind n) : t.kindOf n = some kind := by
  rw [pairsAs] at h
  rw [kindOf]
  cases hn : t.payloadOf n with
  | none =>
    rw [hn] at h
    cases h
  | some node =>
    rw [hn, Option.map_some, Option.getD_some, Node.pairsAs] at h
    split at h
    · next hkind => rw [Option.map_some, hkind]
    · cases h

theorem count_pairs {tag : Tag} (h : t.tagOf n = some tag) (a : NodeId) :
    tag.pairs.count a = (t.pairsAs .openTag n).count a + (t.pairsAs .closeTag n).count a := by
  obtain ⟨node, hn, htag⟩ := Option.bind_eq_some_iff.1 h
  rw [pairsAs_eq hn, pairsAs_eq hn]
  cases node with
  | openTag other | closeTag other =>
    obtain rfl := Option.some.inj htag
    simp [Node.pairsAs, Node.kind, Node.tag?]
  | _ => cases htag

theorem Accounts.pairedBothWays (h : t.Accounts []) : t.PairedBothWays where
  symmetric a b tag tag' ha hb := by
    have hab := h a b
    have hba := h b a
    rw [List.count_nil] at hab hba
    rw [count_pairs ha, count_pairs hb]
    omega
  opened a tag ha b hb := by
    have hpos : 0 < (t.pairsAs .openTag a).count b := by
      rw [pairsAs_eq ha]
      exact List.count_pos_iff.2 hb
    rw [h a b, List.count_nil] at hpos
    exact kindOf_of_mem (List.count_pos_iff.1 hpos)
  closed b tag hb a ha := by
    have hpos : 0 < (t.pairsAs .closeTag b).count a := by
      rw [pairsAs_eq hb]
      exact List.count_pos_iff.2 ha
    have hab := h a b
    rw [List.count_nil, Nat.add_zero] at hab
    rw [← hab] at hpos
    exact kindOf_of_mem (List.count_pos_iff.1 hpos)

theorem Accounts.given_eq_nil (h : t.Accounts given) (hpaired : t.PairedBothWays) : given = [] := by
  by_contra hgiven
  obtain ⟨⟨a, b⟩, hmem⟩ := List.exists_mem_of_ne_nil given hgiven
  have hab := h a b
  have hpos : 0 < given.count (a, b) := List.count_pos_iff.2 hmem
  -- The open tag lists the other node once too often.
  have hlisted : b ∈ t.pairsAs .openTag a := List.count_pos_iff.1 (by omega)
  obtain ⟨node, ha, hkind⟩ := Option.map_eq_some_iff.1 (kindOf_of_mem hlisted)
  cases node with
  | openTag tag =>
    rw [pairsAs_eq ha] at hlisted hab
    obtain ⟨node', hb, hkind'⟩ := Option.map_eq_some_iff.1 (hpaired.opened a tag ha b hlisted)
    cases node' with
    | closeTag tag' =>
      have hsymmetric := hpaired.symmetric a b tag tag' (by rw [tagOf, ha]; rfl)
        (by rw [tagOf, hb]; rfl)
      rw [pairsAs_eq hb] at hab
      have hsame : ((Node.openTag tag).pairsAs .openTag).count b =
          ((Node.closeTag tag').pairsAs .closeTag).count a := hsymmetric
      omega
    | _ => cases hkind'
  | _ => cases hkind

/-- A sequence of calls leaves tags that are paired both ways if it has given up no pairing half
way, and only then. -/
theorem pairedBothWays_after_iff (calls : List TemplateCall) :
    PairedBothWays (after .empty calls) ↔ givenUp .empty calls = [] := by
  have haccounts := accounts_empty.after calls
  refine ⟨haccounts.given_eq_nil, fun hnone => ?_⟩
  rw [hnone] at haccounts
  exact haccounts.pairedBothWays

def mispaired : List TemplateCall :=
  [.build (.openTag .unknown "li" false), .build (.rawText .unknown "item"),
    .build (.pairTags ⟨0⟩ ⟨1⟩)]

theorem not_pairedBothWays_mispaired : ¬PairedBothWays (after .empty mispaired) := by
  intro h
  have hkind := h.opened ⟨0⟩ ⟨"li", false, [⟨1⟩]⟩ rfl ⟨1⟩ (.head _)
  revert hkind
  decide

example : givenUp .empty mispaired = [(⟨0⟩, ⟨1⟩)] := by decide

end TemplateTree
end TemplateCheck

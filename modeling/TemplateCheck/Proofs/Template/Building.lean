import TemplateCheck.Proofs.Tree.Payloads
import TemplateCheck.Template.Build
import TemplateCheck.Template.Query

/-! The calls that build template files. Nodes are made without pairs, and velogs as their own key;
later a call changes the parameters of a template or the pairs of tags. -/

namespace TemplateCheck

inductive BuilderCall where
  | file (path ns : String)
  | template (l : Location) (name : String)
  | addParam (n : NodeId) (name : String) (typeExpr : Option TypeExpr) (required : Bool)
  | rawText (l : Location) (text : String)
  | print (l : Location) (expr : Expr)
  | const (l : Location) (name : String) (expr : Expr) (exported : Bool)
      (typeExpr : Option TypeExpr)
  | velog (l : Location) (data : Expr) (attributes : List CommandAttribute)
  | msgPlaceholder (l : Location) (name : String)
  | key (l : Location) (expr : Expr)
  | openTag (l : Location) (name : String) (selfClosing : Bool)
  | closeTag (l : Location) (name : String)
  | htmlAttribute (l : Location) (name : String) (value : Option String)
  | switch (l : Location) (expr : Expr)
  | case (l : Location) (exprs : List Expr)
  | default (l : Location)
  | pairTags (opening closing : NodeId)

def BuilderCall.perform (t : TemplateTree) : BuilderCall → TemplateTree
  | file path ns => (Building.file path ns t).2
  | template l name => (Building.template l name t).2
  | addParam n name typeExpr required => (Building.addParam n name typeExpr required t).2
  | rawText l text => (Building.rawText l text t).2
  | print l expr => (Building.print l expr t).2
  | const l name expr exported typeExpr => (Building.const l name expr exported typeExpr t).2
  | velog l data attributes => (Building.velog l data attributes t).2
  | msgPlaceholder l name => (Building.msgPlaceholder l name t).2
  | key l expr => (Building.key l expr t).2
  | openTag l name selfClosing => (Building.openTag l name selfClosing t).2
  | closeTag l name => (Building.closeTag l name t).2
  | htmlAttribute l name value => (Building.htmlAttribute l name value t).2
  | switch l expr => (Building.switch l expr t).2
  | case l exprs => (Building.case l exprs t).2
  | default l => (Building.default l t).2
  | pairTags opening closing => (Building.pairTags opening closing t).2

def Node.Fresh (n : NodeId) : Node → Prop
  | openTag tag | closeTag tag => tag.pairs = []
  | velog v => v.samenessKey = n
  | _ => True

def TemplateTree.setPayload (t : TemplateTree) (n : NodeId) (change : Node → Node) : TemplateTree :=
  t.update n fun slot => { slot with payload := change slot.payload }

def Node.addPair (pair : NodeId) (node : Node) : Node :=
  node.changeTag fun tag => { tag with pairs := tag.pairs ++ [pair] }

namespace TemplateTree
variable {t : TemplateTree} {n m : NodeId} {kind : NodeKind}

theorem payload_eq {node : Node} (h : payloadOf t n = some node) : t.payload n = .ok node := by
  obtain ⟨slot, hslot, rfl⟩ := Option.map_eq_some_iff.1 h
  rw [Tree.payload, Tree.slot, hslot]
  rfl

theorem exists_payloadOf (h : t.Allocated n) : ∃ node, payloadOf t n = some node := by
  obtain ⟨slot, hslot⟩ := Tree.slot?_eq_some h
  exact ⟨slot.payload, by rw [payloadOf, hslot]; rfl⟩

theorem allocated_of_payload {node : Node} (h : payloadOf t n = some node) : t.Allocated n := by
  obtain ⟨slot, hslot, -⟩ := Option.map_eq_some_iff.1 h
  exact Tree.allocated_of_slot? hslot

theorem allocated_of_kind (h : kindOf t n = some kind) : t.Allocated n := by
  obtain ⟨node, hnode, -⟩ := Option.map_eq_some_iff.1 h
  exact allocated_of_payload hnode

theorem payloadOf_add {l : Location} {node : Node} :
    payloadOf (t.add l node) n = if n = t.next then some node else payloadOf t n := by
  rw [payloadOf, Tree.slot?_add, payloadOf]
  split <;> rfl

theorem payloadOf_setPayload {change : Node → Node} : payloadOf (t.setPayload m change) n =
    if m = n then (payloadOf t n).map change else payloadOf t n := by
  rw [payloadOf, setPayload, Tree.slot?_update, payloadOf]
  split
  · rw [Option.map_map, Option.map_map]
    rfl
  · rfl

theorem payloadOf_next : payloadOf t t.next = none := by
  rw [payloadOf, Tree.slot?_eq_none Tree.not_allocated_next, Option.map_none]

theorem payloadOf_perform (e : StructuralEdit) : payloadOf (e.perform t) n = payloadOf t n :=
  (e.keepsPayloads t).2 n

end TemplateTree

/-- The tags of a pairing that fails half way: the open tag has its pair already when the other node
turns out to be no close tag. -/
def BuilderCall.givenUp (t : TemplateTree) : BuilderCall → List (NodeId × NodeId)
  | pairTags opening closing =>
    match t.kindOf opening, (Building.pairTags opening closing t).1 with
    | some .openTag, .error _ => [(opening, closing)]
    | _, _ => []
  | _ => []

/-- What a call makes of a tree, with the pairing that it has given up. -/
inductive Built (t : TemplateTree) : TemplateTree → List (NodeId × NodeId) → Prop
  | made (l : Location) {node : Node} (hfresh : node.Fresh t.next) : Built t (t.add l node) []
  | declared {n : NodeId} {title : String} {params params' : List Param}
      (hn : t.payloadOf n = some (.template title params)) :
      Built t (t.setPayload n fun _ => .template title params') []
  | refused : Built t t []
  | paired {opening closing : NodeId} {tag tag' : Tag}
      (hopening : t.payloadOf opening = some (.openTag tag))
      (hclosing : t.payloadOf closing = some (.closeTag tag')) :
      Built t ((t.setPayload opening (Node.addPair closing)).setPayload closing
        (Node.addPair opening)) []
  | halfPaired {opening closing : NodeId} {tag : Tag}
      (hopening : t.payloadOf opening = some (.openTag tag))
      (hclosing : ∀ tag', t.payloadOf closing ≠ some (.closeTag tag')) :
      Built t (t.setPayload opening (Node.addPair closing)) [(opening, closing)]

namespace Building
variable {t : TemplateTree} {opening closing n : NodeId}

theorem run_query_payload {node : Node} (h : t.payloadOf n = some node) :
    (Editing.query (·.payload n) : Building Node) t = (.ok node, t) := by
  obtain ⟨slot, hslot, rfl⟩ := Option.map_eq_some_iff.1 h
  rw [Editing.run_query, Tree.payload, Tree.slot, hslot]
  rfl

theorem run_query_payload_foreign (h : t.payloadOf n = none) :
    (Editing.query (·.payload n) : Building Node) t = (.error (.foreign n), t) := by
  rw [Editing.run_query, Tree.payload, Tree.slot, Option.map_eq_none_iff.1 h]
  rfl

theorem run_modifySlot {node : Node} (h : t.payloadOf n = some node)
    (change : Slot Node → Slot Node) :
    Editing.modifySlot n change t = (.ok (), t.update n change) := by
  obtain ⟨slot, hslot, rfl⟩ := Option.map_eq_some_iff.1 h
  rw [Editing.modifySlot, run_bind, Editing.run_query, Tree.slot, hslot]
  rfl

theorem built_addParam (t : TemplateTree) (n : NodeId) (name : String)
    (typeExpr : Option TypeExpr) (required : Bool) :
    Built t (addParam n name typeExpr required t).2 [] := by
  rw [addParam, run_bind]
  cases hn : t.payloadOf n with
  | none =>
    rw [run_query_payload_foreign hn]
    exact .refused
  | some node =>
    rw [run_query_payload hn]
    cases node with
    | template title params =>
      dsimp only
      rw [run_modifySlot hn]
      exact .declared hn
    | _ => exact .refused

theorem run_pushPair {node : Node} (h : t.payloadOf n = some node) (pair : NodeId) :
    pushPair n pair t = (.ok (), t.setPayload n (Node.addPair pair)) :=
  run_modifySlot h _

theorem payloadOf_addPair_closeTag {tag : Tag}
    (h : (t.setPayload opening (Node.addPair closing)).payloadOf n = some (.closeTag tag)) :
    ∃ tag', t.payloadOf n = some (.closeTag tag') := by
  rw [TemplateTree.payloadOf_setPayload] at h
  split at h
  · obtain ⟨node, hnode, hpair⟩ := Option.map_eq_some_iff.1 h
    cases node with
    | closeTag tag' => exact ⟨tag', hnode⟩
    | _ => cases hpair
  · exact ⟨tag, h⟩

theorem pairTags_cases (t : TemplateTree) (opening closing : NodeId) :
    (∃ tag tag', t.payloadOf opening = some (.openTag tag) ∧
      t.payloadOf closing = some (.closeTag tag') ∧
      pairTags opening closing t = (.ok (), (t.setPayload opening (Node.addPair closing)).setPayload
        closing (Node.addPair opening))) ∨
    (∃ tag misuse, t.payloadOf opening = some (.openTag tag) ∧
      (∀ tag', t.payloadOf closing ≠ some (.closeTag tag')) ∧
      pairTags opening closing t =
        (.error misuse, t.setPayload opening (Node.addPair closing))) ∨
    ∃ misuse, t.kindOf opening ≠ some .openTag ∧
      pairTags opening closing t = (.error misuse, t) := by
  rw [pairTags, run_bind, TemplateTree.kindOf]
  cases hopening : t.payloadOf opening with
  | none =>
    rw [run_query_payload_foreign hopening]
    exact .inr (.inr ⟨_, nofun, rfl⟩)
  | some node =>
    rw [run_query_payload hopening]
    cases node with
    | openTag tag =>
      simp only [run_bind, run_pushPair hopening]
      by_cases hclose : ∃ tag', t.payloadOf closing = some (.closeTag tag')
      · obtain ⟨tag', hclosing⟩ := hclose
        have hne : opening ≠ closing := by
          rintro rfl
          cases hopening.symm.trans hclosing
        have hlater : (t.setPayload opening (Node.addPair closing)).payloadOf closing =
            some (.closeTag tag') := by
          rw [TemplateTree.payloadOf_setPayload, if_neg hne, hclosing]
        rw [run_query_payload hlater]
        dsimp only
        rw [run_pushPair hlater]
        exact .inl ⟨tag, tag', rfl, hclosing, rfl⟩
      · have hclosing (tag' : Tag) : t.payloadOf closing ≠ some (.closeTag tag') :=
          fun h => hclose ⟨tag', h⟩
        cases hlater : (t.setPayload opening (Node.addPair closing)).payloadOf closing with
        | none =>
          rw [run_query_payload_foreign hlater]
          exact .inr (.inl ⟨tag, _, rfl, hclosing, rfl⟩)
        | some node =>
          rw [run_query_payload hlater]
          cases node with
          | closeTag tag' => exact absurd (payloadOf_addPair_closeTag hlater) hclose
          | _ => exact .inr (.inl ⟨tag, _, rfl, hclosing, rfl⟩)
    | _ => exact .inr (.inr ⟨_, nofun, rfl⟩)

theorem built_pairTags (t : TemplateTree) (opening closing : NodeId) :
    Built t (pairTags opening closing t).2 ((BuilderCall.pairTags opening closing).givenUp t) := by
  rw [BuilderCall.givenUp]
  rcases pairTags_cases t opening closing with ⟨tag, tag', hopening, hclosing, hrun⟩ |
    ⟨tag, misuse, hopening, hclosing, hrun⟩ | ⟨misuse, hopening, hrun⟩
  · rw [hrun, TemplateTree.kindOf, hopening]
    exact .paired hopening hclosing
  · rw [hrun, TemplateTree.kindOf, hopening]
    exact .halfPaired hopening hclosing
  · rw [hrun]
    split
    · next hkind _ => exact absurd hkind hopening
    · exact .refused

end Building

theorem BuilderCall.built (t : TemplateTree) (c : BuilderCall) :
    Built t (c.perform t) (c.givenUp t) := by
  cases c with
  | addParam n name typeExpr required => exact Building.built_addParam t n name typeExpr required
  | pairTags opening closing => exact Building.built_pairTags t opening closing
  | file path ns => exact .made _ trivial
  | velog l data attributes => exact .made l rfl
  | openTag l name selfClosing => exact .made l rfl
  | closeTag l name => exact .made l rfl
  | template l _ | rawText l _ | print l _ | const l _ _ _ _ | msgPlaceholder l _ | key l _
  | htmlAttribute l _ _ | switch l _ | case l _ | default l => exact .made l trivial

theorem Tree.Shaped.setPayload {t : TemplateTree} {n : NodeId} (ht : t.Shaped)
    (change : Node → Node) : (t.setPayload n change).Shaped :=
  ht.update (fun _ => rfl) fun _ => rfl

theorem Built.shaped {t t' : TemplateTree} {given : List (NodeId × NodeId)} (h : Built t t' given)
    (ht : t.Shaped) : t'.Shaped := by
  cases h with
  | made l hfresh => exact ht.add _ _
  | refused => exact ht
  | declared hn => exact ht.setPayload _
  | halfPaired hopening hclosing => exact ht.setPayload _
  | paired hopening hclosing => exact (ht.setPayload _).setPayload _

inductive TemplateCall where
  | build (c : BuilderCall)
  | edit (e : StructuralEdit)

def TemplateCall.perform (t : TemplateTree) : TemplateCall → TemplateTree
  | build c => c.perform t
  | edit e => e.perform t

theorem TemplateCall.shaped {t : TemplateTree} (ht : t.Shaped) (c : TemplateCall) :
    (c.perform t).Shaped := by
  cases c with
  | build c => exact (c.built t).shaped ht
  | edit e => exact e.shaped ht

end TemplateCheck

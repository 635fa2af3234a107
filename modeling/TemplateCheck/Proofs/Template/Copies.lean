import TemplateCheck.Proofs.Tree.Copies
import TemplateCheck.Proofs.Tree.Workspace

/-! Copies of template nodes. After all copies are finished, pairs of tags and keys of velogs lead
to the copies of the nodes that have been copied, and to the same nodes as before otherwise. -/

namespace TemplateCheck

namespace Node

def mapReferences (f : NodeId → NodeId) : Node → Node
  | openTag tag => openTag { tag with pairs := tag.pairs.map f }
  | closeTag tag => closeTag { tag with pairs := tag.pairs.map f }
  | velog v => velog { v with samenessKey := f v.samenessKey }
  | node => node

def awaited (owner : NodeId) (node : Node) : List PendingReference :=
  (references node).zipIdx.map fun (target, index) => ⟨target, owner, index⟩

variable {d : CopyState} {owner : NodeId}

theorem foldl_turn_pairs (wrap : Tag → Node) (hredirect : ∀ index target tag,
      redirect index target (wrap tag) = wrap { tag with pairs := tag.pairs.set index target })
    (tag : Tag) (turned pairs : List NodeId) :
    ((pairs.zipIdx turned.length).map fun (target, index) =>
        (⟨target, owner, index⟩ : PendingReference)).foldl d.turn
      (wrap { tag with pairs := turned ++ pairs }) =
      wrap { tag with pairs := turned ++ pairs.map d.image } := by
  induction pairs generalizing turned with
  | nil => rfl
  | cons target pairs ih =>
    have hturn : d.turn (wrap { tag with pairs := turned ++ target :: pairs })
        ⟨target, owner, turned.length⟩ =
        wrap { tag with pairs := (turned ++ [d.image target]) ++ pairs } := by
      rw [CopyState.turn, CopyState.image]
      cases d.copyOf? target with
      | none => simp
      | some new => exact (hredirect ..).trans (by simp)
    rw [List.zipIdx_cons, List.map_cons, List.foldl_cons, hturn]
    have hlength : turned.length + 1 = (turned ++ [d.image target]).length := by simp
    rw [hlength, ih]
    simp

theorem foldl_turn (owner : NodeId) (node : Node) :
    (awaited owner node).foldl d.turn node = node.mapReferences d.image := by
  cases node with
  | openTag tag => exact foldl_turn_pairs openTag (fun _ _ _ => rfl) tag [] tag.pairs
  | closeTag tag => exact foldl_turn_pairs closeTag (fun _ _ _ => rfl) tag [] tag.pairs
  | velog v =>
    show d.turn (velog v) ⟨v.samenessKey, owner, 0⟩ = _
    rw [CopyState.turn, mapReferences, CopyState.image]
    cases d.copyOf? v.samenessKey with
    | none => rfl
    | some new => rfl
  | _ => rfl

end Node

/-- The tree `t'` holds copies of the nodes from the roots down, known by the notes `d`. -/
structure Copies (t : TemplateTree) (roots copies : List NodeId) (d : CopyState)
    (t' : TemplateTree) : Prop where
  size : t'.size = t.size + (roots.flatMap t.preorder).length
  numbers : ∀ i (hi : i < (roots.flatMap t.preorder).length),
    d.copyOf? (roots.flatMap t.preorder)[i] = some ⟨t.size + i⟩
  others : ∀ x, x ∉ roots.flatMap t.preorder → d.copyOf? x = none
  tops : copies.map some = roots.map d.copyOf?
  parent : ∀ x new, d.copyOf? x = some new →
    t'.parentOf new = if x ∈ roots then none else (t.parentOf x).bind d.copyOf?
  children : ∀ x new, d.copyOf? x = some new →
    (t'.childrenOf new).map some = (t.childrenOf x).map d.copyOf?
  contents : ∀ x new, d.copyOf? x = some new → ∃ slot slot', t.slot? x = some slot ∧
    t'.slot? new = some slot' ∧ slot'.location = slot.location ∧
      slot'.payload = slot.payload.mapReferences d.image
  kept : ∀ n, t.Allocated n → t'.slot? n = t.slot? n

theorem awaited_eq {t : TemplateTree} {x : NodeId} {slot : Slot Node}
    (hslot : t.slot? x = some slot) (order : List NodeId) :
    t.awaited order x = Node.awaited (t.copyAs order x) slot.payload := by
  rw [Tree.awaited, hslot]
  rfl

section Finished
variable {t u : TemplateTree} {d : CopyState} {roots : List NodeId}

theorem slot?_finish (h : t.Shaped) (hroots : ∀ r ∈ roots, t.Allocated r)
    (hnodup : (roots.flatMap t.preorder).Nodup)
    (hmade : Copying.CopiesMade t (roots.flatMap t.preorder) [] roots (roots.flatMap t.preorder)
      t u d) {x : NodeId} (hx : x ∈ roots.flatMap t.preorder) :
    ∃ slot, t.slot? x = some slot ∧
      (d.finish u).slot? (t.copyAs (roots.flatMap t.preorder) x) = some
        { location := slot.location
          parent := if x ∈ roots then none
            else slot.parent.map (t.copyAs (roots.flatMap t.preorder))
          children := slot.children.map (t.copyAs (roots.flatMap t.preorder))
          payload := slot.payload.mapReferences d.image } := by
  obtain ⟨r, hr, hxr⟩ := List.mem_flatMap.1 hx
  obtain ⟨slot, hslot⟩ := Tree.slot?_eq_some (h.allocated_preorder (hroots r hr) hxr)
  have hpart : Copying.Partway t (roots.flatMap t.preorder) (roots.flatMap t.preorder) u d :=
    hmade.partway
  refine ⟨slot, hslot, ?_⟩
  rw [hpart.slot?_finish_copy hnodup hx (hmade.copies x hx) hslot, awaited_eq hslot,
    Node.foldl_turn]

theorem copies_finish (h : t.Shaped) (hroots : ∀ r ∈ roots, t.Allocated r)
    (hnodup : (roots.flatMap t.preorder).Nodup)
    (hmade : Copying.CopiesMade t (roots.flatMap t.preorder) [] roots (roots.flatMap t.preorder)
      t u d) :
    Copies t roots (roots.map (t.copyAs (roots.flatMap t.preorder))) d (d.finish u) := by
  have hpart : Copying.Partway t (roots.flatMap t.preorder) (roots.flatMap t.preorder) u d :=
    hmade.partway
  have hcopyOf (x : NodeId) (hx : x ∈ roots.flatMap t.preorder) :
      d.copyOf? x = some (t.copyAs (roots.flatMap t.preorder) x) := by
    rw [hpart.copyOf?, if_pos hx]
  have hmap {l : List NodeId} (hl : ∀ x ∈ l, x ∈ roots.flatMap t.preorder) :
      (l.map (t.copyAs (roots.flatMap t.preorder))).map some = l.map d.copyOf? := by
    rw [List.map_map]
    exact List.map_congr_left fun x hx => (hcopyOf x (hl x hx)).symm
  constructor
  case size => exact hpart.size_finish
  case numbers =>
    intro i hi
    rw [hcopyOf _ (List.getElem_mem hi), Tree.copyAs, hnodup.idxOf_getElem]
  case others =>
    intro x hx
    rw [hpart.copyOf?, if_neg hx]
  case tops =>
    exact hmap fun r hr => List.mem_flatMap.2 ⟨r, hr, by simp [h.preorder_eq (hroots r hr)]⟩
  case parent =>
    intro x new hnew
    obtain ⟨hx, rfl⟩ := hpart.copyOf?_eq_some.1 hnew
    obtain ⟨slot, hslot, hcopy⟩ := slot?_finish h hroots hnodup hmade hx
    rw [Tree.parentOf, hcopy, Option.bind_some, Tree.parentOf, hslot, Option.bind_some]
    by_cases hroot : x ∈ roots
    · rw [if_pos hroot, if_pos hroot]
    · rw [if_neg hroot, if_neg hroot]
      cases hparent : slot.parent with
      | none => rfl
      | some p =>
        obtain ⟨r, hr, hxr⟩ := List.mem_flatMap.1 hx
        have hxp : t.parentOf x = some p := by rw [Tree.parentOf, hslot, Option.bind_some, hparent]
        have hxne : x ≠ r := by
          rintro rfl
          exact hroot hr
        have hp := h.parent_mem_preorder (hroots r hr) hxr hxne hxp
        rw [Option.map_some, Option.bind_some, hcopyOf p (List.mem_flatMap.2 ⟨r, hr, hp⟩)]
  case children =>
    intro x new hnew
    obtain ⟨hx, rfl⟩ := hpart.copyOf?_eq_some.1 hnew
    obtain ⟨slot, hslot, hcopy⟩ := slot?_finish h hroots hnodup hmade hx
    obtain ⟨r, hr, hxr⟩ := List.mem_flatMap.1 hx
    have hchildren : t.childrenOf x = slot.children := by rw [Tree.childrenOf, hslot]
    rw [Tree.childrenOf, hcopy, hchildren]
    refine hmap fun c hc => List.mem_flatMap.2 ⟨r, hr, ?_⟩
    exact h.child_mem_preorder (hroots r hr) hxr (hchildren ▸ hc)
  case contents =>
    intro x new hnew
    obtain ⟨hx, rfl⟩ := hpart.copyOf?_eq_some.1 hnew
    obtain ⟨slot, hslot, hcopy⟩ := slot?_finish h hroots hnodup hmade hx
    exact ⟨slot, _, hslot, hcopy, rfl, rfl⟩
  case kept =>
    intro n hn
    exact hpart.slot?_finish_old hn

theorem exists_copies (h : t.Shaped) (hroots : ∀ r ∈ roots, t.Allocated r)
    (hdisjoint : roots.Pairwise fun q r => List.Disjoint (t.preorder q) (t.preorder r)) :
    ∃ copies u d, roots.mapM Copying.copy (t, CopyState.empty) = (.ok copies, u, d) ∧
      Copies t roots copies d (d.finish u) := by
  have hnodup : (roots.flatMap t.preorder).Nodup :=
    List.nodup_flatMap.2 ⟨fun r hr => h.nodup_preorder (hroots r hr), hdisjoint⟩
  have hstart : Copying.Partway t (roots.flatMap t.preorder) [] t CopyState.empty :=
    ⟨rfl, fun _ _ => rfl, rfl, rfl⟩
  obtain ⟨u, d, hrun, hmade⟩ := Copying.run_mapM_copy_partway h hnodup hroots rfl hstart
  exact ⟨_, u, d, hrun, copies_finish h hroots hnodup hmade⟩

end Finished

/-- Copies made one after the other with the same notes, in a tree that any operations lead to. -/
theorem copies_run (operations : List (Operation Node)) {roots : List NodeId}
    (hroots : ∀ r ∈ roots, (Workspace.run operations).tree.Allocated r)
    (hdisjoint : roots.Pairwise fun q r => List.Disjoint
      ((Workspace.run operations).tree.preorder q) ((Workspace.run operations).tree.preorder r)) :
    ∃ copies u d,
      roots.mapM Copying.copy ((Workspace.run operations).tree, CopyState.empty) =
        (.ok copies, u, d) ∧
      Copies (Workspace.run operations).tree roots copies d (d.finish u) :=
  exists_copies (Workspace.shaped_run operations) hroots hdisjoint

def pairedTags : List (Operation Node) :=
  [.add .unknown (.velog ⟨.null, [], none, false, ⟨0⟩⟩),
    .add .unknown (.openTag ⟨"b", false, [⟨2⟩, ⟨3⟩, ⟨4⟩]⟩),
    .add .unknown (.closeTag ⟨"b", false, [⟨1⟩]⟩), .add .unknown (.closeTag ⟨"b", false, [⟨1⟩]⟩),
    .add .unknown (.closeTag ⟨"b", false, [⟨1⟩]⟩), .addChildren ⟨0⟩ [⟨1⟩, ⟨2⟩]]

theorem copies_run_pairedTags :
    (∀ r ∈ ([⟨3⟩, ⟨0⟩] : List NodeId), (Workspace.run pairedTags).tree.Allocated r) ∧
      ∃ copies u d, ([⟨3⟩, ⟨0⟩] : List NodeId).mapM Copying.copy
          ((Workspace.run pairedTags).tree, CopyState.empty) = (.ok copies, u, d) ∧
        Copies (Workspace.run pairedTags).tree [⟨3⟩, ⟨0⟩] copies d (d.finish u) := by
  have hroots : ∀ r ∈ ([⟨3⟩, ⟨0⟩] : List NodeId), (Workspace.run pairedTags).tree.Allocated r := by
    decide
  have hdisjoint : List.Disjoint ((Workspace.run pairedTags).tree.preorder ⟨3⟩)
      ((Workspace.run pairedTags).tree.preorder ⟨0⟩) := List.disjoint_left.2 (by decide)
  exact ⟨hroots, copies_run pairedTags hroots (List.pairwise_pair.2 hdisjoint)⟩

/-- The copies of the tags are paired with each other and with the tag that has no copy. -/
example : ((Editing.copySubtree ⟨0⟩ (Workspace.run pairedTags).tree).2.slots.toList.map
    fun slot => slot.payload.references) =
    [[⟨0⟩], [⟨2⟩, ⟨3⟩, ⟨4⟩], [⟨1⟩], [⟨1⟩], [⟨1⟩], [⟨5⟩], [⟨7⟩, ⟨3⟩, ⟨4⟩], [⟨6⟩]] := by decide

end TemplateCheck

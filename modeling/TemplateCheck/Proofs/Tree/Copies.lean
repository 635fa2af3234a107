import TemplateCheck.Proofs.Tree.Copying
import TemplateCheck.Proofs.Tree.Preorder

/-! Copies that succeed. The copies of the nodes of a list get the next numbers, in the order of the
list, and are linked among themselves as the nodes are. -/

namespace TemplateCheck

variable {P : Type} {t u : Tree P} {d : CopyState} {n x : NodeId} {order before rest : List NodeId}

theorem List.lookup_map_pair {α β : Type} [BEq α] [LawfulBEq α] (f : α → β) (l : List α) (a : α) :
    (l.map fun x => (x, f x)).lookup a = if a ∈ l then some (f a) else none := by
  induction l with
  | nil => rfl
  | cons b l ih =>
    rw [List.map_cons, List.lookup_cons, ih]
    by_cases hab : a = b
    · simp [hab]
    · simp [hab, beq_eq_false_iff_ne.2 hab]

namespace Tree

def copyAs (t : Tree P) (order : List NodeId) (x : NodeId) : NodeId := ⟨t.size + order.idxOf x⟩

theorem copyAs_index_ge (t : Tree P) (order : List NodeId) (x : NodeId) :
    t.size ≤ (t.copyAs order x).index :=
  Nat.le_add_right _ _

theorem copyAs_inj {y : NodeId} (hx : x ∈ order) (h : t.copyAs order x = t.copyAs order y) :
    x = y := by
  have hidx : order.idxOf x = order.idxOf y := Nat.add_left_cancel (congrArg NodeId.index h)
  exact (List.idxOf_inj hx).1 hidx

theorem copyAs_append (horder : order = before ++ n :: rest) (hn : n ∉ before) :
    t.copyAs order n = ⟨t.size + before.length⟩ := by
  rw [copyAs, horder, List.idxOf_append_of_notMem hn, List.idxOf_cons_self, Nat.add_zero]

def HasCopy (t : Tree P) (order top : List NodeId) (u : Tree P) (x : NodeId) : Prop :=
  ∀ slot, t.slot? x = some slot → u.slot? (t.copyAs order x) = some
    { slot with
      parent := if x ∈ top then none else slot.parent.map (t.copyAs order)
      children := slot.children.map (t.copyAs order) }

theorem HasCopy.congr {top top' : List NodeId} {u' : Tree P} (h : t.HasCopy order top u x)
    (hslot : u'.slot? (t.copyAs order x) = u.slot? (t.copyAs order x))
    (htop : x ∈ top ↔ x ∈ top') : t.HasCopy order top' u' x := by
  intro slot hx
  rw [hslot, h slot hx]
  simp only [htop]

theorem HasCopy.attach {c : NodeId} {l : List NodeId} (h : t.HasCopy order [c] u x)
    (hc : t.parentOf c = some n) (hx : x ∈ order) (hnx : t.copyAs order n ≠ t.copyAs order x) :
    t.HasCopy order []
      ((u.withChildren (t.copyAs order n) l).withParent (t.copyAs order c)
        (some (t.copyAs order n))) x := by
  intro slot hslot
  have hcopy := h slot hslot
  by_cases hxc : x = c
  · subst hxc
    have hparent : slot.parent = some n := by rwa [parentOf, hslot] at hc
    rw [slot?_attach_child hnx hcopy, hparent]
    rfl
  · have hcx : t.copyAs order c ≠ t.copyAs order x := fun heq => hxc (copyAs_inj hx heq.symm)
    rw [slot?_attach_other hnx hcx, hcopy]
    simp [hxc]

end Tree

variable [CrossReferring P]

def Tree.awaited (t : Tree P) (order : List NodeId) (x : NodeId) : List PendingReference :=
  match t.slot? x with
  | some slot =>
    (CrossReferring.references slot.payload).zipIdx.map fun (target, index) =>
      ⟨target, t.copyAs order x, index⟩
  | none => []

namespace Copying

/-- The nodes of the first part of the order have been copied. -/
structure Partway (t : Tree P) (order before : List NodeId) (u : Tree P) (d : CopyState) :
    Prop where
  size : u.size = t.size + before.length
  kept : ∀ n, t.Allocated n → u.slot? n = t.slot? n
  copies : d.copies = (before.map fun x => (x, t.copyAs order x)).reverse
  pending : d.pending = before.flatMap (t.awaited order)

namespace Partway

theorem copyOf? (h : Partway t order before u d) (x : NodeId) :
    d.copyOf? x = if x ∈ before then some (t.copyAs order x) else none := by
  rw [CopyState.copyOf?, h.copies, ← List.map_reverse, List.lookup_map_pair]
  simp only [List.mem_reverse]

theorem next (h : Partway t order before u d) (horder : order = before ++ n :: rest)
    (hn : n ∉ before) : u.next = t.copyAs order n := by
  rw [Tree.next, h.size, Tree.copyAs_append horder hn]

theorem not_allocated (h : Partway t order before u d) (horder : order = before ++ n :: rest)
    (hn : n ∉ before) : ¬ u.Allocated (t.copyAs order n) := by
  rw [Tree.copyAs_append horder hn, Tree.Allocated, h.size]
  exact Nat.lt_irrefl _

theorem copyOf?_eq_some (h : Partway t order before u d) {new : NodeId} :
    d.copyOf? x = some new ↔ x ∈ before ∧ t.copyAs order x = new := by
  rw [h.copyOf?, Option.ite_none_right_eq_some, Option.some.injEq]

theorem copyNode (h : Partway t order before u d) (horder : order = before ++ n :: rest)
    (hn : n ∉ before) {slot : Slot P} (hslot : t.slot? n = some slot) :
    ∃ d', Copying.copyNode n (u, d) =
        (.ok (t.copyAs order n), u.add slot.location slot.payload, d') ∧
      Partway t order (before ++ [n]) (u.add slot.location slot.payload) d' := by
  have halloc : t.Allocated n := Tree.allocated_of_slot? hslot
  have hu : u.slot? n = some slot := by rw [h.kept n halloc, hslot]
  have hnext := h.next horder hn
  have hfresh : d.copyOf? n = none := by rw [h.copyOf?, if_neg hn]
  refine ⟨_, by rw [run_copyNode hu, hfresh, hnext]; rfl, ?_, fun m hm => ?_, ?_, ?_⟩
  · rw [Tree.size_add, h.size, List.length_append, List.length_singleton, Nat.add_assoc]
  · have hmu : m.index < u.size := by
      rw [h.size]
      exact Nat.lt_add_right _ hm
    rw [(Tree.GrowsAbove.add ..).kept m hmu, h.kept m hm]
  · have hother : d.copies.filter (·.1 != n) = d.copies := by
      rw [List.filter_eq_self, h.copies]
      simp only [List.mem_reverse, List.mem_map, bne_iff_ne]
      rintro _ ⟨x, hx, rfl⟩ hxn
      exact hn (hxn ▸ hx)
    simp only [CopyState.record, CopyState.await, hother, List.map_append, List.reverse_append]
    rw [h.copies]
    rfl
  · simp only [CopyState.record, CopyState.await, List.flatMap_append, h.pending,
      List.flatMap_singleton, Tree.awaited, hslot]

end Partway

theorem Partway.attach (h : Partway t order before u d) {p c : NodeId} {l : List NodeId} :
    Partway t order before ((u.withChildren (t.copyAs order p) l).withParent (t.copyAs order c)
      (some (t.copyAs order p))) d where
  size := by simp [h.size]
  kept m hm := by
    have hgrows := Tree.GrowsAbove.attach (t := u) (l := l) (q := some (t.copyAs order p))
      (t.copyAs_index_ge order p) (t.copyAs_index_ge order c)
    rw [hgrows.kept m hm, h.kept m hm]
  copies := h.copies
  pending := h.pending

structure CopiesMade (t : Tree P) (order before top nodes : List NodeId) (u u' : Tree P)
    (d' : CopyState) : Prop where
  partway : Partway t order (before ++ nodes) u' d'
  grows : u.GrowsAbove u.size u'
  copies : ∀ x ∈ nodes, t.HasCopy order top u' x

structure ChildrenMade (t : Tree P) (order before : List NodeId) (n : NodeId) (slot : Slot P)
    (children nodes : List NodeId) (u u' : Tree P) (d' : CopyState) : Prop where
  partway : Partway t order (before ++ nodes) u' d'
  size : u.size ≤ u'.size
  kept : ∀ m, u.Allocated m → m ≠ t.copyAs order n → u'.slot? m = u.slot? m
  parent : u'.slot? (t.copyAs order n) =
    some { slot with parent := none, children := children.map (t.copyAs order) }
  copies : ∀ x ∈ nodes, t.HasCopy order [] u' x

theorem ChildrenMade.trans {slot : Slot P} {l₁ l₂ nodes₁ nodes₂ : List NodeId} {u₁ u₂ : Tree P}
    {d₁ d₂ : CopyState} (h₁ : ChildrenMade t order before n slot l₁ nodes₁ u u₁ d₁)
    (h₂ : ChildrenMade t order (before ++ nodes₁) n slot l₂ nodes₂ u₁ u₂ d₂)
    (hnodes : ∀ x ∈ nodes₁, t.Allocated x ∧ t.copyAs order x ≠ t.copyAs order n) :
    ChildrenMade t order before n slot l₂ (nodes₁ ++ nodes₂) u u₂ d₂ where
  partway := by simpa using h₂.partway
  size := Nat.le_trans h₁.size h₂.size
  kept m hm hmn := by
    rw [h₂.kept m (Nat.lt_of_lt_of_le hm h₁.size) hmn, h₁.kept m hm hmn]
  parent := h₂.parent
  copies x hx := by
    rcases List.mem_append.1 hx with hx | hx
    · obtain ⟨halloc, hne⟩ := hnodes x hx
      obtain ⟨xslot, hxslot⟩ := Tree.slot?_eq_some halloc
      have hcopied := h₁.copies x hx
      have hxu := Tree.allocated_of_slot? (hcopied xslot hxslot)
      exact hcopied.congr (h₂.kept _ hxu hne) Iff.rfl
    · exact h₂.copies x hx

theorem CopiesMade.attach {depth : Nat} {slot : Slot P} {c : NodeId} {done rest : List NodeId}
    {u₁ : Tree P} {d₁ : CopyState} (cs : List NodeId)
    (h : CopiesMade t order before [c] (t.preorder c) u u₁ d₁)
    (hrun : copyWithin depth c (u, d) = (.ok (t.copyAs order c), u₁, d₁))
    (hc : t.parentOf c = some n) (horder : order = before ++ (t.preorder c ++ rest))
    (hself : c ∈ t.preorder c) (hfresh : ¬ u.Allocated (t.copyAs order c))
    (hne : ∀ x ∈ t.preorder c, t.copyAs order x ≠ t.copyAs order n)
    (hnew : u.slot? (t.copyAs order n) =
      some { slot with parent := none, children := done.map (t.copyAs order) }) :
    ∃ u₂, copyChildren depth (t.copyAs order n) (c :: cs) (u, d) =
        copyChildren depth (t.copyAs order n) cs (u₂, d₁) ∧
      ChildrenMade t order before n slot (done ++ [c]) (t.preorder c) u u₂ d₁ := by
  have hnu : u.Allocated (t.copyAs order n) := Tree.allocated_of_slot? hnew
  have hnew₁ := (h.grows.kept _ hnu).trans hnew
  obtain ⟨cslot, hcslot⟩ := Tree.slot?_eq_some (Tree.allocated_of_parentOf hc)
  have hcu : u₁.Allocated (t.copyAs order c) :=
    Tree.allocated_of_slot? (h.copies c hself cslot hcslot)
  have hchildren₁ : u₁.childrenOf (t.copyAs order n) = done.map (t.copyAs order) := by
    rw [Tree.childrenOf, hnew₁]
  refine ⟨(u₁.withChildren (t.copyAs order n) ((done ++ [c]).map (t.copyAs order))).withParent
    (t.copyAs order c) (some (t.copyAs order n)), ?_, ?_⟩
  · rw [run_copyChildren_cons, hrun]
    dsimp only
    rw [run_attach (h.grows.allocated hnu) hcu, hchildren₁, ← List.map_singleton,
      ← List.map_append]
  constructor
  case partway => exact h.partway.attach
  case size => simpa using h.grows.size
  case kept =>
    intro m hm hmn
    have hmc : t.copyAs order c ≠ m := by
      rintro rfl
      exact hfresh hm
    rw [Tree.slot?_attach_other hmn.symm hmc, h.grows.kept m hm]
  case parent => exact Tree.slot?_attach_parent (hne c hself).symm hnew₁
  case copies =>
    intro x hx
    have hxorder : x ∈ order := by simp [horder, hx]
    exact (h.copies x hx).attach hc hxorder (hne x hx).symm

theorem run_copyChildren_partway (h : t.Shaped) (hnodup : order.Nodup) {depth : Nat}
    (hone : ∀ c before rest u d, t.Allocated c → t.levels c ≤ depth →
      order = before ++ (t.preorder c ++ rest) → Partway t order before u d →
      ∃ u' d', copyWithin depth c (u, d) = (.ok (t.copyAs order c), u', d') ∧
        CopiesMade t order before [c] (t.preorder c) u u' d')
    {slot : Slot P} (hslot : t.slot? n = some slot) {before rest cs : List NodeId}
    (done : List NodeId) (hchildren : slot.children = done ++ cs)
    (hlevels : ∀ c ∈ cs, t.levels c ≤ depth) (hn : n ∈ before)
    (horder : order = before ++ (cs.flatMap t.preorder ++ rest))
    (hs : Partway t order before u d)
    (hnew : u.slot? (t.copyAs order n) =
      some { slot with parent := none, children := done.map (t.copyAs order) }) :
    ∃ u' d', copyChildren depth (t.copyAs order n) cs (u, d) = (.ok (), u', d') ∧
      ChildrenMade t order before n slot slot.children (cs.flatMap t.preorder) u u' d' := by
  induction cs generalizing before done u d with
  | nil =>
    rw [List.append_nil] at hchildren
    rw [← hchildren] at hnew
    exact ⟨u, d, rfl, by simpa using hs, Nat.le_refl _, fun _ _ _ => rfl, hnew,
      List.forall_mem_nil _⟩
  | cons c cs ih =>
    have hc : t.parentOf c = some n := by
      rw [← h.mem_childrenOf, Tree.childrenOf, hslot]
      simp [hchildren]
    have hcalloc : t.Allocated c := Tree.allocated_of_parentOf hc
    obtain ⟨hclevels, hcslevels⟩ := List.forall_mem_cons.1 hlevels
    rw [List.flatMap_cons, List.append_assoc] at horder
    have hself : c ∈ t.preorder c := by simp [h.preorder_eq hcalloc]
    have hdisjoint : List.Disjoint before (t.preorder c) := by
      rw [horder] at hnodup
      exact fun x hx hxc => List.disjoint_of_nodup_append hnodup hx (List.mem_append_left _ hxc)
    have hne (x : NodeId) (hx : x ∈ t.preorder c) : t.copyAs order x ≠ t.copyAs order n :=
      fun heq => hdisjoint hn (Tree.copyAs_inj (by simp [horder, hx]) heq ▸ hx)
    have hfresh : ¬ u.Allocated (t.copyAs order c) :=
      hs.not_allocated (by rw [horder, h.preorder_eq hcalloc]; rfl)
        fun hbefore => hdisjoint hbefore hself
    obtain ⟨u₁, d₁, hrun, hcopied⟩ := hone c before _ u d hcalloc hclevels horder hs
    obtain ⟨u₂, hstep, hattached⟩ :=
      hcopied.attach cs hrun hc horder hself hfresh hne hnew
    obtain ⟨u', d', hrest, hattached'⟩ := ih (done ++ [c])
      (by rw [hchildren, List.append_assoc]; rfl) hcslevels (List.mem_append_left _ hn)
      (by rw [horder, List.append_assoc]) hattached.partway hattached.parent
    rw [List.flatMap_cons]
    refine ⟨u', d', hstep.trans hrest, hattached.trans hattached' fun x hx => ?_⟩
    exact ⟨h.allocated_preorder hcalloc hx, hne x hx⟩

theorem run_copyWithin_partway (h : t.Shaped) (hnodup : order.Nodup) (depth : Nat) (n : NodeId)
    (before rest : List NodeId) (u : Tree P) (d : CopyState) (hn : t.Allocated n)
    (hlevels : t.levels n ≤ depth) (horder : order = before ++ (t.preorder n ++ rest))
    (hs : Partway t order before u d) :
    ∃ u' d', copyWithin depth n (u, d) = (.ok (t.copyAs order n), u', d') ∧
      CopiesMade t order before [n] (t.preorder n) u u' d' := by
  induction depth generalizing n before rest u d with
  | zero => exact absurd (h.levels_pos hn) (Nat.not_lt_of_le hlevels)
  | succ depth ih =>
    obtain ⟨slot, hslot⟩ := Tree.slot?_eq_some hn
    have hchildren : t.childrenOf n = slot.children := by rw [Tree.childrenOf, hslot]
    have hpreorder : t.preorder n = n :: slot.children.flatMap t.preorder := by
      rw [h.preorder_eq hn, hchildren]
    have hbelow : n ∉ slot.children.flatMap t.preorder := by
      have hpre := h.nodup_preorder hn
      rw [hpreorder] at hpre
      exact (List.nodup_cons.1 hpre).1
    rw [hpreorder] at horder ⊢
    have hbefore : n ∉ before := by
      rw [horder] at hnodup
      exact fun hmem => List.disjoint_of_nodup_append hnodup hmem (by simp)
    -- The node comes first in its pre-order, so its copy has the next number.
    obtain ⟨d₁, hnode, hpart⟩ := hs.copyNode horder hbefore hslot
    have hadd : u.GrowsAbove u.size (u.add slot.location slot.payload) := .add ..
    have hnew : (u.add slot.location slot.payload).slot? (t.copyAs order n) =
        some { slot with parent := none, children := [] } := by
      rw [← hs.next horder hbefore, Tree.slot?_add, if_pos rfl]
    have hlevel (c : NodeId) (hc : c ∈ slot.children) : t.levels c ≤ depth :=
      Nat.le_of_lt_succ (Nat.lt_of_lt_of_le (h.levels_child (hchildren ▸ hc)) hlevels)
    obtain ⟨u', d', hloop, hattached⟩ := run_copyChildren_partway h hnodup ih hslot [] rfl hlevel
      (List.mem_append_right before (List.mem_singleton_self n)) (by simpa using horder) hpart hnew
    have hrun : copyWithin (depth + 1) n (u, d) = (.ok (t.copyAs order n), u', d') := by
      have hu : u.slot? n = some slot := by rw [hs.kept n hn, hslot]
      have hchildrenu : u.childrenOf n = slot.children := by rw [Tree.childrenOf, hu]
      rw [run_copyWithin hu, hnode]
      dsimp only
      rw [hchildrenu, hloop]
    refine ⟨u', d', hrun, by simpa using hattached.partway, ?_, ?_⟩
    · refine ⟨Nat.le_trans hadd.size hattached.size, fun m hm => ?_⟩
      have hmn : m ≠ t.copyAs order n := by
        rintro rfl
        exact hs.not_allocated horder hbefore hm
      rw [hattached.kept m (hadd.allocated hm) hmn, hadd.kept m hm]
    · refine List.forall_mem_cons.2 ⟨fun xslot hxslot => ?_, fun x hx => ?_⟩
      · cases hslot.symm.trans hxslot
        rw [hattached.parent]
        simp
      · have hxn : x ≠ n := ne_of_mem_of_not_mem hx hbelow
        exact (hattached.copies x hx).congr rfl (by simp [hxn])

theorem run_mapM_copy_partway (h : t.Shaped) (hnodup : order.Nodup) {roots : List NodeId}
    (hroots : ∀ r ∈ roots, t.Allocated r) {before : List NodeId}
    (horder : order = before ++ roots.flatMap t.preorder) (hs : Partway t order before u d) :
    ∃ u' d', roots.mapM copy (u, d) = (.ok (roots.map (t.copyAs order)), u', d') ∧
      CopiesMade t order before roots (roots.flatMap t.preorder) u u' d' := by
  induction roots generalizing before u d with
  | nil => exact ⟨u, d, rfl, by simpa using hs, .refl _ _, List.forall_mem_nil _⟩
  | cons r roots ih =>
    obtain ⟨hr, hrest⟩ := List.forall_mem_cons.1 hroots
    rw [List.flatMap_cons] at horder ⊢
    have hlevels : t.levels r ≤ u.size + 1 := by
      rw [hs.size, Tree.levels]
      omega
    obtain ⟨u₁, d₁, hrun, hcopied⟩ :=
      run_copyWithin_partway h hnodup (u.size + 1) r before _ u d hr hlevels horder hs
    obtain ⟨u', d', hrun', hcopied'⟩ :=
      ih hrest (by rw [horder, List.append_assoc]) hcopied.partway
    have hcopy : copy r (u, d) = (.ok (t.copyAs order r), u₁, d₁) := by
      rw [copy, run_bind, run_get]
      exact hrun
    have hdisjoint : List.Disjoint (t.preorder r) (roots.flatMap t.preorder) := by
      rw [horder] at hnodup
      exact List.disjoint_of_nodup_append (List.nodup_append.1 hnodup).2.1
    have hself (q : NodeId) (hq : t.Allocated q) : q ∈ t.preorder q := by simp [h.preorder_eq hq]
    have hruns : (r :: roots).mapM copy (u, d) =
        (.ok ((r :: roots).map (t.copyAs order)), u', d') := by
      rw [List.mapM_cons, run_bind, hcopy]
      dsimp only
      rw [run_bind, hrun']
      rfl
    refine ⟨u', d', hruns, by simpa using hcopied'.partway,
      hcopied.grows.trans (hcopied'.grows.mono hcopied.grows.size), fun x hx => ?_⟩
    rcases List.mem_append.1 hx with hx | hx
    · have hxroots : x ∉ roots := fun hmem =>
        hdisjoint hx (List.mem_flatMap.2 ⟨x, hmem, hself x (hrest x hmem)⟩)
      have hcopyx := hcopied.copies x hx
      obtain ⟨xslot, hxslot⟩ := Tree.slot?_eq_some (h.allocated_preorder hr hx)
      have halloc := Tree.allocated_of_slot? (hcopyx xslot hxslot)
      exact hcopyx.congr (hcopied'.grows.kept _ halloc) (by simp [hxroots])
    · have hxr : x ≠ r := ne_of_mem_of_not_mem hx fun hmem => hdisjoint (hself r hr) hmem
      exact (hcopied'.copies x hx).congr rfl (by simp [hxr])

end Copying

namespace CopyState

def image (d : CopyState) (x : NodeId) : NodeId := (d.copyOf? x).getD x

def turn (d : CopyState) (payload : P) (r : PendingReference) : P :=
  match d.copyOf? r.target with
  | some new => CrossReferring.redirect r.index new payload
  | none => payload

theorem slot?_redirectReference (d : CopyState) (r : PendingReference) (u : Tree P) (m : NodeId) :
    (d.redirectReference u r).slot? m = (u.slot? m).map fun slot =>
      { slot with payload := if r.owner = m then d.turn slot.payload r else slot.payload } := by
  rw [redirectReference]
  cases hcopy : d.copyOf? r.target with
  | none => simp [turn, hcopy]
  | some new =>
    dsimp only
    rw [Tree.slot?_update]
    by_cases hm : r.owner = m
    · simp [hm, turn, hcopy]
    · simp [hm]

theorem size_finish (d : CopyState) (u : Tree P) : (d.finish u).size = u.size := by
  rw [finish]
  induction d.pending generalizing u with
  | nil => rfl
  | cons r pending ih =>
    rw [List.foldl_cons, ih, redirectReference]
    cases d.copyOf? r.target with
    | none => rfl
    | some new => exact Tree.size_update

theorem slot?_foldl_redirect (d : CopyState) (pending : List PendingReference) (u : Tree P)
    (m : NodeId) :
    (pending.foldl d.redirectReference u).slot? m = (u.slot? m).map fun slot =>
      { slot with payload := (pending.filter (·.owner == m)).foldl d.turn slot.payload } := by
  induction pending generalizing u with
  | nil => simp
  | cons r pending ih =>
    rw [List.foldl_cons, ih, slot?_redirectReference, Option.map_map, List.filter_cons]
    congr 1
    funext slot
    by_cases hm : r.owner = m
    · simp [hm]
    · simp [hm]

end CopyState

theorem List.flatMap_ite_eq {α β : Type} [DecidableEq α] {l : List α} (hnodup : l.Nodup) {a : α}
    (ha : a ∈ l) (k : List β) : (l.flatMap fun b => if b = a then k else []) = k := by
  induction l with
  | nil => cases ha
  | cons b l ih =>
    obtain ⟨hb, hl⟩ := List.nodup_cons.1 hnodup
    rw [List.flatMap_cons]
    rcases List.mem_cons.1 ha with rfl | ha
    · have hrest : (l.flatMap fun b => if b = a then k else []) = [] := by
        rw [List.flatMap_eq_nil_iff]
        intro c hc
        rw [if_neg]
        rintro rfl
        exact hb hc
      rw [if_pos rfl, hrest, List.append_nil]
    · rw [if_neg fun hba : b = a => hb (hba ▸ ha), List.nil_append, ih hl ha]

namespace Tree

theorem owner_awaited {r : PendingReference} (hr : r ∈ t.awaited order x) :
    r.owner = t.copyAs order x := by
  rw [awaited] at hr
  split at hr
  · obtain ⟨⟨target, index⟩, -, rfl⟩ := List.mem_map.1 hr
    rfl
  · cases hr

theorem filter_awaited (hnodup : order.Nodup) (hx : x ∈ order) :
    (order.flatMap (t.awaited order)).filter (·.owner == t.copyAs order x) = t.awaited order x := by
  rw [List.filter_flatMap, ← List.flatMap_ite_eq hnodup hx (t.awaited order x)]
  refine List.flatMap_congr fun y hy => ?_
  by_cases hyx : y = x
  · rw [if_pos hyx, hyx, List.filter_eq_self]
    intro r hr
    rw [owner_awaited hr, beq_self_eq_true]
  · rw [if_neg hyx, List.filter_eq_nil_iff]
    intro r hr
    rw [owner_awaited hr, beq_iff_eq]
    exact fun heq => hyx (copyAs_inj hy heq)

end Tree

namespace Copying.Partway

theorem size_finish (h : Partway t order order u d) :
    (d.finish u).size = t.size + order.length := by
  rw [← h.size, CopyState.size_finish]

theorem slot?_finish_old (h : Partway t order order u d) (hn : t.Allocated n) :
    (d.finish u).slot? n = t.slot? n := by
  have hnone : d.pending.filter (·.owner == n) = [] := by
    rw [List.filter_eq_nil_iff, h.pending]
    intro r hr
    obtain ⟨x, -, hr⟩ := List.mem_flatMap.1 hr
    rw [Tree.owner_awaited hr, beq_iff_eq]
    rintro rfl
    exact absurd hn (Nat.not_lt_of_le (t.copyAs_index_ge order x))
  rw [CopyState.finish, CopyState.slot?_foldl_redirect, hnone, h.kept n hn]
  simp

theorem slot?_finish_copy (h : Partway t order order u d) (hnodup : order.Nodup) (hx : x ∈ order)
    {top : List NodeId} (hcopy : t.HasCopy order top u x) {slot : Slot P}
    (hslot : t.slot? x = some slot) :
    (d.finish u).slot? (t.copyAs order x) = some
      { location := slot.location
        parent := if x ∈ top then none else slot.parent.map (t.copyAs order)
        children := slot.children.map (t.copyAs order)
        payload := (t.awaited order x).foldl d.turn slot.payload } := by
  rw [CopyState.finish, CopyState.slot?_foldl_redirect, h.pending, Tree.filter_awaited hnodup hx,
    hcopy slot hslot]
  rfl

end Copying.Partway
end TemplateCheck

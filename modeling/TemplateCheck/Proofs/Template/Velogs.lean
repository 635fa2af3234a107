import TemplateCheck.Proofs.Template.Keys
import TemplateCheck.Proofs.Tree.Workspace

/-! The keys of velogs after any calls. When all copies are finished, velogs are their own keys if
only velogs have been copied that were their own keys at that time, and only then. -/

namespace TemplateCheck
open TemplateTree

inductive WorkspaceCall where
  | call (c : TemplateCall)
  | setExpressions (n : NodeId) (data : Expr) (logonly : Option Expr)
  | copySubtree (root : NodeId)
  | copy (number : Nat) (root : NodeId)
  | finish (number : Nat)

def Node.setExpressions (data : Expr) (logonly : Option Expr) : Node → Node
  | velog v => velog { v with data, logonly }
  | node => node

def Workspace.notes (w : Workspace Node) : Option Nat → CopyState
  | none => .empty
  | some number => w.copies number

namespace WorkspaceCall

def perform (w : Workspace Node) : WorkspaceCall → Workspace Node
  | call c => ⟨c.perform w.tree, w.copies⟩
  | setExpressions n data logonly =>
    ⟨TemplateTree.setPayload w.tree n (Node.setExpressions data logonly), w.copies⟩
  | copySubtree root => w.edit (Editing.copySubtree root)
  | copy number root => w.copy number root
  | finish number => w.finish number

/-- The copy that a call makes of a node. -/
def copyOf? (w : Workspace Node) : WorkspaceCall → NodeId → Option NodeId
  | copySubtree root, x => (Copying.copy root (w.tree, .empty)).2.2.copyOf? x
  | copy number root, x =>
    if ((w.copies number).copyOf? x).isSome then none
    else (Copying.copy root (w.tree, w.copies number)).2.2.copyOf? x
  | _, _ => none

/-- A copy with notes is not a misuse: no node is copied twice with the same notes. -/
def Succeeds (w : Workspace Node) : WorkspaceCall → Prop
  | copy number root => ∃ new, (Copying.copy root (w.tree, w.copies number)).1 = .ok new
  | _ => True

/-- The velogs that are copied are their own keys. -/
def CopiesOwnKeys (w : Workspace Node) (c : WorkspaceCall) : Prop :=
  ∀ x k, (c.copyOf? w x).isSome → keyOf w.tree x = some k → k = x

def Changes (n : NodeId) : WorkspaceCall → Prop
  | setExpressions m _ _ => m = n
  | _ => False

/-- What is left after a sequence of calls. -/
def after (w : Workspace Node) (calls : List WorkspaceCall) : Workspace Node :=
  calls.foldl perform w

/-- The condition holds of each call when it is made. -/
def Throughout (p : Workspace Node → WorkspaceCall → Prop) :
    Workspace Node → List WorkspaceCall → Prop
  | _, [] => True
  | w, c :: calls => p w c ∧ Throughout p (c.perform w) calls

section Made
variable {changed : NodeId → Prop} {t t' : TemplateTree} {n m : NodeId}

theorem makesOnly_of_velogOf (hsize : t.size ≤ t'.size) (h : ∀ n, t'.velogOf n = t.velogOf n) :
    MakesOnly changed t t' where
  size := hsize
  key n := .inl (by rw [keyOf, h, keyOf])
  expressions n _ _ := by rw [expressionsOf, h, expressionsOf]

theorem velogOf_setPayload {change : Node → Node}
    (h : ∀ node, t.payloadOf m = some node → (change node).velog? = node.velog?) :
    velogOf (t.setPayload m change) n = t.velogOf n := by
  rw [velogOf, payloadOf_setPayload, velogOf]
  split
  · next hm =>
    rw [← hm]
    cases hnode : t.payloadOf m with
    | none => rfl
    | some node => exact h node hnode
  · rfl

theorem velog?_addPair (pair : NodeId) (node : Node) :
    (node.addPair pair).velog? = node.velog? := by
  cases node <;> rfl

theorem makesOnly_build {given : List (NodeId × NodeId)} (h : Built t t' given) :
    MakesOnly changed t t' := by
  cases h with
  | @made l node hfresh =>
    have hother {n : NodeId} (hn : n ≠ t.next) : velogOf (t.add l node) n = t.velogOf n :=
      velogOf_congr (payloadOf_add.trans (if_neg hn))
    refine ⟨by simp, fun n => ?_, fun n hn _ => ?_⟩
    · by_cases hn : n = t.next
      · subst hn
        have hnew : velogOf (t.add l node) t.next = node.velog? := by
          rw [velogOf, payloadOf_add, if_pos rfl, Option.bind_some]
        have hold : t.velogOf t.next = none := by rw [velogOf, payloadOf_next, Option.bind_none]
        rw [keyOf, hnew, keyOf, hold]
        cases node with
        | velog v => exact .inr ⟨Tree.not_allocated_next, congrArg some hfresh⟩
        | _ => exact .inl rfl
      · exact .inl (by rw [keyOf, hother hn, keyOf])
    · have hne : n ≠ t.next := by
        rintro rfl
        exact Tree.not_allocated_next hn
      rw [expressionsOf, hother hne, expressionsOf]
  | declared hn =>
    refine makesOnly_of_velogOf (Nat.le_of_eq Tree.size_update.symm) fun m =>
      velogOf_setPayload fun node hnode => ?_
    cases hn.symm.trans hnode
    rfl
  | refused => exact makesOnly_of_velogOf (Nat.le_refl _) fun _ => rfl
  | paired hopening hclosing =>
    refine makesOnly_of_velogOf ?_ fun m => ?_
    · exact Nat.le_of_eq (Tree.size_update.trans Tree.size_update).symm
    · rw [velogOf_setPayload fun node _ => velog?_addPair _ node,
        velogOf_setPayload fun node _ => velog?_addPair _ node]
  | halfPaired hopening hclosing =>
    exact makesOnly_of_velogOf (Nat.le_of_eq Tree.size_update.symm) fun m =>
      velogOf_setPayload fun node _ => velog?_addPair _ node

theorem makesOnly_call (t : TemplateTree) (c : TemplateCall) :
    MakesOnly changed t (c.perform t) := by
  cases c with
  | build c => exact makesOnly_build (c.built t)
  | edit e =>
    obtain ⟨hsize, hpayload⟩ := e.keepsPayloads t
    exact makesOnly_of_velogOf (Nat.le_of_eq hsize.symm) fun n => velogOf_congr (hpayload n)

theorem makesOnly_setExpressions (hm : changed m) (data : Expr) (logonly : Option Expr) :
    MakesOnly changed t (t.setPayload m (Node.setExpressions data logonly)) where
  size := Nat.le_of_eq Tree.size_update.symm
  key n := by
    refine .inl ?_
    rw [keyOf, velogOf, payloadOf_setPayload, keyOf, velogOf]
    split
    · cases t.payloadOf n with
      | none => rfl
      | some node => cases node <;> rfl
    · rfl
  expressions n _ hn := by
    have hne : m ≠ n := by
      rintro rfl
      exact hn hm
    rw [expressionsOf, velogOf_congr (payloadOf_setPayload.trans (if_neg hne)), expressionsOf]

end Made

theorem shaped_perform {w : Workspace Node} (h : w.tree.Shaped) (c : WorkspaceCall) :
    (c.perform w).tree.Shaped := by
  cases c with
  | call c => exact c.shaped h
  | setExpressions n data logonly => exact h.update (fun _ => rfl) fun _ => rfl
  | copySubtree root => exact Editing.keepsShape_copySubtree root _ h
  | copy number root => exact (Copying.copied_copy h (w.copies number) root).shaped
  | finish number => exact (w.copies number).shaped_finish h

section Steps
variable {w : Workspace Node}

theorem notes_update (t : TemplateTree) (number : Nat) (e : CopyState) :
    Workspace.notes ⟨t, Function.update w.copies number e⟩ =
      Function.update w.notes (some number) e := by
  funext i
  cases i with
  | none => exact (Function.update_of_ne (Option.some_ne_none number).symm ..).symm
  | some j =>
    by_cases hj : j = number
    · rw [hj, Function.update_self]
      exact Function.update_self ..
    · rw [Function.update_of_ne fun h => hj (Option.some.inj h)]
      exact Function.update_of_ne hj ..

theorem stays (c : WorkspaceCall) (t : TemplateTree) (notes : Option Nat → CopyState) :
    KeyStep (c.Changes ·) t notes (fun _ => none) t notes :=
  .made (makesOnly_of_velogOf (Nat.le_refl _) fun _ => rfl)

def Steps (w : Workspace Node) (c : WorkspaceCall) : Prop :=
  ∃ t notes, KeyStep (c.Changes ·) w.tree w.notes (c.copyOf? w) t notes ∧
    KeyStep (c.Changes ·) t notes (fun _ => none) (c.perform w).tree (c.perform w).notes

theorem steps_copy (h : w.tree.Shaped) {number : Nat} {root : NodeId}
    (hc : (copy number root).Succeeds w) : Steps w (copy number root) := by
  obtain ⟨new, hnew⟩ := hc
  rcases hrun : Copying.copy root (w.tree, w.copies number) with ⟨result, t, e⟩
  rw [hrun] at hnew
  obtain rfl : result = .ok new := hnew
  obtain ⟨hroot, d, rfl, hapart, hmade⟩ := Copying.copy_made h hrun
  have hcopyOf : copyOf? w (copy number root) = d.copyOf? := by
    funext x
    rw [copyOf?, hrun, CopyState.copyOf?_upon]
    cases hd : d.copyOf? x with
    | none => cases (w.copies number).copyOf? x <;> rfl
    | some c => simp [hapart x c hd]
  have hw : perform w (copy number root) =
      ⟨t, Function.update w.copies number (d.upon (w.copies number))⟩ := by
    rw [perform, Workspace.copy, hrun]
  rw [Steps, hcopyOf, hw]
  refine ⟨_, _, .copied (some number) (velogsCopied_of_made h hroot hmade) hapart, ?_⟩
  rw [notes_update]
  exact stays _ _ _

theorem steps_copySubtree (h : w.tree.Shaped) (root : NodeId) : Steps w (copySubtree root) := by
  by_cases hroot : w.tree.Allocated root
  · obtain ⟨new, t, d, hrun, hmade⟩ := Copying.exists_copy h hroot
    have hcopyOf : copyOf? w (copySubtree root) = d.copyOf? := by
      funext x
      rw [copyOf?, hrun]
    have hw : perform w (copySubtree root) = ⟨d.finish t, w.copies⟩ := by
      rw [perform, Workspace.edit, Editing.copySubtree, hrun]
    rw [Steps, hcopyOf, hw]
    refine ⟨_, _, .copied none (velogsCopied_of_made h hroot hmade) fun _ _ _ => rfl, ?_⟩
    have hempty : Function.update w.notes none (.empty : CopyState) = w.notes :=
      Function.update_eq_self none w.notes
    refine .finished_eq none ?_ ?_
    · rw [Function.update_self]
      exact CopyState.upon_empty
    · rw [Function.update_idem]
      exact hempty
  · have hrun := Copying.run_copy_foreign hroot .empty
    have hcopyOf : copyOf? w (copySubtree root) = fun _ => none := by
      funext x
      rw [copyOf?, hrun]
      rfl
    have hw : perform w (copySubtree root) = w := by
      rw [perform, Workspace.edit, Editing.copySubtree, hrun]
    rw [Steps, hcopyOf, hw]
    exact ⟨_, _, stays _ _ _, stays _ _ _⟩

theorem Succeeds.steps {c : WorkspaceCall} (hc : c.Succeeds w) (h : w.tree.Shaped) :
    Steps w c := by
  cases c with
  | call c => exact ⟨_, _, .made (makesOnly_call w.tree c), stays _ _ _⟩
  | setExpressions n data logonly =>
    exact ⟨_, _, .made (makesOnly_setExpressions rfl data logonly), stays _ _ _⟩
  | finish number =>
    refine ⟨_, _, .finished (some number), ?_⟩
    rw [← notes_update]
    exact stays _ _ _
  | copy number root => exact steps_copy h hc
  | copySubtree root => exact steps_copySubtree h root

end Steps

/-- The shape of the tree and what the notes have promised. -/
structure Kept (w : Workspace Node) : Prop where
  shaped : w.tree.Shaped
  tended : Tended w.tree w.notes

section Runs
variable {w : Workspace Node} {p : Workspace Node → WorkspaceCall → Prop}
  {calls later : List WorkspaceCall} {c : WorkspaceCall} {n x new : NodeId}

theorem kept_empty : Kept .empty where
  shaped := Workspace.shaped_empty
  tended := by
    refine ⟨fun n k hk => ?_, fun i => ?_⟩
    · exact absurd (allocated_of_keyOf hk) (Nat.not_lt_zero _)
    · cases i <;> exact notesTended_empty

theorem Kept.perform (hw : Kept w) (hc : c.Succeeds w) : Kept (c.perform w) := by
  obtain ⟨t, notes, hfirst, hsecond⟩ := hc.steps hw.shaped
  exact ⟨shaped_perform hw.shaped c, (hw.tended.step hfirst).step hsecond⟩

theorem Kept.after (hw : Kept w) (h : Throughout Succeeds w calls) : Kept (after w calls) := by
  induction calls generalizing w with
  | nil => exact hw
  | cons c calls ih => exact ih (hw.perform h.1) h.2

theorem throughout_append :
    Throughout p w (calls ++ later) ↔
      Throughout p w calls ∧ Throughout p (after w calls) later := by
  induction calls generalizing w with
  | nil => exact iff_of_eq (true_and _).symm
  | cons c calls ih => exact (and_congr_right fun _ => ih).trans and_assoc.symm

theorem after_append : after w (calls ++ later) = after (after w calls) later :=
  List.foldl_append

theorem returning_after (hw : Kept w) (hreturning : Returning w.tree w.notes)
    (h : Throughout Succeeds w calls) (hown : Throughout CopiesOwnKeys w calls) :
    Returning (after w calls).tree (after w calls).notes := by
  induction calls generalizing w with
  | nil => exact hreturning
  | cons c calls ih =>
    obtain ⟨t, notes, hfirst, hsecond⟩ := h.1.steps hw.shaped
    have hmiddle : Returning t notes := hreturning.step hw.tended hown.1 hfirst
    have hlast := hmiddle.step (hw.tended.step hfirst) (fun _ _ hnone => by cases hnone) hsecond
    exact ih (hw.perform h.1) hlast h.2 hown.2

theorem stale_after (hw : Kept w) (hn : Stale w.tree w.notes n) (h : Throughout Succeeds w calls) :
    Stale (after w calls).tree (after w calls).notes n := by
  induction calls generalizing w with
  | nil => exact hn
  | cons c calls ih =>
    obtain ⟨t, notes, hfirst, hsecond⟩ := h.1.steps hw.shaped
    exact ih (hw.perform h.1) ((hn.step hfirst).step hsecond) h.2

theorem exists_stale_after (hw : Kept w) (h : Throughout Succeeds w calls)
    (hown : ¬Throughout CopiesOwnKeys w calls) :
    ∃ n, Stale (after w calls).tree (after w calls).notes n := by
  induction calls generalizing w with
  | nil => exact absurd trivial hown
  | cons c calls ih =>
    by_cases hc : c.CopiesOwnKeys w
    · exact ih (hw.perform h.1) h.2 fun hcalls => hown ⟨hc, hcalls⟩
    · obtain ⟨t, notes, hfirst, hsecond⟩ := h.1.steps hw.shaped
      simp only [CopiesOwnKeys, not_forall] at hc
      obtain ⟨x, k, hcopied, hk, hne⟩ := hc
      obtain ⟨new, hnew⟩ := Option.isSome_iff_exists.1 hcopied
      have hstale : Stale t notes new := stale_of_copied hw.tended hfirst hnew hk hne
      have hlater := stale_after (hw.perform h.1) (hstale.step hsecond) h.2
      exact ⟨new, hlater⟩

theorem expressionsOf_perform (hw : w.tree.Shaped) (hc : c.Succeeds w) (hn : w.tree.Allocated n)
    (hchanges : ¬c.Changes n) :
    (c.perform w).tree.Allocated n ∧
      expressionsOf (c.perform w).tree n = expressionsOf w.tree n := by
  obtain ⟨t, notes, hfirst, hsecond⟩ := hc.steps hw
  have hmiddle := (hfirst.keeps hn).1
  refine ⟨(hsecond.keeps hmiddle).1, ?_⟩
  rw [hsecond.expressionsOf_eq hmiddle hchanges, hfirst.expressionsOf_eq hn hchanges]

theorem expressionsOf_after (hw : w.tree.Shaped) (h : Throughout Succeeds w calls)
    (hn : w.tree.Allocated n) (hchanges : ∀ c ∈ calls, ¬c.Changes n) :
    (after w calls).tree.Allocated n ∧
      expressionsOf (after w calls).tree n = expressionsOf w.tree n := by
  induction calls generalizing w with
  | nil => exact ⟨hn, rfl⟩
  | cons c calls ih =>
    obtain ⟨hc, hcalls⟩ := List.forall_mem_cons.1 hchanges
    obtain ⟨hperform, hsame⟩ := expressionsOf_perform hw h.1 hn hc
    obtain ⟨hafter, hlater⟩ := ih (shaped_perform hw c) h.2 hperform hcalls
    exact ⟨hafter, hlater.trans hsame⟩

theorem not_changes_of_copyOf? (hnew : c.copyOf? w x = some new) (n : NodeId) : ¬c.Changes n := by
  cases c with
  | setExpressions m data logonly => cases hnew
  | _ => exact id

theorem expressionsOf_copy (hw : w.tree.Shaped) (hc : c.Succeeds w)
    (hnew : c.copyOf? w x = some new) :
    (c.perform w).tree.Allocated x ∧ (c.perform w).tree.Allocated new ∧
      expressionsOf (c.perform w).tree x = expressionsOf w.tree x ∧
      expressionsOf (c.perform w).tree new = expressionsOf w.tree x := by
  have hchanges := not_changes_of_copyOf? hnew
  obtain ⟨t, notes, hfirst, hsecond⟩ := hc.steps hw
  obtain ⟨hx, hmiddle, hsame⟩ := hfirst.expressionsOf_copy hnew
  obtain ⟨hxlater, hxsame⟩ := expressionsOf_perform hw hc hx (hchanges x)
  refine ⟨hxlater, (hsecond.keeps hmiddle).1, hxsame, ?_⟩
  rw [hsecond.expressionsOf_eq hmiddle (hchanges new), hsame]

end Runs
end WorkspaceCall

namespace TemplateTree

/-- Every velog is its own key. -/
def OwnKeys (t : TemplateTree) : Prop := ∀ n k, t.keyOf n = some k → k = n

variable {t : TemplateTree} {n k : NodeId} {key : SamenessKey}

theorem payload_velog {v : Velog} (h : t.velogOf n = some v) : t.payload n = .ok (.velog v) := by
  obtain ⟨slot, hslot, hpayload⟩ := exists_slot_of_velogOf h
  rw [Tree.payload, Tree.slot, hslot, ← hpayload]
  rfl

theorem samenessKey_eq (hk : t.keyOf n = some k) (hkey : t.expressionsOf k = some key) :
    t.samenessKey n = .ok key := by
  obtain ⟨v, hv, rfl⟩ := Option.map_eq_some_iff.1 hk
  obtain ⟨v', hv', rfl⟩ := Option.map_eq_some_iff.1 hkey
  rw [samenessKey, payload_velog hv]
  show (t.payload v.samenessKey >>= _) = _
  rw [payload_velog hv']
  rfl

theorem isSome_expressionsOf : (t.expressionsOf n).isSome = (t.keyOf n).isSome := by
  rw [expressionsOf, Option.isSome_map, keyOf, Option.isSome_map]

theorem OwnKeys.samenessKey (hown : t.OwnKeys) (hkey : t.expressionsOf n = some key) :
    t.samenessKey n = .ok key := by
  have hsome : (t.keyOf n).isSome := by rw [← isSome_expressionsOf, hkey, Option.isSome_some]
  obtain ⟨k, hk⟩ := Option.isSome_iff_exists.1 hsome
  obtain rfl := hown n k hk
  exact samenessKey_eq hk hkey

theorem isSome_keyOf (h : t.kindOf n = some .velog) : (t.keyOf n).isSome := by
  obtain ⟨node, hnode, hkind⟩ := Option.map_eq_some_iff.1 h
  cases node with
  | velog v => rw [keyOf, velogOf, hnode]; rfl
  | _ => cases hkind

end TemplateTree

theorem Expr.equivalent_refl (e : Expr) : e.equivalent e := by
  cases e <;> simp [equivalent, equal]

theorem SamenessKey.same_refl (key : SamenessKey) : key.same key := by
  obtain ⟨data, logonly⟩ := key
  cases logonly <;> simp [same, Expr.equivalent_refl]

namespace WorkspaceCall
variable {w : Workspace Node} {calls : List WorkspaceCall}

theorem ownKeys_after_iff (hw : Kept w) (hreturning : Returning w.tree w.notes)
    (h : Throughout Succeeds w calls)
    (hfinished : ∀ number, (after w calls).copies number = .empty) :
    OwnKeys (after w calls).tree ↔ Throughout CopiesOwnKeys w calls := by
  constructor
  · intro hown
    by_contra hcopied
    obtain ⟨n, hn⟩ := exists_stale_after hw h hcopied
    obtain ⟨k, hk, hne⟩ := hn.key
    exact hne (hown n k hk)
  · intro hcopied n k hk
    by_contra hne
    obtain ⟨i, r, hr, -⟩ := (returning_after hw hreturning h hcopied).awaited n k hk hne
    cases i with
    | none => cases hr
    | some number =>
      rw [Workspace.notes, hfinished] at hr
      cases hr

theorem returning_empty : Returning Workspace.empty.tree Workspace.empty.notes where
  each i := by cases i <;> exact notesReturn_empty
  awaited n k hk := absurd (allocated_of_keyOf hk) (Nat.not_lt_zero _)

/-- After calls whose copies are all finished, velogs are their own keys exactly if only such velogs
have been copied. In any case keys are velogs. As long as all velogs are their own keys, a copy has
the key of the velog that it was made from, unless expressions have been changed since. -/
theorem velogs_after (calls : List WorkspaceCall) (h : Throughout Succeeds .empty calls)
    (hfinished : ∀ number, (after .empty calls).copies number = .empty) :
    (OwnKeys (after .empty calls).tree ↔ Throughout CopiesOwnKeys .empty calls) ∧
      (∀ n, kindOf (after .empty calls).tree n = some .velog →
        ∃ key, samenessKey (after .empty calls).tree n = .ok key) ∧
      (OwnKeys (after .empty calls).tree → ∀ before c later x new, calls = before ++ c :: later →
        c.copyOf? (after .empty before) x = some new →
        kindOf (after .empty before).tree x = some .velog →
        (∀ other ∈ later, ¬other.Changes x ∧ ¬other.Changes new) →
        ∃ key, samenessKey (after .empty calls).tree x = .ok key ∧
          samenessKey (after .empty calls).tree new = .ok key ∧ key.same key) := by
  have hkept := kept_empty.after h
  refine ⟨ownKeys_after_iff kept_empty returning_empty h hfinished, fun n hn => ?_, ?_⟩
  · obtain ⟨k, hk⟩ := Option.isSome_iff_exists.1 (isSome_keyOf hn)
    have hsome := hkept.tended.key n k hk
    rw [← isSome_expressionsOf] at hsome
    obtain ⟨key, hkey⟩ := Option.isSome_iff_exists.1 hsome
    exact ⟨key, samenessKey_eq hk hkey⟩
  · rintro hown before c later x new rfl hnew hx hchanges
    obtain ⟨hbefore, hc, hlater⟩ := throughout_append.1 h
    have hw : Kept (after .empty before) := kept_empty.after hbefore
    have hshaped := shaped_perform hw.shaped c
    obtain ⟨hxalloc, hnewalloc, hxsame, hnewsame⟩ := expressionsOf_copy hw.shaped hc hnew
    have hxlater := expressionsOf_after hshaped hlater hxalloc fun other ho => (hchanges other ho).1
    have hnewlater :=
      expressionsOf_after hshaped hlater hnewalloc fun other ho => (hchanges other ho).2
    have hsome := isSome_keyOf hx
    rw [← isSome_expressionsOf] at hsome
    obtain ⟨key, hkey⟩ := Option.isSome_iff_exists.1 hsome
    rw [after_append] at hown ⊢
    exact ⟨key, hown.samenessKey (hxlater.2.trans (hxsame.trans hkey)),
      hown.samenessKey (hnewlater.2.trans (hnewsame.trans hkey)), key.same_refl⟩

theorem update_twice_finished (number : Nat) (d e : CopyState) :
    Function.update (Function.update (Function.update (fun _ => CopyState.empty) number d) number e)
      number .empty = fun _ => .empty := by
  rw [Function.update_idem, Function.update_idem]
  exact Function.update_eq_self number _

def recopied : List WorkspaceCall :=
  [.call (.build (.velog .unknown (.var "item" none) [])),
    .call (.build (.rawText .unknown "item")), .call (.edit (.addChild ⟨0⟩ ⟨1⟩)),
    .copySubtree ⟨0⟩, .copy 0 ⟨0⟩, .copy 0 ⟨2⟩, .finish 0, .setExpressions ⟨4⟩ .null none]

theorem velogs_after_recopied :
    Throughout Succeeds .empty recopied ∧
      (∀ number, (after .empty recopied).copies number = .empty) ∧
      Throughout CopiesOwnKeys .empty recopied ∧
      ∃ key, samenessKey (after .empty recopied).tree ⟨0⟩ = .ok key ∧
        samenessKey (after .empty recopied).tree ⟨2⟩ = .ok key ∧ key.same key := by
  have hsucceeds : Throughout Succeeds .empty recopied :=
    ⟨trivial, trivial, trivial, trivial, ⟨⟨4⟩, rfl⟩, ⟨⟨6⟩, rfl⟩, trivial, trivial, trivial⟩
  have hfinished (number : Nat) : (after .empty recopied).copies number = .empty :=
    congrFun (update_twice_finished 0 _ _) number
  have hkeys : ∀ i < 8, keyOf (after .empty recopied).tree ⟨i⟩ = none ∨
      keyOf (after .empty recopied).tree ⟨i⟩ = some ⟨i⟩ := by decide +kernel
  have hown : OwnKeys (after .empty recopied).tree := by
    intro n k hk
    have hlt : n.index < 8 := allocated_of_keyOf hk
    rcases hkeys n.index hlt with hnone | hsome
    · cases hnone.symm.trans hk
    · exact Option.some.inj (hk.symm.trans hsome)
  obtain ⟨hiff, -, hcopies⟩ := velogs_after recopied hsucceeds hfinished
  refine ⟨hsucceeds, hfinished, hiff.1 hown, ?_⟩
  exact hcopies hown (recopied.take 3) (.copySubtree ⟨0⟩) (recopied.drop 4) ⟨0⟩ ⟨2⟩ rfl rfl rfl
    (by simp [recopied, Changes])

def chained : List WorkspaceCall :=
  [.call (.build (.velog .unknown (.var "item" none) [])), .copy 0 ⟨0⟩, .copy 0 ⟨1⟩, .finish 0]

theorem not_ownKeys_chained :
    Throughout Succeeds .empty chained ∧
      (∀ number, (after .empty chained).copies number = .empty) ∧
      ¬OwnKeys (after .empty chained).tree := by
  refine ⟨⟨trivial, ⟨⟨1⟩, rfl⟩, ⟨⟨2⟩, rfl⟩, trivial, trivial⟩,
    fun number => congrFun (update_twice_finished 0 _ _) number, fun hown => ?_⟩
  have hkey := hown ⟨2⟩ ⟨1⟩ (by decide +kernel)
  cases hkey

end WorkspaceCall
end TemplateCheck

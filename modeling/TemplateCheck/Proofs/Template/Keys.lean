import Mathlib.Logic.Function.Basic
import TemplateCheck.Proofs.Template.Building
import TemplateCheck.Proofs.Template.Copies
import TemplateCheck.Proofs.Tree.Notes

/-! The keys of velogs while nodes are made and copied. Until a copy is finished, a copied velog has
the key of the velog that it was made from, and the notes wait to turn it. -/

namespace TemplateCheck

def Node.velog? : Node → Option Velog
  | velog v => some v
  | _ => none

namespace TemplateTree

def velogOf (t : TemplateTree) (n : NodeId) : Option Velog := (t.payloadOf n).bind Node.velog?

def keyOf (t : TemplateTree) (n : NodeId) : Option NodeId :=
  (t.velogOf n).map Velog.samenessKey

def expressionsOf (t : TemplateTree) (n : NodeId) : Option SamenessKey :=
  (t.velogOf n).map fun v => ⟨v.data, v.logonly⟩

variable {t t' : TemplateTree} {n : NodeId}

theorem exists_slot_of_velogOf {v : Velog} (h : t.velogOf n = some v) :
    ∃ slot, t.slot? n = some slot ∧ slot.payload = .velog v := by
  obtain ⟨node, hnode, hvelog⟩ := Option.bind_eq_some_iff.1 h
  obtain ⟨slot, hslot, rfl⟩ := Option.map_eq_some_iff.1 hnode
  refine ⟨slot, hslot, ?_⟩
  cases hpayload : slot.payload with
  | velog other =>
    rw [hpayload] at hvelog
    rw [Option.some.inj hvelog]
  | _ =>
    rw [hpayload] at hvelog
    cases hvelog

theorem allocated_of_velogOf {v : Velog} (h : t.velogOf n = some v) : t.Allocated n := by
  obtain ⟨slot, hslot, -⟩ := exists_slot_of_velogOf h
  exact Tree.allocated_of_slot? hslot

theorem allocated_of_keyOf {k : NodeId} (h : t.keyOf n = some k) : t.Allocated n := by
  obtain ⟨v, hv, -⟩ := Option.map_eq_some_iff.1 h
  exact allocated_of_velogOf hv

theorem velogOf_congr (h : t'.payloadOf n = t.payloadOf n) : t'.velogOf n = t.velogOf n := by
  rw [velogOf, h, velogOf]

end TemplateTree

open TemplateTree

structure MakesOnly (changed : NodeId → Prop) (t t' : TemplateTree) : Prop where
  size : t.size ≤ t'.size
  key : ∀ n, t'.keyOf n = t.keyOf n ∨ ¬t.Allocated n ∧ t'.keyOf n = some n
  expressions : ∀ n, t.Allocated n → ¬changed n → t'.expressionsOf n = t.expressionsOf n

structure VelogsCopied (t t' : TemplateTree) (d : CopyState) : Prop where
  size : t.size ≤ t'.size
  kept : ∀ n, t.Allocated n → t'.velogOf n = t.velogOf n
  made : ∀ n v, ¬t.Allocated n → t'.velogOf n = some v → ∃ x, d.copyOf? x = some n
  copy : ∀ x c, d.copyOf? x = some c → t.Allocated x ∧ ¬t.Allocated c ∧ t'.Allocated c ∧
    t'.velogOf c = t.velogOf x
  source : ∀ x y c, d.copyOf? x = some c → d.copyOf? y = some c → x = y
  awaits : ∀ x c k, d.copyOf? x = some c → t.keyOf x = some k →
    ∃ r ∈ d.pending, r.owner = c ∧ r.target = k
  pending : ∀ r ∈ d.pending, ∃ x, d.copyOf? x = some r.owner ∧
    ∀ k, t.keyOf x = some k → r.target = k

section Made
variable {t t' : TemplateTree} {d : CopyState} {order : List NodeId} {root x k : NodeId}

theorem awaited_velog (h : t.keyOf x = some k) :
    t.awaited order x = [⟨k, t.copyAs order x, 0⟩] := by
  obtain ⟨v, hv, rfl⟩ := Option.map_eq_some_iff.1 h
  obtain ⟨slot, hslot, hpayload⟩ := exists_slot_of_velogOf hv
  rw [Tree.awaited, hslot]
  dsimp only
  rw [hpayload]
  rfl

theorem velogsCopied_of_made (ht : t.Shaped) (hroot : t.Allocated root)
    (h : Copying.CopiesMade t (t.preorder root) [] [root] (t.preorder root) t t' d) :
    VelogsCopied t t' d := by
  have hpart : Copying.Partway t (t.preorder root) (t.preorder root) t' d := h.partway
  have hcopyOf (y : NodeId) (hy : y ∈ t.preorder root) :
      d.copyOf? y = some (t.copyAs (t.preorder root) y) := hpart.copyOf?_eq_some.2 ⟨hy, rfl⟩
  constructor
  case size =>
    rw [hpart.size]
    exact Nat.le_add_right _ _
  case kept =>
    intro n hn
    exact velogOf_congr (by rw [payloadOf, hpart.kept n hn, payloadOf])
  case made =>
    intro n v hn hv
    have hlt : n.index < t.size + (t.preorder root).length := by
      rw [← hpart.size]
      exact allocated_of_velogOf hv
    have hle : t.size ≤ n.index := Nat.le_of_not_lt hn
    have hi : n.index - t.size < (t.preorder root).length := by omega
    refine ⟨(t.preorder root)[n.index - t.size], (hcopyOf _ (List.getElem_mem hi)).trans ?_⟩
    rw [Tree.copyAs, (ht.nodup_preorder hroot).idxOf_getElem, Nat.add_sub_of_le hle]
  case copy =>
    intro y c hc
    obtain ⟨hy, rfl⟩ := hpart.copyOf?_eq_some.1 hc
    have halloc := ht.allocated_preorder hroot hy
    obtain ⟨slot, hslot⟩ := Tree.slot?_eq_some halloc
    have hcopy := h.copies y hy slot hslot
    refine ⟨halloc, Nat.not_lt_of_le (t.copyAs_index_ge _ y), Tree.allocated_of_slot? hcopy, ?_⟩
    rw [velogOf, payloadOf, hcopy, velogOf, payloadOf, hslot]
    rfl
  case source =>
    intro y z c hy hz
    obtain ⟨hyorder, rfl⟩ := hpart.copyOf?_eq_some.1 hy
    exact Tree.copyAs_inj hyorder (hpart.copyOf?_eq_some.1 hz).2.symm
  case awaits =>
    intro y c k hc hk
    obtain ⟨hy, rfl⟩ := hpart.copyOf?_eq_some.1 hc
    refine ⟨⟨k, t.copyAs (t.preorder root) y, 0⟩, ?_, rfl, rfl⟩
    rw [hpart.pending, List.mem_flatMap]
    exact ⟨y, hy, by simp [awaited_velog hk]⟩
  case pending =>
    intro r hr
    rw [hpart.pending, List.mem_flatMap] at hr
    obtain ⟨y, hy, hr⟩ := hr
    refine ⟨y, by rw [hcopyOf y hy, Tree.owner_awaited hr], fun k hk => ?_⟩
    rw [awaited_velog hk, List.mem_singleton] at hr
    rw [hr]

end Made

section Finished
variable {t : TemplateTree} {d : CopyState} {n k : NodeId}

def CopyState.turnKey (d : CopyState) (k : NodeId) (pending : List PendingReference) : NodeId :=
  pending.foldl (fun k r => (d.copyOf? r.target).getD k) k

theorem velog?_foldl_turn (pending : List PendingReference) (node : Node) :
    (pending.foldl d.turn node).velog? =
      node.velog?.map fun v => { v with samenessKey := d.turnKey v.samenessKey pending } := by
  induction pending generalizing node with
  | nil => exact (Option.map_id_apply ..).symm
  | cons r pending ih =>
    rw [List.foldl_cons, ih, CopyState.turn]
    cases hcopy : d.copyOf? r.target with
    | none => simp only [CopyState.turnKey, List.foldl_cons, hcopy, Option.getD_none]
    | some new =>
      cases node with
      | velog v =>
        show some _ = some _
        simp only [CopyState.turnKey, List.foldl_cons, hcopy, Option.getD_some]
      | _ => rfl

theorem velogOf_finish : velogOf (d.finish t) n = (t.velogOf n).map fun v =>
    { v with samenessKey := d.turnKey v.samenessKey (d.pending.filter (·.owner == n)) } := by
  rw [velogOf, payloadOf, CopyState.finish, CopyState.slot?_foldl_redirect, velogOf, payloadOf]
  cases t.slot? n with
  | none => rfl
  | some slot => exact velog?_foldl_turn _ _

theorem keyOf_finish : keyOf (d.finish t) n =
    (t.keyOf n).map fun k => d.turnKey k (d.pending.filter (·.owner == n)) := by
  rw [keyOf, velogOf_finish, Option.map_map, keyOf, Option.map_map]
  rfl

theorem expressionsOf_finish : expressionsOf (d.finish t) n = t.expressionsOf n := by
  rw [expressionsOf, velogOf_finish, Option.map_map, expressionsOf]
  rfl

theorem turnKey_cases (k : NodeId) (pending : List PendingReference) :
    d.turnKey k pending = k ∨
      ∃ r ∈ pending, d.copyOf? r.target = some (d.turnKey k pending) := by
  induction pending generalizing k with
  | nil => exact .inl rfl
  | cons r pending ih =>
    rw [CopyState.turnKey, List.foldl_cons, ← CopyState.turnKey]
    rcases ih ((d.copyOf? r.target).getD k) with hkept | ⟨r', hr', hturned⟩
    · rw [hkept]
      cases hcopy : d.copyOf? r.target with
      | none => exact .inl rfl
      | some new => exact .inr ⟨r, .head _, hcopy⟩
    · exact .inr ⟨r', .tail _ hr', hturned⟩

theorem keyOf_finish_cases (h : keyOf (d.finish t) n = some k) :
    t.keyOf n = some k ∨ (t.keyOf n).isSome ∧
      ∃ r ∈ d.pending, r.owner = n ∧ d.copyOf? r.target = some k := by
  rw [keyOf_finish] at h
  obtain ⟨old, hold, rfl⟩ := Option.map_eq_some_iff.1 h
  rcases turnKey_cases old (d.pending.filter (·.owner == n)) with hkept | ⟨r, hr, hturned⟩
  · exact .inl (hold.trans (congrArg some hkept.symm))
  · obtain ⟨hr, howner⟩ := List.mem_filter.1 hr
    exact .inr ⟨by rw [hold, Option.isSome_some], r, hr, beq_iff_eq.1 howner, hturned⟩

theorem keyOf_finish_unawaited (h : ∀ r ∈ d.pending, r.owner ≠ n) :
    keyOf (d.finish t) n = t.keyOf n := by
  have hnone : d.pending.filter (·.owner == n) = [] := by
    rw [List.filter_eq_nil_iff]
    exact fun r hr howner => h r hr (beq_iff_eq.1 howner)
  rw [keyOf_finish, hnone]
  exact Option.map_id_apply ..

/-- If all references that wait at a velog lead back to it, the last one makes it its own key. -/
theorem keyOf_finish_awaited (h : ∀ r ∈ d.pending, r.owner = n → d.copyOf? r.target = some n)
    {r : PendingReference} (hr : r ∈ d.pending) (howner : r.owner = n) (hk : t.keyOf n = some k) :
    keyOf (d.finish t) n = some n := by
  have hreturns : ∀ r ∈ d.pending.filter (·.owner == n), d.copyOf? r.target = some n := by
    intro r hr
    obtain ⟨hr, howner⟩ := List.mem_filter.1 hr
    exact h r hr (beq_iff_eq.1 howner)
  have hmem : r ∈ d.pending.filter (·.owner == n) :=
    List.mem_filter.2 ⟨hr, beq_iff_eq.2 howner⟩
  rw [keyOf_finish, hk, Option.map_some]
  congr 1
  generalize d.pending.filter (·.owner == n) = pending at hreturns hmem
  cases pending with
  | nil => cases hmem
  | cons first rest =>
    obtain ⟨hfirst, hrest⟩ := List.forall_mem_cons.1 hreturns
    rw [CopyState.turnKey, List.foldl_cons, hfirst, Option.getD_some, ← CopyState.turnKey]
    rcases turnKey_cases n rest with hkept | ⟨r, hr, hturned⟩
    · exact hkept
    · exact Option.some.inj (hturned.symm.trans (hrest r hr))

theorem isSome_keyOf_finish : (keyOf (d.finish t) n).isSome = (t.keyOf n).isSome := by
  rw [keyOf_finish, Option.isSome_map]

end Finished

section States
variable {ι : Type} {t : TemplateTree} {notes : ι → CopyState} {n c : NodeId}

structure NotesTended (t : TemplateTree) (e : CopyState) : Prop where
  copies : ∀ x c, e.copyOf? x = some c →
    t.Allocated x ∧ t.Allocated c ∧ ((t.keyOf x).isSome → (t.keyOf c).isSome)
  pending : ∀ r ∈ e.pending,
    t.Allocated r.owner ∧ ((t.keyOf r.owner).isSome → (t.keyOf r.target).isSome)

structure Tended (t : TemplateTree) (notes : ι → CopyState) : Prop where
  key : ∀ n k, t.keyOf n = some k → (t.keyOf k).isSome
  each : ∀ i, NotesTended t (notes i)

def NotesReturn (t : TemplateTree) (e : CopyState) : Prop :=
  ∀ r ∈ e.pending, (t.keyOf r.owner).isSome → e.copyOf? r.target = some r.owner

structure Returning (t : TemplateTree) (notes : ι → CopyState) : Prop where
  each : ∀ i, NotesReturn t (notes i)
  awaited : ∀ n k, t.keyOf n = some k → k ≠ n → ∃ i, ∃ r ∈ (notes i).pending, r.owner = n

def NotesMiss (c : NodeId) (e : CopyState) : Prop :=
  ∀ r ∈ e.pending, r.owner = c → e.copyOf? r.target ≠ some c

structure Stale (t : TemplateTree) (notes : ι → CopyState) (c : NodeId) : Prop where
  key : ∃ k, t.keyOf c = some k ∧ k ≠ c
  each : ∀ i, NotesMiss c (notes i)

theorem allocated_of_isSome (h : (t.keyOf n).isSome) : t.Allocated n := by
  obtain ⟨k, hk⟩ := Option.isSome_iff_exists.1 h
  exact allocated_of_keyOf hk

theorem notesTended_empty : NotesTended t .empty := ⟨nofun, fun _ hr => nomatch hr⟩

theorem notesReturn_empty : NotesReturn t .empty := fun _ hr => nomatch hr

theorem notesMiss_empty : NotesMiss c .empty := fun _ hr => nomatch hr

theorem Stale.allocated (h : Stale t notes c) : t.Allocated c := by
  obtain ⟨k, hk, -⟩ := h.key
  exact allocated_of_keyOf hk

end States

section Steps
variable {ι : Type} [DecidableEq ι]

/-- What a step does to a tree, and to the notes of the copies that are not finished. The function
tells the copies that the step has made. -/
inductive KeyStep (changed : NodeId → Prop) (t : TemplateTree) (notes : ι → CopyState) :
    (NodeId → Option NodeId) → TemplateTree → (ι → CopyState) → Prop
  | made {t' : TemplateTree} (h : MakesOnly changed t t') :
      KeyStep changed t notes (fun _ => none) t' notes
  | copied {t' : TemplateTree} {d : CopyState} (i : ι) (h : VelogsCopied t t' d)
      (hapart : d.Apart (notes i)) :
      KeyStep changed t notes d.copyOf? t' (Function.update notes i (d.upon (notes i)))
  | finished (i : ι) : KeyStep changed t notes (fun _ => none) ((notes i).finish t)
      (Function.update notes i .empty)

variable {changed : NodeId → Prop} {copies : NodeId → Option NodeId} {t t' : TemplateTree}
  {notes notes' : ι → CopyState} {n k c x : NodeId}

theorem KeyStep.finished_eq {d : CopyState} (i : ι) (hd : notes i = d)
    (hnotes : Function.update notes i .empty = notes') :
    KeyStep changed t notes (fun _ => none) (d.finish t) notes' := by
  subst hd hnotes
  exact .finished i

theorem MakesOnly.keyOf_eq (h : MakesOnly changed t t') (hn : t.Allocated n) :
    t'.keyOf n = t.keyOf n :=
  (h.key n).resolve_right fun hnew => hnew.1 hn

theorem VelogsCopied.keyOf_eq {d : CopyState} (h : VelogsCopied t t' d) (hn : t.Allocated n) :
    t'.keyOf n = t.keyOf n := by
  rw [keyOf, h.kept n hn, keyOf]

theorem VelogsCopied.keyOf_copy {d : CopyState} (h : VelogsCopied t t' d)
    (hc : d.copyOf? x = some c) : t'.keyOf c = t.keyOf x := by
  rw [keyOf, (h.copy x c hc).2.2.2, keyOf]

theorem VelogsCopied.exists_source {d : CopyState} (h : VelogsCopied t t' d) (hn : ¬t.Allocated n)
    (hk : t'.keyOf n = some k) : ∃ x, d.copyOf? x = some n ∧ t.keyOf x = some k := by
  obtain ⟨v, hv, -⟩ := Option.map_eq_some_iff.1 hk
  obtain ⟨x, hx⟩ := h.made n v hn hv
  exact ⟨x, hx, (h.keyOf_copy hx).symm.trans hk⟩

theorem VelogsCopied.exists_awaiting {d : CopyState} {r : PendingReference}
    (h : VelogsCopied t t' d) (hr : r ∈ d.pending) (hsome : (t'.keyOf r.owner).isSome) :
    ∃ x, d.copyOf? x = some r.owner ∧ t.keyOf x = some r.target := by
  obtain ⟨x, hx, htarget⟩ := h.pending r hr
  rw [h.keyOf_copy hx] at hsome
  obtain ⟨k, hk⟩ := Option.isSome_iff_exists.1 hsome
  exact ⟨x, hx, by rw [hk, htarget k hk]⟩

theorem forall_update {p : CopyState → Prop} (i : ι) {e : CopyState} (he : p e)
    (h : ∀ j, p (notes j)) (j : ι) : p (Function.update notes i e j) := by
  by_cases hj : j = i
  · rwa [hj, Function.update_self]
  · rw [Function.update_of_ne hj]
    exact h j

theorem KeyStep.keeps (h : KeyStep changed t notes copies t' notes') (hn : t.Allocated n) :
    t'.Allocated n ∧ (t'.keyOf n).isSome = (t.keyOf n).isSome := by
  cases h with
  | made h => exact ⟨Nat.lt_of_lt_of_le hn h.size, by rw [h.keyOf_eq hn]⟩
  | copied i h hapart => exact ⟨Nat.lt_of_lt_of_le hn h.size, by rw [h.keyOf_eq hn]⟩
  | finished i =>
    refine ⟨?_, isSome_keyOf_finish⟩
    rw [Tree.Allocated, CopyState.size_finish]
    exact hn

section Tended
variable {d e : CopyState}

theorem NotesTended.step (he : NotesTended t e)
    (h : KeyStep changed t notes copies t' notes') : NotesTended t' e where
  copies x c hc := by
    obtain ⟨hx, hcalloc, hvelog⟩ := he.copies x c hc
    refine ⟨(h.keeps hx).1, (h.keeps hcalloc).1, ?_⟩
    rwa [(h.keeps hx).2, (h.keeps hcalloc).2]
  pending r hr := by
    obtain ⟨howner, hvelog⟩ := he.pending r hr
    refine ⟨(h.keeps howner).1, fun hsome => ?_⟩
    rw [(h.keeps howner).2] at hsome
    rw [(h.keeps (allocated_of_isSome (hvelog hsome))).2]
    exact hvelog hsome

theorem NotesTended.upon (he : NotesTended t e) (hd : NotesTended t d) :
    NotesTended t (d.upon e) where
  copies x c hc := by
    rw [CopyState.copyOf?_upon, Option.or_eq_some_iff] at hc
    rcases hc with hc | ⟨-, hc⟩
    · exact hd.copies x c hc
    · exact he.copies x c hc
  pending := List.forall_mem_append.2 ⟨he.pending, hd.pending⟩

theorem Tended.step (ht : Tended t notes) (h : KeyStep changed t notes copies t' notes') :
    Tended t' notes' := by
  have hkey (n k : NodeId) (hk : t.keyOf n = some k) : (t'.keyOf k).isSome := by
    rw [(h.keeps (allocated_of_isSome (ht.key n k hk))).2]
    exact ht.key n k hk
  have hnotes (i : ι) : NotesTended t' (notes i) := (ht.each i).step h
  cases h with
  | made h =>
    refine ⟨fun n k hk => ?_, hnotes⟩
    rcases h.key n with hsame | ⟨-, hnew⟩
    · exact hkey n k (hsame ▸ hk)
    · cases hnew.symm.trans hk
      rw [hnew, Option.isSome_some]
  | @copied _ d i h hapart =>
    have hcopied : NotesTended t' d := by
      refine ⟨fun x c hc => ?_, fun r hr => ?_⟩
      · obtain ⟨hx, -, hcalloc, -⟩ := h.copy x c hc
        refine ⟨Nat.lt_of_lt_of_le hx h.size, hcalloc, ?_⟩
        rw [h.keyOf_eq hx, h.keyOf_copy hc]
        exact id
      · obtain ⟨x, hx, -⟩ := h.pending r hr
        refine ⟨(h.copy x r.owner hx).2.2.1, fun hsome => ?_⟩
        obtain ⟨y, -, hk⟩ := h.exists_awaiting hr hsome
        exact hkey y r.target hk
    refine ⟨fun n k hk => ?_, forall_update i ((hnotes i).upon hcopied) hnotes⟩
    by_cases hn : t.Allocated n
    · exact hkey n k (h.keyOf_eq hn ▸ hk)
    · obtain ⟨x, -, hx⟩ := h.exists_source hn hk
      exact hkey x k hx
  | finished i =>
    refine ⟨fun n k hk => ?_, forall_update i notesTended_empty hnotes⟩
    rcases keyOf_finish_cases hk with hkept | ⟨hsome, r, hr, rfl, hcopy⟩
    · exact hkey n k hkept
    · rw [isSome_keyOf_finish]
      exact ((ht.each i).copies r.target k hcopy).2.2 (((ht.each i).pending r hr).2 hsome)

end Tended

section Returning
variable {d e : CopyState}

theorem NotesReturn.step (htended : NotesTended t e) (he : NotesReturn t e)
    (h : KeyStep changed t notes copies t' notes') : NotesReturn t' e := by
  intro r hr hsome
  rw [(h.keeps (htended.pending r hr).1).2] at hsome
  exact he r hr hsome

/-- As long as only velogs are copied that are their own keys, every velog will be its own key. -/
theorem Returning.step (htended : Tended t notes) (ht : Returning t notes)
    (hown : ∀ x k, (copies x).isSome → t.keyOf x = some k → k = x)
    (h : KeyStep changed t notes copies t' notes') : Returning t' notes' := by
  have hnotes (i : ι) : NotesReturn t' (notes i) := (ht.each i).step (htended.each i) h
  cases h with
  | made h =>
    refine ⟨hnotes, fun n k hk hne => ?_⟩
    rcases h.key n with hsame | ⟨-, hnew⟩
    · exact ht.awaited n k (hsame ▸ hk) hne
    · exact absurd (Option.some.inj (hk.symm.trans hnew)) hne
  | @copied _ d i h hapart =>
    have hupon : NotesReturn t' (d.upon (notes i)) := by
      refine List.forall_mem_append.2 ⟨fun r hr hsome => ?_, fun r hr hsome => ?_⟩
      · have hreturns := hnotes i r hr hsome
        rw [CopyState.copyOf?_upon]
        cases hcopy : d.copyOf? r.target with
        | none => exact hreturns
        | some c => cases (hapart _ c hcopy).symm.trans hreturns
      · obtain ⟨x, hx, hk⟩ := h.exists_awaiting hr hsome
        obtain rfl := hown x r.target (by rw [hx, Option.isSome_some]) hk
        rw [CopyState.copyOf?_upon, hx, Option.some_or]
    refine ⟨forall_update i hupon hnotes, fun n k hk hne => ?_⟩
    by_cases hn : t.Allocated n
    · obtain ⟨j, r, hr, howner⟩ := ht.awaited n k (h.keyOf_eq hn ▸ hk) hne
      refine ⟨j, r, ?_, howner⟩
      by_cases hj : j = i
      · subst hj
        rw [Function.update_self]
        exact List.mem_append_left _ hr
      · rwa [Function.update_of_ne hj]
    · obtain ⟨x, hx, hxk⟩ := h.exists_source hn hk
      obtain ⟨r, hr, howner, -⟩ := h.awaits x n k hx hxk
      refine ⟨i, r, ?_, howner⟩
      rw [Function.update_self]
      exact List.mem_append_right _ hr
  | finished i =>
    refine ⟨forall_update i notesReturn_empty hnotes, fun n k hk hne => ?_⟩
    have hsome : (t.keyOf n).isSome := by rw [← isSome_keyOf_finish, hk, Option.isSome_some]
    have hunawaited : ∀ r ∈ (notes i).pending, r.owner ≠ n := by
      rintro r hr rfl
      obtain ⟨old, hold⟩ := Option.isSome_iff_exists.1 hsome
      have hawaited := keyOf_finish_awaited (fun r' hr' howner => ?_) hr rfl hold
      · exact hne (Option.some.inj (hk.symm.trans hawaited))
      · rw [← howner] at hsome ⊢
        exact ht.each i r' hr' hsome
    rw [keyOf_finish_unawaited hunawaited] at hk
    obtain ⟨j, r, hr, howner⟩ := ht.awaited n k hk hne
    refine ⟨j, r, ?_, howner⟩
    have hj : j ≠ i := by
      rintro rfl
      exact hunawaited r hr howner
    rwa [Function.update_of_ne hj]

end Returning

section Stale
variable {d e : CopyState}

theorem Stale.step (hc : Stale t notes c) (h : KeyStep changed t notes copies t' notes') :
    Stale t' notes' c := by
  obtain ⟨k, hk, hne⟩ := hc.key
  cases h with
  | made h => exact ⟨⟨k, (h.keyOf_eq hc.allocated).trans hk, hne⟩, hc.each⟩
  | @copied _ d i h hapart =>
    have hnew {x : NodeId} (hx : d.copyOf? x = some c) : False := (h.copy x c hx).2.1 hc.allocated
    have hupon : NotesMiss c (d.upon (notes i)) := by
      refine List.forall_mem_append.2 ⟨fun r hr howner hcopy => ?_, fun r hr howner => ?_⟩
      · rw [CopyState.copyOf?_upon, Option.or_eq_some_iff] at hcopy
        rcases hcopy with hcopy | ⟨-, hcopy⟩
        · exact hnew hcopy
        · exact hc.each i r hr howner hcopy
      · obtain ⟨x, hx, -⟩ := h.pending r hr
        exact (hnew (howner ▸ hx)).elim
    exact ⟨⟨k, (h.keyOf_eq hc.allocated).trans hk, hne⟩, forall_update i hupon hc.each⟩
  | finished i =>
    have hsome : (keyOf ((notes i).finish t) c).isSome := by
      rw [isSome_keyOf_finish, hk, Option.isSome_some]
    obtain ⟨k', hk'⟩ := Option.isSome_iff_exists.1 hsome
    refine ⟨⟨k', hk', ?_⟩, forall_update i notesMiss_empty hc.each⟩
    rintro rfl
    rcases keyOf_finish_cases hk' with hkept | ⟨-, r, hr, howner, hcopy⟩
    · exact hne (Option.some.inj (hk.symm.trans hkept))
    · exact hc.each i r hr howner hcopy

theorem stale_of_copied (ht : Tended t notes) (h : KeyStep changed t notes copies t' notes')
    (hx : copies x = some c) (hk : t.keyOf x = some k) (hne : k ≠ x) : Stale t' notes' c := by
  cases h with
  | made h => cases hx
  | finished i => cases hx
  | @copied _ d i h hapart =>
    have hfresh : ¬t.Allocated c := (h.copy x c hx).2.1
    have hkc : k ≠ c := by
      rintro rfl
      exact hfresh (allocated_of_isSome (ht.key x k hk))
    have hbefore (j : ι) : NotesMiss c (notes j) := by
      rintro r hr rfl
      exact absurd ((ht.each j).pending r hr).1 hfresh
    have hupon : NotesMiss c (d.upon (notes i)) := by
      refine List.forall_mem_append.2 ⟨fun r hr howner => ?_, fun r hr howner hcopy => ?_⟩
      · exact absurd (howner ▸ ((ht.each i).pending r hr).1) hfresh
      · obtain ⟨y, hy, htarget⟩ := h.pending r hr
        obtain rfl := h.source x y c hx (howner ▸ hy)
        rw [htarget k hk, CopyState.copyOf?_upon, Option.or_eq_some_iff] at hcopy
        rcases hcopy with hcopy | ⟨-, hcopy⟩
        · exact hne (h.source k x c hcopy hx)
        · exact hfresh ((ht.each i).copies k c hcopy).2.1
    exact ⟨⟨k, (h.keyOf_copy hx).trans hk, hkc⟩, forall_update i hupon hbefore⟩

end Stale

section Expressions

theorem KeyStep.expressionsOf_eq (h : KeyStep changed t notes copies t' notes')
    (hn : t.Allocated n) (hchanged : ¬changed n) : t'.expressionsOf n = t.expressionsOf n := by
  cases h with
  | made h => exact h.expressions n hn hchanged
  | copied i h hapart => rw [expressionsOf, h.kept n hn, expressionsOf]
  | finished i => exact expressionsOf_finish

theorem KeyStep.expressionsOf_copy (h : KeyStep changed t notes copies t' notes')
    (hc : copies x = some c) : t.Allocated x ∧ t'.Allocated c ∧
      t'.expressionsOf c = t.expressionsOf x := by
  cases h with
  | made h => cases hc
  | finished i => cases hc
  | copied i h hapart =>
    obtain ⟨hx, -, hcalloc, hvelog⟩ := h.copy x c hc
    exact ⟨hx, hcalloc, by rw [expressionsOf, hvelog, expressionsOf]⟩

end Expressions

end Steps
end TemplateCheck

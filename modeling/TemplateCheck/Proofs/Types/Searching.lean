import Mathlib.Logic.Function.Iterate
import TemplateCheck.Proofs.Lists
import TemplateCheck.Proofs.Sorting
import TemplateCheck.Proofs.Types.Referenced
import TemplateCheck.Proofs.Types.Session

/-! The search for the types that a type refers to comes to an end, and has seen each of them once
by then. They are the least types that the type is one of and that have all their parts among
them. -/

namespace TemplateCheck
open Relation (ReflTransGen)

namespace TypeForm
variable {τ : Type}

/-- The direct children of a form. -/
inductive Child : TypeForm τ → τ → Prop where
  | listItem (t : τ) : Child (.list t) t
  | setItem (t : τ) : Child (.set t) t
  | iterableItem (t : τ) : Child (.iterable t) t
  | mapKey (key value : τ) : Child (.map key value) key
  | mapValue (key value : τ) : Child (.map key value) value
  | objectKey (key value : τ) : Child (.legacyObjectMap key value) key
  | objectValue (key value : τ) : Child (.legacyObjectMap key value) value
  | property {ps : List (RecordProperty τ)} {p : RecordProperty τ} (hp : p ∈ ps) :
      Child (.record ps) p.type
  | templateParameter {shape : TemplateShape τ} {p : TemplateParameter τ}
      (hp : p ∈ shape.parameters) : Child (.template shape) p.type
  | templateResult (shape : TemplateShape τ) : Child (.template shape) shape.result
  | functionParameter {shape : FunctionShape τ} {p : FunctionParameter τ}
      (hp : p ∈ shape.parameters) : Child (.function shape) p.type
  | functionResult (shape : FunctionShape τ) : Child (.function shape) shape.result
  | unionMember {ts : List τ} {t : τ} (ht : t ∈ ts) : Child (.union ts) t
  | intersectionMember {ts : List τ} {t : τ} (ht : t ∈ ts) : Child (.intersection ts) t

theorem child_of_mem_parts {d : TypeForm τ} {t : τ} (h : t ∈ d.parts) : d.Child t := by
  cases d with
  | error | intrinsic | element | literal | message | enum => cases h
  | list item => exact List.mem_singleton.1 h ▸ .listItem item
  | set item => exact List.mem_singleton.1 h ▸ .setItem item
  | iterable item => exact List.mem_singleton.1 h ▸ .iterableItem item
  | map key value =>
    rcases List.mem_pair.1 h with rfl | rfl
    · exact .mapKey _ value
    · exact .mapValue key _
  | legacyObjectMap key value =>
    rcases List.mem_pair.1 h with rfl | rfl
    · exact .objectKey _ value
    · exact .objectValue key _
  | record ps =>
    obtain ⟨p, hp, rfl⟩ := List.mem_map.1 h
    exact .property hp
  | template shape =>
    rcases List.mem_append.1 h with h | h
    · obtain ⟨p, hp, rfl⟩ := List.mem_map.1 h
      exact .templateParameter hp
    · exact List.mem_singleton.1 h ▸ .templateResult shape
  | function shape =>
    rcases List.mem_append.1 h with h | h
    · obtain ⟨p, hp, rfl⟩ := List.mem_map.1 h
      exact .functionParameter hp
    · exact List.mem_singleton.1 h ▸ .functionResult shape
  | union ts => exact .unionMember h
  | intersection ts => exact .intersectionMember h

theorem Child.mem_parts {d : TypeForm τ} {t : τ} (h : d.Child t) : t ∈ d.parts := by
  cases h with
  | listItem | setItem | iterableItem => exact List.mem_singleton_self t
  | mapKey | objectKey => exact List.mem_cons_self
  | mapValue | objectValue => exact List.mem_cons_of_mem _ (List.mem_singleton_self t)
  | property hp => exact List.mem_map_of_mem hp
  | templateParameter hp | functionParameter hp =>
    exact List.mem_append_left _ (List.mem_map_of_mem hp)
  | templateResult | functionResult => exact List.mem_append_right _ (List.mem_singleton_self _)
  | unionMember ht | intersectionMember ht => exact ht

end TypeForm

namespace TypeStore
variable {s : TypeStore} {t u : TypeId}

theorem part_iff_child : s.Part t u ↔ (s.data t).Child u :=
  ⟨TypeForm.child_of_mem_parts, TypeForm.Child.mem_parts⟩

namespace Search
variable {x : Search}

theorem step_seen {seen stack : List TypeId} (h : t ∈ seen) :
    step s ⟨seen, t :: stack⟩ = ⟨seen, stack⟩ := by
  rw [step, if_pos (List.contains_iff_mem.2 h)]

theorem step_new {seen stack : List TypeId} (h : t ∉ seen) :
    step s ⟨seen, t :: stack⟩ = ⟨t :: seen, (s.children t).reverse ++ stack⟩ := by
  rw [step, if_neg (mt List.contains_iff_mem.1 h)]

section Ending

def Clears (s : TypeStore) (types : List TypeId) : Prop :=
  ∀ seen stack, ∃ steps later, (step s)^[steps] ⟨seen, types ++ stack⟩ = ⟨later, stack⟩

theorem Clears.append {ts us : List TypeId} (h : Clears s ts) (h' : Clears s us) :
    Clears s (ts ++ us) := by
  intro seen stack
  obtain ⟨m, middle, hm⟩ := h seen (us ++ stack)
  obtain ⟨n, later, hn⟩ := h' middle stack
  refine ⟨n + m, later, ?_⟩
  rw [Function.iterate_add_apply, List.append_assoc, hm, hn]

theorem clears_of_forall {types : List TypeId} (h : ∀ t ∈ types, Clears s [t]) :
    Clears s types := by
  induction types with
  | nil => exact fun seen stack => ⟨0, seen, rfl⟩
  | cons t ts ih =>
    obtain ⟨ht, hts⟩ := List.forall_mem_cons.1 h
    exact ht.append (ih hts)

/-- Parts rank below the type, so the induction is on the type and not on what has been seen. -/
theorem clears (h : s.Sound) (ht : s.Known t) : Clears s [t] := by
  refine h.induct (motive := fun t => Clears s [t]) (fun t d hd ih => ?_) t ht
  have hparts : Clears s (s.children t).reverse := by
    refine clears_of_forall fun p hp => ih p ?_
    rwa [List.mem_reverse, children, data_of_lookup hd] at hp
  intro seen stack
  by_cases hseen : t ∈ seen
  · exact ⟨1, seen, step_seen hseen⟩
  · obtain ⟨n, later, hn⟩ := hparts (t :: seen) stack
    refine ⟨n + 1, later, ?_⟩
    rw [Function.iterate_succ_apply, List.singleton_append, step_new hseen, hn]

end Ending

structure From (s : TypeStore) (t : TypeId) (x : Search) : Prop where
  nodup : x.seen.Nodup
  reached : ∀ u ∈ x.seen ++ x.stack, ReflTransGen s.Part t u
  root : t ∈ x.seen ++ x.stack
  closed : ∀ u ∈ x.seen, ∀ v, s.Part u v → v ∈ x.seen ++ x.stack

namespace From

theorem start (s : TypeStore) (t : TypeId) : From s t (start t) where
  nodup := List.nodup_nil
  reached := List.forall_mem_singleton.2 .refl
  root := List.mem_singleton_self t
  closed _ hu := nomatch hu

theorem step (h : From s t x) : From s t (x.step s) := by
  obtain ⟨seen, _ | ⟨u, stack⟩⟩ := x
  · exact h
  by_cases hseen : u ∈ seen
  · rw [step_seen hseen]
    have hkept {v : TypeId} : v ∈ seen ++ u :: stack ↔ v ∈ seen ++ stack := by
      simp only [List.mem_append, List.mem_cons]
      exact ⟨by rintro (hv | rfl | hv) <;> simp [*], by rintro (hv | hv) <;> simp [hv]⟩
    exact ⟨h.nodup, fun v hv => h.reached v (hkept.2 hv), hkept.1 h.root,
      fun v hv w hvw => hkept.1 (h.closed v hv w hvw)⟩
  · rw [step_new hseen]
    have hkept {v : TypeId} (hv : v ∈ seen ++ u :: stack) :
        v ∈ u :: seen ++ ((s.children u).reverse ++ stack) := by
      simp only [List.mem_append, List.mem_cons] at hv ⊢
      tauto
    refine ⟨List.nodup_cons.2 ⟨hseen, h.nodup⟩, fun v hv => ?_, hkept h.root, fun v hv w hvw => ?_⟩
    · by_cases hpart : s.Part u v
      · exact (h.reached u (by simp)).tail hpart
      · have hpart : v ∉ s.children u := hpart
        refine h.reached v ?_
        simp only [List.mem_append, List.mem_cons, List.mem_reverse, hpart, false_or] at hv ⊢
        tauto
    · rcases List.mem_cons.1 hv with rfl | hv
      · have hw : w ∈ (s.children v).reverse := List.mem_reverse.2 hvw
        simp [hw]
      · exact hkept (h.closed v hv w hvw)

theorem iterate (h : From s t x) (steps : Nat) : From s t ((Search.step s)^[steps] x) := by
  induction steps with
  | zero => exact h
  | succ n ih =>
    rw [Function.iterate_succ_apply']
    exact ih.step

theorem mem_seen {seen : List TypeId} (h : From s t ⟨seen, []⟩) :
    u ∈ seen ↔ ReflTransGen s.Part t u := by
  refine ⟨fun hu => h.reached u (List.mem_append_left _ hu), fun hu => ?_⟩
  induction hu with
  | refl => exact (List.mem_append.1 h.root).resolve_right List.not_mem_nil
  | tail _ hpart ih =>
    exact (List.mem_append.1 (h.closed _ ih _ hpart)).resolve_right List.not_mem_nil

end From

theorem exists_end (h : s.Sound) (ht : s.Known t) :
    ∃ steps seen, (step s)^[steps] (start t) = ⟨seen, []⟩ ∧ seen.Nodup ∧
      ∀ u, u ∈ seen ↔ ReflTransGen s.Part t u := by
  obtain ⟨n, seen, hn⟩ := clears h ht [] []
  have hend : From s t ⟨seen, []⟩ := hn ▸ (From.start s t).iterate n
  exact ⟨n, seen, hn, hend.nodup, fun u => hend.mem_seen⟩

end Search

section Reached

theorem nodup_reachFrom (rounds : Nat) {seen newest : List TypeId} (hseen : seen.Nodup) :
    (s.reachFrom rounds seen newest).Nodup := by
  induction rounds generalizing seen newest with
  | zero => exact hseen
  | succ rounds ih =>
    rw [reachFrom]
    split
    · exact hseen
    · refine ih (List.nodup_append'.2 ⟨hseen, (nodup_eraseDups _).filter _, fun u hu hfound => ?_⟩)
      exact (mem_found.1 hfound).2 hu

theorem nodup_referenced (s : TypeStore) (t : TypeId) : (s.referenced t).Nodup :=
  nodup_reachFrom _ (List.nodup_singleton t)

theorem Sound.containsError_iff (h : s.Sound) :
    s.containsError t ↔ .error ∈ s.referenced t := by
  have herror : s.lookup .error = some .error := s.lookup_fixed rfl
  rw [containsError, containsForm, List.any_eq_true]
  constructor
  · rintro ⟨u, hu, hform⟩
    cases hd : s.lookup u with
    | none => rw [hd] at hform; cases hform
    | some d =>
      rw [hd, Option.any_some, beq_iff_eq] at hform
      subst hform
      rwa [h.lookup_injective hd herror] at hu
  · intro hmem
    exact ⟨.error, hmem, by rw [herror]; rfl⟩

theorem protoName?_eq_some_iff {d : TypeData} {name : String} : d.protoName? = some name ↔
    (∃ m, d = .message m ∧ m.descriptor.name = name) ∨
      ∃ e, d = .enum (.descriptor e) ∧ e.descriptor.name = name := by
  constructor
  · intro h
    cases d with
    | message m => exact .inl ⟨m, rfl, Option.some.inj h⟩
    | enum e =>
      cases e with
      | descriptor e => exact .inr ⟨e, rfl, Option.some.inj h⟩
      | any | unknown => cases h
    | _ => cases h
  · rintro (⟨m, rfl, rfl⟩ | ⟨e, rfl, rfl⟩)
    · rfl
    · rfl

theorem mem_protoNames {name : String} : name ∈ s.protoNames t ↔ ∃ u ∈ s.referenced t,
    (∃ m, s.data u = .message m ∧ m.descriptor.name = name) ∨
      ∃ e, s.data u = .enum (.descriptor e) ∧ e.descriptor.name = name := by
  rw [protoNames, Order.sortTexts, Order.mem_sortBy, List.mem_eraseDups, List.mem_filterMap]
  simp only [protoName?_eq_some_iff]

theorem protoNames_ascending (s : TypeStore) (t : TypeId) :
    (s.protoNames t).Pairwise (· < ·) := by
  have hsorted : (s.protoNames t).Pairwise (· ≤ ·) := @Order.sortBy_name_sorted String id _
  have hnodup : (s.protoNames t).Nodup :=
    (Order.sortBy_perm _ _).nodup_iff.2 (nodup_eraseDups _)
  exact (hsorted.and hnodup).imp fun h => lt_of_le_of_ne h.1 h.2

end Reached
end TypeStore

namespace Session
open TypeStore

variable {σ : Session} {t : TypeId}

/-- The search from a type ends with the types that it refers to, each once. They are the least types
that the type is one of and that have their children among them. The type contains an error if the
error type is one of them, and its protos are the messages and enums among them, in strict order. -/
theorem referenced_least (hσ : σ.Reached) (ht : t ∈ σ.issued) :
    (∃ steps seen, (Search.step σ.store)^[steps] (.start t) = ⟨seen, []⟩ ∧
        seen.Perm (σ.store.referenced t)) ∧
      (t ∈ σ.store.referenced t ∧
        ∀ u ∈ σ.store.referenced t, ∀ v, (σ.store.data u).Child v → v ∈ σ.store.referenced t) ∧
      (∀ closed : TypeId → Prop, closed t →
        (∀ u, closed u → ∀ v, (σ.store.data u).Child v → closed v) →
        ∀ u ∈ σ.store.referenced t, closed u) ∧
      (σ.store.containsError t ↔ .error ∈ σ.store.referenced t) ∧
      (σ.store.protoNames t).Pairwise (· < ·) ∧
      ∀ name, name ∈ σ.store.protoNames t ↔ ∃ u ∈ σ.store.referenced t,
        (∃ m, σ.store.data u = .message m ∧ m.descriptor.name = name) ∨
          ∃ e, σ.store.data u = .enum (.descriptor e) ∧ e.descriptor.name = name := by
  have hs := hσ.valid.sound
  have hknown := hσ.valid.known t ht
  have hmem {u : TypeId} : u ∈ σ.store.referenced t ↔ ReflTransGen σ.store.Part t u :=
    hs.mem_referenced hknown
  refine ⟨?_, ⟨hmem.2 .refl, fun u hu v hv => ?_⟩, fun closed hroot hclosed u hu => ?_,
    hs.containsError_iff, protoNames_ascending _ _, fun _ => mem_protoNames⟩
  · obtain ⟨steps, seen, hend, hnodup, hseen⟩ := Search.exists_end hs hknown
    refine ⟨steps, seen, hend, (List.perm_ext_iff_of_nodup hnodup (nodup_referenced _ _)).2 ?_⟩
    exact fun u => (hseen u).trans hmem.symm
  · exact hmem.2 ((hmem.1 hu).tail (part_iff_child.2 hv))
  · have hreach := hmem.1 hu
    clear hu
    induction hreach with
    | refl => exact hroot
    | tail _ hpart ih => exact hclosed _ ih _ (part_iff_child.1 hpart)

def protoProperties : List (RecordProperty TypeId) :=
  [⟨"item", false, ⟨127⟩⟩, ⟨"color", true, ⟨191⟩⟩, ⟨"fault", false, .error⟩]

def protoSession : Session :=
  ((single.call (.message ⟨0, ⟨"shop.Item", []⟩⟩)).call (.enum ⟨0, ⟨"shop.Color", []⟩⟩)).call
    (.record protoProperties)

theorem referenced_least_protos : protoSession.Reached ∧ ⟨255⟩ ∈ protoSession.issued ∧
    protoSession.store.containsError ⟨255⟩ ∧
    (protoSession.store.protoNames ⟨255⟩).Pairwise (· < ·) ∧
    "shop.Color" ∈ protoSession.store.protoNames ⟨255⟩ ∧
    "shop.Item" ∈ protoSession.store.protoNames ⟨255⟩ := by
  have hnames : (protoProperties.map (·.name)).Nodup := by decide
  have hreached : protoSession.Reached :=
    ((reached_single.call_fixed (.message _) trivial (by decide)).call_fixed (.enum _) trivial
      (by decide)).call (.record protoProperties) ⟨hnames, by decide +kernel⟩
  have hissued : ⟨255⟩ ∈ protoSession.issued := by decide +kernel
  have hdata : protoSession.store.data ⟨255⟩ = .record protoProperties := by decide +kernel
  have hmessage : protoSession.store.data ⟨127⟩ = .message ⟨0, ⟨"shop.Item", []⟩⟩ := by
    decide +kernel
  have henum : protoSession.store.data ⟨191⟩ = .enum (.descriptor ⟨0, ⟨"shop.Color", []⟩⟩) := by
    decide +kernel
  obtain ⟨-, ⟨hroot, hclosed⟩, -, herror, hsorted, hmem⟩ := referenced_least hreached hissued
  have hchild {p : RecordProperty TypeId} (hp : p ∈ protoProperties) :
      p.type ∈ protoSession.store.referenced ⟨255⟩ :=
    hclosed _ hroot _ (hdata ▸ .property hp)
  refine ⟨hreached, hissued, herror.2 ?_, hsorted, (hmem _).2 ?_, (hmem _).2 ?_⟩
  · exact hchild (p := ⟨"fault", false, .error⟩) (by decide)
  · exact ⟨_, hchild (p := ⟨"color", true, ⟨191⟩⟩) (by decide), .inr ⟨_, henum, rfl⟩⟩
  · exact ⟨_, hchild (p := ⟨"item", false, ⟨127⟩⟩) (by decide), .inl ⟨_, hmessage, rfl⟩⟩

end Session
end TemplateCheck

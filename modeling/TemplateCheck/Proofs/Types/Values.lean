import TemplateCheck.Proofs.Types.Bounds
import TemplateCheck.Proofs.Types.Membership

/-! The values of a union are those of the types that it was made of, and the values of an
intersection those that all of them have in common. -/

namespace TemplateCheck
open Assignable TypeStore

namespace TypeStore
variable {s s' : TypeStore} {m t : TypeId} {types : List TypeId} {v : Value}

theorem Grows.hasValue_eq (hgrows : s.Grows s') (h : s.Sound) (h' : s'.Sound) (ht : s.Known t) :
    s'.hasValue t v = s.hasValue t v := by
  refine h.induct (motive := fun t => s'.hasValue t v = s.hasValue t v) (fun t d hd ih => ?_) t ht
  have hkt : s.Known t := ⟨d, hd⟩
  rw [h'.hasValue_eq (hgrows.known hkt), h.hasValue_eq hkt, hgrows.data hkt, data_of_lookup hd]
  cases d with
  | union members => exact any_congr_mem ih
  | intersection members => exact all_congr_mem ih
  | _ => rfl

theorem Sound.not_hasValue_never (h : s.Sound) (v : Value) : ¬s.hasValue .never v := by
  have hfits : s.hasValue .never v = v.fits (.intrinsic .never) := h.hasValue_fixed rfl
  rw [hfits]
  exact Bool.false_ne_true

theorem Sound.hasValue_iff_exists (h : s.Sound) (ht : s.Known t) :
    s.hasValue t v ↔ ∃ m ∈ s.membersOf .union t, s.hasValue m v := by
  by_cases hkind : s.kind t = .union
  · obtain ⟨members, hd⟩ := exists_data_union hkind
    rw [membersOf_of_kind hkind, h.hasValue_union ht hd, hd]
    rfl
  · simp only [membersOf_self hkind, List.mem_singleton, exists_eq_left]

theorem Sound.hasValue_iff_forall (h : s.Sound) (ht : s.Known t) :
    s.hasValue t v ↔ ∀ m ∈ s.membersOf .intersection t, s.hasValue m v := by
  by_cases hkind : s.kind t = .intersection
  · obtain ⟨members, hd⟩ := exists_data_intersection hkind
    rw [membersOf_of_kind hkind, h.hasValue_intersection ht hd, hd]
    rfl
  · rw [membersOf_self hkind, List.forall_mem_singleton]

theorem Sound.exists_hasValue_iff (h : s.Sound) (hknown : ∀ t ∈ types, s.Known t) :
    (∃ t ∈ types, s.hasValue t v) ↔
      ∃ m ∈ types.flatMap (s.membersOf .union), s.hasValue m v := by
  constructor
  · rintro ⟨t, ht, hv⟩
    obtain ⟨m, hm, hv⟩ := (h.hasValue_iff_exists (hknown t ht)).1 hv
    exact ⟨m, List.mem_flatMap.2 ⟨t, ht, hm⟩, hv⟩
  · rintro ⟨m, hm, hv⟩
    obtain ⟨t, ht, hm⟩ := List.mem_flatMap.1 hm
    exact ⟨t, ht, (h.hasValue_iff_exists (hknown t ht)).2 ⟨m, hm, hv⟩⟩

theorem Sound.forall_hasValue_iff (h : s.Sound) (hknown : ∀ t ∈ types, s.Known t) :
    (∀ t ∈ types, s.hasValue t v) ↔
      ∀ m ∈ types.flatMap (s.membersOf .intersection), s.hasValue m v := by
  constructor
  · intro hv m hm
    obtain ⟨t, ht, hm⟩ := List.mem_flatMap.1 hm
    exact (h.hasValue_iff_forall (hknown t ht)).1 (hv t ht) m hm
  · intro hv t ht
    exact (h.hasValue_iff_forall (hknown t ht)).2 fun m hm =>
      hv m (List.mem_flatMap.2 ⟨t, ht, hm⟩)

section Made
variable {made : TypeId × TypeStore} (hmade : s.Made made) (hknown : ∀ t ∈ types, s.Known t)
include hmade hknown

theorem Made.hasValue_union (hgathers : Gathers .union [.error, .any, .unknown] .never
    (types.flatMap (s.membersOf .union)) made) :
    made.2.hasValue made.1 v ↔ ∃ t ∈ types, made.2.hasValue t v := by
  have hs := hmade.sound
  rw [hs.exists_hasValue_iff fun t ht => hmade.grows.known (hknown t ht),
    hmade.grows.flatMap_membersOf hknown]
  rcases hgathers with ⟨habsorbing, hmem⟩ | hmembers
  · have htop : made.1.isTop := by
      simp only [List.mem_cons, List.not_mem_nil, or_false] at habsorbing
      rcases habsorbing with heq | heq | heq <;> rw [heq] <;> rfl
    exact iff_of_true (hs.hasValue_top htop) ⟨made.1, hmem, hs.hasValue_top htop⟩
  · rw [hs.hasValue_iff_exists hmade.known]
    refine exists_congr fun m => and_congr_left fun hv => hmembers m ?_
    rintro rfl
    exact hs.not_hasValue_never v hv

theorem Made.hasValue_intersection (h : s.Sound) (hgathers : Gathers .intersection
    [.error, .never, .any] .unknown (types.flatMap (s.membersOf .intersection)) made)
    (herror : .error ∉ types) (hany : .any ∉ types) :
    made.2.hasValue made.1 v ↔ ∀ t ∈ types, made.2.hasValue t v := by
  have hs := hmade.sound
  rw [hs.forall_hasValue_iff fun t ht => hmade.grows.known (hknown t ht),
    hmade.grows.flatMap_membersOf hknown]
  rcases hgathers with ⟨habsorbing, hmem⟩ | hmembers
  · have hnever : made.1 = .never := by
      have hspecial : [TypeId.error, .never, .any] ⊆ [.error, .any, .unknown, .never] := by decide
      obtain ⟨t, ht, hm⟩ := List.mem_flatMap.1 hmem
      rcases h.membersOf_plain (hknown t ht) hm with hplain | rfl
      · exact absurd (hspecial habsorbing) hplain
      · simp only [List.mem_cons, List.not_mem_nil, or_false] at habsorbing
        rcases habsorbing with heq | heq | heq
        · exact absurd (heq ▸ ht) herror
        · exact heq
        · exact absurd (heq ▸ ht) hany
    have hnot : ¬made.2.hasValue made.1 v := by
      rw [hnever]
      exact hs.not_hasValue_never v
    exact iff_of_false hnot fun hv => hnot (hv made.1 hmem)
  · rw [hs.hasValue_iff_forall hmade.known]
    refine forall_congr' fun m => ?_
    by_cases hunknown : m = .unknown
    · have hv : made.2.hasValue m v := hs.hasValue_top (by rw [hunknown]; rfl)
      exact iff_of_true (fun _ => hv) fun _ => hv
    · rw [hmembers m hunknown]

end Made
end TypeStore

namespace Session
variable {σ : Session}

/-- A union has the values that one of its types has. An intersection has the values that all of
its types have, if neither the error type nor `any` is among them. -/
theorem combined_hasValue (hσ : σ.Reached) (types : List TypeId)
    (hissued : ∀ t ∈ types, t ∈ σ.issued) (v : Value) :
    ((union types σ.store).2.hasValue (union types σ.store).1 v ↔
        ∃ t ∈ types, (union types σ.store).2.hasValue t v) ∧
      (.error ∉ types → .any ∉ types →
        ((intersection types σ.store).2.hasValue (intersection types σ.store).1 v ↔
          ∀ t ∈ types, (intersection types σ.store).2.hasValue t v)) ∧
      ∀ t ∈ σ.issued, (union types σ.store).2.hasValue t v = σ.store.hasValue t v ∧
        (intersection types σ.store).2.hasValue t v = σ.store.hasValue t v := by
  have hvalid := hσ.valid
  have hsound := hvalid.sound
  have hknown : ∀ t ∈ types, σ.store.Known t := fun t ht => hvalid.known t (hissued t ht)
  have hunion := hsound.union hknown
  have hintersection := hsound.intersection hknown
  refine ⟨hunion.hasValue_union hknown (hsound.union_gathers hknown), fun herror hany =>
    hintersection.hasValue_intersection hknown hsound (hsound.intersection_gathers hknown) herror
      hany, fun t ht => ?_⟩
  exact ⟨hunion.grows.hasValue_eq hsound hunion.sound (hvalid.known t ht),
    hintersection.grows.hasValue_eq hsound hintersection.sound (hvalid.known t ht)⟩

theorem combined_hasValue_sample :
    (intersection [⟨127⟩, ⟨191⟩] unionSession.store).2.hasValue
        (intersection [⟨127⟩, ⟨191⟩] unionSession.store).1 (.int 3) ∧
      ¬(intersection [⟨127⟩, ⟨191⟩] unionSession.store).2.hasValue
        (intersection [⟨127⟩, ⟨191⟩] unionSession.store).1 .null := by
  have hiff (v : Value) := (combined_hasValue reached_unionSession [⟨127⟩, ⟨191⟩]
    (by decide +kernel) v).2.1 (by decide) (by decide)
  rw [hiff, hiff]
  decide +kernel

end Session
end TemplateCheck

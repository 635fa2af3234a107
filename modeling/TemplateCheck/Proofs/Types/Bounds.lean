import TemplateCheck.Proofs.Types.Members
import TemplateCheck.Proofs.Types.Transitivity

/-! Unions and intersections as bounds. A union is the least type that accepts all that it was made
of. An intersection is accepted by the types that it was made of, except for unions, which are taken
apart before it is. -/

namespace TemplateCheck
open Assignable TypeStore

namespace TypeStore
variable {s : TypeStore} {a b m t : TypeId} {members types : List TypeId} {mode : Mode}

section Unions

theorem Sound.accepts_member (h : s.Sound) (ht : s.Known t) (hm : m ∈ s.membersOf .union t) :
    s.accepts mode t m := by
  rcases kind_cases s t with ⟨members, hd⟩ | ⟨hkind, -⟩
  · have hkind : s.kind t = .union := by rw [kind, hd]; rfl
    rw [membersOf_of_kind hkind] at hm
    have hknown := h.known_part ht hm
    rw [hd] at hm
    have hnormal := h.union_normal ht hd
    have hflat := hnormal.flat m hm
    have hne : t ≠ m := by
      rintro rfl
      exact hflat hkind
    have htop := not_isTop_of_not_special (not_special hd rfl)
    rw [h.accepts_ordinary ht hknown hne htop (not_source_special (hnormal.plain m hm)),
      distribute_union_target hflat hd, List.any_eq_true]
    exact ⟨m, hm, accepts_refl s mode m⟩
  · rw [membersOf_self hkind, List.mem_singleton] at hm
    rw [hm]
    exact accepts_refl s mode t

theorem Sound.accepts_union_source (h : s.Sound) (ha : s.Known a) (hb : s.Known b) :
    s.accepts mode a b ↔ ∀ m ∈ s.membersOf .union b, s.accepts mode a m := by
  rcases kind_cases s b with ⟨members, hd⟩ | ⟨hkind, -⟩
  · by_cases htop : a.isTop
    · exact iff_of_true (accepts_top htop) fun m _ => accepts_top htop
    by_cases hne : a = b
    · rw [hne]
      exact iff_of_true (accepts_refl s mode b) fun m hm => h.accepts_member hb hm
    have hkind : s.kind b = .union := by rw [kind, hd]; rfl
    have hsource := not_source_special (not_special hd rfl)
    rw [Bool.not_eq_true] at htop
    rw [membersOf_of_kind hkind, h.accepts_ordinary ha hb hne htop hsource,
      distribute_union_source hd, List.all_eq_true, hd]
    rfl
  · rw [membersOf_self hkind, List.forall_mem_singleton]

variable {made : TypeId × TypeStore} (hmade : s.Made made) (hknown : ∀ t ∈ types, s.Known t)
  (hgathers : Gathers .union [.error, .any, .unknown] .never
    (types.flatMap (s.membersOf .union)) made)
include hmade hknown hgathers

theorem Made.union_accepts (ht : t ∈ types) : made.2.accepts mode made.1 t := by
  have hs := hmade.sound
  have hkt := hknown t ht
  rw [hs.accepts_union_source hmade.known (hmade.grows.known hkt), hmade.grows.membersOf_eq hkt]
  intro m hm
  have hmem : m ∈ types.flatMap (s.membersOf .union) := List.mem_flatMap.2 ⟨t, ht, hm⟩
  rcases hgathers with ⟨habsorbing, -⟩ | hmembers
  · have htop : made.1.isTop := by
      simp only [List.mem_cons, List.not_mem_nil, or_false] at habsorbing
      rcases habsorbing with heq | heq | heq <;> rw [heq] <;> rfl
    exact accepts_top htop
  · by_cases hnever : m = .never
    · rw [hnever]
      exact accepts_never_source ..
    · exact hs.accepts_member hmade.known ((hmembers m hnever).2 hmem)

theorem Made.accepts_union (h : s.Sound) (ha : s.Known a)
    (haccepts : ∀ t ∈ types, s.accepts mode a t) : made.2.accepts mode a made.1 := by
  have hs := hmade.sound
  have hmember {m} (hm : m ∈ types.flatMap (s.membersOf .union)) : made.2.accepts mode a m := by
    obtain ⟨t, ht, hm⟩ := List.mem_flatMap.1 hm
    have hkt := hknown t ht
    rw [hmade.grows.accepts_eq h hs ha (h.known_membersOf hkt hm)]
    exact (h.accepts_union_source ha hkt).1 (haccepts t ht) m hm
  rcases hgathers with ⟨-, hmem⟩ | hmembers
  · exact hmember hmem
  · refine (hs.accepts_union_source (hmade.grows.known ha) hmade.known).2 fun m hm => ?_
    by_cases hnever : m = .never
    · rw [hnever]
      exact accepts_never_source ..
    · exact hmember ((hmembers m hnever).1 hm)

end Unions

section Intersections

theorem accepts_bottom (hb : b = .error ∨ b = .never) : s.accepts mode a b := by
  rw [accepts, within, step, if_pos hb, ite_self, Bool.or_true]

theorem exists_data_union (h : s.kind t = .union) : ∃ members, s.data t = .union members := by
  rcases kind_cases s t with hd | ⟨hkind, -⟩
  · exact hd
  · exact absurd h hkind

theorem exists_data_intersection (h : s.kind t = .intersection) :
    ∃ members, s.data t = .intersection members := by
  rcases kind_cases s t with ⟨members, hd⟩ | ⟨-, hd | hkind⟩
  · rw [kind, hd] at h
    cases h
  · exact hd
  · exact absurd h hkind

theorem kind_of_isTop (s : TypeStore) (htop : t.isTop) :
    s.kind t ≠ .union ∧ s.kind t ≠ .intersection := by
  have hnot {d : TypeData} (hfixed : d.fixedId? = none) : s.data t ≠ d := by
    intro hd
    rw [not_isTop_of_not_special (not_special hd hfixed)] at htop
    cases htop
  constructor
  · intro hkind
    obtain ⟨members, hd⟩ := exists_data_union hkind
    exact hnot rfl hd
  · intro hkind
    obtain ⟨members, hd⟩ := exists_data_intersection hkind
    exact hnot rfl hd

theorem Sound.membersOf_plain (h : s.Sound) (ht : s.Known t)
    (hm : m ∈ s.membersOf .intersection t) :
    m ∉ [TypeId.error, .any, .unknown, .never] ∨ m = t := by
  by_cases hkind : s.kind t = .intersection
  · obtain ⟨members, hd⟩ := exists_data_intersection hkind
    rw [membersOf_of_kind hkind, hd] at hm
    exact .inl ((h.intersection_normal ht hd).plain m hm)
  · rw [membersOf_self hkind, List.mem_singleton] at hm
    exact .inr hm

theorem Sound.member_accepts_iff (h : s.Sound) (hb : s.Known b)
    (hd : s.data b = .intersection members) (hm : m ∈ members) :
    s.accepts mode m b ↔
      (s.kind m = .union → ∃ u ∈ TypeStore.unionMembers s m, s.accepts mode u b) := by
  have hnormal := h.intersection_normal hb hd
  have hflat := hnormal.flat m hm
  have hkb : s.kind b = .intersection := by rw [kind, hd]; rfl
  have hkm : s.Known m := h.known_part hb (by rwa [hd])
  have hne : m ≠ b := by
    rintro rfl
    exact hflat hkb
  have hunion : s.kind b ≠ .union := by
    rw [hkb]
    decide
  rw [h.accepts_ordinary hkm hb hne (hnormal.not_isTop hm)
    (not_source_special (not_special hd rfl))]
  rcases kind_cases s m with ⟨us, hdm⟩ | ⟨hum, -⟩
  · have hkind : s.kind m = .union := by rw [kind, hdm]; rfl
    rw [distribute_union_target hunion hdm, List.any_eq_true, TypeStore.unionMembers, hdm]
    exact ⟨fun haccepts _ => haccepts, fun haccepts => haccepts hkind⟩
  · rw [distribute_intersection_source hum hflat hd, List.any_eq_true]
    exact iff_of_true ⟨m, hm, accepts_refl s mode m⟩ fun hkind => absurd hkind hum

theorem Sound.accepts_intersection_source (h : s.Sound) (ha : s.Known a) (hb : s.Known b)
    (hd : s.data b = .intersection members) (hne : a ≠ b) (htop : a.isTop = false) :
    s.accepts mode a b ↔ ∀ m ∈ s.membersOf .intersection a, s.accepts mode m b := by
  by_cases hkind : s.kind a = .intersection
  · have hunion : s.kind b ≠ .union := by
      rw [kind, hd]
      simp [TypeForm.kind]
    obtain ⟨ns, hda⟩ := exists_data_intersection hkind
    rw [membersOf_of_kind hkind, h.accepts_ordinary ha hb hne htop
      (not_source_special (not_special hd rfl)), distribute_intersection_target hunion hda,
      List.all_eq_true, hda]
    rfl
  · rw [membersOf_self hkind, List.forall_mem_singleton]

variable {made : TypeId × TypeStore} (hmade : s.Made made) (h : s.Sound)
  (hknown : ∀ t ∈ types, s.Known t) (hgathers : Gathers .intersection [.error, .never, .any]
    .unknown (types.flatMap (s.membersOf .intersection)) made)
  (hany : .any ∉ types) (ha : a ∈ types) (hne : a ≠ made.1) (htop : a.isTop = false)
  (hbottom : ¬(made.1 = .error ∨ made.1 = .never))
include hmade h hknown hgathers hany ha htop hbottom

theorem Made.mem_intersection (hm : m ∈ made.2.membersOf .intersection a) :
    m ∈ made.2.membersOf .intersection made.1 := by
  rw [hmade.grows.membersOf_eq (hknown a ha)] at hm
  have hunknown : m ≠ .unknown := by
    rcases h.membersOf_plain (hknown a ha) hm with hplain | heq
    · rintro rfl
      exact hplain (by decide)
    · rw [heq]
      rintro rfl
      cases htop
  rcases hgathers with ⟨habsorbing, hmem⟩ | hmembers
  · simp only [List.mem_cons, List.not_mem_nil, or_false] at habsorbing
    have hone : made.1 = .any := by tauto
    obtain ⟨t, ht, hmem⟩ := List.mem_flatMap.1 hmem
    rw [hone] at hmem
    rcases h.membersOf_plain (hknown t ht) hmem with hplain | rfl
    · exact absurd (by decide) hplain
    · exact absurd ht hany
  · exact (hmembers m hunknown).2 (List.mem_flatMap.2 ⟨a, ha, hm⟩)

include hne in
theorem Made.exists_intersection : ∃ members, made.2.data made.1 = .intersection members := by
  have hka := hmade.grows.known (hknown a ha)
  have hmem {m} (hm : m ∈ made.2.membersOf .intersection a) :=
    hmade.mem_intersection h hknown hgathers hany ha htop hbottom hm
  by_contra hnot
  have hkind : made.2.kind made.1 ≠ .intersection := fun hkind =>
    hnot (exists_data_intersection hkind)
  rw [membersOf_self hkind] at hmem
  by_cases hkinda : made.2.kind a = .intersection
  · obtain ⟨ns, hd⟩ := exists_data_intersection hkinda
    obtain ⟨u, hu, hne⟩ := (hmade.sound.intersection_normal hka hd).exists_ne made.1
    rw [membersOf_of_kind hkinda, hd] at hmem
    exact hne (List.mem_singleton.1 (hmem hu))
  · rw [membersOf_self hkinda] at hmem
    exact hne (List.mem_singleton.1 (hmem (List.mem_singleton_self a)))

end Intersections

theorem Made.accepts_intersection_iff {made : TypeId × TypeStore} (hmade : s.Made made)
    (h : s.Sound) (hknown : ∀ t ∈ types, s.Known t)
    (hgathers : Gathers .intersection [.error, .never, .any] .unknown
      (types.flatMap (s.membersOf .intersection)) made)
    (hany : .any ∉ types) (ha : a ∈ types) :
    made.2.accepts mode a made.1 ↔ a = made.1 ∨ ∀ m ∈ made.2.intersectionMembers a,
      made.2.kind m = .union → ∃ u ∈ made.2.unionMembers m, made.2.accepts mode u made.1 := by
  have hs := hmade.sound
  have hka := hmade.grows.known (hknown a ha)
  by_cases hne : a = made.1
  · rw [hne]
    exact iff_of_true (accepts_refl ..) (.inl rfl)
  rw [intersectionMembers_eq, or_iff_right hne]
  by_cases htop : a.isTop
  · obtain ⟨hunion, hintersection⟩ := made.2.kind_of_isTop htop
    refine iff_of_true (accepts_top htop) fun m hm hkind => ?_
    rw [membersOf_self hintersection, List.mem_singleton] at hm
    rw [hm] at hkind
    exact absurd hkind hunion
  by_cases hbottom : made.1 = .error ∨ made.1 = .never
  · refine iff_of_true (accepts_bottom hbottom) fun m hm hunion => ?_
    obtain ⟨us, hd⟩ := exists_data_union hunion
    have hkm := hs.known_membersOf hka hm
    obtain ⟨u, hu⟩ := (hs.union_normal hkm hd).exists_mem
    rw [TypeStore.unionMembers, hd]
    exact ⟨u, hu, accepts_bottom hbottom⟩
  rw [Bool.not_eq_true] at htop
  obtain ⟨members, hd⟩ :=
    hmade.exists_intersection h hknown hgathers hany ha hne htop hbottom
  rw [hs.accepts_intersection_source hka hmade.known hd hne htop]
  refine forall₂_congr fun m hm => hs.member_accepts_iff hmade.known hd ?_
  have hmem := hmade.mem_intersection h hknown hgathers hany ha htop hbottom hm
  have hkind : made.2.kind made.1 = .intersection := by rw [kind, hd]; rfl
  rwa [membersOf_of_kind hkind, hd] at hmem

end TypeStore

namespace Session
variable {σ : Session} {t : TypeId}

/-- The limit of the comparison is not reached by types that nest less than 200 deep, nor by what
they are combined to. -/
theorem isAssignable_eq_of_depth {s : TypeStore} {mode : Mode} {a b : TypeId} (h : s.Sound)
    (ha : s.Known a) (hb : s.Known b) (hdeptha : s.depth a ≤ 200) (hdepthb : s.depth b ≤ 200) :
    s.isAssignable mode a b = s.accepts mode a b := by
  refine h.isAssignable_eq ha hb ?_
  rw [depthLimit]
  omega

/-- The union of types accepts each of them, and what accepts all of them accepts their union. -/
theorem union_isLeast (hσ : σ.Reached) (types : List TypeId) (hissued : ∀ u ∈ types, u ∈ σ.issued)
    (ht : t ∈ σ.issued) (hdepth : ∀ u ∈ t :: types, σ.store.depth u < 200) (mode : Mode) :
    (∀ u ∈ types, (union types σ.store).2.isAssignable mode (union types σ.store).1 u) ∧
      ((∀ u ∈ types, σ.store.isAssignable mode t u) →
        (union types σ.store).2.isAssignable mode t (union types σ.store).1) := by
  have hvalid := hσ.valid
  have hsound := hvalid.sound
  have hknown : ∀ u ∈ types, σ.store.Known u := fun u hu => hvalid.known u (hissued u hu)
  have hkt := hvalid.known t ht
  rw [List.forall_mem_cons] at hdepth
  obtain ⟨hdepth, hdepths⟩ := hdepth
  have hmade := hsound.union hknown
  have hgathers := hsound.union_gathers hknown
  have hmadedepth := hmade.depth_le hsound (d := .intrinsic .never) rfl hknown hdepths
    (by decide) hgathers
  have hlater {u} (hu : σ.store.Known u) := hmade.grows.depth_eq hsound hmade.sound hu
  constructor
  · intro u hu
    have hdu := Nat.le_of_lt (hdepths u hu)
    rw [← hlater (hknown u hu)] at hdu
    rw [isAssignable_eq_of_depth hmade.sound hmade.known (hmade.grows.known (hknown u hu))
      hmadedepth hdu]
    exact hmade.union_accepts hknown hgathers hu
  · intro haccepts
    have hdt := Nat.le_of_lt hdepth
    have hall : ∀ u ∈ types, σ.store.accepts mode t u := by
      intro u hu
      rw [← isAssignable_eq_of_depth hsound hkt (hknown u hu) hdt (Nat.le_of_lt (hdepths u hu))]
      exact haccepts u hu
    rw [← hlater hkt] at hdt
    rw [isAssignable_eq_of_depth hmade.sound (hmade.grows.known hkt) hmade.known hdt hmadedepth]
    exact hmade.accepts_union hknown hgathers hsound hkt hall

def unionSession : Session := (single.call (.union [.int, .null])).call (.union [.int, .string])

theorem reached_unionSession : unionSession.Reached :=
  (reached_single.call_fixed (.union _) trivial (by decide)).call_fixed (.union _) trivial
    (by decide)

theorem union_isLeast_sample :
    (∀ u ∈ [TypeId.null, .never, .int], unionSession.store.isAssignable .strict ⟨127⟩ u) ∧
      (union [.null, .never, .int] unionSession.store).2.isAssignable .strict ⟨127⟩
        (union [.null, .never, .int] unionSession.store).1 := by
  have haccepts : ∀ u ∈ [TypeId.null, .never, .int],
      unionSession.store.isAssignable .strict ⟨127⟩ u := by decide +kernel
  have hleast := union_isLeast (t := ⟨127⟩) reached_unionSession [.null, .never, .int]
    (by decide +kernel) (by decide +kernel) (by decide +kernel) .strict
  exact ⟨haccepts, hleast.2 haccepts⟩

/-- Each type but `any` that an intersection is made of accepts it, unless a union in that type is
taken apart and no member of it accepts the intersection. -/
theorem isAssignable_intersection_iff (hσ : σ.Reached) (types : List TypeId)
    (hissued : ∀ u ∈ types, u ∈ σ.issued) (hany : .any ∉ types)
    (hdepth : ∀ u ∈ types, σ.store.depth u < 200) (mode : Mode) :
    ∀ u ∈ types, (intersection types σ.store).2.isAssignable mode u (intersection types σ.store).1 ↔
      u = (intersection types σ.store).1 ∨
        ∀ m ∈ (intersection types σ.store).2.intersectionMembers u,
          (intersection types σ.store).2.kind m = .union →
            ∃ v ∈ (intersection types σ.store).2.unionMembers m,
              (intersection types σ.store).2.isAssignable mode v
                (intersection types σ.store).1 := by
  have hvalid := hσ.valid
  have hsound := hvalid.sound
  have hknown : ∀ u ∈ types, σ.store.Known u := fun u hu => hvalid.known u (hissued u hu)
  have hmade := hsound.intersection hknown
  have hgathers := hsound.intersection_gathers hknown
  have hmadedepth := hmade.depth_le hsound (d := .intrinsic .unknown) rfl hknown hdepth
    (by decide) hgathers
  intro u hu
  have hku := hmade.grows.known (hknown u hu)
  have hdu := Nat.le_of_lt (hdepth u hu)
  rw [← hmade.grows.depth_eq hsound hmade.sound (hknown u hu)] at hdu
  rw [isAssignable_eq_of_depth hmade.sound hku hmade.known hdu hmadedepth,
    hmade.accepts_intersection_iff hsound hknown hgathers hany hu]
  refine or_congr_right (forall₂_congr fun m hm => forall_congr' fun _ => ?_)
  rw [intersectionMembers_eq] at hm
  have hkm := hmade.sound.known_membersOf hku hm
  have hdm := (hmade.sound.membersOf_depth_le hku hm).trans hdu
  refine exists_congr fun v => and_congr_right fun hv => ?_
  rw [unionMembers_eq] at hv
  rw [isAssignable_eq_of_depth hmade.sound (hmade.sound.known_membersOf hkm hv) hmade.known
    ((hmade.sound.membersOf_depth_le hkm hv).trans hdm) hmadedepth]

theorem isAssignable_intersection_iff_sample :
    (intersection [⟨127⟩, .int] unionSession.store).2.isAssignable .strict ⟨127⟩
      (intersection [⟨127⟩, .int] unionSession.store).1 := by
  have hiff := isAssignable_intersection_iff reached_unionSession [⟨127⟩, .int]
    (by decide +kernel) (by decide) (by decide +kernel) .strict ⟨127⟩ (by decide)
  have hmember : ∀ m ∈ (intersection [⟨127⟩, .int] unionSession.store).2.intersectionMembers ⟨127⟩,
      (intersection [⟨127⟩, .int] unionSession.store).2.kind m = .union →
        ∃ v ∈ (intersection [⟨127⟩, .int] unionSession.store).2.unionMembers m,
          (intersection [⟨127⟩, .int] unionSession.store).2.isAssignable .strict v
            (intersection [⟨127⟩, .int] unionSession.store).1 := by
    decide +kernel
  exact hiff.2 (.inr hmember)

theorem union_rejects_intersection :
    ¬ ∀ σ : Session, σ.Reached → ∀ types : List TypeId, (∀ u ∈ types, u ∈ σ.issued) →
      .any ∉ types → (∀ u ∈ types, σ.store.depth u < 200) → ∀ mode, ∀ u ∈ types,
        (intersection types σ.store).2.isAssignable mode u (intersection types σ.store).1 := by
  intro h
  have haccepts := h unionSession reached_unionSession [⟨127⟩, ⟨191⟩] (by decide +kernel)
    (by decide) (by decide +kernel) .loose ⟨127⟩ (by decide)
  exact absurd haccepts (by decide +kernel)

end Session
end TemplateCheck

import TemplateCheck.Proofs.Types.Fitting
import TemplateCheck.Proofs.Types.Session
import TemplateCheck.Types.Value

/-! What a type accepts has its values. The one exception is element content, which every element
type has and which is missing from `html`. -/

namespace TemplateCheck
open Assignable TypeStore

namespace TypeStore
variable {s : TypeStore} {t : TypeId} {v : Value} {members : List TypeId}

section Values

theorem hasValueWithin_eq {rank : TypeId → Nat}
    (hrank : ∀ t d, s.lookup t = some d → ∀ p ∈ d.parts, rank p < rank t) (h : s.Sound)
    (ht : s.Known t) {m n : Nat} (hm : rank t < m) (hn : rank t < n) :
    s.hasValueWithin v m t = s.hasValueWithin v n t := by
  induction m generalizing n t with
  | zero => cases hm
  | succ m ih =>
    obtain ⟨n, rfl⟩ := Nat.exists_eq_add_of_le' (Nat.succ_le_of_lt (Nat.zero_lt_of_lt hn))
    have hpart {p} (hp : p ∈ (s.data t).parts) :
        s.hasValueWithin v m p = s.hasValueWithin v n p := by
      have hlt := hrank t _ ht.lookup_data p hp
      exact ih (h.known_part ht hp) (by omega) (by omega)
    rw [hasValueWithin, hasValueWithin]
    split
    next members hd => exact any_congr_mem fun p hp => hpart (by rwa [hd])
    next members hd => exact all_congr_mem fun p hp => hpart (by rwa [hd])
    next => rfl

theorem Sound.hasValue_eq (h : s.Sound) (ht : s.Known t) (v : Value) :
    s.hasValue t v = match s.data t with
      | .union members => members.any (s.hasValue · v)
      | .intersection members => members.all (s.hasValue · v)
      | d => v.fits d := by
  obtain ⟨rank, hbound, hrank⟩ := h.ranked
  have hpart {p} (hp : p ∈ (s.data t).parts) :
      s.hasValueWithin v s.types.size p = s.hasValue p v := by
    have hlt := hrank t _ ht.lookup_data p hp
    have hle := hbound t ht
    exact hasValueWithin_eq hrank h (h.known_part ht hp) (by omega) (by rw [nesting]; omega)
  rw [hasValue, nesting, hasValueWithin]
  cases hd : s.data t with
  | union members => exact any_congr_mem fun p hp => hpart (by rwa [hd])
  | intersection members => exact all_congr_mem fun p hp => hpart (by rwa [hd])
  | _ => rfl

theorem Sound.hasValue_union (h : s.Sound) (ht : s.Known t) (hd : s.data t = .union members) :
    s.hasValue t v ↔ ∃ m ∈ members, s.hasValue m v := by
  rw [h.hasValue_eq ht, hd]
  exact List.any_eq_true

theorem Sound.hasValue_intersection (h : s.Sound) (ht : s.Known t)
    (hd : s.data t = .intersection members) :
    s.hasValue t v ↔ ∀ m ∈ members, s.hasValue m v := by
  rw [h.hasValue_eq ht, hd]
  exact List.all_eq_true

theorem Sound.hasValue_form (h : s.Sound) (ht : s.Known t) (hu : s.kind t ≠ .union)
    (hi : s.kind t ≠ .intersection) : s.hasValue t v = v.fits (s.data t) := by
  rw [h.hasValue_eq ht]
  rw [TypeStore.kind] at hu hi
  cases hd : s.data t <;> simp [hd, TypeForm.kind] at hu hi ⊢

theorem Sound.hasValue_fixed (h : s.Sound) {d : TypeData} (hd : d.fixedId? = some t) :
    s.hasValue t v = v.fits d := by
  have hdata := s.data_fixed hd
  rw [h.hasValue_eq (s.known_fixed hd), hdata]
  cases d with
  | union | intersection => cases hd
  | _ => rfl

end Values

theorem fits_of_fits {R : TypeId → TypeId → Prop} {d e : TypeData} (h : Fits R d e)
    (hv : v.isContentOf .htmlElement = false) (hfits : v.fits e) : v.fits d := by
  cases h with
  | error | any | unknown => rfl
  | html =>
    -- `html` asks for one kind of content where an element type allows for two.
    rw [Value.fits, hv, Bool.or_false] at hfits
    exact hfits
  | uri => exact Bool.or_eq_true_iff.2 (.inr hfits)
  | string | anyMessage | iterableList | iterableSet =>
    cases v <;> first | rfl | cases hfits
  | _ => exact hfits

theorem Sound.hasValue_top (h : s.Sound) (ht : t.isTop) : s.hasValue t v := by
  simp only [TypeId.isTop, Bool.or_eq_true, beq_iff_eq] at ht
  rcases ht with (rfl | rfl) | rfl
  · exact h.hasValue_fixed (d := .intrinsic .any) rfl
  · exact h.hasValue_fixed (d := .intrinsic .unknown) rfl
  · exact h.hasValue_fixed (d := .error) rfl

theorem Normal.ne_error {k : Kind} (h : s.Normal k members) (ht : t ∈ members) : t ≠ .error := by
  rintro rfl
  exact h.plain _ ht (by decide)

section Step
variable {accepts : TypeId → TypeId → Bool} {a b : TypeId} (h : s.Sound) (ha : s.Known a)
  (hb : s.Known b) (hv : v.isContentOf .htmlElement = false)
  (ih : ∀ {x y}, s.Known x → s.Known y → y ≠ .error → accepts x y → s.hasValue y v →
    s.hasValue x v)
include h ha hb hv ih

/-- Taking two types apart keeps a value of the source. -/
theorem Sound.hasValue_distribute (hne : b ≠ .error) (hab : distribute accepts s a b)
    (hvalue : s.hasValue b v) : s.hasValue a v := by
  have hpart {t p} (ht : s.Known t) (hp : p ∈ (s.data t).parts) := h.known_part ht hp
  rcases kind_cases s b with ⟨members, hdb⟩ | ⟨hub, hib⟩
  · rw [distribute_union_source hdb, List.all_eq_true] at hab
    obtain ⟨m, hm, hvalue⟩ := (h.hasValue_union hb hdb).1 hvalue
    exact ih ha (hpart hb (by rwa [hdb])) ((h.union_normal hb hdb).ne_error hm) (hab m hm) hvalue
  rcases kind_cases s a with ⟨members, hda⟩ | ⟨hua, ⟨members, hda⟩ | hia⟩
  · rw [distribute_union_target hub hda, List.any_eq_true] at hab
    obtain ⟨m, hm, hab⟩ := hab
    exact (h.hasValue_union ha hda).2 ⟨m, hm, ih (hpart ha (by rwa [hda])) hb hne hab hvalue⟩
  · rw [distribute_intersection_target hub hda, List.all_eq_true] at hab
    exact (h.hasValue_intersection ha hda).2 fun m hm =>
      ih (hpart ha (by rwa [hda])) hb hne (hab m hm) hvalue
  rcases hib with ⟨members, hdb⟩ | hib
  · rw [distribute_intersection_source hua hia hdb, List.any_eq_true] at hab
    obtain ⟨m, hm, hab⟩ := hab
    exact ih ha (hpart hb (by rwa [hdb])) ((h.intersection_normal hb hdb).ne_error hm) hab
      ((h.hasValue_intersection hb hdb).1 hvalue m hm)
  · rw [distribute_forms hua hia hub hib, formAccepts_iff] at hab
    rw [h.hasValue_form hb hub hib] at hvalue
    rw [h.hasValue_form ha hua hia]
    exact fits_of_fits hab hv hvalue

end Step

theorem Sound.hasValue_within (h : s.Sound) {n : Nat} {a b : TypeId} (ha : s.Known a)
    (hb : s.Known b) (hv : v.isContentOf .htmlElement = false) (hne : b ≠ .error)
    (hab : within s .strict n a b) (hvalue : s.hasValue b v) : s.hasValue a v := by
  induction n generalizing a b with
  | zero =>
    obtain rfl := of_decide_eq_true hab
    exact hvalue
  | succ n ih =>
    rw [within, Bool.or_eq_true] at hab
    rcases hab with hab | hab
    · obtain rfl := of_decide_eq_true hab
      exact hvalue
    · rw [step] at hab
      split at hab
      next htop => exact h.hasValue_top htop
      next =>
        split at hab
        next hbottom =>
          obtain rfl := hbottom.resolve_left hne
          have hnever : s.hasValue .never v = v.fits (.intrinsic .never) := h.hasValue_fixed rfl
          rw [hnever] at hvalue
          cases hvalue
        next =>
          split at hab
          · cases hab
          · exact h.hasValue_distribute ha hb hv (fun hx hy hy' => ih hx hy hy') hne hab hvalue

theorem html_accepts_element (s : TypeStore) : s.isAssignable .strict .html .element := by
  have hhtml : s.data .html = .intrinsic .html := s.data_fixed rfl
  have helement : s.data .element = .element .wildcard := s.data_fixed rfl
  rw [isAssignable, depthLimit, within, step, distribute, hhtml, helement]
  rfl

end TypeStore

namespace Session
variable {σ τ : Session}

/-- Strict assignability keeps the values of all types of a store exactly if they are not element
content. -/
theorem hasValue_of_isAssignable_iff (hσ : σ.Reached) (v : Value) :
    (∀ target ∈ σ.issued, ∀ source ∈ σ.issued, source ≠ .error →
      σ.store.isAssignable .strict target source → σ.store.hasValue source v →
        σ.store.hasValue target v) ↔ v.isContentOf .htmlElement = false := by
  have hvalid := hσ.valid
  have hsound := hvalid.sound
  refine ⟨fun h => ?_, fun hv target htarget source hsource hne hab hvalue =>
    hsound.hasValue_within (hvalid.known target htarget) (hvalid.known source hsource) hv hne hab
      hvalue⟩
  by_contra hv
  rw [Bool.not_eq_false] at hv
  have helement : σ.store.hasValue .element v := by
    rw [hsound.hasValue_fixed (d := .element .wildcard) rfl, Value.fits, hv, Bool.or_true]
  have hhtml := h .html (hσ.fixed_issued (by decide)) .element (hσ.fixed_issued (by decide))
    (by decide) (html_accepts_element _) helement
  have heq : σ.store.hasValue .html v = v.fits (.intrinsic .html) := hsound.hasValue_fixed rfl
  rw [heq] at hhtml
  cases v <;> simp_all [Value.isContentOf, Value.fits, Value.isIn]

theorem hasValue_of_isAssignable_iff_single :
    single.Reached ∧
      ((∀ target ∈ TypeId.allFixed, ∀ source ∈ TypeId.allFixed, source ≠ .error →
        single.store.isAssignable .strict target source →
          single.store.hasValue source (.sanitized .uri "x") →
            single.store.hasValue target (.sanitized .uri "x")) ↔
        (Value.sanitized .uri "x").isContentOf .htmlElement = false) :=
  ⟨⟨_, .refl⟩, hasValue_of_isAssignable_iff ⟨_, .refl⟩ _⟩

theorem html_loses_element_content :
    ¬ ∀ σ : Session, σ.Reached → ∀ target ∈ σ.issued, ∀ source ∈ σ.issued, source ≠ .error →
      ∀ v, σ.store.isAssignable .strict target source → σ.store.hasValue source v →
        σ.store.hasValue target v := by
  intro h
  have hhtml := h single ⟨_, .refl⟩ .html (by decide) .element (by decide) (by decide)
    (.sanitized .htmlElement "x") (by decide) (by decide)
  exact absurd hhtml (by decide)

end Session
end TemplateCheck

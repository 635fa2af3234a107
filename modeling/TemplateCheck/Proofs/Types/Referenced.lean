import Mathlib.Logic.Relation
import TemplateCheck.Proofs.Types.Structure
import TemplateCheck.Types.Reach

/-! The types that a type refers to are those that lead from parts to parts of it. -/

namespace TemplateCheck.TypeStore
open Relation (ReflTransGen)

variable {s : TypeStore} {t u : TypeId} {P : TypeData → Prop}

def Part (s : TypeStore) (t u : TypeId) : Prop := u ∈ s.children t

theorem Sound.known_reach (h : s.Sound) (ht : s.Known t) (hu : ReflTransGen s.Part t u) :
    s.Known u := by
  induction hu with
  | refl => exact ht
  | tail _ hpart ih => exact h.known_part ih hpart

theorem throughout_iff (h : s.Sound) (ht : s.Known t) :
    s.Throughout P t ↔ ∀ u, ReflTransGen s.Part t u → P (s.data u) := by
  refine ⟨fun hthroughout u htu => ?_, fun hreach => ?_⟩
  · induction htu using ReflTransGen.head_induction_on with
    | refl =>
      cases hthroughout with
      | intro h => exact h
    | head hpart _ ih =>
      cases hthroughout with
      | intro _ hparts => exact ih (h.known_part ht hpart) (hparts _ hpart)
  · refine h.induct (motive := fun t => (∀ u, ReflTransGen s.Part t u → P (s.data u)) →
      s.Throughout P t) (fun t d hd ih hreach => ?_) t ht hreach
    obtain rfl := data_of_lookup hd
    exact .intro (hreach t .refl) fun p hp => ih p hp fun u hpu => hreach u (.head hp hpu)

theorem mem_found {seen newest : List TypeId} :
    (u ∈ (newest.flatMap s.children).eraseDups.filter fun t => !seen.contains t) ↔
      (∃ t ∈ newest, s.Part t u) ∧ u ∉ seen := by
  rw [List.mem_filter, List.mem_eraseDups, List.mem_flatMap]
  simp only [Part, Bool.not_eq_true', List.contains_iff_mem, Bool.eq_false_iff, ne_eq]

theorem reach_of_mem_reachFrom (rounds : Nat) {seen newest : List TypeId}
    (hseen : ∀ u ∈ seen, ReflTransGen s.Part t u) (hnewest : newest ⊆ seen) :
    ∀ u ∈ s.reachFrom rounds seen newest, ReflTransGen s.Part t u := by
  induction rounds generalizing seen newest with
  | zero => exact hseen
  | succ rounds ih =>
    rw [reachFrom]
    split
    · exact hseen
    · refine ih (List.forall_mem_append.2 ⟨hseen, fun u hu => ?_⟩) (List.subset_append_right ..)
      obtain ⟨⟨v, hv, hvu⟩, -⟩ := mem_found.1 hu
      exact (hseen v (hnewest hv)).tail hvu

theorem subset_reachFrom (rounds : Nat) (seen newest : List TypeId) :
    seen ⊆ s.reachFrom rounds seen newest := by
  induction rounds generalizing seen newest with
  | zero => exact List.Subset.refl seen
  | succ rounds ih =>
    rw [reachFrom]
    split
    · exact List.Subset.refl seen
    · exact fun u hu => ih _ _ (List.mem_append_left _ hu)

/-- Only the parts of the newest types can be missing, and these rank too low for more rounds than
there are. -/
theorem closed_reachFrom {rank : TypeId → Nat}
    (hrank : ∀ t d, s.lookup t = some d → ∀ p ∈ d.parts, rank p < rank t) (h : s.Sound)
    (rounds : Nat) {seen newest : List TypeId} (hknown : ∀ u ∈ newest, s.Known u)
    (hlow : ∀ u ∈ newest, rank u < rounds)
    (hclosed : ∀ t ∈ seen, t ∉ newest → ∀ u, s.Part t u → u ∈ seen) :
    ∀ t ∈ s.reachFrom rounds seen newest, ∀ u, s.Part t u →
      u ∈ s.reachFrom rounds seen newest := by
  induction rounds generalizing seen newest with
  | zero => exact fun t ht => hclosed t ht fun hnew => absurd (hlow t hnew) (Nat.not_lt_zero _)
  | succ rounds ih =>
    rw [reachFrom]
    split
    next hempty =>
      intro t ht u htu
      by_cases hnew : t ∈ newest
      · by_contra hu
        have hfound := mem_found.2 ⟨⟨t, hnew, htu⟩, hu⟩
        rw [List.isEmpty_iff.1 hempty] at hfound
        cases hfound
      · exact hclosed t ht hnew u htu
    next =>
      refine ih (fun u hu => ?_) (fun u hu => ?_) fun t ht htnew u htu => ?_
      · obtain ⟨⟨v, hv, hvu⟩, -⟩ := mem_found.1 hu
        exact h.known_part (hknown v hv) hvu
      · obtain ⟨⟨v, hv, hvu⟩, -⟩ := mem_found.1 hu
        have hlt := hrank v _ (hknown v hv).lookup_data u hvu
        have hle := hlow v hv
        omega
      · have ht := (List.mem_append.1 ht).resolve_right htnew
        rw [List.mem_append]
        by_cases hu : u ∈ seen
        · exact .inl hu
        · by_cases hnew : t ∈ newest
          · exact .inr (mem_found.2 ⟨⟨t, hnew, htu⟩, hu⟩)
          · exact absurd (hclosed t ht hnew u htu) hu

theorem Sound.mem_referenced (h : s.Sound) (ht : s.Known t) :
    u ∈ s.referenced t ↔ ReflTransGen s.Part t u := by
  refine ⟨reach_of_mem_reachFrom _ (List.forall_mem_singleton.2 .refl)
    (List.Subset.refl _) u, fun htu => ?_⟩
  obtain ⟨rank, hbound, hrank⟩ := h.ranked
  induction htu with
  | refl => exact subset_reachFrom _ _ _ (List.mem_singleton_self t)
  | tail _ hpart ih =>
    refine closed_reachFrom hrank h _ (List.forall_mem_singleton.2 ht)
      (List.forall_mem_singleton.2 (Nat.lt_succ_of_le (hbound t ht))) ?_ _ ih _ hpart
    exact fun v hv hnew => absurd hv hnew

theorem Sound.throughout_iff_containsForm (h : s.Sound) (ht : s.Known t)
    (test : TypeData → Bool) :
    s.Throughout (fun d => test d = false) t ↔ s.containsForm test t = false := by
  rw [throughout_iff h ht, containsForm, List.any_eq_false]
  refine forall_congr' fun u => ?_
  rw [h.mem_referenced ht]
  refine forall_congr' fun htu => ?_
  rw [(h.known_reach ht htu).lookup_data, Option.any_some, Bool.not_eq_true]

end TemplateCheck.TypeStore

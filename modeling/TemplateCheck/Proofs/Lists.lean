import Mathlib.Data.List.Basic

/-! Functions on lists that are told by their equations, greatest values, and lists without
repetitions. -/

namespace TemplateCheck

theorem eq_map_of_cons {α β : Type} {f : α → β} {g : List α → List β} (hnil : g [] = [])
    (hg : ∀ a as, g (a :: as) = f a :: g as) (as : List α) : g as = as.map f := by
  induction as with
  | nil => exact hnil
  | cons a as ih => rw [hg, ih, List.map_cons]

def greatest (ks : List Nat) : Nat := ks.foldr max 0

theorem greatest_le_iff {ks : List Nat} {n : Nat} : greatest ks ≤ n ↔ ∀ k ∈ ks, k ≤ n := by
  induction ks with
  | nil => simp [greatest]
  | cons k ks ih => rw [greatest, List.foldr_cons, Nat.max_le, List.forall_mem_cons, ← ih, greatest]

theorem le_iff_of_mem {α : Type} {f : α → Nat} {g : List α → Nat} (hnil : g [] = 0)
    (hg : ∀ a as, g (a :: as) = max (f a) (g as)) {as : List α} {n : Nat} :
    g as ≤ n ↔ ∀ a ∈ as, f a ≤ n := by
  induction as with
  | nil => simp [hnil]
  | cons a as ih => rw [hg, Nat.max_le, ih, List.forall_mem_cons]

section Appearance
variable {α : Type} [BEq α] [LawfulBEq α] {as : List α} {a b : α} {p : α → Bool}

theorem idxOf_lt_of_filter (ha : p a) (hb : p b)
    (h : (as.filter p).idxOf a < (as.filter p).idxOf b) : as.idxOf a < as.idxOf b := by
  induction as with
  | nil => exact h
  | cons c as ih =>
    by_cases hca : c = a
    · subst hca
      rw [List.filter_cons_of_pos ha] at h
      have hne : c ≠ b := by
        rintro rfl
        exact Nat.lt_irrefl _ h
      simp [List.idxOf_cons_ne _ hne]
    by_cases hcb : c = b
    · subst hcb
      rw [List.filter_cons_of_pos hb, List.idxOf_cons_self] at h
      exact absurd h (Nat.not_lt_zero _)
    · rw [List.idxOf_cons_ne _ hca, List.idxOf_cons_ne _ hcb]
      refine Nat.succ_lt_succ (ih ?_)
      cases hc : p c with
      | false => rwa [List.filter_cons_of_neg (by simp [hc])] at h
      | true =>
        rw [List.filter_cons_of_pos hc, List.idxOf_cons_ne _ hca, List.idxOf_cons_ne _ hcb] at h
        exact Nat.lt_of_succ_lt_succ h

theorem pairwise_eraseDups (as : List α) :
    as.eraseDups.Pairwise fun a b => as.idxOf a < as.idxOf b := by
  induction hn : as.length using Nat.strongRecOn generalizing as with
  | _ n ih =>
    cases as with
    | nil => exact .nil
    | cons c as =>
      have hother {a : α} (ha : a ∈ (as.filter fun b => !b == c).eraseDups) : !a == c :=
        (List.mem_filter.1 (List.mem_eraseDups.1 ha)).2
      have hindex {a : α} (ha : a ∈ (as.filter fun b => !b == c).eraseDups) :
          (c :: as).idxOf a = as.idxOf a + 1 :=
        List.idxOf_cons_ne _ fun heq => by simpa [heq] using hother ha
      rw [List.eraseDups_cons, List.pairwise_cons]
      refine ⟨fun a ha => ?_, ?_⟩
      · rw [List.idxOf_cons_self, hindex ha]
        exact Nat.succ_pos _
      · have hlt : (as.filter fun b => !b == c).length < n :=
          hn ▸ Nat.lt_succ_of_le (List.length_filter_le _ as)
        refine (ih _ hlt _ rfl).imp_of_mem fun {a b} ha hb hab => ?_
        rw [hindex ha, hindex hb]
        exact Nat.succ_lt_succ (idxOf_lt_of_filter (hother ha) (hother hb) hab)

theorem nodup_eraseDups (as : List α) : as.eraseDups.Nodup :=
  (pairwise_eraseDups as).imp fun hlt heq => Nat.ne_of_lt hlt (congrArg as.idxOf heq)

end Appearance

end TemplateCheck

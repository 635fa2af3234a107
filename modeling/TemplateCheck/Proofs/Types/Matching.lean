import TemplateCheck.Proofs.Types.Comparing

/-! Lists that have the same items, in the same or another order, and what that says about forms. -/

namespace TemplateCheck
variable {α β : Type} {R : α → β → Prop} {P : α → α → Prop} {Q : β → β → Prop} {as : List α}
  {bs : List β}

theorem forall₂_eq_map {γ : Type} {f : α → γ} {g : β → γ}
    (h : List.Forall₂ (fun a b => f a = g b) as bs) : as.map f = bs.map g := by
  rwa [← List.forall₂_eq_eq_eq, List.forall₂_map_left_iff, List.forall₂_map_right_iff]

theorem find?_congr_mem {p q : α → Bool} (h : ∀ a ∈ as, p a = q a) : as.find? p = as.find? q := by
  induction as with
  | nil => rfl
  | cons a as ih =>
    obtain ⟨ha, has⟩ := List.forall_mem_cons.1 h
    rw [List.find?_cons, List.find?_cons, ha, ih has]

def RespectsOrder (R : α → β → Prop) (P : α → α → Prop) (Q : β → β → Prop) (as : List α)
    (bs : List β) : Prop :=
  ∀ a ∈ as, ∀ a' ∈ as, ∀ b ∈ bs, ∀ b' ∈ bs, R a b → R a' b' → (P a a' ↔ Q b b')

theorem RespectsOrder.tail {a : α} {b : β} (h : RespectsOrder R P Q (a :: as) (b :: bs)) :
    RespectsOrder R P Q as bs :=
  fun c hc c' hc' d hd d' hd' => h c (.tail _ hc) c' (.tail _ hc') d (.tail _ hd) d' (.tail _ hd')

/-- Sorted lists with the same items have them in the same order if `R` keeps the order. -/
theorem forall₂_of_matches (hP : ∀ a a', P a a' → ¬ P a' a) (hQ : ∀ b b', Q b b' → ¬ Q b' b)
    (has : as.Pairwise P) (hbs : bs.Pairwise Q) (h : Matches R as bs)
    (horder : RespectsOrder R P Q as bs) : List.Forall₂ R as bs := by
  induction as generalizing bs with
  | nil =>
    cases bs with
    | nil => exact .nil
    | cons b bs =>
      obtain ⟨a, ha, -⟩ := h.2 b (.head _)
      cases ha
  | cons a as ih =>
    obtain ⟨ha, has⟩ := List.pairwise_cons.1 has
    cases bs with
    | nil =>
      obtain ⟨b, hb, -⟩ := h.1 a (.head _)
      cases hb
    | cons b bs =>
      obtain ⟨hb, hbs⟩ := List.pairwise_cons.1 hbs
      have hirrefl (a : α) : ¬ P a a := fun haa => hP a a haa haa
      have hirrefl' (b : β) : ¬ Q b b := fun hbb => hQ b b hbb hbb
      have hab : R a b := by
        obtain ⟨c, hc, hac⟩ := h.1 a (.head _)
        obtain ⟨d, hd, hdb⟩ := h.2 b (.head _)
        rcases List.mem_cons.1 hc with rfl | hc'
        · exact hac
        rcases List.mem_cons.1 hd with rfl | hd'
        · exact hdb
        have hcb := (horder a (.head _) d hd c hc b (.head _) hac hdb).1 (ha d hd')
        exact absurd hcb (hQ b c (hb c hc'))
      refine .cons hab (ih has hbs ⟨fun c hc => ?_, fun d hd => ?_⟩ horder.tail)
      · obtain ⟨d, hd, hcd⟩ := h.1 c (.tail _ hc)
        rcases List.mem_cons.1 hd with rfl | hd
        · have horder := horder a (.head _) c (.tail _ hc) d (.head _) d (.head _) hab hcd
          exact absurd (horder.1 (ha c hc)) (hirrefl' d)
        · exact ⟨d, hd, hcd⟩
      · obtain ⟨c, hc, hcd⟩ := h.2 d (.tail _ hd)
        rcases List.mem_cons.1 hc with rfl | hc
        · have horder := horder c (.head _) c (.head _) b (.head _) d (.tail _ hd) hab hcd
          exact absurd (horder.2 (hb d hd)) (hirrefl c)
        · exact ⟨c, hc, hcd⟩

theorem respectsOrder_of_forall₂ (hP : ∀ a a', P a a' → ¬ P a' a) (hQ : ∀ b b', Q b b' → ¬ Q b' b)
    (has : as.Pairwise P) (hbs : bs.Pairwise Q) (h : List.Forall₂ R as bs)
    (hleft : ∀ a ∈ as, ∀ a' ∈ as, ∀ b ∈ bs, R a b → R a' b → a = a')
    (hright : ∀ a ∈ as, ∀ b ∈ bs, ∀ b' ∈ bs, R a b → R a b' → b = b') :
    RespectsOrder R P Q as bs := by
  induction h with
  | nil =>
    intro a ha
    cases ha
  | @cons a b as bs hab hrest ih =>
    obtain ⟨ha, has⟩ := List.pairwise_cons.1 has
    obtain ⟨hb, hbs⟩ := List.pairwise_cons.1 hbs
    have hfirst {c : α} {d : β} (hc : c ∈ a :: as) (hd : d ∈ b :: bs) (hcd : R c d) :
        c = a ∧ d = b ∨ c ∈ as ∧ d ∈ bs := by
      rcases List.mem_cons.1 hc with rfl | hc'
      · exact .inl ⟨rfl, hright c (.head _) d hd b (.head _) hcd hab⟩
      · rcases List.mem_cons.1 hd with rfl | hd'
        · exact .inl ⟨hleft c hc a (.head _) d (.head _) hcd hab, rfl⟩
        · exact .inr ⟨hc', hd'⟩
    have ih := ih has hbs
      (fun c hc c' hc' d hd => hleft c (.tail _ hc) c' (.tail _ hc') d (.tail _ hd))
      (fun c hc d hd d' hd' => hright c (.tail _ hc) d (.tail _ hd) d' (.tail _ hd'))
    intro c hc c' hc' d hd d' hd' hcd hcd'
    rcases hfirst hc hd hcd with ⟨rfl, rfl⟩ | ⟨hmem, hmem'⟩
    · rcases hfirst hc' hd' hcd' with ⟨rfl, rfl⟩ | ⟨hlater, hlater'⟩
      · exact ⟨fun hcc => absurd hcc (hP _ _ hcc), fun hdd => absurd hdd (hQ _ _ hdd)⟩
      · exact iff_of_true (ha c' hlater) (hb d' hlater')
    · rcases hfirst hc' hd' hcd' with ⟨rfl, rfl⟩ | ⟨hlater, hlater'⟩
      · exact iff_of_false (hP _ _ (ha c hmem)) (hQ _ _ (hb d hmem'))
      · exact ih c hmem c' hlater d hmem' d' hlater' hcd hcd'

theorem exists_perm_of_matches (has : as.Nodup) (hbs : bs.Nodup) (h : Matches R as bs)
    (hleft : ∀ a ∈ as, ∀ a' ∈ as, ∀ b ∈ bs, R a b → R a' b → a = a')
    (hright : ∀ a ∈ as, ∀ b ∈ bs, ∀ b' ∈ bs, R a b → R a b' → b = b') :
    ∃ cs, cs.Perm bs ∧ List.Forall₂ R as cs := by
  induction as generalizing bs with
  | nil =>
    obtain rfl : bs = [] := by
      refine List.eq_nil_iff_forall_not_mem.2 fun b hb => ?_
      obtain ⟨a, ha, -⟩ := h.2 b hb
      cases ha
    exact ⟨[], .refl _, .nil⟩
  | cons a as ih =>
    obtain ⟨ha, has⟩ := List.nodup_cons.1 has
    obtain ⟨b, hb, hab⟩ := h.1 a (.head _)
    obtain ⟨bs₁, bs₂, rfl⟩ := List.append_of_mem hb
    have hmiddle : (bs₁ ++ b :: bs₂).Perm (b :: (bs₁ ++ bs₂)) := List.perm_middle
    obtain ⟨hb', hbs⟩ := List.nodup_cons.1 (hmiddle.nodup_iff.1 hbs)
    have hold {c : β} (hc : c ∈ bs₁ ++ bs₂) : c ∈ bs₁ ++ b :: bs₂ :=
      hmiddle.mem_iff.2 (.tail _ hc)
    have hmatch : Matches R as (bs₁ ++ bs₂) := by
      refine ⟨fun c hc => ?_, fun d hd => ?_⟩
      · obtain ⟨d, hd, hcd⟩ := h.1 c (.tail _ hc)
        rcases List.mem_cons.1 (hmiddle.mem_iff.1 hd) with rfl | hd'
        · obtain rfl := hleft a (.head _) c (.tail _ hc) d hd hab hcd
          exact absurd hc ha
        · exact ⟨d, hd', hcd⟩
      · obtain ⟨c, hc, hcd⟩ := h.2 d (hold hd)
        rcases List.mem_cons.1 hc with rfl | hc'
        · obtain rfl := hright c (.head _) b hb d (hold hd) hab hcd
          exact absurd hd hb'
        · exact ⟨c, hc', hcd⟩
    obtain ⟨cs, hperm, hcs⟩ := ih has hbs hmatch
      (fun c hc c' hc' d hd => hleft c (.tail _ hc) c' (.tail _ hc') d (hold hd))
      (fun c hc d hd d' hd' => hright c (.tail _ hc) d (hold hd) d' (hold hd'))
    exact ⟨b :: cs, (hperm.cons b).trans hmiddle.symm, .cons hab hcs⟩

theorem Matches.flatMap {f : α → List α} {g : β → List β}
    (hfg : ∀ a b, R a b → Matches R (f a) (g b)) (h : Matches R as bs) :
    Matches R (as.flatMap f) (bs.flatMap g) := by
  refine ⟨fun c hc => ?_, fun d hd => ?_⟩
  · obtain ⟨a, ha, hc⟩ := List.mem_flatMap.1 hc
    obtain ⟨b, hb, hab⟩ := h.1 a ha
    obtain ⟨d, hd, hcd⟩ := (hfg a b hab).1 c hc
    exact ⟨d, List.mem_flatMap.2 ⟨b, hb, hd⟩, hcd⟩
  · obtain ⟨b, hb, hd⟩ := List.mem_flatMap.1 hd
    obtain ⟨a, ha, hab⟩ := h.2 b hb
    obtain ⟨c, hc, hcd⟩ := (hfg a b hab).2 d hd
    exact ⟨c, List.mem_flatMap.2 ⟨a, ha, hc⟩, hcd⟩

namespace TypeForm
variable {τ υ : Type} {S : τ → υ → Prop} {d : TypeForm τ} {e : TypeForm υ}

theorem Alike.exists_part (h : d.Alike S e) {a : τ} (ha : a ∈ d.parts) : ∃ b ∈ e.parts, S a b := by
  cases h with
  | error | intrinsic | element | literal | message | enum => cases ha
  | list h | set h | iterable h =>
    obtain rfl := List.mem_singleton.1 ha
    exact ⟨_, List.mem_singleton_self _, h⟩
  | map hkey hvalue | legacyObjectMap hkey hvalue =>
    rcases List.mem_cons.1 ha with rfl | ha
    · exact ⟨_, .head _, hkey⟩
    · obtain rfl := List.mem_singleton.1 ha
      exact ⟨_, .tail _ (.head _), hvalue⟩
  | record h =>
    obtain ⟨p, hp, rfl⟩ := List.mem_map.1 ha
    obtain ⟨q, hq, hpq⟩ := h.1 p hp
    exact ⟨q.type, List.mem_map_of_mem hq, hpq.2.2⟩
  | template h hresult =>
    rcases List.mem_append.1 ha with ha | ha
    · obtain ⟨p, hp, rfl⟩ := List.mem_map.1 ha
      obtain ⟨q, hq, hpq⟩ := exists_of_mem_left h hp
      exact ⟨q.type, List.mem_append_left _ (List.mem_map_of_mem hq), hpq.2.2.2⟩
    · obtain rfl := List.mem_singleton.1 ha
      exact ⟨_, List.mem_append_right _ (List.mem_singleton_self _), hresult⟩
  | function h hresult =>
    rcases List.mem_append.1 ha with ha | ha
    · obtain ⟨p, hp, rfl⟩ := List.mem_map.1 ha
      obtain ⟨q, hq, hpq⟩ := exists_of_mem_left h hp
      exact ⟨q.type, List.mem_append_left _ (List.mem_map_of_mem hq), hpq.2.2⟩
    · obtain rfl := List.mem_singleton.1 ha
      exact ⟨_, List.mem_append_right _ (List.mem_singleton_self _), hresult⟩
  | union h | intersection h => exact h.1 a ha

end TypeForm
end TemplateCheck

import TemplateCheck.Proofs.Types.Matching
import TemplateCheck.Proofs.Types.Referenced
import TemplateCheck.Proofs.Types.Showing

/-! Types of two stores that are the same and list the properties of their records in the same
order, and what of their texts does not depend on the stores. -/

namespace TemplateCheck
variable {α β τ υ : Type}

theorem Order.sortTexts_perm {ts us : List String} (h : ts.Perm us) :
    sortTexts ts = sortTexts us := by
  have hsorted (l : List String) : (sortTexts l).Pairwise fun a b => a ≤ b :=
    @Order.sortBy_name_sorted String id l
  have hperm : (sortTexts ts).Perm (sortTexts us) :=
    ((sortBy_perm _ ts).trans h).trans (sortBy_perm _ us).symm
  exact hperm.eq_of_pairwise (fun a b _ _ => le_antisymm) (hsorted ts) (hsorted us)

namespace TypeForm
variable {R S : τ → υ → Prop} {d : TypeForm τ} {e : TypeForm υ}

def InOrder (R : τ → υ → Prop) : TypeForm τ → TypeForm υ → Prop
  | .record ps, .record qs => List.Forall₂ (RecordProperty.Alike R) ps qs
  | _, _ => True

theorem InOrder.mono (h : d.InOrder R e) (hRS : ∀ a ∈ d.parts, ∀ b ∈ e.parts, R a b → S a b) :
    d.InOrder S e := by
  cases d with
  | record ps =>
    cases e with
    | record qs =>
      refine forall₂_mono h fun p hp q hq hpq => ⟨hpq.1, hpq.2.1, ?_⟩
      exact hRS _ (List.mem_map_of_mem hp) _ (List.mem_map_of_mem hq) hpq.2.2
    | _ => trivial
  | _ => trivial

theorem InOrder.of_mapParts {R : α → β → Prop} {f : τ → α} {g : υ → β}
    (h : (d.mapParts f).InOrder R (e.mapParts g)) : d.InOrder (fun a b => R (f a) (g b)) e := by
  cases d with
  | record ps =>
    cases e with
    | record qs =>
      have h : List.Forall₂ (RecordProperty.Alike R) (ps.map (·.map f)) (qs.map (·.map g)) := h
      rwa [List.forall₂_map_left_iff, List.forall₂_map_right_iff] at h
    | _ => trivial
  | _ => trivial

theorem Alike.mapParts_eq {f : τ → α} {g : υ → α} (h : d.Alike (fun a b => f a = g b) e)
    (horder : d.InOrder (fun a b => f a = g b) e) (hunion : d.kind ≠ .union)
    (hintersection : d.kind ≠ .intersection) : d.mapParts f = e.mapParts g := by
  cases h with
  | error | intrinsic | element | literal | message | enum => rfl
  | list h | set h | iterable h => simp only [TypeForm.mapParts, h]
  | map hkey hvalue | legacyObjectMap hkey hvalue => simp only [TypeForm.mapParts, hkey, hvalue]
  | record =>
    refine congrArg TypeForm.record (forall₂_eq_map (horder.imp fun p q hpq => ?_))
    rw [RecordProperty.map, RecordProperty.map, hpq.1, hpq.2.1, hpq.2.2]
  | @template ps qs a b h hresult =>
    have hparams : ps.map (·.map f) = qs.map (·.map g) := forall₂_eq_map (h.imp fun p q hpq => by
      rw [TemplateParameter.map, TemplateParameter.map, hpq.1, hpq.2.1, hpq.2.2.1, hpq.2.2.2])
    simp only [TypeForm.mapParts, hparams, hresult]
  | @function ps qs a b h hresult =>
    have hparams : ps.map (·.map f) = qs.map (·.map g) := forall₂_eq_map (h.imp fun p q hpq => by
      rw [FunctionParameter.map, FunctionParameter.map, hpq.1, hpq.2.1, hpq.2.2])
    simp only [TypeForm.mapParts, hparams, hresult]
  | union => exact absurd rfl hunion
  | intersection => exact absurd rfl hintersection

end TypeForm

/-- The trees are the same type, and their records list their properties in the same order. -/
inductive TypeTree.Uniform : TypeTree → TypeTree → Prop where
  | node {f g : TypeForm TypeTree} (R : TypeTree → TypeTree → Prop)
      (hR : ∀ a b, R a b → Uniform a b) (h : f.Alike R g) (horder : f.InOrder R g) :
      Uniform (.node f) (.node g)

theorem TypeTree.Uniform.alike {x y : TypeTree} (h : x.Uniform y) : x.Alike y := by
  induction h with
  | node R _ h _ ih => exact .node R ih h

namespace TypeStore
variable {s s' : TypeStore} {t u p q : TypeId} {d e : TypeData}

/-- A type of one store is uniform with one of another. -/
def Uniform (s s' : TypeStore) (t u : TypeId) : Prop := (s.denote t).Uniform (s'.denote u)

theorem Sound.uniform_data (h : s.Sound) (h' : s'.Sound) (ht : s.lookup t = some d)
    (hu : s'.lookup u = some e) (huniform : s.Uniform s' t u) :
    d.Alike (s.Uniform s') e ∧ d.InOrder (s.Uniform s') e := by
  rw [Uniform, h.denote ht, h'.denote hu] at huniform
  cases huniform with
  | node R hR hforms horder =>
    exact ⟨hforms.of_mapParts.mono fun p _ q _ hpq => hR _ _ hpq,
      horder.of_mapParts.mono fun p _ q _ hpq => hR _ _ hpq⟩

theorem Sound.uniform_part (h : s.Sound) (h' : s'.Sound) (huniform : s.Uniform s' t u)
    (ht : s.Known t) (hu : s'.Known u) (hp : s.Part t p) :
    ∃ q, s'.Part u q ∧ s.Uniform s' p q := by
  obtain ⟨hforms, -⟩ := h.uniform_data h' ht.lookup_data hu.lookup_data huniform
  exact hforms.exists_part hp

theorem Sound.uniform_of_data (h : s.Sound) (h' : s'.Sound) (ht : s.lookup t = some d)
    (hu : s'.lookup u = some e) (hforms : d.Alike (s.Uniform s') e)
    (horder : d.InOrder (s.Uniform s') e) : s.Uniform s' t u := by
  rw [Uniform, h.denote ht, h'.denote hu]
  have hforms : d.Alike (fun a b => (s.denote a).Uniform (s'.denote b)) e := hforms
  refine .node TypeTree.Uniform (fun _ _ => id) hforms.mapParts ?_
  cases d with
  | record ps =>
    cases e with
    | record qs => exact List.forall₂_map_left_iff.2 (List.forall₂_map_right_iff.2 horder)
    | _ => trivial
  | _ => trivial

theorem Sound.uniform_fixed (h : s.Sound) (h' : s'.Sound) (hfixed : d.fixedId? = some t) :
    s.Uniform s' t t := by
  refine h.uniform_of_data h' (s.lookup_fixed hfixed) (s'.lookup_fixed hfixed) ?_ ?_
  · refine (TypeForm.Alike.refl d).mono fun p hp => ?_
    rw [parts_of_fixedId? hfixed] at hp
    cases hp
  · cases d with
    | record => cases hfixed
    | _ => trivial

section Counterparts
variable {ms ns : List TypeId}

theorem Sound.uniform_left (h : s.Sound) (hp : s.Known p) (hq : s.Known q)
    (hpu : s.Uniform s' p u) (hqu : s.Uniform s' q u) : p = q :=
  (h.alike_iff hp hq).1 (hpu.alike.trans hqu.alike.symm)

theorem Sound.uniform_right (h' : s'.Sound) (hp : s'.Known p) (hq : s'.Known q)
    (htp : s.Uniform s' t p) (htq : s.Uniform s' t q) : p = q :=
  h'.eq_of_alike_one hp hq htp.alike htq.alike

theorem number_lt_of_isFixed (hp : p.isFixed) (hq : ¬ q.isFixed) : p.number < q.number := by
  rw [TypeId.isFixed, decide_eq_true_iff] at hp hq
  omega

theorem eq_of_not_historical (h : hasHistoricalOrder (.intersection ms) = false) (hp : p ∈ ms)
    (hq : q ∈ ms) (hpstored : ¬ p.isFixed) (hqstored : ¬ q.isFixed) : p = q := by
  have hshort : (ms.filter (!·.isFixed)).length ≤ 1 := by
    have hlt : ¬ 2 ≤ (ms.filter (!·.isFixed)).length := of_decide_eq_false h
    omega
  have hmem {r : TypeId} (hr : r ∈ ms) (hstored : ¬ r.isFixed) : r ∈ ms.filter (!·.isFixed) :=
    List.mem_filter.2 ⟨hr, by simpa using hstored⟩
  obtain ⟨i, hi, rfl⟩ := List.mem_iff_getElem.1 (hmem hp hpstored)
  obtain ⟨j, hj, rfl⟩ := List.mem_iff_getElem.1 (hmem hq hqstored)
  obtain rfl : i = j := by omega
  rfl

/-- Numbers of their own are the only ones that can be in another order in another store. -/
theorem Sound.respectsOrder (h : s.Sound) (h' : s'.Sound) (hms : ∀ p ∈ ms, s.Known p)
    (hns : ∀ q ∈ ns, s'.Known q) (hstable : hasHistoricalOrder (.intersection ms) = false) :
    RespectsOrder (s.Uniform s') (fun p q => p.number < q.number) (fun p q => p.number < q.number)
      ms ns := by
  intro p hp p' hp' q hq q' hq' hpq hpq'
  have hcounterpart {a b : TypeId} (ha : a ∈ ms) (hb : b ∈ ns) (hab : s.Uniform s' a b) :
      a.isFixed ∧ a = b ∨ ¬ a.isFixed ∧ ¬ b.isFixed := by
    have heq := h.eq_of_alike_isFixed h' (hms a ha) (hns b hb) hab.alike
    by_cases hfixed : a.isFixed
    · exact .inl ⟨hfixed, heq (.inl hfixed)⟩
    · exact .inr ⟨hfixed, fun hb => hfixed (heq (.inr hb) ▸ hb)⟩
  rcases hcounterpart hp hq hpq with ⟨hfixed, rfl⟩ | ⟨hstored, hstored'⟩
  · rcases hcounterpart hp' hq' hpq' with ⟨-, rfl⟩ | ⟨hlater, hlater'⟩
    · exact .rfl
    · exact iff_of_true (number_lt_of_isFixed hfixed hlater) (number_lt_of_isFixed hfixed hlater')
  · rcases hcounterpart hp' hq' hpq' with ⟨hfixed, rfl⟩ | ⟨hlater, -⟩
    · exact iff_of_false (number_lt_of_isFixed hfixed hstored).not_gt
        (number_lt_of_isFixed hfixed hstored').not_gt
    · obtain rfl := eq_of_not_historical hstable hp hp' hstored hlater
      obtain rfl := h'.uniform_right (hns q hq) (hns q' hq') hpq hpq'
      exact iff_of_false (Nat.lt_irrefl _) (Nat.lt_irrefl _)

end Counterparts

section Texts
variable {ms ns : List TypeId}

theorem Sound.unionText_eq (h : s.Sound) (h' : s'.Sound) (hms : s.Normal .union ms)
    (hns : s'.Normal .union ns) (hknown : ∀ p ∈ ms, s.Known p) (hknown' : ∀ q ∈ ns, s'.Known q)
    (hmatch : Matches (s.Uniform s') ms ns)
    (hshown : ∀ p ∈ ms, ∀ q ∈ ns, s.Uniform s' p q → s.shown p = s'.shown q) :
    ShownType.formText (.union (ms.map s.shown)) =
      ShownType.formText (.union (ns.map s'.shown)) := by
  obtain ⟨cs, hperm, hcs⟩ := exists_perm_of_matches hms.ascends.nodup hns.ascends.nodup hmatch
    (fun p hp q hq u _ => h.uniform_left (hknown p hp) (hknown q hq))
    (fun t _ p hp q hq => h'.uniform_right (hknown' p hp) (hknown' q hq))
  have htexts : ms.map s.shown = cs.map s'.shown :=
    forall₂_eq_map (TypeForm.forall₂_mono hcs fun p hp q hq =>
      hshown p hp q (hperm.mem_iff.1 hq))
  rw [htexts, ShownType.formText, ShownType.formText]
  exact congrArg _ (Order.sortTexts_perm ((hperm.map _).map _))

theorem Sound.intersectionText_eq (h : s.Sound) (h' : s'.Sound) (hms : s.Normal .intersection ms)
    (hns : s'.Normal .intersection ns) (hknown : ∀ p ∈ ms, s.Known p)
    (hknown' : ∀ q ∈ ns, s'.Known q) (hstable : hasHistoricalOrder (.intersection ms) = false)
    (hmatch : Matches (s.Uniform s') ms ns)
    (hshown : ∀ p ∈ ms, ∀ q ∈ ns, s.Uniform s' p q → s.shown p = s'.shown q) :
    ShownType.formText (.intersection (ms.map s.shown)) =
      ShownType.formText (.intersection (ns.map s'.shown)) := by
  have hsame : List.Forall₂ (s.Uniform s') ms ns :=
    forall₂_of_matches (fun _ _ => Nat.lt_asymm) (fun _ _ => Nat.lt_asymm) hms.ascends hns.ascends
      hmatch (h.respectsOrder h' hknown hknown' hstable)
  rw [forall₂_eq_map (TypeForm.forall₂_mono hsame hshown)]

theorem Sound.shown_eq (h : s.Sound) (h' : s'.Sound) (ht : s.Known t) (hu : s'.Known u)
    (huniform : s.Uniform s' t u) (hstable : s.isDisplayStable t) : s.shown t = s'.shown u := by
  rw [isDisplayStable, Bool.not_eq_true', ← h.throughout_iff_containsForm ht] at hstable
  refine h.induct (motive := fun t => ∀ u, s'.Known u → s.Uniform s' t u →
    s.Throughout (fun d => hasHistoricalOrder d = false) t → s.shown t = s'.shown u)
    (fun t d hd ih u hu huniform hstable => ?_) t ht u hu huniform hstable
  have ht : s.Known t := ⟨d, hd⟩
  have hdata := data_of_lookup hd
  obtain ⟨e, he⟩ := hu
  have hu : s'.Known u := ⟨e, he⟩
  have hdata' := data_of_lookup he
  obtain ⟨hforms, horder⟩ := h.uniform_data h' hd he huniform
  obtain ⟨hhere, hparts⟩ := hstable
  rw [hdata] at hhere hparts
  have hknown := (h.admits t d hd).parts
  have hknown' := (h'.admits u e he).parts
  have hshown (p) (hp : p ∈ d.parts) (q) (hq : q ∈ e.parts) (hpq : s.Uniform s' p q) :
      s.shown p = s'.shown q :=
    ih p hp q (hknown' q hq) hpq (hparts p hp)
  suffices htext : ShownType.formText (d.mapParts s.shown) =
      ShownType.formText (e.mapParts s'.shown) by
    rw [h.shown hd, h'.shown he, ShownType.ofForm, ShownType.ofForm, htext,
      TypeForm.isFunctionLike_mapParts, TypeForm.isFunctionLike_mapParts,
      TypeForm.isUnion_mapParts, TypeForm.isUnion_mapParts]
    cases hforms <;> rfl
  by_cases hunion : d.kind = .union
  · cases hforms with
    | union hmatch =>
      exact h.unionText_eq h' (h.union_normal ht hdata) (h'.union_normal hu hdata') hknown hknown'
        hmatch hshown
    | _ => cases hunion
  by_cases hintersection : d.kind = .intersection
  · cases hforms with
    | intersection hmatch =>
      exact h.intersectionText_eq h' (h.intersection_normal ht hdata)
        (h'.intersection_normal hu hdata') hknown hknown' hhere hmatch hshown
    | _ => cases hintersection
  · rw [(hforms.mono hshown).mapParts_eq (horder.mono hshown) hunion hintersection]

theorem Sound.display_eq_of_uniform (h : s.Sound) (h' : s'.Sound) (ht : s.Known t)
    (hu : s'.Known u) (huniform : s.Uniform s' t u) (hstable : s.isDisplayStable t) :
    s.display t = s'.display u :=
  congrArg ShownType.text (h.shown_eq h' ht hu huniform hstable)

end Texts

end TypeStore
end TemplateCheck

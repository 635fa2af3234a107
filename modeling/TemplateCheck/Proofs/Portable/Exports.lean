import TemplateCheck.Proofs.Portable.Parts
import TemplateCheck.Proofs.Portable.RoundTrip
import TemplateCheck.Proofs.Resolve.Expressions
import TemplateCheck.Proofs.Types.Uniform

/-! When types of two stores are exported alike: exactly if members of their unions and
intersections are in the same order, which is that of their texts and, where these are equal, that
of their numbers. -/

namespace TemplateCheck
open PortableType TypeStore
open Relation (ReflTransGen)

section Stability
variable {α : Type} {name : α → String} {r : α → α → Prop} {l : List α} {a : α}

theorem insertBy_stable
    (hl : l.Pairwise fun a b => name a < name b ∨ name a = name b ∧ r a b) (ha : ∀ b ∈ l, r a b) :
    (Order.insertBy (fun a b => decide (name a ≤ name b)) a l).Pairwise fun a b =>
      name a < name b ∨ name a = name b ∧ r a b := by
  induction l with
  | nil => exact List.pairwise_singleton ..
  | cons b rest ih =>
    obtain ⟨hb, hrest⟩ := List.pairwise_cons.1 hl
    obtain ⟨hab, harest⟩ := List.forall_mem_cons.1 ha
    rw [Order.insertBy]
    split
    next hle =>
      have hle : name a ≤ name b := of_decide_eq_true hle
      refine List.pairwise_cons.2 ⟨fun c hc => ?_, hl⟩
      have hnames : name a ≤ name c := by
        rcases List.mem_cons.1 hc with rfl | hc
        · exact hle
        · rcases hb c hc with hlt | ⟨heq, -⟩
          · exact hle.trans hlt.le
          · exact heq ▸ hle
      exact hnames.lt_or_eq.imp id fun heq => ⟨heq, ha c hc⟩
    next hle =>
      have hlt : name b < name a := by simpa using hle
      refine List.pairwise_cons.2 ⟨fun c hc => ?_, ih hrest harest⟩
      rcases Order.mem_insertBy.1 hc with rfl | hc
      · exact .inl hlt
      · exact hb c hc

theorem sortBy_stable (hl : l.Pairwise r) :
    (Order.sortBy (fun a b => decide (name a ≤ name b)) l).Pairwise fun a b =>
      name a < name b ∨ name a = name b ∧ r a b := by
  induction l with
  | nil => exact .nil
  | cons a rest ih =>
    obtain ⟨ha, hrest⟩ := List.pairwise_cons.1 hl
    exact insertBy_stable (ih hrest) fun b hb => ha b (Order.mem_sortBy.1 hb)

end Stability

namespace TypeStore
variable {s s' : TypeStore} {t u p q : TypeId} {d e : TypeData} {pool : Proto.Pool}

section Members
variable {members : List TypeId} {k : Kind}

def Precedes (s : TypeStore) (p q : TypeId) : Prop :=
  s.display p < s.display q ∨ s.display p = s.display q ∧ p.number < q.number

theorem Precedes.asymm (h : s.Precedes p q) : ¬ s.Precedes q p := by
  rintro (hlt | ⟨heq, hlt⟩)
  · rcases h with hlt' | ⟨heq', -⟩
    · exact lt_asymm hlt hlt'
    · exact hlt.ne' heq'
  · rcases h with hlt' | ⟨-, hlt'⟩
    · exact hlt'.ne' heq
    · exact Nat.lt_asymm hlt hlt'

def exportOrder (s : TypeStore) (members : List TypeId) : List TypeId :=
  Order.sortBy (fun p q => decide (s.display p ≤ s.display q)) members

theorem exportOrder_perm (s : TypeStore) (members : List TypeId) :
    (s.exportOrder members).Perm members :=
  Order.sortBy_perm _ members

theorem Normal.exportOrder_precedes (h : s.Normal k members) :
    (s.exportOrder members).Pairwise s.Precedes :=
  sortBy_stable h.ascends

theorem mapParts_mapParts {τ υ φ : Type} {f : τ → υ} {g : υ → φ} (d : TypeForm τ) :
    (d.mapParts f).mapParts g = d.mapParts fun a => g (f a) := by
  cases d <;> simp [TypeForm.mapParts, RecordProperty.map, TemplateParameter.map,
    FunctionParameter.map]

theorem fst_shownPortable (s : TypeStore) (t : TypeId) : (s.shownPortable t).1 = s.shown t := by
  rw [shownPortable, shown, fold, fold]
  generalize s.nesting = depth
  induction depth generalizing t with
  | zero => rfl
  | succ depth ih =>
    rw [foldWithin, foldWithin]
    dsimp only
    rw [mapParts_mapParts, TypeForm.mapParts_congr fun p _ => ih p]

theorem sortByText_eq (s : TypeStore) (members : List TypeId) :
    sortByText (members.map s.shownPortable) = (s.exportOrder members).map s.toPortable := by
  have htext (p : TypeId) : (s.shownPortable p).1.text = s.display p :=
    congrArg ShownType.text (s.fst_shownPortable p)
  simp only [sortByText, Order.sortBy_map, List.map_map, htext]
  rfl

end Members

section Parts

theorem ofForm_ordered (hunion : d.kind ≠ .union) (hintersection : d.kind ≠ .intersection) :
    PortableType.ofForm (d.mapParts s.shownPortable) =
      PortableType.ofForm
        ((d.mapParts s.toPortable).mapParts fun p => (⟨"", false, false⟩, p)) := by
  cases d with
  | union => exact absurd rfl hunion
  | intersection => exact absurd rfl hintersection
  | record properties =>
    rw [s.ofForm_record]
    simp [TypeForm.mapParts, PortableType.ofForm, RecordProperty.map]
  | template shape =>
    rw [s.ofForm_template]
    simp [TypeForm.mapParts, PortableType.ofForm, TemplateParameter.map]
  | function shape =>
    rw [s.ofForm_function]
    simp [TypeForm.mapParts, PortableType.ofForm, FunctionParameter.map]
  | enum e => cases e <;> rfl
  | _ => rfl

theorem mem_children_ofForm {c : PortableType} :
    c ∈ (PortableType.ofForm (d.mapParts s.shownPortable)).children ↔
      ∃ p ∈ d.parts, s.toPortable p = c := by
  rw [← List.mem_map]
  have hsorted (members : List TypeId) :
      c ∈ sortByText (members.map s.shownPortable) ↔ c ∈ members.map s.toPortable := by
    rw [s.sortByText_eq, List.mem_map, List.mem_map]
    exact exists_congr fun p => and_congr_left fun _ => (s.exportOrder_perm members).mem_iff
  cases d with
  | union members => exact hsorted members
  | intersection members => exact hsorted members
  | record properties =>
    rw [s.ofForm_record, PortableType.children, List.map_map, TypeForm.parts, List.map_map]
    rfl
  | template shape =>
    rw [s.ofForm_template, PortableType.children, List.map_map, TypeForm.parts, List.map_append,
      List.map_map]
    rfl
  | function shape =>
    rw [s.ofForm_function, PortableType.children, List.map_map, TypeForm.parts, List.map_append,
      List.map_map]
    rfl
  | enum e => cases e <;> rfl
  | _ => rfl

end Parts

def Together (s : TypeStore) (t p q : TypeId) : Prop :=
  ∃ v, ReflTransGen s.Part t v ∧ (s.kind v = .union ∨ s.kind v = .intersection) ∧
    s.Part v p ∧ s.Part v q

theorem Together.head {r : TypeId} (hr : s.Part t r) (h : s.Together r p q) : s.Together t p q := by
  obtain ⟨v, hrv, hkind, hp, hq⟩ := h
  exact ⟨v, .head hr hrv, hkind, hp, hq⟩

theorem Together.known (h : s.Sound) (ht : s.Known t) (hpq : s.Together t p q) :
    s.Known p ∧ s.Known q := by
  obtain ⟨v, hv, -, hp, hq⟩ := hpq
  have hv := h.known_reach ht hv
  exact ⟨h.known_part hv hp, h.known_part hv hq⟩

/-- Members that stand together are exported in the same order from both stores. -/
def SameOrder (s s' : TypeStore) (t u : TypeId) : Prop :=
  ∀ p q p' q', s.Together t p q → s'.Together u p' q' → s.Uniform s' p p' → s.Uniform s' q q' →
    (s.Precedes p q ↔ s'.Precedes p' q')

theorem SameOrder.part (h : s.SameOrder s' t u) (hp : s.Part t p) (hq : s'.Part u q) :
    s.SameOrder s' p q :=
  fun _ _ _ _ hmembers hmembers' => h _ _ _ _ (hmembers.head hp) (hmembers'.head hq)

section Order
variable {ms ns : List TypeId}

theorem exports_eq_of_respectsOrder {k : Kind} (hms : s.Normal k ms) (hns : s'.Normal k ns)
    (hmatch : Matches (s.Uniform s') ms ns)
    (horder : RespectsOrder (s.Uniform s') s.Precedes s'.Precedes ms ns)
    (hexports : ∀ p ∈ ms, ∀ q ∈ ns, s.Uniform s' p q → s.toPortable p = s'.toPortable q) :
    (s.exportOrder ms).map s.toPortable = (s'.exportOrder ns).map s'.toPortable := by
  have hperm := s.exportOrder_perm ms
  have hperm' := s'.exportOrder_perm ns
  have hsame : List.Forall₂ (s.Uniform s') (s.exportOrder ms) (s'.exportOrder ns) := by
    refine forall₂_of_matches (fun _ _ => Precedes.asymm) (fun _ _ => Precedes.asymm)
      hms.exportOrder_precedes hns.exportOrder_precedes (hmatch.of_perm hperm hperm'.symm) ?_
    intro p hp q hq p' hp' q' hq'
    exact horder p (hperm.mem_iff.1 hp) q (hperm.mem_iff.1 hq) p' (hperm'.mem_iff.1 hp') q'
      (hperm'.mem_iff.1 hq')
  exact forall₂_eq_map (TypeForm.forall₂_mono hsame fun p hp q hq =>
    hexports p (hperm.mem_iff.1 hp) q (hperm'.mem_iff.1 hq))

end Order

section Exports
variable (h : s.Sound) (h' : s'.Sound)
include h h'

/-- By induction the exports of the parts agree, so that only the order of members can differ. -/
theorem Sound.toPortable_eq_of_sameOrder (ht : s.Known t) (hu : s'.Known u)
    (huniform : s.Uniform s' t u) (horder : s.SameOrder s' t u) :
    s.toPortable t = s'.toPortable u := by
  refine h.induct (motive := fun t => ∀ u, s'.Known u → s.Uniform s' t u → s.SameOrder s' t u →
    s.toPortable t = s'.toPortable u) (fun t d hd ih u hu huniform horder => ?_) t ht u hu huniform
      horder
  have ht : s.Known t := ⟨d, hd⟩
  obtain ⟨e, he⟩ := hu
  have hu : s'.Known u := ⟨e, he⟩
  have hdata := data_of_lookup hd
  have hdata' := data_of_lookup he
  obtain ⟨hforms, hrecord⟩ := h.uniform_data h' hd he huniform
  have hpart {p} (hp : p ∈ d.parts) : s.Part t p := by rwa [Part, children, hdata]
  have hpart' {q} (hq : q ∈ e.parts) : s'.Part u q := by rwa [Part, children, hdata']
  have hexports (p) (hp : p ∈ d.parts) (q) (hq : q ∈ e.parts) (hpq : s.Uniform s' p q) :
      s.toPortable p = s'.toPortable q :=
    ih p hp q (h'.known_part hu (hpart' hq)) hpq (horder.part (hpart hp) (hpart' hq))
  have hmembers (hkind : d.kind = .union ∨ d.kind = .intersection) :
      RespectsOrder (s.Uniform s') s.Precedes s'.Precedes d.parts e.parts := by
    have hkind' := hforms.kind_eq
    intro p hp q hq p' hp' q' hq'
    refine horder p q p' q' ⟨t, .refl, ?_, hpart hp, hpart hq⟩
      ⟨u, .refl, ?_, hpart' hp', hpart' hq'⟩
    · rwa [kind, hdata]
    · rwa [kind, hdata', ← hkind']
  rw [h.toPortable hd, h'.toPortable he]
  by_cases hunion : d.kind = .union
  · cases hforms with
    | union hmatch =>
      show PortableType.union (sortByText _) = PortableType.union (sortByText _)
      rw [sortByText_eq, sortByText_eq, exports_eq_of_respectsOrder (h.union_normal ht hdata)
        (h'.union_normal hu hdata') hmatch (hmembers (.inl rfl)) hexports]
    | _ => cases hunion
  by_cases hintersection : d.kind = .intersection
  · cases hforms with
    | intersection hmatch =>
      show PortableType.intersection (sortByText _) = PortableType.intersection (sortByText _)
      rw [sortByText_eq, sortByText_eq, exports_eq_of_respectsOrder
        (h.intersection_normal ht hdata) (h'.intersection_normal hu hdata') hmatch
        (hmembers (.inr rfl)) hexports]
    | _ => cases hintersection
  · have hkind := hforms.kind_eq
    rw [ofForm_ordered hunion hintersection,
      ofForm_ordered (hkind ▸ hunion) (hkind ▸ hintersection),
      (hforms.mono hexports).mapParts_eq (hrecord.mono hexports) hunion hintersection]

section Import
variable (htagged : s.Tagged) (htagged' : s'.Tagged)
include htagged htagged'

theorem Sound.alike_of_toPortable_eq (ht : s.Known t) (hu : s'.Known u)
    (hpool : s.Throughout (Binds pool) t) (hpool' : s'.Throughout (Binds pool) u)
    (heq : s.toPortable t = s'.toPortable u) : (s.denote t).Alike (s'.denote u) := by
  obtain ⟨v, r, hrun, -, halike⟩ := imports_toPortable h htagged ht hpool s h
  obtain ⟨v', r', hrun', -, halike'⟩ := imports_toPortable h' htagged' hu hpool' s h
  rw [heq, hrun'] at hrun
  obtain ⟨hv, hr⟩ := Prod.mk.inj hrun
  obtain rfl := Except.ok.inj hv
  subst hr
  exact halike.symm.trans halike'

theorem Sound.toPortable_part_eq (ht : s.lookup t = some d) (hu : s'.lookup u = some e)
    (hpool : s.Throughout (Binds pool) t) (hpool' : s'.Throughout (Binds pool) u)
    (heq : s.toPortable t = s'.toPortable u) (hp : p ∈ d.parts) (hq : q ∈ e.parts)
    (hpq : s.Uniform s' p q) : s.toPortable p = s'.toPortable q := by
  have hknown := (h.admits t d ht).parts p hp
  have hknown' := (h'.admits u e hu).parts
  obtain ⟨-, hparts⟩ := hpool
  obtain ⟨-, hparts'⟩ := hpool'
  rw [data_of_lookup ht] at hparts
  rw [data_of_lookup hu] at hparts'
  have hchild : s.toPortable p ∈ (s.toPortable t).children := by
    rw [h.toPortable ht]
    exact mem_children_ofForm.2 ⟨p, hp, rfl⟩
  rw [heq, h'.toPortable hu] at hchild
  obtain ⟨r, hr, hrp⟩ := mem_children_ofForm.1 hchild
  have halike := h.alike_of_toPortable_eq h' htagged htagged' hknown (hknown' r hr) (hparts p hp)
    (hparts' r hr) hrp.symm
  obtain rfl := h'.eq_of_alike_one (hknown' q hq) (hknown' r hr) hpq.alike halike
  exact hrp.symm

omit htagged htagged' in
theorem respectsOrder_of_exports_eq {ms ns : List TypeId} {k : Kind} (hms : s.Normal k ms)
    (hns : s'.Normal k ns) (hknown : ∀ p ∈ ms, s.Known p) (hknown' : ∀ q ∈ ns, s'.Known q)
    (hmatch : Matches (s.Uniform s') ms ns)
    (hsame : ∀ p ∈ ms, ∀ q ∈ ns, s.toPortable p = s'.toPortable q →
      (s.denote p).Alike (s'.denote q))
    (heq : (s.exportOrder ms).map s.toPortable = (s'.exportOrder ns).map s'.toPortable) :
    RespectsOrder (s.Uniform s') s.Precedes s'.Precedes ms ns := by
  have hmem {p} : p ∈ s.exportOrder ms ↔ p ∈ ms := (s.exportOrder_perm ms).mem_iff
  have hmem' {q} : q ∈ s'.exportOrder ns ↔ q ∈ ns := (s'.exportOrder_perm ns).mem_iff
  rw [← List.forall₂_eq_eq_eq, List.forall₂_map_left_iff, List.forall₂_map_right_iff] at heq
  have huniform : List.Forall₂ (s.Uniform s') (s.exportOrder ms) (s'.exportOrder ns) := by
    refine TypeForm.forall₂_mono heq fun p hp q hq hpq => ?_
    obtain ⟨r, hr, hpr⟩ := hmatch.1 p (hmem.1 hp)
    have halike := hsame p (hmem.1 hp) q (hmem'.1 hq) hpq
    obtain rfl := h'.eq_of_alike_one (hknown' q (hmem'.1 hq)) (hknown' r hr) halike hpr.alike
    exact hpr
  have horder := respectsOrder_of_forall₂ (fun _ _ => Precedes.asymm) (fun _ _ => Precedes.asymm)
    hms.exportOrder_precedes hns.exportOrder_precedes huniform
    (fun p hp q hq u _ => h.uniform_left (hknown p (hmem.1 hp)) (hknown q (hmem.1 hq)))
    (fun t _ p hp q hq => h'.uniform_right (hknown' p (hmem'.1 hp)) (hknown' q (hmem'.1 hq)))
  intro p hp q hq p' hp' q' hq'
  exact horder p (hmem.2 hp) q (hmem.2 hq) p' (hmem'.2 hp') q' (hmem'.2 hq')

theorem Sound.respectsOrder_parts (ht : s.lookup t = some d) (hu : s'.lookup u = some e)
    (hkind : d.kind = .union ∨ d.kind = .intersection) (huniform : s.Uniform s' t u)
    (hpool : s.Throughout (Binds pool) t) (hpool' : s'.Throughout (Binds pool) u)
    (heq : s.toPortable t = s'.toPortable u) :
    RespectsOrder (s.Uniform s') s.Precedes s'.Precedes d.parts e.parts := by
  have hdata := data_of_lookup ht
  have hdata' := data_of_lookup hu
  have hknown := (h.admits t d ht).parts
  have hknown' := (h'.admits u e hu).parts
  obtain ⟨hforms, -⟩ := h.uniform_data h' ht hu huniform
  obtain ⟨-, hparts⟩ := hpool
  obtain ⟨-, hparts'⟩ := hpool'
  rw [hdata] at hparts
  rw [hdata'] at hparts'
  have hsame (p) (hp : p ∈ d.parts) (q) (hq : q ∈ e.parts)
      (hpq : s.toPortable p = s'.toPortable q) : (s.denote p).Alike (s'.denote q) :=
    h.alike_of_toPortable_eq h' htagged htagged' (hknown p hp) (hknown' q hq) (hparts p hp)
      (hparts' q hq) hpq
  rw [h.toPortable ht, h'.toPortable hu] at heq
  cases hforms with
  | union hmatch =>
    have heq := PortableType.union.inj heq
    rw [sortByText_eq, sortByText_eq] at heq
    exact respectsOrder_of_exports_eq h h' (h.union_normal ⟨_, ht⟩ hdata)
      (h'.union_normal ⟨_, hu⟩ hdata') hknown hknown' hmatch hsame heq
  | intersection hmatch =>
    have heq := PortableType.intersection.inj heq
    rw [sortByText_eq, sortByText_eq] at heq
    exact respectsOrder_of_exports_eq h h' (h.intersection_normal ⟨_, ht⟩ hdata)
      (h'.intersection_normal ⟨_, hu⟩ hdata') hknown hknown' hmatch hsame heq
  | _ => simp [TypeForm.kind] at hkind

theorem Sound.sameOrder_of_toPortable_eq (ht : s.Known t) (hu : s'.Known u)
    (huniform : s.Uniform s' t u) (hpool : s.Throughout (Binds pool) t)
    (hpool' : s'.Throughout (Binds pool) u) (heq : s.toPortable t = s'.toPortable u) :
    s.SameOrder s' t u := by
  intro p q p' q' hpq hpq' hpp hqq
  obtain ⟨hk, hk'⟩ := hpq'.known h' hu
  -- It suffices to find the counterparts somewhere below, where they are the given ones.
  suffices hbelow : ∃ p'' q'', s'.Known p'' ∧ s'.Known q'' ∧ s.Uniform s' p p'' ∧
      s.Uniform s' q q'' ∧ (s.Precedes p q ↔ s'.Precedes p'' q'') by
    obtain ⟨p'', q'', hp'', hq'', hpp'', hqq'', horder⟩ := hbelow
    obtain rfl := h'.uniform_right hk hp'' hpp hpp''
    obtain rfl := h'.uniform_right hk' hq'' hqq hqq''
    exact horder
  clear hpq' hpp hqq hk hk'
  obtain ⟨v, hv, hkind, hp, hq⟩ := hpq
  induction hv using ReflTransGen.head_induction_on generalizing u with
  | refl =>
    have hhere := h.respectsOrder_parts h' htagged htagged' ht.lookup_data hu.lookup_data hkind
      huniform hpool hpool' heq
    obtain ⟨p'', hp'', hpp''⟩ := h.uniform_part h' huniform ht hu hp
    obtain ⟨q'', hq'', hqq''⟩ := h.uniform_part h' huniform ht hu hq
    exact ⟨p'', q'', h'.known_part hu hp'', h'.known_part hu hq'', hpp'', hqq'',
      hhere p hp q hq p'' hp'' q'' hq'' hpp'' hqq''⟩
  | head hpart _ ih =>
    obtain ⟨c, hc, hpc⟩ := h.uniform_part h' huniform ht hu hpart
    have hexports := h.toPortable_part_eq h' htagged htagged' ht.lookup_data hu.lookup_data hpool
      hpool' heq hpart hc hpc
    obtain ⟨-, hparts⟩ := hpool
    obtain ⟨-, hparts'⟩ := hpool'
    exact ih (h.known_part ht hpart) (h'.known_part hu hc) hpc (hparts _ hpart) (hparts' c hc)
      hexports

end Import

/-- The texts of members that stand together are different and depend on the type only. -/
def Distinguished (s : TypeStore) (t : TypeId) : Prop :=
  ∀ p q, s.Together t p q → s.isDisplayStable p ∧ (p ≠ q → s.display p ≠ s.display q)

theorem Sound.sameOrder_of_distinguished (ht : s.Known t) (hu : s'.Known u)
    (hdistinguished : s.Distinguished t) : s.SameOrder s' t u := by
  intro p q p' q' hpq hpq' hpp hqq
  obtain ⟨hstable, hdifferent⟩ := hdistinguished p q hpq
  have hqp : s.Together t q p := by
    obtain ⟨v, hv, hkind, hp, hq⟩ := hpq
    exact ⟨v, hv, hkind, hq, hp⟩
  obtain ⟨hstable', -⟩ := hdistinguished q p hqp
  obtain ⟨hp, hq⟩ := hpq.known h ht
  obtain ⟨hp', hq'⟩ := hpq'.known h' hu
  have htext := h.display_eq_of_uniform h' hp hp' hpp hstable
  have htext' := h.display_eq_of_uniform h' hq hq' hqq hstable'
  by_cases heq : p = q
  · subst heq
    obtain rfl := h'.uniform_right hp' hq' hpp hqq
    exact iff_of_false (fun hp => hp.asymm hp) (fun hp => hp.asymm hp)
  · have hne := hdifferent heq
    rw [Precedes, Precedes, ← htext, ← htext']
    simp only [hne, false_and]

end Exports

end TypeStore

namespace Session
variable {σ τ : Session} {t u : TypeId} {pool : Proto.Pool}

/-- Types that are the same but for the history of the stores are exported alike exactly if no
members are in another order, which they cannot be if their texts are different and stable. -/
theorem toPortable_eq_iff (hσ : σ.Reached) (hτ : τ.Reached) (ht : t ∈ σ.issued) (hu : u ∈ τ.issued)
    (huniform : σ.store.Uniform τ.store t u) (hpool : σ.store.Throughout (Binds pool) t)
    (hpool' : τ.store.Throughout (Binds pool) u) :
    (σ.store.toPortable t = τ.store.toPortable u ↔ σ.store.SameOrder τ.store t u) ∧
      (σ.store.Distinguished t → σ.store.toPortable t = τ.store.toPortable u) := by
  have hsound := hσ.valid.sound
  have hsound' := hτ.valid.sound
  have ht := hσ.valid.known t ht
  have hu := hτ.valid.known u hu
  have horder := hsound.toPortable_eq_of_sameOrder hsound' ht hu huniform
  refine ⟨⟨fun heq => ?_, horder⟩, fun hdistinguished => horder ?_⟩
  · exact hsound.sameOrder_of_toPortable_eq hsound' hσ.tagged hτ.tagged ht hu huniform hpool hpool'
      heq
  · exact hsound.sameOrder_of_distinguished hsound' ht hu hdistinguished

def taking (name : String) : TemplateShape TypeId := ⟨[⟨name, .htmlAttribute, true, .int⟩], .html⟩

def tied (first second : String) : Session :=
  ((single.call (.template (taking first).parameters .html)).call
    (.template (taking second).parameters .html)).call (.union [⟨127⟩, ⟨191⟩])

def tiedNames : List (String × String) := [("data-id", "dataId"), ("dataId", "data-id")]

theorem dashed_first : ("data-id", "dataId") ∈ tiedNames := List.mem_cons_self ..

theorem capital_first : ("dataId", "data-id") ∈ tiedNames :=
  List.mem_cons_of_mem _ (List.mem_cons_self ..)

theorem stored_tied : ∀ names ∈ tiedNames,
    (tied names.1 names.2).issued.take 3 = [⟨255⟩, ⟨191⟩, ⟨127⟩] ∧
      (tied names.1 names.2).store.lookup ⟨127⟩ = some (.template (taking names.1)) ∧
      (tied names.1 names.2).store.lookup ⟨191⟩ = some (.template (taking names.2)) ∧
      (tied names.1 names.2).store.lookup ⟨255⟩ = some (.union [⟨127⟩, ⟨191⟩]) := by
  decide +kernel

theorem uniform_taking {s s' : TypeStore} (name : String) (h : s.Sound) (h' : s'.Sound)
    (ht : s.lookup t = some (.template (taking name)))
    (hu : s'.lookup u = some (.template (taking name))) : s.Uniform s' t u :=
  h.uniform_of_data h' ht hu
    (.template (.cons ⟨rfl, rfl, rfl, h.uniform_fixed h' (d := .intrinsic .int) rfl⟩ .nil)
      (h.uniform_fixed h' (d := .intrinsic .html) rfl)) trivial

section Tied
variable {first second : String} (h : (first, second) ∈ tiedNames)
include h

theorem issued_tied : ⟨255⟩ ∈ (tied first second).issued := by
  obtain ⟨hissued, -⟩ := stored_tied _ h
  have hlatest : TypeId.mk 255 ∈ (tied first second).issued.take 3 := by
    rw [hissued]
    exact List.mem_cons_self ..
  exact List.mem_of_mem_take hlatest

theorem reached_tied : (tied first second).Reached := by
  obtain ⟨hissued, -⟩ := stored_tied _ h
  have hfixed : ∀ t ∈ [TypeId.int, .html], t ∈ TypeId.allFixed := by decide
  have hboth := (reached_single.call_fixed (.template (taking first).parameters .html) trivial
    hfixed).call_fixed (.template (taking second).parameters .html) trivial hfixed
  refine hboth.call (.union [⟨127⟩, ⟨191⟩]) ⟨trivial, fun t ht => ?_⟩
  have hbefore : ((single.call (.template (taking first).parameters .html)).call
      (.template (taking second).parameters .html)).issued.take 2 = [⟨191⟩, ⟨127⟩] :=
    congrArg List.tail hissued
  have hrecent : t ∈ [TypeId.mk 191, ⟨127⟩] := (List.Perm.swap ..).mem_iff.1 ht
  rw [← hbefore] at hrecent
  exact List.mem_of_mem_take hrecent

theorem binds_tied (pool : Proto.Pool) :
    (tied first second).store.Throughout (Binds pool) ⟨255⟩ := by
  obtain ⟨-, hfirst, hsecond, hunion⟩ := stored_tied _ h
  have hint : (tied first second).store.Throughout (Binds pool) .int :=
    .of_data (d := .intrinsic .int) (data_fixed _ rfl) trivial (List.forall_mem_nil _)
  have hhtml : (tied first second).store.Throughout (Binds pool) .html :=
    .of_data (d := .intrinsic .html) (data_fixed _ rfl) trivial (List.forall_mem_nil _)
  have htaking {t : TypeId} {name : String}
      (ht : (tied first second).store.lookup t = some (.template (taking name))) :
      (tied first second).store.Throughout (Binds pool) t :=
    .of_data (data_of_lookup ht) trivial
      (List.forall_mem_cons.2 ⟨hint, List.forall_mem_singleton.2 hhtml⟩)
  exact .of_data (data_of_lookup hunion) trivial
    (List.forall_mem_cons.2 ⟨htaking hfirst, List.forall_mem_singleton.2 (htaking hsecond)⟩)

theorem uniform_tied (h' : (second, first) ∈ tiedNames) :
    (tied first second).store.Uniform (tied second first).store ⟨255⟩ ⟨255⟩ := by
  have hsound := (reached_tied h).valid.sound
  have hsound' := (reached_tied h').valid.sound
  obtain ⟨-, hfirst, hsecond, hunion⟩ := stored_tied _ h
  obtain ⟨-, hsecond', hfirst', hunion'⟩ := stored_tied _ h'
  have hcross : (tied first second).store.Uniform (tied second first).store ⟨127⟩ ⟨191⟩ :=
    uniform_taking first hsound hsound' hfirst hfirst'
  have hback : (tied first second).store.Uniform (tied second first).store ⟨191⟩ ⟨127⟩ :=
    uniform_taking second hsound hsound' hsecond hsecond'
  have hmatch : Matches ((tied first second).store.Uniform (tied second first).store)
      [⟨127⟩, ⟨191⟩] [⟨127⟩, ⟨191⟩] := by
    constructor
    · exact List.forall_mem_cons.2 ⟨⟨⟨191⟩, by decide, hcross⟩,
        List.forall_mem_singleton.2 ⟨⟨127⟩, by decide, hback⟩⟩
    · exact List.forall_mem_cons.2 ⟨⟨⟨191⟩, by decide, hback⟩,
        List.forall_mem_singleton.2 ⟨⟨127⟩, by decide, hcross⟩⟩
  exact hsound.uniform_of_data hsound' hunion hunion' (.union hmatch) trivial

end Tied

theorem toPortable_tied_ne : (tied "data-id" "dataId").store.toPortable ⟨255⟩ ≠
    (tied "dataId" "data-id").store.toPortable ⟨255⟩ := by
  intro heq
  have htext : ((tied "data-id" "dataId").store.toPortable ⟨255⟩).toJson ≠
      ((tied "dataId" "data-id").store.toPortable ⟨255⟩).toJson := by
    decide +kernel
  exact htext (congrArg PortableType.toJson heq)

theorem toPortable_eq_iff_tied :
    (tied "data-id" "dataId").Reached ∧ (tied "dataId" "data-id").Reached ∧
      (tied "data-id" "dataId").store.Uniform (tied "dataId" "data-id").store ⟨255⟩ ⟨255⟩ ∧
        ¬ (tied "data-id" "dataId").store.SameOrder (tied "dataId" "data-id").store ⟨255⟩
          ⟨255⟩ := by
  refine ⟨reached_tied dashed_first, reached_tied capital_first,
    uniform_tied dashed_first capital_first, fun horder => toPortable_tied_ne ?_⟩
  exact (toPortable_eq_iff (reached_tied dashed_first) (reached_tied capital_first)
    (issued_tied dashed_first) (issued_tied capital_first)
    (uniform_tied dashed_first capital_first) (binds_tied dashed_first (.empty 0))
    (binds_tied capital_first (.empty 0))).1.2 horder

theorem export_depends_on_history :
    ¬ ∀ (σ τ : Session) (pool : Proto.Pool), σ.Reached → τ.Reached → pool.Built → pool.Apart →
      ∀ t ∈ σ.issued, ∀ u ∈ τ.issued, σ.store.Throughout (Binds pool) t →
        τ.store.Throughout (Binds pool) u → σ.store.Uniform τ.store t u →
          σ.store.toPortable t = τ.store.toPortable u := by
  intro h
  have hapart : (Proto.Pool.empty 0).Apart := by
    intro name hname
    cases hname
  exact toPortable_tied_ne (h _ _ (.empty 0) (reached_tied dashed_first)
    (reached_tied capital_first) (.empty 0) hapart ⟨255⟩ (issued_tied dashed_first) ⟨255⟩
    (issued_tied capital_first) (binds_tied dashed_first _) (binds_tied capital_first _)
    (uniform_tied dashed_first capital_first))

end Session
end TemplateCheck

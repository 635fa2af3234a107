import TemplateCheck.Proofs.Resolve.Sensible
import TemplateCheck.Proofs.Types.Matching
import TemplateCheck.Proofs.Types.Members

/-! Making types in two stores at once. From the same types the same types are made, whatever else
the stores contain, and they are well shaped if those are. -/

namespace TemplateCheck
open TypeStore

namespace TypeStore
variable {s s' r r' : TypeStore} {t u v w : TypeId} {d e : TypeData}

/-- Properties and parameters have different names, and templates produce content. -/
def ShapedForm (s : TypeStore) : TypeData → Prop
  | .record properties => (properties.map (·.name)).Nodup
  | .template shape =>
    (shape.parameters.map (·.name)).Nodup ∧ Resolving.isTemplateResult (s.kind shape.result)
  | .function shape => (shape.parameters.map (·.name)).Nodup
  | _ => True

structure WellShaped (s : TypeStore) (t : TypeId) : Prop where
  known : s.Known t
  forms : s.Throughout s.ShapedForm t

theorem Grows.shapedForm (hgrows : s.Grows r) (hknown : ∀ p ∈ d.parts, s.Known p)
    (h : s.ShapedForm d) : r.ShapedForm d := by
  cases d with
  | template shape =>
    have hresult : s.Known shape.result := hknown _ (by simp [TypeForm.parts])
    refine ⟨h.1, ?_⟩
    rw [kind, hgrows.data hresult]
    exact h.2
  | _ => exact h

namespace WellShaped

theorem part (h : s.WellShaped t) (hs : s.Sound) (hu : u ∈ (s.data t).parts) :
    s.WellShaped u := by
  obtain ⟨-, hparts⟩ := h.forms
  exact ⟨hs.known_part h.known hu, hparts u hu⟩

theorem form (h : s.WellShaped t) : s.ShapedForm (s.data t) := by
  obtain ⟨hform, -⟩ := h.forms
  exact hform

theorem grows (h : s.WellShaped t) (hs : s.Sound) (hgrows : s.Grows r) : r.WellShaped t := by
  obtain ⟨hknown, hforms⟩ := h
  refine ⟨hgrows.known hknown, ?_⟩
  induction hforms with
  | @intro t hform _ ih =>
    have hparts : ∀ p ∈ (s.data t).parts, s.Known p := fun p hp => hs.known_part hknown hp
    refine .of_data (hgrows.data hknown) (hgrows.shapedForm hparts hform) fun p hp => ?_
    exact ih p hp (hparts p hp)

theorem of_stored {made : TypeId × TypeStore} (hs : s.Sound) (h : s.Stored made d)
    (hform : s.ShapedForm d) (hparts : ∀ p ∈ d.parts, s.WellShaped p) :
    made.2.WellShaped made.1 := by
  refine ⟨h.known, .of_data (data_of_lookup h.lookup) ?_ fun p hp => ?_⟩
  · exact h.grows.shapedForm (fun p hp => (hparts p hp).known) hform
  · exact ((hparts p hp).grows hs h.grows).forms

theorem fixed (hfixed : d.fixedId? = some t) : s.WellShaped t := by
  refine ⟨s.known_fixed hfixed, .of_data (s.data_fixed hfixed) ?_ fun p hp => ?_⟩
  · cases d with
    | record | template | function => cases hfixed
    | _ => trivial
  · rw [parts_of_fixedId? hfixed] at hp
    cases hp

end WellShaped

/-- The same type in two stores, well shaped in both. -/
structure Counterparts (s s' : TypeStore) (t u : TypeId) : Prop where
  shaped : s.WellShaped t
  shaped' : s'.WellShaped u
  alike : (s.denote t).Alike (s'.denote u)

namespace Counterparts

theorem grows (h : s.Counterparts s' t u) (hs : s.Sound) (hs' : s'.Sound) (hr : r.Sound)
    (hr' : r'.Sound) (hgrows : s.Grows r) (hgrows' : s'.Grows r') : r.Counterparts r' t u := by
  refine ⟨h.shaped.grows hs hgrows, h.shaped'.grows hs' hgrows', ?_⟩
  have hdenote : r.denote t = s.denote t := hgrows.fold hs hr h.shaped.known
  have hdenote' : r'.denote u = s'.denote u := hgrows'.fold hs' hr' h.shaped'.known
  rw [hdenote, hdenote']
  exact h.alike

theorem diagonal (hs : s.Sound) (h : s.WellShaped t) : s.Counterparts s t t :=
  ⟨h, h, hs.alike_denote h.known⟩

theorem left (h : s.Counterparts s' t v) (h' : s.Counterparts s' u v) (hs : s.Sound) : t = u :=
  (hs.alike_iff h.shaped.known h'.shaped.known).1 (h.alike.trans h'.alike.symm)

theorem right (h : s.Counterparts s' t v) (h' : s.Counterparts s' t w) (hs' : s'.Sound) : v = w :=
  (hs'.alike_iff h.shaped'.known h'.shaped'.known).1 (h.alike.symm.trans h'.alike)

theorem forms (h : s.Counterparts s' t u) (hs : s.Sound) (hs' : s'.Sound) :
    (s.data t).Alike (s.Counterparts s') (s'.data u) := by
  have hforms := hs.alike_data hs' h.shaped.known.lookup_data h.shaped'.known.lookup_data h.alike
  exact hforms.mono fun p hp q hq hpq => ⟨h.shaped.part hs hp, h.shaped'.part hs' hq, hpq⟩

theorem kind_eq (h : s.Counterparts s' t u) (hs : s.Sound) (hs' : s'.Sound) :
    s.kind t = s'.kind u :=
  (h.forms hs hs').kind_eq

theorem of_stored {made made' : TypeId × TypeStore} (hs : s.Sound) (hs' : s'.Sound)
    (h : s.Stored made d) (h' : s'.Stored made' e) (hforms : d.Alike (s.Counterparts s') e)
    (hshaped : s.ShapedForm d) (hshaped' : s'.ShapedForm e) :
    made.2.Counterparts made'.2 made.1 made'.1 := by
  refine ⟨.of_stored hs h hshaped fun p hp => ?_, .of_stored hs' h' hshaped' fun q hq => ?_, ?_⟩
  · obtain ⟨q, -, hpq⟩ := hforms.exists_part hp
    exact hpq.shaped
  · obtain ⟨p, -, hpq⟩ := hforms.flip.exists_part hq
    exact hpq.shaped'
  · rw [h.sound.denote h.lookup, h'.sound.denote h'.lookup]
    refine .node _ (fun a b hab => hab) (hforms.mono fun p _ q _ hpq => ?_).mapParts
    exact (hpq.grows hs hs' h.sound h'.sound h.grows h'.grows).alike

theorem fixed (hs : s.Sound) (hs' : s'.Sound) (hfixed : d.fixedId? = some t) :
    s.Counterparts s' t t := by
  refine ⟨.fixed hfixed, .fixed hfixed, ?_⟩
  rw [hs.denote (s.lookup_fixed hfixed), hs'.denote (s'.lookup_fixed hfixed)]
  refine .node _ (fun a b hab => hab) ((TypeForm.Alike.refl d).mono fun p hp _ _ _ => ?_).mapParts
  rw [parts_of_fixedId? hfixed] at hp
  cases hp

theorem ofIntrinsic (hs : s.Sound) (hs' : s'.Sound) (kind : Intrinsic) :
    s.Counterparts s' (.ofIntrinsic kind) (.ofIntrinsic kind) :=
  fixed hs hs' (d := .intrinsic kind) rfl

theorem error (hs : s.Sound) (hs' : s'.Sound) : s.Counterparts s' .error .error :=
  fixed hs hs' (d := .error) rfl

theorem eq_fixed (h : s.Counterparts s' t u) (hs : s.Sound) (hs' : s'.Sound)
    (hfixed : t.isFixed ∨ u.isFixed) : t = u :=
  hs.eq_of_alike_isFixed hs' h.shaped.known h.shaped'.known h.alike hfixed

theorem membersOf (h : s.Counterparts s' t u) (hs : s.Sound) (hs' : s'.Sound) {k : Kind}
    (hk : k = .union ∨ k = .intersection) :
    Matches (s.Counterparts s') (s.membersOf k t) (s'.membersOf k u) := by
  have hforms := h.forms hs hs'
  have hkinds := h.kind_eq hs hs'
  by_cases hkind : s.kind t = k
  · rw [membersOf_of_kind hkind, membersOf_of_kind (hkinds ▸ hkind)]
    rw [kind] at hkind
    generalize s.data t = d at hforms hkind
    generalize s'.data u = e at hforms
    cases hforms with
    | union hmatch | intersection hmatch => exact hmatch
    | _ =>
      rw [← hkind] at hk
      simp [TypeForm.kind] at hk
  · rw [membersOf_self hkind, membersOf_self (hkinds ▸ hkind)]
    exact ⟨by simpa using h, by simpa using h⟩

theorem unionMembers (h : s.Counterparts s' t u) (hs : s.Sound) (hs' : s'.Sound) :
    Matches (s.Counterparts s') (s.unionMembers t) (s'.unionMembers u) := by
  rw [s.unionMembers_eq, s'.unionMembers_eq]
  exact h.membersOf hs hs' (.inl rfl)

theorem intersectionMembers (h : s.Counterparts s' t u) (hs : s.Sound) (hs' : s'.Sound) :
    Matches (s.Counterparts s') (s.intersectionMembers t) (s'.intersectionMembers u) := by
  rw [s.intersectionMembers_eq, s'.intersectionMembers_eq]
  exact h.membersOf hs hs' (.inr rfl)

end Counterparts

theorem length_eq_of_matches {ts us : List TypeId}
    (h : Matches (s.Counterparts s') ts us) (hs : s.Sound) (hs' : s'.Sound)
    (hts : Order.Ascends TypeId.number ts) (hus : Order.Ascends TypeId.number us) :
    ts.length = us.length := by
  obtain ⟨cs, hperm, hcs⟩ := exists_perm_of_matches hts.nodup hus.nodup h
    (fun _ _ _ _ _ _ htv huv => htv.left huv hs) fun _ _ _ _ _ _ htv htw => htv.right htw hs'
  rw [hcs.length_eq, hperm.length_eq]

end TypeStore

/-- Run in `s` and in `s'`, the computations leave sound stores that have grown, and their results
together meet `post`. -/
structure Parallel {α β : Type} (m : Making α) (m' : Making β) (s s' : TypeStore)
    (post : TypeStore → TypeStore → α → β → Prop) : Prop where
  sound : (m s).2.Sound
  sound' : (m' s').2.Sound
  grows : s.Grows (m s).2
  grows' : s'.Grows (m' s').2
  result : post (m s).2 (m' s').2 (m s).1 (m' s').1

namespace Parallel
variable {α β γ δ : Type} {m : Making α} {m' : Making β} {f : α → Making γ} {f' : β → Making δ}
  {s s' : TypeStore} {P P' : TypeStore → TypeStore → α → β → Prop}
  {Q : TypeStore → TypeStore → γ → δ → Prop} {t u v w : TypeId} {d e : TypeData}

section Steps

theorem ret {a : α} {b : β} (hs : s.Sound) (hs' : s'.Sound) (h : P s s' a b) :
    Parallel (pure a) (pure b) s s' P :=
  ⟨hs, hs', .refl s, .refl s', h⟩

theorem bind (hm : Parallel m m' s s' P)
    (hf : ∀ a b r r', r.Sound → r'.Sound → s.Grows r → s'.Grows r' → P r r' a b →
      Parallel (f a) (f' b) r r' Q) : Parallel (m >>= f) (m' >>= f') s s' Q := by
  obtain ⟨hsound, hsound', hgrows, hgrows', hresult⟩ := hm
  obtain ⟨hsound₁, hsound₁', hgrows₁, hgrows₁', hresult₁⟩ :=
    hf _ _ _ _ hsound hsound' hgrows hgrows' hresult
  exact ⟨hsound₁, hsound₁', hgrows.trans hgrows₁, hgrows'.trans hgrows₁', hresult₁⟩

theorem map {g : α → γ} {g' : β → δ} (hm : Parallel m m' s s' P)
    (h : ∀ r r' a b, P r r' a b → Q r r' (g a) (g' b)) :
    Parallel (g <$> m) (g' <$> m') s s' Q :=
  ⟨hm.sound, hm.sound', hm.grows, hm.grows', h _ _ _ _ hm.result⟩

theorem congr {m₁ : Making α} {m₁' : Making β} (hm : Parallel m m' s s' P) (hrun : m₁ s = m s)
    (hrun' : m₁' s' = m' s') : Parallel m₁ m₁' s s' P :=
  ⟨hrun ▸ hm.sound, hrun' ▸ hm.sound', hrun ▸ hm.grows, hrun' ▸ hm.grows',
    hrun ▸ hrun' ▸ hm.result⟩

end Steps

section Constructors
variable (hs : s.Sound) (hs' : s'.Sound)
include hs hs'

theorem stored {m m' : Making TypeId} (h : s.Stored (m s) d) (h' : s'.Stored (m' s') e)
    (hforms : d.Alike (s.Counterparts s') e) (hshaped : s.ShapedForm d)
    (hshaped' : s'.ShapedForm e) : Parallel m m' s s' Counterparts :=
  ⟨h.sound, h'.sound, h.grows, h'.grows, .of_stored hs hs' h h' hforms hshaped hshaped'⟩

theorem interned (hforms : d.Alike (s.Counterparts s') e) (hrecorded : s.Recorded d)
    (hrecorded' : s'.Recorded e) (hshaped : s.ShapedForm d) (hshaped' : s'.ShapedForm e) :
    Parallel (TypeStore.intern d) (TypeStore.intern e) s s' Counterparts := by
  refine stored hs hs' (hs.internParts hrecorded fun p hp => ?_)
    (hs'.internParts hrecorded' fun q hq => ?_) hforms hshaped hshaped'
  · obtain ⟨q, -, hpq⟩ := hforms.exists_part hp
    exact hpq.shaped.known
  · obtain ⟨p, -, hpq⟩ := hforms.flip.exists_part hq
    exact hpq.shaped'.known

theorem list (h : s.Counterparts s' t u) :
    Parallel (TypeStore.list t) (TypeStore.list u) s s' Counterparts :=
  interned hs hs' (.list h) trivial trivial trivial trivial

theorem set (h : s.Counterparts s' t u) :
    Parallel (TypeStore.set t) (TypeStore.set u) s s' Counterparts :=
  interned hs hs' (.set h) trivial trivial trivial trivial

theorem iterable (h : s.Counterparts s' t u) :
    Parallel (TypeStore.iterable t) (TypeStore.iterable u) s s' Counterparts :=
  interned hs hs' (.iterable h) trivial trivial trivial trivial

theorem mapType (hkey : s.Counterparts s' t u) (hvalue : s.Counterparts s' v w) :
    Parallel (TypeStore.map t v) (TypeStore.map u w) s s' Counterparts :=
  interned hs hs' (.map hkey hvalue) trivial trivial trivial trivial

theorem legacyObjectMap (hkey : s.Counterparts s' t u) (hvalue : s.Counterparts s' v w) :
    Parallel (TypeStore.legacyObjectMap t v) (TypeStore.legacyObjectMap u w) s s' Counterparts :=
  interned hs hs' (.legacyObjectMap hkey hvalue) trivial trivial trivial trivial

theorem literal (value : String) :
    Parallel (TypeStore.literal value) (TypeStore.literal value) s s' Counterparts :=
  interned hs hs' (.literal value) trivial trivial trivial trivial

theorem message (m : Proto.Registered Proto.MessageDescriptor) :
    Parallel (TypeStore.message m) (TypeStore.message m) s s' Counterparts :=
  interned hs hs' (.message m) trivial trivial trivial trivial

theorem enum (e : Proto.Registered Proto.EnumDescriptor) :
    Parallel (TypeStore.enum e) (TypeStore.enum e) s s' Counterparts :=
  interned hs hs' (.enum (.descriptor e)) trivial trivial trivial trivial

theorem element (tag : String) :
    Parallel (TypeStore.element tag) (TypeStore.element tag) s s' Counterparts :=
  stored hs hs' (hs.element tag) (hs'.element tag) (.element _) trivial trivial

theorem record {ps qs : List (RecordProperty TypeId)}
    (h : List.Forall₂ (RecordProperty.Alike (s.Counterparts s')) ps qs)
    (hnames : (ps.map (·.name)).Nodup) :
    Parallel (TypeStore.record ps) (TypeStore.record qs) s s' Counterparts := by
  have hmatch := Matches.of_forall₂ h
  have hnames' : (qs.map (·.name)).Nodup := by
    rwa [← forall₂_eq_map (h.imp fun p q hpq => hpq.1)]
  obtain ⟨kept, hperm, hstored⟩ := hs.record (fun p hp => by
    obtain ⟨q, -, hpq⟩ := hmatch.1 p hp
    exact hpq.2.2.shaped.known) hnames
  obtain ⟨kept', hperm', hstored'⟩ := hs'.record (fun q hq => by
    obtain ⟨p, -, hpq⟩ := hmatch.2 q hq
    exact hpq.2.2.shaped'.known) hnames'
  exact stored hs hs' hstored hstored' (.record (hmatch.of_perm hperm hperm'.symm))
    ((hperm.map _).nodup_iff.2 hnames) ((hperm'.map _).nodup_iff.2 hnames')

theorem template {ps qs : List (TemplateParameter TypeId)}
    (h : List.Forall₂ (TemplateParameter.Alike (s.Counterparts s')) ps qs)
    (hnames : (ps.map (·.name)).Nodup) (hresult : s.Counterparts s' t u)
    (hcontent : Resolving.isTemplateResult (s.kind t)) :
    Parallel (TypeStore.template ps t) (TypeStore.template qs u) s s' Counterparts := by
  have hmatch := Matches.of_forall₂ h
  have hnames' : (qs.map (·.name)).Nodup := by
    rwa [← forall₂_eq_map (h.imp fun p q hpq => hpq.1)]
  have hstored := hs.template (fun p hp => by
    obtain ⟨q, -, hpq⟩ := hmatch.1 p hp
    exact hpq.2.2.2.shaped.known) hresult.shaped.known
  have hstored' := hs'.template (fun q hq => by
    obtain ⟨p, -, hpq⟩ := hmatch.2 q hq
    exact hpq.2.2.2.shaped'.known) hresult.shaped'.known
  exact stored hs hs' hstored hstored' (.template h hresult) ⟨hnames, hcontent⟩
    ⟨hnames', hresult.kind_eq hs hs' ▸ hcontent⟩

theorem function {ps qs : List (FunctionParameter TypeId)}
    (h : List.Forall₂ (FunctionParameter.Alike (s.Counterparts s')) ps qs)
    (hnames : (ps.map (·.name)).Nodup) (hresult : s.Counterparts s' t u) :
    Parallel (TypeStore.function ps t) (TypeStore.function qs u) s s' Counterparts := by
  have hmatch := Matches.of_forall₂ h
  have hnames' : (qs.map (·.name)).Nodup := by
    rwa [← forall₂_eq_map (h.imp fun p q hpq => hpq.1)]
  have hstored := hs.function (fun p hp => by
    obtain ⟨q, -, hpq⟩ := hmatch.1 p hp
    exact hpq.2.2.shaped.known) hresult.shaped.known
  have hstored' := hs'.function (fun q hq => by
    obtain ⟨p, -, hpq⟩ := hmatch.2 q hq
    exact hpq.2.2.shaped'.known) hresult.shaped'.known
  exact stored hs hs' hstored hstored' (.function h hresult) hnames hnames'

end Constructors

section Combining
variable {ts us ms ns : List TypeId} {neutral : TypeId} {absorbing : List TypeId}

variable (hs : s.Sound) (hs' : s'.Sound)
include hs hs'

theorem mem_iff_of_isFixed (hmatch : Matches (s.Counterparts s') ms ns) (ht : t.isFixed) :
    t ∈ ms ↔ t ∈ ns := by
  constructor
  · intro hmem
    obtain ⟨u, hu, htu⟩ := hmatch.1 t hmem
    exact htu.eq_fixed hs hs' (.inl ht) ▸ hu
  · intro hmem
    obtain ⟨u, hu, hut⟩ := hmatch.2 t hmem
    exact (hut.eq_fixed hs hs' (.inr ht)).symm ▸ hu

theorem matches_essential (hneutral : s.Counterparts s' neutral neutral)
    (hmatch : Matches (s.Counterparts s') ms ns) :
    Matches (s.Counterparts s') (essential neutral ms) (essential neutral ns) := by
  refine ⟨fun t ht => ?_, fun u hu => ?_⟩
  · obtain ⟨ht, hne⟩ := mem_essential.1 ht
    obtain ⟨u, hu, htu⟩ := hmatch.1 t ht
    exact ⟨u, mem_essential.2 ⟨hu, fun heq => hne (htu.left (heq ▸ hneutral) hs)⟩, htu⟩
  · obtain ⟨hu, hne⟩ := mem_essential.1 hu
    obtain ⟨t, ht, htu⟩ := hmatch.2 u hu
    exact ⟨t, mem_essential.2 ⟨ht, fun heq => hne (htu.right (heq ▸ hneutral) hs')⟩, htu⟩

theorem finish_combine (F : List TypeId → TypeData) {k : Kind} (hfixed : d.fixedId? = some neutral)
    (habsorbing : ∀ t ∈ absorbing, t.isFixed)
    (hcover : ∀ t ∈ [TypeId.error, .any, .unknown, .never], t ≠ neutral → t ∈ absorbing)
    (hparts : ∀ members, (F members).parts = members)
    (hform : ∀ {s : TypeStore} {members}, members ∈ s.lists → s.Normal k members →
      s.Recorded (F members))
    (halike : ∀ {R : TypeId → TypeId → Prop} {as bs}, Matches R as bs → (F as).Alike R (F bs))
    (hshaped : ∀ (s : TypeStore) members, s.ShapedForm (F members))
    (hflat : ∀ t ∈ ms, s.kind t ≠ k) (hmatch : Matches (s.Counterparts s') ms ns) :
    Parallel (finish F (combine absorbing neutral ms)) (finish F (combine absorbing neutral ns)) s
      s' Counterparts := by
  have hflat' : ∀ u ∈ ns, s'.kind u ≠ k := fun u hu => by
    obtain ⟨t, ht, htu⟩ := hmatch.2 u hu
    exact htu.kind_eq hs hs' ▸ hflat t ht
  have hfind : absorbing.find? (· ∈ ms) = absorbing.find? (· ∈ ns) :=
    find?_congr_mem fun t ht => by simp only [mem_iff_of_isFixed hs hs' hmatch (habsorbing t ht)]
  rw [combine, combine, ← hfind]
  cases hfirst : absorbing.find? (· ∈ ms) with
  | some t =>
    have ht : t ∈ ms := by simpa using List.find?_some hfirst
    have hfixed := habsorbing t (List.mem_of_find?_eq_some hfirst)
    obtain ⟨u, -, htu⟩ := hmatch.1 t ht
    obtain rfl := htu.eq_fixed hs hs' (.inl hfixed)
    exact ret hs hs' htu
  | none =>
    have hneutral : s.Counterparts s' neutral neutral := .fixed hs hs' hfixed
    have hessential := matches_essential hs hs' hneutral hmatch
    have hlength := length_eq_of_matches hessential hs hs' (ascends_essential neutral ms)
      (ascends_essential neutral ns)
    rcases ofMembers_cases neutral (essential neutral ms) with
      ⟨hnil, hc⟩ | ⟨t, hone, hc⟩ | ⟨htwo, hc⟩
    · rw [hnil] at hlength
      rw [hc, List.eq_nil_of_length_eq_zero hlength.symm]
      exact ret hs hs' hneutral
    · obtain ⟨u, hu, htu⟩ := hessential.1 t (hone ▸ List.mem_singleton_self t)
      rw [hone] at hlength
      obtain ⟨v, hv⟩ := List.length_eq_one_iff.1 hlength.symm
      rw [hv, List.mem_singleton] at hu
      rw [hc, hv, ← hu]
      exact ret hs hs' htu
    · have hnormal := combine_normal hcover hflat hfirst htwo
      have hnormal' := combine_normal hcover hflat' (hfind ▸ hfirst) (hlength ▸ htwo)
      have hc' := ofMembers_of_two neutral (hlength ▸ htwo)
      rw [hc, hc']
      exact stored hs hs' (hs.finish_many (hparts _) hform (fun t ht => by
          obtain ⟨u, -, htu⟩ := hessential.1 t ht
          exact htu.shaped.known) hnormal)
        (hs'.finish_many (hparts _) hform (fun u hu => by
          obtain ⟨t, -, htu⟩ := hessential.2 u hu
          exact htu.shaped'.known) hnormal') (halike hessential) (hshaped s _) (hshaped s' _)

theorem union (hlength : ts.length = us.length) (h : Matches (s.Counterparts s') ts us) :
    Parallel (TypeStore.union ts) (TypeStore.union us) s s' Counterparts := by
  match ts, us, hlength with
  | [], [], _ => exact ret hs hs' (.ofIntrinsic hs hs' .never)
  | [t], [u], _ => exact ret hs hs' (by simpa [Matches] using h)
  | t :: t' :: ts, u :: u' :: us, _ =>
    have hmembers := h.flatMap fun _ _ htu => htu.unionMembers hs hs'
    have hflat : ∀ v ∈ (t :: t' :: ts).flatMap s.unionMembers, s.kind v ≠ .union := by
      intro v hv
      obtain ⟨w, hw, hv⟩ := List.mem_flatMap.1 hv
      obtain ⟨_, -, hcounterpart⟩ := h.1 w hw
      exact (hs.unionMembers hcounterpart.shaped.known hv).2
    have hnever : TypeData.fixedId? (.intrinsic .never) = some TypeId.never := rfl
    have habsorbing : ∀ t ∈ [TypeId.error, .any, .unknown], t.isFixed := by decide
    have hfinish := finish_combine hs hs' .union hnever habsorbing (by decide) (fun _ => rfl)
      (fun hmem hnormal => ⟨hmem, hnormal⟩) .union (fun _ _ => trivial) hflat hmembers
    refine hfinish.congr ?_ ?_
    · rw [union_run _ (Nat.le_add_left ..), normalizeUnion_eq]
    · rw [union_run _ (Nat.le_add_left ..), normalizeUnion_eq]

theorem intersection (hlength : ts.length = us.length) (h : Matches (s.Counterparts s') ts us) :
    Parallel (TypeStore.intersection ts) (TypeStore.intersection us) s s' Counterparts := by
  match ts, us, hlength with
  | [], [], _ => exact ret hs hs' (.ofIntrinsic hs hs' .unknown)
  | [t], [u], _ => exact ret hs hs' (by simpa [Matches] using h)
  | t :: t' :: ts, u :: u' :: us, _ =>
    have hmembers := h.flatMap fun _ _ htu => htu.intersectionMembers hs hs'
    have hflat : ∀ v ∈ (t :: t' :: ts).flatMap s.intersectionMembers,
        s.kind v ≠ .intersection := by
      intro v hv
      obtain ⟨w, hw, hv⟩ := List.mem_flatMap.1 hv
      obtain ⟨_, -, hcounterpart⟩ := h.1 w hw
      exact (hs.intersectionMembers hcounterpart.shaped.known hv).2
    have hunknown : TypeData.fixedId? (.intrinsic .unknown) = some TypeId.unknown := rfl
    have habsorbing : ∀ t ∈ [TypeId.error, .never, .any], t.isFixed := by decide
    have hfinish := finish_combine hs hs' .intersection hunknown habsorbing (by decide)
      (fun _ => rfl) (fun hmem hnormal => ⟨hmem, hnormal⟩) .intersection (fun _ _ => trivial) hflat
      hmembers
    refine hfinish.congr ?_ ?_
    · rw [intersection_run _ (Nat.le_add_left ..), normalizeIntersection_eq]
    · rw [intersection_run _ (Nat.le_add_left ..), normalizeIntersection_eq]

theorem union2 (ht : s.Counterparts s' t u) (hv : s.Counterparts s' v w) :
    Parallel (TypeStore.union2 t v) (TypeStore.union2 u w) s s' Counterparts :=
  union hs hs' rfl (.of_forall₂ (.cons ht (.cons hv .nil)))

end Combining
end Parallel
end TemplateCheck

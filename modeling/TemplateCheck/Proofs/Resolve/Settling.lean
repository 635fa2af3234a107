import TemplateCheck.Proofs.Resolve.Legible

/-! Computations that make legible types of legible types: the constructors, and looking up a
property. -/

namespace TemplateCheck
open TypeStore

/-- Run in `r`, the computation leaves a sound store that has grown, where its result meets
`post`. -/
structure Settles {σ α : Type} (store : σ → TypeStore) (m : StateM σ α) (r : σ)
    (post : TypeStore → α → Prop) : Prop where
  sound : (store (m r).2).Sound
  grows : (store r).Grows (store (m r).2)
  result : post (store (m r).2) (m r).1

namespace Settles

section Steps
variable {σ α β : Type} {store : σ → TypeStore} {m : StateM σ α} {f : α → StateM σ β} {r : σ}
  {P : TypeStore → α → Prop} {Q : TypeStore → β → Prop}

theorem ret {a : α} (hs : (store r).Sound) (h : P (store r) a) :
    Settles store (pure a) r P :=
  ⟨hs, .refl _, h⟩

theorem bind (hm : Settles store m r P)
    (hf : ∀ a r', (store r').Sound → (store r).Grows (store r') → P (store r') a →
      Settles store (f a) r' Q) :
    Settles store (m >>= f) r Q := by
  obtain ⟨hsound, hgrows, hresult⟩ := hm
  obtain ⟨hsound', hgrows', hresult'⟩ := hf _ _ hsound hgrows hresult
  exact ⟨hsound', hgrows.trans hgrows', hresult'⟩

theorem map {g : α → β} (hm : Settles store m r P) (h : ∀ s a, P s a → Q s (g a)) :
    Settles store (g <$> m) r Q :=
  ⟨hm.sound, hm.grows, h _ _ hm.result⟩

end Steps

section Constructors
variable {pool : Proto.Pool} {s : TypeStore} {m : Making TypeId} {d : TypeData} {t u : TypeId}
  {types : List TypeId}

theorem of_stored (hs : s.Sound) (h : s.Stored (m s) d) (hform : s.LegibleForm pool d)
    (hparts : ∀ p ∈ d.parts, s.Legible pool p) : Settles id m s (Legible pool) :=
  ⟨h.sound, h.grows, .of_stored hs h hform hparts⟩

theorem intern (hs : s.Sound) (hrecorded : s.Recorded d) (hform : s.LegibleForm pool d)
    (hparts : ∀ p ∈ d.parts, s.Legible pool p) :
    Settles id (TypeStore.intern d) s (Legible pool) :=
  of_stored hs (hs.internParts hrecorded fun p hp => (hparts p hp).known) hform hparts

theorem list (hs : s.Sound) (h : s.Legible pool t) :
    Settles id (TypeStore.list t) s (Legible pool) :=
  intern (d := .list t) hs trivial trivial (List.forall_mem_singleton.2 h)

theorem set (hs : s.Sound) (h : s.Legible pool t) :
    Settles id (TypeStore.set t) s (Legible pool) :=
  intern (d := .set t) hs trivial trivial (List.forall_mem_singleton.2 h)

theorem iterable (hs : s.Sound) (h : s.Legible pool t) :
    Settles id (TypeStore.iterable t) s (Legible pool) :=
  intern (d := .iterable t) hs trivial trivial (List.forall_mem_singleton.2 h)

theorem mapType (hs : s.Sound) (h : s.Legible pool t) (h' : s.Legible pool u) :
    Settles id (TypeStore.map t u) s (Legible pool) :=
  intern (d := .map t u) hs trivial trivial
    (List.forall_mem_cons.2 ⟨h, List.forall_mem_singleton.2 h'⟩)

theorem legacyObjectMap (hs : s.Sound) (h : s.Legible pool t) (h' : s.Legible pool u) :
    Settles id (TypeStore.legacyObjectMap t u) s (Legible pool) :=
  intern (d := .legacyObjectMap t u) hs trivial trivial
    (List.forall_mem_cons.2 ⟨h, List.forall_mem_singleton.2 h'⟩)

theorem literal (hs : s.Sound) (value : String) :
    Settles id (TypeStore.literal value) s (Legible pool) :=
  intern (d := .literal value) hs trivial trivial (List.forall_mem_nil _)

theorem message (hs : s.Sound) {name : String} {m : Proto.Registered Proto.MessageDescriptor}
    (h : pool.message? name = some m) : Settles id (TypeStore.message m) s (Legible pool) := by
  obtain ⟨-, rfl⟩ := Proto.Pool.mem_of_message? h
  exact intern (d := .message m) hs trivial h (List.forall_mem_nil _)

theorem enum (hs : s.Sound) {name : String} {e : Proto.Registered Proto.EnumDescriptor}
    (h : pool.enum? name = some e) : Settles id (TypeStore.enum e) s (Legible pool) := by
  obtain ⟨-, rfl⟩ := Proto.Pool.mem_of_enum? h
  exact intern (d := .enum (.descriptor e)) hs trivial h (List.forall_mem_nil _)

theorem combined (hs : s.Sound) {form : List TypeId → TypeData} {k : Kind} {c : Combined}
    {neutral : TypeId} {absorbing members : List TypeId}
    (hrun : m s = finish form c s) (hparts : ∀ members, (form members).parts = members)
    (hform : ∀ {s : TypeStore} {members}, members ∈ s.lists → s.Normal k members →
      s.Recorded (form members))
    (hlegible : ∀ members, s.LegibleForm pool (form members)) (hneutral : s.Legible pool neutral)
    (hcover : ∀ t ∈ [TypeId.error, .any, .unknown, .never], t ≠ neutral → t ∈ absorbing)
    (hmembers : ∀ t ∈ members, s.Legible pool t ∧ s.kind t ≠ k)
    (hc : (∃ t ∈ absorbing, t ∈ members ∧ c = .one t) ∨
      (∀ t ∈ absorbing, t ∉ members) ∧ c = .ofMembers neutral (essential neutral members)) :
    Settles id m s (Legible pool) := by
  have hone {t : TypeId} (ht : s.Legible pool t) (hm : m s = (t, s)) :
      Settles id m s (Legible pool) := by
    refine ⟨?_, ?_, ?_⟩ <;> rw [hm]
    · exact hs
    · exact .refl s
    · exact ht
  rcases combined_cases hcover (fun t ht => (hmembers t ht).2) hc with
    ⟨t, rfl, rfl | ht⟩ | ⟨ns, rfl, hsub, hnormal⟩
  · exact hone hneutral hrun
  · exact hone (hmembers t ht).1 hrun
  · have hns : ∀ t ∈ ns, s.Legible pool t := fun t ht => (hmembers t (hsub t ht)).1
    have hstored := hs.finish_many (hparts ns) hform (fun t ht => (hns t ht).known) hnormal
    exact of_stored hs (hrun ▸ hstored) (hlegible ns) (by rwa [hparts])

theorem union (hs : s.Sound) (h : ∀ t ∈ types, s.Legible pool t) :
    Settles id (TypeStore.union types) s (Legible pool) := by
  match types with
  | [] => exact ret hs (.ofIntrinsic .never)
  | [t] => exact ret hs (h t (List.mem_singleton_self t))
  | t :: u :: rest =>
    refine combined hs (union_run _ (Nat.le_add_left ..) s) (fun _ => rfl)
      (fun hmem hnormal => ⟨hmem, hnormal⟩) (fun _ => trivial) (.ofIntrinsic .never) (by decide)
      (fun v hv => ?_) (normalizeUnion_cases _)
    obtain ⟨w, hw, hv⟩ := List.mem_flatMap.1 hv
    exact ⟨(h w hw).unionMember hs hv, (hs.unionMembers (h w hw).known hv).2⟩

theorem intersection (hs : s.Sound) (h : ∀ t ∈ types, s.Legible pool t) :
    Settles id (TypeStore.intersection types) s (Legible pool) := by
  match types with
  | [] => exact ret hs (.ofIntrinsic .unknown)
  | [t] => exact ret hs (h t (List.mem_singleton_self t))
  | t :: u :: rest =>
    refine combined hs (intersection_run _ (Nat.le_add_left ..) s) (fun _ => rfl)
      (fun hmem hnormal => ⟨hmem, hnormal⟩) (fun _ => trivial) (.ofIntrinsic .unknown) (by decide)
      (fun v hv => ?_) (normalizeIntersection_cases _)
    obtain ⟨w, hw, hv⟩ := List.mem_flatMap.1 hv
    exact ⟨(h w hw).intersectionMember hs hv, (hs.intersectionMembers (h w hw).known hv).2⟩

theorem union2 (hs : s.Sound) (h : s.Legible pool t) (h' : s.Legible pool u) :
    Settles id (TypeStore.union2 t u) s (Legible pool) :=
  union hs (List.forall_mem_cons.2 ⟨h, List.forall_mem_singleton.2 h'⟩)

theorem element (hs : s.Sound) {tag : String} (hplain : TypeExpr.IsPlainName tag ∨ tag = "?")
    (hkeyword : tag ∉ ["null", "undefined", "true", "false"]) :
    Settles id (TypeStore.element tag) s (Legible pool) := by
  refine of_stored hs (hs.element tag) ?_ (List.forall_mem_nil _)
  cases htag : elementTag tag with
  | named name =>
    rw [elementTag] at htag
    split at htag
    · cases htag
    next hspecial =>
      split at htag
      · cases htag
      next hany =>
        cases htag
        have hplain := hplain.resolve_right fun h => hspecial (.inr h)
        exact ⟨hplain, hkeyword, by rw [elementTag, if_neg hspecial, if_neg hany]⟩
  | _ => trivial

theorem record (hs : s.Sound) {properties : List (RecordProperty TypeId)}
    (h : ∀ p ∈ properties, TypeExpr.IsPlainName p.name ∧ s.Legible pool p.type)
    (hnodup : (properties.map (·.name)).Nodup) :
    Settles id (TypeStore.record properties) s (Legible pool) := by
  obtain ⟨known, hperm, hstored⟩ := hs.record (fun p hp => (h p hp).2.known) hnodup
  have hmem : ∀ p ∈ known, TypeExpr.IsPlainName p.name ∧ s.Legible pool p.type :=
    fun p hp => h p (hperm.mem_iff.1 hp)
  exact of_stored hs hstored (fun p hp => (hmem p hp).1)
    (List.forall_mem_map.2 fun p hp => (hmem p hp).2)

theorem template (hs : s.Sound) {parameters : List (TemplateParameter TypeId)} {result : TypeId}
    (h : ∀ p ∈ parameters, p.Written ∧ s.Legible pool p.type)
    (hnodup : (parameters.map (·.name)).Nodup) (hresult : s.Legible pool result)
    (hkind : Resolving.isTemplateResult (s.kind result)) :
    Settles id (TypeStore.template parameters result) s (Legible pool) := by
  have hstored := hs.template (fun p hp => (h p hp).2.known) hresult.known
  refine of_stored hs hstored ⟨fun p hp => (h p hp).1, hnodup, hkind⟩ ?_
  exact List.forall_mem_append.2 ⟨List.forall_mem_map.2 fun p hp => (h p hp).2,
    List.forall_mem_singleton.2 hresult⟩

theorem function (hs : s.Sound) {parameters : List (FunctionParameter TypeId)} {result : TypeId}
    (h : ∀ p ∈ parameters, TypeExpr.IsPlainName p.name ∧ s.Legible pool p.type)
    (hnodup : (parameters.map (·.name)).Nodup) (hresult : s.Legible pool result) :
    Settles id (TypeStore.function parameters result) s (Legible pool) := by
  have hstored := hs.function (fun p hp => (h p hp).2.known) hresult.known
  refine of_stored hs hstored ⟨fun p hp => (h p hp).1, hnodup⟩ ?_
  exact List.forall_mem_append.2 ⟨List.forall_mem_map.2 fun p hp => (h p hp).2,
    List.forall_mem_singleton.2 hresult⟩

end Constructors

section Properties
variable {pool : Proto.Pool} {s : TypeStore} {t : TypeId}

theorem fieldType (hs : s.Sound) (type : Proto.FieldType) :
    Settles id (type.typeId pool) s (Legible pool) := by
  cases type with
  | bool => exact ret hs (.ofIntrinsic .bool)
  | int32 | int64 | uint32 | uint64 => exact ret hs (.ofIntrinsic .int)
  | float | double => exact ret hs (.ofIntrinsic .float)
  | string | bytes => exact ret hs (.ofIntrinsic .string)
  | message name =>
    rw [Proto.FieldType.typeId]
    split
    next m hm => exact message hs hm
    next => exact ret hs .error
  | enum name =>
    rw [Proto.FieldType.typeId]
    split
    next e he => exact enum hs he
    next => exact ret hs .error

theorem field (hs : s.Sound) (f : Proto.Field) :
    Settles id (f.typeId pool) s (Legible pool) := by
  rw [Proto.Field.typeId]
  split
  next type _ => exact fieldType hs type
  next type _ => exact (fieldType hs type).bind fun t s' hs' _ ht => list hs' ht
  next key value _ =>
    refine (fieldType hs key).bind fun t s₁ hs₁ _ ht => ?_
    exact (fieldType hs₁ value).bind fun u s₂ hs₂ hgrows hu => mapType hs₂ (ht.grows hs₁ hgrows) hu

def LegibleResult (pool : Proto.Pool) (s : TypeStore) : PropertyResult → Prop
  | .found t => s.Legible pool t
  | _ => True

def LegibleResults (pool : Proto.Pool) (s : TypeStore) :
    Except PropertyResult (List TypeId) → Prop
  | .ok types => ∀ t ∈ types, s.Legible pool t
  | .error result => LegibleResult pool s result

theorem ofPart (hs : s.Sound) (optional : Bool) (h : s.Legible pool t) :
    Settles id (PropertyResult.ofPart optional t) s (LegibleResult pool) := by
  unfold PropertyResult.ofPart
  split
  · exact (union2 hs h (.ofIntrinsic .undefined)).bind fun u s' hs' _ hu => ret hs' hu
  · exact ret hs h

theorem collect {one : TypeId → Making PropertyResult} (types : List TypeId)
    (h : ∀ t ∈ types, ∀ s' : TypeStore, s'.Sound → s.Grows s' →
      Settles id (one t) s' (LegibleResult pool)) (hs : s.Sound) :
    Settles id (PropertyResult.collect one types) s (LegibleResults pool) := by
  induction types generalizing s with
  | nil => exact ret hs (List.forall_mem_nil _)
  | cons t rest ih =>
    obtain ⟨ht, hrest⟩ := List.forall_mem_cons.1 h
    refine (ht s hs (.refl s)).bind fun result s₁ hs₁ hgrows₁ hresult => ?_
    split
    next u =>
      have hmore := ih (fun t ht s' hs' hgrows => hrest t ht s' hs' (hgrows₁.trans hgrows)) hs₁
      refine hmore.bind fun results s₂ hs₂ hgrows₂ hresults => ?_
      split
      next us => exact ret hs₂ (List.forall_mem_cons.2 ⟨hresult.grows hs₁ hgrows₂, hresults⟩)
      next result => exact ret hs₂ hresults
    next => exact ret hs₁ hresult

theorem ofForm (hs : s.Sound) (h : s.Legible pool t) (property : String) :
    Settles id (PropertyResult.ofForm pool property (s.data t)) s (LegibleResult pool) := by
  have hpart {u} (hu : u ∈ (s.data t).parts) : s.Legible pool u := h.part hs hu
  unfold PropertyResult.ofForm
  split
  · exact ret hs .error
  next properties hd =>
    split
    next p hfind =>
      refine ofPart hs p.optional (hpart ?_)
      rw [hd]
      exact List.mem_map_of_mem (List.mem_of_find?_eq_some hfind)
    next => exact ret hs trivial
  next shape hd =>
    split
    next p hfind =>
      refine ofPart hs (!p.required) (hpart ?_)
      rw [hd]
      exact List.mem_append_left _ (List.mem_map_of_mem (List.mem_of_find?_eq_some hfind))
    next => exact ret hs trivial
  next m _ =>
    split
    next f _ => exact (field hs f).bind fun u s' hs' _ hu => ret hs' hu
    next => exact ret hs trivial
  next => exact ret hs trivial

theorem within (hs : s.Sound) (h : s.Legible pool t) (property : String) (depth : Nat) :
    Settles id (PropertyResult.within pool property depth t) s (LegibleResult pool) := by
  induction depth generalizing s t with
  | zero => exact ret hs .error
  | succ depth ih =>
    have hget : Settles id (get : Making TypeStore) s fun s' a => a = s' := ⟨hs, .refl s, rfl⟩
    refine hget.bind fun now s' hs' hgrows hnow => ?_
    subst hnow
    have h : now.Legible pool t := h.grows hs hgrows
    split
    next members hd =>
      have hmembers : ∀ u ∈ members, now.Legible pool u := fun u hu => h.part hs' (by rwa [hd])
      refine (collect members (fun u hu s₁ hs₁ hgrows₁ => ih hs₁ ?_) hs').bind
        fun results s₂ hs₂ _ hresults => ?_
      · exact (hmembers u hu).grows hs' hgrows₁
      · split
        next types => exact (union hs₂ hresults).bind fun u s₃ hs₃ _ hu => ret hs₃ hu
        next result => exact ret hs₂ hresults
    next => exact ofForm hs' h property

theorem property (hs : s.Sound) (h : s.Legible pool t) (name : String) :
    Settles id (TypeStore.property pool t name) s (LegibleResult pool) := by
  have hget : Settles id (get : Making TypeStore) s fun s' a => a = s' := ⟨hs, .refl s, rfl⟩
  exact hget.bind fun a s' hs' hgrows _ => within hs' (h.grows hs hgrows) name _

end Properties
end Settles
end TemplateCheck

import TemplateCheck.Proofs.Resolve.Legible
import TemplateCheck.Proofs.Types.Fitting
import TemplateCheck.Proofs.Types.Steady

/-! Types that have a meaning all through, for as long as nothing is known to lack one. Making types
of such types, and looking up properties of them, leads to such types again. -/

namespace TemplateCheck
open TypeStore

def Proto.FieldType.inPool (pool : Pool) : FieldType → Bool
  | message name => (pool.message? name).isSome
  | enum name => (pool.enum? name).isSome
  | _ => true

def Proto.FieldLabel.types : FieldLabel → List FieldType
  | singular type => [type]
  | repeated type => [type]
  | map key value => [key, value]

def Proto.Pool.Closed (pool : Pool) : Prop :=
  ∀ m ∈ pool.messages, ∀ f ∈ m.fields, ∀ type ∈ f.label.types, type.inPool pool

namespace TypeStore
variable {pool : Proto.Pool} {G G' : Prop} {s s' : TypeStore} {t u : TypeId} {d : TypeData}

def Meant (pool : Proto.Pool) : TypeData → Prop
  | .error => False
  | .message m => pool.message? m.descriptor.name = some m
  | _ => True

structure Sensible (pool : Proto.Pool) (G : Prop) (s : TypeStore) (t : TypeId) : Prop where
  known : s.Known t
  meant : G → s.Throughout (Meant pool) t

theorem Grows.throughout {P : TypeData → Prop} (hgrows : s.Grows s') (hs : s.Sound)
    (ht : s.Known t) (h : s.Throughout P t) : s'.Throughout P t := by
  induction h with
  | intro hform _ ih =>
    have hdata := hgrows.data ht
    exact .of_data hdata hform fun p hp => ih p hp (hs.known_part ht hp)

namespace Sensible

theorem mono (h : s.Sensible pool G t) (hG : G' → G) : s.Sensible pool G' t :=
  ⟨h.known, fun hG' => h.meant (hG hG')⟩

theorem grows (h : s.Sensible pool G t) (hs : s.Sound) (hgrows : s.Grows s') :
    s'.Sensible pool G t :=
  ⟨hgrows.known h.known, fun hG => hgrows.throughout hs h.known (h.meant hG)⟩

theorem part (h : s.Sensible pool G t) (hs : s.Sound) {p : TypeId} (hp : p ∈ (s.data t).parts) :
    s.Sensible pool G p := by
  refine ⟨hs.known_part h.known hp, fun hG => ?_⟩
  cases h.meant hG with
  | intro _ hparts => exact hparts p hp

theorem form (h : s.Sensible pool G t) (hG : G) : Meant pool (s.data t) := by
  cases h.meant hG with
  | intro h => exact h

theorem of_lookup (hd : s.lookup t = some d) (hform : G → Meant pool d)
    (hparts : ∀ p ∈ d.parts, s.Sensible pool G p) : s.Sensible pool G t :=
  ⟨⟨d, hd⟩, fun hG => .of_data (data_of_lookup hd) (hform hG) fun p hp => (hparts p hp).meant hG⟩

theorem of_fixed (hd : d.fixedId? = some t) (hform : Meant pool d) : s.Sensible pool G t := by
  refine .of_lookup (s.lookup_fixed hd) (fun _ => hform) ?_
  rw [parts_of_fixedId? hd]
  exact List.forall_mem_nil _

theorem ofIntrinsic (kind : Intrinsic) : s.Sensible pool G (.ofIntrinsic kind) :=
  of_fixed (d := .intrinsic kind) rfl trivial

theorem error (hG : ¬G) : s.Sensible pool G .error :=
  ⟨s.known_fixed (d := .error) rfl, fun h => absurd h hG⟩

end Sensible
end TypeStore

theorem run_bind_congr {σ α β : Type} {m m' : StateM σ α} {f f' : α → StateM σ β} {s : σ}
    (hm : m s = m' s) (hf : f (m' s).1 (m' s).2 = f' (m' s).1 (m' s).2) :
    (m >>= f) s = (m' >>= f') s := by
  change f (m s).1 (m s).2 = f' (m' s).1 (m' s).2
  rw [hm, hf]

theorem run_bind_eq {σ α β : Type} {m : StateM σ α} {a : α} {s s' : σ} (hm : m s = (a, s'))
    (f : α → StateM σ β) : (m >>= f) s = f a s' := by
  change f (m s).1 (m s).2 = f a s'
  rw [hm]

theorem run_get_bind {σ α : Type} (f : σ → StateM σ α) (s : σ) : (get >>= f) s = f s s := rfl

namespace Steady
variable {pool : Proto.Pool} {G : Prop} {s : TypeStore} {t u : TypeId} {types : List TypeId}

section Constructors
variable {d : TypeData}

theorem form (hs : s.Sound) (hrecorded : s.Recorded d) (hmeant : Meant pool d)
    (hparts : ∀ p ∈ d.parts, s.Sensible pool G p) :
    Steady (TypeStore.intern d) s (Sensible pool G) := by
  refine (intern hs ⟨fun p hp => (hparts p hp).known, hrecorded⟩).mono fun s' t hs' hgrows hd => ?_
  exact .of_lookup hd (fun _ => hmeant) fun p hp => (hparts p hp).grows hs hgrows

theorem list (hs : s.Sound) (ht : s.Sensible pool G t) :
    Steady (TypeStore.list t) s (Sensible pool G) :=
  form (d := .list t) hs trivial trivial (List.forall_mem_singleton.2 ht)

theorem set (hs : s.Sound) (ht : s.Sensible pool G t) :
    Steady (TypeStore.set t) s (Sensible pool G) :=
  form (d := .set t) hs trivial trivial (List.forall_mem_singleton.2 ht)

theorem iterable (hs : s.Sound) (ht : s.Sensible pool G t) :
    Steady (TypeStore.iterable t) s (Sensible pool G) :=
  form (d := .iterable t) hs trivial trivial (List.forall_mem_singleton.2 ht)

theorem mapType (hs : s.Sound) (ht : s.Sensible pool G t) (hu : s.Sensible pool G u) :
    Steady (TypeStore.map t u) s (Sensible pool G) :=
  form (d := .map t u) hs trivial trivial
    (List.forall_mem_cons.2 ⟨ht, List.forall_mem_singleton.2 hu⟩)

theorem legacyObjectMap (hs : s.Sound) (ht : s.Sensible pool G t) (hu : s.Sensible pool G u) :
    Steady (TypeStore.legacyObjectMap t u) s (Sensible pool G) :=
  form (d := .legacyObjectMap t u) hs trivial trivial
    (List.forall_mem_cons.2 ⟨ht, List.forall_mem_singleton.2 hu⟩)

theorem literal (hs : s.Sound) (value : String) :
    Steady (TypeStore.literal value) s (Sensible pool G) :=
  form (d := .literal value) hs trivial trivial (List.forall_mem_nil _)

theorem element (hs : s.Sound) (tag : String) :
    Steady (TypeStore.element tag) s (Sensible pool G) := by
  unfold TypeStore.element
  split
  · exact ret hs (.of_fixed (d := .element .wildcard) rfl trivial)
  · split
    · exact ret hs (.of_fixed (d := .element .any) rfl trivial)
    · exact form (d := .element (.named tag)) hs trivial trivial (List.forall_mem_nil _)

theorem message (hs : s.Sound) {name : String} {m : Proto.Registered Proto.MessageDescriptor}
    (hm : pool.message? name = some m) : Steady (TypeStore.message m) s (Sensible pool G) := by
  obtain ⟨-, rfl⟩ := Proto.Pool.mem_of_message? hm
  exact form (d := .message m) hs trivial hm (List.forall_mem_nil _)

theorem enum (hs : s.Sound) (e : Proto.Registered Proto.EnumDescriptor) :
    Steady (TypeStore.enum e) s (Sensible pool G) :=
  form (d := .enum (.descriptor e)) hs trivial trivial (List.forall_mem_nil _)

theorem record (hs : s.Sound) {properties : List (RecordProperty TypeId)}
    (h : ∀ p ∈ properties, s.Sensible pool G p.type) (hnames : (properties.map (·.name)).Nodup) :
    Steady (TypeStore.record properties) s (Sensible pool G) := by
  refine (recordShape hs properties).bind fun known s' hs' hgrows ⟨hmem, hperm⟩ => ?_
  refine form (d := .record known) hs' ⟨hmem, (hperm.map _).nodup_iff.2 hnames⟩ trivial ?_
  exact List.forall_mem_map.2 fun p hp => (h p (hperm.mem_iff.1 hp)).grows hs hgrows

theorem template (hs : s.Sound) {parameters : List (TemplateParameter TypeId)} {result : TypeId}
    (h : ∀ p ∈ parameters, s.Sensible pool G p.type) (hresult : s.Sensible pool G result) :
    Steady (TypeStore.template parameters result) s (Sensible pool G) := by
  refine (rememberTemplate hs ⟨parameters, result⟩).bind fun _ s' hs' hgrows hmem => ?_
  refine form (d := .template ⟨parameters, result⟩) hs' hmem trivial ?_
  exact List.forall_mem_append.2 ⟨List.forall_mem_map.2 fun p hp => (h p hp).grows hs hgrows,
    List.forall_mem_singleton.2 (hresult.grows hs hgrows)⟩

theorem function (hs : s.Sound) {parameters : List (FunctionParameter TypeId)} {result : TypeId}
    (h : ∀ p ∈ parameters, s.Sensible pool G p.type) (hresult : s.Sensible pool G result) :
    Steady (TypeStore.function parameters result) s (Sensible pool G) := by
  refine (rememberFunction hs ⟨parameters, result⟩).bind fun _ s' hs' hgrows hmem => ?_
  refine form (d := .function ⟨parameters, result⟩) hs' hmem trivial ?_
  exact List.forall_mem_append.2 ⟨List.forall_mem_map.2 fun p hp => (h p hp).grows hs hgrows,
    List.forall_mem_singleton.2 (hresult.grows hs hgrows)⟩

theorem combined (hs : s.Sound) {k : Kind} {c : Combined} {neutral : TypeId}
    {F : List TypeId → TypeData} {absorbing members : List TypeId}
    (hparts : ∀ members, (F members).parts = members)
    (hform : ∀ {s : TypeStore} {members}, members ∈ s.lists → s.Normal k members →
      s.Recorded (F members))
    (hmeant : ∀ members, Meant pool (F members)) (hneutral : s.Sensible pool G neutral)
    (hcover : ∀ t ∈ [TypeId.error, .any, .unknown, .never], t ≠ neutral → t ∈ absorbing)
    (hmembers : ∀ t ∈ members, s.Sensible pool G t ∧ s.kind t ≠ k)
    (hc : (∃ t ∈ absorbing, t ∈ members ∧ c = .one t) ∨
      (∀ t ∈ absorbing, t ∉ members) ∧ c = .ofMembers neutral (essential neutral members)) :
    Steady (finish F c) s (Sensible pool G) := by
  rcases combined_cases hcover (fun t ht => (hmembers t ht).2) hc with
    ⟨t, rfl, rfl | ht⟩ | ⟨ns, rfl, hsub, hnormal⟩
  · exact ret hs hneutral
  · exact ret hs (hmembers t ht).1
  · have hns : ∀ t ∈ ns, s.Sensible pool G t := fun t ht => (hmembers t (hsub t ht)).1
    refine (rememberList hs ns).bind fun _ s' hs' hgrows hmem => ?_
    have hnormal := hgrows.normal (fun t ht => (hns t ht).known) hnormal
    refine Steady.form hs' (hform hmem hnormal) (hmeant ns) fun t ht => ?_
    rw [hparts] at ht
    exact (hns t ht).grows hs hgrows

theorem union (hs : s.Sound) (h : ∀ t ∈ types, s.Sensible pool G t) :
    Steady (TypeStore.union types) s (Sensible pool G) := by
  match types with
  | [] => exact ret hs (.ofIntrinsic .never)
  | [t] => exact ret hs (h t (List.mem_singleton_self t))
  | t :: u :: rest =>
    have hmember {w v} (hw : w ∈ t :: u :: rest) (hv : v ∈ s.unionMembers w) :
        s.Sensible pool G v ∧ s.kind v ≠ .union := by
      refine ⟨?_, (hs.unionMembers (h w hw).known hv).2⟩
      rcases mem_unionMembers.1 hv with ⟨members, hd, hv⟩ | ⟨-, rfl⟩
      · exact (h w hw).part hs (by rwa [hd])
      · exact h v hw
    have hneutral : s.Sensible pool G .never := .ofIntrinsic .never
    have hfinish := combined hs (F := .union) (fun _ => rfl)
      (fun hmem hnormal => ⟨hmem, hnormal⟩) (fun _ => trivial)
      hneutral (by decide) (fun v hv => by
        obtain ⟨w, hw, hv⟩ := List.mem_flatMap.1 hv
        exact hmember hw hv) (normalizeUnion_cases _)
    refine hfinish.congr (fun s' _ hgrows => ?_) hs
    rw [union_run _ (Nat.le_add_left ..)]
    congr 2
    exact List.flatMap_congr fun w hw => hgrows.unionMembers_eq (h w hw).known

theorem intersection (hs : s.Sound) (h : ∀ t ∈ types, s.Sensible pool G t) :
    Steady (TypeStore.intersection types) s (Sensible pool G) := by
  match types with
  | [] => exact ret hs (.ofIntrinsic .unknown)
  | [t] => exact ret hs (h t (List.mem_singleton_self t))
  | t :: u :: rest =>
    have hmember {w v} (hw : w ∈ t :: u :: rest) (hv : v ∈ s.intersectionMembers w) :
        s.Sensible pool G v ∧ s.kind v ≠ .intersection := by
      refine ⟨?_, (hs.intersectionMembers (h w hw).known hv).2⟩
      rcases mem_intersectionMembers.1 hv with ⟨members, hd, hv⟩ | ⟨-, rfl⟩
      · exact (h w hw).part hs (by rwa [hd])
      · exact h v hw
    have hneutral : s.Sensible pool G .unknown := .ofIntrinsic .unknown
    have hfinish := combined hs (F := .intersection) (fun _ => rfl)
      (fun hmem hnormal => ⟨hmem, hnormal⟩) (fun _ => trivial)
      hneutral (by decide) (fun v hv => by
        obtain ⟨w, hw, hv⟩ := List.mem_flatMap.1 hv
        exact hmember hw hv) (normalizeIntersection_cases _)
    refine hfinish.congr (fun s' _ hgrows => ?_) hs
    rw [intersection_run _ (Nat.le_add_left ..)]
    congr 2
    refine List.flatMap_congr fun w hw => ?_
    rw [intersectionMembers, intersectionMembers, hgrows.data (h w hw).known]

theorem union2 (hs : s.Sound) (ht : s.Sensible pool G t) (hu : s.Sensible pool G u) :
    Steady (TypeStore.union2 t u) s (Sensible pool G) :=
  union hs (List.forall_mem_cons.2 ⟨ht, List.forall_mem_singleton.2 hu⟩)

end Constructors

section Properties

theorem fieldType (hs : s.Sound) {type : Proto.FieldType} (htype : G → type.inPool pool) :
    Steady (type.typeId pool) s (Sensible pool G) := by
  cases type with
  | bool => exact ret hs (.ofIntrinsic .bool)
  | int32 | int64 | uint32 | uint64 => exact ret hs (.ofIntrinsic .int)
  | float | double => exact ret hs (.ofIntrinsic .float)
  | string | bytes => exact ret hs (.ofIntrinsic .string)
  | message name =>
    rw [Proto.FieldType.typeId]
    cases hm : pool.message? name with
    | some m => exact message hs hm
    | none =>
      refine ret hs (.error fun hG => ?_)
      have hsome : (pool.message? name).isSome := htype hG
      rw [hm] at hsome
      cases hsome
  | enum name =>
    rw [Proto.FieldType.typeId]
    cases he : pool.enum? name with
    | some e => exact enum hs e
    | none =>
      refine ret hs (.error fun hG => ?_)
      have hsome : (pool.enum? name).isSome := htype hG
      rw [he] at hsome
      cases hsome

theorem field (hs : s.Sound) {f : Proto.Field}
    (hf : G → ∀ type ∈ f.label.types, type.inPool pool) :
    Steady (f.typeId pool) s (Sensible pool G) := by
  rw [Proto.Field.typeId]
  cases hlabel : f.label with
  | singular type =>
    exact fieldType hs fun hG => hf hG type (by simp [hlabel, Proto.FieldLabel.types])
  | repeated type =>
    have htype := fieldType (G := G) hs fun hG =>
      hf hG type (by simp [hlabel, Proto.FieldLabel.types])
    exact htype.bind fun t s' hs' _ ht => list hs' ht
  | map key value =>
    have hkey := fieldType (G := G) hs fun hG =>
      hf hG key (by simp [hlabel, Proto.FieldLabel.types])
    refine hkey.bind fun t s₁ hs₁ _ ht => ?_
    have hvalue := fieldType (G := G) hs₁ fun hG =>
      hf hG value (by simp [hlabel, Proto.FieldLabel.types])
    exact hvalue.bind fun u s₂ hs₂ hgrows hu => mapType hs₂ (ht.grows hs₁ hgrows) hu

def SensibleResult (pool : Proto.Pool) (G : Prop) (s : TypeStore) : PropertyResult → Prop
  | .found t => s.Sensible pool G t
  | _ => True

def SensibleResults (pool : Proto.Pool) (G : Prop) (s : TypeStore) :
    Except PropertyResult (List TypeId) → Prop
  | .ok types => ∀ t ∈ types, s.Sensible pool G t
  | .error result => SensibleResult pool G s result

theorem ofPart (hs : s.Sound) (optional : Bool) (ht : s.Sensible pool G t) :
    Steady (PropertyResult.ofPart optional t) s (SensibleResult pool G) := by
  unfold PropertyResult.ofPart
  split
  · exact (union2 hs ht (.ofIntrinsic .undefined)).bind fun u s' hs' _ hu => ret hs' hu
  · exact ret hs ht

theorem collect {one : TypeId → Making PropertyResult} (types : List TypeId)
    (h : ∀ t ∈ types, ∀ s' : TypeStore, s'.Sound → s.Grows s' →
      Steady (one t) s' (SensibleResult pool G)) (hs : s.Sound) :
    Steady (PropertyResult.collect one types) s (SensibleResults pool G) := by
  induction types generalizing s with
  | nil => exact ret hs (List.forall_mem_nil _)
  | cons t rest ih =>
    obtain ⟨ht, hrest⟩ := List.forall_mem_cons.1 h
    refine (ht s hs (.refl s)).bind fun result s₁ hs₁ hgrows₁ hresult => ?_
    cases result with
    | found u =>
      have hmore := ih (fun t ht s' hs' hgrows => hrest t ht s' hs' (hgrows₁.trans hgrows)) hs₁
      refine hmore.bind fun results s₂ hs₂ hgrows₂ hresults => ?_
      cases results with
      | ok us => exact ret hs₂ (List.forall_mem_cons.2 ⟨hresult.grows hs₁ hgrows₂, hresults⟩)
      | error result => exact ret hs₂ hresults
    | missing => exact ret hs₁ hresult
    | notIndexable => exact ret hs₁ hresult

theorem field_inPool (hpool : G → pool.Closed) (ht : s.Sensible pool G t)
    {m : Proto.Registered Proto.MessageDescriptor} (hd : s.data t = .message m)
    {name : String} {f : Proto.Field} (hf : m.descriptor.field? name = some f) (hG : G) :
    ∀ type ∈ f.label.types, type.inPool pool := by
  have hform := ht.form hG
  rw [hd] at hform
  exact hpool hG _ (Proto.Pool.mem_of_message? hform).1 f (List.mem_of_find?_eq_some hf)

theorem ofForm (hs : s.Sound) (hpool : G → pool.Closed) (ht : s.Sensible pool G t)
    (property : String) :
    Steady (PropertyResult.ofForm pool property (s.data t)) s (SensibleResult pool G) := by
  have hpart {u} (hu : u ∈ (s.data t).parts) : s.Sensible pool G u := ht.part hs hu
  unfold PropertyResult.ofForm
  split
  next hd => exact ret hs (.error fun hG => by simpa [hd, Meant] using ht.form hG)
  next properties hd =>
    split
    next p hfind =>
      refine ofPart hs p.optional (hpart ?_)
      rw [hd]
      exact List.mem_map_of_mem (List.mem_of_find?_eq_some hfind)
    next => exact ret hs trivial
  next shape hd =>
    split
    next p hfind =>
      refine ofPart hs (!p.required) (hpart ?_)
      rw [hd]
      exact List.mem_append_left _ (List.mem_map_of_mem (List.mem_of_find?_eq_some hfind))
    next => exact ret hs trivial
  next m hd =>
    split
    next f hfind =>
      exact (field hs (field_inPool hpool ht hd hfind)).bind fun u s' hs' _ hu => ret hs' hu
    next => exact ret hs trivial
  next => exact ret hs trivial

theorem within_of_not_union {property : String} {n : Nat} (h : s.kind t ≠ .union) :
    PropertyResult.within pool property (n + 1) t s =
      PropertyResult.ofForm pool property (s.data t) s := by
  rw [kind] at h
  rw [PropertyResult.within, run_get_bind]
  cases hd : s.data t with
  | union members => exact absurd (congrArg TypeForm.kind hd) h
  | _ => rfl

def ofMembers (one : TypeId → Making PropertyResult) (members : List TypeId) :
    Making PropertyResult := do
  match ← PropertyResult.collect one members with
  | .ok types => return .found (← TypeStore.union types)
  | .error result => return result

theorem within_union {property : String} {n : Nat} {members : List TypeId}
    (hd : s.data t = .union members) :
    PropertyResult.within pool property (n + 1) t s =
      ofMembers (PropertyResult.within pool property n) members s := by
  rw [PropertyResult.within, run_get_bind, hd]
  rfl

theorem collect_congr {f g : TypeId → Making PropertyResult}
    {P : TypeStore → PropertyResult → Prop} (types : List TypeId)
    (hfg : ∀ t ∈ types, ∀ s' : TypeStore, s'.Sound → s.Grows s' → f t s' = g t s')
    (hg : ∀ t ∈ types, ∀ s' : TypeStore, s'.Sound → s.Grows s' → Steady (g t) s' P)
    (hs : s.Sound) :
    PropertyResult.collect f types s = PropertyResult.collect g types s := by
  induction types generalizing s with
  | nil => rfl
  | cons t rest ih =>
    have hfirst := hfg t (List.mem_cons_self ..) s hs (.refl s)
    have hsteady := hg t (List.mem_cons_self ..) s hs (.refl s)
    have hrest := ih
      (fun u hu s' hs' hgrows => hfg u (List.mem_cons_of_mem _ hu) s' hs'
        (hsteady.grows.trans hgrows))
      (fun u hu s' hs' hgrows => hg u (List.mem_cons_of_mem _ hu) s' hs'
        (hsteady.grows.trans hgrows)) hsteady.sound
    rw [PropertyResult.collect, PropertyResult.collect]
    refine run_bind_congr hfirst ?_
    cases (g t s).1 with
    | found u => exact run_bind_congr hrest rfl
    | missing => rfl
    | notIndexable => rfl

theorem within_plain (hs : s.Sound) (hpool : G → pool.Closed) (ht : s.Sensible pool G t)
    (hkind : s.kind t ≠ .union) (property : String) (n : Nat) :
    Steady (PropertyResult.within pool property (n + 1) t) s (SensibleResult pool G) := by
  refine (ofForm hs hpool ht property).congr (fun s' _ hgrows => ?_) hs
  have hdata := hgrows.data ht.known
  rw [within_of_not_union (by rwa [kind, hdata]), hdata]

theorem member (hs : s.Sound) (ht : s.Sensible pool G t) {members : List TypeId}
    (hd : s.data t = .union members) (hu : u ∈ members) {s' : TypeStore} (hgrows : s.Grows s') :
    s'.Sensible pool G u ∧ s'.kind u ≠ .union := by
  have hu' : s.Sensible pool G u := ht.part hs (by rwa [hd])
  refine ⟨hu'.grows hs hgrows, ?_⟩
  rw [kind, hgrows.data hu'.known]
  exact (hs.union_normal ht.known hd).flat u hu

/-- Two levels are enough, since the members of a union are no unions. -/
theorem within_eq (hs : s.Sound) (hpool : G → pool.Closed) (ht : s.Sensible pool G t)
    (property : String) (n : Nat) (hn : n ≠ 0 ∨ s.kind t ≠ .union) :
    PropertyResult.within pool property (n + 1) t s =
      PropertyResult.within pool property 2 t s := by
  rcases Assignable.kind_cases s t with ⟨members, hd⟩ | ⟨hkind, -⟩
  · have hkind : s.kind t = .union := by
      rw [kind, hd]
      rfl
    obtain ⟨n, rfl⟩ := Nat.exists_eq_succ_of_ne_zero (hn.resolve_right fun h => h hkind)
    have hcollect : PropertyResult.collect (PropertyResult.within pool property (n + 1)) members s =
        PropertyResult.collect (PropertyResult.within pool property 1) members s := by
      refine collect_congr (P := SensibleResult pool G) members (fun u hu s' _ hgrows => ?_)
        (fun u hu s' hs' hgrows => ?_) hs
      · obtain ⟨-, hplain⟩ := member hs ht hd hu hgrows
        rw [within_of_not_union hplain, within_of_not_union hplain]
      · obtain ⟨hu', hplain⟩ := member hs ht hd hu hgrows
        exact within_plain hs' hpool hu' hplain property 0
    rw [within_union hd, within_union hd]
    exact run_bind_congr hcollect rfl
  · rw [within_of_not_union hkind, within_of_not_union hkind]

theorem within (hs : s.Sound) (hpool : G → pool.Closed) (ht : s.Sensible pool G t)
    (property : String) :
    Steady (PropertyResult.within pool property 2 t) s (SensibleResult pool G) := by
  rcases Assignable.kind_cases s t with ⟨members, hd⟩ | ⟨hkind, -⟩
  · have hcollect := collect members (fun u hu s' hs' hgrows => by
      obtain ⟨hu', hplain⟩ := member hs ht hd hu hgrows
      exact within_plain hs' hpool hu' hplain property 0) hs
    have hmembers : Steady (ofMembers (PropertyResult.within pool property 1) members) s
        (SensibleResult pool G) := by
      refine hcollect.bind fun results s₁ hs₁ _ hresults => ?_
      cases results with
      | ok types => exact (union hs₁ hresults).bind fun u s₂ hs₂ _ hu => ret hs₂ hu
      | error result => exact ret hs₁ hresults
    refine hmembers.congr (fun s' _ hgrows => ?_) hs
    exact within_union ((hgrows.data ht.known).trans hd)
  · exact within_plain hs hpool ht hkind property 1

theorem nesting_of_union (hs : s.Sound) (ht : s.Known t) (hkind : s.kind t = .union) :
    s.types.size ≠ 0 := by
  obtain ⟨rank, hbound, hrank⟩ := hs.ranked
  rcases Assignable.kind_cases s t with ⟨members, hd⟩ | ⟨hkind', -⟩
  · obtain ⟨u, hu⟩ := (hs.union_normal ht hd).exists_mem
    have hlt := hrank t _ ht.lookup_data u (by rwa [hd])
    have hle := hbound t ht
    omega
  · exact absurd hkind hkind'

theorem property_run (hs : s.Sound) (ht : s.Known t) (name : String) :
    TypeStore.property pool t name s = PropertyResult.within pool name 2 t s := by
  have hsensible : s.Sensible pool False t := ⟨ht, False.elim⟩
  change PropertyResult.within pool name (s.types.size + 1) t s = _
  refine within_eq hs False.elim hsensible name _ ?_
  by_cases hkind : s.kind t = .union
  · exact .inl (nesting_of_union hs ht hkind)
  · exact .inr hkind

theorem property (hs : s.Sound) (hpool : G → pool.Closed) (ht : s.Sensible pool G t)
    (name : String) : Steady (TypeStore.property pool t name) s (SensibleResult pool G) :=
  (within hs hpool ht name).congr
    (fun _ hs' hgrows => property_run hs' (hgrows.known ht.known) name) hs

end Properties
end Steady
end TemplateCheck

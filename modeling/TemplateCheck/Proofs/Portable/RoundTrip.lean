import TemplateCheck.Portable.Store
import TemplateCheck.Proofs.Running
import TemplateCheck.Proofs.Types.Combining
import TemplateCheck.Proofs.Types.Comparing
import TemplateCheck.Proofs.Types.Tags

/-! A type that is taken out of a store in portable form and made in another store, or in the same,
is the same type again. -/

namespace TemplateCheck
open PortableType TypeStore

section Parts
variable (pool : Proto.Pool)

theorem importProperties_eq (ps : List (RecordProperty PortableType)) :
    importProperties pool ps = do
      let types ← importAll pool (ps.map (·.type))
      return List.zipWith (fun p u => ⟨p.name, p.optional, u⟩) ps types := by
  induction ps with
  | nil => rfl
  | cons p ps ih => simp [importProperties, importAll, ih]

theorem importTemplateParameters_eq (ps : List (TemplateParameter PortableType)) :
    importTemplateParameters pool ps = do
      let types ← importAll pool (ps.map (·.type))
      return List.zipWith (fun p u => ⟨p.name, p.kind, p.required, u⟩) ps types := by
  induction ps with
  | nil => rfl
  | cons p ps ih => simp [importTemplateParameters, importAll, ih]

theorem importFunctionParameters_eq (ps : List (FunctionParameter PortableType)) :
    importFunctionParameters pool ps = do
      let types ← importAll pool (ps.map (·.type))
      return List.zipWith (fun p u => ⟨p.name, p.variadic, u⟩) ps types := by
  induction ps with
  | nil => rfl
  | cons p ps ih => simp [importFunctionParameters, importAll, ih]

end Parts

namespace TypeStore

def shownPortable (s : TypeStore) (t : TypeId) : ShownType × PortableType :=
  s.fold (fun d => (ShownType.ofForm (d.mapParts (·.1)), PortableType.ofForm d)) t

variable {s : TypeStore} {t : TypeId} {d : TypeData}

theorem Sound.toPortable (h : s.Sound) (ht : s.lookup t = some d) :
    s.toPortable t = PortableType.ofForm (d.mapParts s.shownPortable) := by
  rw [TypeStore.toPortable, h.fold ht]
  rfl

theorem ofForm_record (s : TypeStore) (properties : List (RecordProperty TypeId)) :
    PortableType.ofForm ((TypeForm.record properties).mapParts s.shownPortable) =
      .record (properties.map (·.map s.toPortable)) := by
  simp only [TypeForm.mapParts, PortableType.ofForm, List.map_map]
  rfl

theorem ofForm_template (s : TypeStore) (shape : TemplateShape TypeId) :
    PortableType.ofForm ((TypeForm.template shape).mapParts s.shownPortable) =
      .template (shape.parameters.map (·.map s.toPortable)) (s.toPortable shape.result) := by
  simp only [TypeForm.mapParts, PortableType.ofForm, List.map_map]
  rfl

theorem ofForm_function (s : TypeStore) (shape : FunctionShape TypeId) :
    PortableType.ofForm ((TypeForm.function shape).mapParts s.shownPortable) =
      .function (shape.parameters.map (·.map s.toPortable)) (s.toPortable shape.result) := by
  simp only [TypeForm.mapParts, PortableType.ofForm, List.map_map]
  rfl

theorem sortByText_perm (s : TypeStore) (members : List TypeId) :
    ∃ sorted : List TypeId, sorted.Perm members ∧
      sortByText (members.map s.shownPortable) = sorted.map s.toPortable := by
  rw [sortByText, Order.sortBy_map, List.map_map]
  exact ⟨_, Order.sortBy_perm _ members, rfl⟩

/-- The pool has the protos of a form under their names. -/
def Binds (pool : Proto.Pool) : TypeData → Prop
  | .message m => pool.message? m.descriptor.name = some m
  | .enum (.descriptor e) => pool.enum? e.descriptor.name = some e
  | _ => True

end TypeStore

variable {pool : Proto.Pool} {I s : TypeStore} {p : PortableType} {t : TypeId}

/-- In every store the portable type is made into the type `t` of `I`. -/
def Imports (pool : Proto.Pool) (I : TypeStore) (p : PortableType) (t : TypeId) : Prop :=
  ∀ s : TypeStore, s.Sound → ∃ u s', importType pool p s = (.ok u, s') ∧ s.Made (u, s') ∧
    (s'.denote u).Alike (I.denote t)

/-- Types made one after the other, with what they are in the store that results. -/
structure ImportedAll (I s : TypeStore) (ts us : List TypeId) (s' : TypeStore) : Prop where
  sound : s'.Sound
  grows : s.Grows s'
  same : List.Forall₂ (s'.SameType I) us ts

theorem importAll_run (ts : List TypeId) (h : ∀ t ∈ ts, Imports pool I (I.toPortable t) t)
    (hs : s.Sound) :
    ∃ us s', importAll pool (ts.map I.toPortable) s = (.ok us, s') ∧ ImportedAll I s ts us s' := by
  induction ts generalizing s with
  | nil => exact ⟨[], s, rfl, ⟨hs, .refl s, .nil⟩⟩
  | cons t ts ih =>
    obtain ⟨ht, hts⟩ := List.forall_mem_cons.1 h
    obtain ⟨u, s₁, hrun, hmade, halike⟩ := ht s hs
    obtain ⟨us, s', hruns, himported⟩ := ih hts hmade.sound
    have hu : s₁.SameType I u t := ⟨hmade.known, halike⟩
    have hu := hu.grows hmade.sound himported.sound himported.grows
    refine ⟨u :: us, s', ?_, ⟨himported.sound, hmade.grows.trans himported.grows,
      .cons hu himported.same⟩⟩
    rw [List.map_cons, importAll, run_bind, hrun]
    dsimp only
    rw [run_bind, hruns]
    rfl

theorem imported {s₁ : TypeStore} {made : TypeId × TypeStore} {d e : TypeData}
    (hrun : importType pool p s = (.ok made.1, made.2)) (hgrows : s.Grows s₁) (hs₁ : s₁.Sound)
    (hI : I.Sound) (ht : I.lookup t = some d) (hstored : s₁.Stored made e)
    (hforms : e.Alike (s₁.SameType I) d) :
    ∃ u s', importType pool p s = (.ok u, s') ∧ s.Made (u, s') ∧
      (s'.denote u).Alike (I.denote t) :=
  ⟨_, _, hrun, ⟨hstored.sound, hgrows.trans hstored.grows, hstored.known⟩,
    hstored.alike hs₁ hI ht hforms⟩

section Forms
variable (hI : I.Sound)
include hI

theorem imports_leaf (m : Making TypeId) {d : TypeData} (ht : I.lookup t = some d)
    (hrun : importType pool p = liftM m) (hstored : ∀ s : TypeStore, s.Sound → s.Stored (m s) d)
    (hparts : d.parts = []) : Imports pool I p t := by
  intro s hs
  have hforms : d.Alike (s.SameType I) d := by
    refine (TypeForm.Alike.refl d).mono fun q hq _ _ _ => ?_
    rw [hparts] at hq
    cases hq
  exact imported (by rw [hrun, run_liftM]) (.refl s) hs hI ht (hstored s hs) hforms

theorem imports_interned {d : TypeData} (ht : I.lookup t = some d)
    (hrun : importType pool p = liftM (TypeStore.intern d))
    (hrecorded : ∀ s : TypeStore, s.Recorded d) (hparts : d.parts = []) : Imports pool I p t := by
  have hnone (s : TypeStore) : ∀ q ∈ d.parts, s.Known q := hparts ▸ List.forall_mem_nil _
  exact imports_leaf hI (TypeStore.intern d) ht hrun
    (fun s hs => hs.internParts (hrecorded s) (hnone s)) hparts

theorem imports_one (form : TypeId → TypeData) {a : TypeId} (ht : I.lookup t = some (form a))
    (ha : Imports pool I (I.toPortable a) a)
    (hrun : importType pool p = importType pool (I.toPortable a) >>= fun b =>
      liftM (TypeStore.intern (form b)))
    (hrecorded : ∀ (s : TypeStore) b, s.Recorded (form b)) (hparts : ∀ b, (form b).parts = [b])
    (hform : ∀ {R : TypeId → TypeId → Prop} {b c}, R b c → (form b).Alike R (form c)) :
    Imports pool I p t := by
  intro s hs
  obtain ⟨b, s₁, hb, hmade, halike⟩ := ha s hs
  have hrun' : importType pool p s = (.ok (intern (form b) s₁).1, (intern (form b) s₁).2) := by
    rw [hrun, run_bind, hb]
    rfl
  have hknown : ∀ q ∈ (form b).parts, s₁.Known q := by
    rw [hparts]
    exact List.forall_mem_singleton.2 hmade.known
  exact imported hrun' hmade.grows hmade.sound hI ht
    (hmade.sound.internParts (hrecorded s₁ b) hknown) (hform ⟨hmade.known, halike⟩)

theorem imports_two (form : TypeId → TypeId → TypeData) {a b : TypeId}
    (ht : I.lookup t = some (form a b)) (ha : Imports pool I (I.toPortable a) a)
    (hb : Imports pool I (I.toPortable b) b)
    (hrun : importType pool p = importType pool (I.toPortable a) >>= fun k =>
      importType pool (I.toPortable b) >>= fun v => liftM (TypeStore.intern (form k v)))
    (hrecorded : ∀ (s : TypeStore) k v, s.Recorded (form k v))
    (hparts : ∀ k v, (form k v).parts = [k, v])
    (hform : ∀ {R : TypeId → TypeId → Prop} {k v l w}, R k l → R v w →
      (form k v).Alike R (form l w)) : Imports pool I p t := by
  intro s hs
  obtain ⟨k, s₁, hk, hmade₁, halike₁⟩ := ha s hs
  obtain ⟨v, s₂, hv, hmade₂, halike₂⟩ := hb s₁ hmade₁.sound
  have hsame : s₁.SameType I k a := ⟨hmade₁.known, halike₁⟩
  have hsame := hsame.grows hmade₁.sound hmade₂.sound hmade₂.grows
  have hrun' : importType pool p s =
      (.ok (intern (form k v) s₂).1, (intern (form k v) s₂).2) := by
    rw [hrun, run_bind, hk]
    dsimp only
    rw [run_bind, hv]
    rfl
  have hknown : ∀ q ∈ (form k v).parts, s₂.Known q := by
    rw [hparts]
    exact List.forall_mem_cons.2 ⟨hsame.1, List.forall_mem_singleton.2 hmade₂.known⟩
  exact imported hrun' (hmade₁.grows.trans hmade₂.grows) hmade₂.sound hI ht
    (hmade₂.sound.internParts (hrecorded s₂ k v) hknown) (hform hsame ⟨hmade₂.known, halike₂⟩)

theorem imports_intrinsic {kind : Intrinsic} (ht : I.lookup t = some (.intrinsic kind)) :
    Imports pool I (primitive kind.name) t := by
  have hname : Intrinsic.ofName? kind.name = some kind := by cases kind <;> rfl
  refine imports_interned hI ht ?_ (fun _ => trivial) rfl
  rw [importType, hname]
  rfl

theorem imports_element (htagged : I.Tagged) {tag : ElementTag}
    (ht : I.lookup t = some (.element tag)) : Imports pool I (element tag.text) t := by
  have htag : elementTag tag.text = tag := by
    cases tag with
    | named tag => exact htagged t _ ht
    | _ => rfl
  refine imports_leaf hI (TypeStore.element tag.text) ht rfl (fun s hs => ?_) rfl
  have hstored := hs.element tag.text
  rwa [htag] at hstored

theorem imports_message {m : Proto.Registered Proto.MessageDescriptor}
    (ht : I.lookup t = some (.message m)) (hbinds : pool.message? m.descriptor.name = some m) :
    Imports pool I (proto m.descriptor.name) t := by
  refine imports_interned hI ht ?_ (fun _ => trivial) rfl
  rw [importType, hbinds]
  rfl

theorem imports_descriptor {e : Proto.Registered Proto.EnumDescriptor}
    (ht : I.lookup t = some (.enum (.descriptor e)))
    (hbinds : pool.enum? e.descriptor.name = some e) :
    Imports pool I (protoEnum e.descriptor.name) t := by
  refine imports_interned hI ht ?_ (fun _ => trivial) rfl
  rw [importType, hbinds]
  rfl

/-- Members that were made again are members again, though in another order. -/
theorem ready_of_same {kind : Kind} {members sorted us : List TypeId} (hs : s.Sound)
    (hknown : ∀ t ∈ members, I.Known t) (hnormal : I.Normal kind members)
    (hperm : sorted.Perm members) (hsame : List.Forall₂ (s.SameType I) us sorted) :
    s.Ready kind us := by
  have hnodup := hnormal.ascends.nodup
  have hpartner (u : TypeId) (hu : u ∈ us) : ∃ t ∈ members, s.SameType I u t := by
    obtain ⟨t, ht, hut⟩ := exists_of_mem_left hsame hu
    exact ⟨t, hperm.mem_iff.1 ht, hut⟩
  constructor
  case two =>
    rw [hsame.length_eq, hperm.length_eq]
    exact hnormal.two
  case nodup =>
    refine nodup_of_forall₂ hsame (fun u t ht v hv hut huv => ?_) (hperm.nodup_iff.2 hnodup)
    exact hI.eq_of_alike_one (hknown t (hperm.mem_iff.1 ht)) (hknown v (hperm.mem_iff.1 hv))
      hut.2 huv.2
  case known =>
    intro u hu
    obtain ⟨t, -, hut⟩ := hpartner u hu
    exact hut.1
  case flat =>
    intro u hu
    obtain ⟨t, ht, hut⟩ := hpartner u hu
    have hforms := hs.alike_data hI hut.1.lookup_data (hknown t ht).lookup_data hut.2
    have hkind : s.kind u = I.kind t := hforms.kind_eq
    rw [hkind]
    exact hnormal.flat t ht
  case plain =>
    intro u hu hspecial
    obtain ⟨t, ht, hut⟩ := hpartner u hu
    have hfixed : ∃ d : TypeData, d.fixedId? = some u := by
      have hall : ∀ u ∈ [TypeId.error, .any, .unknown, .never],
          ∃ d ∈ TypeData.fixed, d.fixedId? = some u := by decide
      obtain ⟨d, -, hd⟩ := hall u hspecial
      exact ⟨d, hd⟩
    obtain ⟨d, hd⟩ := hfixed
    obtain rfl := hI.alike_fixed hs (hknown t ht) hut.2.symm hd
    exact hnormal.plain t ht hspecial

theorem imports_members (wrap : List TypeId → Making TypeId) (form : List TypeId → TypeData)
    {kind : Kind} {members : List TypeId} (ht : I.lookup t = some (form members))
    (hparts : ∀ p ∈ members, Imports pool I (I.toPortable p) p)
    (hknown : ∀ p ∈ members, I.Known p) (hnormal : I.Normal kind members)
    (hrun : importType pool p = do
      wrap (← importAll pool (sortByText (members.map I.shownPortable))))
    (hstored : ∀ (s : TypeStore) us, s.Sound → s.Ready kind us →
      s.Stored (wrap us s) (form (Order.ascending TypeId.number us)))
    (hform : ∀ {R : TypeId → TypeId → Prop} {as bs}, Matches R as bs →
      (form as).Alike R (form bs)) : Imports pool I p t := by
  intro s hs
  obtain ⟨sorted, hperm, hsorted⟩ := I.sortByText_perm members
  obtain ⟨us, s₁, hus, himported⟩ :=
    importAll_run sorted (fun q hq => hparts q (hperm.mem_iff.1 hq)) hs
  have hready := ready_of_same hI himported.sound hknown hnormal hperm himported.same
  have hrun' : importType pool p s = (.ok (wrap us s₁).1, (wrap us s₁).2) := by
    rw [hrun, hsorted, run_bind, hus]
    rfl
  have hascending := Order.ascending_perm TypeId.number_injective hready.nodup
  exact imported hrun' himported.grows himported.sound hI ht (hstored s₁ us himported.sound hready)
    (hform ((Matches.of_forall₂ himported.same).of_perm hascending hperm))

end Forms

theorem forall₂_zipWith {α β γ δ ι : Type} {R : γ → β → Prop} {S : ι → δ → Prop} {f : α → γ → ι}
    {g : δ → α} {h : δ → β} {us : List γ} {qs : List δ}
    (hmake : ∀ q u, R u (h q) → S (f (g q) u) q) (hus : List.Forall₂ R us (qs.map h)) :
    List.Forall₂ S (List.zipWith f (qs.map g) us) qs := by
  induction qs generalizing us with
  | nil => exact .nil
  | cons q qs ih =>
    cases hus with
    | cons hu hrest => exact .cons (hmake q _ hu) (ih hrest)

theorem firstRepeated?_eq_none_iff {seen names : List String} :
    firstRepeated? seen names = none ↔ names.Nodup ∧ ∀ name ∈ names, name ∉ seen := by
  induction names generalizing seen with
  | nil => simp [firstRepeated?]
  | cons name rest ih =>
    rw [firstRepeated?, List.nodup_cons, List.forall_mem_cons]
    by_cases hname : name ∈ seen
    · simp [hname]
    · have hcons : (∀ other ∈ rest, other ∉ name :: seen) ↔
          name ∉ rest ∧ ∀ other ∈ rest, other ∉ seen := by
        simp only [List.mem_cons, not_or]
        exact ⟨fun h => ⟨fun hmem => (h name hmem).1 rfl, fun other hother => (h other hother).2⟩,
          fun h other hother => ⟨fun heq => h.1 (heq ▸ hother), h.2 other hother⟩⟩
      rw [if_neg (by simpa using hname), ih, hcons]
      tauto

section Shapes
variable (hI : I.Sound)
include hI

theorem imports_record {properties : List (RecordProperty TypeId)}
    (ht : I.lookup t = some (.record properties))
    (hparts : ∀ q ∈ properties.map (·.type), Imports pool I (I.toPortable q) q)
    (hnames : (properties.map (·.name)).Nodup) :
    Imports pool I (.record (properties.map (·.map I.toPortable))) t := by
  intro s hs
  obtain ⟨us, s₁, hus, himported⟩ := importAll_run (properties.map (·.type)) hparts hs
  let made := List.zipWith (fun p u => (⟨p.name, p.optional, u⟩ : RecordProperty TypeId))
    (properties.map (·.map I.toPortable)) us
  have hsame : List.Forall₂ (RecordProperty.Alike (s₁.SameType I)) made properties :=
    forall₂_zipWith (fun q u hu => ⟨rfl, rfl, hu⟩) himported.same
  have hknown : ∀ q ∈ made, s₁.Known q.type := fun q hq => by
    obtain ⟨r, -, hqr⟩ := exists_of_mem_left hsame hq
    exact hqr.2.2.1
  have hmade : made.map (·.name) = properties.map (·.name) := by
    rw [← List.forall₂_eq_eq_eq, List.forall₂_map_left_iff, List.forall₂_map_right_iff]
    exact hsame.imp fun q r hqr => hqr.1
  obtain ⟨kept, hperm, hstored⟩ := himported.sound.record hknown (hmade ▸ hnames)
  have hrun : importType pool (.record (properties.map (·.map I.toPortable))) s =
      (.ok (TypeStore.record made s₁).1, (TypeStore.record made s₁).2) := by
    have hrepeated : firstRepeated? [] ((properties.map (·.map I.toPortable)).map (·.name)) =
        none := by
      rw [List.map_map]
      exact firstRepeated?_eq_none_iff.2 ⟨hnames, fun _ _ => List.not_mem_nil⟩
    have htypes : (properties.map (·.map I.toPortable)).map (·.type) =
        (properties.map (·.type)).map I.toPortable := by
      rw [List.map_map, List.map_map]
      rfl
    rw [importType, hrepeated]
    dsimp only
    rw [importProperties_eq, htypes, run_bind, run_bind, hus]
    rfl
  exact imported hrun himported.grows himported.sound hI ht hstored
    (.record ((Matches.of_forall₂ hsame).of_perm hperm (.refl _)))

omit hI in
theorem importSignature_run (ts : List TypeId) {result : TypeId}
    (hparts : ∀ q ∈ ts, Imports pool I (I.toPortable q) q)
    (hresult : Imports pool I (I.toPortable result) result) (hs : s.Sound) :
    ∃ us u s₁ s₂, importAll pool (ts.map I.toPortable) s = (.ok us, s₁) ∧
      importType pool (I.toPortable result) s₁ = (.ok u, s₂) ∧
      ImportedAll I s ts us s₂ ∧ s₂.SameType I u result := by
  obtain ⟨us, s₁, hus, himported⟩ := importAll_run ts hparts hs
  obtain ⟨u, s₂, hu, hmade, halike⟩ := hresult s₁ himported.sound
  refine ⟨us, u, s₁, s₂, hus, hu, ⟨hmade.sound, himported.grows.trans hmade.grows, ?_⟩,
    hmade.known, halike⟩
  exact himported.same.imp fun q r hqr => hqr.grows himported.sound hmade.sound hmade.grows

theorem imports_signature {δ ι : Type} (wrap : List δ → TypeId → Making TypeId)
    (form : List δ → TypeId → TypeData) (make : ι → TypeId → δ) (portable : δ → ι)
    (type : δ → TypeId) {parameters : List δ} {result : TypeId}
    (ht : I.lookup t = some (form parameters result))
    (hparts : ∀ q ∈ parameters.map type, Imports pool I (I.toPortable q) q)
    (hresult : Imports pool I (I.toPortable result) result)
    (hrun : importType pool p = do
      let us ← importAll pool ((parameters.map type).map I.toPortable)
      wrap (List.zipWith make (parameters.map portable) us)
        (← importType pool (I.toPortable result)))
    (htype : ∀ q u, type (make q u) = u)
    (hstored : ∀ (s : TypeStore) made u, s.Sound → (∀ q ∈ made, s.Known (type q)) → s.Known u →
      s.Stored (wrap made u s) (form made u))
    (hform : ∀ {R : TypeId → TypeId → Prop} {us u}, List.Forall₂ R us (parameters.map type) →
      R u result → (form (List.zipWith make (parameters.map portable) us) u).Alike R
        (form parameters result)) : Imports pool I p t := by
  intro s hs
  obtain ⟨us, u, s₁, s₂, hus, hu, himported, hsame⟩ :=
    importSignature_run (parameters.map type) hparts hresult hs
  let made := List.zipWith make (parameters.map portable) us
  have hknowns : List.Forall₂ (fun q _ => s₂.Known (type q)) made parameters :=
    forall₂_zipWith (fun q u hu => (htype (portable q) u).symm ▸ hu.1) himported.same
  have hknown (q : δ) (hq : q ∈ made) : s₂.Known (type q) := by
    obtain ⟨_, -, hqr⟩ := exists_of_mem_left hknowns hq
    exact hqr
  have hrun' : importType pool p s = (.ok (wrap made u s₂).1, (wrap made u s₂).2) := by
    rw [hrun, run_bind, hus]
    dsimp only
    rw [run_bind, hu]
    rfl
  exact imported hrun' himported.grows himported.sound hI ht
    (hstored s₂ made u himported.sound hknown hsame.1) (hform himported.same hsame)

theorem imports_template {parameters : List (TemplateParameter TypeId)} {result : TypeId}
    (ht : I.lookup t = some (.template ⟨parameters, result⟩))
    (hparts : ∀ q ∈ parameters.map (·.type), Imports pool I (I.toPortable q) q)
    (hresult : Imports pool I (I.toPortable result) result) :
    Imports pool I
      (.template (parameters.map (·.map I.toPortable)) (I.toPortable result)) t := by
  refine imports_signature hI TypeStore.template (fun made u => .template ⟨made, u⟩)
    (fun p u => ⟨p.name, p.kind, p.required, u⟩) (·.map I.toPortable) (·.type) ht hparts hresult
    ?_ (fun _ _ => rfl) (fun s made u hs hmade hu => hs.template hmade hu) fun hus hu => ?_
  · rw [importType, importTemplateParameters_eq, bind_assoc, List.map_map, List.map_map]
    rfl
  · exact .template (forall₂_zipWith (fun q u hu => ⟨rfl, rfl, rfl, hu⟩) hus) hu

theorem imports_function {parameters : List (FunctionParameter TypeId)} {result : TypeId}
    (ht : I.lookup t = some (.function ⟨parameters, result⟩))
    (hparts : ∀ q ∈ parameters.map (·.type), Imports pool I (I.toPortable q) q)
    (hresult : Imports pool I (I.toPortable result) result) :
    Imports pool I
      (.function (parameters.map (·.map I.toPortable)) (I.toPortable result)) t := by
  refine imports_signature hI TypeStore.function (fun made u => .function ⟨made, u⟩)
    (fun p u => ⟨p.name, p.variadic, u⟩) (·.map I.toPortable) (·.type) ht hparts hresult
    ?_ (fun _ _ => rfl) (fun s made u hs hmade hu => hs.function hmade hu) fun hus hu => ?_
  · rw [importType, importFunctionParameters_eq, bind_assoc, List.map_map, List.map_map]
    rfl
  · exact .function (forall₂_zipWith (fun q u hu => ⟨rfl, rfl, hu⟩) hus) hu

end Shapes

theorem imports_toPortable (hI : I.Sound) (htagged : I.Tagged) (ht : I.Known t)
    (hpool : I.Throughout (Binds pool) t) : Imports pool I (I.toPortable t) t := by
  refine hI.induct (motive := fun t => I.Throughout (Binds pool) t →
    Imports pool I (I.toPortable t) t) (fun t d hd ih hpool => ?_) t ht hpool
  have hdata := data_of_lookup hd
  cases hpool with
  | intro hbinds hparts =>
  rw [hdata] at hbinds hparts
  have hpart (p : TypeId) (hp : p ∈ d.parts) := ih p hp (hparts p hp)
  rw [hI.toPortable hd]
  cases d with
  | error => exact imports_interned hI hd rfl (fun _ => trivial) rfl
  | intrinsic kind => exact imports_intrinsic hI hd
  | element tag => exact imports_element hI htagged hd
  | literal value => exact imports_interned hI hd rfl (fun _ => trivial) rfl
  | message m => exact imports_message hI hd hbinds
  | enum e =>
    cases e with
    | any => exact imports_interned hI hd rfl (fun _ => trivial) rfl
    | unknown => exact imports_interned hI hd rfl (fun _ => trivial) rfl
    | descriptor e => exact imports_descriptor hI hd hbinds
  | list item =>
    exact imports_one hI .list hd (hpart item (.head _)) rfl (fun _ _ => trivial) (fun _ => rfl)
      .list
  | set item =>
    exact imports_one hI .set hd (hpart item (.head _)) rfl (fun _ _ => trivial) (fun _ => rfl) .set
  | iterable item =>
    exact imports_one hI .iterable hd (hpart item (.head _)) rfl (fun _ _ => trivial)
      (fun _ => rfl) .iterable
  | map key value =>
    exact imports_two hI .map hd (hpart key (.head _)) (hpart value (.tail _ (.head _))) rfl
      (fun _ _ _ => trivial) (fun _ _ => rfl) .map
  | legacyObjectMap key value =>
    exact imports_two hI .legacyObjectMap hd (hpart key (.head _))
      (hpart value (.tail _ (.head _))) rfl (fun _ _ _ => trivial) (fun _ _ => rfl) .legacyObjectMap
  | record properties =>
    rw [I.ofForm_record]
    exact imports_record hI hd hpart (hI.admits t _ hd).recorded.2
  | template shape =>
    obtain ⟨hparams, hresult⟩ := List.forall_mem_append.1 hpart
    rw [I.ofForm_template]
    exact imports_template hI hd hparams (hresult _ (List.mem_singleton_self _))
  | function shape =>
    obtain ⟨hparams, hresult⟩ := List.forall_mem_append.1 hpart
    rw [I.ofForm_function]
    exact imports_function hI hd hparams (hresult _ (List.mem_singleton_self _))
  | union members =>
    exact imports_members hI TypeStore.union .union hd hpart (hI.admits t _ hd).parts
      (hI.admits t _ hd).recorded.2 rfl (fun s us hs h => hs.union_ready h) .union
  | intersection members =>
    exact imports_members hI TypeStore.intersection .intersection hd hpart (hI.admits t _ hd).parts
      (hI.admits t _ hd).recorded.2 rfl (fun s us hs h => hs.intersection_ready h) .intersection

namespace Session
variable {σ τ : Session} {t : TypeId}

/-- A type exported from one session is imported as the same type into any other, and as itself
into its own, if the pool has the protos that it refers to. -/
theorem importType_toPortable (hσ : σ.Reached) (hτ : τ.Reached) (pool : Proto.Pool)
    (ht : t ∈ σ.issued) (hpool : σ.store.Throughout (Binds pool) t) :
    (∃ u s, importType pool (σ.store.toPortable t) τ.store = (.ok u, s) ∧
      τ.store.Made (u, s) ∧ (s.denote u).Alike (σ.store.denote t)) ∧
      ∃ s, importType pool (σ.store.toPortable t) σ.store = (.ok t, s) ∧
        σ.store.Made (t, s) := by
  have hσvalid := hσ.valid
  have hknown := hσvalid.known t ht
  have himports := imports_toPortable hσvalid.sound hσ.tagged hknown hpool
  refine ⟨himports τ.store hτ.valid.sound, ?_⟩
  obtain ⟨u, s, hrun, hmade, halike⟩ := himports σ.store hσvalid.sound
  have hsame : s.denote t = σ.store.denote t :=
    hmade.grows.fold hσvalid.sound hmade.sound hknown
  have hut : u = t :=
    (hmade.sound.alike_iff hmade.known (hmade.grows.known hknown)).1 (hsame ▸ halike)
  rw [hut] at hrun hmade
  exact ⟨s, hrun, hmade⟩

def nullableMessage : Session :=
  (single.call (.message ⟨1, ⟨"a.M", []⟩⟩)).call (.union [⟨127⟩, .null])

theorem importType_toPortable_nullableMessage :
    nullableMessage.store.data ⟨191⟩ = .union [.null, ⟨127⟩] ∧
      (∃ u s, importType ⟨1, [⟨"a.M", []⟩], []⟩ (nullableMessage.store.toPortable ⟨191⟩)
        (single.call (.list .string)).store = (.ok u, s) ∧
        (single.call (.list .string)).store.Made (u, s) ∧
        (s.denote u).Alike (nullableMessage.store.denote ⟨191⟩)) ∧
      ∃ s, importType ⟨1, [⟨"a.M", []⟩], []⟩ (nullableMessage.store.toPortable ⟨191⟩)
        nullableMessage.store = (.ok ⟨191⟩, s) ∧ nullableMessage.store.Made (⟨191⟩, s) := by
  have hσ : nullableMessage.Reached :=
    (reached_single.call_fixed (.message _) trivial (List.forall_mem_nil _)).call (.union _)
      ⟨trivial, by decide +kernel⟩
  have hτ : (single.call (.list .string)).Reached :=
    reached_single.call_fixed (.list .string) trivial (by decide)
  have hdata : nullableMessage.store.data ⟨191⟩ = .union [.null, ⟨127⟩] := by decide +kernel
  have hnull : nullableMessage.store.Throughout (Binds ⟨1, [⟨"a.M", []⟩], []⟩) .null :=
    .of_data (d := .intrinsic .null) (by decide +kernel) trivial fun p hp => nomatch hp
  have hmessage : nullableMessage.store.Throughout (Binds ⟨1, [⟨"a.M", []⟩], []⟩) ⟨127⟩ :=
    .of_data (d := .message ⟨1, ⟨"a.M", []⟩⟩) (by decide +kernel) (by rfl) fun p hp => nomatch hp
  have hunion : nullableMessage.store.Throughout (Binds ⟨1, [⟨"a.M", []⟩], []⟩) ⟨191⟩ :=
    .of_data hdata trivial
      (List.forall_mem_cons.2 ⟨hnull, List.forall_mem_singleton.2 hmessage⟩)
  exact ⟨hdata, importType_toPortable hσ hτ _ (by decide +kernel) hunion⟩

end Session
end TemplateCheck

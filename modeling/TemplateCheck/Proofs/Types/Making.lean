import TemplateCheck.Proofs.Types.Sound

/-! Every constructor of types keeps a store sound. -/

namespace TemplateCheck.TypeStore
variable {s s' : TypeStore} {t u : TypeId} {d : TypeData} {members : List TypeId}

section Members

theorem mem_unionMembers : u ∈ s.unionMembers t ↔
    (∃ members, s.data t = .union members ∧ u ∈ members) ∨ s.kind t ≠ .union ∧ u = t := by
  rw [unionMembers, kind]
  cases s.data t <;> simp [TypeForm.kind]

theorem mem_intersectionMembers : u ∈ s.intersectionMembers t ↔
    (∃ members, s.data t = .intersection members ∧ u ∈ members) ∨
      s.kind t ≠ .intersection ∧ u = t := by
  rw [intersectionMembers, kind]
  cases s.data t <;> simp [TypeForm.kind]

theorem Sound.unionMembers (h : s.Sound) (ht : s.Known t) (hu : u ∈ s.unionMembers t) :
    s.Known u ∧ s.kind u ≠ .union := by
  rcases mem_unionMembers.1 hu with ⟨members, hd, hu⟩ | ⟨hkind, rfl⟩
  · exact ⟨h.known_part ht (by rwa [hd]), (h.union_normal ht hd).flat u hu⟩
  · exact ⟨ht, hkind⟩

theorem Grows.unionMembers_eq (hgrows : s.Grows s') (ht : s.Known t) :
    s'.unionMembers t = s.unionMembers t := by
  rw [TypeStore.unionMembers, TypeStore.unionMembers, hgrows.data ht]

theorem Sound.intersectionMembers (h : s.Sound) (ht : s.Known t)
    (hu : u ∈ s.intersectionMembers t) : s.Known u ∧ s.kind u ≠ .intersection := by
  rcases mem_intersectionMembers.1 hu with ⟨members, hd, hu⟩ | ⟨hkind, rfl⟩
  · exact ⟨h.known_part ht (by rwa [hd]), (h.intersection_normal ht hd).flat u hu⟩
  · exact ⟨ht, hkind⟩

def essential (neutral : TypeId) (members : List TypeId) : List TypeId :=
  (Order.ascending TypeId.number members).filter (· != neutral)

theorem mem_essential {neutral : TypeId} :
    t ∈ essential neutral members ↔ t ∈ members ∧ t ≠ neutral := by
  simp [essential, Order.mem_ascending TypeId.number_injective]

theorem ascends_essential (neutral : TypeId) (members : List TypeId) :
    Order.Ascends TypeId.number (essential neutral members) :=
  (Order.ascends_ascending TypeId.number_injective members).filter _

theorem ofMembers_cases (neutral : TypeId) (members : List TypeId) :
    members = [] ∧ Combined.ofMembers neutral members = .one neutral ∨
      (∃ t, members = [t] ∧ Combined.ofMembers neutral members = .one t) ∨
        2 ≤ members.length ∧ Combined.ofMembers neutral members = .many members := by
  match members with
  | [] => exact .inl ⟨rfl, rfl⟩
  | [t] => exact .inr (.inl ⟨t, rfl, rfl⟩)
  | t :: u :: rest => exact .inr (.inr ⟨Nat.le_add_left .., rfl⟩)

theorem ofMembers_of_two (neutral : TypeId) (h : 2 ≤ members.length) :
    Combined.ofMembers neutral members = .many members := by
  rcases ofMembers_cases neutral members with ⟨hnil, -⟩ | ⟨t, hone, -⟩ | ⟨-, hmany⟩
  · simp [hnil] at h
  · simp [hone] at h
  · exact hmany

theorem normalizeUnion_cases (members : List TypeId) :
    (∃ t ∈ [TypeId.error, .any, .unknown], t ∈ members ∧ normalizeUnion members = .one t) ∨
      (∀ t ∈ [TypeId.error, .any, .unknown], t ∉ members) ∧
        normalizeUnion members = .ofMembers .never (essential .never members) := by
  have hmem {t : TypeId} := Order.mem_ascending TypeId.number_injective (x := t) (l := members)
  simp only [normalizeUnion, hmem]
  split
  next h => exact .inl ⟨.error, by simp, h, rfl⟩
  next herror =>
    split
    next h => exact .inl ⟨.any, by simp, h, rfl⟩
    next hany =>
      split
      next h => exact .inl ⟨.unknown, by simp, h, rfl⟩
      next hunknown => exact .inr ⟨by simp [herror, hany, hunknown], rfl⟩

theorem normalizeIntersection_cases (members : List TypeId) :
    (∃ t ∈ [TypeId.error, .never, .any], t ∈ members ∧ normalizeIntersection members = .one t) ∨
      (∀ t ∈ [TypeId.error, .never, .any], t ∉ members) ∧
        normalizeIntersection members = .ofMembers .unknown (essential .unknown members) := by
  have hmem {t : TypeId} := Order.mem_ascending TypeId.number_injective (x := t) (l := members)
  simp only [normalizeIntersection, hmem]
  split
  next h => exact .inl ⟨.error, by simp, h, rfl⟩
  next herror =>
    split
    next h => exact .inl ⟨.never, by simp, h, rfl⟩
    next hnever =>
      split
      next h => exact .inl ⟨.any, by simp, h, rfl⟩
      next hany => exact .inr ⟨by simp [herror, hnever, hany], rfl⟩

end Members

section Tables

theorem Sound.made (h : s.Sound) (ht : s.Known t) : s.Made (t, s) := ⟨h, .refl s, ht⟩

section Remembered
variable {α : Type} [BEq α]

def remembered (known : Array α) (a : α) : Array α :=
  if known.contains a then known else known.push a

theorem self_mem_remembered [LawfulBEq α] (known : Array α) (a : α) : a ∈ remembered known a := by
  rw [remembered]
  split
  next h => simpa using h
  next => exact Array.mem_push_self

theorem mem_remembered {known : Array α} {b : α} (a : α) (h : b ∈ known) :
    b ∈ remembered known a := by
  rw [remembered]
  split
  · exact h
  · exact Array.mem_push_of_mem _ h

theorem nodup_remembered [LawfulBEq α] {known : Array α} (a : α) (h : known.toList.Nodup) :
    (remembered known a).toList.Nodup := by
  rw [remembered]
  split
  · exact h
  next hnew =>
    rw [Array.toList_push, List.nodup_append]
    refine ⟨h, List.nodup_singleton a, ?_⟩
    rintro b hb _ hc rfl
    obtain rfl := List.mem_singleton.1 hc
    exact hnew (by simpa using hb)

end Remembered

theorem rememberList_run (members : List TypeId) (s : TypeStore) :
    rememberList members s = ((), { s with lists := remembered s.lists members }) := by
  change ((), if s.lists.contains members then s else { s with lists := s.lists.push members }) = _
  unfold remembered
  split <;> rfl

theorem rememberTemplate_run (shape : TemplateShape TypeId) (s : TypeStore) :
    rememberTemplate shape s = ((), { s with templates := remembered s.templates shape }) := by
  change ((), if s.templates.contains shape then s
    else { s with templates := s.templates.push shape }) = _
  unfold remembered
  split <;> rfl

theorem rememberFunction_run (shape : FunctionShape TypeId) (s : TypeStore) :
    rememberFunction shape s = ((), { s with functions := remembered s.functions shape }) := by
  change ((), if s.functions.contains shape then s
    else { s with functions := s.functions.push shape }) = _
  unfold remembered
  split <;> rfl

theorem Sound.rememberList (h : s.Sound) (members : List TypeId) :
    (rememberList members s).2.Sound ∧ s.Grows (rememberList members s).2 ∧
      members ∈ (rememberList members s).2.lists := by
  rw [rememberList_run]
  have hgrows : s.Grows { s with lists := remembered s.lists members } :=
    ⟨fun _ _ => id, fun _ => mem_remembered members, fun _ => id, fun _ => id, fun _ => id⟩
  obtain ⟨hlists, hrecords, htemplates, hfunctions⟩ := h.separate
  have hlists := nodup_remembered members hlists
  exact ⟨h.of_tables rfl hgrows ⟨hlists, hrecords, htemplates, hfunctions⟩, hgrows,
    self_mem_remembered _ _⟩

theorem Sound.rememberTemplate (h : s.Sound) (shape : TemplateShape TypeId) :
    (rememberTemplate shape s).2.Sound ∧ s.Grows (rememberTemplate shape s).2 ∧
      shape ∈ (rememberTemplate shape s).2.templates := by
  rw [rememberTemplate_run]
  have hgrows : s.Grows { s with templates := remembered s.templates shape } :=
    ⟨fun _ _ => id, fun _ => id, fun _ => id, fun _ => mem_remembered shape, fun _ => id⟩
  obtain ⟨hlists, hrecords, htemplates, hfunctions⟩ := h.separate
  have htemplates := nodup_remembered shape htemplates
  exact ⟨h.of_tables rfl hgrows ⟨hlists, hrecords, htemplates, hfunctions⟩, hgrows,
    self_mem_remembered _ _⟩

theorem Sound.rememberFunction (h : s.Sound) (shape : FunctionShape TypeId) :
    (rememberFunction shape s).2.Sound ∧ s.Grows (rememberFunction shape s).2 ∧
      shape ∈ (rememberFunction shape s).2.functions := by
  rw [rememberFunction_run]
  have hgrows : s.Grows { s with functions := remembered s.functions shape } :=
    ⟨fun _ _ => id, fun _ => id, fun _ => id, fun _ => id, fun _ => mem_remembered shape⟩
  obtain ⟨hlists, hrecords, htemplates, hfunctions⟩ := h.separate
  have hfunctions := nodup_remembered shape hfunctions
  exact ⟨h.of_tables rfl hgrows ⟨hlists, hrecords, htemplates, hfunctions⟩, hgrows,
    self_mem_remembered _ _⟩

theorem perm_of_byName_eq {ps qs : List (RecordProperty TypeId)} (h : byName ps = byName qs) :
    ps.Perm qs := by
  have hps := Order.sortBy_perm (fun p q : RecordProperty TypeId => decide (p.name ≤ q.name)) ps
  have hqs := Order.sortBy_perm (fun p q : RecordProperty TypeId => decide (p.name ≤ q.name)) qs
  rw [byName, byName] at h
  exact (hps.symm.trans (h ▸ .refl _)).trans hqs

theorem Sound.recordShape (h : s.Sound) (properties : List (RecordProperty TypeId)) :
    (recordShape properties s).2.Sound ∧ s.Grows (recordShape properties s).2 ∧
      (recordShape properties s).1 ∈ (recordShape properties s).2.records ∧
      (recordShape properties s).1.Perm properties := by
  rw [TypeStore.recordShape]
  split
  next known hfind =>
    have hname := Array.find?_some hfind
    exact ⟨h, .refl s, Array.mem_of_find?_eq_some hfind,
      perm_of_byName_eq (by simpa using hname)⟩
  next hfind =>
    have hgrows : s.Grows { s with records := s.records.push properties } :=
      ⟨fun _ _ => id, fun _ => id, fun _ hm => Array.mem_push_of_mem _ hm, fun _ => id,
        fun _ => id⟩
    have hnew := Array.find?_eq_none.1 hfind
    obtain ⟨hlists, hrecords, htemplates, hfunctions⟩ := h.separate
    have hrecords : ((s.records.push properties).toList.map byName).Nodup := by
      rw [Array.toList_push, List.map_append, List.nodup_append]
      refine ⟨hrecords, List.nodup_singleton _, ?_⟩
      rintro _ hps _ hc rfl
      obtain ⟨ps, hps, heq⟩ := List.mem_map.1 hps
      rw [List.mem_singleton.1 hc] at heq
      exact hnew ps (Array.mem_toList_iff.1 hps) (beq_iff_eq.2 heq)
    exact ⟨h.of_tables rfl hgrows ⟨hlists, hrecords, htemplates, hfunctions⟩, hgrows,
      Array.mem_push_self, .refl _⟩

end Tables

section Constructors

theorem Sound.internParts (h : s.Sound) (hrecorded : s.Recorded d)
    (hparts : ∀ p ∈ d.parts, s.Known p) : s.Stored (TypeStore.intern d s) d :=
  h.intern ⟨hparts, hrecorded⟩

def elementTag (tag : String) : ElementTag :=
  if tag = "" ∨ tag = "?" then .wildcard else if tag = "any" then .any else .named tag

theorem Sound.element (h : s.Sound) (tag : String) :
    s.Stored (element tag s) (.element (elementTag tag)) := by
  unfold TypeStore.element elementTag
  split
  · exact .of_lookup h (.refl s) (s.lookup_fixed rfl)
  · split
    · exact .of_lookup h (.refl s) (s.lookup_fixed rfl)
    · exact h.internParts (d := .element (.named tag)) trivial fun p hp => nomatch hp

theorem Sound.record (h : s.Sound) {properties : List (RecordProperty TypeId)}
    (hknown : ∀ p ∈ properties, s.Known p.type) (hnames : (properties.map (·.name)).Nodup) :
    ∃ known, known.Perm properties ∧ s.Stored (record properties s) (.record known) := by
  obtain ⟨hsound, hgrows, hmem, hperm⟩ := h.recordShape properties
  have hrecorded : (TypeStore.recordShape properties s).2.Recorded
      (.record (TypeStore.recordShape properties s).1) :=
    ⟨hmem, (hperm.map _).nodup_iff.2 hnames⟩
  refine ⟨_, hperm, .trans_grows hgrows (hsound.internParts hrecorded fun t ht => ?_)⟩
  obtain ⟨p, hp, rfl⟩ := List.mem_map.1 ht
  exact hgrows.known (hknown p (hperm.mem_iff.1 hp))

theorem Sound.template (h : s.Sound) {parameters : List (TemplateParameter TypeId)}
    {result : TypeId} (hknown : ∀ p ∈ parameters, s.Known p.type) (hresult : s.Known result) :
    s.Stored (template parameters result s) (.template ⟨parameters, result⟩) := by
  obtain ⟨hsound, hgrows, hmem⟩ := h.rememberTemplate ⟨parameters, result⟩
  refine .trans_grows hgrows (hsound.internParts (d := .template ⟨parameters, result⟩) hmem
    fun t ht => ?_)
  rcases List.mem_append.1 ht with ht | ht
  · obtain ⟨p, hp, rfl⟩ := List.mem_map.1 ht
    exact hgrows.known (hknown p hp)
  · obtain rfl := List.mem_singleton.1 ht
    exact hgrows.known hresult

theorem Sound.function (h : s.Sound) {parameters : List (FunctionParameter TypeId)}
    {result : TypeId} (hknown : ∀ p ∈ parameters, s.Known p.type) (hresult : s.Known result) :
    s.Stored (function parameters result s) (.function ⟨parameters, result⟩) := by
  obtain ⟨hsound, hgrows, hmem⟩ := h.rememberFunction ⟨parameters, result⟩
  refine .trans_grows hgrows (hsound.internParts (d := .function ⟨parameters, result⟩) hmem
    fun t ht => ?_)
  rcases List.mem_append.1 ht with ht | ht
  · obtain ⟨p, hp, rfl⟩ := List.mem_map.1 ht
    exact hgrows.known (hknown p hp)
  · obtain rfl := List.mem_singleton.1 ht
    exact hgrows.known hresult

/-- What a normalized list of members comes to. -/
def finish (form : List TypeId → TypeData) : Combined → Making TypeId
  | .one t => pure t
  | .many members => do
    rememberList members
    intern (form members)

theorem union_run (types : List TypeId) (h : 2 ≤ types.length) (s : TypeStore) :
    union types s = finish .union (normalizeUnion (types.flatMap s.unionMembers)) s := by
  match types, h with
  | t :: u :: rest, _ =>
    change (match normalizeUnion ((t :: u :: rest).flatMap s.unionMembers) with
      | .one t => (pure t : Making TypeId)
      | .many members => do
        rememberList members
        intern (.union members)) s = _
    cases normalizeUnion ((t :: u :: rest).flatMap s.unionMembers) <;> rfl

theorem intersection_run (types : List TypeId) (h : 2 ≤ types.length) (s : TypeStore) :
    intersection types s =
      finish .intersection (normalizeIntersection (types.flatMap s.intersectionMembers)) s := by
  match types, h with
  | t :: u :: rest, _ =>
    change (match normalizeIntersection ((t :: u :: rest).flatMap s.intersectionMembers) with
      | .one t => (pure t : Making TypeId)
      | .many members => do
        rememberList members
        intern (.intersection members)) s = _
    cases normalizeIntersection ((t :: u :: rest).flatMap s.intersectionMembers) <;> rfl

theorem Sound.finish_many (h : s.Sound) {form : List TypeId → TypeData} {k : Kind}
    (hparts : (form members).parts = members)
    (hform : ∀ {s : TypeStore}, members ∈ s.lists → s.Normal k members → s.Recorded (form members))
    (hknown : ∀ t ∈ members, s.Known t) (hnormal : s.Normal k members) :
    s.Stored (finish form (.many members) s) (form members) := by
  obtain ⟨hsound, hgrows, hmem⟩ := h.rememberList members
  refine .trans_grows hgrows (hsound.internParts (hform hmem (hgrows.normal hknown hnormal)) ?_)
  intro t ht
  rw [hparts] at ht
  exact hgrows.known (hknown t ht)

theorem combined_cases {k : Kind} {c : Combined} {neutral : TypeId} {absorbing : List TypeId}
    (hcover : ∀ t ∈ [TypeId.error, .any, .unknown, .never], t ≠ neutral → t ∈ absorbing)
    (hflat : ∀ t ∈ members, s.kind t ≠ k)
    (hc : (∃ t ∈ absorbing, t ∈ members ∧ c = .one t) ∨
      (∀ t ∈ absorbing, t ∉ members) ∧ c = .ofMembers neutral (essential neutral members)) :
    (∃ t, c = .one t ∧ (t = neutral ∨ t ∈ members)) ∨
      ∃ ns, c = .many ns ∧ (∀ t ∈ ns, t ∈ members) ∧ s.Normal k ns := by
  have hmem {t} (ht : t ∈ essential neutral members) := mem_essential.1 ht
  rcases hc with ⟨t, -, ht, rfl⟩ | ⟨habsorbing, rfl⟩
  · exact .inl ⟨t, rfl, .inr ht⟩
  · rcases ofMembers_cases neutral (essential neutral members) with
      ⟨-, hc⟩ | ⟨t, ht, hc⟩ | ⟨htwo, hc⟩
    · exact .inl ⟨neutral, hc, .inl rfl⟩
    · exact .inl ⟨t, hc, .inr (hmem (ht ▸ List.mem_singleton_self t)).1⟩
    · refine .inr ⟨_, hc, fun t ht => (hmem ht).1, htwo, ascends_essential neutral members,
        fun t ht => hflat t (hmem ht).1, fun t ht hspecial => ?_⟩
      exact habsorbing t (hcover t hspecial (hmem ht).2) (hmem ht).1

theorem Sound.combined (h : s.Sound) {form : List TypeId → TypeData} {k : Kind} {c : Combined}
    {split : TypeId → List TypeId} {neutral : TypeId} {absorbing types : List TypeId}
    (hparts : ∀ members, (form members).parts = members)
    (hform : ∀ {s : TypeStore} {members}, members ∈ s.lists → s.Normal k members →
      s.Recorded (form members))
    (hneutral : s.Known neutral)
    (hcover : ∀ t ∈ [TypeId.error, .any, .unknown, .never], t ≠ neutral → t ∈ absorbing)
    (hknown : ∀ t ∈ types, s.Known t)
    (hsplit : ∀ t, s.Known t → ∀ u ∈ split t, s.Known u ∧ s.kind u ≠ k)
    (hc : (∃ t ∈ absorbing, t ∈ types.flatMap split ∧ c = .one t) ∨
      (∀ t ∈ absorbing, t ∉ types.flatMap split) ∧
        c = .ofMembers neutral (essential neutral (types.flatMap split))) :
    s.Made (TypeStore.finish form c s) := by
  have hmembers {u} (hu : u ∈ types.flatMap split) : s.Known u ∧ s.kind u ≠ k := by
    obtain ⟨t, ht, hu⟩ := List.mem_flatMap.1 hu
    exact hsplit t (hknown t ht) u hu
  rcases combined_cases hcover (fun t ht => (hmembers ht).2) hc with
    ⟨t, rfl, rfl | ht⟩ | ⟨ns, rfl, hsub, hnormal⟩
  · exact h.made hneutral
  · exact h.made (hmembers ht).1
  · have hstored := h.finish_many (hparts ns) hform (fun t ht => (hmembers (hsub t ht)).1) hnormal
    exact hstored.toMade

theorem Sound.union (h : s.Sound) {types : List TypeId} (hknown : ∀ t ∈ types, s.Known t) :
    s.Made (union types s) := by
  have hnever : s.Known .never := known_fixed s (d := .intrinsic .never) rfl
  match types with
  | [] => exact h.made hnever
  | [t] => exact h.made (hknown t (List.mem_singleton_self t))
  | t :: u :: rest =>
    rw [union_run _ (Nat.le_add_left ..)]
    exact h.combined (fun _ => rfl) (fun hmem hnormal => ⟨hmem, hnormal⟩) hnever (by decide) hknown
      (fun _ ht _ hu => h.unionMembers ht hu) (normalizeUnion_cases _)

theorem Sound.intersection (h : s.Sound) {types : List TypeId} (hknown : ∀ t ∈ types, s.Known t) :
    s.Made (intersection types s) := by
  have hunknown : s.Known .unknown := known_fixed s (d := .intrinsic .unknown) rfl
  match types with
  | [] => exact h.made hunknown
  | [t] => exact h.made (hknown t (List.mem_singleton_self t))
  | t :: u :: rest =>
    rw [intersection_run _ (Nat.le_add_left ..)]
    exact h.combined (fun _ => rfl) (fun hmem hnormal => ⟨hmem, hnormal⟩) hunknown (by decide)
      hknown (fun _ ht _ hu => h.intersectionMembers ht hu) (normalizeIntersection_cases _)

end Constructors

end TemplateCheck.TypeStore

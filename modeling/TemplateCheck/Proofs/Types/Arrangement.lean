import TemplateCheck.Proofs.Types.Session
import TemplateCheck.Types.Reach

/-! What a store looks like after any calls on types that it has handed out: unions and
intersections are normal, forms refer only to what is there, and no type is reached from itself.
This needs less than soundness, and the names of a record's properties do not matter for it. -/

namespace TemplateCheck
namespace TypeStore
variable {s s' : TypeStore} {t u : TypeId} {d : TypeData} {made : TypeId × TypeStore}

def Listed (s : TypeStore) : TypeData → Prop
  | .record properties => properties ∈ s.records
  | .template shape => shape ∈ s.templates
  | .function shape => shape ∈ s.functions
  | .union members => members ∈ s.lists ∧ s.Normal .union members
  | .intersection members => members ∈ s.lists ∧ s.Normal .intersection members
  | _ => True

def IsPart (s : TypeStore) (p t : TypeId) : Prop := p ∈ s.children t

structure Arranged (s : TypeStore) : Prop where
  parts : ∀ t d, s.lookup t = some d → ∀ p ∈ d.parts, s.Known p
  listed : ∀ t d, s.lookup t = some d → s.Listed d
  founded : WellFounded s.IsPart

section Growing

theorem Grows.listed (h : s.Grows s') (hparts : ∀ p ∈ d.parts, s.Known p) (hd : s.Listed d) :
    s'.Listed d := by
  cases d with
  | record properties => exact h.records properties hd
  | template shape => exact h.templates shape hd
  | function shape => exact h.functions shape hd
  | union members => exact ⟨h.lists members hd.1, h.normal hparts hd.2⟩
  | intersection members => exact ⟨h.lists members hd.1, h.normal hparts hd.2⟩
  | _ => trivial

theorem children_of_not_known (h : ¬ s.Known t) : s.children t = [] := by
  have hnone : s.lookup t = none := by
    rw [Option.eq_none_iff_forall_ne_some]
    exact fun d hd => h ⟨d, hd⟩
  rw [children, data, hnone]
  rfl

theorem Grows.acc (h : s.Grows s') (hs : s.Arranged) (ht : s.Known t) : Acc s'.IsPart t := by
  induction t using hs.founded.induction with
  | _ t ih =>
    refine .intro t fun p hp => ?_
    rw [IsPart, children, h.data ht] at hp
    have hknown := hs.parts t _ ht.lookup_data p hp
    exact ih p hp hknown

theorem known_congr (htypes : s'.types = s.types) : s'.Known t ↔ s.Known t := by
  rw [Known, Known, lookup_congr htypes]

theorem Arranged.of_tables (h : s.Arranged) (htypes : s'.types = s.types) (hgrows : s.Grows s') :
    s'.Arranged where
  parts t d hd p hp := by
    rw [lookup_congr htypes] at hd
    exact hgrows.known (h.parts t d hd p hp)
  listed t d hd := by
    rw [lookup_congr htypes] at hd
    exact hgrows.listed (h.parts t d hd) (h.listed t d hd)
  founded := by
    have hsame : s'.IsPart = s.IsPart := by
      funext p t
      rw [IsPart, IsPart, children, children, data, data, lookup_congr htypes]
    rw [hsame]
    exact h.founded

theorem known_store : (s.store d).Known t ↔ t = s.freshId d ∨ s.Known t := by
  by_cases ht : t = s.freshId d
  · simp [Known, lookup_store, ht]
  · simp [Known, lookup_store, ht]

theorem Arranged.store (h : s.Arranged) (hparts : ∀ p ∈ d.parts, s.Known p) (hd : s.Listed d) :
    (s.store d).Arranged := by
  have hgrows := s.grows_store d
  refine ⟨fun t e he => ?_, fun t e he => ?_, ⟨fun t => ?_⟩⟩
  · rw [lookup_store] at he
    split at he
    · cases he
      exact fun p hp => hgrows.known (hparts p hp)
    · exact fun p hp => hgrows.known (h.parts t e he p hp)
  · rw [lookup_store] at he
    split at he
    · cases he
      exact hgrows.listed hparts hd
    · exact hgrows.listed (h.parts t e he) (h.listed t e he)
  · by_cases hknown : (s.store d).Known t
    · rcases known_store.1 hknown with rfl | hold
      · refine .intro _ fun p hp => ?_
        have hnew : (s.store d).data (s.freshId d) = d :=
          data_of_lookup (by rw [lookup_store, if_pos rfl])
        rw [IsPart, children, hnew] at hp
        exact hgrows.acc h (hparts p hp)
      · exact hgrows.acc h hold
    · refine .intro t fun p hp => ?_
      rw [IsPart, children_of_not_known hknown] at hp
      cases hp

end Growing

inductive Effect (s : TypeStore) : TypeId × TypeStore → Prop where
  | found {s' : TypeStore} {t : TypeId} (htypes : s'.types = s.types) (hgrows : s.Grows s')
      (ht : s.Known t) : Effect s (t, s')
  | stored {s' : TypeStore} {d : TypeData} (htypes : s'.types = s.types) (hgrows : s.Grows s')
      (hparts : ∀ p ∈ d.parts, s.Known p) (hlisted : s'.Listed d) (hfixed : d.fixedId? = none)
      (hnew : s'.types.find? d = none) : Effect s (s'.freshId d, s'.store d)

namespace Effect

theorem known_iff (h : s.Effect made) : made.2.Known t ↔ t = made.1 ∨ s.Known t := by
  cases h with
  | found htypes _ hu =>
    rw [known_congr htypes]
    refine ⟨.inr, ?_⟩
    rintro (rfl | ht)
    · exact hu
    · exact ht
  | stored htypes => rw [known_store, known_congr htypes]

theorem arranged (h : s.Effect made) (hs : s.Arranged) : made.2.Arranged := by
  cases h with
  | found htypes hgrows => exact hs.of_tables htypes hgrows
  | stored htypes hgrows hparts hlisted =>
    have htables := hs.of_tables htypes hgrows
    exact htables.store (fun p hp => hgrows.known (hparts p hp)) hlisted

theorem grows (h : s.Effect made) : s.Grows made.2 := by
  cases h with
  | found _ hgrows => exact hgrows
  | stored _ hgrows => exact hgrows.trans (grows_store _ _)

theorem unrepeated (h : s.Effect made) (hs : s.Unrepeated) : made.2.Unrepeated := by
  cases h with
  | found htypes => exact hs.of_types htypes
  | stored htypes _ _ _ hfixed hnew => exact (hs.of_types htypes).store hfixed hnew

theorem none (ht : s.Known t) : s.Effect (t, s) := .found rfl (.refl s) ht

theorem intern (htypes : s'.types = s.types) (hgrows : s.Grows s')
    (hparts : ∀ p ∈ d.parts, s.Known p) (hlisted : s'.Listed d) :
    s.Effect (TypeStore.intern d s') := by
  rcases s'.intern_cases d with ⟨t, ht, hintern⟩ | ⟨hfixed, hnew, hintern⟩
  · rw [hintern]
    rw [lookup_congr htypes] at ht
    exact .found htypes hgrows ⟨d, ht⟩
  · rw [hintern]
    exact .stored htypes hgrows hparts hlisted hfixed hnew

theorem internParts (hlisted : s.Listed d) (hparts : ∀ p ∈ d.parts, s.Known p) :
    s.Effect (TypeStore.intern d s) :=
  intern rfl (.refl s) hparts hlisted

theorem element (tag : String) : s.Effect (TypeStore.element tag s) := by
  unfold TypeStore.element
  split
  · exact none (known_fixed s (d := .element .wildcard) rfl)
  · split
    · exact none (known_fixed s (d := .element .any) rfl)
    · exact internParts (d := .element (.named tag)) trivial fun p hp => nomatch hp

theorem record {properties : List (RecordProperty TypeId)}
    (hknown : ∀ p ∈ properties, s.Known p.type) : s.Effect (TypeStore.record properties s) := by
  change s.Effect (TypeStore.intern (.record (recordShape properties s).1)
    (recordShape properties s).2)
  rw [recordShape]
  split
  next known hfind =>
    have hsame : byName known = byName properties := by simpa using Array.find?_some hfind
    have hmem : known ∈ s.records := Array.mem_of_find?_eq_some hfind
    refine internParts (d := .record known) hmem (List.forall_mem_map.2 fun p hp => ?_)
    exact hknown p ((perm_of_byName_eq hsame).mem_iff.1 hp)
  next =>
    have hgrows : s.Grows { s with records := s.records.push properties } :=
      ⟨fun _ _ => id, fun _ => id, fun _ => Array.mem_push_of_mem _, fun _ => id, fun _ => id⟩
    exact intern rfl hgrows (List.forall_mem_map.2 hknown) Array.mem_push_self

theorem template {parameters : List (TemplateParameter TypeId)} {result : TypeId}
    (hknown : ∀ t ∈ parameters.map (·.type) ++ [result], s.Known t) :
    s.Effect (TypeStore.template parameters result s) := by
  change s.Effect (TypeStore.intern (.template ⟨parameters, result⟩)
    (rememberTemplate ⟨parameters, result⟩ s).2)
  rw [rememberTemplate_run]
  exact intern rfl ⟨fun _ _ => id, fun _ => id, fun _ => id, fun _ => mem_remembered _, fun _ => id⟩
    hknown (self_mem_remembered ..)

theorem function {parameters : List (FunctionParameter TypeId)} {result : TypeId}
    (hknown : ∀ t ∈ parameters.map (·.type) ++ [result], s.Known t) :
    s.Effect (TypeStore.function parameters result s) := by
  change s.Effect (TypeStore.intern (.function ⟨parameters, result⟩)
    (rememberFunction ⟨parameters, result⟩ s).2)
  rw [rememberFunction_run]
  exact intern rfl ⟨fun _ _ => id, fun _ => id, fun _ => id, fun _ => id, fun _ => mem_remembered _⟩
    hknown (self_mem_remembered ..)

theorem combined {form : List TypeId → TypeData} {k : Kind} {c : Combined} {neutral : TypeId}
    {absorbing members : List TypeId} (hparts : ∀ members, (form members).parts = members)
    (hform : ∀ {s : TypeStore} {members}, members ∈ s.lists → s.Normal k members →
      s.Listed (form members))
    (hneutral : s.Known neutral)
    (hcover : ∀ t ∈ [TypeId.error, .any, .unknown, .never], t ≠ neutral → t ∈ absorbing)
    (hmembers : ∀ t ∈ members, s.Known t ∧ s.kind t ≠ k)
    (hc : (∃ t ∈ absorbing, t ∈ members ∧ c = .one t) ∨
      (∀ t ∈ absorbing, t ∉ members) ∧ c = .ofMembers neutral (essential neutral members)) :
    s.Effect (finish form c s) := by
  rcases combined_cases hcover (fun t ht => (hmembers t ht).2) hc with
    ⟨t, rfl, rfl | ht⟩ | ⟨ns, rfl, hsub, hnormal⟩
  · exact none hneutral
  · exact none (hmembers t ht).1
  · have hknown : ∀ t ∈ ns, s.Known t := fun t ht => (hmembers t (hsub t ht)).1
    have hgrows : s.Grows { s with lists := remembered s.lists ns } :=
      ⟨fun _ _ => id, fun _ => mem_remembered _, fun _ => id, fun _ => id, fun _ => id⟩
    have hlisted := hform (self_mem_remembered s.lists ns) (hgrows.normal hknown hnormal)
    change s.Effect (TypeStore.intern _ (rememberList ns s).2)
    rw [rememberList_run]
    refine intern rfl hgrows ?_ hlisted
    rwa [hparts]

end Effect

section Members

theorem removeNullish_run (t : TypeId) (s : TypeStore) : removeNullish t s =
    if (s.unionMembers t).any (·.isNullish) then
      TypeStore.union ((s.unionMembers t).filter (!·.isNullish)) s
    else (t, s) := by
  change (if (s.unionMembers t).any (·.isNullish) then
    TypeStore.union ((s.unionMembers t).filter (!·.isNullish)) else pure t : Making TypeId) s = _
  split <;> rfl

theorem Arranged.unionMembers (h : s.Arranged) (ht : s.Known t) (hu : u ∈ s.unionMembers t) :
    s.Known u ∧ s.kind u ≠ .union := by
  rcases mem_unionMembers.1 hu with ⟨members, hd, hu⟩ | ⟨hkind, rfl⟩
  · have hlookup := hd ▸ ht.lookup_data
    have hlisted := h.listed t _ hlookup
    exact ⟨h.parts t _ hlookup u hu, hlisted.2.flat u hu⟩
  · exact ⟨ht, hkind⟩

theorem Arranged.intersectionMembers (h : s.Arranged) (ht : s.Known t)
    (hu : u ∈ s.intersectionMembers t) : s.Known u ∧ s.kind u ≠ .intersection := by
  rcases mem_intersectionMembers.1 hu with ⟨members, hd, hu⟩ | ⟨hkind, rfl⟩
  · have hlookup := hd ▸ ht.lookup_data
    have hlisted := h.listed t _ hlookup
    exact ⟨h.parts t _ hlookup u hu, hlisted.2.flat u hu⟩
  · exact ⟨ht, hkind⟩

theorem Effect.union (h : s.Arranged) {types : List TypeId} (hknown : ∀ t ∈ types, s.Known t) :
    s.Effect (TypeStore.union types s) := by
  have hnever : s.Known .never := known_fixed s (d := .intrinsic .never) rfl
  match types with
  | [] => exact .none hnever
  | [t] => exact .none (hknown t (List.mem_singleton_self t))
  | t :: u :: rest =>
    rw [union_run _ (Nat.le_add_left ..)]
    refine .combined (fun _ => rfl) (fun hmem hnormal => ⟨hmem, hnormal⟩) hnever (by decide) ?_
      (normalizeUnion_cases _)
    intro v hv
    obtain ⟨w, hw, hv⟩ := List.mem_flatMap.1 hv
    exact h.unionMembers (hknown w hw) hv

theorem Effect.intersection (h : s.Arranged) {types : List TypeId}
    (hknown : ∀ t ∈ types, s.Known t) : s.Effect (TypeStore.intersection types s) := by
  have hunknown : s.Known .unknown := known_fixed s (d := .intrinsic .unknown) rfl
  match types with
  | [] => exact .none hunknown
  | [t] => exact .none (hknown t (List.mem_singleton_self t))
  | t :: u :: rest =>
    rw [intersection_run _ (Nat.le_add_left ..)]
    refine .combined (fun _ => rfl) (fun hmem hnormal => ⟨hmem, hnormal⟩) hunknown (by decide) ?_
      (normalizeIntersection_cases _)
    intro v hv
    obtain ⟨w, hw, hv⟩ := List.mem_flatMap.1 hv
    exact h.intersectionMembers (hknown w hw) hv

end Members

/-- The tables answer under some number with the list or shape of the form. -/
def Resolves (s : TypeStore) : TypeData → Prop
  | .record properties => ∃ index, s.record? index = .ok properties
  | .template shape => ∃ index, s.template? index = .ok shape
  | .function shape => ∃ index, s.function? index = .ok shape
  | .union members => ∃ index, s.list? index = .ok members
  | .intersection members => ∃ index, s.list? index = .ok members
  | _ => True

theorem exists_list? {members : List TypeId} (h : members ∈ s.lists) :
    ∃ index, s.list? index = .ok members := by
  obtain ⟨index, hindex⟩ := Array.getElem?_of_mem h
  exact ⟨index, by rw [list?, hindex]⟩

theorem Listed.resolves (h : s.Listed d) : s.Resolves d := by
  cases d with
  | record properties =>
    obtain ⟨index, hindex⟩ := Array.getElem?_of_mem h
    exact ⟨index, by rw [record?, hindex]⟩
  | template shape =>
    obtain ⟨index, hindex⟩ := Array.getElem?_of_mem h
    exact ⟨index, by rw [template?, hindex]⟩
  | function shape =>
    obtain ⟨index, hindex⟩ := Array.getElem?_of_mem h
    exact ⟨index, by rw [function?, hindex]⟩
  | union members => exact exists_list? h.1
  | intersection members => exact exists_list? h.1
  | _ => trivial

end TypeStore

open TypeStore

theorem Call.effect {s : TypeStore} {c : Call} (h : s.Arranged)
    (hknown : ∀ t ∈ c.arguments, s.Known t) : s.Effect (c.make s) := by
  cases c with
  | list item => exact .internParts (d := .list item) trivial hknown
  | set item => exact .internParts (d := .set item) trivial hknown
  | iterable item => exact .internParts (d := .iterable item) trivial hknown
  | map key value => exact .internParts (d := .map key value) trivial hknown
  | legacyObjectMap key value =>
    exact .internParts (d := .legacyObjectMap key value) trivial hknown
  | literal value => exact .internParts (d := .literal value) trivial hknown
  | message m => exact .internParts (d := .message m) trivial hknown
  | enum e => exact .internParts (d := .enum (.descriptor e)) trivial hknown
  | element tag => exact .element tag
  | record properties => exact .record (List.forall_mem_map.1 hknown)
  | template parameters result => exact .template hknown
  | function parameters result => exact .function hknown
  | union types => exact .union h hknown
  | intersection types => exact .intersection h hknown

namespace Session
variable {σ τ : Session} {place : TypeData → Fin 64} {t : TypeId}

/-- `σ` becomes `τ` by any number of calls on types handed out before. Unlike in `Runs`, a record
may be asked for with one name twice. -/
inductive Continues (σ : Session) : Session → Prop where
  | refl : Continues σ σ
  | call {τ : Session} (h : Continues σ τ) (c : Call) (hc : ∀ t ∈ c.arguments, t ∈ τ.issued) :
      Continues σ (τ.call c)

/-- The session is one of a new store, whatever the calls were. -/
def Arises (σ : Session) : Prop := ∃ place, Continues (start place) σ

theorem Reached.arises (h : σ.Reached) : σ.Arises := by
  obtain ⟨place, hruns⟩ := h
  refine ⟨place, ?_⟩
  induction hruns with
  | refl => exact .refl
  | call _ c hc ih => exact .call ih c hc.2

structure Complete (σ : Session) : Prop where
  arranged : σ.store.Arranged
  known_iff : ∀ t, σ.store.Known t ↔ t ∈ σ.issued

theorem arranged_empty (place : TypeData → Fin 64) : (TypeStore.empty place).Arranged := by
  have hparts {t d} (h : (TypeStore.empty place).lookup t = some d) : d.parts = [] :=
    parts_of_fixedId? (fixedId?_of_lookup_empty h)
  refine ⟨fun t d h p hp => ?_, fun t d h => ?_, ⟨fun t => .intro t fun p hp => ?_⟩⟩
  · rw [hparts h] at hp
    cases hp
  · have hfixed := fixedId?_of_lookup_empty h
    cases d with
    | error | intrinsic | element | enum => trivial
    | _ => cases hfixed
  · by_cases ht : (TypeStore.empty place).Known t
    · rw [IsPart, children, hparts ht.lookup_data] at hp
      cases hp
    · rw [IsPart, children_of_not_known ht] at hp
      cases hp

theorem mem_allFixed {d : TypeData} (h : d.fixedId? = some t) : t ∈ TypeId.allFixed := by
  cases d with
  | error => cases h; decide
  | intrinsic kind => cases h; cases kind <;> decide
  | element tag => cases tag <;> cases h <;> decide
  | enum e => cases e <;> cases h <;> decide
  | _ => cases h

theorem complete_start (place : TypeData → Fin 64) : (start place).Complete where
  arranged := arranged_empty place
  known_iff t := by
    refine ⟨fun ⟨d, hd⟩ => ?_, known_allFixed _⟩
    exact mem_allFixed (fixedId?_of_lookup_empty hd)

theorem Complete.call (h : σ.Complete) {c : Call} (hc : ∀ t ∈ c.arguments, t ∈ σ.issued) :
    (σ.call c).Complete := by
  have heffect := Call.effect h.arranged fun t ht => (h.known_iff t).2 (hc t ht)
  refine ⟨heffect.arranged h.arranged, fun t => ?_⟩
  rw [Session.call, heffect.known_iff, h.known_iff, List.mem_cons]

theorem Arises.complete (h : σ.Arises) : σ.Complete := by
  obtain ⟨place, hcontinues⟩ := h
  induction hcontinues with
  | refl => exact complete_start place
  | call _ c hc ih => exact ih.call hc

theorem Arises.call (h : σ.Arises) {c : Call} (hc : ∀ t ∈ c.arguments, t ∈ σ.issued) :
    (σ.call c).Arises := by
  obtain ⟨place, hcontinues⟩ := h
  exact ⟨place, .call hcontinues c hc⟩

theorem Arises.continues (h : σ.Arises) (hτ : Continues σ τ) : τ.Arises := by
  induction hτ with
  | refl => exact h
  | call _ c hc ih => exact ih.call hc

theorem Arises.effect (h : σ.Arises) {c : Call} (hc : ∀ t ∈ c.arguments, t ∈ σ.issued) :
    σ.store.Effect (c.make σ.store) :=
  Call.effect h.complete.arranged fun t ht => (h.complete.known_iff t).2 (hc t ht)

theorem Arises.grows (h : σ.Arises) (hτ : Continues σ τ) : σ.store.Grows τ.store := by
  induction hτ with
  | refl => exact .refl _
  | call hτ c hc ih => exact ih.trans ((h.continues hτ).effect hc).grows

theorem Arises.unrepeated (h : σ.Arises) : σ.store.Unrepeated := by
  obtain ⟨place, hcontinues⟩ := h
  induction hcontinues with
  | refl => exact (sound_empty place).unrepeated
  | call hτ c hc ih => exact (Arises.effect ⟨place, hτ⟩ hc).unrepeated ih

/-- The session after `null` and `undefined` were taken out of a type. -/
def withoutNullish (σ : Session) (t : TypeId) : Session :=
  ⟨(TypeStore.removeNullish t σ.store).2, (TypeStore.removeNullish t σ.store).1 :: σ.issued⟩

theorem Arises.continues_withoutNullish (h : σ.Arises) (ht : t ∈ σ.issued) :
    Continues σ (σ.withoutNullish t) := by
  have hcomplete := h.complete
  have hmembers : ∀ u ∈ σ.store.unionMembers t, u ∈ σ.issued := fun u hu =>
    (hcomplete.known_iff u).1
      (hcomplete.arranged.unionMembers ((hcomplete.known_iff t).2 ht) hu).1
  rw [withoutNullish, removeNullish_run]
  split
  · refine Continues.refl.call (.union _) fun u hu => ?_
    exact hmembers u (List.mem_filter.1 hu).1
  · refine Continues.refl.call (.union [t]) fun u hu => ?_
    rwa [List.mem_singleton.1 hu]

/-- Stored unions and intersections are normal, all that a stored form refers to is there, every
type handed out is found, and chains of parts come to an end. -/
theorem Arises.store_arranged (h : σ.Arises) :
    (∀ t members, σ.store.lookup t = some (.union members) → σ.store.Normal .union members) ∧
      (∀ t members, σ.store.lookup t = some (.intersection members) →
        σ.store.Normal .intersection members) ∧
      (∀ t d, σ.store.lookup t = some d →
        (∀ p ∈ d.parts, ∃ e, σ.store.data? p = .ok e) ∧ σ.store.Resolves d) ∧
      (∀ t ∈ σ.issued, ∃ d, σ.store.data? t = .ok d) ∧
      WellFounded fun p t => p ∈ σ.store.children t := by
  have hcomplete := h.complete
  have hs := hcomplete.arranged
  have hfound {t} (ht : σ.store.Known t) : ∃ d, σ.store.data? t = .ok d := by
    obtain ⟨d, hd⟩ := ht
    exact ⟨d, by rw [data?, hd]⟩
  refine ⟨fun t members hd => ?_, fun t members hd => ?_, fun t d hd => ?_, fun t ht => ?_,
    hs.founded⟩
  · exact (hs.listed t _ hd).2
  · exact (hs.listed t _ hd).2
  · exact ⟨fun p hp => hfound (hs.parts t d hd p hp), (hs.listed t d hd).resolves⟩
  · exact hfound ((hcomplete.known_iff t).2 ht)

def nestedSession : Session :=
  ((single.call (.union [.null, .int])).call (.intersection [⟨127⟩, .string])).call
    (.record [⟨"a", false, ⟨191⟩⟩, ⟨"a", true, .int⟩])

theorem store_arranged_nested :
    nestedSession.Arises ∧
      nestedSession.store.lookup ⟨191⟩ = some (.intersection [.string, ⟨127⟩]) ∧
      nestedSession.store.Normal .intersection [.string, ⟨127⟩] ∧
      WellFounded fun p t => p ∈ nestedSession.store.children t := by
  have hunion : Continues single (single.call (.union [.null, .int])) :=
    .call .refl _ (by decide +kernel)
  have hintersection := hunion.call (.intersection [⟨127⟩, .string]) (by decide +kernel)
  have hrecord := hintersection.call (.record [⟨"a", false, ⟨191⟩⟩, ⟨"a", true, .int⟩])
    (by decide +kernel)
  have harises : nestedSession.Arises := ⟨_, hrecord⟩
  have hlookup : nestedSession.store.lookup ⟨191⟩ = some (.intersection [.string, ⟨127⟩]) := by
    decide +kernel
  obtain ⟨-, hnormal, -, -, hfounded⟩ := Arises.store_arranged harises
  exact ⟨harises, hlookup, hnormal _ _ hlookup, hfounded⟩

end Session
end TemplateCheck

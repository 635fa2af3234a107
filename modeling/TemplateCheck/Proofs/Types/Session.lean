import TemplateCheck.Proofs.Types.Making

/-! Sequences of calls that make types from types made before. -/

namespace TemplateCheck
open TypeStore

inductive Call where
  | list (item : TypeId)
  | set (item : TypeId)
  | iterable (item : TypeId)
  | map (key value : TypeId)
  | legacyObjectMap (key value : TypeId)
  | element (tag : String)
  | literal (value : String)
  | record (properties : List (RecordProperty TypeId))
  | template (parameters : List (TemplateParameter TypeId)) (result : TypeId)
  | function (parameters : List (FunctionParameter TypeId)) (result : TypeId)
  | message (m : Proto.Registered Proto.MessageDescriptor)
  | enum (e : Proto.Registered Proto.EnumDescriptor)
  | union (types : List TypeId)
  | intersection (types : List TypeId)

namespace Call

def make : Call → Making TypeId
  | list item => TypeStore.list item
  | set item => TypeStore.set item
  | iterable item => TypeStore.iterable item
  | map key value => TypeStore.map key value
  | legacyObjectMap key value => TypeStore.legacyObjectMap key value
  | element tag => TypeStore.element tag
  | literal value => TypeStore.literal value
  | record properties => TypeStore.record properties
  | template parameters result => TypeStore.template parameters result
  | function parameters result => TypeStore.function parameters result
  | message m => TypeStore.message m
  | enum e => TypeStore.enum e
  | union types => TypeStore.union types
  | intersection types => TypeStore.intersection types

def arguments : Call → List TypeId
  | list item | set item | iterable item => [item]
  | map key value | legacyObjectMap key value => [key, value]
  | record properties => properties.map (·.type)
  | template parameters result => parameters.map (·.type) ++ [result]
  | function parameters result => parameters.map (·.type) ++ [result]
  | union types | intersection types => types
  | _ => []

/-- The properties of a record have different names. -/
def Proper : Call → Prop
  | record properties => (properties.map (·.name)).Nodup
  | _ => True

/-- The form that a call asks for, unless it combines types. -/
def form? : Call → Option TypeData
  | list item => some (.list item)
  | set item => some (.set item)
  | iterable item => some (.iterable item)
  | map key value => some (.map key value)
  | legacyObjectMap key value => some (.legacyObjectMap key value)
  | element tag => some (.element (elementTag tag))
  | literal value => some (.literal value)
  | record properties => some (.record properties)
  | template parameters result => some (.template ⟨parameters, result⟩)
  | function parameters result => some (.function ⟨parameters, result⟩)
  | message m => some (.message m)
  | enum e => some (.enum (.descriptor e))
  | union _ => none
  | intersection _ => none

theorem parts_form? {c : Call} {d : TypeData} (h : c.form? = some d) : d.parts = c.arguments := by
  cases c <;> cases h <;> rfl

def Answers (d e : TypeData) : Prop :=
  d = e ∨ ∃ ps qs, d = .record ps ∧ e = .record qs ∧ ps.Perm qs

variable {s : TypeStore} {c : Call}

theorem stored (h : s.Sound) (hc : c.Proper) (hknown : ∀ t ∈ c.arguments, s.Known t) {d : TypeData}
    (hd : c.form? = some d) : ∃ e, Answers e d ∧ s.Stored (c.make s) e := by
  cases c with
  | record properties =>
    cases hd
    obtain ⟨known, hperm, hstored⟩ := h.record (List.forall_mem_map.1 hknown) hc
    exact ⟨_, .inr ⟨known, properties, rfl, rfl, hperm⟩, hstored⟩
  | template parameters result =>
    cases hd
    obtain ⟨hparams, hresult⟩ := List.forall_mem_append.1 hknown
    exact ⟨_, .inl rfl, h.template (List.forall_mem_map.1 hparams)
      (hresult result (List.mem_singleton_self _))⟩
  | function parameters result =>
    cases hd
    obtain ⟨hparams, hresult⟩ := List.forall_mem_append.1 hknown
    exact ⟨_, .inl rfl, h.function (List.forall_mem_map.1 hparams)
      (hresult result (List.mem_singleton_self _))⟩
  | element tag =>
    cases hd
    exact ⟨_, .inl rfl, h.element tag⟩
  | union | intersection => cases hd
  | list item =>
    cases hd
    exact ⟨_, .inl rfl, h.internParts (d := .list item) trivial hknown⟩
  | set item =>
    cases hd
    exact ⟨_, .inl rfl, h.internParts (d := .set item) trivial hknown⟩
  | iterable item =>
    cases hd
    exact ⟨_, .inl rfl, h.internParts (d := .iterable item) trivial hknown⟩
  | map key value =>
    cases hd
    exact ⟨_, .inl rfl, h.internParts (d := .map key value) trivial hknown⟩
  | legacyObjectMap key value =>
    cases hd
    exact ⟨_, .inl rfl, h.internParts (d := .legacyObjectMap key value) trivial hknown⟩
  | literal value =>
    cases hd
    exact ⟨_, .inl rfl, h.internParts (d := .literal value) trivial hknown⟩
  | message m =>
    cases hd
    exact ⟨_, .inl rfl, h.internParts (d := .message m) trivial hknown⟩
  | enum e =>
    cases hd
    exact ⟨_, .inl rfl, h.internParts (d := .enum (.descriptor e)) trivial hknown⟩

theorem made (h : s.Sound) (hc : c.Proper) (hknown : ∀ t ∈ c.arguments, s.Known t) :
    s.Made (c.make s) := by
  cases hd : c.form? with
  | some d =>
    obtain ⟨e, -, hstored⟩ := stored h hc hknown hd
    exact hstored.toMade
  | none =>
    cases c with
    | union types => exact h.union hknown
    | intersection types => exact h.intersection hknown
    | _ => cases hd

end Call

def TypeId.allFixed : List TypeId :=
  [error, any, unknown, never, null, undefined, bool, int, float, string, html, css, js, uri,
    trustedResourceUri, attributes, element, anyElement, message, anyEnum, unknownEnum]

structure Session where
  store : TypeStore
  issued : List TypeId

namespace Session
variable {σ τ : Session} {place : TypeData → Fin 64}

def start (place : TypeData → Fin 64) : Session := ⟨.empty place, TypeId.allFixed⟩

def single : Session := start fun _ => Fin.last 63

def call (σ : Session) (c : Call) : Session :=
  ⟨(c.make σ.store).2, (c.make σ.store).1 :: σ.issued⟩

def Allows (σ : Session) (c : Call) : Prop := c.Proper ∧ ∀ t ∈ c.arguments, t ∈ σ.issued

/-- `σ` becomes `τ` by any number of calls on types handed out before. -/
inductive Runs (σ : Session) : Session → Prop where
  | refl : Runs σ σ
  | call {τ : Session} (h : Runs σ τ) (c : Call) (hc : τ.Allows c) : Runs σ (τ.call c)

theorem Runs.trans {υ : Session} (h : Runs σ τ) (h' : Runs τ υ) : Runs σ υ := by
  induction h' with
  | refl => exact h
  | call _ c hc ih => exact ih.call c hc

theorem Runs.issued_subset (h : Runs σ τ) {t : TypeId} (ht : t ∈ σ.issued) : t ∈ τ.issued := by
  induction h with
  | refl => exact ht
  | call _ c _ ih => exact List.mem_cons_of_mem _ ih

/-- The session is one of a new store, whose types are placed by any function. -/
def Reached (σ : Session) : Prop := ∃ place, Runs (start place) σ

theorem reached_single : single.Reached := ⟨_, .refl⟩

theorem Reached.call (h : σ.Reached) (c : Call) (hc : σ.Allows c) : (σ.call c).Reached := by
  obtain ⟨place, hr⟩ := h
  exact ⟨place, hr.call c hc⟩

theorem Reached.fixed_issued (h : σ.Reached) {t : TypeId} (ht : t ∈ TypeId.allFixed) :
    t ∈ σ.issued := by
  obtain ⟨place, hr⟩ := h
  exact hr.issued_subset ht

theorem Reached.call_fixed (h : σ.Reached) (c : Call) (hproper : c.Proper)
    (hfixed : ∀ t ∈ c.arguments, t ∈ TypeId.allFixed) : (σ.call c).Reached :=
  h.call c ⟨hproper, fun t ht => h.fixed_issued (hfixed t ht)⟩

structure Valid (σ : Session) : Prop where
  sound : σ.store.Sound
  known : ∀ t ∈ σ.issued, σ.store.Known t

theorem known_allFixed (s : TypeStore) {t : TypeId} (ht : t ∈ TypeId.allFixed) : s.Known t := by
  have hfixed : ∀ t ∈ TypeId.allFixed, t.isFixed ∧ (TypeData.ofFixed? t).isSome := by decide
  obtain ⟨hnumber, hdata⟩ := hfixed t ht
  obtain ⟨d, hd⟩ := Option.isSome_iff_exists.1 hdata
  exact ⟨d, by rw [lookup, if_pos hnumber, hd]⟩

theorem fixedId?_of_lookup_empty {t : TypeId} {d : TypeData}
    (h : (TypeStore.empty place).lookup t = some d) : d.fixedId? = some t := by
  rcases fixed_or_stored t with ht | ⟨code, rfl⟩
  · exact fixedId?_of_lookup ht h
  · rw [lookup_stored, TypeStore.empty, ShardedTable.get?_empty] at h
    cases h

theorem sound_empty (place : TypeData → Fin 64) : (TypeStore.empty place).Sound where
  distinct := ShardedTable.distinct_empty place
  stored code d h := by
    rw [TypeStore.empty, ShardedTable.get?_empty] at h
    cases h
  admits t d h := admits_of_fixedId? _ (fixedId?_of_lookup_empty h)
  ranked := by
    refine ⟨fun _ => 0, fun _ _ => Nat.zero_le _, fun t d h p hp => ?_⟩
    rw [parts_of_fixedId? (fixedId?_of_lookup_empty h)] at hp
    cases hp
  separate := ⟨List.nodup_singleton [], .nil, .nil, .nil⟩

theorem valid_start (place : TypeData → Fin 64) : (start place).Valid :=
  ⟨sound_empty place, fun _ => known_allFixed _⟩

theorem Valid.call (h : σ.Valid) {c : Call} (hc : σ.Allows c) : (σ.call c).Valid := by
  have hmade := Call.made h.sound hc.1 fun t ht => h.known t (hc.2 t ht)
  refine ⟨hmade.sound, fun t ht => ?_⟩
  rcases List.mem_cons.1 ht with rfl | ht
  · exact hmade.known
  · exact hmade.grows.known (h.known t ht)

theorem Valid.grows_call (h : σ.Valid) {c : Call} (hc : σ.Allows c) :
    σ.store.Grows (σ.call c).store :=
  (Call.made h.sound hc.1 fun t ht => h.known t (hc.2 t ht)).grows

theorem Valid.runs (h : σ.Valid) (hr : Runs σ τ) : τ.Valid := by
  induction hr with
  | refl => exact h
  | call _ c hc ih => exact ih.call hc

theorem Valid.grows (h : σ.Valid) (hr : Runs σ τ) : σ.store.Grows τ.store := by
  induction hr with
  | refl => exact .refl _
  | call hr c hc ih => exact ih.trans ((h.runs hr).grows_call hc)

theorem Reached.valid (h : σ.Reached) : σ.Valid := by
  obtain ⟨place, hr⟩ := h
  exact (valid_start place).runs hr

end Session
end TemplateCheck

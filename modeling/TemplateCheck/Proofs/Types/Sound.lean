import TemplateCheck.Proofs.Numbering
import TemplateCheck.Proofs.Sorting
import TemplateCheck.Types.Store

/-! The invariant of type stores, and what storing a type does to it. -/

namespace TemplateCheck

theorem TypeId.number_injective : Function.Injective TypeId.number := fun t u h => by
  cases t
  cases u
  exact congrArg TypeId.mk h

namespace TypeStore
variable {s s' s'' : TypeStore} {t u : TypeId} {d : TypeData}

def Known (s : TypeStore) (t : TypeId) : Prop := ∃ d, s.lookup t = some d

theorem data_of_lookup (h : s.lookup t = some d) : s.data t = d := by
  rw [data, h]
  rfl

theorem Known.lookup_data (h : s.Known t) : s.lookup t = some (s.data t) := by
  obtain ⟨d, hd⟩ := h
  rw [data_of_lookup hd, hd]

theorem isFixed_of_fixedId? (h : d.fixedId? = some t) : t.isFixed := by
  cases d with
  | error => cases h; rfl
  | intrinsic kind => cases h; cases kind <;> rfl
  | element tag => cases tag <;> cases h <;> rfl
  | enum e => cases e <;> cases h <;> rfl
  | _ => cases h

theorem lookup_fixed (s : TypeStore) (h : d.fixedId? = some t) : s.lookup t = some d := by
  rw [lookup, if_pos (isFixed_of_fixedId? h), TypeData.ofFixed?_of_fixedId? h]

theorem known_fixed (s : TypeStore) (h : d.fixedId? = some t) : s.Known t :=
  ⟨d, s.lookup_fixed h⟩

theorem data_fixed (s : TypeStore) (h : d.fixedId? = some t) : s.data t = d :=
  data_of_lookup (s.lookup_fixed h)

theorem lookup_stored (s : TypeStore) (code : Nat) :
    s.lookup ⟨TypeId.firstStored + code⟩ = s.types.get? code := by
  simp [lookup, TypeId.isFixed]

theorem fixed_or_stored (t : TypeId) : t.isFixed ∨ ∃ code, t = ⟨TypeId.firstStored + code⟩ := by
  cases h : t.isFixed with
  | true => exact .inl rfl
  | false =>
    have hle : TypeId.firstStored ≤ t.number := by simpa [TypeId.isFixed] using h
    exact .inr ⟨t.number - TypeId.firstStored, by rw [Nat.add_sub_cancel' hle]⟩

theorem fixedId?_of_ofFixed? (h : TypeData.ofFixed? t = some d) : d.fixedId? = some t := by
  simpa using List.find?_some h

theorem fixedId?_of_lookup (ht : t.isFixed) (h : s.lookup t = some d) : d.fixedId? = some t := by
  rw [lookup, if_pos ht] at h
  exact fixedId?_of_ofFixed? h

/-- The members of a stored union or intersection, which are not of the same kind themselves. -/
structure Normal (s : TypeStore) (kind : Kind) (members : List TypeId) : Prop where
  two : 2 ≤ members.length
  ascends : Order.Ascends TypeId.number members
  flat : ∀ t ∈ members, s.kind t ≠ kind
  plain : ∀ t ∈ members, t ∉ [TypeId.error, .any, .unknown, .never]

def Recorded (s : TypeStore) : TypeData → Prop
  | .record properties => properties ∈ s.records ∧ (properties.map (·.name)).Nodup
  | .template shape => shape ∈ s.templates
  | .function shape => shape ∈ s.functions
  | .union members => members ∈ s.lists ∧ s.Normal .union members
  | .intersection members => members ∈ s.lists ∧ s.Normal .intersection members
  | _ => True

structure Admits (s : TypeStore) (d : TypeData) : Prop where
  parts : ∀ p ∈ d.parts, s.Known p
  recorded : s.Recorded d

theorem parts_of_fixedId? (h : d.fixedId? = some t) : d.parts = [] := by
  cases d with
  | error | intrinsic | element | enum => rfl
  | _ => cases h

theorem admits_of_fixedId? (s : TypeStore) (h : d.fixedId? = some t) : s.Admits d where
  parts p hp := by
    rw [parts_of_fixedId? h] at hp
    cases hp
  recorded := by
    cases d with
    | error | intrinsic | element | enum => trivial
    | _ => cases h

structure Separate (s : TypeStore) : Prop where
  lists : s.lists.toList.Nodup
  records : (s.records.toList.map byName).Nodup
  templates : s.templates.toList.Nodup
  functions : s.functions.toList.Nodup

structure Sound (s : TypeStore) : Prop where
  distinct : s.types.Distinct
  stored : ∀ code d, s.types.get? code = some d → d.fixedId? = none
  admits : ∀ t d, s.lookup t = some d → s.Admits d
  ranked : ∃ rank : TypeId → Nat, (∀ t, s.Known t → rank t ≤ s.types.size) ∧
    ∀ t d, s.lookup t = some d → ∀ p ∈ d.parts, rank p < rank t
  separate : s.Separate

structure Unrepeated (s : TypeStore) : Prop where
  distinct : s.types.Distinct
  stored : ∀ code d, s.types.get? code = some d → d.fixedId? = none

theorem Unrepeated.lookup_injective (h : s.Unrepeated) (ht : s.lookup t = some d)
    (hu : s.lookup u = some d) : t = u := by
  rcases fixed_or_stored t with hfixed | ⟨code, rfl⟩
  · have hd := fixedId?_of_lookup hfixed ht
    rcases fixed_or_stored u with hfixed' | ⟨code, rfl⟩
    · exact Option.some.inj (hd.symm.trans (fixedId?_of_lookup hfixed' hu))
    · rw [lookup_stored] at hu
      rw [h.stored code d hu] at hd
      cases hd
  · rw [lookup_stored] at ht
    rcases fixed_or_stored u with hfixed' | ⟨code', rfl⟩
    · have hd := fixedId?_of_lookup hfixed' hu
      rw [h.stored code d ht] at hd
      cases hd
    · rw [lookup_stored] at hu
      rw [h.distinct.eq_of_get? ht hu]

theorem Unrepeated.of_types (h : s.Unrepeated) (htypes : s'.types = s.types) : s'.Unrepeated :=
  ⟨htypes ▸ h.distinct, htypes ▸ h.stored⟩

theorem Sound.unrepeated (h : s.Sound) : s.Unrepeated := ⟨h.distinct, h.stored⟩

theorem Sound.lookup_injective (h : s.Sound) (ht : s.lookup t = some d) (hu : s.lookup u = some d) :
    t = u :=
  h.unrepeated.lookup_injective ht hu

theorem Sound.eq_fixed (h : s.Sound) (ht : s.Known t) (hfixed : d.fixedId? = some u)
    (hd : s.data t = d) : t = u :=
  h.lookup_injective (hd ▸ ht.lookup_data) (s.lookup_fixed hfixed)

theorem Sound.known_part {p : TypeId} (h : s.Sound) (ht : s.Known t) (hp : p ∈ (s.data t).parts) :
    s.Known p :=
  (h.admits t _ ht.lookup_data).parts p hp

section Members
variable {members : List TypeId} {k : Kind}

theorem Sound.union_normal (h : s.Sound) (ht : s.Known t) (hd : s.data t = .union members) :
    s.Normal .union members := by
  have hadmits := h.admits t _ (hd ▸ ht.lookup_data)
  exact hadmits.recorded.2

theorem Sound.intersection_normal (h : s.Sound) (ht : s.Known t)
    (hd : s.data t = .intersection members) : s.Normal .intersection members := by
  have hadmits := h.admits t _ (hd ▸ ht.lookup_data)
  exact hadmits.recorded.2

theorem Normal.exists_mem (h : s.Normal k members) : ∃ t, t ∈ members :=
  List.exists_mem_of_length_pos (Nat.lt_of_lt_of_le Nat.two_pos h.two)

theorem Normal.not_isTop (h : s.Normal k members) (ht : t ∈ members) : t.isTop = false := by
  have hplain := h.plain t ht
  simp only [List.mem_cons, List.not_mem_nil, or_false, not_or] at hplain
  simp [TypeId.isTop, hplain]

end Members

theorem Sound.induct (h : s.Sound) {motive : TypeId → Prop}
    (step : ∀ t d, s.lookup t = some d → (∀ p ∈ d.parts, motive p) → motive t) (t : TypeId)
    (ht : s.Known t) : motive t := by
  obtain ⟨rank, -, hrank⟩ := h.ranked
  induction hn : rank t using Nat.strong_induction_on generalizing t with
  | _ n ih =>
    obtain ⟨d, hd⟩ := ht
    refine step t d hd fun p hp => ih (rank p) ?_ p ((h.admits t d hd).parts p hp) rfl
    rw [← hn]
    exact hrank t d hd p hp

/-- What was stored and recorded stays. -/
structure Grows (s s' : TypeStore) : Prop where
  types : ∀ t d, s.lookup t = some d → s'.lookup t = some d
  lists : ∀ members ∈ s.lists, members ∈ s'.lists
  records : ∀ properties ∈ s.records, properties ∈ s'.records
  templates : ∀ shape ∈ s.templates, shape ∈ s'.templates
  functions : ∀ shape ∈ s.functions, shape ∈ s'.functions

namespace Grows

theorem refl (s : TypeStore) : s.Grows s :=
  ⟨fun _ _ => id, fun _ => id, fun _ => id, fun _ => id, fun _ => id⟩

theorem trans (h : s.Grows s') (h' : s'.Grows s'') : s.Grows s'' where
  types t d hd := h'.types t d (h.types t d hd)
  lists members hm := h'.lists members (h.lists members hm)
  records ps hp := h'.records ps (h.records ps hp)
  templates shape hs := h'.templates shape (h.templates shape hs)
  functions shape hs := h'.functions shape (h.functions shape hs)

theorem known (h : s.Grows s') (ht : s.Known t) : s'.Known t := by
  obtain ⟨d, hd⟩ := ht
  exact ⟨d, h.types t d hd⟩

theorem data (h : s.Grows s') (ht : s.Known t) : s'.data t = s.data t :=
  data_of_lookup (h.types t _ ht.lookup_data)

theorem normal {kind : Kind} {members : List TypeId} (h : s.Grows s')
    (hknown : ∀ t ∈ members, s.Known t) (hm : s.Normal kind members) : s'.Normal kind members where
  two := hm.two
  ascends := hm.ascends
  flat t ht := by
    rw [TypeStore.kind, h.data (hknown t ht)]
    exact hm.flat t ht
  plain := hm.plain

theorem admits (h : s.Grows s') (hd : s.Admits d) : s'.Admits d where
  parts p hp := h.known (hd.parts p hp)
  recorded := by
    have hrecorded := hd.recorded
    cases d with
    | record ps => exact ⟨h.records ps hrecorded.1, hrecorded.2⟩
    | template shape => exact h.templates shape hrecorded
    | function shape => exact h.functions shape hrecorded
    | union members => exact ⟨h.lists members hrecorded.1, h.normal hd.parts hrecorded.2⟩
    | intersection members => exact ⟨h.lists members hrecorded.1, h.normal hd.parts hrecorded.2⟩
    | _ => trivial

end Grows

theorem lookup_congr (h : s'.types = s.types) (t : TypeId) : s'.lookup t = s.lookup t := by
  rw [lookup, lookup, h]

theorem Sound.of_tables (h : s.Sound) (htypes : s'.types = s.types) (hgrows : s.Grows s')
    (hseparate : s'.Separate) : s'.Sound where
  distinct := htypes ▸ h.distinct
  stored := htypes ▸ h.stored
  admits t d hd := hgrows.admits (h.admits t d (lookup_congr htypes t ▸ hd))
  ranked := by
    obtain ⟨rank, hbound, hrank⟩ := h.ranked
    refine ⟨rank, fun t ht => ?_, fun t d hd => hrank t d (lookup_congr htypes t ▸ hd)⟩
    obtain ⟨d, hd⟩ := ht
    rw [htypes]
    exact hbound t ⟨d, lookup_congr htypes t ▸ hd⟩
  separate := hseparate

/-- Making the type `made.1` leaves a sound store that knows it. -/
structure Made (s : TypeStore) (made : TypeId × TypeStore) : Prop where
  sound : made.2.Sound
  grows : s.Grows made.2
  known : made.2.Known made.1

structure Stored (s : TypeStore) (made : TypeId × TypeStore) (d : TypeData) : Prop
    extends Made s made where
  lookup : made.2.lookup made.1 = some d

theorem Stored.of_lookup {made : TypeId × TypeStore} (hsound : made.2.Sound)
    (hgrows : s.Grows made.2) (h : made.2.lookup made.1 = some d) : s.Stored made d :=
  ⟨⟨hsound, hgrows, ⟨d, h⟩⟩, h⟩

theorem Stored.trans_grows {made : TypeId × TypeStore} (hgrows : s.Grows s')
    (h : s'.Stored made d) : s.Stored made d :=
  .of_lookup h.sound (hgrows.trans h.grows) h.lookup

section Interning

def store (s : TypeStore) (d : TypeData) : TypeStore := { s with types := (s.types.insertNew d).2 }

def freshId (s : TypeStore) (d : TypeData) : TypeId :=
  ⟨TypeId.firstStored + (s.types.insertNew d).1⟩

theorem intern_cases (s : TypeStore) (d : TypeData) :
    (∃ t, s.lookup t = some d ∧ intern d s = (t, s)) ∨
      d.fixedId? = none ∧ s.types.find? d = none ∧ intern d s = (s.freshId d, s.store d) := by
  rw [intern]
  cases hfixed : d.fixedId? with
  | some t => exact .inl ⟨t, lookup_fixed s hfixed, rfl⟩
  | none =>
    rcases s.types.intern_cases d with ⟨code, hcode, hintern⟩ | ⟨hnew, hintern⟩
    · refine .inl ⟨⟨TypeId.firstStored + code⟩, ?_, ?_⟩
      · rw [lookup_stored, hcode]
      · simp only [hintern]
    · refine .inr ⟨rfl, hnew, ?_⟩
      simp only [hintern]
      rfl

theorem lookup_store (s : TypeStore) (d : TypeData) (t : TypeId) :
    (s.store d).lookup t = if t = s.freshId d then some d else s.lookup t := by
  rcases fixed_or_stored t with hfixed | ⟨code, rfl⟩
  · have hne : t ≠ s.freshId d := by
      rintro rfl
      simp [TypeId.isFixed, freshId] at hfixed
    rw [if_neg hne, lookup, lookup, if_pos hfixed, if_pos hfixed]
  · rw [lookup_stored, lookup_stored, store, ShardedTable.get?_insertNew]
    simp [freshId]

theorem lookup_intern (s : TypeStore) (d : TypeData) :
    (intern d s).2.lookup (intern d s).1 = some d := by
  rcases s.intern_cases d with ⟨t, ht, hintern⟩ | ⟨-, -, hintern⟩
  · rw [hintern]
    exact ht
  · rw [hintern, lookup_store, if_pos rfl]

theorem Unrepeated.intern_eq (h : s.Unrepeated) (ht : s.lookup t = some d) :
    intern d s = (t, s) := by
  rcases s.intern_cases d with ⟨u, hu, hintern⟩ | ⟨hfixed, hnew, -⟩
  · rw [hintern, h.lookup_injective hu ht]
  · rcases fixed_or_stored t with hnumber | ⟨code, rfl⟩
    · rw [fixedId?_of_lookup hnumber ht] at hfixed
      cases hfixed
    · rw [lookup_stored] at ht
      exact absurd ht (h.distinct.get?_ne_of_find? hnew code)

theorem lookup_freshId (s : TypeStore) (d : TypeData) : s.lookup (s.freshId d) = none := by
  rw [freshId, lookup_stored, ShardedTable.get?_insertNew_fresh]

theorem grows_store (s : TypeStore) (d : TypeData) : s.Grows (s.store d) where
  types t e he := by
    have hne : t ≠ s.freshId d := by
      rintro rfl
      rw [lookup_freshId] at he
      cases he
    rw [lookup_store, if_neg hne, he]
  lists _ := id
  records _ := id
  templates _ := id
  functions _ := id

theorem Unrepeated.store (h : s.Unrepeated) (hfixed : d.fixedId? = none)
    (hnew : s.types.find? d = none) : (s.store d).Unrepeated where
  distinct := h.distinct.insertNew hnew
  stored code e he := by
    rw [TypeStore.store, ShardedTable.get?_insertNew] at he
    split at he
    · cases he
      exact hfixed
    · exact h.stored code e he

/-- The new type ranks above all others, which its parts are among. -/
theorem Sound.store (h : s.Sound) (hd : s.Admits d) (hfixed : d.fixedId? = none)
    (hnew : s.types.find? d = none) : (s.store d).Sound where
  distinct := (h.unrepeated.store hfixed hnew).distinct
  stored := (h.unrepeated.store hfixed hnew).stored
  admits t e he := by
    refine (s.grows_store d).admits ?_
    rw [lookup_store] at he
    split at he
    · cases he
      exact hd
    · exact h.admits t e he
  ranked := by
    obtain ⟨rank, hbound, hrank⟩ := h.ranked
    have hold {p : TypeId} (hp : s.Known p) : p ≠ s.freshId d := by
      rintro rfl
      obtain ⟨e, he⟩ := hp
      rw [lookup_freshId] at he
      cases he
    have hsize : (s.store d).types.size = s.types.size + 1 := s.types.size_insertNew d
    refine ⟨fun t => if t = s.freshId d then s.types.size + 1 else rank t, fun t ht => ?_,
      fun t e he p hp => ?_⟩
    · obtain ⟨e, he⟩ := ht
      rw [lookup_store] at he
      rw [hsize]
      dsimp only
      split at he
      next ht => rw [if_pos ht]
      next ht =>
        rw [if_neg ht]
        exact (hbound t ⟨e, he⟩).trans (Nat.le_succ _)
    · rw [lookup_store] at he
      dsimp only
      split at he
      next ht =>
        cases he
        have hknown := hd.parts p hp
        rw [if_neg (hold hknown), if_pos ht]
        exact Nat.lt_succ_of_le (hbound p hknown)
      next ht =>
        rw [if_neg (hold ((h.admits t e he).parts p hp)), if_neg ht]
        exact hrank t e he p hp
  separate := ⟨h.separate.lists, h.separate.records, h.separate.templates, h.separate.functions⟩

theorem Sound.intern (h : s.Sound) (hd : s.Admits d) : s.Stored (TypeStore.intern d s) d := by
  rcases s.intern_cases d with ⟨t, ht, hintern⟩ | ⟨hfixed, hnew, hintern⟩
  · rw [hintern]
    exact .of_lookup h (.refl s) ht
  · rw [hintern]
    exact .of_lookup (h.store hd hfixed hnew) (s.grows_store d) (by rw [lookup_store, if_pos rfl])

end Interning

end TypeStore
end TemplateCheck

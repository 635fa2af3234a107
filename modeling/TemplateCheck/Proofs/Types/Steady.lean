import TemplateCheck.Proofs.Types.Identity

/-! Making types once more. In a store that has grown, a computation that has been run before gives
the same result and stores nothing. -/

namespace TemplateCheck

theorem ShardedTable.Distinct.intern_of_get? {α : Type} [DecidableEq α] {t : ShardedTable α}
    (h : t.Distinct) {code : Nat} {a : α} (ha : t.get? code = some a) : t.intern a = (code, t) := by
  rcases t.intern_cases a with ⟨code', ha', hintern⟩ | ⟨hnew, -⟩
  · rw [hintern, h.eq_of_get? ha' ha]
  · exact absurd ha (h.get?_ne_of_find? hnew code)

namespace TypeStore
variable {s s' : TypeStore} {t : TypeId} {d : TypeData}

theorem Sound.intern_again (h : s.Sound) (ht : s.lookup t = some d) :
    TypeStore.intern d s = (t, s) := by
  rcases s.intern_cases d with ⟨u, hu, hintern⟩ | ⟨hfixed, hnew, -⟩
  · rw [hintern, h.lookup_injective hu ht]
  · rcases fixed_or_stored t with ht' | ⟨code, rfl⟩
    · rw [fixedId?_of_lookup ht' ht] at hfixed
      cases hfixed
    · rw [lookup_stored] at ht
      rw [TypeStore.intern, hfixed]
      dsimp only
      rw [h.distinct.intern_of_get? ht]

end TypeStore

open TypeStore

/-- Run in `s`, the computation leaves a sound store that has grown, where its result meets `post`.
Whatever the store grows to then, the computation gives the result again and changes nothing. -/
structure Steady {α : Type} (m : Making α) (s : TypeStore) (post : TypeStore → α → Prop) :
    Prop where
  sound : (m s).2.Sound
  grows : s.Grows (m s).2
  again : ∀ s' : TypeStore, s'.Sound → (m s).2.Grows s' → m s' = ((m s).1, s')
  result : post (m s).2 (m s).1

namespace Steady

section Steps
variable {α β : Type} {m : Making α} {f : α → Making β} {s : TypeStore}
  {P P' : TypeStore → α → Prop} {Q : TypeStore → β → Prop}

theorem ret {a : α} (hs : s.Sound) (h : P s a) : Steady (pure a) s P :=
  ⟨hs, .refl s, fun _ _ _ => rfl, h⟩

theorem mono (hm : Steady m s P) (h : ∀ s' a, s'.Sound → s.Grows s' → P s' a → P' s' a) :
    Steady m s P' :=
  ⟨hm.sound, hm.grows, hm.again, h _ _ hm.sound hm.grows hm.result⟩

theorem bind (hm : Steady m s P)
    (hf : ∀ a s', s'.Sound → s.Grows s' → P s' a → Steady (f a) s' Q) : Steady (m >>= f) s Q := by
  obtain ⟨hsound, hgrows, hagain, hresult⟩ := hm
  obtain ⟨hsound', hgrows', hagain', hresult'⟩ := hf _ _ hsound hgrows hresult
  refine ⟨hsound', hgrows.trans hgrows', fun s' hs' hlater => ?_, hresult'⟩
  have hfirst := hagain s' hs' (hgrows'.trans hlater)
  change f (m s').1 (m s').2 = _
  rw [hfirst]
  exact hagain' s' hs' hlater

theorem map {g : α → β} (hm : Steady m s P) (h : ∀ s' a, P s' a → Q s' (g a)) :
    Steady (g <$> m) s Q := by
  refine ⟨hm.sound, hm.grows, fun s' hs' hlater => ?_, h _ _ hm.result⟩
  change (g (m s').1, (m s').2) = _
  rw [hm.again s' hs' hlater]
  rfl

theorem congr {m' : Making α} (hm : Steady m s P)
    (h : ∀ s' : TypeStore, s'.Sound → s.Grows s' → m' s' = m s') (hs : s.Sound) :
    Steady m' s P := by
  have hrun := h s hs (.refl s)
  refine ⟨hrun ▸ hm.sound, hrun ▸ hm.grows, fun s' hs' hlater => ?_, hrun ▸ hm.result⟩
  rw [hrun] at hlater ⊢
  rw [h s' hs' (hm.grows.trans hlater), hm.again s' hs' hlater]

end Steps

section Tables
variable {s : TypeStore}

theorem remembered_self {α : Type} [BEq α] [LawfulBEq α] {known : Array α} {a : α}
    (h : a ∈ known) : remembered known a = known := by
  rw [remembered, if_pos (by simpa using h)]

theorem rememberList (hs : s.Sound) (members : List TypeId) :
    Steady (rememberList members) s fun s' _ => members ∈ s'.lists := by
  obtain ⟨hsound, hgrows, hmem⟩ := hs.rememberList members
  refine ⟨hsound, hgrows, fun s' _ hlater => ?_, hmem⟩
  rw [rememberList_run, remembered_self (hlater.lists _ hmem)]

theorem rememberTemplate (hs : s.Sound) (shape : TemplateShape TypeId) :
    Steady (rememberTemplate shape) s fun s' _ => shape ∈ s'.templates := by
  obtain ⟨hsound, hgrows, hmem⟩ := hs.rememberTemplate shape
  refine ⟨hsound, hgrows, fun s' _ hlater => ?_, hmem⟩
  rw [rememberTemplate_run, remembered_self (hlater.templates _ hmem)]

theorem rememberFunction (hs : s.Sound) (shape : FunctionShape TypeId) :
    Steady (rememberFunction shape) s fun s' _ => shape ∈ s'.functions := by
  obtain ⟨hsound, hgrows, hmem⟩ := hs.rememberFunction shape
  refine ⟨hsound, hgrows, fun s' _ hlater => ?_, hmem⟩
  rw [rememberFunction_run, remembered_self (hlater.functions _ hmem)]

theorem byName_recordShape (properties : List (RecordProperty TypeId)) (s : TypeStore) :
    byName (recordShape properties s).1 = byName properties := by
  rw [recordShape]
  split
  next known hfind => simpa using Array.find?_some hfind
  next => rfl

theorem recordShape (hs : s.Sound) (properties : List (RecordProperty TypeId)) :
    Steady (recordShape properties) s fun s' known =>
      known ∈ s'.records ∧ known.Perm properties := by
  obtain ⟨hsound, hgrows, hmem, hperm⟩ := hs.recordShape properties
  refine ⟨hsound, hgrows, fun s' hs' hlater => ?_, hmem, hperm⟩
  have hbyName := byName_recordShape properties s
  generalize (TypeStore.recordShape properties s).1 = known at hmem hbyName ⊢
  have hmem' := hlater.records _ hmem
  cases hfind : s'.records.find? fun known => byName known == byName properties with
  | none => exact absurd (beq_iff_eq.2 hbyName) (Array.find?_eq_none.1 hfind known hmem')
  | some other =>
    have hother : byName other = byName known :=
      Eq.trans (by simpa using Array.find?_some hfind) hbyName.symm
    obtain rfl : other = known := List.inj_on_of_nodup_map hs'.separate.records
      (Array.mem_toList_iff.2 (Array.mem_of_find?_eq_some hfind)) (Array.mem_toList_iff.2 hmem')
      hother
    rw [TypeStore.recordShape, hfind]

theorem intern (hs : s.Sound) {d : TypeData} (hd : s.Admits d) :
    Steady (intern d) s fun s' t => s'.lookup t = some d := by
  have hstored := hs.intern hd
  exact ⟨hstored.sound, hstored.grows,
    fun s' hs' hlater => hs'.intern_again (hlater.types _ d hstored.lookup), hstored.lookup⟩

end Tables
end Steady
end TemplateCheck

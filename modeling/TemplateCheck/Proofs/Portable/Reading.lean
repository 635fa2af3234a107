import TemplateCheck.Portable.Json
import TemplateCheck.Proofs.Portable.Exports
import TemplateCheck.Proofs.Portable.Text
import TemplateCheck.Proofs.Resolve.Tagging
import TemplateCheck.Proofs.TypeExpr.Acceptance
import TemplateCheck.Proofs.TypeExpr.RoundTrip
import TemplateCheck.Proofs.Types.Fitting

/-! A type that is written as JSON is read back as itself, unless the text nests too deep. -/

namespace TemplateCheck
open PortableType TypeStore

/-- What is relied on: the library writes the encoding of a type compactly, and it reads a compact
text exactly up to the nesting limit. -/
structure JsonLibrary.Lawful (lib : JsonLibrary) : Prop where
  writes : ∀ p, Json.Writes p.asJson (lib.write p)
  reads : ∀ {v text}, Json.Writes v text → v.nesting ≤ Json.nestingLimit → lib.read? text = some v
  refuses : ∀ {v text}, Json.Writes v text → Json.nestingLimit < v.nesting → lib.read? text = none

theorem JsonLibrary.lawful_compact : JsonLibrary.compact.Lawful where
  writes := writes_toJson
  reads h hnesting := (Json.parse?_of_writes h).trans (if_pos hnesting)
  refuses h hnesting := (Json.parse?_of_writes h).trans (if_neg (Nat.not_le.2 hnesting))

namespace TypeStore
variable {s : TypeStore} {t : TypeId} {pool : Proto.Pool} {lib : JsonLibrary}

/-- How deep arrays and objects nest in the JSON text of a type. -/
def jsonNesting (s : TypeStore) (t : TypeId) : Nat := (s.toPortable t).asJson.nesting

theorem Sound.jsonNesting_le (h : s.Sound) (ht : s.Known t) :
    s.jsonNesting t ≤ 3 * s.depth t + 2 := by
  refine h.induct (motive := fun t => s.jsonNesting t ≤ 3 * s.depth t + 2)
    (fun t d hd ih => ?_) t ht
  refine nesting_asJson_le fun q hq => ?_
  rw [h.toPortable hd] at hq
  obtain ⟨p, hp, rfl⟩ := mem_children_ofForm.1 hq
  have hpart : s.jsonNesting p ≤ 3 * s.depth p + 2 := ih p hp
  have hdepth : s.depth p < s.depth t := h.depth_lt ⟨d, hd⟩ (by rwa [data_of_lookup hd])
  have hle : s.jsonNesting p + 1 ≤ 3 * s.depth t := by omega
  exact hle

theorem fromJson_toJson (hlib : lib.Lawful) (h : s.Sound) (htagged : s.Tagged) (ht : s.Known t)
    (hpool : s.Throughout (Binds pool) t) (hnesting : s.jsonNesting t ≤ Json.nestingLimit) :
    ∃ s', fromJson lib pool (s.toJson lib t) s = (.ok t, s') ∧ s.Made (t, s') := by
  obtain ⟨u, s', hrun, hmade, halike⟩ := imports_toPortable h htagged ht hpool s h
  have hsame : s'.denote t = s.denote t := hmade.grows.fold h hmade.sound ht
  have hut : u = t :=
    (hmade.sound.alike_iff hmade.known (hmade.grows.known ht)).1 (hsame ▸ halike)
  rw [hut] at hrun hmade
  refine ⟨s', ?_, hmade⟩
  have hread : lib.read? (s.toJson lib t) = some (s.toPortable t).asJson :=
    hlib.reads (hlib.writes _) hnesting
  rw [fromJson, hread, Option.bind_some, ofJson?_asJson hnesting]
  dsimp only
  rw [run_adapt, hrun]
  rfl

theorem fromJson_toJson_deep (hlib : lib.Lawful) (hnesting : Json.nestingLimit < s.jsonNesting t) :
    fromJson lib pool (s.toJson lib t) s = (.error .malformed, s) := by
  have hread : lib.read? (s.toJson lib t) = none := hlib.refuses (hlib.writes _) hnesting
  rw [fromJson, hread]
  rfl

end TypeStore

section Lists
open TypeExpr (same)

def nestedLists : Nat → TypeExpr
  | 0 => .named .unknown "int"
  | k + 1 => .generic .unknown "list" [nestedLists k]

def nestedListTypes : Nat → PortableType
  | 0 => .primitive "int"
  | k + 1 => .list (nestedListTypes k)

theorem nesting_nestedListTypes (k : Nat) : (nestedListTypes k).asJson.nesting = k + 1 := by
  induction k with
  | zero => rfl
  | succ k ih =>
    have hnesting : (nestedListTypes (k + 1)).asJson.nesting =
        max 0 (max (nestedListTypes k).asJson.nesting 0) + 1 := rfl
    rw [hnesting, ih, Nat.zero_max, Nat.max_zero]

theorem wellFormed_nestedLists (k : Nat) : TypeExpr.WellFormed (nestedLists k) := by
  have hname (text : String) (h : TypeExpr.IsPlainName text)
      (hkeyword : text ∉ ["null", "undefined", "true", "false"]) : TypeExpr.IsTypeName text :=
    ⟨h.dotted, hkeyword⟩
  induction k with
  | zero => exact .named _ (hname "int" (by decide) (by decide))
  | succ k ih =>
    exact .generic _ (hname "list" (by decide) (by decide)) (List.forall_mem_singleton.2 ih)

theorem nesting_nestedLists (k : Nat) : (nestedLists k).nesting = k + 1 := by
  induction k with
  | zero => rfl
  | succ k ih =>
    have hnesting : (nestedLists (k + 1)).nesting = max ((nestedLists k).nesting + 0) 0 + 1 := rfl
    rw [hnesting, ih, Nat.add_zero, Nat.max_zero]

theorem resolve_nestedLists (registry : Registry) (pool : Proto.Pool) {e : TypeExpr} {k room : Nat}
    (h : same e (nestedLists k)) (hroom : k < room) {s : TypeStore} (hs : s.Sound)
    (report : Report) :
    ∃ t s', Resolving.resolveWithin registry room e ⟨s, report⟩ = (t, ⟨s', report⟩) ∧ s'.Sound ∧
      s'.Known t ∧ s'.toPortable t = nestedListTypes k ∧ s'.Throughout (Binds pool) t := by
  induction k generalizing e room with
  | zero =>
    obtain ⟨l, rfl⟩ := TypeExpr.eq_named_of_same h
    obtain ⟨room, rfl⟩ := Nat.exists_eq_add_of_le' (Nat.succ_le_of_lt hroom)
    have hlookup : s.lookup .int = some (.intrinsic .int) := s.lookup_fixed rfl
    refine ⟨.int, s, ?_, hs, ⟨_, hlookup⟩, ?_, ?_⟩
    · rw [Resolving.resolveWithin, if_neg (Nat.succ_ne_zero room)]
      rfl
    · rw [hs.toPortable hlookup]
      rfl
    · exact .of_data (data_of_lookup hlookup) trivial (List.forall_mem_nil _)
  | succ k ih =>
    obtain ⟨l, es, rfl, hes⟩ := TypeExpr.eq_generic_of_same h
    obtain ⟨e, rest, he, hrest, rfl⟩ := List.forall₂_cons_right_iff.1 hes
    obtain rfl := List.forall₂_nil_right_iff.1 hrest
    obtain ⟨room, rfl⟩ := Nat.exists_eq_add_of_le' (Nat.succ_le_of_lt (Nat.zero_lt_of_lt hroom))
    obtain ⟨t, s₁, hrun, hs₁, ht, hportable, hbinds⟩ := ih he (Nat.lt_of_succ_lt_succ hroom)
    have hstored : s₁.Stored (TypeStore.list t s₁) (.list t) :=
      hs₁.internParts (d := .list t) trivial (List.forall_mem_singleton.2 ht)
    refine ⟨_, _, ?_, hstored.sound, hstored.known, ?_, ?_⟩
    · have hall : Resolving.resolveAll registry room [e] ⟨s, report⟩ = ([t], ⟨s₁, report⟩) := by
        rw [Resolving.resolveAll, run_bind_eq hrun]
        rfl
      have harity : Registry.arity? "list" = some 1 := by rfl
      rw [Resolving.resolveWithin, if_neg (Nat.succ_ne_zero room), harity]
      dsimp only
      rw [if_neg (by decide), Nat.add_sub_cancel, run_bind_eq hall]
      rfl
    · have hsame : (TypeStore.list t s₁).2.toPortable t = s₁.toPortable t :=
        congrArg Prod.snd (hstored.grows.fold hs₁ hstored.sound ht)
      rw [hstored.sound.toPortable hstored.lookup, nestedListTypes, ← hportable, ← hsame]
      rfl
    · refine .of_data (data_of_lookup hstored.lookup) trivial (List.forall_mem_singleton.2 ?_)
      exact hstored.grows.throughout hs₁ ht hbinds

end Lists

namespace Session
variable {σ : Session} {t : TypeId} {pool : Proto.Pool} {lib : JsonLibrary}

/-- The JSON text of a type is read back as the type itself exactly if its arrays and objects do not
nest deeper than the reader allows, which they never do for types of 41 levels and less. Any other
text is malformed. -/
theorem fromJson_toJson_iff (hlib : lib.Lawful) (hσ : σ.Used) (ht : t ∈ σ.issued)
    (hpool : σ.store.Throughout (Binds pool) t) :
    ((∃ s, fromJson lib pool (σ.store.toJson lib t) σ.store = (.ok t, s) ∧
        σ.store.Made (t, s)) ↔ σ.store.jsonNesting t ≤ Json.nestingLimit) ∧
    (Json.nestingLimit < σ.store.jsonNesting t →
      fromJson lib pool (σ.store.toJson lib t) σ.store = (.error .malformed, σ.store)) ∧
    (σ.store.depth t ≤ 41 → σ.store.jsonNesting t ≤ Json.nestingLimit) := by
  have hvalid := hσ.valid
  have hknown := hvalid.known t ht
  refine ⟨⟨?_, fromJson_toJson hlib hvalid.sound hσ.tagged hknown hpool⟩,
    fromJson_toJson_deep hlib, fun hdepth => ?_⟩
  · rintro ⟨s, hread, -⟩
    by_contra hnesting
    rw [fromJson_toJson_deep hlib (Nat.lt_of_not_le hnesting)] at hread
    cases hread
  · have hnesting := hvalid.sound.jsonNesting_le hknown
    have hlimit : 3 * σ.store.depth t + 2 ≤ Json.nestingLimit := by
      rw [Json.nestingLimit]
      omega
    exact Nat.le_trans hnesting hlimit

def nestedListSession (k : Nat) : Session := single.resolved (.empty ⟨0, [], []⟩) (nestedLists k)

theorem fromJson_toJson_nested : ∃ t ∈ (nestedListSession 126).issued,
    (nestedListSession 126).store.jsonNesting t = Json.nestingLimit ∧
    ((∃ s, fromJson .compact ⟨0, [], []⟩ ((nestedListSession 126).store.toJson .compact t)
        (nestedListSession 126).store = (.ok t, s) ∧ (nestedListSession 126).store.Made (t, s)) ↔
      (nestedListSession 126).store.jsonNesting t ≤ Json.nestingLimit) ∧
    (Json.nestingLimit < (nestedListSession 126).store.jsonNesting t →
      fromJson .compact ⟨0, [], []⟩ ((nestedListSession 126).store.toJson .compact t)
        (nestedListSession 126).store = (.error .malformed, (nestedListSession 126).store)) ∧
    ((nestedListSession 126).store.depth t ≤ 41 →
      (nestedListSession 126).store.jsonNesting t ≤ Json.nestingLimit) := by
  obtain ⟨t, s, hrun, -, -, hportable, hbinds⟩ := resolve_nestedLists (.empty ⟨0, [], []⟩)
    ⟨0, [], []⟩ (TypeExpr.same_refl (nestedLists 126)) (by decide : 126 < TypeExpr.nestingLimit)
    (sound_empty fun _ => Fin.last 63) .empty
  have hsession : nestedListSession 126 = ⟨s, t :: TypeId.allFixed⟩ := by
    rw [nestedListSession, Session.resolved, Resolving.resolve, single, start, hrun]
  have hused : (nestedListSession 126).Used :=
    ⟨_, .resolve .refl _ (List.forall_mem_nil _) (nestedLists 126)⟩
  have hissued : t ∈ (nestedListSession 126).issued := by
    rw [hsession]
    exact List.mem_cons_self ..
  have hnesting : (nestedListSession 126).store.jsonNesting t = Json.nestingLimit := by
    rw [hsession, jsonNesting, hportable, nesting_nestedListTypes, Json.nestingLimit]
  have hpool : (nestedListSession 126).store.Throughout (Binds ⟨0, [], []⟩) t := by
    rwa [hsession]
  exact ⟨t, hissued, hnesting, fromJson_toJson_iff JsonLibrary.lawful_compact hused hissued hpool⟩

/-- Lists can be written down and resolved that nest too deep for their JSON text to be read. -/
theorem fromJson_toJson_too_deep : ∃ e t s,
    TypeExpr.parse (nestedLists 199).print none = .ok e ∧
    Resolving.resolve (.empty ⟨0, [], []⟩) e ⟨single.store, .empty⟩ = (t, ⟨s, .empty⟩) ∧
    s.Throughout (Binds ⟨0, [], []⟩) t ∧
    fromJson .compact ⟨0, [], []⟩ (s.toJson .compact t) s = (.error .malformed, s) := by
  have hwritten : (nestedLists 199).nesting ≤ TypeExpr.nestingLimit := by
    rw [nesting_nestedLists]
    decide
  obtain ⟨e, hparse, hsame⟩ := TypeExpr.parse_print (wellFormed_nestedLists 199) hwritten none
  obtain ⟨t, s, hrun, -, -, hportable, hbinds⟩ := resolve_nestedLists (.empty ⟨0, [], []⟩)
    ⟨0, [], []⟩ hsame (by decide : 199 < TypeExpr.nestingLimit)
    (sound_empty fun _ => Fin.last 63) .empty
  have hnesting : Json.nestingLimit < s.jsonNesting t := by
    rw [jsonNesting, hportable, nesting_nestedListTypes]
    decide
  exact ⟨e, t, s, hparse, hrun, hbinds,
    fromJson_toJson_deep JsonLibrary.lawful_compact hnesting⟩

end Session

end TemplateCheck

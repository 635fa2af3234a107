import Mathlib.Data.List.Forall2
import TemplateCheck.Proofs.Types.Sound
import TemplateCheck.Types.Fold

/-! Types as trees that no store takes part in, and when two trees are the same type. -/

namespace TemplateCheck
variable {α β τ υ : Type}

def Matches (R : α → β → Prop) (as : List α) (bs : List β) : Prop :=
  (∀ a ∈ as, ∃ b ∈ bs, R a b) ∧ ∀ b ∈ bs, ∃ a ∈ as, R a b

theorem matches_map {γ δ : Type} {R : α → β → Prop} {f : γ → α} {g : δ → β} {as : List γ}
    {bs : List δ} :
    Matches R (as.map f) (bs.map g) ↔ Matches (fun a b => R (f a) (g b)) as bs := by
  simp only [Matches, List.mem_map, exists_exists_and_eq_and, forall_exists_index, and_imp,
    forall_apply_eq_imp_iff₂]

theorem Matches.mono {R S : α → β → Prop} {as : List α} {bs : List β} (h : Matches R as bs)
    (hRS : ∀ a ∈ as, ∀ b ∈ bs, R a b → S a b) : Matches S as bs := by
  refine ⟨fun a ha => ?_, fun b hb => ?_⟩
  · obtain ⟨b, hb, hab⟩ := h.1 a ha
    exact ⟨b, hb, hRS a ha b hb hab⟩
  · obtain ⟨a, ha, hab⟩ := h.2 b hb
    exact ⟨a, ha, hRS a ha b hb hab⟩

theorem Matches.refl {R : α → α → Prop} {as : List α} (h : ∀ a ∈ as, R a a) : Matches R as as :=
  ⟨fun a ha => ⟨a, ha, h a ha⟩, fun a ha => ⟨a, ha, h a ha⟩⟩

theorem Matches.mem_iff {as bs : List α} (h : Matches Eq as bs) (a : α) : a ∈ as ↔ a ∈ bs := by
  refine ⟨fun ha => ?_, fun ha => ?_⟩
  · obtain ⟨b, hb, rfl⟩ := h.1 a ha
    exact hb
  · obtain ⟨b, hb, rfl⟩ := h.2 a ha
    exact hb

def RecordProperty.Alike (R : τ → υ → Prop) (p : RecordProperty τ) (q : RecordProperty υ) : Prop :=
  p.name = q.name ∧ p.optional = q.optional ∧ R p.type q.type

def TemplateParameter.Alike (R : τ → υ → Prop) (p : TemplateParameter τ)
    (q : TemplateParameter υ) : Prop :=
  p.name = q.name ∧ p.kind = q.kind ∧ p.required = q.required ∧ R p.type q.type

def FunctionParameter.Alike (R : τ → υ → Prop) (p : FunctionParameter τ)
    (q : FunctionParameter υ) : Prop :=
  p.name = q.name ∧ p.variadic = q.variadic ∧ R p.type q.type

theorem RecordProperty.eq_of_alike {p q : RecordProperty τ} (h : p.Alike Eq q) : p = q := by
  cases p
  cases q
  obtain ⟨rfl, rfl, rfl⟩ := h
  rfl

theorem TemplateParameter.eq_of_alike {p q : TemplateParameter τ} (h : p.Alike Eq q) : p = q := by
  cases p
  cases q
  obtain ⟨rfl, rfl, rfl, rfl⟩ := h
  rfl

theorem FunctionParameter.eq_of_alike {p q : FunctionParameter τ} (h : p.Alike Eq q) : p = q := by
  cases p
  cases q
  obtain ⟨rfl, rfl, rfl⟩ := h
  rfl

/-- The forms are the same layer over parts that `R` relates. Records are maps from names, unions
and intersections are sets, and parameters have an order. -/
inductive TypeForm.Alike (R : τ → υ → Prop) : TypeForm τ → TypeForm υ → Prop where
  | error : Alike R .error .error
  | intrinsic (kind : Intrinsic) : Alike R (.intrinsic kind) (.intrinsic kind)
  | element (tag : ElementTag) : Alike R (.element tag) (.element tag)
  | list {a b} (h : R a b) : Alike R (.list a) (.list b)
  | set {a b} (h : R a b) : Alike R (.set a) (.set b)
  | iterable {a b} (h : R a b) : Alike R (.iterable a) (.iterable b)
  | map {k l a b} (hkey : R k l) (hvalue : R a b) : Alike R (.map k a) (.map l b)
  | legacyObjectMap {k l a b} (hkey : R k l) (hvalue : R a b) :
      Alike R (.legacyObjectMap k a) (.legacyObjectMap l b)
  | record {ps qs} (h : Matches (RecordProperty.Alike R) ps qs) : Alike R (.record ps) (.record qs)
  | template {ps qs a b} (h : List.Forall₂ (TemplateParameter.Alike R) ps qs) (hresult : R a b) :
      Alike R (.template ⟨ps, a⟩) (.template ⟨qs, b⟩)
  | function {ps qs a b} (h : List.Forall₂ (FunctionParameter.Alike R) ps qs) (hresult : R a b) :
      Alike R (.function ⟨ps, a⟩) (.function ⟨qs, b⟩)
  | union {as bs} (h : Matches R as bs) : Alike R (.union as) (.union bs)
  | intersection {as bs} (h : Matches R as bs) : Alike R (.intersection as) (.intersection bs)
  | literal (value : String) : Alike R (.literal value) (.literal value)
  | message (m : Proto.Registered Proto.MessageDescriptor) : Alike R (.message m) (.message m)
  | enum (e : EnumRef) : Alike R (.enum e) (.enum e)

inductive TypeTree where
  | node (form : TypeForm TypeTree)

/-- The trees are the same type. -/
inductive TypeTree.Alike : TypeTree → TypeTree → Prop where
  | node {f g : TypeForm TypeTree} (R : TypeTree → TypeTree → Prop)
      (hR : ∀ a b, R a b → Alike a b) (h : f.Alike R g) : Alike (.node f) (.node g)

namespace TypeForm
variable {R : α → β → Prop} {f : τ → α} {g : υ → β} {d : TypeForm τ} {e : TypeForm υ}

theorem Alike.of_mapParts (h : (d.mapParts f).Alike R (e.mapParts g)) :
    d.Alike (fun a b => R (f a) (g b)) e := by
  cases d <;> cases e <;> cases h
  case error.error => exact .error
  case intrinsic.intrinsic => exact .intrinsic _
  case element.element => exact .element _
  case list.list h => exact .list h
  case set.set h => exact .set h
  case iterable.iterable h => exact .iterable h
  case map.map hkey hvalue => exact .map hkey hvalue
  case legacyObjectMap.legacyObjectMap hkey hvalue => exact .legacyObjectMap hkey hvalue
  case record.record h =>
    rw [matches_map] at h
    exact .record h
  case template.template h hresult =>
    rw [List.forall₂_map_left_iff, List.forall₂_map_right_iff] at h
    exact .template h hresult
  case function.function h hresult =>
    rw [List.forall₂_map_left_iff, List.forall₂_map_right_iff] at h
    exact .function h hresult
  case union.union h => exact .union (matches_map.1 h)
  case intersection.intersection h => exact .intersection (matches_map.1 h)
  case literal.literal => exact .literal _
  case message.message => exact .message _
  case enum.enum => exact .enum _

theorem Alike.mapParts (h : d.Alike (fun a b => R (f a) (g b)) e) :
    (d.mapParts f).Alike R (e.mapParts g) := by
  cases h with
  | error => exact .error
  | intrinsic kind => exact .intrinsic kind
  | element tag => exact .element tag
  | list h => exact .list h
  | set h => exact .set h
  | iterable h => exact .iterable h
  | map hkey hvalue => exact .map hkey hvalue
  | legacyObjectMap hkey hvalue => exact .legacyObjectMap hkey hvalue
  | record h => exact .record (matches_map.2 h)
  | template h hresult =>
    exact .template (List.forall₂_map_left_iff.2 (List.forall₂_map_right_iff.2 h)) hresult
  | function h hresult =>
    exact .function (List.forall₂_map_left_iff.2 (List.forall₂_map_right_iff.2 h)) hresult
  | union h => exact .union (matches_map.2 h)
  | intersection h => exact .intersection (matches_map.2 h)
  | literal value => exact .literal value
  | message m => exact .message m
  | enum e => exact .enum e

theorem forall₂_mono {γ δ : Type} {P Q : γ → δ → Prop} {as : List γ} {bs : List δ}
    (h : List.Forall₂ P as bs) (hPQ : ∀ a ∈ as, ∀ b ∈ bs, P a b → Q a b) :
    List.Forall₂ Q as bs := by
  induction h with
  | nil => exact .nil
  | cons hab _ ih =>
    refine .cons (hPQ _ (List.mem_cons_self ..) _ (List.mem_cons_self ..) hab) (ih ?_)
    exact fun a ha b hb => hPQ a (List.mem_cons_of_mem _ ha) b (List.mem_cons_of_mem _ hb)

theorem Alike.mono {R S : τ → υ → Prop} (h : d.Alike R e)
    (hRS : ∀ a ∈ d.parts, ∀ b ∈ e.parts, R a b → S a b) : d.Alike S e := by
  cases h with
  | error => exact .error
  | intrinsic kind => exact .intrinsic kind
  | element tag => exact .element tag
  | list h => exact .list (hRS _ (by simp [parts]) _ (by simp [parts]) h)
  | set h => exact .set (hRS _ (by simp [parts]) _ (by simp [parts]) h)
  | iterable h => exact .iterable (hRS _ (by simp [parts]) _ (by simp [parts]) h)
  | map hkey hvalue =>
    exact .map (hRS _ (by simp [parts]) _ (by simp [parts]) hkey)
      (hRS _ (by simp [parts]) _ (by simp [parts]) hvalue)
  | legacyObjectMap hkey hvalue =>
    exact .legacyObjectMap (hRS _ (by simp [parts]) _ (by simp [parts]) hkey)
      (hRS _ (by simp [parts]) _ (by simp [parts]) hvalue)
  | record h =>
    refine .record (h.mono fun p hp q hq hpq => ⟨hpq.1, hpq.2.1, ?_⟩)
    exact hRS _ (List.mem_map_of_mem hp) _ (List.mem_map_of_mem hq) hpq.2.2
  | template h hresult =>
    refine .template (forall₂_mono h fun p hp q hq hpq => ⟨hpq.1, hpq.2.1, hpq.2.2.1, ?_⟩)
      (hRS _ (by simp [parts]) _ (by simp [parts]) hresult)
    exact hRS _ (List.mem_append_left _ (List.mem_map_of_mem hp)) _
      (List.mem_append_left _ (List.mem_map_of_mem hq)) hpq.2.2.2
  | function h hresult =>
    refine .function (forall₂_mono h fun p hp q hq hpq => ⟨hpq.1, hpq.2.1, ?_⟩)
      (hRS _ (by simp [parts]) _ (by simp [parts]) hresult)
    exact hRS _ (List.mem_append_left _ (List.mem_map_of_mem hp)) _
      (List.mem_append_left _ (List.mem_map_of_mem hq)) hpq.2.2
  | union h => exact .union (h.mono hRS)
  | intersection h => exact .intersection (h.mono hRS)
  | literal value => exact .literal value
  | message m => exact .message m
  | enum e => exact .enum e

theorem Alike.refl (d : TypeForm τ) : d.Alike Eq d := by
  cases d with
  | record ps => exact .record (.refl fun p _ => ⟨rfl, rfl, rfl⟩)
  | template shape =>
    exact .template (List.forall₂_same.2 fun p _ => ⟨rfl, rfl, rfl, rfl⟩) rfl
  | function shape => exact .function (List.forall₂_same.2 fun p _ => ⟨rfl, rfl, rfl⟩) rfl
  | union members => exact .union (.refl fun _ _ => rfl)
  | intersection members => exact .intersection (.refl fun _ _ => rfl)
  | _ => constructor <;> rfl

theorem mapParts_congr {f g : τ → α} (h : ∀ p ∈ d.parts, f p = g p) :
    d.mapParts f = d.mapParts g := by
  cases d with
  | template shape =>
    obtain ⟨hparams, hresult⟩ := List.forall_mem_append.1 h
    have hparams := List.forall_mem_map.1 hparams
    simp_all [mapParts, TemplateParameter.map]
  | function shape =>
    obtain ⟨hparams, hresult⟩ := List.forall_mem_append.1 h
    have hparams := List.forall_mem_map.1 hparams
    simp_all [mapParts, FunctionParameter.map]
  | _ => simp_all [mapParts, parts, RecordProperty.map]

end TypeForm

namespace TypeStore
variable {s s' : TypeStore} {t u : TypeId} {d : TypeData} {combine : TypeForm α → α}

theorem foldWithin_eq {rank : TypeId → Nat}
    (hrank : ∀ t d, s.lookup t = some d → ∀ p ∈ d.parts, rank p < rank t)
    (h : s.Sound) (ht : s.Known t) {m n : Nat} (hm : rank t < m) (hn : rank t < n) :
    s.foldWithin combine m t = s.foldWithin combine n t := by
  induction m generalizing n t with
  | zero => cases hm
  | succ m ih =>
    obtain ⟨n, rfl⟩ := Nat.exists_eq_add_of_le' (Nat.succ_le_of_lt (Nat.zero_lt_of_lt hn))
    rw [foldWithin, foldWithin]
    congr 1
    refine TypeForm.mapParts_congr fun p hp => ?_
    have hlt := hrank t _ ht.lookup_data p hp
    exact ih (h.known_part ht hp) (Nat.lt_of_lt_of_le hlt (Nat.le_of_lt_succ hm))
      (Nat.lt_of_lt_of_le hlt (Nat.le_of_lt_succ hn))

theorem Sound.fold (h : s.Sound) (ht : s.lookup t = some d) :
    s.fold combine t = combine (d.mapParts (s.fold combine)) := by
  obtain ⟨rank, hbound, hrank⟩ := h.ranked
  rw [TypeStore.fold, nesting, foldWithin, data_of_lookup ht]
  congr 1
  refine TypeForm.mapParts_congr fun p hp => ?_
  have hlt := hrank t d ht p hp
  have hle := hbound t ⟨d, ht⟩
  exact foldWithin_eq hrank h ((h.admits t d ht).parts p hp) (by omega) (by rw [nesting]; omega)

theorem Grows.fold (hgrows : s.Grows s') (h : s.Sound) (h' : s'.Sound) (ht : s.Known t) :
    s'.fold combine t = s.fold combine t := by
  refine h.induct (motive := fun t => s'.fold combine t = s.fold combine t) (fun t d hd ih => ?_)
    t ht
  rw [h.fold hd, h'.fold (hgrows.types t d hd), TypeForm.mapParts_congr ih]

/-- The type that a number denotes. -/
def denote (s : TypeStore) (t : TypeId) : TypeTree := s.fold .node t

theorem Sound.denote (h : s.Sound) (ht : s.lookup t = some d) :
    s.denote t = .node (d.mapParts s.denote) := h.fold ht

theorem Sound.alike_denote (h : s.Sound) (ht : s.Known t) :
    (s.denote t).Alike (s.denote t) := by
  refine h.induct (motive := fun t => (s.denote t).Alike (s.denote t)) (fun t d hd ih => ?_) t ht
  rw [h.denote hd]
  refine .node (fun a b => ∃ p ∈ d.parts, a = s.denote p ∧ b = s.denote p) ?_ ?_
  · rintro a b ⟨p, hp, rfl, rfl⟩
    exact ih p hp
  · refine ((TypeForm.Alike.refl d).mono fun p hp q _ hpq => ?_).mapParts
    exact ⟨p, hp, rfl, by rw [hpq]⟩

/-- All forms that a type consists of pass a test. -/
inductive Throughout (s : TypeStore) (P : TypeData → Prop) : TypeId → Prop where
  | intro {t : TypeId} (h : P (s.data t)) (hparts : ∀ p ∈ (s.data t).parts, s.Throughout P p) :
      s.Throughout P t

theorem Throughout.of_data {P : TypeData → Prop} (hd : s.data t = d) (h : P d)
    (hparts : ∀ p ∈ d.parts, s.Throughout P p) : s.Throughout P t :=
  .intro (hd ▸ h) (hd ▸ hparts)

end TypeStore
end TemplateCheck

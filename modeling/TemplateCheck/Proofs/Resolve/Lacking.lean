import TemplateCheck.Proofs.Resolve.Counterparts
import TemplateCheck.Proofs.Types.Combining

/-! Looking up properties in two stores at once. Counterparts have the same properties, of types
that are counterparts again. If they lack one, the first member that lacks it says why, and which
member comes first depends on the store. -/

namespace TemplateCheck
open TypeStore

theorem Matches.any_eq {α β : Type} {R : α → β → Prop} {p : α → Bool} {q : β → Bool}
    {as : List α} {bs : List β} (h : Matches R as bs) (hpq : ∀ a b, R a b → p a = q b) :
    as.any p = bs.any q := by
  rw [Bool.eq_iff_iff, List.any_eq_true, List.any_eq_true]
  constructor
  · rintro ⟨a, ha, hpa⟩
    obtain ⟨b, hb, hab⟩ := h.1 a ha
    exact ⟨b, hb, hpq a b hab ▸ hpa⟩
  · rintro ⟨b, hb, hqb⟩
    obtain ⟨a, ha, hab⟩ := h.2 b hb
    exact ⟨a, ha, (hpq a b hab).symm ▸ hqb⟩

theorem Matches.find?_name {α β : Type} {R : α → β → Prop} {f : α → String} {g : β → String}
    {as : List α} {bs : List β} (h : Matches R as bs) (hfg : ∀ a b, R a b → f a = g b)
    (hnames : (bs.map g).Nodup) (name : String) :
    Option.Rel R (as.find? (f · == name)) (bs.find? (g · == name)) := by
  cases hfind : as.find? (f · == name) with
  | none =>
    have hnone : bs.find? (g · == name) = none := by
      rw [List.find?_eq_none] at hfind ⊢
      intro b hb
      obtain ⟨a, ha, hab⟩ := h.2 b hb
      rw [← hfg a b hab]
      exact hfind a ha
    rw [hnone]
    exact .none
  | some a =>
    obtain ⟨b, hb, hab⟩ := h.1 a (List.mem_of_find?_eq_some hfind)
    have hname := List.find?_some hfind
    rw [hfg a b hab] at hname
    have hsome : (bs.find? (g · == name)).isSome := List.find?_isSome.2 ⟨b, hb, hname⟩
    obtain ⟨c, hc⟩ := Option.isSome_iff_exists.1 hsome
    have hname' := List.find?_some hc
    obtain rfl : c = b := List.inj_on_of_nodup_map hnames (List.mem_of_find?_eq_some hc) hb
      ((beq_iff_eq.1 hname').trans (beq_iff_eq.1 hname).symm)
    rw [hc]
    exact .some hab

namespace PropertyResult
variable {pool : Proto.Pool} {property : String} {d e : TypeData} {a b : PropertyResult}
  {R : TypeId → TypeId → Prop}

def lack? (property : String) : TypeData → Option PropertyResult
  | .error => none
  | .record properties => if properties.any (·.name == property) then none else some missing
  | .template shape => if shape.parameters.any (·.name == property) then none else some missing
  | .message m => if (m.descriptor.field? property).isSome then none else some missing
  | _ => some notIndexable

theorem lack?_eq (h : d.Alike R e) : lack? property d = lack? property e := by
  cases h with
  | record hmatch =>
    rw [lack?, lack?, hmatch.any_eq fun p q hpq => by rw [hpq.1]]
  | template hparams _ =>
    rw [lack?, lack?, (Matches.of_forall₂ hparams).any_eq fun p q hpq => by rw [hpq.1]]
  | _ => rfl

theorem ofForm_eq (pool : Proto.Pool) (property : String) (d : TypeData) :
    (∃ make, lack? property d = none ∧ ofForm pool property d = found <$> make) ∨
      lack? property d = some missing ∧ ofForm pool property d = pure missing ∨
        lack? property d = some notIndexable ∧ ofForm pool property d = pure notIndexable := by
  have hpart (optional : Bool) (t : TypeId) : ∃ make, ofPart optional t = found <$> make := by
    cases optional with
    | true => exact ⟨TypeStore.union2 t .undefined, rfl⟩
    | false => exact ⟨pure t, rfl⟩
  cases d with
  | error => exact .inl ⟨pure .error, rfl, rfl⟩
  | record properties =>
    rw [ofForm, lack?, ← List.isSome_find?]
    cases properties.find? (·.name == property) with
    | some p =>
      obtain ⟨make, hmake⟩ := hpart p.optional p.type
      exact .inl ⟨make, rfl, hmake⟩
    | none => exact .inr (.inl ⟨rfl, rfl⟩)
  | template shape =>
    rw [ofForm, lack?, ← List.isSome_find?]
    cases shape.parameters.find? (·.name == property) with
    | some p =>
      obtain ⟨make, hmake⟩ := hpart (!p.required) p.type
      exact .inl ⟨make, rfl, hmake⟩
    | none => exact .inr (.inl ⟨rfl, rfl⟩)
  | message m =>
    rw [ofForm, lack?]
    cases m.descriptor.field? property with
    | some f => exact .inl ⟨f.typeId pool, rfl, rfl⟩
    | none => exact .inr (.inl ⟨rfl, rfl⟩)
  | _ => exact .inr (.inr ⟨rfl, rfl⟩)

theorem lack?_cases (h : lack? property d = some a) : a = .missing ∨ a = .notIndexable := by
  rcases ofForm_eq (.empty 0) property d with ⟨-, hlack, -⟩ | ⟨hlack, -⟩ | ⟨hlack, -⟩
  · rw [hlack] at h
    cases h
  · exact .inl (Option.some.inj (h.symm.trans hlack))
  · exact .inr (Option.some.inj (h.symm.trans hlack))

/-- The same answer, or types that `R` relates. -/
inductive Alike (R : TypeId → TypeId → Prop) : PropertyResult → PropertyResult → Prop
  | found {t u : TypeId} (h : R t u) : Alike R (.found t) (.found u)
  | missing : Alike R .missing .missing
  | notIndexable : Alike R .notIndexable .notIndexable

def Tells (property : String) (d : TypeData) (a : PropertyResult) : Prop :=
  (∃ u, a = .found u ∧ lack? property d = none) ∨
    (a = .missing ∨ a = .notIndexable) ∧ lack? property d = some a

theorem Tells.lack (h : Tells property d a) (ha : ∀ u, a ≠ .found u) :
    lack? property d = some a := by
  rcases h with ⟨u, rfl, -⟩ | ⟨-, hlack⟩
  · exact absurd rfl (ha u)
  · exact hlack

theorem tells_ofForm (pool : Proto.Pool) (property : String) (d : TypeData) (s : TypeStore) :
    Tells property d (ofForm pool property d s).1 := by
  rcases ofForm_eq pool property d with ⟨make, hlack, hmake⟩ | ⟨hlack, hrun⟩ | ⟨hlack, hrun⟩
  · rw [hmake]
    exact .inl ⟨_, rfl, hlack⟩
  · rw [hrun]
    exact .inr ⟨.inl rfl, hlack⟩
  · rw [hrun]
    exact .inr ⟨.inr rfl, hlack⟩

theorem Alike.found_or_lack (h : a.Alike R b) (ha : Tells property d a) (hb : Tells property e b) :
    (∃ v w, a = .found v ∧ b = .found w ∧ R v w) ∨
      lack? property d = some a ∧ lack? property e = some b := by
  cases h with
  | found h => exact .inl ⟨_, _, rfl, rfl, h⟩
  | missing => exact .inr ⟨ha.lack fun _ => nofun, hb.lack fun _ => nofun⟩
  | notIndexable => exact .inr ⟨ha.lack fun _ => nofun, hb.lack fun _ => nofun⟩

end PropertyResult

def Settled {α : Type} (m : Making α) (s : TypeStore) (a : α) : Prop :=
  ∀ r : TypeStore, r.Sound → s.Grows r → m r = (a, r)

theorem Settled.grows {α : Type} {m : Making α} {s r : TypeStore} {a : α} (h : Settled m s a)
    (hgrows : s.Grows r) : Settled m r a :=
  fun later hlater hgrows' => h later hlater (hgrows.trans hgrows')

namespace Steady
open PropertyResult
variable {pool : Proto.Pool} {property : String} {s : TypeStore} {t : TypeId} {ts : List TypeId}

theorem one (hs : s.Sound) (ht : s.Known t) (hkind : s.kind t ≠ .union) :
    Steady (PropertyResult.within pool property 1 t) s fun r a =>
      Tells property (r.data t) a ∧ Settled (PropertyResult.within pool property 1 t) r a := by
  have hsteady : Steady (PropertyResult.within pool property 1 t) s (SensibleResult pool False) :=
    within_plain hs False.elim ⟨ht, False.elim⟩ hkind property 0
  refine ⟨hsteady.sound, hsteady.grows, hsteady.again, ?_, hsteady.again⟩
  rw [hsteady.grows.data ht, within_of_not_union hkind]
  exact tells_ofForm ..

def Collects (pool : Proto.Pool) (property : String) (ts : List TypeId) (s : TypeStore) :
    Except PropertyResult (List TypeId) → Prop
  | .ok us =>
    List.Forall₂ (fun t u => Settled (PropertyResult.within pool property 1 t) s (.found u)) ts us ∧
      (ts.map s.data).findSome? (lack? property) = none
  | .error a => (ts.map s.data).findSome? (lack? property) = some a

theorem collects (pool : Proto.Pool) (property : String) (hs : s.Sound)
    (h : ∀ t ∈ ts, s.Known t ∧ s.kind t ≠ .union) :
    Steady (PropertyResult.collect (PropertyResult.within pool property 1) ts) s
      (Collects pool property ts) := by
  induction ts generalizing s with
  | nil => exact ret hs ⟨.nil, rfl⟩
  | cons t rest ih =>
    obtain ⟨⟨ht, hkind⟩, hrest⟩ := List.forall_mem_cons.1 h
    refine (one hs ht hkind).bind fun a s₁ hs₁ hgrows₁ ⟨htells, hsettled⟩ => ?_
    have ht₁ := hgrows₁.known ht
    rcases htells with ⟨u, rfl, hlack⟩ | ⟨ha, hlack⟩
    · have hrest₁ : ∀ v ∈ rest, s₁.Known v ∧ s₁.kind v ≠ .union := fun v hv => by
        obtain ⟨hv, hkind⟩ := hrest v hv
        rw [kind, hgrows₁.data hv]
        exact ⟨hgrows₁.known hv, hkind⟩
      refine (ih hs₁ hrest₁).bind fun results s₂ hs₂ hgrows₂ hresults => ?_
      rw [← hgrows₂.data ht₁] at hlack
      cases results with
      | ok us =>
        refine ret hs₂ ⟨.cons (hsettled.grows hgrows₂) hresults.1, ?_⟩
        rw [List.map_cons, List.findSome?_cons, hlack]
        exact hresults.2
      | error b =>
        refine ret hs₂ ?_
        rw [Collects, List.map_cons, List.findSome?_cons, hlack]
        exact hresults
    · have hcollects : Collects pool property (t :: rest) s₁ (.error a) := by
        rw [Collects, List.map_cons, List.findSome?_cons, hlack]
      rcases ha with rfl | rfl
      · exact ret hs₁ hcollects
      · exact ret hs₁ hcollects

end Steady

namespace TypeStore
variable {s r : TypeStore} {t : TypeId}

def lack? (s : TypeStore) (property : String) (t : TypeId) : Option PropertyResult :=
  ((s.unionMembers t).map s.data).findSome? (PropertyResult.lack? property)

theorem Grows.lack? (hgrows : s.Grows r) (hs : s.Sound) (ht : s.Known t) (property : String) :
    r.lack? property t = s.lack? property t := by
  have hforms : (s.unionMembers t).map r.data = (s.unionMembers t).map s.data :=
    List.map_congr_left fun u hu => hgrows.data (hs.unionMembers ht hu).1
  rw [TypeStore.lack?, TypeStore.lack?, hgrows.unionMembers_eq ht, hforms]

theorem lack?_of_union {property : String} {members : List TypeId}
    (hd : s.data t = .union members) :
    s.lack? property t = (members.map s.data).findSome? (PropertyResult.lack? property) := by
  rw [lack?, unionMembers, hd]

theorem lack?_of_not_union {property : String} (hkind : s.kind t ≠ .union) :
    s.lack? property t = PropertyResult.lack? property (s.data t) := by
  rw [lack?, unionMembers_self hkind, List.map_singleton, List.findSome?_singleton]

theorem lack?_cases {property : String} {a : PropertyResult} (h : s.lack? property t = some a) :
    a = .missing ∨ a = .notIndexable := by
  obtain ⟨d, -, hlack⟩ := List.exists_of_findSome?_eq_some h
  exact PropertyResult.lack?_cases hlack

end TypeStore

namespace Parallel
open PropertyResult
variable {pool : Proto.Pool} {property : String} {s s' : TypeStore} {t u : TypeId}
  {ts us : List TypeId} (hs : s.Sound) (hs' : s'.Sound)
include hs hs'

theorem fieldType (type : Proto.FieldType) :
    Parallel (type.typeId pool) (type.typeId pool) s s' Counterparts := by
  cases type with
  | message name =>
    rw [Proto.FieldType.typeId]
    cases pool.message? name with
    | some m => exact message hs hs' m
    | none => exact ret hs hs' (.error hs hs')
  | enum name =>
    rw [Proto.FieldType.typeId]
    cases pool.enum? name with
    | some e => exact enum hs hs' e
    | none => exact ret hs hs' (.error hs hs')
  | bool => exact ret hs hs' (.ofIntrinsic hs hs' .bool)
  | int32 | int64 | uint32 | uint64 => exact ret hs hs' (.ofIntrinsic hs hs' .int)
  | float | double => exact ret hs hs' (.ofIntrinsic hs hs' .float)
  | string | bytes => exact ret hs hs' (.ofIntrinsic hs hs' .string)

theorem field (f : Proto.Field) :
    Parallel (f.typeId pool) (f.typeId pool) s s' Counterparts := by
  rw [Proto.Field.typeId]
  cases f.label with
  | singular type => exact fieldType hs hs' type
  | repeated type =>
    exact (fieldType hs hs' type).bind fun t u r r' hr hr' _ _ htu => list hr hr' htu
  | map key value =>
    refine (fieldType hs hs' key).bind fun t u r r' hr hr' _ _ hkey => ?_
    refine (fieldType hr hr' value).bind fun v w q q' hq hq' hgrows hgrows' hvalue => ?_
    exact mapType hq hq' (hkey.grows hr hr' hq hq' hgrows hgrows') hvalue

def Agree (s s' : TypeStore) (a b : PropertyResult) : Prop := a.Alike (s.Counterparts s') b

theorem ofPart (optional : Bool) (h : s.Counterparts s' t u) :
    Parallel (PropertyResult.ofPart optional t) (PropertyResult.ofPart optional u) s s' Agree := by
  cases optional with
  | true =>
    have hundefined : s.Counterparts s' .undefined .undefined := .ofIntrinsic hs hs' .undefined
    exact (union2 hs hs' h hundefined).map fun _ _ _ _ => .found
  | false => exact ret hs hs' (.found h)

theorem ofForm (pool : Proto.Pool) (property : String) (h : s.Counterparts s' t u) :
    Parallel (PropertyResult.ofForm pool property (s.data t))
      (PropertyResult.ofForm pool property (s'.data u)) s s' Agree := by
  have hforms := h.forms hs hs'
  have hshaped := h.shaped'.form
  generalize s.data t = d at hforms
  generalize s'.data u = e at hforms hshaped
  cases hforms with
  | error => exact ret hs hs' (.found (.error hs hs'))
  | @record ps qs hmatch =>
    have hfind := hmatch.find?_name (fun p q hpq => hpq.1) hshaped property
    rw [PropertyResult.ofForm, PropertyResult.ofForm]
    generalize ps.find? (·.name == property) = found at hfind
    generalize qs.find? (·.name == property) = found' at hfind
    cases hfind with
    | none => exact ret hs hs' .missing
    | @some p q hpq =>
      obtain ⟨-, hoptional, htype⟩ := hpq
      dsimp only
      rw [← hoptional]
      exact ofPart hs hs' p.optional htype
  | @template ps qs _ _ hparams hresult =>
    have hmatch := Matches.of_forall₂ hparams
    have hfind := hmatch.find?_name (fun p q hpq => hpq.1) hshaped.1 property
    rw [PropertyResult.ofForm, PropertyResult.ofForm]
    generalize ps.find? (·.name == property) = found at hfind
    generalize qs.find? (·.name == property) = found' at hfind
    cases hfind with
    | none => exact ret hs hs' .missing
    | @some p q hpq =>
      obtain ⟨-, -, hrequired, htype⟩ := hpq
      dsimp only
      rw [← hrequired]
      exact ofPart hs hs' (!p.required) htype
  | message m =>
    rw [PropertyResult.ofForm]
    cases m.descriptor.field? property with
    | none => exact ret hs hs' .missing
    | some f => exact (field hs hs' f).map fun _ _ _ _ => .found
  | _ => exact ret hs hs' .notIndexable

def Collect (property : String) (ts us : List TypeId) (s s' : TypeStore) :
    Except PropertyResult (List TypeId) → Except PropertyResult (List TypeId) → Prop
  | .ok vs, .ok ws => vs.length = ws.length ∧ Matches (s.Counterparts s') vs ws
  | .error a, .error b =>
    (ts.map s.data).findSome? (PropertyResult.lack? property) = some a ∧
      (us.map s'.data).findSome? (PropertyResult.lack? property) = some b
  | _, _ => False

theorem lack_none_iff (property : String) (h : Matches (s.Counterparts s') ts us) :
    (ts.map s.data).findSome? (PropertyResult.lack? property) = none ↔
      (us.map s'.data).findSome? (PropertyResult.lack? property) = none := by
  have hlack {t u : TypeId} (htu : s.Counterparts s' t u) :
      PropertyResult.lack? property (s.data t) = PropertyResult.lack? property (s'.data u) :=
    lack?_eq (htu.forms hs hs')
  rw [List.findSome?_eq_none_iff, List.findSome?_eq_none_iff, List.forall_mem_map,
    List.forall_mem_map]
  constructor
  · intro hnone u hu
    obtain ⟨t, ht, htu⟩ := h.2 u hu
    rw [← hlack htu]
    exact hnone t ht
  · intro hnone t ht
    obtain ⟨u, hu, htu⟩ := h.1 t ht
    rw [hlack htu]
    exact hnone u hu

theorem matches_settled {vs ws : List TypeId} (h : Matches (s.Counterparts s') ts us)
    (hts : ∀ t ∈ ts, s.kind t ≠ .union)
    (hvs : List.Forall₂ (fun t v => Settled (PropertyResult.within pool property 1 t) s (.found v))
      ts vs)
    (hws : List.Forall₂ (fun u w => Settled (PropertyResult.within pool property 1 u) s' (.found w))
      us ws) : Matches (s.Counterparts s') vs ws := by
  have hpair {t u v w : TypeId} (ht : t ∈ ts) (htu : s.Counterparts s' t u)
      (hv : Settled (PropertyResult.within pool property 1 t) s (.found v))
      (hw : Settled (PropertyResult.within pool property 1 u) s' (.found w)) :
      s.Counterparts s' v w := by
    have hkind := hts t ht
    have hkind' : s'.kind u ≠ .union := htu.kind_eq hs hs' ▸ hkind
    have hrun := hv s hs (.refl s)
    have hrun' := hw s' hs' (.refl s')
    rw [Steady.within_of_not_union hkind] at hrun
    rw [Steady.within_of_not_union hkind'] at hrun'
    have hagree := (ofForm hs hs' pool property htu).result
    rw [hrun, hrun'] at hagree
    cases hagree with
    | found h => exact h
  refine ⟨fun v hv => ?_, fun w hw => ?_⟩
  · obtain ⟨t, ht, hv⟩ := exists_of_mem_left hvs.flip hv
    obtain ⟨u, hu, htu⟩ := h.1 t ht
    obtain ⟨w, hw, hsettled⟩ := exists_of_mem_left hws hu
    exact ⟨w, hw, hpair ht htu hv hsettled⟩
  · obtain ⟨u, hu, hw⟩ := exists_of_mem_left hws.flip hw
    obtain ⟨t, ht, htu⟩ := h.2 u hu
    obtain ⟨v, hv, hsettled⟩ := exists_of_mem_left hvs ht
    exact ⟨v, hv, hpair ht htu hsettled hw⟩

theorem collect_of_collects (hlength : ts.length = us.length)
    (h : Matches (s.Counterparts s') ts us) (hts : ∀ t ∈ ts, s.kind t ≠ .union)
    {x y : Except PropertyResult (List TypeId)} (hx : Steady.Collects pool property ts s x)
    (hy : Steady.Collects pool property us s' y) : Collect property ts us s s' x y := by
  have hnone := lack_none_iff hs hs' property h
  cases x with
  | ok vs =>
    obtain ⟨hvs, hlack⟩ := hx
    cases y with
    | ok ws =>
      obtain ⟨hws, -⟩ := hy
      have hlength' : vs.length = ws.length := by rw [← hvs.length_eq, hlength, hws.length_eq]
      exact ⟨hlength', matches_settled hs hs' h hts hvs hws⟩
    | error b =>
      rw [Steady.Collects, hnone.1 hlack] at hy
      cases hy
  | error a =>
    cases y with
    | ok ws =>
      rw [Steady.Collects, hnone.2 hy.2] at hx
      cases hx
    | error b => exact ⟨hx, hy⟩

theorem collect (hlength : ts.length = us.length) (h : Matches (s.Counterparts s') ts us)
    (hts : ∀ t ∈ ts, s.kind t ≠ .union) :
    Parallel (PropertyResult.collect (PropertyResult.within pool property 1) ts)
      (PropertyResult.collect (PropertyResult.within pool property 1) us) s s'
      (Collect property ts us) := by
  have hknown : ∀ t ∈ ts, s.Known t ∧ s.kind t ≠ .union := fun t ht => by
    obtain ⟨u, -, htu⟩ := h.1 t ht
    exact ⟨htu.shaped.known, hts t ht⟩
  have hknown' : ∀ u ∈ us, s'.Known u ∧ s'.kind u ≠ .union := fun u hu => by
    obtain ⟨t, ht, htu⟩ := h.2 u hu
    exact ⟨htu.shaped'.known, htu.kind_eq hs hs' ▸ hts t ht⟩
  obtain ⟨hr, hgrows, -, hresult⟩ := Steady.collects pool property hs hknown
  obtain ⟨hr', hgrows', -, hresult'⟩ := Steady.collects pool property hs' hknown'
  refine ⟨hr, hr', hgrows, hgrows', collect_of_collects hr hr' hlength
    (h.mono fun t _ u _ htu => htu.grows hs hs' hr hr' hgrows hgrows') (fun t ht => ?_) hresult
    hresult'⟩
  rw [kind, hgrows.data (hknown t ht).1]
  exact hts t ht

def Look (name : String) (t u : TypeId) (s s' : TypeStore) (a b : PropertyResult) : Prop :=
  (∃ v w, a = .found v ∧ b = .found w ∧ s.Counterparts s' v w) ∨
    s.lack? name t = some a ∧ s'.lack? name u = some b

theorem look_of_not_union (h : s.Counterparts s' t u) (hkind : s.kind t ≠ .union) :
    Parallel (PropertyResult.ofForm pool property (s.data t))
      (PropertyResult.ofForm pool property (s'.data u)) s s' (Look property t u) := by
  have hkind' : s'.kind u ≠ .union := h.kind_eq hs hs' ▸ hkind
  obtain ⟨hr, hr', hgrows, hgrows', hagree⟩ := ofForm hs hs' pool property h
  refine ⟨hr, hr', hgrows, hgrows', ?_⟩
  rw [Look, hgrows.lack? hs h.shaped.known, hgrows'.lack? hs' h.shaped'.known,
    lack?_of_not_union hkind, lack?_of_not_union hkind']
  exact hagree.found_or_lack (tells_ofForm ..) (tells_ofForm ..)

theorem look_of_union (h : s.Counterparts s' t u) (hd : s.data t = .union ts)
    (hd' : s'.data u = .union us) :
    Parallel (Steady.ofMembers (PropertyResult.within pool property 1) ts)
      (Steady.ofMembers (PropertyResult.within pool property 1) us) s s' (Look property t u) := by
  have hforms := h.forms hs hs'
  rw [hd, hd'] at hforms
  have hnormal := hs.union_normal h.shaped.known hd
  have hnormal' := hs'.union_normal h.shaped'.known hd'
  cases hforms with
  | union hmatch =>
    have hlength := length_eq_of_matches hmatch hs hs' hnormal.ascends hnormal'.ascends
    refine (collect hs hs' hlength hmatch hnormal.flat).bind
      fun x y r r' hr hr' hgrows hgrows' hxy => ?_
    cases x with
    | ok vs =>
      cases y with
      | ok ws =>
        exact (union hr hr' hxy.1 hxy.2).map fun _ _ v w hvw => .inl ⟨v, w, rfl, rfl, hvw⟩
      | error b => exact False.elim hxy
    | error a =>
      cases y with
      | ok ws => exact False.elim hxy
      | error b =>
        have hdata : r.data t = .union ts := (hgrows.data h.shaped.known).trans hd
        have hdata' : r'.data u = .union us := (hgrows'.data h.shaped'.known).trans hd'
        exact ret hr hr' (.inr ⟨(lack?_of_union hdata).trans hxy.1,
          (lack?_of_union hdata').trans hxy.2⟩)

theorem look (pool : Proto.Pool) (h : s.Counterparts s' t u) (name : String) :
    Parallel (TypeStore.property pool t name) (TypeStore.property pool u name) s s'
      (Look name t u) := by
  refine congr ?_ (Steady.property_run hs h.shaped.known name)
    (Steady.property_run hs' h.shaped'.known name)
  rcases Assignable.kind_cases s t with ⟨ts, hd⟩ | ⟨hkind, -⟩
  · have hforms := h.forms hs hs'
    rw [hd] at hforms
    generalize hd' : s'.data u = e at hforms
    cases hforms with
    | union _ =>
      exact (look_of_union hs hs' h hd hd').congr (Steady.within_union hd) (Steady.within_union hd')
  · have hkind' : s'.kind u ≠ .union := h.kind_eq hs hs' ▸ hkind
    exact (look_of_not_union hs hs' h hkind).congr (Steady.within_of_not_union hkind)
      (Steady.within_of_not_union hkind')

end Parallel
end TemplateCheck

import TemplateCheck.Proofs.Resolve.Lacking
import TemplateCheck.Proofs.Types.Groupings

/-! Properties of unions of two types. The members of the union are those of both types, unless one
type absorbs the other, so it has the properties that both have. What it has of them is combined
from the same types, whether the members of both are gone through at once or one type after the
other. -/

namespace TemplateCheck
open TypeStore

namespace TypeStore
variable {s r : TypeStore} {a b t : TypeId}

/-- By then `s` has become `r`, by making types. -/
structure Later (s r : TypeStore) : Prop where
  sound : r.Sound
  grows : s.Grows r

theorem Sound.eq_of_absorbing (h : s.Sound) (ha : s.Known a)
    (ht : t ∈ [TypeId.error, .any, .unknown, .never]) (hmem : t ∈ s.unionMembers a) : t = a := by
  rcases mem_unionMembers.1 hmem with ⟨members, hd, hm⟩ | ⟨-, rfl⟩
  · exact absurd ht ((h.union_normal ha hd).plain t hm)
  · rfl

theorem Sound.ne_never_of_mem (h : s.Sound) (ha : s.Known a) (hplain : a ∉ [TypeId.never, .error])
    (hmem : t ∈ s.unionMembers a) : t ≠ .never := by
  rintro rfl
  rw [← h.eq_of_absorbing ha (by decide) hmem] at hplain
  exact hplain (.head _)

theorem Sound.exists_unionMembers (h : s.Sound) (ha : s.Known a) : ∃ m, m ∈ s.unionMembers a := by
  rcases Assignable.kind_cases s a with ⟨members, hd⟩ | ⟨hkind, -⟩
  · obtain ⟨m, hm⟩ := (h.union_normal ha hd).exists_mem
    exact ⟨m, mem_unionMembers.2 (.inl ⟨members, hd, hm⟩)⟩
  · exact ⟨a, mem_unionMembers.2 (.inr ⟨hkind, rfl⟩)⟩

theorem Sound.unionMembers_union2 (h : s.Sound) (ha : s.Known a) (hb : s.Known b)
    (hplain : a ∉ [TypeId.never, .error]) (hplain' : b ∉ [TypeId.never, .error]) :
    ((union2 a b s).1 ∈ [TypeId.any, .unknown] ∧ ((union2 a b s).1 = a ∨ (union2 a b s).1 = b)) ∨
      ∀ m, m ∈ (union2 a b s).2.unionMembers (union2 a b s).1 ↔
        m ∈ s.unionMembers a ∨ m ∈ s.unionMembers b := by
  have hknown : ∀ t ∈ [a, b], s.Known t :=
    List.forall_mem_cons.2 ⟨ha, List.forall_mem_singleton.2 hb⟩
  have hmade : s.Made (union2 a b s) := h.union hknown
  have hgathers : Gathers .union [.error, .any, .unknown] .never
      ([a, b].flatMap (s.membersOf .union)) (union2 a b s) := h.union_gathers hknown
  generalize union2 a b s = made at hmade hgathers ⊢
  have hmembers {m : TypeId} : m ∈ [a, b].flatMap (s.membersOf .union) ↔
      m ∈ s.unionMembers a ∨ m ∈ s.unionMembers b := by
    simp [unionMembers_eq]
  rcases hgathers with ⟨habsorbing, hmem⟩ | hgathered
  · have hspecial : made.1 ∈ [TypeId.error, .any, .unknown, .never] :=
      List.mem_append_left [TypeId.never] habsorbing
    have heq : made.1 = a ∨ made.1 = b :=
      (hmembers.1 hmem).imp (h.eq_of_absorbing ha hspecial) (h.eq_of_absorbing hb hspecial)
    have hplain : made.1 ∉ [TypeId.never, .error] := by
      rcases heq with heq | heq
      · rwa [heq]
      · rwa [heq]
    have herror : made.1 ≠ .error := fun herror => hplain (herror ▸ .tail _ (.head _))
    exact .inl ⟨(List.mem_cons.1 habsorbing).resolve_left herror, heq⟩
  · refine .inr fun m => ?_
    by_cases hm : m = .never
    · subst hm
      refine iff_of_false (fun hmem => ?_) fun hmem => ?_
      · -- With nothing but `never` for a member, the union would have lost those of `a`.
        have hmade : .never = made.1 := hmade.sound.eq_of_absorbing hmade.known (by decide) hmem
        obtain ⟨m, hm⟩ := h.exists_unionMembers ha
        have hne := h.ne_never_of_mem ha hplain hm
        have hmem := (hgathered m hne).2 (hmembers.2 (.inl hm))
        have hkind : made.2.kind .never ≠ .union := Combination.union.kind_special _ (by decide)
        rw [← hmade, membersOf_self hkind] at hmem
        exact hne (List.mem_singleton.1 hmem)
      · rcases hmem with hmem | hmem
        · exact h.ne_never_of_mem ha hplain hmem rfl
        · exact h.ne_never_of_mem hb hplain' hmem rfl
    · rw [unionMembers_eq]
      exact (hgathered m hm).trans hmembers

theorem lack?_eq_none_iff {name : String} : s.lack? name t = none ↔
    ∀ m ∈ s.unionMembers t, PropertyResult.lack? name (s.data m) = none := by
  rw [lack?, List.findSome?_eq_none_iff, List.forall_mem_map]

theorem lack?_of_absorbing {name : String} (ht : t ∈ [TypeId.any, .unknown]) :
    s.lack? name t ≠ none := by
  have hsub : [TypeId.any, .unknown] ⊆ [TypeId.error, .any, .unknown, .never] := by decide
  have hkind : s.kind t ≠ .union := Combination.union.kind_special s (hsub ht)
  have hdata : s.data t = .intrinsic .any ∨ s.data t = .intrinsic .unknown := by
    rcases List.mem_cons.1 ht with rfl | ht
    · exact .inl (s.data_fixed rfl)
    · obtain rfl := List.mem_singleton.1 ht
      exact .inr (s.data_fixed rfl)
  rw [lack?_of_not_union hkind]
  rcases hdata with hdata | hdata <;> simp [hdata, PropertyResult.lack?]

theorem Sound.lack?_union2 (h : s.Sound) (ha : s.Known a) (hb : s.Known b)
    (hplain : a ∉ [TypeId.never, .error]) (hplain' : b ∉ [TypeId.never, .error]) (name : String) :
    (union2 a b s).2.lack? name (union2 a b s).1 = none ↔
      s.lack? name a = none ∧ s.lack? name b = none := by
  have hmade : s.Made (union2 a b s) :=
    h.union (List.forall_mem_cons.2 ⟨ha, List.forall_mem_singleton.2 hb⟩)
  have hunion := h.unionMembers_union2 ha hb hplain hplain'
  generalize union2 a b s = made at hmade hunion ⊢
  rcases hunion with ⟨habsorbing, heq⟩ | hmembers
  · refine iff_of_false (lack?_of_absorbing habsorbing) fun ⟨hnone, hnone'⟩ => ?_
    rcases heq with rfl | rfl
    · exact lack?_of_absorbing habsorbing hnone
    · exact lack?_of_absorbing habsorbing hnone'
  · have hdata {t m : TypeId} (ht : s.Known t) (hm : m ∈ s.unionMembers t) :
        made.2.data m = s.data m := hmade.grows.data (h.unionMembers ht hm).1
    simp only [lack?_eq_none_iff, hmembers, or_imp, forall_and]
    refine and_congr (forall₂_congr fun m hm => ?_) (forall₂_congr fun m hm => ?_)
    · rw [hdata ha hm]
    · rw [hdata hb hm]

end TypeStore

namespace Steady
open PropertyResult
variable {pool : Proto.Pool} {name : String} {s r : TypeStore} {a t u m : TypeId}

def Gives (pool : Proto.Pool) (name : String) (s : TypeStore) (m u : TypeId) : Prop :=
  Settled (PropertyResult.within pool name 1 m) s (.found u)

structure Has (pool : Proto.Pool) (name : String) (s : TypeStore) (t u : TypeId) : Prop where
  known : s.Known u
  complete : s.lack? name t = none
  combined : ∃ us, List.Forall₂ (Gives pool name s) (s.unionMembers t) us ∧
    (∀ v ∈ us, s.Known v) ∧ Replaces Combination.union.absorbing Combination.union.neutral
      (s.membersOf .union u) (us.flatMap (s.membersOf .union))

def Offers (pool : Proto.Pool) (name : String) (t : TypeId) (s : TypeStore) :
    PropertyResult → Prop
  | .found u => Has pool name s t u
  | a => s.lack? name t = some a

theorem known_of_gives (hs : s.Sound) (hm : s.Known m) (hkind : s.kind m ≠ .union)
    (h : Gives pool name s m u) : s.Known u := by
  have hsteady : Steady (PropertyResult.within pool name 1 m) s (SensibleResult pool False) :=
    within_plain hs False.elim ⟨hm, False.elim⟩ hkind name 0
  have hresult := hsteady.result
  rw [h s hs (.refl s)] at hresult
  exact hresult.known

theorem gives_unique {v : TypeId} (hs : s.Sound) (hu : Gives pool name s m u)
    (hv : Gives pool name s m v) : u = v := by
  have hrun := hu s hs (.refl s)
  rw [hv s hs (.refl s)] at hrun
  cases hrun
  rfl

theorem mem_given {ms us : List TypeId} (hs : s.Sound) (h : List.Forall₂ (Gives pool name s) ms us) :
    u ∈ us ↔ ∃ m, m ∈ ms ∧ Gives pool name s m u := by
  constructor
  · intro hu
    exact exists_of_mem_left h.flip hu
  · rintro ⟨m, hm, hgives⟩
    obtain ⟨v, hv, hgives'⟩ := exists_of_mem_left h hm
    rwa [gives_unique hs hgives hgives']

theorem offers_plain (hs : s.Sound) (ht : s.Known t) (hkind : s.kind t ≠ .union) :
    Steady (PropertyResult.within pool name 1 t) s (Offers pool name t) := by
  refine (one hs ht hkind).mono fun r answer hr hgrows h => ?_
  obtain ⟨htells, hsettled⟩ := h
  have hkind' : r.kind t ≠ .union := by rwa [kind, hgrows.data ht]
  have hlack : r.lack? name t = PropertyResult.lack? name (r.data t) := lack?_of_not_union hkind'
  rcases htells with ⟨u, rfl, hnone⟩ | ⟨hanswer, hsome⟩
  · have hu := known_of_gives hr (hgrows.known ht) hkind' hsettled
    refine ⟨hu, hlack.trans hnone, [u], ?_, List.forall_mem_singleton.2 hu, ?_⟩
    · rw [unionMembers_self hkind']
      exact .cons hsettled .nil
    · rw [List.flatMap_singleton]
      exact .refl _
  · rcases hanswer with rfl | rfl <;> exact hlack.trans hsome

theorem offers_members {members : List TypeId} (hs : s.Sound) (ht : s.Known t)
    (hd : s.data t = .union members) :
    Steady (ofMembers (PropertyResult.within pool name 1) members) s (Offers pool name t) := by
  have hnormal := hs.union_normal ht hd
  have hknown : ∀ m ∈ members, s.Known m := fun m hm => hs.known_part ht (by rwa [hd])
  refine (collects pool name hs fun m hm => ⟨hknown m hm, hnormal.flat m hm⟩).bind
    fun results r hr hgrows hresults => ?_
  have hd' : r.data t = .union members := (hgrows.data ht).trans hd
  have hlack : r.lack? name t = (members.map r.data).findSome? (PropertyResult.lack? name) :=
    lack?_of_union hd'
  cases results with
  | error answer =>
    have hsome : r.lack? name t = some answer := hlack.trans hresults
    rcases lack?_cases hsome with rfl | rfl <;> exact ret hr hsome
  | ok us =>
    obtain ⟨hsettled, hnone⟩ := hresults
    have hus : ∀ u ∈ us, r.Known u := by
      intro u hu
      obtain ⟨m, hm, hfound⟩ := exists_of_mem_left hsettled.flip hu
      have hkind : r.kind m ≠ .union := by
        rw [kind, hgrows.data (hknown m hm)]
        exact hnormal.flat m hm
      exact known_of_gives hr (hgrows.known (hknown m hm)) hkind hfound
    have hunion : Steady (TypeStore.union us) r (Sensible pool False) :=
      Steady.union hr fun u hu => ⟨hus u hu, False.elim⟩
    have hmade : Steady (TypeStore.union us) r fun q u => q.Known u ∧
        Replaces Combination.union.absorbing Combination.union.neutral (q.membersOf .union u)
          (us.flatMap (r.membersOf .union)) :=
      ⟨hunion.sound, hunion.grows, hunion.again, hunion.result.known,
        Combination.union.replaces_call hr hus⟩
    refine hmade.bind fun u q hq hlater hresult => ret hq ?_
    obtain ⟨hu, hreplaces⟩ := hresult
    have ht' := hgrows.known ht
    rw [← hlater.flatMap_membersOf hus] at hreplaces
    refine ⟨hu, (hlater.lack? hr ht' name).trans (hlack.trans hnone), us, ?_,
      fun v hv => hlater.known (hus v hv), hreplaces⟩
    rw [unionMembers, (hlater.data ht').trans hd']
    exact hsettled.imp fun m v hfound => hfound.grows hlater

theorem offers (hs : s.Sound) (ht : s.Known t) (pool : Proto.Pool) (name : String) :
    Steady (TypeStore.property pool t name) s (Offers pool name t) := by
  rcases Assignable.kind_cases s t with ⟨members, hd⟩ | ⟨hkind, -⟩
  · refine (offers_members hs ht hd).congr (fun r hr hgrows => ?_) hs
    rw [property_run hr (hgrows.known ht), within_union ((hgrows.data ht).trans hd)]
  · refine (offers_plain hs ht hkind).congr (fun r hr hgrows => ?_) hs
    have hkind' : r.kind t ≠ .union := by rwa [kind, hgrows.data ht]
    rw [property_run hr (hgrows.known ht), within_of_not_union hkind', within_of_not_union hkind']

theorem exists_found_iff (hs : s.Sound) (ht : s.Known t) (pool : Proto.Pool) (name : String) :
    (∃ u, (TypeStore.property pool t name s).1 = .found u) ↔ s.lack? name t = none := by
  have hoffers := offers hs ht pool name
  have hresult := hoffers.result
  have hlack := hoffers.grows.lack? hs ht name
  cases hanswer : (TypeStore.property pool t name s).1 with
  | found u =>
    rw [hanswer] at hresult
    exact iff_of_true ⟨u, rfl⟩ (hlack.symm.trans hresult.complete)
  | missing | notIndexable =>
    rw [hanswer] at hresult
    refine iff_of_false (fun ⟨_, h⟩ => nomatch h) fun hnone => ?_
    cases (hlack.trans hnone).symm.trans hresult

theorem Has.grows (h : Has pool name s t u) (hs : s.Sound) (ht : s.Known t) (hgrows : s.Grows r) :
    Has pool name r t u := by
  obtain ⟨us, hgives, hus, hreplaces⟩ := h.combined
  rw [← hgrows.flatMap_membersOf hus, ← hgrows.membersOf_eq h.known] at hreplaces
  refine ⟨hgrows.known h.known, (hgrows.lack? hs ht name).trans h.complete, us, ?_,
    fun v hv => hgrows.known (hus v hv), hreplaces⟩
  rw [hgrows.unionMembers_eq ht]
  exact hgives.imp fun m v hfound => hfound.grows hgrows

theorem has_of_found (hs : s.Sound) (ht : s.Known t)
    (hu : (TypeStore.property pool t name s).1 = .found u)
    (hr : (TypeStore.property pool t name s).2.Later r) : Has pool name r t u := by
  obtain ⟨hsound, hgrows, -, hresult⟩ := offers hs ht pool name
  rw [hu] at hresult
  exact hresult.grows hsound (hgrows.known ht) hr.grows

theorem union2_of_has {a b v w : TypeId} (hs : s.Sound)
    (hmembers : ∀ m, m ∈ s.unionMembers t ↔ m ∈ s.unionMembers a ∨ m ∈ s.unionMembers b)
    (ht : Has pool name s t w) (ha : Has pool name s a u) (hb : Has pool name s b v) :
    (TypeStore.union2 u v s).1 = w := by
  obtain ⟨hw, -, ws, hgives, -, hreplaces⟩ := ht
  obtain ⟨hu, -, us, hgives₁, -, hreplaces₁⟩ := ha
  obtain ⟨hv, -, vs, hgives₂, -, hreplaces₂⟩ := hb
  have hsame (x : TypeId) : x ∈ ws ↔ x ∈ us ++ vs := by
    rw [List.mem_append, mem_given hs hgives, mem_given hs hgives₁, mem_given hs hgives₂,
      ← exists_or]
    exact exists_congr fun m => by rw [hmembers, or_and_right]
  have hknown : ∀ x ∈ [u, v], s.Known x :=
    List.forall_mem_cons.2 ⟨hu, List.forall_mem_singleton.2 hv⟩
  have hmade : s.Made (TypeStore.union2 u v s) := hs.union hknown
  have hcall := Combination.union.replaces_call hs hknown
  rw [List.flatMap_cons, List.flatMap_singleton] at hcall
  refine Combination.union.eq_of_combine hmade.sound hmade.known (hmade.grows.known hw) ?_
  rw [hmade.grows.membersOf_eq hw]
  calc
    _ = combine Combination.union.absorbing Combination.union.neutral
          (us.flatMap (s.membersOf .union) ++ vs.flatMap (s.membersOf .union)) :=
        (hcall.trans (hreplaces₁.append Combination.union.neutral_not_mem hreplaces₂)).combine_eq
    _ = combine Combination.union.absorbing Combination.union.neutral
          (ws.flatMap (s.membersOf .union)) := by
        refine combine_congr Combination.union.neutral_not_mem fun x _ => ?_
        simp only [← List.flatMap_append, List.mem_flatMap, hsame]
    _ = _ := hreplaces.combine_eq.symm

end Steady

namespace Session
variable {σ : Session} {a b : TypeId} {r r₁ r₂ : TypeStore}

/-- A union has the properties that both of its types have, and what it has of them is the union of
what they have, whenever each of the types is asked. -/
theorem property_union2 (hσ : σ.Reached) (ha : a ∈ σ.issued) (hb : b ∈ σ.issued)
    (ha' : a ∉ [TypeId.never, .error]) (hb' : b ∉ [TypeId.never, .error]) (pool : Proto.Pool)
    (name : String) (hr : (union2 a b σ.store).2.Later r) (hr₁ : σ.store.Later r₁)
    (hr₂ : σ.store.Later r₂) :
    ((∃ t, (property pool (union2 a b σ.store).1 name r).1 = .found t) ↔
        (∃ u, (property pool a name r₁).1 = .found u) ∧
          ∃ v, (property pool b name r₂).1 = .found v) ∧
      ∀ t u v, (property pool (union2 a b σ.store).1 name r).1 = .found t →
        (property pool a name r₁).1 = .found u → (property pool b name r₂).1 = .found v →
        ∀ q, (property pool (union2 a b σ.store).1 name r).2.Later q →
          (property pool a name r₁).2.Later q → (property pool b name r₂).2.Later q →
          (union2 u v q).1 = t := by
  have hs := hσ.valid.sound
  have ha := hσ.valid.known a ha
  have hb := hσ.valid.known b hb
  have hmade : σ.store.Made (union2 a b σ.store) :=
    hs.union (List.forall_mem_cons.2 ⟨ha, List.forall_mem_singleton.2 hb⟩)
  have hlack := hs.lack?_union2 ha hb ha' hb' name
  have hunion := hs.unionMembers_union2 ha hb ha' hb'
  generalize union2 a b σ.store = made at hmade hlack hunion hr ⊢
  have hU := hr.grows.known hmade.known
  have ha₁ := hr₁.grows.known ha
  have hb₂ := hr₂.grows.known hb
  constructor
  · rw [Steady.exists_found_iff hr.sound hU, Steady.exists_found_iff hr₁.sound ha₁,
      Steady.exists_found_iff hr₂.sound hb₂, hr.grows.lack? hmade.sound hmade.known,
      hr₁.grows.lack? hs ha, hr₂.grows.lack? hs hb, hlack]
  · intro t u v ht hu hv q hq hq₁ hq₂
    rcases hunion with ⟨habsorbing, -⟩ | hmembers
    · have hnone := (Steady.exists_found_iff hr.sound hU pool name).1 ⟨t, ht⟩
      exact absurd hnone (lack?_of_absorbing habsorbing)
    have hgrows := (Steady.offers hr.sound hU pool name).grows.trans hq.grows
    have hgrows₁ := hr₁.grows.trans ((Steady.offers hr₁.sound ha₁ pool name).grows.trans hq₁.grows)
    have hgrows₂ := hr₂.grows.trans ((Steady.offers hr₂.sound hb₂ pool name).grows.trans hq₂.grows)
    refine Steady.union2_of_has hq.sound (fun m => ?_) (Steady.has_of_found hr.sound hU ht hq)
      (Steady.has_of_found hr₁.sound ha₁ hu hq₁) (Steady.has_of_found hr₂.sound hb₂ hv hq₂)
    rw [(hr.grows.trans hgrows).unionMembers_eq hmade.known, hgrows₁.unionMembers_eq ha,
      hgrows₂.unionMembers_eq hb]
    exact hmembers m

def withName (message : String) (type : Proto.FieldType) : Proto.Registered Proto.MessageDescriptor :=
  ⟨0, ⟨message, [⟨"name", 1, .singular type⟩]⟩⟩

def twoMessages : Session :=
  (single.call (.message (withName "Item" .string))).call (.message (withName "Order" .int32))

theorem Valid.exists_message (hσ : σ.Valid) (m : Proto.Registered Proto.MessageDescriptor) :
    ∃ t ∈ (σ.call (.message m)).issued,
      (σ.call (.message m)).store.lookup t = some (.message m) := by
  have hstored : σ.store.Stored (TypeStore.message m σ.store) (.message m) :=
    hσ.sound.internParts trivial (List.forall_mem_nil _)
  exact ⟨_, List.mem_cons_self, hstored.lookup⟩

theorem Valid.property_message (hσ : σ.Valid) {t : TypeId}
    {m : Proto.Registered Proto.MessageDescriptor} (ht : σ.store.lookup t = some (.message m))
    (pool : Proto.Pool) (name : String) : t ∉ [TypeId.never, .error] ∧
      property pool t name σ.store = PropertyResult.ofForm pool name (.message m) σ.store := by
  have hd := data_of_lookup ht
  have hkind : σ.store.kind t ≠ .union := by
    rw [kind, hd]
    intro h
    cases h
  have hsub : [TypeId.never, .error] ⊆ [TypeId.error, .any, .unknown, .never] := by decide
  refine ⟨fun hspecial => not_special hd rfl (hsub hspecial), ?_⟩
  rw [Steady.property_run hσ.sound ⟨_, ht⟩, Steady.within_of_not_union hkind, hd]

theorem property_union2_name : twoMessages.Reached ∧ ∃ a ∈ twoMessages.issued,
    ∃ b ∈ twoMessages.issued,
      (property (.empty 0) a "name" twoMessages.store).1 = .found .string ∧
      (property (.empty 0) b "name" twoMessages.store).1 = .found .int ∧
      ∃ t q, (property (.empty 0) (union2 a b twoMessages.store).1 "name"
          (union2 a b twoMessages.store).2).1 = .found t ∧ (union2 .string .int q).1 = t := by
  have hfirst : (single.call (.message (withName "Item" .string))).Reached :=
    reached_single.call_fixed (.message _) trivial (List.forall_mem_nil _)
  have hallowed : (single.call (.message (withName "Item" .string))).Allows
      (.message (withName "Order" .int32)) := ⟨trivial, List.forall_mem_nil _⟩
  have hreached : twoMessages.Reached := hfirst.call _ hallowed
  obtain ⟨a, ha, hitem⟩ := reached_single.valid.exists_message (withName "Item" .string)
  obtain ⟨b, hb, horder⟩ := hfirst.valid.exists_message (withName "Order" .int32)
  have ha : a ∈ twoMessages.issued := List.mem_cons_of_mem _ ha
  have hitem := (hfirst.valid.grows_call hallowed).types _ _ hitem
  have hvalid := hreached.valid
  obtain ⟨ha', hu⟩ := hvalid.property_message hitem (.empty 0) "name"
  obtain ⟨hb', hv⟩ := hvalid.property_message horder (.empty 0) "name"
  have hmade : twoMessages.store.Made (union2 a b twoMessages.store) :=
    hvalid.sound.union (List.forall_mem_cons.2 ⟨⟨_, hitem⟩, List.forall_mem_singleton.2 ⟨_, horder⟩⟩)
  have hasked := Steady.offers hmade.sound hmade.known (.empty 0) "name"
  obtain ⟨hiff, hunion⟩ := property_union2 hreached ha hb ha' hb' (.empty 0) "name"
    ⟨hmade.sound, .refl _⟩ ⟨hvalid.sound, .refl _⟩ ⟨hvalid.sound, .refl _⟩
  have hu' : (property (.empty 0) a "name" twoMessages.store).1 = .found .string := by rw [hu]; rfl
  have hv' : (property (.empty 0) b "name" twoMessages.store).1 = .found .int := by rw [hv]; rfl
  obtain ⟨t, ht⟩ := hiff.2 ⟨⟨_, hu'⟩, ⟨_, hv'⟩⟩
  have hlater : twoMessages.store.Later (property (.empty 0) (union2 a b twoMessages.store).1 "name"
      (union2 a b twoMessages.store).2).2 := ⟨hasked.sound, hmade.grows.trans hasked.grows⟩
  refine ⟨hreached, a, ha, b, hb, hu', hv', t, _, ht, hunion t _ _ ht hu' hv' _
    ⟨hasked.sound, .refl _⟩ ?_ ?_⟩
  · rw [hu]
    exact hlater
  · rw [hv]
    exact hlater

end Session
end TemplateCheck

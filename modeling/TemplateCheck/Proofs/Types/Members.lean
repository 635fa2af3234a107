import TemplateCheck.Proofs.Types.Fitting
import TemplateCheck.Proofs.Types.Making

/-! What unions and intersections are made of, told from the lists of types that were combined, and
what stays of types while others are made. -/

namespace TemplateCheck
open Assignable

namespace TypeStore
variable {s s' : TypeStore} {a b t u : TypeId} {d : TypeData} {k : Kind} {members : List TypeId}
  {mode : Mode} {n : Nat}

section Later

theorem Grows.within_eq (hgrows : s.Grows s') (h : s.Sound) (ha : s.Known a) (hb : s.Known b) :
    within s' mode n a b = within s mode n a b := by
  induction n generalizing a b with
  | zero => rfl
  | succ n ih =>
    have hdistribute : distribute (within s' mode n) s' a b = distribute (within s mode n) s a b :=
      calc
        distribute (within s' mode n) s' a b = distribute (within s' mode n) s a b := by
          rw [distribute, distribute, hgrows.data ha, hgrows.data hb]
        _ = distribute (within s mode n) s a b :=
          h.distribute_congr ha hb fun x y hx hy _ => ih hx hy
    rw [within, within, step, step, hdistribute]

theorem Grows.depth_eq (hgrows : s.Grows s') (h : s.Sound) (h' : s'.Sound) (ht : s.Known t) :
    s'.depth t = s.depth t :=
  hgrows.fold h h' ht

theorem Grows.accepts_eq (hgrows : s.Grows s') (h : s.Sound) (h' : s'.Sound) (ha : s.Known a)
    (hb : s.Known b) : s'.accepts mode a b = s.accepts mode a b := by
  rw [accepts, accepts, hgrows.depth_eq h h' ha, hgrows.depth_eq h h' hb, hgrows.within_eq h ha hb]

end Later

section Depth

theorem Sound.depth_le (h : s.Sound) (ht : s.Known t)
    (hparts : ∀ p ∈ (s.data t).parts, s.depth p < n) : s.depth t ≤ n := by
  have hmax (ns : List Nat) (hns : ∀ m ∈ ns, m < n) :
      ns.foldr (fun n m => max (n + 1) m) 0 ≤ n := by
    induction ns with
    | nil => exact Nat.zero_le n
    | cons m ns ih =>
      rw [List.forall_mem_cons] at hns
      exact Nat.max_le.2 ⟨hns.1, ih hns.2⟩
  have hfold : s.depth t = _ := h.fold ht.lookup_data
  rw [hfold, TypeForm.parts_mapParts]
  exact hmax _ (List.forall_mem_map.2 hparts)

end Depth

section Splitting

def membersOf (s : TypeStore) (k : Kind) (t : TypeId) : List TypeId :=
  if s.kind t = k then (s.data t).parts else [t]

theorem unionMembers_eq (s : TypeStore) (t : TypeId) :
    s.unionMembers t = s.membersOf .union t := by
  rw [unionMembers, membersOf, kind]
  cases s.data t <;> rfl

theorem intersectionMembers_eq (s : TypeStore) (t : TypeId) :
    s.intersectionMembers t = s.membersOf .intersection t := by
  rw [intersectionMembers, membersOf, kind]
  cases s.data t <;> rfl

theorem membersOf_of_kind (h : s.kind t = k) : s.membersOf k t = (s.data t).parts := if_pos h

theorem membersOf_self (h : s.kind t ≠ k) : s.membersOf k t = [t] := if_neg h

theorem Grows.membersOf_eq (hgrows : s.Grows s') (ht : s.Known t) :
    s'.membersOf k t = s.membersOf k t := by
  rw [membersOf, membersOf, kind, kind, hgrows.data ht]

theorem Grows.flatMap_membersOf {types : List TypeId} (hgrows : s.Grows s')
    (hknown : ∀ t ∈ types, s.Known t) :
    types.flatMap (s'.membersOf k) = types.flatMap (s.membersOf k) :=
  List.flatMap_congr fun t ht => hgrows.membersOf_eq (hknown t ht)

theorem Sound.known_membersOf (h : s.Sound) (ht : s.Known t) (hu : u ∈ s.membersOf k t) :
    s.Known u := by
  by_cases hkind : s.kind t = k
  · rw [membersOf_of_kind hkind] at hu
    exact h.known_part ht hu
  · rw [membersOf_self hkind, List.mem_singleton] at hu
    rwa [hu]

theorem Sound.membersOf_depth_le (h : s.Sound) (ht : s.Known t) (hu : u ∈ s.membersOf k t) :
    s.depth u ≤ s.depth t := by
  by_cases hkind : s.kind t = k
  · rw [membersOf_of_kind hkind] at hu
    exact Nat.le_of_lt (h.depth_lt ht hu)
  · rw [membersOf_self hkind, List.mem_singleton] at hu
    rw [hu]

theorem Sound.depth_le_of_membersOf (h : s.Sound) (ht : s.Known t)
    (hmembers : ∀ u ∈ s.membersOf k t, s.depth u < n) : s.depth t ≤ n := by
  by_cases hkind : s.kind t = k
  · rw [membersOf_of_kind hkind] at hmembers
    exact h.depth_le ht hmembers
  · rw [membersOf_self hkind] at hmembers
    exact Nat.le_of_lt (hmembers t (List.mem_singleton_self t))

theorem not_special (hd : s.data t = d) (hfixed : d.fixedId? = none) :
    t ∉ [TypeId.error, .any, .unknown, .never] := by
  have hne {e : TypeData} {u : TypeId} (hu : e.fixedId? = some u) : t ≠ u := by
    rintro rfl
    rw [s.data_fixed hu] at hd
    rw [hd, hfixed] at hu
    cases hu
  simp only [List.mem_cons, List.not_mem_nil, or_false, not_or]
  exact ⟨hne (e := .error) rfl, hne (e := .intrinsic .any) rfl, hne (e := .intrinsic .unknown) rfl,
    hne (e := .intrinsic .never) rfl⟩

theorem not_source_special (h : t ∉ [TypeId.error, .any, .unknown, .never]) :
    t ∉ [TypeId.error, .unknown, .never] := by
  have hsub : [TypeId.error, .unknown, .never] ⊆ [TypeId.error, .any, .unknown, .never] := by decide
  exact fun ht => h (hsub ht)

theorem not_isTop_of_not_special (h : t ∉ [TypeId.error, .any, .unknown, .never]) :
    t.isTop = false := by
  simp only [List.mem_cons, List.not_mem_nil, or_false, not_or] at h
  simp [TypeId.isTop, h]

theorem Normal.exists_ne (h : s.Normal k members) (t : TypeId) : ∃ u ∈ members, u ≠ t := by
  have htwo := h.two
  have hascends := h.ascends
  match members, htwo with
  | u :: v :: rest, _ =>
    have hlt : u.number < v.number := List.rel_of_pairwise_cons hascends (List.mem_cons_self ..)
    by_cases hu : u = t
    · refine ⟨v, by simp, ?_⟩
      rintro rfl
      rw [hu] at hlt
      exact Nat.lt_irrefl _ hlt
    · exact ⟨u, by simp, hu⟩

end Splitting

section Combining
variable {types : List TypeId} {neutral : TypeId} {absorbing : List TypeId}
  {made : TypeId × TypeStore}

def combine (absorbing : List TypeId) (neutral : TypeId) (members : List TypeId) : Combined :=
  match absorbing.find? (· ∈ members) with
  | some t => .one t
  | none => .ofMembers neutral (essential neutral members)

theorem normalizeUnion_eq (members : List TypeId) :
    normalizeUnion members = combine [.error, .any, .unknown] .never members := by
  have hmem {t : TypeId} := Order.mem_ascending TypeId.number_injective (x := t) (l := members)
  simp only [normalizeUnion, hmem, combine, List.find?, essential]
  by_cases herror : TypeId.error ∈ members
  · simp [herror]
  · by_cases hany : TypeId.any ∈ members
    · simp [herror, hany]
    · by_cases hunknown : TypeId.unknown ∈ members <;> simp [herror, hany, hunknown]

theorem normalizeIntersection_eq (members : List TypeId) :
    normalizeIntersection members = combine [.error, .never, .any] .unknown members := by
  have hmem {t : TypeId} := Order.mem_ascending TypeId.number_injective (x := t) (l := members)
  simp only [normalizeIntersection, hmem, combine, List.find?, essential]
  by_cases herror : TypeId.error ∈ members
  · simp [herror]
  · by_cases hnever : TypeId.never ∈ members
    · simp [herror, hnever]
    · by_cases hany : TypeId.any ∈ members <;> simp [herror, hnever, hany]

theorem combine_normal
    (hcover : ∀ t ∈ [TypeId.error, .any, .unknown, .never], t ≠ neutral → t ∈ absorbing)
    (hflat : ∀ t ∈ members, s.kind t ≠ k) (hnone : absorbing.find? (· ∈ members) = none)
    (htwo : 2 ≤ (essential neutral members).length) : s.Normal k (essential neutral members) := by
  refine ⟨htwo, ascends_essential neutral members, fun t ht => hflat t (mem_essential.1 ht).1,
    fun t ht hspecial => ?_⟩
  obtain ⟨hmem, hne⟩ := mem_essential.1 ht
  simpa [hmem] using List.find?_eq_none.1 hnone t (hcover t hspecial hne)

def Gathers (k : Kind) (absorbing : List TypeId) (neutral : TypeId) (members : List TypeId)
    (made : TypeId × TypeStore) : Prop :=
  (made.1 ∈ absorbing ∧ made.1 ∈ members) ∨
    ∀ m, m ≠ neutral → (m ∈ made.2.membersOf k made.1 ↔ m ∈ members)

theorem gathers_single (s : TypeStore) (t : TypeId) :
    Gathers k absorbing neutral ([t].flatMap (s.membersOf k)) (t, s) :=
  .inr fun m _ => by rw [List.flatMap_singleton]

theorem gathers_nil (hneutral : s.kind neutral ≠ k) :
    Gathers k absorbing neutral ([].flatMap (s.membersOf k)) (neutral, s) :=
  .inr fun m hm => by simp [membersOf_self hneutral, hm]

theorem Sound.finish_gathers (h : s.Sound) {form : List TypeId → TypeData} {c : Combined}
    (hparts : ∀ members, (form members).parts = members)
    (hkind : ∀ members, (form members).kind = k)
    (hform : ∀ {s : TypeStore} {members}, members ∈ s.lists → s.Normal k members →
      s.Recorded (form members))
    (hneutral : s.kind neutral ≠ k)
    (hcover : ∀ t ∈ [TypeId.error, .any, .unknown, .never], t ≠ neutral → t ∈ absorbing)
    (hmembers : ∀ t ∈ members, s.Known t ∧ s.kind t ≠ k)
    (hc : (∃ t ∈ absorbing, t ∈ members ∧ c = .one t) ∨
      (∀ t ∈ absorbing, t ∉ members) ∧ c = .ofMembers neutral (essential neutral members)) :
    Gathers k absorbing neutral members (finish form c s) := by
  have hcombined := combined_cases hcover (fun t ht => (hmembers t ht).2) hc
  rcases hc with ⟨t, habsorbing, ht, rfl⟩ | ⟨-, rfl⟩
  · exact .inl ⟨habsorbing, ht⟩
  refine .inr fun m hm => ?_
  have hessential : m ∈ essential neutral members ↔ m ∈ members := by simp [mem_essential, hm]
  rw [← hessential]
  rcases ofMembers_cases neutral (essential neutral members) with
    ⟨hnil, hc⟩ | ⟨t, hone, hc⟩ | ⟨-, hc⟩
  · rw [hc, hnil]
    change m ∈ s.membersOf k neutral ↔ _
    simp [membersOf_self hneutral, hm]
  · have ht : t ∈ essential neutral members := hone ▸ List.mem_singleton_self t
    rw [hc, hone]
    change m ∈ s.membersOf k t ↔ _
    rw [membersOf_self (hmembers t (mem_essential.1 ht).1).2]
  · rw [hc] at hcombined ⊢
    rcases hcombined with ⟨t, hone, -⟩ | ⟨ns, hmany, hsub, hnormal⟩
    · cases hone
    · cases hmany
      have hknown : ∀ t ∈ essential neutral members, s.Known t := fun t ht =>
        (hmembers t (hsub t ht)).1
      have hstored := h.finish_many (hparts _) hform hknown hnormal
      have hdata := data_of_lookup hstored.lookup
      rw [membersOf_of_kind (by rw [kind, hdata, hkind]), hdata, hparts]

theorem Sound.union_gathers (h : s.Sound) (hknown : ∀ t ∈ types, s.Known t) :
    Gathers .union [.error, .any, .unknown] .never (types.flatMap (s.membersOf .union))
      (TypeStore.union types s) := by
  have hdata : s.data .never = .intrinsic .never := s.data_fixed rfl
  have hnever : s.kind .never ≠ .union := by
    rw [kind, hdata]
    decide
  rcases types with _ | ⟨t, _ | ⟨u, rest⟩⟩
  · exact gathers_nil hnever
  · exact gathers_single s t
  · rw [union_run _ (Nat.le_add_left ..), funext s.unionMembers_eq]
    refine h.finish_gathers (fun _ => rfl) (fun _ => rfl) (fun hmem hnormal => ⟨hmem, hnormal⟩)
      hnever (by decide) ?_ (normalizeUnion_cases _)
    intro v hv
    obtain ⟨w, hw, hv⟩ := List.mem_flatMap.1 hv
    rw [← unionMembers_eq] at hv
    exact h.unionMembers (hknown w hw) hv

theorem Sound.intersection_gathers (h : s.Sound) (hknown : ∀ t ∈ types, s.Known t) :
    Gathers .intersection [.error, .never, .any] .unknown
      (types.flatMap (s.membersOf .intersection)) (TypeStore.intersection types s) := by
  have hdata : s.data .unknown = .intrinsic .unknown := s.data_fixed rfl
  have hunknown : s.kind .unknown ≠ .intersection := by
    rw [kind, hdata]
    decide
  rcases types with _ | ⟨t, _ | ⟨u, rest⟩⟩
  · exact gathers_nil hunknown
  · exact gathers_single s t
  · rw [intersection_run _ (Nat.le_add_left ..), funext s.intersectionMembers_eq]
    refine h.finish_gathers (fun _ => rfl) (fun _ => rfl) (fun hmem hnormal => ⟨hmem, hnormal⟩)
      hunknown (by decide) ?_ (normalizeIntersection_cases _)
    intro v hv
    obtain ⟨w, hw, hv⟩ := List.mem_flatMap.1 hv
    rw [← intersectionMembers_eq] at hv
    exact h.intersectionMembers (hknown w hw) hv

theorem Made.depth_le (hmade : s.Made made) (h : s.Sound) (hfixed : d.fixedId? = some neutral)
    (hknown : ∀ t ∈ types, s.Known t) (hdepth : ∀ t ∈ types, s.depth t < n) (hn : 0 < n)
    (hgathers : Gathers k absorbing neutral (types.flatMap (s.membersOf k)) made) :
    made.2.depth made.1 ≤ n := by
  have hmember {m} (hm : m ∈ types.flatMap (s.membersOf k)) : made.2.depth m < n := by
    obtain ⟨t, ht, hm⟩ := List.mem_flatMap.1 hm
    have hle := h.membersOf_depth_le (hknown t ht) hm
    have hm := h.known_membersOf (hknown t ht) hm
    rw [hmade.grows.depth_eq h hmade.sound hm]
    exact Nat.lt_of_le_of_lt hle (hdepth t ht)
  rcases hgathers with ⟨-, hmem⟩ | hmembers
  · exact Nat.le_of_lt (hmember hmem)
  · refine hmade.sound.depth_le_of_membersOf (k := k) hmade.known fun m hm => ?_
    by_cases hneutral : m = neutral
    · have hzero : made.2.depth m ≤ 0 := by
        refine hmade.sound.depth_le (hneutral ▸ known_fixed _ hfixed) fun p hp => ?_
        rw [hneutral, data_fixed _ hfixed, parts_of_fixedId? hfixed] at hp
        cases hp
      exact Nat.lt_of_le_of_lt hzero hn
    · exact hmember ((hmembers m hneutral).1 hm)

end Combining
end TypeStore
end TemplateCheck

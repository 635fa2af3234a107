import TemplateCheck.Proofs.Types.Session
import TemplateCheck.Proofs.Types.Uniform

/-! The text of a type and the history of its store. A store numbers types in the order in which they
come, and keeps a record in the order of properties in which it came first. Apart from the latter,
types without intersections have the same text in every store. -/

namespace TemplateCheck
open Relation (ReflTransGen)

theorem RecordProperty.forall₂_of_names {τ υ : Type} {R : τ → υ → Prop}
    {ps : List (RecordProperty τ)} {qs : List (RecordProperty υ)}
    (h : Matches (RecordProperty.Alike R) ps qs) (hnames : ps.map (·.name) = qs.map (·.name))
    (hnodup : (qs.map (·.name)).Nodup) : List.Forall₂ (RecordProperty.Alike R) ps qs := by
  have hpaired : List.Forall₂ (fun p q => p.name = q.name) ps qs := by
    rwa [← List.forall₂_eq_eq_eq, List.forall₂_map_left_iff, List.forall₂_map_right_iff] at hnames
  refine TypeForm.forall₂_mono hpaired fun p hp q hq hpq => ?_
  obtain ⟨r, hr, hpr⟩ := h.1 p hp
  obtain rfl : q = r := List.inj_on_of_nodup_map hnodup hq hr (hpq.symm.trans hpr.1)
  exact hpr

namespace TypeStore
variable {s s' : TypeStore} {t u p q : TypeId}

def propertyNames (s : TypeStore) (t : TypeId) : List String :=
  match s.data t with
  | .record properties => properties.map (·.name)
  | _ => []

/-- Both stores have the properties of the records within a type in the same order. -/
def SameRecords (s s' : TypeStore) (t u : TypeId) : Prop :=
  ∀ p q, ReflTransGen s.Part t p → ReflTransGen s'.Part u q → (s.denote p).Alike (s'.denote q) →
    s.propertyNames p = s'.propertyNames q

theorem SameRecords.part (h : s.SameRecords s' t u) (hp : s.Part t p) (hq : s'.Part u q) :
    s.SameRecords s' p q :=
  fun v w hv hw => h v w (.head hp hv) (.head hq hw)

theorem Sound.uniform_of_sameRecords (h : s.Sound) (h' : s'.Sound) (ht : s.Known t)
    (hu : s'.Known u) (halike : (s.denote t).Alike (s'.denote u))
    (hrecords : s.SameRecords s' t u) : s.Uniform s' t u := by
  refine h.induct (motive := fun t => ∀ u, s'.Known u → (s.denote t).Alike (s'.denote u) →
    s.SameRecords s' t u → s.Uniform s' t u)
    (fun t d hd ih u hu halike hrecords => ?_) t ht u hu halike hrecords
  obtain ⟨e, he⟩ := hu
  have hnames := hrecords t u .refl .refl halike
  have hadmits := h'.admits u e he
  have hforms : d.Alike (s.Uniform s') e := by
    refine (h.alike_data h' hd he halike).mono fun p hp q hq hpq => ?_
    refine ih p hp q (hadmits.parts q hq) hpq (hrecords.part ?_ ?_)
    · rwa [Part, children, data_of_lookup hd]
    · rwa [Part, children, data_of_lookup he]
  refine h.uniform_of_data h' hd he hforms ?_
  rw [propertyNames, propertyNames, data_of_lookup hd, data_of_lookup he] at hnames
  cases hforms with
  | record hmatch => exact RecordProperty.forall₂_of_names hmatch hnames hadmits.recorded.2
  | _ => trivial

theorem Sound.propertyNames_eq (h : s.Sound) (h' : s'.Sound) (ht : s.Known t) (hu : s'.Known u)
    (huniform : s.Uniform s' t u) : s.propertyNames t = s'.propertyNames u := by
  obtain ⟨hforms, horder⟩ := h.uniform_data h' ht.lookup_data hu.lookup_data huniform
  rw [propertyNames, propertyNames]
  generalize s.data t = d at hforms horder
  generalize s'.data u = e at hforms horder
  cases hforms with
  | record => exact forall₂_eq_map (horder.imp fun _ _ hpq => hpq.1)
  | _ => rfl

theorem Sound.sameRecords_of_uniform (h : s.Sound) (h' : s'.Sound) (ht : s.Known t)
    (hu : s'.Known u) (huniform : s.Uniform s' t u) : s.SameRecords s' t u := by
  intro p q hp hq halike
  have hknown := h'.known_reach hu hq
  suffices hbelow : ∃ r, s'.Known r ∧ s.Uniform s' p r by
    obtain ⟨r, hr, hpr⟩ := hbelow
    obtain rfl := h'.eq_of_alike_one hknown hr halike hpr.alike
    exact h.propertyNames_eq h' (h.known_reach ht hp) hknown hpr
  clear hq halike hknown
  induction hp using ReflTransGen.head_induction_on generalizing u with
  | refl => exact ⟨u, hu, huniform⟩
  | head hpart _ ih =>
    obtain ⟨v, hv, hpartv⟩ := h.uniform_part h' huniform ht hu hpart
    exact ih (h.known_part ht hpart) (h'.known_part hu hv) hpartv

theorem Sound.uniform_iff (h : s.Sound) (h' : s'.Sound) (ht : s.Known t) (hu : s'.Known u) :
    s.Uniform s' t u ↔ (s.denote t).Alike (s'.denote u) ∧ s.SameRecords s' t u :=
  ⟨fun huniform => ⟨huniform.alike, h.sameRecords_of_uniform h' ht hu huniform⟩,
    fun hsame => h.uniform_of_sameRecords h' ht hu hsame.1 hsame.2⟩

theorem Sound.isDisplayStable_of_throughout (h : s.Sound) (ht : s.Known t)
    (hplain : s.Throughout (fun d => d.kind ≠ .intersection) t) : s.isDisplayStable t := by
  rw [isDisplayStable, Bool.not_eq_true', ← h.throughout_iff_containsForm ht, throughout_iff h ht]
  intro u htu
  have hkind := (throughout_iff h ht).1 hplain u htu
  cases hdata : s.data u with
  | intersection members =>
    rw [hdata] at hkind
    exact absurd rfl hkind
  | _ => rfl

end TypeStore

namespace Session
open TypeStore
variable {σ τ : Session} {t u : TypeId}

/-- The text of a type without intersections does not depend on the history of the store, but for
the order of the properties of records. -/
theorem display_eq_of_alike (hσ : σ.Reached) (hτ : τ.Reached) (ht : t ∈ σ.issued)
    (hu : u ∈ τ.issued) (halike : (σ.store.denote t).Alike (τ.store.denote u))
    (hplain : σ.store.Throughout (fun d => d.kind ≠ .intersection) t)
    (hrecords : σ.store.SameRecords τ.store t u) : σ.store.display t = τ.store.display u := by
  have hsound := hσ.valid.sound
  have hsound' := hτ.valid.sound
  have ht := hσ.valid.known t ht
  have hu := hτ.valid.known u hu
  have huniform := (hsound.uniform_iff hsound' ht hu).2 ⟨halike, hrecords⟩
  exact hsound.display_eq_of_uniform hsound' ht hu huniform
    (hsound.isDisplayStable_of_throughout ht hplain)

def container : Bool → Call
  | true => .list .int
  | false => .set .int

def containerForm : Bool → TypeData
  | true => .list .int
  | false => .set .int

def containers (listFirst : Bool) : Session :=
  (single.call (container listFirst)).call (container !listFirst)

def joined (listFirst : Bool) : Session :=
  ((containers listFirst).call (.union [⟨127⟩, ⟨191⟩])).call
    (.record [⟨"items", false, ⟨255⟩⟩, ⟨"count", true, .int⟩])

theorem stored_joined : ∀ listFirst,
    (joined listFirst).issued.take 4 = [⟨319⟩, ⟨255⟩, ⟨191⟩, ⟨127⟩] ∧
      (joined listFirst).store.lookup ⟨127⟩ = some (containerForm listFirst) ∧
      (joined listFirst).store.lookup ⟨191⟩ = some (containerForm !listFirst) ∧
      (joined listFirst).store.lookup ⟨255⟩ = some (.union [⟨127⟩, ⟨191⟩]) ∧
      (joined listFirst).store.lookup ⟨319⟩ =
        some (.record [⟨"items", false, ⟨255⟩⟩, ⟨"count", true, .int⟩]) := by
  decide +kernel

theorem uniform_container {s s' : TypeStore} (isList : Bool) (h : s.Sound) (h' : s'.Sound)
    (ht : s.lookup t = some (containerForm isList))
    (hu : s'.lookup u = some (containerForm isList)) : s.Uniform s' t u := by
  have hint : s.Uniform s' .int .int := h.uniform_fixed h' (d := .intrinsic .int) rfl
  cases isList with
  | true => exact h.uniform_of_data h' ht hu (.list hint) trivial
  | false => exact h.uniform_of_data h' ht hu (.set hint) trivial

section Joined
variable (listFirst : Bool)

theorem issued_joined : ⟨319⟩ ∈ (joined listFirst).issued := by
  obtain ⟨hissued, -⟩ := stored_joined listFirst
  have hlatest : TypeId.mk 319 ∈ (joined listFirst).issued.take 4 := by
    rw [hissued]
    exact List.mem_cons_self ..
  exact List.mem_of_mem_take hlatest

theorem reached_containers : (containers listFirst).Reached := by
  have hcontainer (isList : Bool) : (container isList).Proper ∧
      ∀ t ∈ (container isList).arguments, t ∈ TypeId.allFixed := by
    cases isList <;> exact ⟨trivial, by decide⟩
  obtain ⟨hproper, hfixed⟩ := hcontainer listFirst
  obtain ⟨hproper', hfixed'⟩ := hcontainer !listFirst
  exact (reached_single.call_fixed _ hproper hfixed).call_fixed _ hproper' hfixed'

theorem reached_joined : (joined listFirst).Reached := by
  obtain ⟨hissued, -⟩ := stored_joined listFirst
  have hunion : ((containers listFirst).call (.union [⟨127⟩, ⟨191⟩])).Reached := by
    refine (reached_containers listFirst).call _ ⟨trivial, fun t ht => ?_⟩
    have hbefore : (containers listFirst).issued.take 2 = [⟨191⟩, ⟨127⟩] :=
      congrArg (·.tail.tail) hissued
    have hrecent : t ∈ [TypeId.mk 191, ⟨127⟩] := (List.Perm.swap ..).mem_iff.1 ht
    rw [← hbefore] at hrecent
    exact List.mem_of_mem_take hrecent
  refine hunion.call _ ⟨show ["items", "count"].Nodup by decide, List.forall_mem_cons.2
    ⟨?_, List.forall_mem_singleton.2 (hunion.fixed_issued (by decide))⟩⟩
  have hbefore : ((containers listFirst).call (.union [⟨127⟩, ⟨191⟩])).issued.take 1 = [⟨255⟩] :=
    congrArg (·.tail.take 1) hissued
  have hlatest : TypeId.mk 255 ∈ [TypeId.mk 255] := List.mem_singleton_self _
  rw [← hbefore] at hlatest
  exact List.mem_of_mem_take hlatest

theorem uniform_joined :
    (joined listFirst).store.Uniform (joined !listFirst).store ⟨319⟩ ⟨319⟩ := by
  have hsound := (reached_joined listFirst).valid.sound
  have hsound' := (reached_joined !listFirst).valid.sound
  obtain ⟨-, hfirst, hsecond, hunion, hrecord⟩ := stored_joined listFirst
  obtain ⟨-, hsecond', hfirst', hunion', hrecord'⟩ := stored_joined !listFirst
  rw [Bool.not_not] at hfirst'
  have hcross := uniform_container listFirst hsound hsound' hfirst hfirst'
  have hback := uniform_container (!listFirst) hsound hsound' hsecond hsecond'
  have hmatch := (Matches.of_forall₂ (.cons hcross (.cons hback .nil))).of_perm (.refl _)
    (List.Perm.swap ..)
  have hunions := hsound.uniform_of_data hsound' hunion hunion' (.union hmatch) trivial
  have hint := hsound.uniform_fixed hsound' (d := .intrinsic .int) rfl
  have hproperties : List.Forall₂
      (RecordProperty.Alike ((joined listFirst).store.Uniform (joined !listFirst).store))
      [⟨"items", false, ⟨255⟩⟩, ⟨"count", true, .int⟩]
      [⟨"items", false, ⟨255⟩⟩, ⟨"count", true, .int⟩] :=
    .cons ⟨rfl, rfl, hunions⟩ (.cons ⟨rfl, rfl, hint⟩ .nil)
  exact hsound.uniform_of_data hsound' hrecord hrecord' (.record (.of_forall₂ hproperties))
    hproperties

theorem throughout_joined :
    (joined listFirst).store.Throughout (fun d => d.kind ≠ .intersection) ⟨319⟩ := by
  obtain ⟨-, hfirst, hsecond, hunion, hrecord⟩ := stored_joined listFirst
  have hint : (joined listFirst).store.Throughout (fun d => d.kind ≠ .intersection) .int :=
    .of_data (d := .intrinsic .int) (data_fixed _ rfl) (by decide) (List.forall_mem_nil _)
  have hcontainer {t : TypeId} (isList : Bool)
      (ht : (joined listFirst).store.lookup t = some (containerForm isList)) :
      (joined listFirst).store.Throughout (fun d => d.kind ≠ .intersection) t := by
    refine .of_data (data_of_lookup ht) ?_ ?_
    · cases isList <;> decide
    · cases isList <;> exact List.forall_mem_singleton.2 hint
  have hunions : (joined listFirst).store.Throughout (fun d => d.kind ≠ .intersection) ⟨255⟩ :=
    .of_data (data_of_lookup hunion) (by decide) (List.forall_mem_cons.2
      ⟨hcontainer _ hfirst, List.forall_mem_singleton.2 (hcontainer _ hsecond)⟩)
  exact .of_data (data_of_lookup hrecord) (by decide)
    (List.forall_mem_cons.2 ⟨hunions, List.forall_mem_singleton.2 hint⟩)

end Joined

theorem display_eq_of_alike_joined :
    (joined true).Reached ∧ (joined false).Reached ∧
      ((joined true).store.denote ⟨319⟩).Alike ((joined false).store.denote ⟨319⟩) ∧
        (joined true).store.display ⟨319⟩ = (joined false).store.display ⟨319⟩ := by
  have hlist := reached_joined true
  have hset := reached_joined false
  have hknown := hlist.valid.known _ (issued_joined true)
  have hknown' := hset.valid.known _ (issued_joined false)
  obtain ⟨halike, hrecords⟩ :=
    (hlist.valid.sound.uniform_iff hset.valid.sound hknown hknown').1 (uniform_joined true)
  exact ⟨hlist, hset, halike, display_eq_of_alike hlist hset (issued_joined true)
    (issued_joined false) halike (throughout_joined true) hrecords⟩

end Session
end TemplateCheck

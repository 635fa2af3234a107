import TemplateCheck.Proofs.Types.Matching
import TemplateCheck.Proofs.Types.Members
import TemplateCheck.Proofs.Types.Membership

/-! Unions and intersections of the same types are the same type, in whatever order, how often and
in how many nested calls the types are given. -/

namespace TemplateCheck
open TypeStore

namespace TypeStore
variable {s s' : TypeStore} {t u : TypeId} {absorbing ms ns rest : List TypeId} {neutral : TypeId}

section Replacing

theorem combine_congr (hneutral : neutral ∉ absorbing)
    (h : ∀ t, t ≠ neutral → (t ∈ ms ↔ t ∈ ns)) :
    combine absorbing neutral ms = combine absorbing neutral ns := by
  have hfind : absorbing.find? (· ∈ ms) = absorbing.find? (· ∈ ns) := by
    refine find?_congr_mem fun t ht => ?_
    have hne : t ≠ neutral := fun heq => hneutral (heq ▸ ht)
    simp only [h t hne]
  have hessential : essential neutral ms = essential neutral ns := by
    apply (ascends_essential neutral ms).eq_of_mem_iff (ascends_essential neutral ns)
    intro t
    rw [mem_essential, mem_essential]
    exact and_congr_left (h t)
  unfold combine
  rw [hfind, hessential]

theorem combine_of_find? (h : absorbing.find? (· ∈ ms) = some t) :
    combine absorbing neutral ms = .one t := by
  rw [combine, h]

def Replaces (absorbing : List TypeId) (neutral : TypeId) (ns ms : List TypeId) : Prop :=
  ∀ rest, combine absorbing neutral (ns ++ rest) = combine absorbing neutral (ms ++ rest)

namespace Replaces

theorem of_mem_iff (hneutral : neutral ∉ absorbing)
    (h : ∀ t, t ≠ neutral → (t ∈ ns ↔ t ∈ ms)) : Replaces absorbing neutral ns ms := by
  intro rest
  apply combine_congr hneutral
  intro t ht
  rw [List.mem_append, List.mem_append, h t ht]

theorem refl (ms : List TypeId) : Replaces absorbing neutral ms ms := fun _ => rfl

theorem trans {ks : List TypeId} (h : Replaces absorbing neutral ks ns)
    (h' : Replaces absorbing neutral ns ms) : Replaces absorbing neutral ks ms :=
  fun rest => (h rest).trans (h' rest)

theorem combine_eq (h : Replaces absorbing neutral ns ms) :
    combine absorbing neutral ns = combine absorbing neutral ms := by
  have hnil := h []
  rwa [List.append_nil, List.append_nil] at hnil

theorem append {ms' ns' : List TypeId} (hneutral : neutral ∉ absorbing)
    (h : Replaces absorbing neutral ns ms) (h' : Replaces absorbing neutral ns' ms') :
    Replaces absorbing neutral (ns ++ ns') (ms ++ ms') := by
  intro rest
  have hswap (as bs : List TypeId) :
      combine absorbing neutral (as ++ bs ++ rest) =
        combine absorbing neutral (bs ++ (as ++ rest)) := by
    apply combine_congr hneutral
    simp only [List.mem_append]
    tauto
  calc
    combine absorbing neutral (ns ++ ns' ++ rest)
      = combine absorbing neutral (ms ++ (ns' ++ rest)) := by rw [List.append_assoc, h]
    _ = combine absorbing neutral (ns' ++ (ms ++ rest)) := by rw [← hswap, List.append_assoc]
    _ = combine absorbing neutral (ms' ++ (ms ++ rest)) := h' _
    _ = combine absorbing neutral (ms ++ ms' ++ rest) := (hswap ms ms').symm

theorem of_find? (h : absorbing.find? (· ∈ ms) = some t) : Replaces absorbing neutral [t] ms := by
  intro rest
  have hfind : ∃ u, absorbing.find? (· ∈ [t] ++ rest) = some u ∧
      absorbing.find? (· ∈ ms ++ rest) = some u := by
    have ht : t ∈ ms := by simpa using List.find?_some h
    induction absorbing with
    | nil => cases h
    | cons a as ih =>
      by_cases ha : a = t ∨ a ∈ rest
      · refine ⟨a, List.find?_cons_of_pos (by simpa using ha), List.find?_cons_of_pos ?_⟩
        rcases ha with rfl | ha
        · simp [ht]
        · simp [ha]
      · obtain ⟨hne, hrest⟩ := not_or.1 ha
        have hms : a ∉ ms := fun hmem => hne (by simpa [List.find?_cons_of_pos, hmem] using h)
        rw [List.find?_cons_of_neg (by simpa using hms)] at h
        rw [List.find?_cons_of_neg (by simpa using ha),
          List.find?_cons_of_neg (by simp [hms, hrest])]
        exact ih h
  obtain ⟨u, hleft, hright⟩ := hfind
  rw [combine_of_find? hleft, combine_of_find? hright]

end Replaces

end Replacing

end TypeStore

/-- The two ways to combine types. -/
inductive Combination where
  | union
  | intersection

namespace Combination

def call : Combination → List TypeId → Call
  | union => .union
  | intersection => .intersection

def kind : Combination → Kind
  | union => .union
  | intersection => .intersection

/-- The types that absorb all others, the strongest one first. -/
def absorbing : Combination → List TypeId
  | union => [.error, .any, .unknown]
  | intersection => [.error, .never, .any]

def neutral : Combination → TypeId
  | union => .never
  | intersection => .unknown

variable {s s' : TypeStore} {t u : TypeId} {ts : List TypeId} (c : Combination)

theorem neutral_not_mem : c.neutral ∉ c.absorbing := by cases c <;> decide

theorem absorbing_special : c.absorbing ⊆ [TypeId.error, .any, .unknown, .never] := by
  cases c <;> decide

theorem neutral_special : c.neutral ∈ [TypeId.error, .any, .unknown, .never] := by
  cases c <;> decide

theorem arguments_call (ts : List TypeId) : (c.call ts).arguments = ts := by cases c <;> rfl

theorem proper_call (ts : List TypeId) : (c.call ts).Proper := by cases c <;> trivial

theorem kind_special (s : TypeStore) (ht : t ∈ [TypeId.error, .any, .unknown, .never]) :
    s.kind t ≠ c.kind := by
  intro hkind
  refine not_special (s := s) rfl ?_ ht
  rw [TypeStore.kind] at hkind
  generalize s.data t = d at hkind
  cases c <;> cases d <;> first | rfl | cases hkind

theorem normal (h : s.Sound) (ht : s.Known t) (hkind : s.kind t = c.kind) :
    s.Normal c.kind (s.data t).parts := by
  cases hd : s.data t with
  | union members =>
    have hkind : c.kind = .union := by rw [← hkind, TypeStore.kind, hd]; rfl
    rw [hkind]
    exact h.union_normal ht hd
  | intersection members =>
    have hkind : c.kind = .intersection := by rw [← hkind, TypeStore.kind, hd]; rfl
    rw [hkind]
    exact h.intersection_normal ht hd
  | _ =>
    rw [TypeStore.kind, hd] at hkind
    cases c <;> cases hkind

theorem eq_of_parts (h : s.Sound) (ht : s.Known t) (hu : s.Known u) (hkind : s.kind t = c.kind)
    (hkind' : s.kind u = c.kind) (hparts : (s.data t).parts = (s.data u).parts) : t = u := by
  have hdata : s.data t = s.data u := by
    rw [TypeStore.kind] at hkind hkind'
    generalize s.data t = d at hkind hparts
    generalize s.data u = e at hkind' hparts
    cases c <;> cases d <;> cases hkind <;> cases e <;> cases hkind' <;> exact congrArg _ hparts
  exact h.lookup_injective ht.lookup_data (hdata ▸ hu.lookup_data)

theorem combine_of_normal {members : List TypeId} (h : s.Normal c.kind members) :
    combine c.absorbing c.neutral members = .many members := by
  have hfind : c.absorbing.find? (· ∈ members) = none := by
    refine List.find?_eq_none.2 fun u hu => ?_
    have hnot : u ∉ members := fun hmem => h.plain u hmem (c.absorbing_special hu)
    simpa using hnot
  have hessential : essential c.neutral members = members := by
    apply (ascends_essential _ _).eq_of_mem_iff h.ascends
    intro u
    rw [mem_essential, and_iff_left_iff_imp]
    rintro hu rfl
    exact h.plain _ hu c.neutral_special
  rw [combine, hfind, hessential]
  exact ofMembers_of_two _ h.two

theorem combine_single (t : TypeId) : combine c.absorbing c.neutral [t] = .one t := by
  rw [combine]
  cases hfind : c.absorbing.find? (· ∈ [t]) with
  | some u =>
    have hu : u = t := by simpa using List.find?_some hfind
    rw [hu]
  | none =>
    have hessential : essential c.neutral [t] = [t].filter (· != c.neutral) := rfl
    rw [hessential]
    by_cases hneutral : t = c.neutral
    · simp [hneutral, Combined.ofMembers]
    · simp [hneutral, Combined.ofMembers]

theorem combine_membersOf (h : s.Sound) (ht : s.Known t) :
    combine c.absorbing c.neutral (s.membersOf c.kind t) =
      if s.kind t = c.kind then .many (s.data t).parts else .one t := by
  split
  next hkind => rw [membersOf_of_kind hkind, c.combine_of_normal (c.normal h ht hkind)]
  next hkind => rw [membersOf_self hkind, c.combine_single]

theorem eq_of_combine (h : s.Sound) (ht : s.Known t) (hu : s.Known u)
    (heq : combine c.absorbing c.neutral (s.membersOf c.kind t) =
      combine c.absorbing c.neutral (s.membersOf c.kind u)) : t = u := by
  rw [c.combine_membersOf h ht, c.combine_membersOf h hu] at heq
  split at heq
  next hkind =>
    split at heq
    next hkind' => exact c.eq_of_parts h ht hu hkind hkind' (Combined.many.inj heq)
    next => cases heq
  next =>
    split at heq
    next => cases heq
    next => exact Combined.one.inj heq

theorem replaces_call (h : s.Sound) (hknown : ∀ t ∈ ts, s.Known t) :
    Replaces c.absorbing c.neutral
      (((c.call ts).make s).2.membersOf c.kind ((c.call ts).make s).1)
      (ts.flatMap (s.membersOf c.kind)) := by
  match ts with
  | [] =>
    have hmake : (c.call []).make s = (c.neutral, s) := by cases c <;> rfl
    rw [hmake, membersOf_self (c.kind_special s c.neutral_special)]
    exact .of_mem_iff c.neutral_not_mem fun t ht => by simp [ht]
  | [t] =>
    have hmake : (c.call [t]).make s = (t, s) := by cases c <;> rfl
    rw [hmake, List.flatMap_singleton]
    exact .refl _
  | t :: u :: rest =>
    cases hfind : c.absorbing.find? (· ∈ (t :: u :: rest).flatMap (s.membersOf c.kind)) with
    | some v =>
      have hmake : (c.call (t :: u :: rest)).make s = (v, s) := by
        cases c with
        | union =>
          change TypeStore.union (t :: u :: rest) s = (v, s)
          rw [union_run _ (Nat.le_add_left ..), funext s.unionMembers_eq, normalizeUnion_eq]
          exact congrArg (finish .union · s) (combine_of_find? hfind)
        | intersection =>
          change TypeStore.intersection (t :: u :: rest) s = (v, s)
          rw [intersection_run _ (Nat.le_add_left ..), funext s.intersectionMembers_eq,
            normalizeIntersection_eq]
          exact congrArg (finish .intersection · s) (combine_of_find? hfind)
      have hspecial := c.absorbing_special (List.mem_of_find?_eq_some hfind)
      rw [hmake, membersOf_self (c.kind_special s hspecial)]
      exact .of_find? hfind
    | none =>
      have hgathers : Gathers c.kind c.absorbing c.neutral
          ((t :: u :: rest).flatMap (s.membersOf c.kind)) ((c.call (t :: u :: rest)).make s) := by
        cases c with
        | union => exact h.union_gathers hknown
        | intersection => exact h.intersection_gathers hknown
      rcases hgathers with ⟨habsorbing, hmem⟩ | hmembers
      · exact absurd hmem (by simpa using List.find?_eq_none.1 hfind _ habsorbing)
      · exact .of_mem_iff c.neutral_not_mem hmembers

end Combination

/-- A way to combine types in nested calls. -/
inductive Grouping where
  | single (t : TypeId)
  | group (items : List Grouping)

namespace Grouping

mutual

def types : Grouping → List TypeId
  | single t => [t]
  | group items => typesOfAll items

def typesOfAll : List Grouping → List TypeId
  | [] => []
  | item :: items => item.types ++ typesOfAll items

end

end Grouping

def Session.perform (c : Call) : StateM Session TypeId := fun σ => ((c.make σ.store).1, σ.call c)

namespace Grouping
open Session

mutual

/-- The inner groups are combined first, then their results. -/
def run (c : Combination) : Grouping → StateM Session TypeId
  | single t => pure t
  | group items => do perform (c.call (← runAll c items))

def runAll (c : Combination) : List Grouping → StateM Session (List TypeId)
  | [] => pure []
  | item :: items => do
    let t ← item.run c
    return t :: (← runAll c items)

end

variable {c : Combination} {σ τ υ : Session} {t : TypeId} {ts us types : List TypeId}

def flat (ts : List TypeId) : Grouping := group (ts.map single)

@[simp] theorem types_flat (ts : List TypeId) : (flat ts).types = ts := by
  have hall (ts : List TypeId) : typesOfAll (ts.map single) = ts := by
    induction ts with
    | nil => rfl
    | cons t ts ih => rw [List.map_cons, typesOfAll, types, ih, List.singleton_append]
  rw [flat, types, hall]

structure Leads (c : Combination) (σ : Session) (types ts : List TypeId) (τ : Session) : Prop where
  runs : Runs σ τ
  issued : ∀ t ∈ ts, t ∈ τ.issued
  replaces : Replaces c.absorbing c.neutral (ts.flatMap (τ.store.membersOf c.kind))
    (types.flatMap (σ.store.membersOf c.kind))

theorem flatMap_membersOf {k : Kind} (hσ : σ.Valid) (hruns : Runs σ τ)
    (hissued : ∀ t ∈ ts, t ∈ σ.issued) :
    ts.flatMap (τ.store.membersOf k) = ts.flatMap (σ.store.membersOf k) :=
  (hσ.grows hruns).flatMap_membersOf fun t ht => hσ.known t (hissued t ht)

namespace Leads

theorem refl (hissued : ∀ t ∈ ts, t ∈ σ.issued) : Leads c σ ts ts σ :=
  ⟨.refl, hissued, .refl _⟩

theorem perform (hσ : σ.Valid) (hissued : ∀ t ∈ ts, t ∈ σ.issued) :
    Leads c σ ts [(Session.perform (c.call ts) σ).1] (Session.perform (c.call ts) σ).2 where
  runs := Runs.refl.call (c.call ts) ⟨c.proper_call ts, by rwa [c.arguments_call]⟩
  issued t ht := by
    rw [List.mem_singleton.1 ht]
    exact List.mem_cons_self ..
  replaces := by
    rw [List.flatMap_singleton]
    exact c.replaces_call hσ.sound fun t ht => hσ.known t (hissued t ht)

theorem trans (h : Leads c σ types ts τ) (h' : Leads c τ ts us υ) : Leads c σ types us υ :=
  ⟨h.runs.trans h'.runs, h'.issued, h'.replaces.trans h.replaces⟩

theorem append (hσ : σ.Valid) {types' : List TypeId} (hissued : ∀ t ∈ types', t ∈ σ.issued)
    (h : Leads c σ types ts τ) (h' : Leads c τ types' us υ) :
    Leads c σ (types ++ types') (ts ++ us) υ where
  runs := h.runs.trans h'.runs
  issued := List.forall_mem_append.2 ⟨fun t ht => h'.runs.issued_subset (h.issued t ht), h'.issued⟩
  replaces := by
    have hτ := hσ.runs h.runs
    have hreplaces := h.replaces.append c.neutral_not_mem h'.replaces
    rw [flatMap_membersOf hσ h.runs hissued] at hreplaces
    rwa [List.flatMap_append, List.flatMap_append, flatMap_membersOf hτ h'.runs h.issued]

end Leads

mutual

theorem leads {σ : Session} (hσ : σ.Valid) (g : Grouping) (hissued : ∀ t ∈ g.types, t ∈ σ.issued) :
    Leads c σ g.types [(g.run c σ).1] (g.run c σ).2 := by
  cases g with
  | single t =>
    rw [types] at hissued
    exact .refl hissued
  | group items =>
    rw [types] at hissued
    have hall := leads_all hσ items hissued
    exact hall.trans (.perform (hσ.runs hall.runs) hall.issued)

theorem leads_all {σ : Session} (hσ : σ.Valid) (gs : List Grouping)
    (hissued : ∀ t ∈ typesOfAll gs, t ∈ σ.issued) :
    Leads c σ (typesOfAll gs) (runAll c gs σ).1 (runAll c gs σ).2 := by
  cases gs with
  | nil => exact .refl fun t ht => nomatch ht
  | cons g gs =>
    rw [typesOfAll] at hissued
    obtain ⟨hg, hgs⟩ := List.forall_mem_append.1 hissued
    have hfirst := leads hσ g hg
    have hrest := leads_all (hσ.runs hfirst.runs) gs fun t ht =>
      hfirst.runs.issued_subset (hgs t ht)
    exact hfirst.append hσ hgs hrest

end

theorem Leads.combine_eq (h : Leads c σ types [t] τ) :
    combine c.absorbing c.neutral (τ.store.membersOf c.kind t) =
      combine c.absorbing c.neutral (types.flatMap (σ.store.membersOf c.kind)) := by
  have hcombine := h.replaces.combine_eq
  rwa [List.flatMap_singleton] at hcombine

section Members
variable {s : TypeStore}

theorem mem_flatMap_of_types (h : ∀ t, t ≠ c.neutral → (t ∈ us ↔ t ∈ ts)) (hne : t ≠ c.neutral) :
    t ∈ us.flatMap (s.membersOf c.kind) ↔ t ∈ ts.flatMap (s.membersOf c.kind) := by
  have hitem {u : TypeId} (hmem : t ∈ s.membersOf c.kind u) : u ≠ c.neutral := by
    rintro rfl
    rw [membersOf_self (c.kind_special s c.neutral_special), List.mem_singleton] at hmem
    exact hne hmem
  rw [List.mem_flatMap, List.mem_flatMap]
  exact exists_congr fun u => and_congr_left fun hmem => h u (hitem hmem)

theorem mem_flatMap_absorbing (hs : s.Sound) (hknown : ∀ u ∈ ts, s.Known u)
    (ht : t ∈ c.absorbing) :
    t ∈ ts.flatMap (s.membersOf c.kind) ↔ t ∈ ts := by
  have hspecial := c.absorbing_special ht
  rw [List.mem_flatMap]
  constructor
  · rintro ⟨u, hu, hmem⟩
    by_cases hkind : s.kind u = c.kind
    · rw [membersOf_of_kind hkind] at hmem
      exact absurd hspecial ((c.normal hs (hknown u hu) hkind).plain t hmem)
    · rw [membersOf_self hkind, List.mem_singleton] at hmem
      rwa [hmem]
  · intro hmem
    refine ⟨t, hmem, ?_⟩
    rw [membersOf_self (c.kind_special s hspecial)]
    exact List.mem_singleton_self t

end Members

/-- The same types, up to those that add nothing, come to the same type in whatever calls they are
combined, also when other types are made in between; and the strongest absorbing type among them is
what they come to. -/
theorem regrouped (c : Combination) (hσ : σ.Reached) (g : Grouping)
    (hg : ∀ t ∈ g.types, t ∈ σ.issued) :
    (∀ τ, Runs (g.run c σ).2 τ → ∀ g' : Grouping,
      (∀ t, t ≠ c.neutral → (t ∈ g'.types ↔ t ∈ g.types)) → (g'.run c τ).1 = (g.run c σ).1) ∧
    ∀ t, c.absorbing.find? (· ∈ g.types) = some t → (g.run c σ).1 = t := by
  have hfirst := leads (c := c) hσ.valid g hg
  have hmade := hfirst.issued _ (List.mem_singleton_self _)
  have hvalid := hσ.valid.runs hfirst.runs
  constructor
  · intro τ hruns g' hsame
    have hστ := hfirst.runs.trans hruns
    have hneutral : c.neutral ∈ TypeId.allFixed := by cases c <;> decide
    have hg' : ∀ t ∈ g'.types, t ∈ τ.issued := by
      intro t ht
      by_cases hne : t = c.neutral
      · exact hστ.issued_subset (hne ▸ hσ.fixed_issued hneutral)
      · exact hστ.issued_subset (hg t ((hsame t hne).1 ht))
    have hsecond := leads (c := c) (hσ.valid.runs hστ) g' hg'
    have hlater := hruns.trans hsecond.runs
    have hfinal := hvalid.runs hlater
    apply c.eq_of_combine hfinal.sound
    · exact hfinal.known _ (hsecond.issued _ (List.mem_singleton_self _))
    · exact hfinal.known _ (hlater.issued_subset hmade)
    calc
      combine c.absorbing c.neutral ((g'.run c τ).2.store.membersOf c.kind (g'.run c τ).1)
        = combine c.absorbing c.neutral (g'.types.flatMap (τ.store.membersOf c.kind)) :=
          hsecond.combine_eq
      _ = combine c.absorbing c.neutral (g.types.flatMap (τ.store.membersOf c.kind)) :=
          combine_congr c.neutral_not_mem fun t ht => mem_flatMap_of_types hsame ht
      _ = combine c.absorbing c.neutral (g.types.flatMap (σ.store.membersOf c.kind)) := by
          rw [flatMap_membersOf hσ.valid hστ hg]
      _ = combine c.absorbing c.neutral ((g.run c σ).2.store.membersOf c.kind (g.run c σ).1) :=
          hfirst.combine_eq.symm
      _ = combine c.absorbing c.neutral
            ((g'.run c τ).2.store.membersOf c.kind (g.run c σ).1) := by
          rw [(hvalid.grows hlater).membersOf_eq (hvalid.known _ hmade)]
  · intro t hfind
    have habsorbing := List.mem_of_find?_eq_some hfind
    have hmem : t ∈ g.types := by simpa using List.find?_some hfind
    have hknown : ∀ u ∈ g.types, σ.store.Known u := fun u hu => hσ.valid.known u (hg u hu)
    have hmembers :
        c.absorbing.find? (· ∈ g.types.flatMap (σ.store.membersOf c.kind)) = some t := by
      rw [← hfind]
      apply find?_congr_mem
      intro u hu
      simp only [mem_flatMap_absorbing hσ.valid.sound hknown hu]
    have hlater := (hσ.valid.grows hfirst.runs).known (hknown t hmem)
    apply c.eq_of_combine hvalid.sound (hvalid.known _ hmade) hlater
    rw [hfirst.combine_eq, combine_of_find? hmembers, c.combine_membersOf hvalid.sound hlater,
      if_neg (c.kind_special _ (c.absorbing_special habsorbing))]

theorem regrouped_int_string :
    (∀ t ∈ (group [single .int, flat [.string, .int]]).types, t ∈ Session.single.issued) ∧
      ((flat [.string, .never, .int]).run .union
          ((group [single .int, flat [.string, .int]]).run .union Session.single).2).1 =
        ((group [single .int, flat [.string, .int]]).run .union Session.single).1 ∧
      ((flat [.int, .unknown, .any]).run .union Session.single).1 = .any := by
  have hnested : ∀ t ∈ (group [single .int, flat [.string, .int]]).types,
      t ∈ Session.single.issued := by decide
  refine ⟨hnested, ?_, ?_⟩
  · obtain ⟨hsame, -⟩ := regrouped .union reached_single _ hnested
    refine hsame _ .refl (flat [.string, .never, .int]) fun t ht => ?_
    have hne : t ≠ .never := ht
    simp [types, typesOfAll, types_flat, hne]
    tauto
  · obtain ⟨-, habsorbed⟩ :=
      regrouped .union reached_single (flat [.int, .unknown, .any]) (by decide)
    exact habsorbed .any (by decide)

end Grouping
end TemplateCheck

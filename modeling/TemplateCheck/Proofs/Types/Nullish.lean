import TemplateCheck.Proofs.Types.Arrangement
import TemplateCheck.Proofs.Types.Combining
import TemplateCheck.Proofs.Types.Counting
import TemplateCheck.Proofs.Types.Groupings

/-! Taking `null` and `undefined` out of a type. The rest keeps the other members and may stand
where the type is expected, and what was taken out makes the type again together with it. -/

namespace TemplateCheck
open Assignable

namespace TypeStore
variable {s : TypeStore} {t u m : TypeId} {members types ms ns : List TypeId} {mode : Mode} {n : Nat}

theorem Arranged.union_normal (h : s.Arranged) (ht : s.Known t)
    (hd : s.data t = .union members) : s.Normal .union members := by
  have hlisted := h.listed t _ (hd ▸ ht.lookup_data)
  exact hlisted.2

section Comparing

theorem within_of_distribute (hsource : u ≠ .unknown) (h : distribute (within s mode n) s t u) :
    within s mode (n + 1) t u := by
  simp [within, step, hsource, h]

theorem within_never (s : TypeStore) (mode : Mode) (n : Nat) (t : TypeId) :
    within s mode (n + 1) t .never := by
  simp [within, step]

theorem Arranged.within_member (h : s.Arranged) (ht : s.Known t) (hm : m ∈ s.unionMembers t) :
    within s mode (n + 1) t m := by
  rcases mem_unionMembers.1 hm with ⟨members, hd, hmem⟩ | ⟨-, rfl⟩
  · have hnormal := h.union_normal ht hd
    have hplain := not_source_special (hnormal.plain m hmem)
    refine within_of_distribute (fun heq => hplain (by simp [heq])) ?_
    rw [distribute_union_target (hnormal.flat m hmem) hd, List.any_eq_true]
    exact ⟨m, hmem, Checker.within_self s mode n m⟩
  · exact Checker.within_self s mode _ m

theorem Arranged.isAssignable_of_members (h : s.Arranged) (ht : s.Known t)
    (hmembers : ∀ m ∈ s.unionMembers u, m ≠ .never → m ∈ s.unionMembers t) :
    s.isAssignable mode t u := by
  have hmember {n : Nat} {m : TypeId} (hm : m ∈ s.unionMembers u) : within s mode (n + 1) t m := by
    by_cases hnever : m = .never
    · rw [hnever]
      exact within_never s mode n t
    · exact h.within_member ht (hmembers m hm hnever)
  rcases kind_cases s u with ⟨members, hd⟩ | ⟨hkind, -⟩
  · have hplain := not_source_special (not_special hd rfl)
    refine within_of_distribute (fun heq => hplain (by simp [heq])) ?_
    rw [distribute_union_source hd, List.all_eq_true]
    exact fun m hm => hmember (mem_unionMembers.2 (.inl ⟨members, hd, hm⟩))
  · exact hmember (mem_unionMembers.2 (.inr ⟨hkind, rfl⟩))

end Comparing

section Combining

theorem normalizeUnion_congr (h : ∀ m, m ≠ .never → (m ∈ ms ↔ m ∈ ns)) :
    normalizeUnion ms = normalizeUnion ns := by
  rw [normalizeUnion_eq, normalizeUnion_eq, combine_congr (by decide) h]

theorem normalizeUnion_of_normal (h : s.Normal .union members) :
    normalizeUnion members = .many members := by
  rw [normalizeUnion_eq]
  exact Combination.union.combine_of_normal h

theorem normalizeUnion_single (t : TypeId) : normalizeUnion [t] = .one t := by
  rw [normalizeUnion_eq]
  exact Combination.union.combine_single t

theorem finish_many_run (form : List TypeId → TypeData) (members : List TypeId) (s : TypeStore) :
    finish form (.many members) s =
      intern (form members) { s with lists := remembered s.lists members } := by
  change intern (form members) (rememberList members s).2 = _
  rw [rememberList_run]

theorem Arranged.union_eq (h : s.Arranged) (hs : s.Unrepeated) (ht : s.Known t)
    (htwo : 2 ≤ types.length)
    (hmembers : ∀ m, m ≠ .never → (m ∈ types.flatMap s.unionMembers ↔ m ∈ s.unionMembers t)) :
    (union types s).1 = t := by
  rw [union_run types htwo, normalizeUnion_congr hmembers]
  rcases kind_cases s t with ⟨members, hd⟩ | ⟨hkind, -⟩
  · have hown : s.unionMembers t = members := by rw [TypeStore.unionMembers, hd]
    have hlookup : s.lookup t = some (.union members) := hd ▸ ht.lookup_data
    have htables : Unrepeated { s with lists := remembered s.lists members } := hs.of_types rfl
    rw [hown, normalizeUnion_of_normal (h.union_normal ht hd), finish_many_run,
      htables.intern_eq hlookup]
  · rw [unionMembers_self hkind, normalizeUnion_single]
    rfl

theorem ne_never_of_plain (h : u ∉ [TypeId.error, .any, .unknown, .never]) : u ≠ .never := by
  rintro rfl
  exact h (by decide)

theorem unionMembers_union (hascends : Order.Ascends TypeId.number members)
    (hflat : ∀ u ∈ members, s.kind u ≠ .union)
    (hplain : ∀ u ∈ members, u ∉ [TypeId.error, .any, .unknown, .never]) :
    ((union members s).2.unionMembers (union members s).1).filter (· != .never) = members := by
  have hnever : members.filter (· != .never) = members :=
    List.filter_eq_self.2 fun u hu => bne_iff_ne.2 (ne_never_of_plain (hplain u hu))
  rcases members with _ | ⟨u, _ | ⟨v, rest⟩⟩
  · have hdata : s.data .never = .intrinsic .never := s.data_fixed rfl
    change (s.unionMembers .never).filter (· != .never) = []
    rw [unionMembers, hdata]
    rfl
  · change (s.unionMembers u).filter (· != .never) = [u]
    rwa [unionMembers_self (hflat u (List.mem_singleton_self u))]
  · have hnormal : s.Normal .union (u :: v :: rest) :=
      ⟨Nat.le_add_left .., hascends, hflat, hplain⟩
    have hown : (u :: v :: rest).flatMap s.unionMembers = u :: v :: rest :=
      flatMap_of_singletons fun t ht => unionMembers_self (hflat t ht)
    rw [union_run _ hnormal.two, hown, normalizeUnion_of_normal hnormal, finish_many_run,
      unionMembers, data_of_lookup (lookup_intern ..)]
    exact hnever

end Combining

section Removing

theorem Arranged.unionMembers_removeNullish (h : s.Arranged) (ht : s.Known t) :
    ((removeNullish t s).2.unionMembers (removeNullish t s).1).filter (· != .never) =
      (s.unionMembers t).filter fun u => !u.isNullish && u != .never := by
  rw [removeNullish_run]
  split
  next hnullish =>
    rcases kind_cases s t with ⟨members, hd⟩ | ⟨hkind, -⟩
    · have hnormal := h.union_normal ht hd
      have hown : s.unionMembers t = members := by rw [TypeStore.unionMembers, hd]
      have hmem {u : TypeId} (hu : u ∈ members.filter (!·.isNullish)) : u ∈ members :=
        (List.mem_filter.1 hu).1
      rw [hown, unionMembers_union (hnormal.ascends.filter _) (fun u hu => hnormal.flat u (hmem hu))
        fun u hu => hnormal.plain u (hmem hu)]
      refine List.filter_congr fun u hu => ?_
      rw [bne_iff_ne.2 (ne_never_of_plain (hnormal.plain u hu)), Bool.and_true]
    · rw [unionMembers_self hkind, List.any_cons, List.any_nil, Bool.or_false] at hnullish
      rw [unionMembers_self hkind, List.filter_cons_of_neg (by simp [hnullish]),
        List.filter_cons_of_neg (by simp [hnullish])]
      exact unionMembers_union .nil (List.forall_mem_nil _) (List.forall_mem_nil _)
  next hnullish =>
    refine List.filter_congr fun u hu => ?_
    have hu : u.isNullish = false := by
      rw [Bool.not_eq_true, List.any_eq_false] at hnullish
      exact Bool.eq_false_iff.2 (hnullish u hu)
    rw [hu, Bool.not_false, Bool.true_and]

theorem unionMembers_of_isNullish (s : TypeStore) (h : u.isNullish) : s.unionMembers u = [u] := by
  simp only [TypeId.isNullish, Bool.or_eq_true, beq_iff_eq] at h
  rcases h with rfl | rfl
  · have hdata : s.data .null = .intrinsic .null := s.data_fixed rfl
    rw [unionMembers, hdata]
  · have hdata : s.data .undefined = .intrinsic .undefined := s.data_fixed rfl
    rw [unionMembers, hdata]

theorem removeNullish_eq_self (h : (s.unionMembers t).filter (·.isNullish) = []) :
    (removeNullish t s).1 = t := by
  have hnone : ¬ (s.unionMembers t).any (·.isNullish) := by simpa using h
  rw [removeNullish_run, if_neg hnone]

end Removing

section Splitting
variable {rest : TypeId}

def Leaves (s : TypeStore) (t rest : TypeId) : Prop :=
  ∀ m, m ≠ .never → (m ∈ s.unionMembers rest ↔ m ∈ s.unionMembers t ∧ m.isNullish = false)

theorem leaves_of_filter (h : (s.unionMembers rest).filter (· != .never) =
    (s.unionMembers t).filter fun m => !m.isNullish && m != .never) : s.Leaves t rest := by
  intro m hm
  have hmem := congrArg (m ∈ ·) h
  simpa [List.mem_filter, hm] using hmem

namespace Leaves

theorem isNullable (h : s.Leaves t rest) : s.isNullable rest = false := by
  rw [TypeStore.isNullable, List.any_eq_false]
  intro m hm hnullish
  have hne : m ≠ .never := by
    rintro rfl
    cases hnullish
  rw [((h m hne).1 hm).2] at hnullish
  cases hnullish

theorem isAssignable (h : s.Leaves t rest) (hs : s.Arranged) (ht : s.Known t) (mode : Mode) :
    s.isAssignable mode t rest :=
  hs.isAssignable_of_members ht fun m hm hne => ((h m hne).1 hm).1

theorem union_eq (h : s.Leaves t rest) (hs : s.Arranged) (hunrepeated : s.Unrepeated)
    (ht : s.Known t) (hnullish : (s.unionMembers t).filter (·.isNullish) ≠ []) :
    (union (rest :: (s.unionMembers t).filter (·.isNullish)) s).1 = t := by
  have htwo : 2 ≤ (rest :: (s.unionMembers t).filter (·.isNullish)).length :=
    Nat.succ_le_succ (List.length_pos_iff.2 hnullish)
  refine hs.union_eq hunrepeated ht htwo fun m hm => ?_
  have hflat : ((s.unionMembers t).filter (·.isNullish)).flatMap s.unionMembers =
      (s.unionMembers t).filter (·.isNullish) :=
    flatMap_of_singletons fun u hu => unionMembers_of_isNullish _ (List.mem_filter.1 hu).2
  rw [List.flatMap_cons, hflat, List.mem_append, h m hm, List.mem_filter]
  cases m.isNullish <;> simp

end Leaves
end Splitting
end TypeStore

namespace Session
open TypeStore
variable {σ τ : Session} {t : TypeId}

/-- Taking `null` and `undefined` out of a type splits it, whatever is made afterwards. The rest has
the other members and no `null` or `undefined`, it may stand where the type is expected, and its
union with what was taken out is the type. -/
theorem removeNullish_splits (hσ : σ.Arises) (ht : t ∈ σ.issued)
    (hτ : Continues (σ.withoutNullish t) τ) :
    let rest := (TypeStore.removeNullish t σ.store).1
    let nullish := (σ.store.unionMembers t).filter (·.isNullish)
    τ.store.isNullable rest = false ∧
      (τ.store.unionMembers rest).filter (· != .never) =
        (σ.store.unionMembers t).filter (fun m => !m.isNullish && m != .never) ∧
      (∀ mode, τ.store.isAssignable mode t rest) ∧
      (TypeStore.union (rest :: nullish) τ.store).1 = t := by
  intro rest nullish
  have hremoving := hσ.continues_withoutNullish ht
  have hremoved := hσ.continues hremoving
  have harises := hremoved.continues hτ
  have hgrows := hremoved.grows hτ
  have hfar := (hσ.grows hremoving).trans hgrows
  have hknown : σ.store.Known t := (hσ.complete.known_iff t).2 ht
  have hrest : (σ.withoutNullish t).store.Known rest :=
    (hremoved.complete.known_iff rest).2 (List.mem_cons_self ..)
  have hmembers : (τ.store.unionMembers rest).filter (· != .never) =
      (σ.store.unionMembers t).filter (fun m => !m.isNullish && m != .never) := by
    rw [hgrows.unionMembers_eq hrest]
    exact hσ.complete.arranged.unionMembers_removeNullish hknown
  have hown : τ.store.unionMembers t = σ.store.unionMembers t := hfar.unionMembers_eq hknown
  have hleaves : τ.store.Leaves t rest := leaves_of_filter (by rw [hmembers, hown])
  refine ⟨hleaves.isNullable, hmembers,
    hleaves.isAssignable harises.complete.arranged (hfar.known hknown), ?_⟩
  by_cases hnone : nullish = []
  · rw [hnone]
    exact removeNullish_eq_self hnone
  · have hnullish : nullish = (τ.store.unionMembers t).filter (·.isNullish) := by rw [hown]
    rw [hnullish] at hnone ⊢
    exact hleaves.union_eq harises.complete.arranged harises.unrepeated (hfar.known hknown) hnone

def nullishSession : Session := single.call (.union [.null, .string, .undefined, .int])

theorem removeNullish_splits_both :
    let later := (nullishSession.withoutNullish ⟨127⟩).call (.list ⟨191⟩)
    nullishSession.Arises ∧ later.store.lookup ⟨191⟩ = some (.union [.int, .string]) ∧
      later.store.isNullable ⟨191⟩ = false ∧ later.store.isAssignable .strict ⟨127⟩ ⟨191⟩ ∧
      (TypeStore.union [⟨191⟩, .null, .undefined] later.store).1 = ⟨127⟩ := by
  intro later
  have harises : nullishSession.Arises :=
    (reached_single.call_fixed (.union _) trivial (by decide)).arises
  have hlater : Continues (nullishSession.withoutNullish ⟨127⟩) later :=
    .call .refl (.list ⟨191⟩) (by decide +kernel)
  have hrest : (TypeStore.removeNullish ⟨127⟩ nullishSession.store).1 = ⟨191⟩ := by decide +kernel
  have hnullish : (nullishSession.store.unionMembers ⟨127⟩).filter (·.isNullish) =
      [.null, .undefined] := by decide +kernel
  have hsplits := removeNullish_splits harises (t := ⟨127⟩) (by decide +kernel) hlater
  simp only [hrest, hnullish] at hsplits
  obtain ⟨hnullable, -, haccepts, hunion⟩ := hsplits
  exact ⟨harises, by decide +kernel, hnullable, haccepts .strict, hunion⟩

end Session
end TemplateCheck

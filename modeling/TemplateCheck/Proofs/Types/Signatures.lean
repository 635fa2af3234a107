import TemplateCheck.Proofs.Types.Members
import TemplateCheck.Proofs.Types.Session

/-! When a function can stand in for another one in every call that the other one's signature
permits. -/

namespace TemplateCheck
open TypeStore

namespace Assignable

section Signatures
variable {f g : FunctionShape TypeId} {p : FunctionParameter TypeId} {i n : Nat}

def Permits (shape : FunctionShape TypeId) (count : Nat) : Prop :=
  if (variadicLast shape).isSome then fixedCount shape ≤ count
  else count = shape.parameters.length

def taker (shape : FunctionShape TypeId) (index : Nat) : Option (FunctionParameter TypeId) :=
  if index < fixedCount shape then shape.parameters[index]? else variadicLast shape

theorem fixedCount_le_length (f : FunctionShape TypeId) : fixedCount f ≤ f.parameters.length :=
  Nat.sub_le _ _

theorem fixedCount_of_not_variadic (h : variadicLast f = none) :
    fixedCount f = f.parameters.length := by
  rw [fixedCount, h]
  rfl

theorem fixedCount_of_variadic (h : variadicLast f = some p) :
    fixedCount f + 1 = f.parameters.length ∧ f.parameters[fixedCount f]? = some p := by
  have hlast := (Option.filter_eq_some_iff.1 h).1
  have hne := List.ne_nil_of_mem (List.mem_of_getLast? hlast)
  have hlength := List.length_pos_iff.2 hne
  have hfixed : fixedCount f = f.parameters.length - 1 := by
    rw [fixedCount, h]
    rfl
  rw [hfixed]
  exact ⟨Nat.sub_add_cancel hlength, List.getLast?_eq_getElem?.symm.trans hlast⟩

theorem permits_of_variadic (h : (variadicLast f).isSome) : Permits f n ↔ fixedCount f ≤ n := by
  rw [Permits, if_pos h]

theorem permits_of_not_variadic (h : variadicLast f = none) :
    Permits f n ↔ n = f.parameters.length := by
  rw [Permits, h, if_neg (by simp)]

theorem permits_length (f : FunctionShape TypeId) : Permits f f.parameters.length := by
  rw [Permits]
  split
  · exact fixedCount_le_length f
  · rfl

theorem Permits.fixedCount_le (h : Permits f n) : fixedCount f ≤ n := by
  rw [Permits] at h
  split at h
  · exact h
  · exact h ▸ fixedCount_le_length f

theorem taker_of_le (h : fixedCount f ≤ i) : taker f i = variadicLast f :=
  if_neg (Nat.not_lt.2 h)

theorem taker_of_lt_length (h : i < f.parameters.length) : taker f i = f.parameters[i]? := by
  rw [taker]
  split
  · rfl
  · next hle =>
    cases hlast : variadicLast f with
    | none =>
      rw [fixedCount_of_not_variadic hlast] at hle
      exact absurd h hle
    | some p =>
      obtain ⟨hlength, hp⟩ := fixedCount_of_variadic hlast
      obtain rfl : i = fixedCount f := by omega
      exact hp.symm

theorem Permits.exists_taker (h : Permits f n) (hi : i < n) : ∃ p, taker f i = some p := by
  rcases Nat.lt_or_ge i f.parameters.length with hlt | hge
  · exact ⟨_, (taker_of_lt_length hlt).trans (List.getElem?_eq_getElem hlt)⟩
  · cases hlast : variadicLast f with
    | none =>
      rw [permits_of_not_variadic hlast] at h
      omega
    | some p => exact ⟨p, (taker_of_le ((fixedCount_le_length f).trans hge)).trans hlast⟩

theorem parameterAt_of_le (h : fixedCount f ≤ i) : parameterAt f i = variadicLast f := by
  rw [parameterAt]
  cases hp : f.parameters[i]? with
  | none => exact Option.none_or
  | some p =>
    obtain ⟨hlt, -⟩ := List.getElem?_eq_some_iff.1 hp
    have htaker := (taker_of_lt_length hlt).symm.trans (taker_of_le h)
    rw [hp] at htaker
    rw [Option.filter_some, (Option.filter_eq_some_iff.1 htaker.symm).2]
    exact Option.none_or

theorem parameterAt_of_not_variadic (hp : f.parameters[i]? = some p) (h : ¬p.variadic) :
    parameterAt f i = some p := by
  rw [Bool.not_eq_true] at h
  rw [parameterAt, hp, Option.filter_some, h]
  rfl

end Signatures

section Substitution
variable {R : TypeId → TypeId → Prop} {f g : FunctionShape TypeId}

/-- The second function can be called wherever the first one can, where `R` compares types. -/
structure Substitutes (R : TypeId → TypeId → Prop) (target source : FunctionShape TypeId) :
    Prop where
  permits : ∀ count, Permits target count → Permits source count
  takes : ∀ count, Permits target count → ∀ i < count,
    ∃ p q, taker target i = some p ∧ taker source i = some q ∧ R q.type p.type
  result : R target.result source.result

/-- What a call can pass and the comparison of two functions does not look at: any number of last
arguments, and an argument for a variadic parameter that is not the last one. -/
structure Foreseen (R : TypeId → TypeId → Prop) (target source : FunctionShape TypeId) : Prop where
  rest : (variadicLast target).isSome →
    (variadicLast source).isSome ∧ fixedCount source ≤ fixedCount target
  early : ∀ i < fixedCount source, ∀ q, source.parameters[i]? = some q → q.variadic →
    ∃ p, taker target i = some p ∧ R q.type p.type

theorem Substitutes.refl (hR : ∀ t, R t t) (f : FunctionShape TypeId) : Substitutes R f f where
  permits _ := id
  takes _ hcount _ hi := by
    obtain ⟨p, hp⟩ := hcount.exists_taker hi
    exact ⟨p, p, hp, hp, hR p.type⟩
  result := hR f.result

theorem Substitutes.foreseen (h : Substitutes R f g) : Foreseen R f g where
  rest hf := by
    have hfixed := h.permits _ ((permits_of_variadic hf).2 le_rfl)
    cases hg : variadicLast g with
    | some q => exact ⟨rfl, (permits_of_variadic (by rw [hg]; rfl)).1 hfixed⟩
    | none =>
      have hmore := h.permits _ ((permits_of_variadic hf).2 (Nat.le_succ _))
      rw [permits_of_not_variadic hg] at hfixed hmore
      omega
  early i hi q hq _ := by
    have hi' := hi.trans_le (h.permits _ (permits_length f)).fixedCount_le
    obtain ⟨p, q', hp, hq', hR⟩ := h.takes _ (permits_length f) i hi'
    rw [taker, if_pos hi, hq] at hq'
    cases hq'
    exact ⟨p, hp, hR⟩

theorem FunctionFits.permits (h : FunctionFits R f g) (hforeseen : Foreseen R f g) {count : Nat}
    (hcount : Permits f count) : Permits g count := by
  cases hf : variadicLast f with
  | some p =>
    obtain ⟨hg, hfixed⟩ := hforeseen.rest (by rw [hf]; rfl)
    rw [permits_of_variadic (by rw [hf]; rfl)] at hcount
    exact (permits_of_variadic hg).2 (hfixed.trans hcount)
  | none =>
    rw [permits_of_not_variadic hf] at hcount
    subst hcount
    cases hg : variadicLast g with
    | some q => exact (permits_of_variadic (by rw [hg]; rfl)).2 h.enough
    | none =>
      have henough := h.enough
      have hsurplus := h.surplus.resolve_left (by rw [hg]; simp)
      rw [fixedCount_of_not_variadic hg] at henough hsurplus
      exact (permits_of_not_variadic hg).2 (Nat.le_antisymm hsurplus henough)

theorem FunctionFits.takes (h : FunctionFits R f g) (hforeseen : Foreseen R f g) {count i : Nat}
    (hcount : Permits f count) (hi : i < count) :
    ∃ p q, taker f i = some p ∧ taker g i = some q ∧ R q.type p.type := by
  rcases Nat.lt_or_ge i f.parameters.length with hlt | hge
  · rw [taker_of_lt_length hlt]
    obtain ⟨q, hq, hR⟩ := h.given i _ (List.getElem?_eq_getElem hlt)
    rcases Nat.lt_or_ge i (fixedCount g) with hearly | hlate
    · have hlength := hearly.trans_le (fixedCount_le_length g)
      have hg : taker g i = some g.parameters[i] := by
        rw [taker_of_lt_length hlength, List.getElem?_eq_getElem hlength]
      by_cases hvariadic : g.parameters[i].variadic
      · obtain ⟨p, hp, hR⟩ := hforeseen.early i hearly _ (List.getElem?_eq_getElem hlength)
          hvariadic
        rw [taker_of_lt_length hlt] at hp
        exact ⟨p, _, hp, hg, hR⟩
      · rw [parameterAt_of_not_variadic (List.getElem?_eq_getElem hlength) hvariadic] at hq
        cases hq
        exact ⟨_, _, List.getElem?_eq_getElem hlt, hg, hR⟩
    · rw [parameterAt_of_le hlate] at hq
      exact ⟨_, q, List.getElem?_eq_getElem hlt, (taker_of_le hlate).trans hq, hR⟩
  · cases hf : variadicLast f with
    | none =>
      rw [permits_of_not_variadic hf] at hcount
      omega
    | some p =>
      obtain ⟨hlength, hp⟩ := fixedCount_of_variadic hf
      obtain ⟨-, hfixed⟩ := hforeseen.rest (by rw [hf]; rfl)
      obtain ⟨q, hq, hR⟩ := h.given _ p hp
      rw [parameterAt_of_le hfixed] at hq
      exact ⟨p, q, (taker_of_le (by omega)).trans hf, (taker_of_le (by omega)).trans hq, hR⟩

theorem FunctionFits.substitutes_iff (h : FunctionFits R f g) :
    Substitutes R f g ↔ Foreseen R f g :=
  ⟨Substitutes.foreseen, fun hforeseen => ⟨fun _ => h.permits hforeseen,
    fun _ hcount _ => h.takes hforeseen hcount, h.result⟩⟩

end Substitution

section Depth
variable {s : TypeStore} {mode : Mode} {a b : TypeId}

theorem step_mono {F G : TypeId → TypeId → Bool} {mode' : Mode} (hFG : ∀ x y, F x y → G x y)
    (hmode : mode = .loose → mode' = .loose) (h : step F s mode a b) : step G s mode' a b := by
  rw [step] at h ⊢
  split at h
  · next htop => rw [if_pos htop]
  · next htop =>
    rw [if_neg htop]
    split at h
    · next hsource => rw [if_pos hsource]
    · next hsource =>
      rw [if_neg hsource]
      split at h
      · next hunknown =>
        rw [if_pos hunknown]
        exact decide_eq_true (hmode (of_decide_eq_true h))
      · next hunknown =>
        rw [if_neg hunknown]
        exact distribute_mono (fun p _ => hFG a p) (fun p _ => hFG p b)
          (fun t _ u _ => ⟨hFG t u, hFG u t⟩) h

theorem within_succ {n : Nat} (h : within s mode n a b) : within s mode (n + 1) a b := by
  induction n generalizing a b with
  | zero =>
    rw [within, decide_eq_true_iff] at h
    rw [within, decide_eq_true h, Bool.true_or]
  | succ n ih =>
    rw [within, Bool.or_eq_true_iff] at h ⊢
    exact h.imp id (step_mono (fun _ _ => ih) id)

end Depth
end Assignable

namespace TypeStore
open Assignable
variable {s : TypeStore} {target source : TypeId} {f g : FunctionShape TypeId} {mode : Mode}

theorem isAssignable_refl (s : TypeStore) (mode : Mode) (t : TypeId) : s.isAssignable mode t t := by
  rw [isAssignable, depthLimit, within, decide_eq_true rfl, Bool.true_or]

theorem functionFits_of_isAssignable (ht : s.data target = .function f)
    (hs : s.data source = .function g) (hne : target ≠ source)
    (h : s.isAssignable mode target source) :
    FunctionFits (fun t u => s.isAssignable mode t u) f g := by
  have htop := not_isTop_of_not_special (not_special ht rfl)
  have hspecial := not_source_special (not_special hs rfl)
  simp only [List.mem_cons, List.not_mem_nil, or_false, not_or] at hspecial
  obtain ⟨herror, hunknown, hnever⟩ := hspecial
  have hform {t : TypeId} {shape : FunctionShape TypeId} (hd : s.data t = .function shape) :
      s.kind t ≠ .union ∧ s.kind t ≠ .intersection := by
    rw [kind, hd]
    exact ⟨by simp [TypeForm.kind], by simp [TypeForm.kind]⟩
  obtain ⟨htu, hti⟩ := hform ht
  obtain ⟨hsu, hsi⟩ := hform hs
  rw [isAssignable, depthLimit, within, decide_eq_false hne, Bool.false_or, step, htop,
    if_neg Bool.false_ne_true, if_neg (by simp [herror, hnever]), if_neg hunknown,
    distribute_forms htu hti hsu hsi, ht, hs, formAccepts_iff] at h
  cases h.mono (S := fun t u => s.isAssignable mode t u) fun t _ u _ =>
    ⟨within_succ, within_succ⟩ with
  | function hfits => exact hfits

/-- A function that is assignable to another one can be called wherever the other one can, exactly
if it takes any further arguments that the other one takes and its early variadic parameters take
what is passed for them. -/
theorem substitutes_iff_of_isAssignable (ht : s.data target = .function f)
    (hs : s.data source = .function g) (h : s.isAssignable mode target source) :
    Substitutes (fun t u => s.isAssignable mode t u) f g ↔
      Foreseen (fun t u => s.isAssignable mode t u) f g := by
  rcases eq_or_ne target source with rfl | hne
  · rw [ht] at hs
    cases hs
    exact ⟨Substitutes.foreseen, fun _ => .refl (fun t => s.isAssignable_refl mode t) f⟩
  · exact (functionFits_of_isAssignable ht hs hne h).substitutes_iff

end TypeStore

namespace Session
open Assignable

def functionSession : Session :=
  ((single.call (.function [⟨"xs", true, .int⟩] .int)).call
    (.function [⟨"x", false, .int⟩] .int)).call
      (.function [⟨"x", false, .int⟩, ⟨"xs", true, .int⟩] .int)

theorem reached_functionSession : functionSession.Reached :=
  ((reached_single.call_fixed (.function _ _) trivial (by decide)).call_fixed (.function _ _)
    trivial (by decide)).call_fixed (.function _ _) trivial (by decide)

theorem substitutes_iff_of_isAssignable_ints :
    functionSession.Reached ∧ functionSession.store.isAssignable .strict ⟨255⟩ ⟨127⟩ ∧
      Substitutes (fun t u => functionSession.store.isAssignable .strict t u)
        ⟨[⟨"x", false, .int⟩, ⟨"xs", true, .int⟩], .int⟩ ⟨[⟨"xs", true, .int⟩], .int⟩ := by
  have haccepts : functionSession.store.isAssignable .strict ⟨255⟩ ⟨127⟩ := by decide +kernel
  have htarget : functionSession.store.data ⟨255⟩ =
      .function ⟨[⟨"x", false, .int⟩, ⟨"xs", true, .int⟩], .int⟩ := by decide +kernel
  have hsource : functionSession.store.data ⟨127⟩ = .function ⟨[⟨"xs", true, .int⟩], .int⟩ := by
    decide +kernel
  refine ⟨reached_functionSession, haccepts,
    (substitutes_iff_of_isAssignable htarget hsource haccepts).2 ⟨by decide, ?_⟩⟩
  exact fun i hi => absurd hi (Nat.not_lt_zero i)

theorem rest_arguments_lost :
    ¬ ∀ σ : Session, σ.Reached → ∀ mode, ∀ target ∈ σ.issued, ∀ source ∈ σ.issued, ∀ f g,
      σ.store.data target = .function f → σ.store.data source = .function g →
        σ.store.isAssignable mode target source →
          Substitutes (fun t u => σ.store.isAssignable mode t u) f g := by
  intro h
  have hsubstitutes := h functionSession reached_functionSession .strict ⟨127⟩ (by decide +kernel)
    ⟨191⟩ (by decide +kernel) ⟨[⟨"xs", true, .int⟩], .int⟩ ⟨[⟨"x", false, .int⟩], .int⟩
    (by decide +kernel) (by decide +kernel) (by decide +kernel)
  exact absurd (hsubstitutes.foreseen.rest rfl).1 (by decide)

end Session
end TemplateCheck

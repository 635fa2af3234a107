import TemplateCheck.Proofs.Types.Referenced
import TemplateCheck.Proofs.Types.Signatures

/-! The two modes of assignability, compared step by step. The strict mode accepts nothing that the
loose one does not accept, and they part only where `?` itself is compared as a source, so they
answer alike for types that do not refer to it. -/

namespace TemplateCheck
open Relation (ReflTransGen)

namespace Assignable
variable {s : TypeStore} {a b : TypeId}

theorem within_loose {n : Nat} (h : within s .strict n a b) : within s .loose n a b := by
  induction n generalizing a b with
  | zero => exact h
  | succ n ih =>
    rw [within, Bool.or_eq_true_iff] at h ⊢
    exact h.imp id (step_mono (fun _ _ => ih) fun _ => rfl)

theorem within_strict_eq_loose {n : Nat} (ha : ∀ u, ReflTransGen s.Part a u → u ≠ .unknown)
    (hb : ∀ u, ReflTransGen s.Part b u → u ≠ .unknown) :
    within s .strict n a b = within s .loose n a b := by
  induction n generalizing a b with
  | zero => rfl
  | succ n ih =>
    have hpart {t p : TypeId} (ht : ∀ u, ReflTransGen s.Part t u → u ≠ .unknown)
        (hp : p ∈ (s.data t).parts) : ∀ u, ReflTransGen s.Part p u → u ≠ .unknown :=
      fun u hpu => ht u (.head hp hpu)
    have hdistribute : distribute (within s .strict n) s a b =
        distribute (within s .loose n) s a b :=
      distribute_congr (fun p hp => ih ha (hpart hb hp)) (fun p hp => ih (hpart ha hp) hb)
        fun t ht u hu => ⟨ih (hpart ha ht) (hpart hb hu), ih (hpart hb hu) (hpart ha ht)⟩
    rw [within, within, step, step, hdistribute, if_neg (hb b .refl), if_neg (hb b .refl)]

end Assignable

namespace Session
open Assignable
variable {σ : Session} {target source : TypeId}

/-- The strict mode accepts no more than the loose one, and as much unless one of the types refers
to `?`. -/
theorem isAssignable_modes (hσ : σ.Reached) (ht : target ∈ σ.issued) (hs : source ∈ σ.issued) :
    (σ.store.isAssignable .strict target source → σ.store.isAssignable .loose target source) ∧
      (.unknown ∉ σ.store.referenced target → .unknown ∉ σ.store.referenced source →
        σ.store.isAssignable .strict target source =
          σ.store.isAssignable .loose target source) := by
  have hvalid := hσ.valid
  have hfree {t : TypeId} (ht : t ∈ σ.issued) (h : .unknown ∉ σ.store.referenced t) :
      ∀ u, ReflTransGen σ.store.Part t u → u ≠ .unknown := by
    rintro u htu rfl
    exact h ((hvalid.sound.mem_referenced (hvalid.known t ht)).2 htu)
  exact ⟨within_loose, fun htarget hsource =>
    within_strict_eq_loose (hfree ht htarget) (hfree hs hsource)⟩

def mapperSession : Session :=
  (((single.call (.list .string)).call (.iterable .string)).call
    (.function [⟨"x", false, ⟨127⟩⟩] ⟨191⟩)).call (.function [⟨"x", false, ⟨191⟩⟩] ⟨127⟩)

theorem isAssignable_modes_mapper :
    mapperSession.Reached ∧ mapperSession.store.isAssignable .strict ⟨255⟩ ⟨319⟩ ∧
      mapperSession.store.isAssignable .loose ⟨255⟩ ⟨319⟩ ∧
      .unknown ∉ mapperSession.store.referenced ⟨319⟩ ∧
      .unknown ∉ mapperSession.store.referenced ⟨255⟩ ∧
      mapperSession.store.isAssignable .strict ⟨319⟩ ⟨255⟩ =
        mapperSession.store.isAssignable .loose ⟨319⟩ ⟨255⟩ := by
  have hreached : mapperSession.Reached :=
    (((reached_single.call_fixed (.list .string) trivial (by decide)).call_fixed
      (.iterable .string) trivial (by decide)).call (.function [⟨"x", false, ⟨127⟩⟩] ⟨191⟩)
        ⟨trivial, by decide +kernel⟩).call (.function [⟨"x", false, ⟨191⟩⟩] ⟨127⟩)
          ⟨trivial, by decide +kernel⟩
  have hstrict : mapperSession.store.isAssignable .strict ⟨255⟩ ⟨319⟩ := by decide +kernel
  have hfirst : .unknown ∉ mapperSession.store.referenced ⟨319⟩ := by decide +kernel
  have hsecond : .unknown ∉ mapperSession.store.referenced ⟨255⟩ := by decide +kernel
  obtain ⟨hloose, -⟩ := @isAssignable_modes mapperSession ⟨255⟩ ⟨319⟩ hreached
    (by decide +kernel) (by decide +kernel)
  obtain ⟨-, heq⟩ := @isAssignable_modes mapperSession ⟨319⟩ ⟨255⟩ hreached
    (by decide +kernel) (by decide +kernel)
  exact ⟨hreached, hstrict, hloose hstrict, hfirst, hsecond, heq hfirst hsecond⟩

/-- The modes part when the source is `?`. -/
example : single.store.isAssignable .loose .string .unknown ∧
    ¬ single.store.isAssignable .strict .string .unknown := by decide +kernel

end Session
end TemplateCheck

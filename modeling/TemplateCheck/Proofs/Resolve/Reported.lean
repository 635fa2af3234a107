import TemplateCheck.Proofs.Resolve.Repeating
import TemplateCheck.Proofs.Types.Referenced

/-! No type without a meaning comes out of a resolution unless an error is reported. -/

namespace TemplateCheck
open TypeStore

theorem Report.errorsSince_extend {report : Report} {ds : List Diagnostic} (hds : ds ≠ [])
    (herrors : ∀ d ∈ ds, d.isError) : (report.extend ds).errorsSince report.checkpoint := by
  obtain ⟨d, hd⟩ := List.exists_mem_of_ne_nil ds hds
  rw [errorsSince, checkpoint, extend, List.drop_left, List.any_eq_true]
  exact ⟨d, hd, herrors d hd⟩

namespace TypeStore
variable {s : TypeStore} {t : TypeId} {pool : Proto.Pool}

theorem Sound.throughout_meant (h : s.Sound) (ht : s.Known t) :
    s.Throughout (Meant pool) t ↔ ¬s.containsError t ∧ ∀ u ∈ s.referenced t, ∀ m,
      s.data u = .message m → pool.message? m.descriptor.name = some m := by
  rw [containsError, Bool.not_eq_true, ← h.throughout_iff_containsForm ht, throughout_iff h ht,
    throughout_iff h ht, ← forall_and]
  refine forall_congr' fun u => ?_
  rw [h.mem_referenced ht, ← imp_and]
  refine forall_congr' fun _ => ?_
  cases s.data u <;> simp [Meant]

end TypeStore

namespace Session
open Resolving
variable {σ : Session} {registry : Registry}

theorem serves (hσ : σ.Reached) (hpool : registry.pool.Closed)
    (haliases : ∀ entry ∈ registry.aliases, entry.2 ∈ σ.issued ∧ ¬σ.store.containsError entry.2 ∧
      ∀ u ∈ σ.store.referenced entry.2, ∀ m, σ.store.data u = .message m →
        registry.pool.message? m.descriptor.name = some m) :
    registry.Serves True σ.store := by
  have hvalid := hσ.valid
  refine ⟨fun _ => hpool, fun entry hentry => ?_⟩
  obtain ⟨hissued, hmeant⟩ := haliases entry hentry
  have hknown := hvalid.known _ hissued
  exact ⟨hknown, fun _ => (hvalid.sound.throughout_meant hknown).2 hmeant⟩

/-- If the type of an expression contains the error type, an error was reported, given that neither
the aliases nor the pool's messages lead to types without a meaning. -/
theorem errorsSince_of_containsError (hσ : σ.Reached) (hpool : registry.pool.Closed)
    (haliases : ∀ entry ∈ registry.aliases, entry.2 ∈ σ.issued ∧ ¬σ.store.containsError entry.2 ∧
      ∀ u ∈ σ.store.referenced entry.2, ∀ m, σ.store.data u = .message m →
        registry.pool.message? m.descriptor.name = some m)
    (e : TypeExpr) (report : Report)
    (herror : (resolve registry e ⟨σ.store, report⟩).2.store.containsError
      (resolve registry e ⟨σ.store, report⟩).1) :
    (resolve registry e ⟨σ.store, report⟩).2.report.errorsSince report.checkpoint := by
  have hserves := serves hσ hpool haliases
  obtain ⟨t, s', ds, hreplays, ht⟩ :=
    Repeats.resolveWithin registry TypeExpr.nestingLimit e True σ.store hserves hσ.valid.sound
  have hrun : resolve registry e ⟨σ.store, report⟩ = (t, ⟨s', report.extend ds⟩) :=
    hreplays.run report
  rw [hrun] at herror ⊢
  refine Report.errorsSince_extend (fun hds => ?_) hreplays.errors
  have hmeant := ht.meant ⟨trivial, hds⟩
  exact ((hreplays.sound.throughout_meant ht.known).1 hmeant).1 herror

def listOfInts : Session := single.call (.list .int)

def orderRegistry : Registry where
  aliases := [("Counts", ⟨127⟩)]
  pool := ⟨0, [⟨"shop.Item", [⟨"next", 1, .repeated (.message "shop.Item")⟩]⟩], []⟩

def priceAnnotation : TypeExpr :=
  .record .unknown [⟨"counts", .unknown, false, .named .unknown "Counts"⟩,
    ⟨"price", .unknown, false, .indexed .unknown (.named .unknown "shop.Item") "price"⟩]

theorem errorsSince_of_containsError_price :
    listOfInts.Reached ∧ orderRegistry.pool.Closed ∧
      (resolve orderRegistry priceAnnotation ⟨listOfInts.store, .empty⟩).2.store.containsError
        (resolve orderRegistry priceAnnotation ⟨listOfInts.store, .empty⟩).1 ∧
      (resolve orderRegistry priceAnnotation ⟨listOfInts.store, .empty⟩).2.report.errorsSince
        Report.empty.checkpoint := by
  have hreached : listOfInts.Reached :=
    reached_single.call_fixed (.list .int) trivial (by decide)
  have hpool : orderRegistry.pool.Closed := by
    unfold Proto.Pool.Closed
    decide
  have herror : (resolve orderRegistry priceAnnotation
      ⟨listOfInts.store, .empty⟩).2.store.containsError
        (resolve orderRegistry priceAnnotation ⟨listOfInts.store, .empty⟩).1 := by decide +kernel
  have hreferenced : listOfInts.store.referenced ⟨127⟩ = [⟨127⟩, .int] := by decide +kernel
  have haliases : ∀ entry ∈ orderRegistry.aliases, entry.2 ∈ listOfInts.issued ∧
      ¬listOfInts.store.containsError entry.2 ∧
        ∀ u ∈ listOfInts.store.referenced entry.2, ∀ m, listOfInts.store.data u = .message m →
          orderRegistry.pool.message? m.descriptor.name = some m := by
    refine List.forall_mem_singleton.2 ⟨by decide +kernel, by decide +kernel, ?_⟩
    have hlist : listOfInts.store.data ⟨127⟩ = .list .int := by decide +kernel
    have hint : listOfInts.store.data .int = .intrinsic .int := data_fixed _ rfl
    rw [hreferenced]
    refine List.forall_mem_cons.2 ⟨fun m hm => ?_, List.forall_mem_singleton.2 fun m hm => ?_⟩
    · cases hlist.symm.trans hm
    · cases hint.symm.trans hm
  exact ⟨hreached, hpool, herror,
    errorsSince_of_containsError hreached hpool haliases priceAnnotation .empty herror⟩

end Session
end TemplateCheck

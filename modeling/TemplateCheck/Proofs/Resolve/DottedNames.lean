import TemplateCheck.Proofs.Resolve.Interchanging

/-! A dotted name that is no name of its own stands for property accesses to the type that its
longest known beginning names. -/

namespace TemplateCheck
open TypeExpr

namespace Registry
variable {registry : Registry} {name : String}

def Knows (registry : Registry) (name : String) : Prop :=
  (builtins.lookup name).isSome ∨ (registry.alias? name).isSome ∨
    (registry.pool.message? name).isSome ∨ (registry.pool.enum? name).isSome

instance (registry : Registry) (name : String) : Decidable (registry.Knows name) :=
  inferInstanceAs (Decidable (_ ∨ _ ∨ _ ∨ _))

theorem named?_of_knows (h : registry.Knows name) :
    ∃ make, registry.named? name = some <$> make := by
  unfold named?
  split
  next make _ => exact ⟨make, rfl⟩
  next hbuiltin =>
    split
    next t _ => exact ⟨pure t, rfl⟩
    next halias =>
      split
      next m _ => exact ⟨TypeStore.message m, rfl⟩
      next hmessage =>
        split
        next e _ => exact ⟨TypeStore.enum e, rfl⟩
        next henum => simp [Knows, hbuiltin, halias, hmessage, henum] at h

theorem named?_of_not_knows (h : ¬registry.Knows name) : registry.named? name = pure none := by
  simp only [Knows, not_or, Option.not_isSome_iff_eq_none] at h
  obtain ⟨hbuiltin, halias, hmessage, henum⟩ := h
  simp only [named?, hbuiltin, halias, hmessage, henum]

/-- The longest known name among the proper beginnings of a dotted name is made of the segments
`beginning`; the segments behind them are `properties`. -/
structure Begins (registry : Registry) (name : String) (beginning properties : List String) :
    Prop where
  segments : Text.segments name = beginning ++ properties
  proper : beginning ≠ [] ∧ properties ≠ []
  known : registry.Knows (Text.joinSegments beginning)
  longest : ∀ longer rest, Text.segments name = longer ++ rest → rest ≠ [] →
    registry.Knows (Text.joinSegments longer) → longer.length ≤ beginning.length

theorem Begins.firstKnown {beginning properties : List String}
    (h : registry.Begins name beginning properties) {make : Making TypeId}
    (hmake : registry.named? (Text.joinSegments beginning) = some <$> make) (count : Nat)
    (hcount : beginning.length ≤ count) (hless : count < (Text.segments name).length) :
    Resolving.firstKnown registry (Text.segments name) count =
      (fun t => some (t, properties)) <$> make := by
  induction count with
  | zero => exact absurd (List.eq_nil_of_length_eq_zero (Nat.le_zero.1 hcount)) h.proper.1
  | succ count ih =>
    rw [Resolving.firstKnown]
    rcases Nat.lt_or_eq_of_le hcount with hlt | heq
    · have hunknown : ¬registry.Knows
          (Text.joinSegments ((Text.segments name).take (count + 1))) := by
        intro hknown
        have hrest : (Text.segments name).drop (count + 1) ≠ [] :=
          fun hnil => absurd (List.drop_eq_nil_iff.1 hnil) (Nat.not_le.2 hless)
        have hshorter := h.longest _ _ (List.take_append_drop _ _).symm hrest hknown
        rw [List.length_take, Nat.min_eq_left (Nat.le_of_lt hless)] at hshorter
        omega
      rw [named?_of_not_knows hunknown, pure_bind]
      exact ih (Nat.le_of_lt_succ hlt) (Nat.lt_of_succ_lt hless)
    · rw [← heq, h.segments, List.take_left, List.drop_left, hmake, map_eq_pure_bind,
        map_eq_pure_bind, bind_assoc]
      rfl

end Registry

namespace Agree
open Resolving

theorem trans {α : Type} {m m' m'' : Resolving α} (h : Agree m m') (h' : Agree m' m'') :
    Agree m m'' := by
  intro s
  obtain ⟨a, s₁, ds, ds', hrun, hrun', hds⟩ := h s
  obtain ⟨b, s₂, es, es', hruns, hruns', hes⟩ := h' s
  obtain ⟨rfl, rfl, rfl⟩ := eq_of_runs hrun' hruns
  exact ⟨a, s₁, ds, es', hrun, hruns', hds.trans hes⟩

variable {registry : Registry} {e m : TypeExpr} {path : List String}

theorem accessed (registry : Registry) (room : Nat) (h : Accessed e path m) (l : Location) :
    Agree (Resolving.resolveWithin registry (room + path.length) m)
      (Resolving.resolveWithin registry room e >>= fun t =>
        Resolving.indexAll registry l t path) := by
  induction h generalizing room with
  | done e =>
    have hself := resolveWithin registry room e e (same_refl e)
    exact (bind_pure (Resolving.resolveWithin registry room e)).symm ▸ hself
  | @step e m p path k _ ih =>
    have hinner := ih (room + 1)
    rw [Resolving.resolveWithin, if_neg (Nat.succ_ne_zero room), bind_assoc] at hinner
    rw [List.length_cons, Nat.add_comm path.length, ← Nat.add_assoc]
    refine hinner.trans ?_
    refine (resolveWithin registry room e e (same_refl e)).bind fun t => ?_
    exact (indexType registry k l t p).bind fun u => indexAll registry l l u path

theorem dotted {name : String} {beginning properties : List String} (hname : ¬registry.Knows name)
    (h : registry.Begins name beginning properties) (l k : Location) :
    Agree
      (Resolving.resolveName registry (Text.joinSegments beginning) k >>= fun t =>
        Resolving.indexAll registry l t properties)
      (Resolving.resolveName registry name l) := by
  obtain ⟨make, hmake⟩ := Registry.named?_of_knows h.known
  have hlength : (Text.segments name).length = beginning.length + properties.length := by
    rw [h.segments, List.length_append]
  have hproper := List.length_pos_iff.2 h.proper.2
  have hsearch := h.firstKnown hmake ((Text.segments name).length - 1) (by omega) (by omega)
  have hdotted : Resolving.resolveName registry name l =
      Resolving.making make >>= fun t => Resolving.indexAll registry l t properties := by
    rw [Resolving.resolveName, Registry.named?_of_not_knows hname]
    dsimp only
    rw [hsearch]
    rfl
  have hbeginning : Resolving.resolveName registry (Text.joinSegments beginning) k =
      Resolving.making make := by
    rw [Resolving.resolveName, hmake]
    rfl
  rw [hbeginning, hdotted]
  exact (making make).bind fun t => indexAll registry l l t properties

end Agree

namespace Session
open Resolving
variable {σ : Session} {registry : Registry} {m : TypeExpr} {beginning properties : List String}

/-- A dotted name that is not known itself and the accesses to its properties, behind its longest
known beginning, lead to one type and to complaints that say the same, whether they are resolved
for the first time or again. -/
theorem dotted_as_accessed (hσ : σ.Used)
    (haliases : ∀ entry ∈ registry.aliases, entry.2 ∈ σ.issued) {name : String} (l k : Location)
    (hname : ¬registry.Knows name) (h : registry.Begins name beginning properties)
    (hm : Accessed (.named k (Text.joinSegments beginning)) properties m)
    (hroom : properties.length < nestingLimit) :
    ∃ t s ds ds', ds.map Diagnostic.said = ds'.map Diagnostic.said ∧
      ∀ start, start = σ.store ∨ start = s → ∀ report,
        resolve registry (.named l name) ⟨start, report⟩ = (t, ⟨s, report.extend ds⟩) ∧
        resolve registry m ⟨start, report⟩ = (t, ⟨s, report.extend ds'⟩) := by
  have hvalid := hσ.valid
  have hserves := hvalid.serves haliases
  obtain ⟨t, s, ds, hrun, -⟩ :=
    Repeats.resolveWithin registry nestingLimit (.named l name) False σ.store hserves hvalid.sound
  obtain ⟨t', s', ds', hrun', -⟩ :=
    Repeats.resolveWithin registry nestingLimit m False σ.store hserves hvalid.sound
  have hagree : Agree (resolve registry m) (resolve registry (.named l name)) := by
    obtain ⟨room, hlimit⟩ := Nat.exists_eq_add_of_lt hroom
    have hsum : room + 1 + properties.length = nestingLimit := by omega
    have haccessed := Agree.accessed registry (room + 1) hm l
    rw [hsum, resolveWithin, if_neg (Nat.succ_ne_zero room)] at haccessed
    have hdotted := haccessed.trans (Agree.dotted hname h l k)
    rwa [resolve, resolve, resolveWithin, if_neg (by decide)]
  obtain ⟨u, s₁, es', es, haccess, hnamed, hsaid⟩ := hagree σ.store
  obtain ⟨rfl, rfl, rfl⟩ := Agree.eq_of_runs hrun.run hnamed
  obtain ⟨rfl, rfl, rfl⟩ := Agree.eq_of_runs hrun'.run haccess
  refine ⟨t', s', ds, ds', hsaid.symm, ?_⟩
  rintro start (rfl | rfl) report
  · exact ⟨hrun.run report, hrun'.run report⟩
  · exact ⟨hrun.again _ hrun.sound (.refl _) report, hrun'.again _ hrun.sound (.refl _) report⟩

def itemRegistry : Registry where
  aliases := [("shop", .int)]
  pool := ⟨0, [⟨"shop.Item", [⟨"next", 1, .repeated (.message "shop.Item")⟩]⟩], []⟩

theorem dotted_as_accessed_size :
    single.Used ∧ (∀ entry ∈ itemRegistry.aliases, entry.2 ∈ single.issued) ∧
      ¬itemRegistry.Knows "shop.Item.next.size" ∧
      itemRegistry.Begins "shop.Item.next.size" ["shop", "Item"] ["next", "size"] ∧
      ∃ t s ds ds', ds.map Diagnostic.said = ds'.map Diagnostic.said ∧
        ∀ start, start = single.store ∨ start = s → ∀ report,
          resolve itemRegistry (.named ⟨none, 0, 19⟩ "shop.Item.next.size") ⟨start, report⟩ =
            (t, ⟨s, report.extend ds⟩) ∧
          resolve itemRegistry (.indexed ⟨none, 0, 21⟩ (.indexed ⟨none, 0, 16⟩
            (.named ⟨none, 1, 10⟩ (Text.joinSegments ["shop", "Item"])) "next") "size")
              ⟨start, report⟩ = (t, ⟨s, report.extend ds'⟩) := by
  have hused : single.Used := reached_single.used
  have haliases : ∀ entry ∈ itemRegistry.aliases, entry.2 ∈ single.issued := by decide
  have hunknown : ¬itemRegistry.Knows "shop.Item.next.size" := by decide
  have hbegins : itemRegistry.Begins "shop.Item.next.size" ["shop", "Item"] ["next", "size"] := by
    have hsplit : Text.segments "shop.Item.next.size" = ["shop", "Item", "next", "size"] := by
      decide
    refine ⟨hsplit, by decide, by decide, fun longer rest hsegments hrest hknown => ?_⟩
    by_contra hlonger
    have hlength := congrArg List.length hsegments
    rw [hsplit, List.length_append] at hlength
    have hpos := List.length_pos_iff.2 hrest
    simp only [List.length_cons, List.length_nil] at hlength hlonger
    have hthree : longer = ["shop", "Item", "next"] := by
      rw [hsplit] at hsegments
      have htake := congrArg (List.take 3) hsegments
      rwa [List.take_left' (by omega), eq_comm] at htake
    have hnone : ¬itemRegistry.Knows (Text.joinSegments ["shop", "Item", "next"]) := by decide
    exact hnone (hthree ▸ hknown)
  exact ⟨hused, haliases, hunknown, hbegins,
    dotted_as_accessed hused haliases _ _ hunknown hbegins (.step _ (.step _ (.done _)))
      (by decide)⟩

end Session
end TemplateCheck

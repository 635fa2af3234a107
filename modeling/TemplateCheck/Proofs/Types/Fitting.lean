import TemplateCheck.Proofs.Types.Structure
import TemplateCheck.Types.Assignable

/-! The rules by which one form fits another, and assignability of types that nest less deep than
the comparison goes. -/

namespace TemplateCheck.Assignable
variable {f g : TypeId → TypeId → Bool}

section Forms
variable (R : TypeId → TypeId → Prop)

def RecordFits (ps qs : List (RecordProperty TypeId)) : Prop :=
  ∀ p ∈ ps, match qs.find? (·.name == p.name) with
    | none => p.optional
    | some q => (q.optional → p.optional) ∧ R p.type q.type

structure TemplateFits (target source : TemplateShape TypeId) : Prop where
  given : ∀ p ∈ target.parameters, ∃ q, source.parameters.find? (sameParameter p) = some q ∧
    (q.required → p.required) ∧ R q.type p.type
  needed : ∀ q ∈ source.parameters, q.required → ∃ p ∈ target.parameters, sameParameter q p
  result : R target.result source.result

structure FunctionFits (target source : FunctionShape TypeId) : Prop where
  enough : fixedCount source ≤ target.parameters.length
  surplus : (variadicLast source).isSome ∨ target.parameters.length ≤ fixedCount source
  given : ∀ i p, target.parameters[i]? = some p →
    ∃ q, parameterAt source i = some q ∧ R q.type p.type
  result : R target.result source.result

/-- The first form accepts the second one, where `R` compares the parts. -/
inductive Fits : TypeData → TypeData → Prop where
  | error (d : TypeData) : Fits .error d
  | any (d : TypeData) : Fits (.intrinsic .any) d
  | unknown (d : TypeData) : Fits (.intrinsic .unknown) d
  | string (value : String) : Fits (.intrinsic .string) (.literal value)
  | html (tag : ElementTag) : Fits (.intrinsic .html) (.element tag)
  | uri : Fits (.intrinsic .uri) (.intrinsic .trustedResourceUri)
  | anyMessage (m : Proto.Registered Proto.MessageDescriptor) :
      Fits (.intrinsic .message) (.message m)
  | element {t u} (h : elementAccepts t u) : Fits (.element t) (.element u)
  | list {t u} (h : R t u) : Fits (.list t) (.list u)
  | set {t u} (h : R t u) : Fits (.set t) (.set u)
  | iterable {t u} (h : R t u) : Fits (.iterable t) (.iterable u)
  | iterableList {t u} (h : R t u) : Fits (.iterable t) (.list u)
  | iterableSet {t u} (h : R t u) : Fits (.iterable t) (.set u)
  | map {k l t u} (hkey : R k l) (hvalue : R t u) : Fits (.map k t) (.map l u)
  | legacyObjectMap {k l t u} (hkey : R k l) (hvalue : R t u) :
      Fits (.legacyObjectMap k t) (.legacyObjectMap l u)
  | record {ps qs} (h : RecordFits R ps qs) : Fits (.record ps) (.record qs)
  | template {a b} (h : TemplateFits R a b) : Fits (.template a) (.template b)
  | function {a b} (h : FunctionFits R a b) : Fits (.function a) (.function b)
  | message (m : Proto.Registered Proto.MessageDescriptor) : Fits (.message m) (.message m)
  | enum {e f} (h : enumAccepts e f) : Fits (.enum e) (.enum f)

end Forms

theorem implies_iff {a b : Bool} : !a || b ↔ (a → b) := by
  cases a <;> simp

theorem recordAccepts_iff {ps qs : List (RecordProperty TypeId)} :
    recordAccepts f ps qs ↔ RecordFits (fun t u => f t u) ps qs := by
  simp only [recordAccepts, RecordFits, List.all_eq_true]
  refine forall₂_congr fun p _ => ?_
  cases qs.find? (·.name == p.name) with
  | none => rfl
  | some q => exact Bool.and_eq_true_iff.trans (and_congr_left fun _ => implies_iff)

theorem templateAccepts_iff {a b : TemplateShape TypeId} :
    templateAccepts f a b ↔ TemplateFits (fun t u => f t u) a b := by
  rw [templateAccepts, Bool.and_eq_true_iff, Bool.and_eq_true_iff, List.all_eq_true,
    List.all_eq_true]
  constructor
  · rintro ⟨⟨hparams, hneeded⟩, hresult⟩
    refine ⟨fun p hp => ?_, fun q hq hrequired => ?_, hresult⟩
    · have hgiven := hparams p hp
      cases hfind : b.parameters.find? (sameParameter p) with
      | none =>
        rw [hfind] at hgiven
        cases hgiven
      | some q =>
        rw [hfind, Bool.and_eq_true_iff, implies_iff] at hgiven
        exact ⟨q, rfl, hgiven⟩
    · exact List.any_eq_true.1 (implies_iff.1 (hneeded q hq) hrequired)
  · intro h
    refine ⟨⟨fun p hp => ?_, fun q hq => ?_⟩, h.result⟩
    · obtain ⟨q, hfind, hgiven⟩ := h.given p hp
      rw [hfind, Bool.and_eq_true_iff, implies_iff]
      exact hgiven
    · exact implies_iff.2 fun hrequired => List.any_eq_true.2 (h.needed q hq hrequired)

theorem parametersAccepted_iff {source : FunctionShape TypeId} {start : Nat}
    {params : List (FunctionParameter TypeId)} :
    parametersAccepted f source start params ↔ ∀ i p, params[i]? = some p →
      ∃ q, parameterAt source (start + i) = some q ∧ f q.type p.type := by
  induction params generalizing start with
  | nil => simp [parametersAccepted]
  | cons p rest ih =>
    rw [parametersAccepted, Bool.and_eq_true_iff, ih]
    refine ⟨fun ⟨hp, hrest⟩ i q hi => ?_, fun h => ⟨?_, fun i q hi => ?_⟩⟩
    · cases i with
      | zero =>
        cases hi
        revert hp
        cases parameterAt source (start + 0) <;> simp
      | succ i =>
        rw [← Nat.add_assoc, Nat.add_right_comm]
        exact hrest i q hi
    · obtain ⟨q, hq, hf⟩ := h 0 p rfl
      rw [Nat.add_zero] at hq
      rw [hq]
      exact hf
    · rw [Nat.add_right_comm, Nat.add_assoc]
      exact h (i + 1) q hi

theorem functionAccepts_iff {a b : FunctionShape TypeId} :
    functionAccepts f a b ↔ FunctionFits (fun t u => f t u) a b := by
  rw [functionAccepts, Bool.and_eq_true_iff, Bool.and_eq_true_iff, Bool.and_eq_true_iff,
    Bool.or_eq_true_iff, parametersAccepted_iff, decide_eq_true_iff, decide_eq_true_iff]
  simp only [Nat.zero_add]
  exact ⟨fun ⟨⟨⟨henough, hsurplus⟩, hgiven⟩, hresult⟩ => ⟨henough, hsurplus, hgiven, hresult⟩,
    fun h => ⟨⟨⟨h.enough, h.surplus⟩, h.given⟩, h.result⟩⟩

theorem intrinsicAccepts_iff {kind : Intrinsic} {d : TypeData} :
    intrinsicAccepts kind d ↔ Fits (fun t u => f t u) (.intrinsic kind) d := by
  refine ⟨fun h => ?_, fun h => by cases h <;> rfl⟩
  unfold intrinsicAccepts at h
  split at h
  · exact .any _
  · exact .unknown _
  · exact .string _
  · exact .html _
  · exact .uri
  · exact .anyMessage _
  · cases h

theorem formAccepts_iff {d e : TypeData} :
    formAccepts f d e ↔ Fits (fun t u => f t u) d e := by
  refine ⟨fun h => ?_, fun h => ?_⟩
  · unfold formAccepts at h
    split at h
    · exact .error _
    · exact intrinsicAccepts_iff.1 h
    · exact .element h
    · exact .list h
    · exact .set h
    · exact .iterable h
    · exact .iterableList h
    · exact .iterableSet h
    · exact .map (Bool.and_eq_true_iff.1 h).1 (Bool.and_eq_true_iff.1 h).2
    · exact .legacyObjectMap (Bool.and_eq_true_iff.1 h).1 (Bool.and_eq_true_iff.1 h).2
    · exact .record (recordAccepts_iff.1 h)
    · exact .template (templateAccepts_iff.1 h)
    · exact .function (functionAccepts_iff.1 h)
    · obtain rfl := eq_of_beq h
      exact .message _
    · exact .enum h
    · cases h
  · cases h with
    | list h | set h | iterable h | iterableList h | iterableSet h => exact h
    | map hkey hvalue | legacyObjectMap hkey hvalue => exact Bool.and_eq_true_iff.2 ⟨hkey, hvalue⟩
    | element h | enum h => exact h
    | record h => exact recordAccepts_iff.2 h
    | template h => exact templateAccepts_iff.2 h
    | function h => exact functionAccepts_iff.2 h
    | message m => exact beq_self_eq_true m
    | _ => rfl

section Parts
variable {R S : TypeId → TypeId → Prop} {d e : TypeData}

theorem RecordFits.mono {ps qs : List (RecordProperty TypeId)} (h : RecordFits R ps qs)
    (hRS : ∀ p ∈ ps, ∀ q ∈ qs, R p.type q.type → S p.type q.type) : RecordFits S ps qs := by
  intro p hp
  have hfits := h p hp
  cases hfind : qs.find? (·.name == p.name) with
  | none =>
    rw [hfind] at hfits
    exact hfits
  | some q =>
    rw [hfind] at hfits
    exact ⟨hfits.1, hRS p hp q (List.mem_of_find?_eq_some hfind) hfits.2⟩

theorem parameterAt_mem {shape : FunctionShape TypeId} {i : Nat} {p : FunctionParameter TypeId}
    (h : parameterAt shape i = some p) : p ∈ shape.parameters := by
  rw [parameterAt, Option.or_eq_some_iff] at h
  rcases h with h | ⟨-, h⟩
  · exact List.mem_of_getElem? (Option.filter_eq_some_iff.1 h).1
  · exact List.mem_of_getLast? (Option.filter_eq_some_iff.1 h).1

theorem Fits.mono (h : Fits R d e) (hRS : ∀ t ∈ d.parts, ∀ u ∈ e.parts,
    (R t u → S t u) ∧ (R u t → S u t)) : Fits S d e := by
  cases h with
  | list h | set h | iterable h | iterableList h | iterableSet h =>
    constructor
    exact (hRS _ (List.mem_singleton_self _) _ (List.mem_singleton_self _)).1 h
  | map hkey hvalue | legacyObjectMap hkey hvalue =>
    constructor
    · exact (hRS _ (by simp [TypeForm.parts]) _ (by simp [TypeForm.parts])).1 hkey
    · exact (hRS _ (by simp [TypeForm.parts]) _ (by simp [TypeForm.parts])).1 hvalue
  | element h => exact .element h
  | enum h => exact .enum h
  | record h =>
    exact .record (h.mono fun p hp q hq =>
      (hRS _ (List.mem_map_of_mem hp) _ (List.mem_map_of_mem hq)).1)
  | template h =>
    refine .template ⟨fun p hp => ?_, h.needed, ?_⟩
    · obtain ⟨q, hq, hrequired, htype⟩ := h.given p hp
      refine ⟨q, hq, hrequired, (hRS p.type ?_ q.type ?_).2 htype⟩
      · exact List.mem_append_left _ (List.mem_map_of_mem hp)
      · exact List.mem_append_left _ (List.mem_map_of_mem (List.mem_of_find?_eq_some hq))
    · exact (hRS _ (by simp [TypeForm.parts]) _ (by simp [TypeForm.parts])).1 h.result
  | function h =>
    refine .function ⟨h.enough, h.surplus, fun i p hp => ?_, ?_⟩
    · obtain ⟨q, hq, htype⟩ := h.given i p hp
      refine ⟨q, hq, (hRS p.type ?_ q.type ?_).2 htype⟩
      · exact List.mem_append_left _ (List.mem_map_of_mem (List.mem_of_getElem? hp))
      · exact List.mem_append_left _ (List.mem_map_of_mem (parameterAt_mem hq))
    · exact (hRS _ (by simp [TypeForm.parts]) _ (by simp [TypeForm.parts])).1 h.result
  | _ => constructor

end Parts

section Distribution

theorem all_congr_mem {α : Type} {l : List α} {p q : α → Bool} (h : ∀ a ∈ l, p a = q a) :
    l.all p = l.all q := by
  rw [Bool.eq_iff_iff, List.all_eq_true, List.all_eq_true]
  exact forall₂_congr fun a ha => by rw [h a ha]

theorem any_congr_mem {α : Type} {l : List α} {p q : α → Bool} (h : ∀ a ∈ l, p a = q a) :
    l.any p = l.any q := by
  rw [Bool.eq_iff_iff, List.any_eq_true, List.any_eq_true]
  exact exists_congr fun a => and_congr_right fun ha => by rw [h a ha]

variable {s : TypeStore} {a b : TypeId} {members : List TypeId}

theorem distribute_union_source (hb : s.data b = .union members) :
    distribute f s a b = members.all (f a) := by
  rw [distribute, hb]

theorem distribute_union_target (hb : s.kind b ≠ .union) (ha : s.data a = .union members) :
    distribute f s a b = members.any (f · b) := by
  rw [distribute, ha]
  rw [TypeStore.kind] at hb
  cases hd : s.data b <;> simp [hd, TypeForm.kind] at hb ⊢

theorem distribute_intersection_target (hb : s.kind b ≠ .union)
    (ha : s.data a = .intersection members) :
    distribute f s a b = members.all (f · b) := by
  rw [distribute, ha]
  rw [TypeStore.kind] at hb
  cases hd : s.data b <;> simp [hd, TypeForm.kind] at hb ⊢

theorem distribute_intersection_source (ha : s.kind a ≠ .union) (ha' : s.kind a ≠ .intersection)
    (hb : s.data b = .intersection members) :
    distribute f s a b = members.any (f a) := by
  rw [distribute, hb]
  rw [TypeStore.kind] at ha ha'
  cases hd : s.data a <;> simp [hd, TypeForm.kind] at ha ha' ⊢

theorem distribute_forms (ha : s.kind a ≠ .union) (ha' : s.kind a ≠ .intersection)
    (hb : s.kind b ≠ .union) (hb' : s.kind b ≠ .intersection) :
    distribute f s a b = formAccepts f (s.data a) (s.data b) := by
  rw [distribute]
  rw [TypeStore.kind] at ha ha' hb hb'
  split <;> simp_all [TypeForm.kind]

theorem kind_cases (s : TypeStore) (t : TypeId) :
    (∃ members, s.data t = .union members) ∨ s.kind t ≠ .union ∧
      ((∃ members, s.data t = .intersection members) ∨ s.kind t ≠ .intersection) := by
  rw [TypeStore.kind]
  cases s.data t <;> simp [TypeForm.kind]

theorem distribute_mono (hsource : ∀ p ∈ (s.data b).parts, f a p → g a p)
    (htarget : ∀ p ∈ (s.data a).parts, f p b → g p b)
    (hparts : ∀ t ∈ (s.data a).parts, ∀ u ∈ (s.data b).parts,
      (f t u → g t u) ∧ (f u t → g u t))
    (h : distribute f s a b) : distribute g s a b := by
  rcases kind_cases s b with ⟨members, hdb⟩ | ⟨hub, hib⟩
  · rw [distribute_union_source hdb, List.all_eq_true] at h ⊢
    exact fun p hp => hsource p (by rwa [hdb]) (h p hp)
  · rcases kind_cases s a with ⟨members, hda⟩ | ⟨hua, ⟨members, hda⟩ | hia⟩
    · rw [distribute_union_target hub hda, List.any_eq_true] at h ⊢
      exact h.imp fun p hp => ⟨hp.1, htarget p (by rw [hda]; exact hp.1) hp.2⟩
    · rw [distribute_intersection_target hub hda, List.all_eq_true] at h ⊢
      exact fun p hp => htarget p (by rwa [hda]) (h p hp)
    · rcases hib with ⟨members, hdb⟩ | hib
      · rw [distribute_intersection_source hua hia hdb, List.any_eq_true] at h ⊢
        exact h.imp fun p hp => ⟨hp.1, hsource p (by rw [hdb]; exact hp.1) hp.2⟩
      · rw [distribute_forms hua hia hub hib, formAccepts_iff] at h ⊢
        exact h.mono hparts

theorem distribute_congr (hsource : ∀ p ∈ (s.data b).parts, f a p = g a p)
    (htarget : ∀ p ∈ (s.data a).parts, f p b = g p b)
    (hparts : ∀ t ∈ (s.data a).parts, ∀ u ∈ (s.data b).parts, f t u = g t u ∧ f u t = g u t) :
    distribute f s a b = distribute g s a b := by
  have hiff {p q : Bool} (h : p = q) : p ↔ q := by rw [h]
  refine Bool.eq_iff_iff.2 ⟨distribute_mono (fun p hp => (hiff (hsource p hp)).1)
    (fun p hp => (hiff (htarget p hp)).1) fun t ht u hu => ?_,
    distribute_mono (fun p hp => (hiff (hsource p hp)).2)
    (fun p hp => (hiff (htarget p hp)).2) fun t ht u hu => ?_⟩
  · exact ⟨(hiff (hparts t ht u hu).1).1, (hiff (hparts t ht u hu).2).1⟩
  · exact ⟨(hiff (hparts t ht u hu).1).2, (hiff (hparts t ht u hu).2).2⟩

end Distribution

end TemplateCheck.Assignable

namespace TemplateCheck
open Assignable

namespace TypeStore
variable {s : TypeStore} {a b t p : TypeId} {mode : Mode}

/-- How deep a type nests; one without parts has depth 0. -/
def depth (s : TypeStore) (t : TypeId) : Nat :=
  s.fold (fun form => form.parts.foldr (fun n m => max (n + 1) m) 0) t

theorem Sound.depth_lt (h : s.Sound) (ht : s.Known t) (hp : p ∈ (s.data t).parts) :
    s.depth p < s.depth t := by
  have hmax (ns : List Nat) (n : Nat) (hn : n ∈ ns) :
      n < ns.foldr (fun n m => max (n + 1) m) 0 := by
    induction ns with
    | nil => cases hn
    | cons m ns ih =>
      rw [List.foldr_cons]
      rcases List.mem_cons.1 hn with rfl | hn
      · omega
      · have hlt := ih hn
        omega
  have hfold : s.depth t = _ := h.fold ht.lookup_data
  rw [hfold, TypeForm.parts_mapParts]
  exact hmax _ _ (List.mem_map_of_mem hp)

theorem Sound.distribute_congr (h : s.Sound) {f g : TypeId → TypeId → Bool} (ha : s.Known a)
    (hb : s.Known b) (hfg : ∀ x y, s.Known x → s.Known y →
      s.depth x + s.depth y < s.depth a + s.depth b → f x y = g x y) :
    distribute f s a b = distribute g s a b := by
  have hknown {t p} (ht : s.Known t) (hp : p ∈ (s.data t).parts) := h.known_part ht hp
  have hlt {t p} (ht : s.Known t) (hp : p ∈ (s.data t).parts) := h.depth_lt ht hp
  refine Assignable.distribute_congr (fun p hp => ?_) (fun p hp => ?_) fun t ht u hu => ?_
  · exact hfg a p ha (hknown hb hp) (Nat.add_lt_add_left (hlt hb hp) _)
  · exact hfg p b (hknown ha hp) hb (Nat.add_lt_add_right (hlt ha hp) _)
  · have hta := hlt ha ht
    have hub := hlt hb hu
    exact ⟨hfg t u (hknown ha ht) (hknown hb hu) (by omega),
      hfg u t (hknown hb hu) (hknown ha ht) (by omega)⟩

theorem Sound.within_eq (h : s.Sound) (ha : s.Known a) (hb : s.Known b) {m n : Nat}
    (hm : s.depth a + s.depth b < m) (hn : s.depth a + s.depth b < n) :
    within s mode m a b = within s mode n a b := by
  induction m generalizing a b n with
  | zero => cases hm
  | succ m ih =>
    obtain ⟨n, rfl⟩ := Nat.exists_eq_add_of_le' (Nat.succ_le_of_lt (Nat.zero_lt_of_lt hn))
    have hdistribute : distribute (within s mode m) s a b = distribute (within s mode n) s a b :=
      h.distribute_congr ha hb fun x y hx hy hlt => ih hx hy (by omega) (by omega)
    rw [within, within, step, step, hdistribute]

def accepts (s : TypeStore) (mode : Mode) (target source : TypeId) : Bool :=
  within s mode (s.depth target + s.depth source + 1) target source

theorem Sound.isAssignable_eq (h : s.Sound) (ha : s.Known a) (hb : s.Known b)
    (hdepth : s.depth a + s.depth b < depthLimit) :
    s.isAssignable mode a b = s.accepts mode a b :=
  h.within_eq ha hb hdepth (Nat.lt_succ_self _)

theorem Sound.accepts_eq (h : s.Sound) (ha : s.Known a) (hb : s.Known b) :
    s.accepts mode a b = (decide (a = b) || step (s.accepts mode) s mode a b) := by
  have hdistribute : distribute (within s mode (s.depth a + s.depth b)) s a b =
      distribute (s.accepts mode) s a b :=
    h.distribute_congr ha hb fun x y hx hy hlt => h.within_eq hx hy hlt (Nat.lt_succ_self _)
  rw [accepts, within, step, step, hdistribute]

end TypeStore
end TemplateCheck

import TemplateCheck.Proofs.Portable.Shapes

/-! A description can be taken up exactly if all that it names is there, also in parts that the type
itself has no trace of. The types that were there before are left alone, whether or not it can. -/

namespace TemplateCheck
open PortableType TypeStore
open Relation (ReflTransGen)

namespace PortableType
variable {pool : Proto.Pool} {p : PortableType}

def Child (p q : PortableType) : Prop := q ∈ p.children

def BoundHere (pool : Proto.Pool) : PortableType → Prop
  | primitive name => ∃ kind : Intrinsic, kind.name = name
  | proto name => ∃ m ∈ pool.messages, m.name = name
  | protoEnum name => ∃ e ∈ pool.enums, e.name = name
  | record properties => (properties.map (·.name)).Nodup
  | _ => True

/-- All names anywhere in the description are bound. -/
def Bound (pool : Proto.Pool) (p : PortableType) : Prop :=
  ∀ q, ReflTransGen Child p q → q.BoundHere pool

theorem bound_iff : p.Bound pool ↔ p.BoundHere pool ∧ ∀ q ∈ p.children, q.Bound pool := by
  constructor
  · intro h
    exact ⟨h p .refl, fun q hq r hqr => h r (.head hq hqr)⟩
  · rintro ⟨hhere, hchildren⟩ q hpq
    rcases hpq.cases_head with rfl | ⟨r, hr, hrq⟩
    · exact hhere
    · exact hchildren r hr q hrq

theorem exists_ofName?_iff {name : String} :
    (∃ kind, Intrinsic.ofName? name = some kind) ↔ ∃ kind : Intrinsic, kind.name = name := by
  have hall (kind : Intrinsic) : kind ∈ Intrinsic.all := by cases kind <;> decide
  simp [Intrinsic.ofName?, ← Option.isSome_iff_exists, hall]

theorem exists_registered_iff {α : Type} {descriptors : List α} {fullName : α → String} {name : String}
    (number : Nat) :
    (∃ r, (descriptors.find? (fullName · == name)).map (Proto.Registered.mk number) = some r) ↔
      ∃ d ∈ descriptors, fullName d = name := by
  simp [← Option.isSome_iff_exists]

end PortableType

def SucceedsIff {α : Type} (m : Importing α) (c : Prop) : Prop :=
  ∀ s, (∃ a, (m s).1 = .ok a) ↔ c

namespace SucceedsIff
variable {α β : Type} {m : Importing α} {f : α → Importing β} {c c' : Prop} {pool : Proto.Pool}

theorem congr (h : SucceedsIff m c) (hc : c ↔ c') : SucceedsIff m c' := fun s => (h s).trans hc

theorem ret (a : α) : SucceedsIff (pure a) True := fun _ => iff_of_true ⟨a, rfl⟩ trivial

theorem fault (e : ImportError) : SucceedsIff (throw e : Importing α) False := fun _ =>
  iff_of_false (fun ⟨_, ha⟩ => nomatch ha) id

theorem making (m : Making α) : SucceedsIff (liftM m) True := fun s =>
  iff_of_true ⟨(m s).1, rfl⟩ trivial

theorem bind (hm : SucceedsIff m c) (hf : ∀ a, SucceedsIff (f a) c') :
    SucceedsIff (m >>= f) (c ∧ c') := by
  intro s
  have hc := hm s
  rw [run_bind]
  rcases hm : m s with ⟨_ | a, r⟩ <;> rw [hm] at hc
  · refine iff_of_false (fun ⟨_, ha⟩ => nomatch ha) fun h => ?_
    obtain ⟨_, ha⟩ := hc.2 h.1
    cases ha
  · exact (hf a r).trans (and_iff_right (hc.1 ⟨a, rfl⟩)).symm

section LookedUp
variable {γ : Type}

theorem found (h : SucceedsIff m True) (x : γ) : SucceedsIff m (∃ y, some x = some y) :=
  h.congr (iff_of_true trivial ⟨x, rfl⟩)

theorem notFound (e : ImportError) :
    SucceedsIff (throw e : Importing α) (∃ y : γ, none = some y) :=
  (fault e).congr (by simp)

end LookedUp

theorem thenMake {make : α → Making β} (hm : SucceedsIff m c) :
    SucceedsIff (do let a ← m; make a) c :=
  (hm.bind fun a => making (make a)).congr (and_iff_left trivial)

theorem all (ps : List PortableType) (h : ∀ p ∈ ps, SucceedsIff (importType pool p) (p.Bound pool)) :
    SucceedsIff (importAll pool ps) (∀ p ∈ ps, p.Bound pool) := by
  induction ps with
  | nil => exact (ret []).congr (iff_of_true trivial (List.forall_mem_nil _))
  | cons p ps ih =>
    obtain ⟨hp, hps⟩ := List.forall_mem_cons.1 h
    rw [importAll]
    refine (hp.bind fun t => (ih hps).bind fun ts => ret (t :: ts)).congr ?_
    rw [and_true, List.forall_mem_cons]

theorem parts {γ : Type} (ps : List PortableType) (put : List TypeId → γ)
    (h : ∀ p ∈ ps, SucceedsIff (importType pool p) (p.Bound pool)) :
    SucceedsIff (do return put (← importAll pool ps)) (∀ p ∈ ps, p.Bound pool) :=
  ((all ps h).bind fun types => ret (put types)).congr (and_iff_left trivial)

section Nodes
variable {p : PortableType}

theorem leaf (hp : p.children = []) (h : SucceedsIff (importType pool p) c)
    (hc : c ↔ p.BoundHere pool) : SucceedsIff (importType pool p) (p.Bound pool) :=
  h.congr (by rw [bound_iff, hp, hc, and_iff_left (List.forall_mem_nil _)])

theorem node (hp : p.BoundHere pool)
    (h : SucceedsIff (importType pool p) (∀ q ∈ p.children, q.Bound pool)) :
    SucceedsIff (importType pool p) (p.Bound pool) :=
  h.congr (by rw [bound_iff, and_iff_right hp])

end Nodes

end SucceedsIff

namespace PortableType
open SucceedsIff

theorem succeedsIff_importType (pool : Proto.Pool) (p : PortableType) :
    SucceedsIff (importType pool p) (p.Bound pool) := by
  induction p using PortableType.induct with
  | step p ih =>
  cases p with
  | error | anyEnum | unknownEnum => exact leaf rfl (ret _) Iff.rfl
  | element | literal => exact leaf rfl (making _) Iff.rfl
  | primitive name =>
    refine leaf rfl ?_ exists_ofName?_iff
    rw [importType]
    cases Intrinsic.ofName? name with
    | some kind => exact (ret _).found kind
    | none => exact notFound _
  | proto name =>
    refine leaf (c := ∃ m, pool.message? name = some m) rfl ?_ (exists_registered_iff pool.number)
    rw [importType]
    cases pool.message? name with
    | some m => exact (making _).found m
    | none => exact notFound _
  | protoEnum name =>
    refine leaf (c := ∃ e, pool.enum? name = some e) rfl ?_ (exists_registered_iff pool.number)
    rw [importType]
    cases pool.enum? name with
    | some e => exact (making _).found e
    | none => exact notFound _
  | list item | set item | iterable item =>
    refine node trivial ((thenMake (ih item (.head _))).congr ?_)
    simp [children]
  | map key value | legacyObjectMap key value =>
    have hkey := ih key (.head _)
    have hvalue := ih value (.tail _ (.head _))
    refine node trivial ((hkey.bind fun t => thenMake hvalue).congr ?_)
    simp [children]
  | union members | intersection members => exact node trivial (thenMake (all members ih))
  | record properties =>
    cases hrepeated : firstRepeated? [] (properties.map (·.name)) with
    | some name =>
      have hnot : ¬(record properties).Bound pool := fun hbound => by
        have hnone := firstRepeated?_eq_none_iff.2 ⟨(bound_iff.1 hbound).1, fun _ _ => List.not_mem_nil⟩
        cases hrepeated.symm.trans hnone
      rw [importType, hrepeated]
      exact (fault _).congr (iff_of_false id hnot)
    | none =>
      refine node (firstRepeated?_eq_none_iff.1 hrepeated).1 ?_
      rw [importType, hrepeated]
      dsimp only
      rw [importProperties_eq]
      exact thenMake (parts _ _ ih)
  | template parameters result =>
    have hparameters := fun q hq => ih q (List.mem_append_left _ hq)
    have hresult := ih result (List.mem_append_right _ (.head _))
    refine node trivial ?_
    rw [importType, importTemplateParameters_eq]
    refine congr (bind (parts _ _ hparameters) fun us => thenMake hresult) ?_
    simp [children, or_imp, forall_and]
  | function parameters result =>
    have hparameters := fun q hq => ih q (List.mem_append_left _ hq)
    have hresult := ih result (List.mem_append_right _ (.head _))
    refine node trivial ?_
    rw [importType, importFunctionParameters_eq]
    refine congr (bind (parts _ _ hparameters) fun us => thenMake hresult) ?_
    simp [children, or_imp, forall_and]

end PortableType

namespace Session
variable {σ : Session}

/-- An import succeeds exactly if all names in the description are bound. Whether or not it does, the
types handed out before it are the types that they were. -/
theorem import_succeeds_iff (hσ : σ.Reached) (pool : Proto.Pool) (p : PortableType) :
    ((∃ t, (importType pool p σ.store).1 = .ok t) ↔ p.Bound pool) ∧
      ∀ t ∈ σ.issued, (importType pool p σ.store).2.lookup t = σ.store.lookup t ∧
        (importType pool p σ.store).2.denote t = σ.store.denote t := by
  have hs := hσ.valid.sound
  have hyields := Yields.enters pool p (G := False) False.elim _ hs
  refine ⟨succeedsIff_importType pool p σ.store, fun t ht => ?_⟩
  have hknown := hσ.valid.known t ht
  constructor
  · rw [hknown.lookup_data, hyields.grows.types t _ hknown.lookup_data]
  · exact hyields.grows.fold hs hyields.sound hknown

def itemPool : Proto.Pool := ⟨0, [⟨"shop.Item", []⟩], []⟩

def listOfAnyOr (name : String) : PortableType := .list (.union [.primitive "any", .proto name])

theorem import_succeeds_iff_absorbed : single.Reached ∧
    (∃ t, (importType itemPool (listOfAnyOr "shop.Item") single.store).1 = .ok t) ∧
      ¬∃ t, (importType itemPool (listOfAnyOr "shop.Order") single.store).1 = .ok t := by
  have hitem : (listOfAnyOr "shop.Item").Bound itemPool := by
    have hany : (PortableType.primitive "any").Bound itemPool :=
      bound_iff.2 ⟨⟨.any, rfl⟩, List.forall_mem_nil _⟩
    have hproto : (PortableType.proto "shop.Item").Bound itemPool :=
      bound_iff.2 ⟨⟨_, .head _, rfl⟩, List.forall_mem_nil _⟩
    have hmembers := List.forall_mem_cons.2 ⟨hany, List.forall_mem_singleton.2 hproto⟩
    exact bound_iff.2 ⟨trivial, List.forall_mem_singleton.2 (bound_iff.2 ⟨trivial, hmembers⟩)⟩
  have horder : ¬(listOfAnyOr "shop.Order").Bound itemPool := by
    intro h
    have hbound : BoundHere itemPool (.proto "shop.Order") :=
      h _ (.tail (.single (.head _)) (.tail _ (.head _)))
    obtain ⟨m, hm, hname⟩ := hbound
    obtain rfl := List.mem_singleton.1 hm
    revert hname
    decide
  exact ⟨reached_single, (import_succeeds_iff reached_single itemPool _).1.2 hitem,
    mt (import_succeeds_iff reached_single itemPool _).1.1 horder⟩

end Session
end TemplateCheck

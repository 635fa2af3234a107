import Mathlib.Algebra.Group.Nat.Defs
import Mathlib.Data.Finset.Card
import Mathlib.Data.Finset.Dedup
import TemplateCheck.Proofs.Numbering
import TemplateCheck.StringPool

/-! Strings and atoms correspond one to one, whatever has been interned before and is later. -/

namespace TemplateCheck

namespace ShardedTable
variable {α : Type} [DecidableEq α] {t : ShardedTable α} {entries : List (α × Nat)}

structure Holds (t : ShardedTable α) (entries : List (α × Nat)) : Prop where
  distinct : t.Distinct
  get?_iff : ∀ a code, t.get? code = some a ↔ (a, code) ∈ entries
  size : t.size = (entries.map Prod.fst).toFinset.card

omit [DecidableEq α] in
theorem size_empty (place : α → Fin 64) : (empty place).size = 0 := by
  simp [size, empty]

theorem find?_empty (place : α → Fin 64) (a : α) : (empty place).find? a = none := by
  simp [find?, empty]

theorem holds_empty (place : α → Fin 64) : (empty place).Holds [] where
  distinct := distinct_empty place
  get?_iff a code := by simp [get?_empty]
  size := by simp [size_empty]

theorem Holds.intern (h : t.Holds entries) (a : α) :
    (t.intern a).2.Holds ((a, (t.intern a).1) :: entries) := by
  rcases t.intern_cases a with ⟨code, hcode, hintern⟩ | ⟨hnew, hintern⟩
  · have hmem := (h.get?_iff a code).1 hcode
    rw [hintern]
    refine ⟨h.distinct, fun b code' => ?_, ?_⟩
    · rw [h.get?_iff, List.mem_cons, or_iff_right_of_imp]
      rintro heq
      rwa [heq]
    · rw [h.size, List.map_cons, List.toFinset_cons, Finset.insert_eq_of_mem]
      exact List.mem_toFinset.2 (List.mem_map_of_mem hmem)
  · have hfree : t.get? (t.insertNew a).1 = none := t.get?_insertNew_fresh a
    rw [hintern]
    refine ⟨h.distinct.insertNew hnew, fun b code => ?_, ?_⟩
    · rw [get?_insertNew, List.mem_cons, Prod.mk.injEq, ← h.get?_iff]
      split
      next hcode =>
        rw [hcode, hfree]
        simp [eq_comm]
      next hcode => simp [hcode]
    · have hmem : a ∉ (entries.map Prod.fst).toFinset := by
        simp only [List.mem_toFinset, List.mem_map, not_exists, not_and]
        rintro ⟨b, code⟩ hb rfl
        exact h.distinct.get?_ne_of_find? hnew code ((h.get?_iff _ _).2 hb)
      rw [size_insertNew, h.size, List.map_cons, List.toFinset_cons,
        Finset.card_insert_of_notMem hmem]

end ShardedTable

namespace StringPool

/-- What is asked of a pool. -/
inductive Request where
  | intern (s : String)
  | internCommon

structure Session where
  pool : StringPool
  issued : List (String × Atom)

namespace Session
variable {σ : Session} {place : String → Fin 64}

def start (place : String → Fin 64) : Session := ⟨.empty place, []⟩

def intern (σ : Session) (s : String) : Session :=
  ⟨(σ.pool.intern s).2, (s, (σ.pool.intern s).1) :: σ.issued⟩

def internAll (σ : Session) (strings : List String) : Session := strings.foldl intern σ

def serve (σ : Session) : Request → Session
  | .intern s => σ.intern s
  | .internCommon => ⟨σ.pool.internCommon, (σ.internAll commonStrings).issued⟩

def serveAll (σ : Session) (requests : List Request) : Session := requests.foldl serve σ

theorem pool_internAll (strings : List String) :
    (σ.internAll strings).pool = σ.pool.internAll strings := by
  induction strings generalizing σ with
  | nil => rfl
  | cons s rest ih => exact ih

theorem issued_internAll (strings : List String) :
    σ.issued ⊆ (σ.internAll strings).issued := by
  induction strings generalizing σ with
  | nil => exact List.Subset.refl _
  | cons s rest ih => exact List.Subset.trans (List.subset_cons_self ..) (ih (σ := σ.intern s))

theorem issued_serve (request : Request) : σ.issued ⊆ (σ.serve request).issued := by
  cases request with
  | intern s => exact List.subset_cons_self ..
  | internCommon => exact issued_internAll commonStrings

theorem issued_serveAll (requests : List Request) : σ.issued ⊆ (σ.serveAll requests).issued := by
  induction requests generalizing σ with
  | nil => exact List.Subset.refl _
  | cons request rest ih => exact List.Subset.trans (issued_serve request) ih

theorem serve_internCommon : σ.serve .internCommon = σ.internAll commonStrings := by
  rw [serve, internCommon, ← pool_internAll]

def Exact (σ : Session) : Prop :=
  σ.pool.table.Holds (σ.issued.map (fun p => (p.1, p.2.index)) ++ [("", 0)])

theorem exact_start (place : String → Fin 64) : (start place).Exact := by
  let spread : String → Fin 64 := fun s => if s = "" then 0 else place s
  have hcode : ((ShardedTable.empty spread).intern "").1 = 0 := by
    rw [ShardedTable.intern, ShardedTable.find?_empty]
    simp [ShardedTable.insertNew, ShardedTable.pack, ShardedTable.empty, spread]
  have hempty := (ShardedTable.holds_empty spread).intern ""
  rw [hcode] at hempty
  exact hempty

theorem Exact.intern (h : σ.Exact) (s : String) : (σ.intern s).Exact :=
  ShardedTable.Holds.intern h s

theorem Exact.internAll (h : σ.Exact) (strings : List String) : (σ.internAll strings).Exact := by
  induction strings generalizing σ with
  | nil => exact h
  | cons s rest ih => exact ih (h.intern s)

theorem Exact.serve (h : σ.Exact) (request : Request) : (σ.serve request).Exact := by
  cases request with
  | intern s => exact h.intern s
  | internCommon => exact serve_internCommon ▸ h.internAll commonStrings

theorem Exact.serveAll (h : σ.Exact) (requests : List Request) : (σ.serveAll requests).Exact := by
  induction requests generalizing σ with
  | nil => exact h
  | cons request rest ih => exact ih (h.serve request)

theorem Exact.resolve?_iff (h : σ.Exact) (a : Atom) (s : String) :
    σ.pool.resolve? a = some s ↔ s = "" ∧ a = ⟨0⟩ ∨ (s, a) ∈ σ.issued := by
  obtain ⟨index⟩ := a
  have hmem : (s, index) ∈ σ.issued.map (fun p => (p.1, p.2.index)) ↔ (s, ⟨index⟩) ∈ σ.issued := by
    simp only [List.mem_map, Prod.mk.injEq, Prod.exists]
    constructor
    · rintro ⟨s, a, ha, rfl, rfl⟩
      exact ha
    · intro ha
      exact ⟨s, ⟨index⟩, ha, rfl, rfl⟩
  rw [resolve?, h.get?_iff, List.mem_append, hmem, or_comm]
  simp

theorem Exact.resolve_of_issued (h : σ.Exact) {s : String} {a : Atom} (ha : (s, a) ∈ σ.issued) :
    σ.pool.resolve a = s := by
  rw [resolve, (h.resolve?_iff a s).2 (.inr ha)]
  rfl

theorem Exact.atom_eq_iff (h : σ.Exact) {s t : String} {a b : Atom} (ha : (s, a) ∈ σ.issued)
    (hb : (t, b) ∈ σ.issued) : a = b ↔ s = t := by
  have hs := (h.resolve?_iff a s).2 (.inr ha)
  have ht := (h.resolve?_iff b t).2 (.inr hb)
  constructor
  · rintro rfl
    exact Option.some.inj (hs.symm.trans ht)
  · rintro rfl
    exact congrArg Atom.mk (h.distinct.eq_of_get? hs ht)

theorem Exact.isSome_resolve?_iff (h : σ.Exact) (a : Atom) :
    (σ.pool.resolve? a).isSome ↔ a = ⟨0⟩ ∨ ∃ s, (s, a) ∈ σ.issued := by
  simp only [Option.isSome_iff_exists, h.resolve?_iff, exists_or, exists_eq_left]

theorem Exact.size_eq (h : σ.Exact) :
    σ.pool.size = ((σ.issued.map Prod.fst).toFinset.erase "").card + 1 := by
  have hnames : (σ.issued.map (fun p : String × Atom => (p.1, p.2.index)) ++ [("", 0)]).map
      Prod.fst = σ.issued.map Prod.fst ++ [""] := by
    simp [Function.comp_def]
  have hempty : "" ∈ (σ.issued.map Prod.fst ++ [""]).toFinset := by simp
  have herase : (σ.issued.map Prod.fst ++ [""]).toFinset.erase "" =
      (σ.issued.map Prod.fst).toFinset.erase "" := by
    simp
  rw [size, h.size, hnames, ← Finset.card_erase_add_one hempty, herase]

end Session

/-- No shard holds more strings than fit in an atom of 32 bits. -/
def HasRoom (p : StringPool) : Prop :=
  ∀ shard ∈ p.table.shards, shard.size ≤ 2 ^ 26

theorem HasRoom.index_lt {p : StringPool} {a : Atom} {s : String} (h : p.HasRoom)
    (ha : p.resolve? a = some s) : a.index < 2 ^ 32 := by
  obtain ⟨index⟩ := a
  obtain ⟨slot, shard, rfl⟩ := ShardedTable.exists_pack index
  rw [resolve?, ShardedTable.get?_pack] at ha
  obtain ⟨hslot, -⟩ := Array.getElem?_eq_some_iff.1 ha
  have hroom : p.table.shards[shard].size ≤ _ := h _ (Vector.getElem_mem shard.isLt)
  simp only [ShardedTable.pack]
  omega

open Session in
/-- Two strings get the same atom exactly if they are the same. An atom stands for its string from
then on, no other atom stands for any but the one of the empty string, and each string counts
once. -/
theorem atoms_stable (place : String → Fin 64) (requests later : List Request) :
    let σ := (start place).serveAll requests
    let τ := σ.serveAll later
    (∀ s a t b, (s, a) ∈ τ.issued → (t, b) ∈ τ.issued → (a = b ↔ s = t)) ∧
      (∀ s a, (s, a) ∈ σ.issued → σ.pool.resolve a = s ∧ τ.pool.resolve a = s) ∧
      (∀ a, (τ.pool.resolve? a).isSome ↔ a = ⟨0⟩ ∨ ∃ s, (s, a) ∈ τ.issued) ∧
      τ.pool.resolve? ⟨0⟩ = some "" ∧
      τ.pool.size = ((τ.issued.map Prod.fst).toFinset.erase "").card + 1 ∧
      (τ.pool.HasRoom → ∀ s a, (s, a) ∈ τ.issued → a.index < 2 ^ 32) := by
  intro σ τ
  have hσ : σ.Exact := (exact_start place).serveAll requests
  have hτ : τ.Exact := hσ.serveAll later
  have hsub : σ.issued ⊆ τ.issued := issued_serveAll later
  refine ⟨fun s a t b ha hb => hτ.atom_eq_iff ha hb, fun s a ha => ?_, hτ.isSome_resolve?_iff,
    (hτ.resolve?_iff ⟨0⟩ "").2 (.inl ⟨rfl, rfl⟩), hτ.size_eq, fun hroom s a ha => ?_⟩
  · exact ⟨hσ.resolve_of_issued ha, hτ.resolve_of_issued (hsub ha)⟩
  · exact hroom.index_lt ((hτ.resolve?_iff a s).2 (.inr ha))

open Session in
theorem atoms_stable_id :
    let σ := (start fun _ => 5).serveAll [.intern "id"]
    let τ := σ.serveAll [.intern "", .intern "name"]
    ("id", ⟨5⟩) ∈ σ.issued ∧ τ.pool.HasRoom ∧ τ.pool.resolve ⟨5⟩ = "id" ∧ 5 < 2 ^ 32 := by
  intro σ τ
  have hissued : ("id", ⟨5⟩) ∈ σ.issued := by decide +kernel
  have hlater : ("id", ⟨5⟩) ∈ τ.issued := issued_serveAll _ hissued
  have hroom : τ.pool.HasRoom := by
    show ∀ shard ∈ _, _ ≤ _
    decide +kernel
  obtain ⟨-, hresolve, -, -, -, hbound⟩ :=
    atoms_stable (fun _ => 5) [.intern "id"] [.intern "", .intern "name"]
  exact ⟨hissued, hroom, (hresolve "id" ⟨5⟩ hissued).2, hbound hroom "id" ⟨5⟩ hlater⟩

end StringPool
end TemplateCheck

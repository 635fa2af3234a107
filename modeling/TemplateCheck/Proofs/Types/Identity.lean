import TemplateCheck.Proofs.Types.Session
import TemplateCheck.Proofs.Types.Structure

/-! Equal numbers are equal types: two numbers of a store denote the same type only if they are the
same, and go on to denote it. -/

namespace TemplateCheck
open TypeStore

namespace TypeStore
variable {s : TypeStore} {t u : TypeId} {d e : TypeData}

theorem Sound.record_eq (h : s.Sound) {ps qs : List (RecordProperty TypeId)} (hps : ps ∈ s.records)
    (hqs : qs ∈ s.records) (hnames : (ps.map (·.name)).Nodup) (hperm : ps.Perm qs) : ps = qs := by
  have heq : byName ps = byName qs := Order.sortBy_name_congr hnames hperm
  exact List.inj_on_of_nodup_map h.separate.records (Array.mem_toList_iff.2 hps)
    (Array.mem_toList_iff.2 hqs) heq

theorem Sound.eq_of_alike_forms (h : s.Sound) (hd : s.lookup t = some d) (he : s.lookup u = some e)
    (hde : d.Alike Eq e) : t = u := by
  have hd' := (h.admits t d hd).recorded
  have he' := (h.admits u e he).recorded
  suffices d = e from h.lookup_injective hd (this ▸ he)
  cases hde with
  | error | intrinsic | element | literal | message | enum => rfl
  | list h | set h | iterable h => rw [h]
  | map hkey hvalue | legacyObjectMap hkey hvalue => rw [hkey, hvalue]
  | record hmatch =>
    have hmem := (hmatch.mono fun p _ q _ hpq => RecordProperty.eq_of_alike hpq).mem_iff
    have hperm := (List.perm_ext_iff_of_nodup hd'.2.of_map he'.2.of_map).2 hmem
    rw [h.record_eq hd'.1 he'.1 hd'.2 hperm]
  | template hparams hresult =>
    have hparams := hparams.imp fun p q hpq => TemplateParameter.eq_of_alike hpq
    rw [List.forall₂_eq_eq_eq] at hparams
    rw [hparams, hresult]
  | function hparams hresult =>
    have hparams := hparams.imp fun p q hpq => FunctionParameter.eq_of_alike hpq
    rw [List.forall₂_eq_eq_eq] at hparams
    rw [hparams, hresult]
  | union hmatch => rw [hd'.2.ascends.eq_of_mem_iff he'.2.ascends hmatch.mem_iff]
  | intersection hmatch => rw [hd'.2.ascends.eq_of_mem_iff he'.2.ascends hmatch.mem_iff]

theorem Sound.eq_of_alike (h : s.Sound) {x y : TypeTree} (hxy : x.Alike y) (ht : s.Known t)
    (hu : s.Known u) (hx : s.denote t = x) (hy : s.denote u = y) : t = u := by
  induction hxy generalizing t u with
  | @node f g R hR hfg ih =>
    obtain ⟨d, hd⟩ := ht
    obtain ⟨e, he⟩ := hu
    rw [h.denote hd] at hx
    rw [h.denote he] at hy
    cases hx
    cases hy
    -- By induction the parts that `R` relates are equal numbers, which leaves one layer of forms.
    have hparts := hfg.of_mapParts.mono fun p hp q hq hpq =>
      ih _ _ hpq ((h.admits t d hd).parts p hp) ((h.admits u e he).parts q hq) rfl rfl
    exact h.eq_of_alike_forms hd he hparts

theorem Sound.alike_iff (h : s.Sound) (ht : s.Known t) (hu : s.Known u) :
    (s.denote t).Alike (s.denote u) ↔ t = u := by
  refine ⟨fun halike => h.eq_of_alike halike ht hu rfl rfl, ?_⟩
  rintro rfl
  exact h.alike_denote ht

theorem Grows.alike_node {s' : TypeStore} (hgrows : s.Grows s') (h : s.Sound) (h' : s'.Sound)
    (hde : d.Alike Eq e) (hparts : ∀ p ∈ e.parts, s.Known p) :
    (TypeTree.node (d.mapParts s'.denote)).Alike (.node (e.mapParts s.denote)) := by
  refine .node (fun a b => ∃ p, s.Known p ∧ a = s'.denote p ∧ b = s.denote p) ?_ ?_
  · rintro a b ⟨p, hp, rfl, rfl⟩
    rw [denote, denote, hgrows.fold h h' hp]
    exact h.alike_denote hp
  · refine (hde.mono fun p _ q hq hpq => ?_).mapParts
    exact ⟨p, hpq ▸ hparts q hq, rfl, by rw [hpq]⟩

def Placed {α β : Type} (key : α → β) (table : Array α) (a : α) : Prop :=
  ∃ i : Nat, table[i]? = some a ∧ ∀ (j : Nat) b, table[j]? = some b → key b = key a → j = i

theorem placed_of_nodup {α β : Type} {key : α → β} {table : Array α} {a : α}
    (h : (table.toList.map key).Nodup) (ha : a ∈ table) : Placed key table a := by
  obtain ⟨i, hi⟩ := Array.mem_iff_getElem?.1 ha
  refine ⟨i, hi, fun j b hj hkey => ?_⟩
  have hi' : (table.toList.map key)[i]? = some (key a) := by
    rw [List.getElem?_map, Array.getElem?_toList, hi, Option.map_some]
  have hj' : (table.toList.map key)[j]? = some (key a) := by
    rw [List.getElem?_map, Array.getElem?_toList, hj, Option.map_some, hkey]
  obtain ⟨hlt, -⟩ := List.getElem?_eq_some_iff.1 hj'
  exact (List.getElem?_inj hlt h).1 (hj'.trans hi'.symm)

/-- The list or shape of a form has one number, whatever the order of a record's properties. -/
def Numbered (s : TypeStore) : TypeData → Prop
  | .record properties => Placed byName s.records properties
  | .template shape => Placed id s.templates shape
  | .function shape => Placed id s.functions shape
  | .union members | .intersection members => Placed id s.lists members
  | _ => True

theorem Sound.numbered (h : s.Sound) (ht : s.Known t) : s.Numbered (s.data t) := by
  have hrecorded := (h.admits t _ ht.lookup_data).recorded
  obtain ⟨hlists, hrecords, htemplates, hfunctions⟩ := h.separate
  rw [← List.map_id s.lists.toList] at hlists
  rw [← List.map_id s.templates.toList] at htemplates
  rw [← List.map_id s.functions.toList] at hfunctions
  cases hd : s.data t with
  | record properties =>
    rw [hd] at hrecorded
    exact placed_of_nodup hrecords hrecorded.1
  | template shape =>
    rw [hd] at hrecorded
    exact placed_of_nodup htemplates hrecorded
  | function shape =>
    rw [hd] at hrecorded
    exact placed_of_nodup hfunctions hrecorded
  | union members | intersection members =>
    rw [hd] at hrecorded
    exact placed_of_nodup hlists hrecorded.1
  | _ => trivial

def shardCapacity : Nat := (2 ^ 32 - 1 - TypeId.firstStored) / 64 + 1

/-- No shard holds more types than it has numbers for. -/
def HasRoom (s : TypeStore) : Prop :=
  ∀ shard ∈ s.types.shards, shard.size ≤ shardCapacity

theorem Known.number_lt (ht : s.Known t) (hroom : s.HasRoom) : t.number < 2 ^ 32 := by
  rcases fixed_or_stored t with hfixed | ⟨code, rfl⟩
  · have hlt : t.number < TypeId.firstStored := by simpa [TypeId.isFixed] using hfixed
    exact hlt.trans (by decide)
  · obtain ⟨d, hd⟩ := ht
    obtain ⟨slot, shard, rfl⟩ := ShardedTable.exists_pack code
    rw [lookup_stored, ShardedTable.get?_pack] at hd
    have hslot := (Array.getElem?_eq_some_iff.1 hd).1
    have hcapacity : s.types.shards[shard].size ≤ _ := hroom _ (Vector.getElem_mem shard.isLt)
    simp only [shardCapacity, TypeId.firstStored, ShardedTable.pack] at hcapacity ⊢
    omega

theorem Known.firstStored_le (ht : s.Known t) (hfixed : (s.data t).fixedId? = none) :
    TypeId.firstStored ≤ t.number := by
  rcases fixed_or_stored t with ht' | ⟨code, rfl⟩
  · rw [fixedId?_of_lookup ht' ht.lookup_data] at hfixed
    cases hfixed
  · exact Nat.le_add_right ..

end TypeStore

theorem Call.Answers.alike {d e : TypeData} (h : Call.Answers d e) : d.Alike Eq e := by
  rcases h with rfl | ⟨ps, qs, rfl, rfl, hperm⟩
  · exact .refl d
  · refine .record ⟨fun p hp => ⟨p, hperm.mem_iff.1 hp, rfl, rfl, rfl⟩, fun q hq => ?_⟩
    exact ⟨q, hperm.mem_iff.2 hq, rfl, rfl, rfl⟩

namespace Session
variable {σ τ : Session}

/-- Two numbers that were handed out are the same exactly if they denote the same type. A number
denotes what was asked for, denotes it ever after, and is in its range; the lists and shapes of a
type are numbered as exactly. -/
theorem interning_exact (hσ : σ.Reached) (hτ : Runs σ τ) :
    (∀ t ∈ σ.issued, ∀ u ∈ σ.issued, t = u ↔ (σ.store.denote t).Alike (σ.store.denote u)) ∧
      (∀ t ∈ σ.issued, τ.store.denote t = σ.store.denote t) ∧
      (∀ c d, σ.Allows c → c.form? = some d →
        ((σ.call c).store.denote (c.make σ.store).1).Alike (.node (d.mapParts σ.store.denote))) ∧
      (∀ t ∈ σ.issued, σ.store.Numbered (σ.store.data t)) ∧
      (∀ t ∈ σ.issued, (σ.store.data t).fixedId? = none → TypeId.firstStored ≤ t.number) ∧
      (σ.store.HasRoom → ∀ t ∈ σ.issued, t.number < 2 ^ 32) := by
  have hvalid := hσ.valid
  have hsound := hvalid.sound
  refine ⟨fun t ht u hu => ?_, fun t ht => ?_, fun c d hc hd => ?_,
    fun t ht => hsound.numbered (hvalid.known t ht), fun t ht hfixed => ?_,
    fun hroom t ht => (hvalid.known t ht).number_lt hroom⟩
  · exact (hsound.alike_iff (hvalid.known t ht) (hvalid.known u hu)).symm
  · exact (hvalid.grows hτ).fold hsound (hvalid.runs hτ).sound (hvalid.known t ht)
  · have hknown : ∀ p ∈ c.arguments, σ.store.Known p := fun p hp => hvalid.known p (hc.2 p hp)
    obtain ⟨e, hanswers, hstored⟩ := Call.stored hsound hc.1 hknown hd
    rw [call, hstored.sound.denote hstored.lookup]
    exact hstored.grows.alike_node hsound hstored.sound hanswers.alike
      (by rwa [Call.parts_form? hd])
  · exact (hvalid.known t ht).firstStored_le hfixed

def sampleSession : Session :=
  (single.call (.record [⟨"a", false, .int⟩, ⟨"b", true, .string⟩])).call
    (.record [⟨"b", true, .string⟩, ⟨"a", false, .int⟩])

theorem interning_exact_sample :
    sampleSession.Reached ∧ Runs sampleSession (sampleSession.call (.union [.int, .string])) ∧
      (∀ t ∈ sampleSession.issued, ∀ u ∈ sampleSession.issued,
        t = u ↔ (sampleSession.store.denote t).Alike (sampleSession.store.denote u)) ∧
      ∀ t ∈ sampleSession.issued,
        (sampleSession.call (.union [.int, .string])).store.denote t =
          sampleSession.store.denote t := by
  have hfirst : single.Allows (.record [⟨"a", false, .int⟩, ⟨"b", true, .string⟩]) :=
    ⟨by simp [Call.Proper], by decide⟩
  have hsecond : (single.call (.record [⟨"a", false, .int⟩, ⟨"b", true, .string⟩])).Allows
      (.record [⟨"b", true, .string⟩, ⟨"a", false, .int⟩]) :=
    ⟨by simp [Call.Proper], fun t ht => List.mem_cons_of_mem _ (by revert t; decide)⟩
  have hreached : sampleSession.Reached :=
    ⟨_, (Runs.refl.call _ hfirst).call _ hsecond⟩
  have hthird : sampleSession.Allows (.union [.int, .string]) :=
    ⟨trivial, fun t ht => List.mem_cons_of_mem _ (List.mem_cons_of_mem _ (by revert t; decide))⟩
  have hlater := Runs.refl.call _ hthird
  exact ⟨hreached, hlater, (interning_exact hreached hlater).1,
    (interning_exact hreached hlater).2.1⟩

end Session
end TemplateCheck

import Mathlib.Data.List.Nodup
import TemplateCheck.ShardedTable

/-! Every entry of a sharded table has one number. -/

namespace TemplateCheck.ShardedTable
variable {α : Type} {t : ShardedTable α} {a b : α} {code : Nat}

theorem shard_pack (slot : Nat) (shard : Fin 64) : Fin.ofNat 64 (pack slot shard) = shard := by
  ext
  simp only [Fin.ofNat, pack]
  omega

theorem slot_pack (slot : Nat) (shard : Fin 64) : pack slot shard / 64 = slot := by
  rw [pack]
  omega

theorem pack_shard_slot (code : Nat) : pack (code / 64) (Fin.ofNat 64 code) = code := by
  simp only [Fin.ofNat, pack]
  omega

theorem get?_pack (t : ShardedTable α) (slot : Nat) (shard : Fin 64) :
    t.get? (pack slot shard) = t.shards[shard][slot]? := by
  simp only [get?, shard_pack, slot_pack]

theorem exists_pack (code : Nat) : ∃ slot shard, code = pack slot shard :=
  ⟨_, _, (pack_shard_slot code).symm⟩

structure Distinct (t : ShardedTable α) : Prop where
  once : ∀ shard : Fin 64, t.shards[shard].toList.Nodup
  placed : ∀ shard : Fin 64, ∀ a ∈ t.shards[shard], t.place a = shard

theorem distinct_empty (place : α → Fin 64) : (empty place).Distinct where
  once shard := by simp [empty]
  placed shard a ha := by simp [empty] at ha

theorem get?_empty (place : α → Fin 64) (code : Nat) : (empty place).get? code = none := by
  simp [get?, empty]

theorem Distinct.placed_of_get? {slot : Nat} {shard : Fin 64} (h : t.Distinct)
    (ha : t.get? (pack slot shard) = some a) : t.place a = shard := by
  rw [get?_pack] at ha
  exact h.placed shard a (Array.mem_of_getElem? ha)

theorem Distinct.eq_of_get? {code' : Nat} (h : t.Distinct) (ha : t.get? code = some a)
    (ha' : t.get? code' = some a) : code = code' := by
  obtain ⟨slot, shard, rfl⟩ := exists_pack code
  obtain ⟨slot', shard', rfl⟩ := exists_pack code'
  obtain rfl := (h.placed_of_get? ha).symm.trans (h.placed_of_get? ha')
  rw [get?_pack, ← Array.getElem?_toList] at ha ha'
  obtain ⟨hslot, -⟩ := List.getElem?_eq_some_iff.1 ha
  rw [(List.getElem?_inj hslot (h.once shard)).1 (ha.trans ha'.symm)]

theorem Distinct.get?_ne_of_find? [DecidableEq α] (h : t.Distinct) (ha : t.find? a = none)
    (code : Nat) : t.get? code ≠ some a := by
  intro hcode
  obtain ⟨slot, shard, rfl⟩ := exists_pack code
  have hplace := h.placed_of_get? hcode
  rw [get?_pack, ← hplace] at hcode
  rw [find?, Option.map_eq_none_iff, Array.idxOf?_eq_none_iff] at ha
  exact ha (Array.mem_of_getElem? hcode)

section Insertion

theorem shard_insertNew (t : ShardedTable α) (a : α) (shard : Fin 64) :
    (t.insertNew a).2.shards[shard] =
      if shard = t.place a then t.shards[shard].push a else t.shards[shard] := by
  simp only [insertNew, Fin.getElem_fin, Vector.getElem_set]
  split
  next h =>
    obtain rfl : t.place a = shard := Fin.ext h
    rw [if_pos rfl]
  next h => rw [if_neg fun heq => h (congrArg Fin.val heq.symm)]

theorem get?_insertNew (t : ShardedTable α) (a : α) (code : Nat) :
    (t.insertNew a).2.get? code =
      if code = (t.insertNew a).1 then some a else t.get? code := by
  obtain ⟨slot, shard, rfl⟩ := exists_pack code
  rw [get?_pack, get?_pack, shard_insertNew]
  have hcode : pack slot shard = (t.insertNew a).1 ↔
      slot = t.shards[t.place a].size ∧ shard = t.place a := by
    simp only [insertNew, pack, Fin.ext_iff]
    omega
  split
  next h =>
    subst h
    rw [Array.getElem?_push]
    split
    next hslot => rw [if_pos (hcode.2 ⟨hslot, rfl⟩)]
    next hslot => rw [if_neg fun h => hslot (hcode.1 h).1]
  next h => rw [if_neg fun heq => h (hcode.1 heq).2]

theorem get?_insertNew_fresh (t : ShardedTable α) (a : α) : t.get? (t.insertNew a).1 = none := by
  rw [insertNew, get?_pack]
  simp

theorem Distinct.insertNew [DecidableEq α] (h : t.Distinct) (ha : t.find? a = none) :
    (t.insertNew a).2.Distinct where
  once shard := by
    rw [shard_insertNew]
    split
    next hshard =>
      subst hshard
      rw [Array.toList_push, List.nodup_append]
      refine ⟨h.once _, List.nodup_singleton a, ?_⟩
      rintro b hb c hc rfl
      obtain rfl := List.mem_singleton.1 hc
      rw [find?, Option.map_eq_none_iff] at ha
      exact Array.idxOf?_eq_none_iff.1 ha (Array.mem_toList_iff.1 hb)
    next => exact h.once shard
  placed shard b hb := by
    rw [shard_insertNew] at hb
    split at hb
    next hshard =>
      rcases Array.mem_push.1 hb with hb | rfl
      · exact h.placed shard b hb
      · exact hshard.symm
    next => exact h.placed shard b hb

theorem size_insertNew (t : ShardedTable α) (a : α) : (t.insertNew a).2.size = t.size + 1 := by
  have hset (l : List (Array α)) (i : Nat) (hi : i < l.length) :
      (l.set i (l[i].push a)).foldr (fun shard n => shard.size + n) 0 =
        l.foldr (fun shard n => shard.size + n) 0 + 1 := by
    induction l generalizing i with
    | nil => cases hi
    | cons shard l ih =>
      cases i with
      | zero =>
        simp only [List.set_cons_zero, List.getElem_cons_zero, List.foldr_cons, Array.size_push]
        omega
      | succ i =>
        have hl := ih i (Nat.lt_of_succ_lt_succ hi)
        simp only [List.set_cons_succ, List.getElem_cons_succ, List.foldr_cons, hl]
        omega
  have hlength : (t.place a).val < t.shards.toList.length := by simp
  have hsize := hset t.shards.toList (t.place a) hlength
  simpa only [size, insertNew, Vector.toList_set, Vector.getElem_toList, Fin.getElem_fin]
    using hsize

end Insertion

variable [DecidableEq α]

theorem intern_cases (t : ShardedTable α) (a : α) :
    (∃ code, t.get? code = some a ∧ t.intern a = (code, t)) ∨
      t.find? a = none ∧ t.intern a = t.insertNew a := by
  unfold intern
  cases hfind : t.find? a with
  | some code =>
    refine .inl ⟨code, ?_, rfl⟩
    rw [find?, Option.map_eq_some_iff] at hfind
    obtain ⟨slot, hslot, rfl⟩ := hfind
    rw [Array.idxOf?_eq_map_finIdxOf?_val, Option.map_eq_some_iff] at hslot
    obtain ⟨i, hi, rfl⟩ := hslot
    obtain ⟨hget, -⟩ := Array.finIdxOf?_eq_some_iff.1 hi
    rw [get?_pack, Array.getElem?_eq_getElem i.isLt]
    exact congrArg some hget
  | none => exact .inr ⟨rfl, rfl⟩

end TemplateCheck.ShardedTable

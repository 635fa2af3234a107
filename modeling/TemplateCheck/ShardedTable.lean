/-!
A table that gives each distinct entry a number. Entries are spread over 64 shards by a placement
function; an entry's number packs its index within the shard with the number of the shard.
-/

namespace TemplateCheck

structure ShardedTable (α : Type) where
  place : α → Fin 64
  shards : Vector (Array α) 64

namespace ShardedTable

variable {α : Type}

def placeByHash [Hashable α] (a : α) : Fin 64 := Fin.ofNat 64 (hash a).toNat

def empty (place : α → Fin 64) : ShardedTable α := ⟨place, Vector.replicate 64 #[]⟩

def pack (slot : Nat) (shard : Fin 64) : Nat := slot * 64 + shard

def get? (t : ShardedTable α) (code : Nat) : Option α :=
  (t.shards[Fin.ofNat 64 code])[code / 64]?

def find? [DecidableEq α] (t : ShardedTable α) (a : α) : Option Nat :=
  ((t.shards[t.place a]).idxOf? a).map fun slot => pack slot (t.place a)

def insertNew (t : ShardedTable α) (a : α) : Nat × ShardedTable α :=
  let shard := t.shards[t.place a]
  (pack shard.size (t.place a),
    { t with shards := t.shards.set (t.place a) (shard.push a) (t.place a).isLt })

def intern [DecidableEq α] (t : ShardedTable α) (a : α) : Nat × ShardedTable α :=
  match t.find? a with
  | some code => (code, t)
  | none => t.insertNew a

def size (t : ShardedTable α) : Nat := t.shards.toList.foldr (fun shard n => shard.size + n) 0

end ShardedTable
end TemplateCheck

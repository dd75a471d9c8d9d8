import EvidencePages.Store.Recency

/-!
# Decoded chunks kept for later

The chunks used last, by their index. A chunk that is kept already is not
replaced.
-/

set_option autoImplicit false

namespace EvidencePages.Ewf

structure ChunkCache where
  maxEntries : Nat
  chunks : Recency.Entries ByteArray := []

namespace ChunkCache

def capacity (cache : ChunkCache) : Nat := max 1 cache.maxEntries

def get (cache : ChunkCache) (index : Nat) : Option ByteArray × ChunkCache :=
  match Recency.find? cache.chunks index with
  | none => (none, cache)
  | some data => (some data, { cache with chunks := Recency.touch cache.chunks index data })

def insert (cache : ChunkCache) (index : Nat) (data : ByteArray) : ChunkCache :=
  match Recency.find? cache.chunks index with
  | some _ => cache
  | none =>
    { cache with chunks := (index, data) :: Recency.makeRoom cache.capacity cache.chunks }

end ChunkCache

end EvidencePages.Ewf

import HeaderBinding.Declaration.Basic
import HeaderBinding.Diagnostic

/-!
# The cache of headers that were read

An entry holds for its path while the file has the size and the time of change it had when it was
read. A full cache drops the entry that was used longest ago.
-/

namespace HeaderBinding

/-- What a header was read to. -/
structure HeaderContent where
  declarations : List Declaration
  diagnostics : List Diagnostic
deriving Repr, DecidableEq

/-- The state of a file by which a change is noticed. -/
structure FileStamp where
  modified : Int
  size : Nat
deriving Repr, DecidableEq

structure CacheEntry where
  path : Bytes
  stamp : FileStamp
  content : HeaderContent
deriving Repr, DecidableEq

/-- The entries from the one used last to the one used longest ago. -/
structure HeaderCache where
  capacity : Nat
  entries : List CacheEntry
deriving Repr, DecidableEq

namespace HeaderCache

/-- An empty cache. There is none without room. -/
def ofCapacity? (capacity : Int) : Option HeaderCache :=
  if 0 < capacity then some ⟨capacity.toNat, []⟩ else none

def size (cache : HeaderCache) : Nat :=
  cache.entries.length

def erase (cache : HeaderCache) (path : Bytes) : HeaderCache :=
  { cache with entries := cache.entries.filter (·.path != path) }

/-- The content read from a file of that path and stamp, and the cache behind the look-up: a valid
entry becomes the newest, an outdated one is dropped. A file without a stamp has no valid entry. -/
def get (cache : HeaderCache) (path : Bytes) (stamp : Option FileStamp) :
    Option HeaderContent × HeaderCache :=
  match cache.entries.find? (·.path == path) with
  | none => (none, cache)
  | some entry =>
    if some entry.stamp = stamp then
      (some entry.content, { cache with entries := entry :: (cache.erase path).entries })
    else (none, cache.erase path)

/-- Makes an entry the newest, in place of the one for its path. -/
def add (cache : HeaderCache) (entry : CacheEntry) : HeaderCache :=
  { cache with entries := (entry :: (cache.erase entry.path).entries).take cache.capacity }

end HeaderCache

end HeaderBinding

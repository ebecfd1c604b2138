import Chartist.Source

/-!
# The series cache

Intermediate series are kept under a key: the operation, the text of its parameters and the
data it ran on. A computation that may use the cache is a `Cached` value: a tree of requests
to the cache, each with what is done on its reply. `fetch` is the one way in which a single
series is asked for, so a key is looked up, computed and stored in that order.

A cache that is off keeps nothing, and every `fetch` then computes.
-/

namespace Chartist

/-- What is kept: an operation with its parameters, on a source. -/
structure CacheKey where
  op : String
  params : String
  source : SourceId
  deriving DecidableEq

/-- The key of one output of a computation with several. -/
def CacheKey.withOutput (key : CacheKey) (output : String) : CacheKey :=
  { key with op := key.op ++ "." ++ output }

/-- The text of a key. -/
def CacheKey.text (key : CacheKey) : String :=
  s!"{key.op}({key.params})@{key.source.text}"

/-- Counters of a cache. -/
structure CacheStats where
  hits : Nat
  misses : Nat
  entries : Nat
  deriving Repr, DecidableEq

/-- The series kept so far, each under one key, and how many lookups found one. -/
structure Memo (α : Type) where
  entries : List (CacheKey × Series α)
  hits : Nat
  misses : Nat

namespace Memo

variable {α : Type}

/-- Nothing kept and nothing counted. -/
def empty : Memo α := ⟨[], 0, 0⟩

/-- Nothing kept, with room for so many series. More of them find room as well. -/
def withCapacity (_capacity : Nat) : Memo α := ⟨[], 0, 0⟩

def stats (m : Memo α) : CacheStats := ⟨m.hits, m.misses, m.entries.length⟩

/-- The series under a key. -/
def find? (m : Memo α) (key : CacheKey) : Option (Series α) := m.entries.lookup key

/-- A series is kept under the key. Looking for it this way is not counted. -/
def contains (m : Memo α) (key : CacheKey) : Bool := (m.find? key).isSome

/-- The series under a key, counting the lookup. -/
def lookup (m : Memo α) (key : CacheKey) : Option (Series α) × Memo α :=
  match m.find? key with
  | some series => (some series, { m with hits := m.hits + 1 })
  | none => (none, { m with misses := m.misses + 1 })

/-- The entries with the series under a key replaced or added. -/
def put (key : CacheKey) (series : Series α) :
    List (CacheKey × Series α) → List (CacheKey × Series α)
  | [] => [(key, series)]
  | (k, s) :: rest => if k = key then (key, series) :: rest else (k, s) :: put key series rest

/-- Keeps a series. -/
def store (m : Memo α) (key : CacheKey) (series : Series α) : Memo α :=
  { m with entries := put key series m.entries }

end Memo

/-- A cache that keeps series, or one that keeps none. -/
inductive Cache (α : Type) where
  | off
  | memo (m : Memo α)

namespace Cache

variable {α : Type}

def lookup (c : Cache α) (key : CacheKey) : Option (Series α) × Cache α :=
  match c with
  | off => (none, off)
  | memo m => let (found, m) := m.lookup key; (found, memo m)

def store (c : Cache α) (key : CacheKey) (series : Series α) : Cache α :=
  match c with
  | off => off
  | memo m => memo (m.store key series)

/-- A series is kept under the key. -/
def contains (c : Cache α) (key : CacheKey) : Bool :=
  match c with
  | off => false
  | memo m => m.contains key

/-- The counters; a cache that is off counts nothing. -/
def stats : Cache α → CacheStats
  | off => ⟨0, 0, 0⟩
  | memo m => m.stats

/-- Forgets all series and counts. -/
def clear : Cache α → Cache α
  | off => off
  | memo _ => memo .empty

end Cache

/-- A computation that may use a cache: its answer, or a request to the cache and how it goes
on. -/
inductive Cached (α β : Type) where
  | answer (result : β)
  | lookup (key : CacheKey) (next : Option (Series α) → Cached α β)
  | store (key : CacheKey) (series : Series α) (next : Cached α β)

namespace Cached

variable {α β γ : Type}

/-- One computation after another. -/
def bind : Cached α β → (β → Cached α γ) → Cached α γ
  | answer b, f => f b
  | lookup key next, f => lookup key fun found => (next found).bind f
  | store key series next, f => store key series (next.bind f)

instance : Monad (Cached α) where
  pure := answer
  bind := bind

/-- Asks for the series under a key. -/
def find (key : CacheKey) : Cached α (Option (Series α)) := lookup key answer

/-- Has a series kept. -/
def keep (key : CacheKey) (series : Series α) : Cached α Unit := store key series (answer ())

/-- The series under a key; where there is none, it is computed and kept. -/
def fetch (key : CacheKey) (produce : Cached α (Series α)) : Cached α (Series α) := do
  match ← find key with
  | some hit => return hit
  | none =>
    let series ← produce
    keep key series
    return series

/-- The answer on a cache, and the cache afterwards. -/
def run : Cached α β → Cache α → β × Cache α
  | answer b, c => (b, c)
  | lookup key next, c => let (found, c) := c.lookup key; (next found).run c
  | store key series next, c => next.run (c.store key series)

/-- The result without a cache. -/
def uncached (computation : Cached α β) : β := (computation.run .off).1

end Cached

variable {α : Type} [Scalar α] [Fingerprint α]

/-- The key of a price of bars. -/
def priceKey (bars : Bars α) (source : PriceSource) : CacheKey :=
  ⟨"PRICE", source.name, .ofBars bars⟩

/-- One price of each bar. -/
def priceSeries (bars : Bars α) (source : PriceSource) : Cached α (Series α) :=
  Cached.fetch (priceKey bars source) (pure (bars.price source))

/-- The key of the true ranges of bars. -/
def trueRangeKey (bars : Bars α) : CacheKey := ⟨"TR", "", .ofBars bars⟩

/-- The true range of each bar. -/
def trueRangeSeries (bars : Bars α) : Cached α (Series α) :=
  Cached.fetch (trueRangeKey bars) (pure bars.trueRanges)

end Chartist

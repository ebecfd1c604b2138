import Chartist.Cache

/-!
# Requests to a cache

A cache as its owner uses it, request by request. A series may be asked for together with a
`Producer` that makes it where none is kept. A producer has a state that each of its runs moves
on, so it shows how often it was run.
-/

namespace Chartist

/-- What makes a series: it reads a state and moves it on. -/
abbrev Producer (σ α : Type) := σ → Series α × σ

variable {σ α : Type}

/-- The series under a key, the cache afterwards and the state of the producer. Where no series is
kept, the producer is run and what it makes is kept. -/
def Cache.getOrCompute (c : Cache α) (key : CacheKey) (produce : Producer σ α) (s : σ) :
    Series α × Cache α × σ :=
  match c.lookup key with
  | (some hit, c) => (hit, c, s)
  | (none, c) =>
    let (series, s) := produce s
    (series, c.store key series, s)

/-- What may be asked of a cache. -/
inductive Request (σ α : Type) where
  | lookup (key : CacheKey)
  | store (key : CacheKey) (series : Series α)
  | getOrCompute (key : CacheKey) (produce : Producer σ α)
  | contains (key : CacheKey)
  | stats
  | clear

/-- The answer to a request. -/
inductive Reply (α : Type) where
  | found (series : Option (Series α))
  | series (values : Series α)
  | held (b : Bool)
  | counters (stats : CacheStats)
  | done
  deriving Repr, DecidableEq

/-- The answer of a cache to a request, the cache afterwards and the state of the producers. -/
def Request.run : Request σ α → Cache α → σ → Reply α × Cache α × σ
  | .lookup key, c, s =>
    let (found, c) := c.lookup key
    (.found found, c, s)
  | .store key series, c, s => (.done, c.store key series, s)
  | .getOrCompute key produce, c, s =>
    let (series, c, s) := c.getOrCompute key produce s
    (.series series, c, s)
  | .contains key, c, s => (.held (c.contains key), c, s)
  | .stats, c, s => (.counters c.stats, c, s)
  | .clear, c, s => (.done, c.clear, s)

/-- The answers to several requests in turn. -/
def Request.runAll : List (Request σ α) → Cache α → σ → List (Reply α) × Cache α × σ
  | [], c, s => ([], c, s)
  | request :: rest, c, s =>
    let (reply, c, s) := request.run c s
    let (replies, c, s) := runAll rest c s
    (reply :: replies, c, s)

end Chartist

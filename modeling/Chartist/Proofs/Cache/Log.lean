import Chartist.Proofs.Cache.Request
import Chartist.Request
import Mathlib.Data.List.Dedup

/-!
# A memo is a map with counters

What happened to a cache is written down in a `Log`: lookups with their outcome, series that were
stored, and clears. A log alone tells what a cache has to answer. The series under a key is the one
stored last since the last clear (`Log.latest`), the counters count the lookups since then
(`Log.lookups`), and there are as many entries as keys were stored (`Log.keys`).

`Request.replay` answers a request from the log and writes down what it does. A memo that mirrors a
log answers alike and mirrors the longer log (`Request.run_mirrors`), hence the statement on all
sequences of requests (`Request.memo_replays`).
-/

namespace Chartist

variable {σ α : Type}

/-! ## Logs -/

/-- What happens to a cache. -/
inductive Event (α : Type) where
  /-- A key was looked up, and found or not. -/
  | lookup (key : CacheKey) (found : Bool)
  | store (key : CacheKey) (series : Series α)
  | clear

/-- What happened to a cache, the latest event first. -/
abbrev Log (α : Type) := List (Event α)

namespace Log

/-- The events since the last clear. -/
def recent : Log α → Log α
  | [] => []
  | .clear :: _ => []
  | .lookup key found :: rest => .lookup key found :: recent rest
  | .store key series :: rest => .store key series :: recent rest

/-- The series of an event that stores one under the key. -/
def storedUnder (key : CacheKey) : Event α → Option (Series α)
  | .store k series => if k = key then some series else none
  | _ => none

/-- The series most recently stored under a key since the last clear. -/
def latest (log : Log α) (key : CacheKey) : Option (Series α) :=
  (recent log).findSome? (storedUnder key)

/-- The event is a lookup of that outcome. -/
def isLookup (found : Bool) : Event α → Bool
  | .lookup _ outcome => outcome == found
  | _ => false

/-- The number of lookups since the last clear that found their key, or that did not. -/
def lookups (log : Log α) (found : Bool) : Nat := (recent log).countP (isLookup found)

/-- The key of an event that stores a series. -/
def storedKey : Event α → Option CacheKey
  | .store key _ => some key
  | _ => none

/-- The distinct keys stored since the last clear. -/
def keys (log : Log α) : List CacheKey := ((recent log).filterMap storedKey).dedup

/-- The counters as the log tells them. -/
def stats (log : Log α) : CacheStats := ⟨log.lookups true, log.lookups false, log.keys.length⟩

theorem latest_store (log : Log α) (key : CacheKey) (series : Series α) (k : CacheKey) :
    latest (.store key series :: log) k = if k = key then some series else log.latest k := by
  by_cases same : key = k
  · simp [latest, recent, storedUnder, same]
  · have other : ¬ k = key := fun same' => same same'.symm
    simp [latest, recent, storedUnder, same, other]

theorem lookups_lookup (log : Log α) (key : CacheKey) (outcome found : Bool) :
    lookups (.lookup key outcome :: log) found =
      log.lookups found + if outcome = found then 1 else 0 := by
  rw [lookups, recent, List.countP_cons, isLookup, ← lookups]
  simp

theorem mem_keys {log : Log α} {key : CacheKey} :
    key ∈ log.keys ↔ (log.latest key).isSome = true := by
  rw [keys, List.mem_dedup, List.mem_filterMap, latest, List.findSome?_isSome_iff]
  constructor
  · rintro ⟨event, member, stored⟩
    refine ⟨event, member, ?_⟩
    cases event with
    | store k series =>
        obtain rfl := Option.some.inj stored
        simp [storedUnder]
    | lookup | clear => cases stored
  · rintro ⟨event, member, stored⟩
    refine ⟨event, member, ?_⟩
    cases event with
    | store k series =>
        by_cases same : k = key
        · rw [storedKey, same]
        · simp [storedUnder, same] at stored
    | lookup | clear => cases stored

end Log

/-! ## Answers from a log -/

/-- The answer to a request, judging by the log, the log afterwards and the state of the
producers. A series that is asked for together with a producer is looked up; only if that fails,
the producer is run, and what it makes is stored. -/
def Request.replay : Request σ α → Log α → σ → Reply α × Log α × σ
  | .lookup key, log, s =>
    (.found (log.latest key), .lookup key (log.latest key).isSome :: log, s)
  | .store key series, log, s => (.done, .store key series :: log, s)
  | .getOrCompute key produce, log, s =>
    match log.latest key with
    | some series => (.series series, .lookup key true :: log, s)
    | none =>
      let (series, s) := produce s
      (.series series, .store key series :: .lookup key false :: log, s)
  | .contains key, log, s => (.held (log.latest key).isSome, log, s)
  | .stats, log, s => (.counters (log.stats), log, s)
  | .clear, log, s => (.done, .clear :: log, s)

/-- The answers to several requests in turn, judging by the log. -/
def Request.replayAll : List (Request σ α) → Log α → σ → List (Reply α) × Log α × σ
  | [], log, s => ([], log, s)
  | request :: rest, log, s =>
    let (reply, log, s) := request.replay log s
    let (replies, log, s) := replayAll rest log s
    (reply :: replies, log, s)

/-! ## The keys of a memo -/

namespace Memo

theorem keys_put (key : CacheKey) (series : Series α) (entries : List (CacheKey × Series α)) :
    (put key series entries).map Prod.fst =
      if key ∈ entries.map Prod.fst then entries.map Prod.fst
      else entries.map Prod.fst ++ [key] := by
  induction entries with
  | nil => rfl
  | cons entry rest ih =>
      obtain ⟨held, old⟩ := entry
      by_cases replaced : held = key
      · simp [put, replaced]
      · have other : ¬ key = held := fun same => replaced same.symm
        rw [put, if_neg replaced, List.map_cons, ih, List.map_cons]
        by_cases member : key ∈ rest.map Prod.fst
        · rw [if_pos member, if_pos (List.mem_cons_of_mem _ member)]
        · have absent : key ∉ held :: rest.map Prod.fst := by
            simp only [List.mem_cons, not_or]
            exact ⟨other, member⟩
          rw [if_neg member, if_neg absent, List.cons_append]

/-! ## Memos and logs -/

/-- The memo is what the log makes of an empty one. -/
structure Mirrors (m : Memo α) (log : Log α) : Prop where
  find? : ∀ key, m.find? key = log.latest key
  once : (m.entries.map Prod.fst).Nodup
  hits : m.hits = log.lookups true
  misses : m.misses = log.lookups false

theorem mirrors_empty : (empty : Memo α).Mirrors [] where
  find? _ := rfl
  once := List.nodup_nil
  hits := rfl
  misses := rfl

namespace Mirrors

variable {m : Memo α} {log : Log α}

/-- A memo has an entry for each key that was stored. -/
theorem entries_length (mirrors : m.Mirrors log) : m.entries.length = log.keys.length := by
  have same : (m.entries.map Prod.fst).Perm log.keys := by
    refine (List.perm_ext_iff_of_nodup mirrors.once (List.nodup_dedup _)).mpr fun key => ?_
    rw [← lookup_isSome_iff_mem]
    show (m.find? key).isSome = true ↔ key ∈ log.keys
    rw [mirrors.find?, Log.mem_keys]
  rw [← same.length_eq, List.length_map]

theorem stats (mirrors : m.Mirrors log) : m.stats = log.stats := by
  rw [Memo.stats, Log.stats, mirrors.hits, mirrors.misses, mirrors.entries_length]

theorem hit (mirrors : m.Mirrors log) (key : CacheKey) :
    ({ m with hits := m.hits + 1 } : Memo α).Mirrors (.lookup key true :: log) where
  find? := mirrors.find?
  once := mirrors.once
  hits := by simp [Log.lookups_lookup, mirrors.hits]
  misses := by simp [Log.lookups_lookup, mirrors.misses]

theorem miss (mirrors : m.Mirrors log) (key : CacheKey) :
    ({ m with misses := m.misses + 1 } : Memo α).Mirrors (.lookup key false :: log) where
  find? := mirrors.find?
  once := mirrors.once
  hits := by simp [Log.lookups_lookup, mirrors.hits]
  misses := by simp [Log.lookups_lookup, mirrors.misses]

theorem store (mirrors : m.Mirrors log) (key : CacheKey) (series : Series α) :
    (m.store key series).Mirrors (.store key series :: log) where
  find? k := by rw [find?_store, mirrors.find?, Log.latest_store]
  once := by
    show ((put key series m.entries).map Prod.fst).Nodup
    rw [keys_put]
    split
    next => exact mirrors.once
    next absent =>
      refine mirrors.once.append (List.nodup_singleton key) ?_
      simpa using absent
  hits := mirrors.hits
  misses := mirrors.misses

end Mirrors

/-- A memo as it is made: new, or with room for so many series. -/
def start : Option Nat → Memo α
  | none => .empty
  | some capacity => .withCapacity capacity

end Memo

/-- Asking for a series together with a producer, on a memo that mirrors a log: a series that was
stored is the answer whatever the producer, and else the producer is run once. -/
theorem Cache.getOrCompute_mirrors {m : Memo α} {log : Log α} (mirrors : m.Mirrors log)
    (key : CacheKey) (produce : Producer σ α) (s : σ) :
    (Cache.memo m).getOrCompute key produce s = match log.latest key with
      | some series => (series, .memo { m with hits := m.hits + 1 }, s)
      | none => ((produce s).1,
          .memo ({ m with misses := m.misses + 1 }.store key (produce s).1), (produce s).2) := by
  have found := mirrors.find? key
  cases held : log.latest key with
  | some series =>
      simp only [getOrCompute, Cache.lookup, Memo.lookup_some (found.trans held)]
  | none =>
      simp only [getOrCompute, Cache.lookup, Memo.lookup_none (found.trans held), Cache.store]

namespace Request

/-- A memo that mirrors a log answers a request as the log tells, and mirrors the log afterwards. -/
theorem run_mirrors {m : Memo α} {log : Log α} (mirrors : m.Mirrors log) (request : Request σ α)
    (s : σ) :
    ∃ m', request.run (.memo m) s =
        ((request.replay log s).1, .memo m', (request.replay log s).2.2) ∧
      m'.Mirrors (request.replay log s).2.1 := by
  cases request with
  | lookup key =>
      have found := mirrors.find? key
      cases held : log.latest key with
      | some series =>
          simp only [run, replay, Cache.lookup, Memo.lookup_some (found.trans held), held]
          exact ⟨_, rfl, mirrors.hit key⟩
      | none =>
          simp only [run, replay, Cache.lookup, Memo.lookup_none (found.trans held), held]
          exact ⟨_, rfl, mirrors.miss key⟩
  | store key series => exact ⟨_, rfl, mirrors.store key series⟩
  | getOrCompute key produce =>
      -- the lookup inside is written down first, and the store only if it failed
      have answer := Cache.getOrCompute_mirrors mirrors key produce s
      cases held : log.latest key with
      | some series =>
          simp only [held] at answer
          simp only [run, replay, answer, held]
          exact ⟨_, rfl, mirrors.hit key⟩
      | none =>
          simp only [held] at answer
          simp only [run, replay, answer, held]
          exact ⟨_, rfl, (mirrors.miss key).store key (produce s).1⟩
  | contains key =>
      refine ⟨m, ?_, mirrors⟩
      simp only [run, replay, Cache.contains, Memo.contains, mirrors.find?]
  | stats =>
      refine ⟨m, ?_, mirrors⟩
      simp only [run, replay, Cache.stats, mirrors.stats]
  | clear => exact ⟨.empty, rfl, ⟨fun _ => rfl, List.nodup_nil, rfl, rfl⟩⟩

theorem runAll_mirrors {m : Memo α} {log : Log α} (mirrors : m.Mirrors log)
    (requests : List (Request σ α)) (s : σ) :
    ∃ m', runAll requests (.memo m) s =
        ((replayAll requests log s).1, .memo m', (replayAll requests log s).2.2) ∧
      m'.Mirrors (replayAll requests log s).2.1 := by
  induction requests generalizing m log s with
  | nil => exact ⟨m, rfl, mirrors⟩
  | cons request rest ih =>
      obtain ⟨next, answer, mirrors⟩ := run_mirrors mirrors request s
      obtain ⟨last, answers, mirrors⟩ := ih mirrors (request.replay log s).2.2
      refine ⟨last, ?_, mirrors⟩
      simp only [runAll, replayAll, answer, answers]

end Request

/-- What several producers make, each run once and in turn. -/
def Producer.runAll : List (Producer σ α) → σ → List (Series α) × σ
  | [], s => ([], s)
  | produce :: rest, s =>
    let (series, s) := produce s
    let (more, s) := runAll rest s
    (series :: more, s)

/-- A cache that is off runs every producer. -/
theorem Request.runAll_off (calls : List (CacheKey × Producer σ α)) (s : σ) :
    runAll (calls.map fun call => .getOrCompute call.1 call.2) .off s =
      ((Producer.runAll (calls.map Prod.snd) s).1.map .series, .off,
        (Producer.runAll (calls.map Prod.snd) s).2) := by
  induction calls generalizing s with
  | nil => rfl
  | cons call rest ih =>
      simp only [List.map_cons, runAll, run, Cache.getOrCompute, Cache.lookup, Cache.store, ih,
        Producer.runAll]

/-- What a computation fetches is asked for together with a producer that keeps no state. -/
theorem Cached.getOrCompute_pure (key : CacheKey) (series : Series α) (c : Cache α) :
    c.getOrCompute key (fun s => (series, s)) () =
      (((fetch key (pure series)).run c).1, ((fetch key (pure series)).run c).2, ()) := by
  rw [Cache.getOrCompute, fetch, run_bind, find, run]
  obtain ⟨found, c'⟩ := c.lookup key
  cases found <;> rfl

/-- A memo is the map that a log tells, with its counters. -/
structure Memo.Reflects (m : Memo α) (log : Log α) : Prop where
  /-- A lookup gives the series stored last. -/
  lookup : ∀ key, (m.lookup key).1 = log.latest key
  contains : ∀ key, m.contains key = (log.latest key).isSome
  /-- The lookups that found their key, those that did not, and the keys stored are counted. -/
  stats : m.stats = log.stats
  /-- A producer is run once where nothing was stored, and not at all otherwise. -/
  getOrCompute : ∀ {σ : Type} key (produce : Producer σ α) (s : σ),
    (Cache.memo m).getOrCompute key produce s = match log.latest key with
      | some series => (series, .memo { m with hits := m.hits + 1 }, s)
      | none => ((produce s).1,
          .memo ({ m with misses := m.misses + 1 }.store key (produce s).1), (produce s).2)
  /-- Storing counts as no lookup. -/
  store : ∀ key series, (m.store key series).hits = m.hits ∧ (m.store key series).misses = m.misses

theorem Memo.Mirrors.reflects {m : Memo α} {log : Log α} (mirrors : m.Mirrors log) :
    m.Reflects log where
  lookup key := by
    rw [← mirrors.find?, Memo.lookup]
    cases m.find? key <;> rfl
  contains key := by rw [Memo.contains, mirrors.find?]
  stats := mirrors.stats
  getOrCompute key produce s := Cache.getOrCompute_mirrors mirrors key produce s
  store _ _ := ⟨rfl, rfl⟩

/-- A memo is a map with counters. Whatever is asked of one that is new, in any order, the answers
and the state of the producers are those that the log of the requests tells, and the memo reflects
that log. A cache that is off runs every producer instead. -/
theorem Request.memo_replays (capacity : Option Nat) (requests : List (Request σ α)) (s : σ) :
    (∃ m, runAll requests (.memo (.start capacity)) s =
        ((replayAll requests [] s).1, .memo m, (replayAll requests [] s).2.2) ∧
      m.Reflects (replayAll requests [] s).2.1) ∧
    ∀ (calls : List (CacheKey × Producer σ α)) s,
      runAll (calls.map fun call => .getOrCompute call.1 call.2) .off s =
        ((Producer.runAll (calls.map Prod.snd) s).1.map .series, .off,
          (Producer.runAll (calls.map Prod.snd) s).2) := by
  refine ⟨?_, runAll_off⟩
  have new : (Memo.start capacity : Memo α).Mirrors [] := by
    cases capacity <;> exact Memo.mirrors_empty
  obtain ⟨m, answers, mirrors⟩ := runAll_mirrors new requests s
  exact ⟨m, answers, mirrors.reflects⟩

/-- A producer that counts its runs makes a series twice, before and after the clear. -/
example :
    let key : CacheKey := ⟨"EMA", "3", ⟨1⟩⟩
    let ask : Request Nat Nat := .getOrCompute key fun runs => ([runs], runs + 1)
    let (replies, _, runs) := Request.runAll [ask, ask, .stats, .clear, ask] (.memo .empty) 0
    replies = [.series [0], .series [0], .counters ⟨1, 1, 1⟩, .done, .series [1]] ∧ runs = 2 := by
  decide

end Chartist

import Chartist.Cache
import Chartist.Proofs.Lookup

/-!
# Requests to a cache

What a `Cached` computation does to a cache, request by request: running one computation
after another (`run_bind`), the keys whose lookups failed on the way (`failed`), the memo that
is left (`after`), and a memo after several series were stored (`storeAll`). No request loses an
entry (`lacks_of_after`). `lookup_missed` sums up a request that the memo does not answer.
-/

namespace Chartist

variable {α β γ : Type}

/-! ## Entries of a memo -/

namespace Memo

/-- No series is kept under the key. -/
def Lacks (m : Memo α) (key : CacheKey) : Prop := ∀ series, (key, series) ∉ m.entries

theorem find?_mem {m : Memo α} {key : CacheKey} {series : Series α}
    (found : m.find? key = some series) : (key, series) ∈ m.entries :=
  mem_of_lookup found

theorem find?_eq_none {m : Memo α} {key : CacheKey} : m.find? key = none ↔ m.Lacks key := by
  unfold find? Lacks
  rw [List.lookup_eq_none_iff]
  constructor
  · intro absent series member
    exact absurd (absent _ member) (by simp)
  · intro lacks entry member
    by_contra equal
    have same : key = entry.1 := by simpa using equal
    exact lacks entry.2 (by rw [same]; exact member)

/-- A lookup that succeeds is a hit. -/
theorem lookup_some {m : Memo α} {key : CacheKey} {series : Series α}
    (found : m.find? key = some series) :
    m.lookup key = (some series, { m with hits := m.hits + 1 }) := by
  rw [lookup, found]

/-- A lookup that fails is a miss. -/
theorem lookup_none {m : Memo α} {key : CacheKey} (absent : m.find? key = none) :
    m.lookup key = (none, { m with misses := m.misses + 1 }) := by
  rw [lookup, absent]

/-- A lookup changes no entry. -/
theorem lacks_lookup {m : Memo α} {key k : CacheKey} : (m.lookup key).2.Lacks k ↔ m.Lacks k := by
  unfold lookup
  split <;> rfl

theorem contains_iff {m : Memo α} {key : CacheKey} : m.contains key = true ↔ ¬ m.Lacks key := by
  rw [contains, Option.isSome_iff_ne_none, ne_eq, find?_eq_none]

theorem put_fresh {key : CacheKey} {series : Series α} {entries : List (CacheKey × Series α)}
    (fresh : ∀ old, (key, old) ∉ entries) :
    put key series entries = entries ++ [(key, series)] := by
  induction entries with
  | nil => rfl
  | cons entry rest ih =>
      obtain ⟨k, s⟩ := entry
      have other : k ≠ key := by
        rintro rfl
        exact fresh s List.mem_cons_self
      rw [put, if_neg other, ih fun old member => fresh old (List.mem_cons_of_mem _ member)]
      rfl

theorem lookup_put (key : CacheKey) (series : Series α) (entries : List (CacheKey × Series α))
    (k : CacheKey) :
    (put key series entries).lookup k = if k = key then some series else entries.lookup k := by
  induction entries with
  | nil => rw [put, lookup_cons_if]
  | cons entry rest ih =>
      obtain ⟨held, old⟩ := entry
      rw [put]
      split
      next replaced =>
        subst replaced
        simp only [lookup_cons_if]
        split <;> rfl
      next other =>
        rw [lookup_cons_if, lookup_cons_if, ih]
        by_cases here : k = held
        · simp [here, other]
        · simp [here]

theorem find?_store (m : Memo α) (key : CacheKey) (series : Series α) (k : CacheKey) :
    (m.store key series).find? k = if k = key then some series else m.find? k :=
  lookup_put key series m.entries k

theorem lacks_store {m : Memo α} {key : CacheKey} {series : Series α} {k : CacheKey} :
    (m.store key series).Lacks k ↔ k ≠ key ∧ m.Lacks k := by
  rw [← find?_eq_none, ← find?_eq_none, find?_store]
  split
  next same => simp [same]
  next other => simp [other]

theorem mem_put {key : CacheKey} {series : Series α} {entries : List (CacheKey × Series α)}
    {entry : CacheKey × Series α} (member : entry ∈ put key series entries) :
    entry = (key, series) ∨ entry ∈ entries := by
  induction entries with
  | nil => exact .inl (List.mem_singleton.mp member)
  | cons first rest ih =>
      unfold put at member
      split at member
      · rcases List.mem_cons.mp member with here | later
        · exact .inl here
        · exact .inr (List.mem_cons_of_mem _ later)
      · rcases List.mem_cons.mp member with here | later
        · exact .inr (here ▸ List.mem_cons_self)
        · exact (ih later).imp_right (List.mem_cons_of_mem _)

/-- The memo with several series kept, one after the other. -/
def storeAll (m : Memo α) : List (CacheKey × Series α) → Memo α
  | [] => m
  | (key, series) :: rest => (m.store key series).storeAll rest

@[simp] theorem storeAll_hits (m : Memo α) (news : List (CacheKey × Series α)) :
    (m.storeAll news).hits = m.hits := by
  induction news generalizing m with
  | nil => rfl
  | cons entry rest ih => exact ih _

@[simp] theorem storeAll_misses (m : Memo α) (news : List (CacheKey × Series α)) :
    (m.storeAll news).misses = m.misses := by
  induction news generalizing m with
  | nil => rfl
  | cons entry rest ih => exact ih _

/-- Series under keys that are new, each key once, are added at the end. -/
theorem storeAll_entries {m : Memo α} {news : List (CacheKey × Series α)}
    (distinct : (news.map Prod.fst).Nodup) (fresh : ∀ entry ∈ news, m.Lacks entry.1) :
    (m.storeAll news).entries = m.entries ++ news := by
  induction news generalizing m with
  | nil => simp [storeAll]
  | cons entry rest ih =>
      obtain ⟨key, series⟩ := entry
      rw [List.map_cons, List.nodup_cons] at distinct
      have stored : (m.store key series).entries = m.entries ++ [(key, series)] :=
        put_fresh (fresh (key, series) List.mem_cons_self)
      rw [storeAll, ih distinct.2 ?_, stored, List.append_assoc, List.singleton_append]
      intro later member old held
      rw [stored, List.mem_append] at held
      rcases held with held | held
      · exact fresh later (List.mem_cons_of_mem _ member) old held
      · have same : later.1 = key := (Prod.mk.inj (List.mem_singleton.mp held)).1
        exact distinct.1 (List.mem_map.mpr ⟨later, member, same⟩)

theorem lacks_storeAll {m : Memo α} {news : List (CacheKey × Series α)} {k : CacheKey} :
    (m.storeAll news).Lacks k ↔ k ∉ news.map Prod.fst ∧ m.Lacks k := by
  induction news generalizing m with
  | nil => simp [storeAll]
  | cons entry rest ih =>
      rw [storeAll, ih, lacks_store, List.map_cons, List.mem_cons, not_or]
      tauto

theorem mem_storeAll {m : Memo α} {news : List (CacheKey × Series α)}
    {entry : CacheKey × Series α} (member : entry ∈ (m.storeAll news).entries) :
    entry ∈ news ∨ entry ∈ m.entries := by
  induction news generalizing m with
  | nil => exact .inr member
  | cons first rest ih =>
      rcases ih member with later | stored
      · exact .inl (List.mem_cons_of_mem _ later)
      · rcases mem_put stored with here | early
        · exact .inl (here ▸ List.mem_cons_self)
        · exact .inr early

end Memo

/-! ## Runs of computations -/

namespace Cached

theorem run_bind (x : Cached α β) (f : β → Cached α γ) (c : Cache α) :
    (x >>= f).run c = (f (x.run c).1).run (x.run c).2 := by
  induction x generalizing c with
  | answer b => rfl
  | lookup key next ih => exact ih _ _
  | store key series next ih => exact ih _

/-- The keys whose lookups fail in a run that starts from a memo, in turn. -/
def failed : Cached α β → Memo α → List CacheKey
  | answer _, _ => []
  | lookup key next, m =>
    match m.lookup key with
    | (some hit, m) => (next (some hit)).failed m
    | (none, m) => key :: (next none).failed m
  | store key series next, m => next.failed (m.store key series)

theorem failed_bind {x : Cached α β} (f : β → Cached α γ) {m m' : Memo α} {b : β}
    (run : x.run (.memo m) = (b, .memo m')) :
    (x >>= f).failed m = x.failed m ++ (f b).failed m' := by
  induction x generalizing m with
  | answer result =>
      obtain ⟨rfl, same⟩ := Prod.mk.inj run
      cases same
      rfl
  | lookup key next ih =>
      show (Cached.lookup key fun found => next found >>= f).failed m = _
      cases found : m.find? key with
      | some hit =>
          simp only [Cached.run, Cache.lookup, Memo.lookup_some found] at run
          simp only [failed, Memo.lookup_some found]
          exact ih _ run
      | none =>
          simp only [Cached.run, Cache.lookup, Memo.lookup_none found] at run
          simp only [failed, Memo.lookup_none found]
          exact congrArg (key :: ·) (ih _ run)
  | store key series next ih => exact ih run

/-- A memo after a run that starts from it. -/
def after : Cached α β → Memo α → Memo α
  | answer _, m => m
  | lookup key next, m => (next (m.lookup key).1).after (m.lookup key).2
  | store key series next, m => next.after (m.store key series)

theorem run_memo (x : Cached α β) (m : Memo α) : (x.run (.memo m)).2 = .memo (x.after m) := by
  induction x generalizing m with
  | answer b => rfl
  | lookup key next ih => exact ih _ _
  | store key series next ih => exact ih _

theorem after_eq {x : Cached α β} {m m' : Memo α} {b : β}
    (run : x.run (.memo m) = (b, .memo m')) : x.after m = m' := by
  have memos := x.run_memo m
  rw [run] at memos
  exact (Cache.memo.inj memos).symm

theorem after_bind {x : Cached α β} {f : β → Cached α γ} {m m' : Memo α} {b : β}
    (run : x.run (.memo m) = (b, .memo m')) : (x >>= f).after m = (f b).after m' := by
  have memos := (x >>= f).run_memo m
  rw [run_bind, run, run_memo] at memos
  exact (Cache.memo.inj memos).symm

/-- Entries are never lost. -/
theorem lacks_of_after {x : Cached α β} {m : Memo α} {k : CacheKey} (lacks : (x.after m).Lacks k) :
    m.Lacks k := by
  induction x generalizing m with
  | answer b => exact lacks
  | lookup key next ih => exact Memo.lacks_lookup.mp (ih _ lacks)
  | store key series next ih => exact (Memo.lacks_store.mp (ih lacks)).2

theorem lacks_of_after_bind {x : Cached α β} {f : β → Cached α γ} {m : Memo α} {k : CacheKey}
    (lacks : ((x >>= f).after m).Lacks k) : (x.after m).Lacks k := by
  have run : x.run (.memo m) = ((x.run (.memo m)).1, .memo (x.after m)) :=
    Prod.ext rfl (x.run_memo m)
  rw [after_bind run] at lacks
  exact lacks_of_after lacks

/-- A lookup fails only if nothing was kept under its key from the start. -/
theorem lacks_of_failed {x : Cached α β} {m : Memo α} {k : CacheKey} (failed : k ∈ x.failed m) :
    m.Lacks k := by
  induction x generalizing m with
  | answer b => exact absurd failed List.not_mem_nil
  | lookup key next ih =>
      cases found : m.find? key with
      | some hit =>
          rw [Cached.failed, Memo.lookup_some found] at failed
          have early := ih _ failed
          exact early
      | none =>
          rw [Cached.failed, Memo.lookup_none found] at failed
          rcases List.mem_cons.mp failed with rfl | failed
          · exact Memo.find?_eq_none.mp found
          · have early := ih _ failed
            exact early
  | store key series next ih => exact (Memo.lacks_store.mp (ih failed)).2

/-- A memo counts the lookups that fail. -/
theorem misses_after (x : Cached α β) (m : Memo α) :
    (x.after m).misses = m.misses + (x.failed m).length := by
  induction x generalizing m with
  | answer b => rfl
  | lookup key next ih =>
      cases found : m.find? key with
      | some hit => simp only [after, failed, Memo.lookup_some found, ih]
      | none =>
          simp only [after, failed, Memo.lookup_none found, ih, List.length_cons]
          omega
  | store key series next ih => exact ih _

/-- Has several series kept. -/
def keepAll : List (CacheKey × Series α) → Cached α Unit
  | [] => answer ()
  | (key, series) :: rest => store key series (keepAll rest)

theorem run_keepAll (news : List (CacheKey × Series α)) (m : Memo α) :
    (keepAll news).run (.memo m) = ((), .memo (m.storeAll news)) := by
  induction news generalizing m with
  | nil => rfl
  | cons entry rest ih => exact ih _

theorem failed_keepAll (news : List (CacheKey × Series α)) (m : Memo α) :
    (keepAll news).failed m = [] := by
  induction news generalizing m with
  | nil => rfl
  | cons entry rest ih => exact ih _

/-- A request that is not answered: the series is computed, and what came of it is stored. -/
theorem lookup_missed {m m' : Memo α} {key : CacheKey} {next : Option (Series α) → Cached α β}
    {produce : Cached α γ} {finish : γ → Cached α β} {x : γ} {news : List (CacheKey × Series α)}
    {b : β} (absent : m.Lacks key) (missed : next none = produce >>= finish)
    (run : produce.run (.memo { m with misses := m.misses + 1 }) = (x, .memo m'))
    (kept : finish x = keepAll news >>= fun _ => pure b) :
    (lookup key next).run (.memo m) = (b, .memo (m'.storeAll news)) ∧
      (lookup key next).failed m = key :: produce.failed { m with misses := m.misses + 1 } := by
  have lost := Memo.lookup_none (Memo.find?_eq_none.mpr absent)
  constructor
  · simp only [Cached.run, Cache.lookup, lost, missed]
    rw [run_bind, run, kept, run_bind, run_keepAll]
    rfl
  · simp only [failed, lost, missed]
    rw [failed_bind finish run, kept, failed_bind _ (run_keepAll _ _), failed_keepAll]
    simp [pure, failed]

end Cached

end Chartist

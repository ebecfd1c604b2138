import Chartist.Proofs.Cache.Node
import Mathlib.Algebra.Order.BigOperators.Group.Finset

/-!
# What a computation does to a memo

`Holds` is the invariant of a memo: its entries are the results of a set of finished nodes
that is closed under needs, one lookup has failed for each of them, and every lookup was
either asked for from outside or by a node while it was computed.

`Visits` says of a computation which nodes it asks for. It fixes the answer on every memo that
holds finished nodes, as long as keys tell all the nodes apart, and the whole effect on that memo:
the nodes it asks for and their needs are finished afterwards. The rules for sequencing
(`Visits.bind`) and for one request (`Visits.request`) are all that is needed to read `Visits` off
a computation.
-/

namespace Chartist

variable {α β γ : Type} [Scalar α]

noncomputable instance : DecidableEq (Node α) := Classical.decEq _

/-- Some nodes and all that they need. -/
noncomputable def Node.reach (nodes : List (Node α)) : Finset (Node α) :=
  (Node.closure nodes).toFinset

theorem Node.mem_reach {nodes : List (Node α)} {n : Node α} :
    n ∈ Node.reach nodes ↔ n ∈ nodes ∨ ∃ m ∈ nodes, n ∈ m.needs := by
  rw [Node.reach, List.mem_toFinset, Node.mem_closure]

theorem Node.reach_append (nodes nodes' : List (Node α)) :
    Node.reach (nodes ++ nodes') = Node.reach nodes ∪ Node.reach nodes' := by
  ext n
  simp only [Finset.mem_union, Node.mem_reach, List.mem_append]
  aesop

/-- What nodes reach does not depend on their order. -/
theorem Node.reach_perm {nodes nodes' : List (Node α)} (perm : nodes.Perm nodes') :
    Node.reach nodes = Node.reach nodes' := by
  ext n
  simp only [Node.mem_reach, perm.mem_iff]

/-- What a node reaches is the node itself and what its needs reach. -/
theorem Node.insert_reach_needs (done : Finset (Node α)) (n : Node α) :
    insert n (done ∪ Node.reach n.needs) = done ∪ Node.reach [n] := by
  have leaves : ∀ d, (∃ m ∈ n.needs, d ∈ m.needs) ↔ False := by
    refine fun d => iff_false_intro fun ⟨m, need, deeper⟩ => ?_
    rw [Node.needs_of_mem_needs need] at deeper
    exact List.not_mem_nil deeper
  ext d
  simp only [Finset.mem_insert, Finset.mem_union, Node.mem_reach, leaves, List.mem_singleton,
    exists_eq_left, or_false]
  exact or_left_comm

/-- What the needs of a node reach does not lead back to it. -/
theorem Node.not_mem_reach_needs (n : Node α) : n ∉ Node.reach n.needs := by
  rw [Node.mem_reach]
  rintro (need | ⟨d, need, deeper⟩)
  · exact n.not_mem_needs need
  · rw [Node.needs_of_mem_needs need] at deeper
    exact List.not_mem_nil deeper

/-! ## The invariant -/

variable [Fingerprint α]

/-- A memo holds the results of the nodes `done` and nothing else. So far `asked` lookups came
from outside, and `waiting` nodes are looked up but not yet finished. -/
structure Holds (done : Finset (Node α)) (waiting asked : Nat) (m : Memo α) : Prop where
  closed : ∀ n ∈ done, ∀ d ∈ n.needs, d ∈ done
  entries : (m.entries : Multiset (CacheKey × Series α)) =
    done.val.bind fun n => (n.results : Multiset (CacheKey × Series α))
  misses : m.misses = done.card + waiting
  lookups : m.hits + m.misses = asked + ∑ n ∈ done, n.needs.length

namespace Holds

variable {done : Finset (Node α)} {waiting asked : Nat} {m : Memo α} {n : Node α}

theorem empty : Holds ∅ 0 0 (Memo.empty : Memo α) where
  closed n member := absurd member (Finset.notMem_empty n)
  entries := rfl
  misses := rfl
  lookups := rfl

theorem mem_entries (held : Holds done waiting asked m) {k : CacheKey} {s : Series α} :
    (k, s) ∈ m.entries ↔ ∃ n ∈ done, (k, s) ∈ n.results := by
  rw [← Multiset.mem_coe, held.entries]
  simp

/-- A finished node is found under each of its keys. -/
theorem find? (held : Holds done waiting asked m) (distinct : Node.Distinct (done : Set (Node α)))
    (finished : n ∈ done) {k : CacheKey} {s : Series α} (member : (k, s) ∈ n.results) :
    m.find? k = some s := by
  cases found : m.find? k with
  | none =>
      exact absurd (held.mem_entries.mpr ⟨n, finished, member⟩) (Memo.find?_eq_none.mp found s)
  | some s' =>
      obtain ⟨n', finished', member'⟩ := held.mem_entries.mp (Memo.find?_mem found)
      obtain rfl := distinct n finished n' finished' k s s' member member'
      rw [Node.series_of_key member member']

/-- Nothing is kept under the keys of a node that is not finished. -/
theorem lacks (held : Holds done waiting asked m)
    (distinct : Node.Distinct (insert n done : Set (Node α))) (fresh : n ∉ done) {k : CacheKey}
    {s : Series α} (member : (k, s) ∈ n.results) : m.Lacks k := by
  intro s' kept
  obtain ⟨n', finished, member'⟩ := held.mem_entries.mp kept
  have same : n = n' :=
    distinct n (Set.mem_insert _ _) n' (Set.mem_insert_of_mem _ finished) k s s' member member'
  exact fresh (same ▸ finished)

/-- One more lookup from outside that succeeds. -/
theorem hit (held : Holds done waiting asked m) (count : Nat) :
    Holds done waiting (asked + count) { m with hits := m.hits + count } where
  closed := held.closed
  entries := held.entries
  misses := held.misses
  lookups := by
    have := held.lookups
    simp only
    omega

/-- One more lookup from outside that fails. -/
theorem miss (held : Holds done waiting asked m) :
    Holds done (waiting + 1) (asked + 1) { m with misses := m.misses + 1 } where
  closed := held.closed
  entries := held.entries
  misses := by
    have := held.misses
    simp only
    omega
  lookups := by
    have := held.lookups
    simp only
    omega

/-- A node is finished by storing its results. The lookups of its needs, which came from
outside so far, are now its own. -/
theorem finish (held : Holds done (waiting + 1) (asked + n.needs.length) m)
    (distinct : Node.Distinct (insert n done : Set (Node α))) (fresh : n ∉ done)
    (needed : ∀ d ∈ n.needs, d ∈ done) :
    Holds (insert n done) waiting asked (m.storeAll n.results) where
  closed := by
    intro n' finished d need
    rcases Finset.mem_insert.mp finished with rfl | finished
    · exact Finset.mem_insert_of_mem (needed d need)
    · exact Finset.mem_insert_of_mem (held.closed n' finished d need)
  entries := by
    -- nothing is kept under the new keys, so the results are added at the end
    rw [Memo.storeAll_entries n.results_nodup
        (fun entry member => held.lacks distinct fresh (s := entry.2) member),
      Finset.insert_val_of_notMem fresh, Multiset.cons_bind, ← held.entries, Multiset.coe_add]
    exact Multiset.coe_eq_coe.mpr List.perm_append_comm
  misses := by
    rw [Memo.storeAll_misses, Finset.card_insert_of_notMem fresh, held.misses]
    omega
  lookups := by
    rw [Memo.storeAll_misses, Memo.storeAll_hits, Finset.sum_insert fresh, held.lookups]
    omega

/-- Nodes that are finished reach no others. -/
theorem reach_subset (held : Holds done waiting asked m) {nodes : List (Node α)}
    (finished : ∀ n ∈ nodes, n ∈ done) : done ∪ Node.reach nodes = done := by
  refine Finset.union_eq_left.mpr fun d reached => ?_
  rcases Node.mem_reach.mp reached with member | ⟨n, member, need⟩
  · exact finished d member
  · exact held.closed n (finished n member) d need

/-- A memo is fixed by what is finished and how much was asked for, up to the order of its
entries. -/
theorem unique {m' : Memo α} (held : Holds done waiting asked m)
    (held' : Holds done waiting asked m') :
    m.entries.Perm m'.entries ∧ m.stats = m'.stats := by
  have entries : m.entries.Perm m'.entries :=
    Multiset.coe_eq_coe.mp (held.entries.trans held'.entries.symm)
  have misses : m.misses = m'.misses := held.misses.trans held'.misses.symm
  have hits : m.hits = m'.hits := by
    have := held.lookups
    have := held'.lookups
    omega
  exact ⟨entries, by rw [Memo.stats, Memo.stats, hits, misses, entries.length_eq]⟩

end Holds

/-! ## Computations -/

/-- The computation answers `b` and asks for exactly `nodes`, in turn: on a memo whose keys tell
these and the finished nodes apart, the nodes and their needs are finished afterwards. -/
def Visits (c : Cached α β) (b : β) (nodes : List (Node α)) : Prop :=
  ∀ done waiting asked m, Holds done waiting asked m →
    Node.Distinct (↑(done ∪ Node.reach nodes) : Set (Node α)) →
    ∃ m', c.run (.memo m) = (b, .memo m') ∧
      Holds (done ∪ Node.reach nodes) waiting (asked + nodes.length) m'

namespace Visits

theorem pure (b : β) : Visits (Pure.pure b : Cached α β) b [] := by
  intro done waiting asked m held _
  refine ⟨m, rfl, ?_⟩
  simpa [Node.reach, Node.closure] using held

theorem bind {x : Cached α β} {f : β → Cached α γ} {b : β} {c : γ}
    {nodes nodes' : List (Node α)} (first : Visits x b nodes) (second : Visits (f b) c nodes') :
    Visits (x >>= f) c (nodes ++ nodes') := by
  intro done waiting asked m held distinct
  rw [Node.reach_append, ← Finset.union_assoc] at distinct ⊢
  obtain ⟨m₁, run₁, held₁⟩ :=
    first _ _ _ _ held (distinct.mono (Finset.coe_subset.mpr Finset.subset_union_left))
  obtain ⟨m₂, run₂, held₂⟩ := second _ _ _ _ held₁ distinct
  refine ⟨m₂, by rw [Cached.run_bind, run₁, run₂], ?_⟩
  rw [List.length_append, ← Nat.add_assoc]
  exact held₂

/-- A request for one series of a node: on a reply the computation ends; otherwise it computes
the node, stores all its results and ends. -/
theorem request {n : Node α} {k : CacheKey} {s : Series α} {b : β} (key : (k, s) ∈ n.results)
    {next : Option (Series α) → Cached α β} (reply : next (some s) = .answer b)
    {produce : Cached α γ} {x : γ} (made : Visits produce x n.needs) {finish : γ → Cached α β}
    (missed : next none = produce >>= finish)
    (kept : finish x = Cached.keepAll n.results >>= fun _ => Pure.pure b) :
    Visits (.lookup k next) b [n] := by
  intro done waiting asked m held distinct
  by_cases finished : n ∈ done
  · rw [held.reach_subset fun d member => List.mem_singleton.mp member ▸ finished] at distinct ⊢
    have found := Memo.lookup_some (held.find? distinct finished key)
    refine ⟨_, ?_, held.hit 1⟩
    simp [Cached.run, Cache.lookup, found, reply]
  -- the node is computed now, so its needs are visited while it is waiting
  rw [← Node.insert_reach_needs, Finset.coe_insert] at distinct
  obtain ⟨m₁, run₁, held₁⟩ := made _ _ _ _ held.miss (distinct.mono (Set.subset_insert _ _))
  have early : Node.Distinct (insert n ↑done : Set (Node α)) :=
    distinct.mono (Set.insert_subset_insert (Finset.coe_subset.mpr Finset.subset_union_left))
  obtain ⟨run, -⟩ := Cached.lookup_missed (held.lacks early finished key) missed run₁ kept
  have fresh : n ∉ done ∪ Node.reach n.needs := by
    rw [Finset.mem_union, not_or]
    exact ⟨finished, n.not_mem_reach_needs⟩
  have stored := held₁.finish distinct fresh fun d need =>
    Finset.mem_union_right _ (Node.mem_reach.mpr (.inl need))
  exact ⟨m₁.storeAll n.results, run, Node.insert_reach_needs done n ▸ stored⟩

end Visits

end Chartist

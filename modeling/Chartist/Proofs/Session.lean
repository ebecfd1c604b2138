import Chartist.Proofs.Cache.Binary64
import Chartist.Proofs.Cache.Indicator
import Chartist.Proofs.Whole

/-!
# Sessions on one memo

A session that starts on an empty memo is followed by its `Ledger`: the memo, what was
evaluated since the memo was last empty, and which lookups failed. As long as the keys tell apart
all that the session computes (`KeyLaws` of its `nodes`), `Ledger.Sound` holds of every ledger
(`Session.sound_ledger`), since a step keeps it (`Ledger.Sound.step`). Binary64 numbers are told
apart by their texts, so there the laws come down to the identities (`Binary64.keyLaws`).

Two statements on whole sessions follow from it: the answers are those without a cache
(`Session.answers_transparent`), and the order of evaluations leaves no trace
(`Session.order_irrelevant`).
-/

namespace Chartist

/-- The ledger of a session: its memo, the evaluations since it was last empty, and the keys
whose lookups failed meanwhile, both in turn. -/
structure Ledger (α : Type) where
  memo : Memo α
  evaluated : List (Evaluation α)
  failed : List CacheKey

variable {α : Type} [Scalar α]

/-! ## What a session computes -/

/-- The nodes that a step asks for. -/
def Step.asks : Step α → List (Node α)
  | .evaluate e => e.asks
  | .clear => []

namespace Session

/-- What the steps of a session ask for, and what that needs. -/
def nodes (steps : List (Step α)) : List (Node α) := Node.closure (steps.flatMap Step.asks)

/-- The bars and series that the keys of a session are made from. -/
def contents (steps : List (Step α)) : Contents α := Node.contents (nodes steps)

theorem mem_nodes {steps : List (Step α)} {n : Node α} :
    n ∈ nodes steps ↔ ∃ s ∈ steps, n ∈ Node.closure s.asks := by
  simp only [nodes, Node.mem_closure, List.mem_flatMap]
  aesop

end Session

variable [Fingerprint α]

namespace Ledger

/-- An empty memo. -/
def start : Ledger α := ⟨.empty, [], []⟩

/-- What a step adds to the ledger. Clearing begins a new one. -/
def step (l : Ledger α) : Step α → Ledger α
  | .evaluate e =>
    ⟨e.answer.after l.memo, l.evaluated ++ [e], l.failed ++ e.answer.failed l.memo⟩
  | .clear => start

/-- The nodes asked for so far. -/
def asks (l : Ledger α) : List (Node α) := l.evaluated.flatMap Evaluation.asks

/-- The memo holds what was asked for and all that it needs, and these nodes are among `nodes`. -/
structure Sound (nodes : List (Node α)) (l : Ledger α) : Prop where
  known : ∀ n ∈ Node.reach l.asks, n ∈ nodes
  holds : Holds (Node.reach l.asks) 0 l.asks.length l.memo

variable {nodes : List (Node α)}

theorem sound_start : (start : Ledger α).Sound nodes where
  known n member := absurd member (Finset.notMem_empty n)
  holds := .empty

/-- An evaluation on the memo of a sound ledger answers as without a cache, and leaves a sound
ledger. -/
theorem Sound.evaluate (distinct : Node.Distinct {n | n ∈ nodes}) {l : Ledger α}
    (sound : l.Sound nodes) {e : Evaluation α} (met : ∀ n ∈ Node.closure e.asks, n ∈ nodes) :
    e.answer.run (.memo l.memo) = (e.answer.uncached, .memo (l.step (.evaluate e)).memo) ∧
      (l.step (.evaluate e)).Sound nodes := by
  have known : ∀ n ∈ Node.reach l.asks ∪ Node.reach e.asks, n ∈ nodes := by
    intro n member
    rcases Finset.mem_union.mp member with early | new
    · exact sound.known n early
    · exact met n (List.mem_toFinset.mp new)
  obtain ⟨m, run, held⟩ := e.visits _ _ _ _ sound.holds (distinct.mono known)
  obtain rfl := Cached.after_eq run
  have asks : (l.step (.evaluate e)).asks = l.asks ++ e.asks := by simp [Ledger.asks, step]
  refine ⟨run, ?_, ?_⟩
  · rw [asks, Node.reach_append]
    exact known
  · rw [asks, Node.reach_append, List.length_append]
    exact held

/-- A ledger stays sound. -/
theorem Sound.step (distinct : Node.Distinct {n | n ∈ nodes}) {l : Ledger α}
    (sound : l.Sound nodes) {s : Step α} (met : ∀ n ∈ Node.closure s.asks, n ∈ nodes) :
    (l.step s).Sound nodes := by
  cases s with
  | evaluate e => exact (sound.evaluate distinct met).2
  | clear => exact sound_start

theorem Sound.run (distinct : Node.Distinct {n | n ∈ nodes}) {l : Ledger α}
    (sound : l.Sound nodes) {steps : List (Step α)}
    (met : ∀ n ∈ Session.nodes steps, n ∈ nodes) : (steps.foldl Ledger.step l).Sound nodes := by
  simp only [Session.mem_nodes] at met
  induction steps generalizing l with
  | nil => exact sound
  | cons s rest ih =>
      have here := sound.step distinct fun n member => met n ⟨s, List.mem_cons_self, member⟩
      exact ih here fun n ⟨s', later, member⟩ => met n ⟨s', List.mem_cons_of_mem _ later, member⟩

end Ledger

namespace Session

/-- The ledger of a session that starts on an empty memo. -/
def ledger (steps : List (Step α)) : Ledger α := steps.foldl Ledger.step .start

theorem sound_ledger {steps : List (Step α)} (laws : KeyLaws (nodes steps)) :
    (ledger steps).Sound (nodes steps) :=
  Ledger.sound_start.run laws.distinct fun _ member => member

/-- The memo of a session goes from ledger to ledger. -/
theorem run_snd (steps : List (Step α)) (l : Ledger α) :
    (Session.run steps (.memo l.memo)).2 = .memo (steps.foldl Ledger.step l).memo := by
  induction steps generalizing l with
  | nil => rfl
  | cons s rest ih =>
      have next : (s.run (.memo l.memo)).2 = .memo (l.step s).memo := by
        cases s with
        | evaluate e => exact e.answer.run_memo l.memo
        | clear => rfl
      rw [List.foldl_cons, ← ih, ← next]
      rfl

/-! ## Answers -/

/-- On a sound ledger, a session answers as without a cache. -/
theorem run_fst {known : List (Node α)} (distinct : Node.Distinct {n | n ∈ known})
    {l : Ledger α} (sound : l.Sound known) {steps : List (Step α)}
    (met : ∀ n ∈ nodes steps, n ∈ known) :
    (Session.run steps (.memo l.memo)).1 = steps.map fun s => (s.run .off).1 := by
  simp only [mem_nodes] at met
  induction steps generalizing l with
  | nil => rfl
  | cons s rest ih =>
      have here : ∀ n ∈ Node.closure s.asks, n ∈ known := fun n member =>
        met n ⟨s, List.mem_cons_self, member⟩
      have next : s.run (.memo l.memo) = ((s.run .off).1, .memo (l.step s).memo) := by
        cases s with
        | evaluate e =>
            simp only [Step.run, (sound.evaluate distinct here).1, e.answer.run_off]
        | clear => rfl
      have later := ih (sound.step distinct here) fun n ⟨s', later, member⟩ =>
        met n ⟨s', List.mem_cons_of_mem _ later, member⟩
      rw [List.map_cons, ← later, Session.run, next]

/-- A session on one memo answers each of its steps as without a cache, whatever is evaluated
and over whatever bars. It takes that the texts of numbers and the identities of contents are told
apart among those that the session meets. -/
theorem answers_transparent (steps : List (Step α)) (laws : KeyLaws (nodes steps)) :
    (Session.run steps (.memo .empty)).1 = steps.map fun s => (s.run .off).1 :=
  run_fst laws.distinct Ledger.sound_start fun _ member => member

/-- A cascade over its own stages, a stop, and the cascade again on a cleared memo. -/
def wholeSteps : List (Step Whole) :=
  [.evaluate (.execute (.onPrice .close (.cascade .double 1)) Whole.twoBars),
    .evaluate (.stop (.chandelier 1 ⟨1⟩) Whole.twoBars ⟨⟨4⟩, 0, true, [⟨4⟩, ⟨8⟩]⟩),
    .clear,
    .evaluate (.execute (.onPrice .close (.cascade .double 1)) Whole.twoBars)]

/-- A cascade, a filter and a band with fractions among their parameters over bars without a close
at their end, a stop, and the cascade again on a cleared memo. -/
def gapSteps : List (Step Float) :=
  [.evaluate (.execute (.onPrice .close (.cascade .double 2)) Binary64.gapBars),
    .evaluate (.execute (.onPrice .close (.laguerre 0.8)) Binary64.gapBars),
    .evaluate (.execute (.onOutput .close (.bollinger 2 1.5) "upper") Binary64.gapBars),
    .evaluate (.stop (.chandelier 1 2.5) Binary64.gapBars
      (.new 4 0 true [4.5, 5.5] [3.75, 4.25])),
    .clear,
    .evaluate (.execute (.onPrice .close (.cascade .double 2)) Binary64.loneBar),
    .evaluate (.execute (.onPrice .close (.cascade .double 2)) Binary64.gapBars)]

theorem collisionFree_gapSteps : Fingerprint.CollisionFree (contents gapSteps) := by
  show Fingerprint.CollisionFree (Node.contents (nodes gapSteps))
  decide +kernel

/-- Whole numbers, whose laws hold of every session, and binary64 numbers. -/
theorem answers_transparent_samples :
    (KeyLaws (nodes wholeSteps) ∧
      (Session.run wholeSteps (.memo .empty)).1 = wholeSteps.map (fun s => (s.run .off).1) ∧
      (Session.run wholeSteps (.memo .empty)).1 =
        [some [⟨4⟩, ⟨6⟩], some [⟨2⟩, ⟨4⟩], none, some [⟨4⟩, ⟨6⟩]]) ∧
    KeyLaws (nodes gapSteps) ∧
      (Session.run gapSteps (.memo .empty)).1 = gapSteps.map (fun s => (s.run .off).1) ∧
      (Session.run gapSteps (.memo .empty)).1 =
        [some [4.25, 4.916666666666667, Scalar.nan], some [4.25, 4.2542, Scalar.nan],
          some [4.25, 5.1875, Scalar.nan], some [2.625, 2.625, 0], none,
          some [100.90790025959723], some [4.25, 4.916666666666667, Scalar.nan]] := by
  have whole := answers_transparent wholeSteps (Whole.keyLaws _)
  have laws := Binary64.keyLaws collisionFree_gapSteps
  have gap := answers_transparent gapSteps laws
  exact ⟨⟨Whole.keyLaws _, whole, whole.trans rfl⟩, laws, gap, by decide +kernel⟩

/-! ## Order -/

theorem evaluated_ledger (es : List (Evaluation α)) :
    (ledger (es.map .evaluate)).evaluated = es := by
  have grown (l : Ledger α) :
      ((es.map Step.evaluate).foldl Ledger.step l).evaluated = l.evaluated ++ es := by
    induction es generalizing l with
    | nil => simp
    | cons e rest ih => simp [ih, Ledger.step]
  exact grown .start

/-- Evaluations in another order leave the same entries and the same counters. -/
theorem order_irrelevant {es es' : List (Evaluation α)} (perm : es.Perm es')
    (laws : KeyLaws (nodes (es.map .evaluate))) :
    ∃ m m', (Session.run (es.map .evaluate) (.memo .empty)).2 = .memo m ∧
      (Session.run (es'.map .evaluate) (.memo .empty)).2 = .memo m' ∧
      m.entries.Perm m'.entries ∧ m.stats = m'.stats := by
  refine ⟨_, _, run_snd _ .start, run_snd _ .start, ?_⟩
  have asks : (ledger (es.map .evaluate)).asks.Perm (ledger (es'.map .evaluate)).asks := by
    simp only [Ledger.asks, evaluated_ledger]
    exact perm.flatMap_right _
  have holds := (sound_ledger laws).holds
  have others : ∀ n ∈ nodes (es'.map .evaluate), n ∈ nodes (es.map .evaluate) := by
    simp only [mem_nodes, List.mem_map]
    rintro n ⟨s, ⟨e, member, rfl⟩, reached⟩
    exact ⟨_, ⟨e, perm.mem_iff.mpr member, rfl⟩, reached⟩
  have holds' := (Ledger.sound_start.run laws.distinct others).holds
  rw [Node.reach_perm asks, asks.length_eq] at holds
  exact holds.unique holds'

/-- A cascade and one of its stages, over whole numbers and over binary64 numbers. -/
theorem order_irrelevant_samples :
    (let ema : Evaluation Whole := .execute (.onPrice .close (.ema 1)) Whole.twoBars
      let dema : Evaluation Whole := .execute (.onPrice .close (.cascade .double 1)) Whole.twoBars
      [ema, dema].Perm [dema, ema] ∧ KeyLaws (nodes ([ema, dema].map .evaluate)) ∧
        ∃ m m', (Session.run ([ema, dema].map .evaluate) (.memo .empty)).2 = .memo m ∧
          (Session.run ([dema, ema].map .evaluate) (.memo .empty)).2 = .memo m' ∧
          m.entries.Perm m'.entries ∧ m.stats = m'.stats) ∧
    let ema : Evaluation Float := .execute (.onPrice .close (.ema 2)) Binary64.gapBars
    let dema : Evaluation Float := .execute (.onPrice .close (.cascade .double 2)) Binary64.gapBars
    let laguerre : Evaluation Float := .execute (.onPrice .close (.laguerre 0.8)) Binary64.gapBars
    [ema, dema, laguerre].Perm [dema, ema, laguerre] ∧
      KeyLaws (nodes ([ema, dema, laguerre].map .evaluate)) ∧
        ∃ m m', (Session.run ([ema, dema, laguerre].map .evaluate) (.memo .empty)).2 = .memo m ∧
          (Session.run ([dema, ema, laguerre].map .evaluate) (.memo .empty)).2 = .memo m' ∧
          m.entries.Perm m'.entries ∧ m.stats = m'.stats := by
  refine ⟨⟨.swap _ _ _, Whole.keyLaws _, order_irrelevant (.swap _ _ _) (Whole.keyLaws _)⟩, ?_⟩
  intro ema dema laguerre
  have laws : KeyLaws (nodes ([ema, dema, laguerre].map .evaluate)) :=
    Binary64.keyLaws (by decide +kernel)
  exact ⟨.swap _ _ _, laws, order_irrelevant (.swap _ _ _) laws⟩

end Session

end Chartist

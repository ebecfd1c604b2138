import Chartist.Proofs.Cache.Uncached
import Chartist.Proofs.Exact.Candidate
import Chartist.Proofs.Ratio

/-!
# Stops only move in favour of the position

A level is zero or a ratcheted candidate (`Stop.levels_getElem?`), and a ratcheted candidate is the
best one since entry (`Stop.levels_best`). Candidates that follow the favourable extreme are no
worse on later bars, so the ratchet leaves them as they are (`Stop.ratchets_levels`).
-/

namespace Chartist

open Position Scalar

variable {α : Type} [Scalar α] {K : Type} [Field K] [LinearOrder K] {num : K → α}

namespace Stop

/-! ## Levels bar by bar -/

theorem length_levels (s : Stop α) (position : Position α) (ranges : Series α) (length : Nat) :
    (s.levels position ranges length).length = length := by
  simp only [levels, List.length_append, List.length_replicate, (causal_ratchet _).length,
    List.length_take]
  omega

/-- A level is zero, except for the ratcheted candidates. -/
theorem levels_getElem? (s : Stop α) (position : Position α) (ranges : Series α) {length i : Nat}
    (inside : i < length) :
    (s.levels position ranges length)[i]? = some (if i < position.entryBar then 0
      else ((ratchet position.long (s.candidates position ranges))[i - position.entryBar]?).getD
        0) := by
  have known : ratchet position.long
      ((s.candidates position ranges).take (length - position.entryBar)) =
      (ratchet position.long (s.candidates position ranges)).take (length - position.entryBar) :=
    (causal_ratchet position.long).take _ _
  rw [levels, known]
  generalize ratchet position.long (s.candidates position ranges) = all
  by_cases before : i < position.entryBar
  · rw [if_pos before, List.append_assoc, List.getElem?_append_left, List.getElem?_replicate,
      if_pos (by omega)]
    rw [List.length_replicate]
    omega
  · -- behind the lead stand the levels of the candidates, as far as there are any
    have lead : (List.replicate (min position.entryBar length) (0 : α)).length =
        position.entryBar := by
      rw [List.length_replicate]
      omega
    have size : (all.take (length - position.entryBar)).length =
        min (length - position.entryBar) all.length := List.length_take
    rw [if_neg before, List.append_assoc, List.getElem?_append_right (by omega), lead,
      List.length_append, lead]
    by_cases reached : i - position.entryBar < all.length
    · rw [List.getElem?_append_left (by omega), List.getElem?_take_of_lt (by omega),
        List.getElem?_eq_getElem reached]
      rfl
    · rw [List.getElem?_append_right (by omega), List.getElem?_replicate, if_pos (by omega),
        List.getElem?_eq_none (Nat.le_of_not_lt reached)]
      rfl

/-- The level is the candidate of one of the bars, and all of the bars have candidates that are no
better. -/
structure BestSince (long : Bool) (candidate : Nat → Option α) (first last : Nat) (level : α) :
    Prop where
  attained : ∃ i, first ≤ i ∧ i ≤ last ∧ candidate i = some level
  bound : ∀ i, first ≤ i → i ≤ last →
    ∃ other, candidate i = some other ∧ noWorse long level other = true

/-- The best of more candidates is no worse. -/
theorem BestSince.noWorse_of_le {long : Bool} {candidate : Nat → Option α} {first i j : Nat}
    {a b : α} (earlier : BestSince long candidate first i a)
    (later : BestSince long candidate first j b) (le : i ≤ j) : noWorse long b a = true := by
  obtain ⟨bar, after, before, known⟩ := earlier.attained
  obtain ⟨other, same, noWorse⟩ := later.bound bar after (before.trans le)
  rw [known] at same
  cases same
  exact noWorse

section Levels

variable [IsStrictOrderedRing K] (exact : Exact num) (ordinary : Ordinary num) {s : Stop α}
  {bars : Bars α} {position : Position α}

omit [Scalar α] in
theorem entryBar_le {i : Nat} (known : (position.favorableExtreme i).isSome = true) :
    position.entryBar ≤ i := by
  unfold favorableExtreme at known
  split at known
  · cases known
  · omega

/-- Where the extreme is unknown, the level is zero. -/
theorem levels_outside {i : Nat} (inside : i < bars.length)
    (unknown : position.favorableExtreme i = none) :
    (s.levels position (s.ranges bars) bars.length)[i]? = some 0 := by
  rw [levels_getElem? s position _ inside]
  split
  · rfl
  next after =>
    obtain ⟨k, rfl⟩ := Nat.exists_eq_add_of_le (Nat.le_of_not_lt after)
    have nothing : (s.candidates position (s.ranges bars))[k]? = none := by
      rw [candidates_getElem?, candidate, unknown]
      rfl
    rw [Nat.add_sub_cancel_left, List.getElem?_eq_none]
    · rfl
    · rw [(causal_ratchet _).length]
      exact List.getElem?_eq_none_iff.mp nothing

include exact ordinary

/-- Where the extreme is known, the level is the best candidate since entry. -/
theorem levels_best
    (finite : ∀ i c, s.candidate bars position i = some c → isFinite c = true) {i : Nat}
    (inside : i < bars.length) (known : (position.favorableExtreme i).isSome = true) :
    ∃ level, (s.levels position (s.ranges bars) bars.length)[i]? = some level ∧
      BestSince position.long (s.candidate bars position) position.entryBar i level := by
  obtain ⟨k, rfl⟩ := Nat.exists_eq_add_of_le (entryBar_le known)
  let candidates := s.candidates position (s.ranges bars)
  have at_add (m : Nat) : candidates[m]? = s.candidate bars position (position.entryBar + m) :=
    candidates_getElem? s bars position m
  have reached : k < candidates.length := by
    rw [← isSome_candidate s position inside, ← at_add, isSome_getElem?] at known
    simpa using known
  have numbers : ∀ x ∈ candidates, isFinite x = true := by
    intro x member
    obtain ⟨m, found⟩ := List.mem_iff_getElem?.mp member
    exact finite _ x ((at_add m).symm.trans found)
  have ratcheted : ∃ v, (ratchet position.long candidates)[k]? = some v ∧
      IsBest position.long v (candidates.take (k + 1)) :=
    ratchet_getElem? exact ordinary numbers reached
  obtain ⟨level, found, isBest⟩ := ratcheted
  -- the candidates so far are those of the bars from entry on
  have among {m : Nat} (low : m ≤ k) : (candidates.take (k + 1))[m]? = candidates[m]? :=
    List.getElem?_take_of_lt (Nat.lt_succ_of_le low)
  refine ⟨level, ?_, ?_, ?_⟩
  · rw [levels_getElem? s position _ inside, if_neg (by omega), Nat.add_sub_cancel_left, found]
    rfl
  · obtain ⟨m, member⟩ := List.mem_iff_getElem?.mp isBest.mem
    have low : m ≤ k := by
      have short := (List.getElem?_eq_some_iff.mp member).1
      rw [List.length_take] at short
      omega
    rw [among low, at_add] at member
    exact ⟨position.entryBar + m, by omega, by omega, member⟩
  · intro j after before
    obtain ⟨m, rfl⟩ := Nat.exists_eq_add_of_le after
    have low : m ≤ k := by omega
    have here := List.getElem?_eq_getElem (show m < candidates.length by omega)
    refine ⟨candidates[m], (at_add m).symm.trans here, isBest.noWorse _ ?_⟩
    exact List.mem_of_getElem? ((among low).trans here)

end Levels

/-! ## Ratchets -/

/-- There is one level for each bar. Where the favourable extreme is known, the level is the best
candidate since entry, and elsewhere it is zero. So levels only move in favour of the position, and
candidates that depend on the extreme alone are the levels. -/
structure Ratchets (s : Stop α) (bars : Bars α) (position : Position α) (levels : Series α) :
    Prop where
  length : levels.length = bars.length
  outside : ∀ i < bars.length, position.favorableExtreme i = none → levels[i]? = some 0
  best : ∀ i < bars.length, (position.favorableExtreme i).isSome = true →
    ∃ level, levels[i]? = some level ∧
      BestSince position.long (s.candidate bars position) position.entryBar i level
  favours : ∀ i j before after, i ≤ j → (position.favorableExtreme i).isSome = true →
    (position.favorableExtreme j).isSome = true → levels[i]? = some before →
      levels[j]? = some after → noWorse position.long after before = true
  keeps : s.followsExtreme = true → ∀ i < bars.length,
    (position.favorableExtreme i).isSome = true → levels[i]? = s.candidate bars position i

section Stops

variable [IsStrictOrderedRing K] (exact : Exact num) (ordinary : Ordinary num) {s : Stop α}
  (accepted : s.validate = .ok ()) {bars : Bars α} (finite : ∀ bar ∈ bars, bar.Ranged)
  {entryPrice : α} (finiteEntry : isFinite entryPrice = true) (entryBar : Nat) (long : Bool)
  {highs lows : List α}
include exact ordinary accepted finite finiteEntry

theorem ratchets_levels (finiteSide : ∀ x ∈ sidePrices long highs lows, isFinite x = true) :
    let position := Position.new entryPrice entryBar long highs lows
    s.Ratchets bars position (s.levels position (s.ranges bars) bars.length) := by
  intro position
  have sound := sound_of_validate exact accepted
  have finiteExtreme (i : Nat) : ∀ x ∈ position.favorableExtreme i, isFinite x = true :=
    fun x known => finite_extreme exact ordinary finiteEntry finiteSide known
  have finiteCandidate (i : Nat) (c : α) (known : s.candidate bars position i = some c) :
      isFinite c = true :=
    finite_candidate exact ordinary finite sound finiteEntry (finiteExtreme i) known
  have best (i : Nat) (inside : i < bars.length)
      (known : (position.favorableExtreme i).isSome = true) :=
    levels_best exact ordinary finiteCandidate inside known
  refine ⟨length_levels .., fun i inside unknown => levels_outside inside unknown, best, ?_, ?_⟩
  · intro i j before after le knownI knownJ isBefore isAfter
    have insideI := (List.getElem?_eq_some_iff.mp isBefore).1
    have insideJ := (List.getElem?_eq_some_iff.mp isAfter).1
    rw [length_levels] at insideI insideJ
    obtain ⟨a, isA, bestA⟩ := best i insideI knownI
    obtain ⟨b, isB, bestB⟩ := best j insideJ knownJ
    obtain rfl := Option.some_injective _ (isA.symm.trans isBefore)
    obtain rfl := Option.some_injective _ (isB.symm.trans isAfter)
    exact bestA.noWorse_of_le bestB le
  · intro follows i inside known
    obtain ⟨level, isLevel, bestLevel⟩ := best i inside known
    obtain ⟨bar, after, before, isCandidate⟩ := bestLevel.attained
    obtain ⟨own, isOwn, noWorseOwn⟩ := bestLevel.bound i (entryBar_le known) le_rfl
    obtain ⟨a, knownA, -⟩ := Option.bind_eq_some_iff.mp isCandidate
    obtain ⟨b, knownB, -⟩ := Option.bind_eq_some_iff.mp isOwn
    -- the level is the candidate of an earlier bar, where the extreme is no better
    have noWorseLevel := noWorse_candidate exact sound follows finiteEntry
      (finiteExtreme bar a knownA) (finiteExtreme i b knownB)
      (noWorse_extreme exact ordinary finiteEntry finiteSide before knownA knownB) knownA knownB
      isCandidate isOwn
    rw [isLevel, isOwn, eq_of_noWorse exact (finiteCandidate bar level isCandidate)
      (finiteCandidate i own isOwn) noWorseOwn noWorseLevel]

/-- Stops only move in favour of the position. With exact arithmetic, on bars and sides of numbers
and for parameters that pass their check, the levels of a stop are the best candidates since entry.
The favourable extreme that candidates are found from is known from entry on, as far as highs and
lows are; it is the best of the entry price and the prices from entry on, so it is never worse on a
later bar. -/
theorem stops_ratchet [Fingerprint α] (finiteHighs : ∀ x ∈ highs, isFinite x = true)
    (finiteLows : ∀ x ∈ lows, isFinite x = true) :
    let position := Position.new entryPrice entryBar long highs lows
    s.Ratchets bars position (s.compute bars position).uncached ∧
    (∀ i, (position.favorableExtreme i).isSome = true ↔
      entryBar ≤ i ∧ i < highs.length ∧ i < lows.length) ∧
    (∀ i extreme, position.favorableExtreme i = some extreme →
      IsBest long extreme (entryPrice :: pricesSince entryBar long highs lows i)) ∧
    ∀ i j a b, i ≤ j → position.favorableExtreme i = some a →
      position.favorableExtreme j = some b → noWorse long b a = true := by
  intro position
  have finiteSide : ∀ x ∈ sidePrices long highs lows, isFinite x = true := by
    cases long
    · exact finiteLows
    · exact finiteHighs
  refine ⟨?_, isSome_favorableExtreme entryPrice entryBar long highs lows, ?_, ?_⟩
  · rw [uncached_compute]
    exact ratchets_levels exact ordinary accepted finite finiteEntry entryBar long finiteSide
  · intro i extreme known
    exact isBest_extreme exact ordinary finiteEntry finiteSide known
  · intro i j a b before knownA knownB
    exact noWorse_extreme exact ordinary finiteEntry finiteSide before knownA knownB

end Stops

/-- A short position entered on the second of four bars, with highs and lows for three of them: on
the third bar the range has grown, so the level before it stays. -/
theorem stops_ratchet_ratio :
    let bars : Bars Ratio :=
      [⟨0, .of 10, .of 12, .of 9, .of 11, .of 5⟩, ⟨60, .of 11, .of 13, .of 10, .of 12, .of 5⟩,
        ⟨120, .of 12, .of 20, .of 10, .of 9, .of 5⟩, ⟨180, .of 9, .of 16, .of 9, .of 15, .of 5⟩]
    let highs : List Ratio := [.of 12, .of 13, .of 20]
    let lows : List Ratio := [.of 9, .of 10, .of 10]
    let s : Stop Ratio := .chandelier 2 (.of 2)
    let position := Position.new (.of 11) 1 false highs lows
    Exact Ratio.of ∧ Ordinary Ratio.of ∧ s.validate = .ok () ∧ (∀ bar ∈ bars, bar.Ranged) ∧
    isFinite (Ratio.of 11) = true ∧ (∀ x ∈ highs, isFinite x = true) ∧
    (∀ x ∈ lows, isFinite x = true) ∧
    (List.range 4).map (s.candidate bars position) =
      [none, some (.of 16), some (.of 23), none] ∧
    (s.compute bars position).uncached = [.of 0, .of 16, .of 16, .of 0] ∧
    s.Ratchets bars position (s.compute bars position).uncached := by
  intro bars highs lows s position
  have finite : ∀ bar ∈ bars, bar.Ranged := by
    intro bar member
    simp only [bars, List.mem_cons, List.not_mem_nil, or_false] at member
    rcases member with rfl | rfl | rfl | rfl <;> exact ⟨rfl, rfl, rfl⟩
  have finiteHighs : ∀ x ∈ highs, isFinite x = true := by decide
  have finiteLows : ∀ x ∈ lows, isFinite x = true := by decide
  have positive : isPositive (Ratio.of 2) = true := by decide +kernel
  have accepted : s.validate = .ok () := by
    simp only [s, validate, positive]
    rfl
  have finiteEntry : isFinite (Ratio.of 11) = true := rfl
  obtain ⟨ratchets, -⟩ := stops_ratchet Ratio.exact Ratio.ordinary accepted finite
    finiteEntry 1 false finiteHighs finiteLows
  refine ⟨Ratio.exact, Ratio.ordinary, accepted, finite, finiteEntry, finiteHighs, finiteLows, ?_,
    ?_, ratchets⟩
  · decide +kernel
  · rw [uncached_compute]
    decide +kernel

end Stop

end Chartist

import Chartist.Proofs.Exact.Best
import Chartist.Proofs.Exact.Smoother
import Mathlib.Tactic.Linarith
import Mathlib.Tactic.Positivity

/-!
# Candidate levels

A stop has a candidate level on each bar where the favourable extreme is known
(`Stop.isSome_candidate`). Numbers in place of prices make numbers of candidates
(`Stop.finite_candidate`). Those of a trailing stop and of one that moves to the entry price depend
on the extreme alone, and are no worse where it is no worse (`Stop.noWorse_candidate`).
-/

namespace Chartist

open Position Scalar

variable {α : Type} [Scalar α]

/-- The prices that a true range reads are numbers. -/
structure Bar.Ranged (bar : Bar α) : Prop where
  high : isFinite bar.high = true
  low : isFinite bar.low = true
  close : isFinite bar.close = true

namespace Stop

/-! ## Candidates bar by bar -/

/-- The candidate level on a bar, unknown where the favourable extreme is. -/
def candidate (s : Stop α) (bars : Bars α) (position : Position α) (i : Nat) : Option α :=
  (position.favorableExtreme i).bind fun extreme =>
    match s with
    | .trailing percent => some (trailingLevel percent position.long extreme)
    | .chandelier _ multiplier =>
      (s.ranges bars)[i]?.map fun range => behind position.long extreme (multiplier * range)
    | .breakeven risk trigger =>
      some (breakevenLevel risk trigger position.entryPrice position.long extreme)

theorem candidates_getElem? (s : Stop α) (bars : Bars α) (position : Position α) (k : Nat) :
    (s.candidates position (s.ranges bars))[k]? =
      s.candidate bars position (position.entryBar + k) := by
  cases s with
  | trailing percent =>
      rw [candidates, List.getElem?_map, candidate, favorableExtreme_add]
      cases position.extremes[k]? <;> rfl
  | chandelier period multiplier =>
      rw [candidates, List.getElem?_zipWith, candidate, favorableExtreme_add, List.getElem?_drop]
      cases position.extremes[k]? with
      | none => rfl
      | some extreme =>
          cases ((chandelier period multiplier).ranges bars)[position.entryBar + k]? <;> rfl
  | breakeven risk trigger =>
      rw [candidates, List.getElem?_map, candidate, favorableExtreme_add]
      cases position.extremes[k]? <;> rfl

/-- On the bars, a candidate is known where the favourable extreme is. -/
theorem isSome_candidate (s : Stop α) {bars : Bars α} (position : Position α) {i : Nat}
    (inside : i < bars.length) :
    (s.candidate bars position i).isSome = (position.favorableExtreme i).isSome := by
  unfold candidate
  cases position.favorableExtreme i with
  | none => rfl
  | some extreme =>
      cases s with
      | trailing percent | breakeven risk trigger => rfl
      | chandelier period multiplier =>
          have known : i < ((chandelier period multiplier).ranges bars).length := by
            rw [ranges, (BarIndicator.causal_values _).length]
            exact inside
          simp only [Option.bind_some, Option.isSome_map, isSome_getElem?, known,
            Option.isSome_some]

/-! ## Formulas on numbers -/

variable {K : Type} [Field K] [LinearOrder K] {num : K → α}

/-- The parameters are numbers in their ranges. -/
def Sound (num : K → α) : Stop α → Prop
  | .trailing percent => ∃ p, 0 < p ∧ p < 100 ∧ percent = num p
  | .chandelier period multiplier => 0 < period ∧ Positive num multiplier
  | .breakeven risk trigger => Positive num risk ∧ Positive num trigger

section Formulas

variable (exact : Exact num)
include exact

/-- Parameters that pass their check are sound. -/
theorem sound_of_validate {s : Stop α} (accepted : s.validate = .ok ()) : s.Sound num := by
  cases s with
  | trailing percent =>
      rw [validate] at accepted
      split at accepted
      next inside =>
        obtain ⟨above, below⟩ := Bool.and_eq_true_iff.mp inside
        rw [exact.zero] at above
        rw [exact.natLit 100] at below
        obtain ⟨p, rfl⟩ := (exact.isFinite percent).mp
          (exact.between _ _ percent (exact.le_of_lt _ _ above) (exact.le_of_lt _ _ below))
        rw [exact.lt, decide_eq_true_eq] at above below
        rw [Nat.cast_ofNat] at below
        exact ⟨p, above, below, rfl⟩
      next => cases accepted
  | chandelier period multiplier =>
      obtain ⟨_, positive, rest⟩ := exists_of_bind_ok accepted
      obtain ⟨_, passed, -⟩ := exists_of_bind_ok rest
      exact ⟨checkPeriod_pos passed, exact.of_checkPositive positive⟩
  | breakeven risk trigger =>
      obtain ⟨_, positive, rest⟩ := exists_of_bind_ok accepted
      exact ⟨exact.of_checkPositive positive, exact.of_checkPositive rest⟩

theorem behind_num (long : Bool) (price distance : K) :
    behind long (num price) (num distance) = num (price - worth long distance) := by
  cases long <;> simp [behind, worth, exact.add, exact.sub]

theorem breakevenLevel_num (risk trigger entry : K) (long : Bool) (extreme : K) :
    breakevenLevel (num risk) (num trigger) (num entry) long (num extreme) =
      num (if trigger ≤ worth long extreme - worth long entry then entry
        else entry - worth long risk) := by
  have excursion : (if long then num extreme - num entry else num entry - num extreme) =
      num (worth long extreme - worth long entry) := by
    cases long <;> simp [worth, exact.sub, sub_eq_neg_add, add_comm]
  simp only [breakevenLevel, excursion, exact.le, behind_num exact, decide_eq_true_eq]
  split <;> rfl

variable [IsStrictOrderedRing K]

theorem trailingLevel_num (percent : K) (long : Bool) (extreme : K) :
    trailingLevel (num percent) long (num extreme) =
      num (extreme * (1 - worth long percent / 100)) := by
  have hundred : (100 : K) ≠ 0 := by positivity
  cases long <;> simp [trailingLevel, worth, exact.natLit 100, exact.div _ _ hundred, exact.one,
    exact.add, exact.sub, exact.mul, neg_div]

/-! ## Candidates are numbers -/

section Prices

variable (ordinary : Ordinary num) {bars : Bars α} (finite : ∀ bar ∈ bars, bar.Ranged)
include ordinary

theorem finite_trueRange {bar : Bar α} (finite : bar.Ranged) {before : Option α}
    (finiteBefore : ∀ close ∈ before, isFinite close = true) :
    isFinite (bar.trueRange before) = true := by
  obtain ⟨high, isHigh⟩ := (exact.isFinite _).mp finite.high
  obtain ⟨low, isLow⟩ := (exact.isFinite _).mp finite.low
  have range : isFinite bar.range = true := by
    rw [Bar.range, isHigh, isLow, exact.sub]
    exact exact.finite _
  cases before with
  | none => exact range
  | some close =>
      obtain ⟨c, rfl⟩ := (exact.isFinite close).mp (finiteBefore close rfl)
      have distance (x : K) : isFinite (abs (num x - num c)) = true := by
        rw [exact.sub, ordinary.abs]
        exact exact.finite _
      have wider (a b : α) (finiteA : isFinite a = true) (finiteB : isFinite b = true) :
          isFinite (maxNum a b) = true :=
        (finite_better exact ordinary finiteA finiteB : isFinite (better true a b) = true)
      rw [Bar.trueRange, isHigh, isLow]
      exact wider _ _ (wider _ _ range (distance high)) (distance low)

theorem finite_trueRangesFrom {before : Option α}
    (finiteBefore : ∀ close ∈ before, isFinite close = true)
    (finite : ∀ bar ∈ bars, bar.Ranged) :
    ∀ x ∈ Bars.trueRangesFrom before bars, isFinite x = true := by
  induction bars generalizing before with
  | nil => exact fun x member => absurd member List.not_mem_nil
  | cons bar rest ih =>
      obtain ⟨here, later⟩ := List.forall_mem_cons.mp finite
      have finiteClose : ∀ close ∈ some bar.close, isFinite close = true := by
        rintro close ⟨⟩
        exact here.close
      exact List.forall_mem_cons.mpr
        ⟨finite_trueRange exact ordinary here finiteBefore, ih finiteClose later⟩

include finite

theorem finite_averageTrueRange {period : Nat} (positive : 0 < period) :
    ∀ x ∈ (BarIndicator.averageTrueRange period).values bars, isFinite x = true := by
  have nothing : ∀ close ∈ (none : Option α), isFinite close = true := nofun
  have keeps (c : K) : id (num c) = num (1 * c) := by rw [one_mul, id]
  have linear := (HasGain.smma exact positive).isLinear exact keeps
  exact linear.finite bars.trueRanges (finite_trueRangesFrom exact ordinary nothing finite)

/-- Where extremes and entry price are numbers, so are candidates. -/
theorem finite_candidate {s : Stop α} (sound : s.Sound num) {position : Position α} {i : Nat}
    (finiteEntry : isFinite position.entryPrice = true)
    (finiteExtreme : ∀ x ∈ position.favorableExtreme i, isFinite x = true) {level : α}
    (known : s.candidate bars position i = some level) : isFinite level = true := by
  obtain ⟨extreme, extremeKnown, found⟩ := Option.bind_eq_some_iff.mp known
  obtain ⟨x, rfl⟩ := (exact.isFinite _).mp (finiteExtreme extreme extremeKnown)
  cases s with
  | trailing percent =>
      obtain ⟨p, -, -, rfl⟩ := sound
      obtain rfl := Option.some_injective _ found
      rw [trailingLevel_num exact]
      exact exact.finite _
  | chandelier period multiplier =>
      obtain ⟨positive, m, -, rfl⟩ := sound
      obtain ⟨range, rangeKnown, rfl⟩ := Option.map_eq_some_iff.mp found
      obtain ⟨r, rfl⟩ := (exact.isFinite _).mp (finite_averageTrueRange exact ordinary finite
        positive range (List.mem_of_getElem? rangeKnown))
      rw [exact.mul, behind_num exact]
      exact exact.finite _
  | breakeven risk trigger =>
      obtain ⟨⟨r, -, rfl⟩, t, -, rfl⟩ := sound
      obtain ⟨e, isEntry⟩ := (exact.isFinite _).mp finiteEntry
      obtain rfl := Option.some_injective _ found
      rw [isEntry, breakevenLevel_num exact]
      exact exact.finite _

end Prices

/-! ## Candidates that follow the extreme -/

/-- The candidates depend on the favourable extreme alone. -/
def followsExtreme : Stop α → Bool
  | .chandelier .. => false
  | .trailing _ | .breakeven .. => true

theorem noWorse_trailingLevel {percent : K} (above : 0 < percent) (below : percent < 100)
    {long : Bool} {a b : α} (finiteA : isFinite a = true) (finiteB : isFinite b = true)
    (better : noWorse long a b = true) :
    noWorse long (trailingLevel (num percent) long a) (trailingLevel (num percent) long b) =
      true := by
  obtain ⟨x, rfl⟩ := (exact.isFinite _).mp finiteA
  obtain ⟨y, rfl⟩ := (exact.isFinite _).mp finiteB
  -- less than all of a price is given away, so the order stays
  have room : 0 ≤ 1 - worth long percent / 100 := by
    cases long <;> simp only [worth, Bool.false_eq_true, if_false, if_true] <;> linarith
  have scaled (z : K) : worth long (z * (1 - worth long percent / 100)) =
      worth long z * (1 - worth long percent / 100) := by
    cases long <;> simp [worth]
  rw [noWorse_num exact, decide_eq_true_eq] at better
  rw [trailingLevel_num exact, trailingLevel_num exact, noWorse_num exact, decide_eq_true_eq,
    scaled, scaled]
  exact mul_le_mul_of_nonneg_right better room

theorem noWorse_breakevenLevel {risk : K} (positive : 0 < risk) (trigger entry : K) {long : Bool}
    {a b : α} (finiteA : isFinite a = true) (finiteB : isFinite b = true)
    (better : noWorse long a b = true) :
    noWorse long (breakevenLevel (num risk) (num trigger) (num entry) long a)
      (breakevenLevel (num risk) (num trigger) (num entry) long b) = true := by
  obtain ⟨x, rfl⟩ := (exact.isFinite _).mp finiteA
  obtain ⟨y, rfl⟩ := (exact.isFinite _).mp finiteB
  have behindEntry : worth long (entry - worth long risk) = worth long entry - risk := by
    cases long
    · simp only [worth, Bool.false_eq_true, if_false]
      ring
    · rfl
  rw [noWorse_num exact, decide_eq_true_eq] at better
  rw [breakevenLevel_num exact, breakevenLevel_num exact, noWorse_num exact, decide_eq_true_eq]
  -- once the worse extreme has reached the trigger, the better one has
  split
  next reached =>
    rw [if_pos (reached.trans (sub_le_sub_right better _))]
  next =>
    rw [behindEntry]
    split
    · linarith
    · rw [behindEntry]

/-- Candidates that depend on the extreme alone are no worse where it is no worse. -/
theorem noWorse_candidate {s : Stop α} {bars : Bars α} (sound : s.Sound num)
    (follows : s.followsExtreme = true) {position : Position α}
    (finiteEntry : isFinite position.entryPrice = true) {i j : Nat} {a b c d : α}
    (finiteA : isFinite a = true) (finiteB : isFinite b = true)
    (better : noWorse position.long b a = true) (knownA : position.favorableExtreme i = some a)
    (knownB : position.favorableExtreme j = some b) (isC : s.candidate bars position i = some c)
    (isD : s.candidate bars position j = some d) : noWorse position.long d c = true := by
  rw [candidate, knownA] at isC
  rw [candidate, knownB] at isD
  cases s with
  | trailing percent =>
      obtain ⟨p, above, below, rfl⟩ := sound
      obtain rfl := Option.some_injective _ isC
      obtain rfl := Option.some_injective _ isD
      exact noWorse_trailingLevel exact above below finiteB finiteA better
  | chandelier period multiplier => cases follows
  | breakeven risk trigger =>
      obtain ⟨⟨r, positive, rfl⟩, t, -, rfl⟩ := sound
      obtain ⟨e, isEntry⟩ := (exact.isFinite _).mp finiteEntry
      rw [isEntry] at isC isD
      obtain rfl := Option.some_injective _ isC
      obtain rfl := Option.some_injective _ isD
      exact noWorse_breakevenLevel exact positive t e finiteB finiteA better

end Formulas

end Stop

end Chartist

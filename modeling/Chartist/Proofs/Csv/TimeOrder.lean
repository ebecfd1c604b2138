import Chartist.Csv.Bars
import Chartist.Proofs.Ratio

/-!
# Bars in time order

What `TimeOrder.collect` makes of the rows of a table (`collect_in_time_order`). A row that is no
bar is reported whatever the order asked for, the first one if there are several, and a table
without rows has no bars. Of rows that all are bars, the strict order gives them as they stand, or
names the first place where time does not go forward (`disorder_cases`); sorting gives a stable
sort of them (`mergeSort_isStableSort`), which moves nothing that the strict order lets pass.
-/

namespace Chartist.Csv

variable {α : Type}

/-! ## Rows that are bars -/

/-- All rows are bars, or there is a first one that is not. -/
theorem rows_cases (rows : List (Except LoadError (Bar α))) :
    (∃ bars : Bars α, rows = bars.map .ok) ∨
      ∃ (before : Bars α) (e : LoadError) (after : List (Except LoadError (Bar α))),
        rows = before.map .ok ++ .error e :: after := by
  induction rows with
  | nil => exact .inl ⟨[], rfl⟩
  | cons row rest ih =>
      cases row with
      | error e => exact .inr ⟨[], e, rest, rfl⟩
      | ok bar =>
          obtain ⟨bars, rfl⟩ | ⟨before, e, after, rfl⟩ := ih
          · exact .inl ⟨bar :: bars, rfl⟩
          · exact .inr ⟨bar :: before, e, after, rfl⟩

theorem collect_map_ok (order : TimeOrder) (bars : Bars α) :
    order.collect (bars.map .ok) = order.arrange bars := by
  have all_read : (bars.map Except.ok).mapM id = (.ok bars : Except LoadError (Bars α)) := by
    induction bars with
    | nil => rfl
    | cons bar rest ih => rw [List.map_cons, List.mapM_cons, ih]; rfl
  rw [TimeOrder.collect, all_read]
  rfl

/-- The first row that is no bar is the answer, before any question of order. -/
theorem collect_error (order : TimeOrder) (before : Bars α) (e : LoadError)
    (after : List (Except LoadError (Bar α))) :
    order.collect (before.map .ok ++ .error e :: after) = .error e := by
  have stops : (before.map Except.ok ++ Except.error e :: after).mapM id =
      (.error e : Except LoadError (Bars α)) := by
    induction before with
    | nil => rfl
    | cons bar rest ih => rw [List.map_cons, List.cons_append, List.mapM_cons, ih]; rfl
  rw [TimeOrder.collect, stops]
  rfl

/-! ## The strict order -/

/-- Each bar is later than all before it. -/
def Increasing (bars : Bars α) : Prop := bars.Pairwise fun a b => a.timestamp < b.timestamp

/-- The bar after the one at a place is not later. -/
def StepsBack (bars : Bars α) (i : Nat) : Prop :=
  ∃ a b, bars[i]? = some a ∧ bars[i + 1]? = some b ∧ b.timestamp ≤ a.timestamp

/-- The first place after which time does not go forward. -/
structure FirstStepBack (bars : Bars α) (i : Nat) : Prop where
  here : StepsBack bars i
  notBefore : ∀ j < i, ¬ StepsBack bars j

theorem increasing_cons_cons (a b : Bar α) (rest : Bars α) :
    Increasing (a :: b :: rest) ↔ a.timestamp < b.timestamp ∧ Increasing (b :: rest) := by
  have chain (bars : Bars α) :
      Increasing bars ↔ bars.IsChain fun a b => a.timestamp < b.timestamp :=
    haveI : Trans (fun a b : Bar α => a.timestamp < b.timestamp)
        (fun a b : Bar α => a.timestamp < b.timestamp)
        (fun a b : Bar α => a.timestamp < b.timestamp) := ⟨Int.lt_trans⟩
    List.isChain_iff_pairwise.symm
  rw [chain, chain, List.isChain_cons_cons]

theorem StepsBack.not_increasing {bars : Bars α} {i : Nat} (back : StepsBack bars i) :
    ¬ Increasing bars := by
  intro increasing
  obtain ⟨a, b, first, second, notLater⟩ := back
  obtain ⟨_, rfl⟩ := List.getElem?_eq_some_iff.mp first
  obtain ⟨_, rfl⟩ := List.getElem?_eq_some_iff.mp second
  have later := List.pairwise_iff_getElem.mp increasing i (i + 1) ‹_› ‹_› (Nat.lt_succ_self i)
  omega

/-- The scan finds nothing in increasing bars, and the first step back in others. -/
theorem disorder_cases (index : Nat) (bars : Bars α) :
    (disorder index bars = none ∧ Increasing bars) ∨
      ∃ i, disorder index bars = some (index + i) ∧ FirstStepBack bars i := by
  fun_induction disorder index bars with
  | case1 index a b rest notLater =>
      exact .inr ⟨0, rfl, ⟨a, b, rfl, rfl, notLater⟩, fun j lt => absurd lt (Nat.not_lt_zero j)⟩
  | case2 index a b rest later ih =>
      have forward : a.timestamp < b.timestamp := Int.not_le.mp later
      obtain ⟨clean, increasing⟩ | ⟨i, found, here, notBefore⟩ := ih
      · exact .inl ⟨clean, (increasing_cons_cons a b rest).mpr ⟨forward, increasing⟩⟩
      · -- what the rest finds stands one place further on, behind a step that is in order
        refine .inr ⟨i + 1, by rw [found]; congr 1; omega, here, fun j lt => ?_⟩
        cases j with
        | zero =>
            rintro ⟨_, _, ⟨⟩, ⟨⟩, notLater⟩
            exact later notLater
        | succ j => exact notBefore j (Nat.lt_of_succ_lt_succ lt)
  | case3 bars index short =>
      refine .inl ⟨rfl, ?_⟩
      match bars, short with
      | [], _ => exact List.Pairwise.nil
      | [_], _ => exact List.pairwise_singleton _ _
      | a :: b :: rest, short => exact absurd rfl (short a b rest)

theorem arrange_strict_of_none {bars : Bars α} (nonempty : bars ≠ [])
    (clean : disorder 1 bars = none) : TimeOrder.strict.arrange bars = .ok bars := by
  obtain ⟨bar, rest, rfl⟩ := List.exists_cons_of_ne_nil nonempty
  simp only [TimeOrder.arrange, clean]

theorem arrange_strict_of_some {bars : Bars α} {index : Nat}
    (found : disorder 1 bars = some index) :
    TimeOrder.strict.arrange bars = .error (.notIncreasing index) := by
  cases bars with
  | nil => cases found
  | cons bar rest => simp only [TimeOrder.arrange, found]

/-! ## Sorting -/

/-- The same bars in time order, those of one time as they stood. -/
structure IsStableSort (bars sorted : Bars α) : Prop where
  perm : sorted.Perm bars
  ordered : sorted.Pairwise fun a b => a.timestamp ≤ b.timestamp
  stable (time : Int) :
    sorted.filter (·.timestamp == time) = bars.filter (·.timestamp == time)

theorem mergeSort_isStableSort (bars : Bars α) :
    IsStableSort bars (bars.mergeSort fun a b => a.timestamp ≤ b.timestamp) := by
  have transitive (a b c : Bar α) : decide (a.timestamp ≤ b.timestamp) →
      decide (b.timestamp ≤ c.timestamp) → decide (a.timestamp ≤ c.timestamp) := by
    simp only [decide_eq_true_eq]
    omega
  have total (a b : Bar α) :
      (decide (a.timestamp ≤ b.timestamp) || decide (b.timestamp ≤ a.timestamp)) = true := by
    simp only [Bool.or_eq_true, decide_eq_true_eq]
    omega
  have perm := List.mergeSort_perm bars fun a b => decide (a.timestamp ≤ b.timestamp)
  refine ⟨perm, ?_, fun time => ?_⟩
  · exact (List.pairwise_mergeSort transitive total bars).imp fun h => of_decide_eq_true h
  · -- The bars of one time are a part of the table already in order, so they stay together; by
    -- their number there are no others.
    have inOrder : (bars.filter (·.timestamp == time)).Pairwise
        fun a b => decide (a.timestamp ≤ b.timestamp) := by
      refine List.pairwise_of_forall_mem_list fun a left b right => ?_
      have := beq_iff_eq.mp (List.mem_filter.mp left).2
      have := beq_iff_eq.mp (List.mem_filter.mp right).2
      exact decide_eq_true (by omega)
    have kept := List.sublist_mergeSort transitive total inOrder List.filter_sublist
    have among := kept.filter (·.timestamp == time)
    rw [List.filter_filter] at among
    simp only [Bool.and_self] at among
    exact (among.eq_of_length (perm.filter _).length_eq.symm).symm

theorem arrange_sort {bars : Bars α} (nonempty : bars ≠ []) :
    TimeOrder.sort.arrange bars = .ok (bars.mergeSort fun a b => a.timestamp ≤ b.timestamp) := by
  obtain ⟨bar, rest, rfl⟩ := List.exists_cons_of_ne_nil nonempty
  rfl

/-- Sorting moves nothing in increasing bars. -/
theorem mergeSort_of_increasing {bars : Bars α} (increasing : Increasing bars) :
    (bars.mergeSort fun a b => a.timestamp ≤ b.timestamp) = bars :=
  List.mergeSort_of_pairwise (increasing.imp fun lt => decide_eq_true (Int.le_of_lt lt))

/-! ## Both orders -/

/-- Rows that are no bars come first, then the lack of rows, then time. The strict order gives
the bars as they stand if each is later than the one before, and else the place of the first that
is not; sorting always gives a stable sort, and the same bars if the strict order gives any. -/
theorem collect_in_time_order (rows : List (Except LoadError (Bar α))) :
    (∀ e, .error e ∈ rows → ∃ (before : Bars α) (first : LoadError)
        (after : List (Except LoadError (Bar α))),
      rows = before.map .ok ++ .error first :: after ∧
        ∀ order : TimeOrder, order.collect rows = .error first) ∧
    ((∀ e, .error e ∉ rows) → ∃ bars : Bars α, rows = bars.map .ok ∧
      (bars = [] → ∀ order : TimeOrder, order.collect rows = .error .empty) ∧
      (bars ≠ [] →
        (Increasing bars → TimeOrder.strict.collect rows = .ok bars) ∧
        (¬ Increasing bars → ∃ i, FirstStepBack bars i ∧
          TimeOrder.strict.collect rows = .error (.notIncreasing (i + 1))) ∧
        ∃ sorted, TimeOrder.sort.collect rows = .ok sorted ∧ IsStableSort bars sorted ∧
          ∀ given, TimeOrder.strict.collect rows = .ok given → given = sorted)) := by
  obtain ⟨bars, rfl⟩ | ⟨before, first, after, rfl⟩ := rows_cases rows
  · refine ⟨fun e failed => by simp at failed, fun _ => ⟨bars, rfl, ?_, fun nonempty => ?_⟩⟩
    · rintro rfl order
      cases order <;> rfl
    · simp only [collect_map_ok]
      have isSort := mergeSort_isStableSort bars
      have sort := arrange_sort nonempty
      obtain ⟨clean, increasing⟩ | ⟨i, found, firstStep⟩ := disorder_cases 1 bars
      · have strict := arrange_strict_of_none nonempty clean
        refine ⟨fun _ => strict, fun mixed => absurd increasing mixed, _, sort, isSort, ?_⟩
        intro given ok
        rw [mergeSort_of_increasing increasing]
        exact Except.ok.inj (ok.symm.trans strict)
      · have strict := arrange_strict_of_some found
        rw [Nat.add_comm] at strict
        refine ⟨fun increasing => absurd increasing firstStep.here.not_increasing,
          fun _ => ⟨i, firstStep, strict⟩, _, sort, isSort, ?_⟩
        intro given ok
        cases ok.symm.trans strict
  · refine ⟨fun _ _ => ⟨before, first, after, rfl, fun order => ?_⟩, fun allBars => ?_⟩
    · exact collect_error order before first after
    · exact absurd (by simp) (allBars first)

/-- A day between two reports on the day after it. -/
def reports : Bars Ratio :=
  [⟨2, .of 4, .of 5, .of 3, .of 4, .of 10⟩, ⟨1, .of 3, .of 4, .of 2, .of 3, .of 20⟩,
    ⟨2, .of 5, .of 6, .of 4, .of 5, .of 30⟩]

theorem collect_in_time_order_reports :
    (∃ i, FirstStepBack reports i ∧
      TimeOrder.strict.collect (reports.map .ok) = .error (.notIncreasing (i + 1))) ∧
    ∃ sorted, TimeOrder.sort.collect (reports.map .ok) = .ok sorted ∧
      IsStableSort reports sorted := by
  obtain ⟨bars, same, -, given⟩ := (collect_in_time_order (reports.map .ok)).2 (by simp)
  obtain rfl : reports = bars :=
    List.map_injective_iff.mpr (fun _ _ => Except.ok.inj) same
  obtain ⟨-, backward, sorted, sorts, isSort, -⟩ := given (by decide)
  exact ⟨backward (by simp [Increasing, reports]), sorted, sorts, isSort⟩

end Chartist.Csv

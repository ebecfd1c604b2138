import Chartist.Scalar

/-!
# Reductions in four lanes

A list is reduced in four lanes: the element with index `4 i + j` goes to lane `j`. At the
end the lanes are combined, and the elements after the last full group of four are added
one by one. With exact arithmetic the results are the plain sum, least and greatest value;
with rounding they are this particular sum, which is why the order of the additions is part
of the definitions.
-/

namespace Chartist.Window

variable {α : Type}

/-- Four running values. -/
structure Lanes (α : Type) where
  first : α
  second : α
  third : α
  fourth : α

/-- Four copies of one value. -/
def Lanes.splat (x : α) : Lanes α := ⟨x, x, x, x⟩

/-- Takes the full groups of four off a list, one `step` per lane and group, and returns the
elements that are left. -/
@[specialize] def Lanes.fold (step : α → α → α) : Lanes α → List α → Lanes α × List α
  | acc, a :: b :: c :: d :: rest =>
    fold step ⟨step acc.first a, step acc.second b, step acc.third c, step acc.fourth d⟩ rest
  | acc, rest => (acc, rest)

variable [Scalar α]

open Scalar

/-- The sum of a list. -/
def sum (xs : List α) : α :=
  let (acc, rest) := Lanes.fold (· + ·) (Lanes.splat 0) xs
  rest.foldl (· + ·) ((acc.first + acc.second) + (acc.third + acc.fourth))

/-- The sum of the squared distances from `mean`. -/
def sumSqDev (xs : List α) (mean : α) : α :=
  sum (xs.map fun x => (x - mean) * (x - mean))

/-- The sum of the products of two lists, as far as both reach. -/
def dot (xs ys : List α) : α := sum (List.zipWith (· * ·) xs ys)

/-- The larger of a running value and an element of its lane. An element that is not a
number is passed over, and of two equal values the element is kept. -/
@[inline] def laneMax (acc x : α) : α :=
  if isNaN x then acc else if lt x acc then acc else x

/-- The smaller of a running value and an element of its lane, with the rules of `laneMax`. -/
@[inline] def laneMin (acc x : α) : α :=
  if isNaN x then acc else if lt acc x then acc else x

/-- The least value of a list; above every number if the list holds none. -/
def least (xs : List α) : α :=
  let (acc, rest) := Lanes.fold laneMin (Lanes.splat infinity) xs
  rest.foldl minNum (minNum (minNum (minNum acc.first acc.second) acc.third) acc.fourth)

/-- The greatest value of a list; below every number if the list holds none. -/
def greatest (xs : List α) : α :=
  let (acc, rest) := Lanes.fold laneMax (Lanes.splat (-infinity)) xs
  rest.foldl maxNum (maxNum (maxNum (maxNum acc.first acc.second) acc.third) acc.fourth)

/-- The least and the greatest value of a list that is not empty. -/
def extent (xs : List α) : Option (α × α) :=
  if xs.isEmpty then none else some (least xs, greatest xs)

end Chartist.Window

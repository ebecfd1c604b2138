import Chartist.Decimal.Shortest

/-!
# Writing binary64 numbers

A `Layout` fixes how the digits of a number are set out; `Layout.write` follows it. Three
layouts are in use: `Layout.plain` inside messages, parameter lists and tables,
`Layout.answer` and `Layout.document` in JSON text.
-/

namespace Chartist.Decimal

/-- How a number is set out. -/
structure Layout where
  /-- The least and the greatest position of the point for which no exponent is written;
  `none` if an exponent never is. -/
  positional : Option (Int × Int)
  /-- What follows a number without a fraction. -/
  whole : String
  /-- What stands before an exponent above zero. -/
  exponentSign : String
  tie : Tie
  notANumber : String
  /-- The text of an infinity, by its sign. -/
  infinite : Bool → String

/-- The text of an infinity outside JSON documents. -/
def signedInfinity (negative : Bool) : String := if negative then "-inf" else "inf"

/-- Numbers in running text: never an exponent, and no fraction without need. -/
def Layout.plain : Layout := ⟨none, "", "", .up, "NaN", signedInfinity⟩

/-- Numbers of an answer: an exponent below `1e-4` and from `1e16` on. -/
def Layout.answer : Layout := ⟨some (-3, 16), ".0", "", .up, "NaN", signedInfinity⟩

/-- Numbers of a JSON document: an exponent below `1e-5` and, with its sign, from `1e+16` on.
What is no finite number has no place in one. -/
def Layout.document : Layout := ⟨some (-4, 16), ".0", "+", .even, "null", fun _ => "null"⟩

/-- The given number of zeros. -/
def zeros (n : Nat) : String := "".pushn '0' n

/-- The digits with the point `point` places after their start. -/
def Layout.setPositional (l : Layout) (digits : List Char) (point : Int) : String :=
  match point with
  | .ofNat p =>
    if p = 0 then "0." ++ String.ofList digits
    else if digits.length ≤ p then
      String.ofList digits ++ zeros (p - digits.length) ++ l.whole
    else String.ofList (digits.take p) ++ "." ++ String.ofList (digits.drop p)
  | .negSucc p => "0." ++ zeros (p + 1) ++ String.ofList digits

/-- The first digit, the others after a point, and the power of ten. -/
def Layout.setExponent (l : Layout) (digits : List Char) (point : Int) : String :=
  let fraction := if digits.length ≤ 1 then "" else "." ++ String.ofList (digits.drop 1)
  let sign := if 1 < point then l.exponentSign else ""
  String.ofList (digits.take 1) ++ fraction ++ "e" ++ sign ++ toString (point - 1)

/-- Sets out a decimal. -/
def Layout.set (l : Layout) (d : Digits) : String :=
  let digits := Nat.toDigits 10 d.digits
  match l.positional with
  | none => l.setPositional digits d.point
  | some (lo, hi) =>
    if lo ≤ d.point ∧ d.point ≤ hi then l.setPositional digits d.point
    else l.setExponent digits d.point

/-- The text of a binary64 number. -/
def Layout.write (l : Layout) (x : Float) : String :=
  match Parts.of x with
  | .notANumber => l.notANumber
  | .infinite negative => l.infinite negative
  | .finite negative mantissa exponent =>
    let magnitude :=
      if mantissa = 0 then "0" ++ l.whole else l.set (shortest l.tie mantissa exponent)
    if negative then "-" ++ magnitude else magnitude

end Chartist.Decimal

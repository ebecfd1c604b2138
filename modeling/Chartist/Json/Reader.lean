import Chartist.Decimal.Power
import Chartist.Json.Basic
import Chartist.Json.Token

/-!
# Reading JSON

A value is read off its tokens by one pass with a stack of the arrays and objects that are
still open. `Json.ofTokens` is structurally recursive on the tokens: each of them changes
the stack and what may come next. At most 127 arrays and objects may be open at once.
-/

namespace Chartist.Json

variable {α : Type} [Scalar α]

/-- An array or object that is still open, its elements last first. -/
inductive Frame (α : Type) where
  | array (items : List (Json α))
  | object (members : List (String × Json α)) (name : String)

/-- What may come next. -/
inductive Next (α : Type) where
  | value
  | valueOrClose
  /-- The name of a member, after the members read so far. -/
  | name (members : List (String × Json α))
  | nameOrClose
  | colon (members : List (String × Json α)) (name : String)
  /-- A value is complete. -/
  | done (value : Json α)

/-- The greatest number of arrays and objects open at once. -/
def maxOpen : Nat := 127

/-- The value of a number token. A whole number of at most 64 bits is an integer; a number
beyond every finite value is refused. -/
def ofNumeral (n : Decimal.Numeral) (whole : Bool) : Option (Json α) :=
  let n' : Int := if n.negative then -n.mantissa else n.mantissa
  if whole && (Decimal.isInt64 n' || Decimal.isCount 64 n')
      && !(n.negative && n.mantissa == 0) then
    some (.int n')
  else
    let x : α := n.value
    if Scalar.isFinite x then some (.real x) else none

/-- The value that a single token stands for. -/
def ofToken : Token → Option (Json α)
  | .null => some .null
  | .bool b => some (.bool b)
  | .number n whole => ofNumeral n whole
  | .string s => some (.str s)
  | _ => none

/-- The rest of a value, given the open arrays and objects and what may come next. -/
def ofTokens : List (Frame α) → Next α → List Token → Option (Json α)
  | [], .done v, [] => some v
  | _, _, [] => none
  | stack, .value, .openArray :: ts | stack, .valueOrClose, .openArray :: ts =>
    if stack.length < maxOpen then ofTokens (.array [] :: stack) .valueOrClose ts else none
  | stack, .value, .openObject :: ts | stack, .valueOrClose, .openObject :: ts =>
    if stack.length < maxOpen then ofTokens stack .nameOrClose ts else none
  | .array items :: stack, .valueOrClose, .closeArray :: ts =>
    ofTokens stack (.done (.arr items.reverse)) ts
  | stack, .value, t :: ts | stack, .valueOrClose, t :: ts => do
    ofTokens stack (.done (← ofToken t)) ts
  | stack, .nameOrClose, .closeObject :: ts => ofTokens stack (.done (.obj [])) ts
  | stack, .nameOrClose, .string s :: ts => ofTokens stack (.colon [] s) ts
  | stack, .name members, .string s :: ts => ofTokens stack (.colon members s) ts
  | stack, .colon members name, .colon :: ts =>
    ofTokens (.object members name :: stack) .value ts
  | .array items :: stack, .done v, .comma :: ts =>
    ofTokens (.array (v :: items) :: stack) .value ts
  | .array items :: stack, .done v, .closeArray :: ts =>
    ofTokens stack (.done (.arr (v :: items).reverse)) ts
  | .object members name :: stack, .done v, .comma :: ts =>
    ofTokens stack (.name (insert name v members)) ts
  | .object members name :: stack, .done v, .closeObject :: ts =>
    ofTokens stack (.done (.obj (insert name v members))) ts
  | _, _, _ => none

/-- The value that a text spells, if it spells one. -/
def parse (s : String) : Option (Json α) :=
  (Token.scan s).bind (ofTokens [] .value)

end Chartist.Json

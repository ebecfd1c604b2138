import Chartist.Calendar.Stamp
import Chartist.Catalog.Entry
import Chartist.Decimal.Fixed
import Chartist.Json.Writer
import Chartist.Scalar.Binary64

/-!
# Reports

What the commands print: the catalog, and the values of an indicator as a table or as a JSON
document.
-/

namespace Chartist.Command

/-- Lines, each with its end. -/
def lines (ls : List String) : String := String.join (ls.map (· ++ "\n"))

/-- A text with blanks after it, up to a width. -/
def leftAligned (width : Nat) (s : String) : String := s.pushn ' ' (width - s.length)

/-- A text with blanks in front of it, up to a width. -/
def rightAligned (width : Nat) (s : String) : String := "".pushn ' ' (width - s.length) ++ s

/-! ## The catalog -/

/-- A line of the catalog: a name in its column, and a text. -/
def catalogLine (name text : String) : String := "  " ++ leftAligned 14 name ++ " " ++ text

/-- The lines of an entry. -/
def entryLines (verbose : Bool) (e : Catalog.Entry Float) : List String :=
  catalogLine e.name e.description ::
    if verbose then
      [catalogLine "" (e.defaultConfig.compact Decimal.Layout.document.write)]
    else []

/-- The catalog, with the default configurations if asked. -/
def catalogText (verbose : Bool) : String :=
  lines <| ["Available Indicators", "".pushn '═' 59, ""]
    ++ (Catalog.entries : List (Catalog.Entry Float)).flatMap (entryLines verbose)
    ++ ["", "Use `barwise run --indicator <name> --params '<json>'` to evaluate one."]

/-! ## Values -/

/-- A bar's time, or its bare count where the calendar has no date for it. -/
def timeText (timestamp : Int) : String :=
  (Calendar.secondsText timestamp).getD (toString timestamp)

/-- A line for each bar: its time, and the value with a fixed number of places. -/
def tableText (precision : Nat) (bars : Bars Float) (values : Series Float) : String :=
  lines <| bars.zipWith (fun b x =>
    timeText b.timestamp ++ "  " ++ rightAligned 14 (Decimal.fixed precision x)) values

/-- The document about an evaluation. -/
def document (indicator : String) (params : Json Float) (bars : Bars Float)
    (values : Series Float) : Json Float :=
  Json.object [
    ("indicator", .str indicator),
    ("config", params),
    ("bars", .count bars.length),
    ("timestamps", Json.list (.int ·.timestamp) bars),
    ("values", Json.reals values)]

/-- The text of the document. -/
def documentText (indicator : String) (params : Json Float) (bars : Bars Float)
    (values : Series Float) : String :=
  lines [(document indicator params bars values).pretty Decimal.Layout.document.write]

end Chartist.Command

import Chartist.Catalog.Schema
import Chartist.Proofs.Catalog.Layout
import Chartist.Proofs.Whole

/-!
# JSON that reads back

Every type with a JSON form reads back what it wrote for a value that it had read, however that
value was given (`Schema.roundTrips`). The records are laid out by their fields; a cascade and a
rule are told apart by a name first, and their counts are written as they were read.
-/

namespace Chartist

open Json Window Chartist.Filter Adaptive

variable {α : Type}

/-! ## Records without defaults -/

def Catalog.Entry.fields : List (Field α (Entry α)) :=
  [.required "name" .string (·.name), .required "description" .string (·.description),
    .required "default_config" .any (·.defaultConfig)]

theorem Catalog.Entry.laidOut :
    LaidOut openRecord fields (form : Form α (Entry α)) where
  encode _ := rfl
  decode := ⟨_, fun _ => rfl, .field fun _ => .field fun _ => .field fun _ => .done (by simp)⟩
  sound := by simp [fields]
  distinct := by simp [fields]

/-! ## Cascades -/

/-- The depth of a cascade that was read fits 32 bits. -/
theorem Filter.Cascade.lt_of_decode {j : Json α} {depth : Nat}
    (read : (form : Form α Cascade).decode j = .ok (.deep depth)) : depth < 2 ^ 32 := by
  obtain ⟨r, -, read⟩ := exists_of_bind_ok read
  obtain ⟨kind, -, read⟩ := exists_of_bind_ok read
  split at read
  next =>
    obtain ⟨n, counted, same⟩ := exists_of_bind_ok read
    cases same
    exact Form.lt_of_natOfBits counted
  -- The other kinds have no depth, whatever was given for it.
  next => cases read
  next shallow _ =>
    cases read
    exact absurd rfl (shallow depth)
  next => cases read
  next shallow _ =>
    split at read
    · cases read
    · cases read
      exact absurd rfl (shallow depth)

/-- A deep cascade is read off its depth alone. -/
theorem Filter.Cascade.decode_deep (depth : Json α) :
    form.decode (object [("kind", .str "nema"), ("depth", depth)]) =
      natOfBits 32 depth >>= fun depth => pure (.deep depth) := rfl

theorem Filter.Cascade.roundTrips_form : (form : Form α Cascade).RoundTrips := by
  intro j c read
  cases c with
  | double => rfl
  | triple => rfl
  | deep depth =>
      have written : (form : Form α Cascade).encode (.deep depth) =
          object [("kind", .str "nema"), ("depth", count depth)] := rfl
      rw [written, decode_deep, Form.natOfBits_count (lt_of_decode read)]
      rfl

/-! ## Rules -/

namespace Adaptive.Rule

theorem decode_efficiency (period fast slow : Json α) :
    form.decode (object [("rule", .str "efficiency"), ("period", period), ("fast", fast),
      ("slow", slow)]) =
      nat period >>= fun period => nat fast >>= fun fast => nat slow >>= fun slow =>
        pure (.efficiency period fast slow) := rfl

theorem decode_momentum (period length : Json α) :
    form.decode (object [("rule", .str "momentum"), ("period", period), ("cmo_length", length)]) =
      nat period >>= fun period => nat length >>= fun length =>
        pure (.momentum period length) := rfl

theorem decode_volatility (period short long : Json α) :
    form.decode (object [("rule", .str "volatility"), ("period", period), ("short", short),
      ("long", long)]) =
      nat period >>= fun period => nat short >>= fun short => nat long >>= fun long =>
        pure (.volatility period short long) := rfl

/-- A count that a rule was given is read back. -/
theorem nat_of_required {r : Record α} {name : String} {n : Nat}
    (read : r.required name nat = .ok n) : nat (count n : Json α) = .ok n := by
  unfold Record.required at read
  split at read
  next => exact Form.natOfBits_count (Form.lt_of_natOfBits read)
  next => cases read

theorem roundTrips_form : (form : Form α Rule).RoundTrips := by
  intro j rule read
  obtain ⟨⟨name, given⟩, -, read⟩ := exists_of_bind_ok read
  obtain ⟨kind, -, read⟩ := exists_of_bind_ok read
  split at read
  case h_1 =>
    obtain ⟨r, -, read⟩ := exists_of_bind_ok read
    obtain ⟨period, first, read⟩ := exists_of_bind_ok read
    obtain ⟨fast, second, read⟩ := exists_of_bind_ok read
    obtain ⟨slow, third, read⟩ := exists_of_bind_ok read
    cases read
    refine (decode_efficiency (count period) (count fast) (count slow)).trans ?_
    rw [nat_of_required first, nat_of_required second, nat_of_required third]
    rfl
  case h_2 =>
    obtain ⟨r, -, read⟩ := exists_of_bind_ok read
    obtain ⟨period, first, read⟩ := exists_of_bind_ok read
    obtain ⟨length, second, read⟩ := exists_of_bind_ok read
    cases read
    refine (decode_momentum (count period) (count length)).trans ?_
    rw [nat_of_required first, nat_of_required second]
    rfl
  case h_3 =>
    obtain ⟨r, -, read⟩ := exists_of_bind_ok read
    obtain ⟨period, first, read⟩ := exists_of_bind_ok read
    obtain ⟨short, second, read⟩ := exists_of_bind_ok read
    obtain ⟨long, third, read⟩ := exists_of_bind_ok read
    cases read
    refine (decode_volatility (count period) (count short) (count long)).trans ?_
    rw [nat_of_required first, nat_of_required second, nat_of_required third]
    rfl

end Adaptive.Rule

/-! ## All types -/

variable [Scalar α]

def Bar.fields : List (Field α (Bar α)) :=
  [.required "timestamp" .int64 (·.timestamp), .required "open" .number (·.opening),
    .required "high" .number (·.high), .required "low" .number (·.low),
    .required "close" .number (·.close), .required "volume" .number (·.volume)]

theorem Bar.laidOut : LaidOut openRecord fields (form : Form α (Bar α)) where
  encode _ := rfl
  decode := ⟨_, fun _ => rfl, .field fun _ => .field fun _ => .field fun _ => .field fun _ =>
    .field fun _ => .field fun _ => .done (by simp)⟩
  sound := by simp [fields]
  distinct := by simp [fields]

def Position.fields : List (Field α (Position α)) :=
  [.required "entry_price" .number (·.entryPrice), .required "entry_bar" .nat (·.entryBar),
    .required "long" .boolean (·.long), .required "extremes" (.list .number) (·.extremes)]

theorem Position.laidOut : LaidOut openRecord fields (form : Form α (Position α)) where
  encode _ := rfl
  decode := ⟨_, fun _ => rfl,
    .field fun _ => .field fun _ => .field fun _ => .field fun _ => .done (by simp)⟩
  sound := by simp [fields, Form.roundTrips_list Form.total_number.roundTrips]
  distinct := by simp [fields]

namespace Schema

open Catalog

/-- Every type reads back what it writes for what it has read. -/
theorem roundTrips : ∀ entry ∈ (kinds : List (String × Kind α)), entry.2.form.RoundTrips := by
  simp only [kinds, List.forall_mem_cons]
  exact ⟨PriceSource.total_form.roundTrips, Bar.laidOut.roundTrips takes_openRecord,
    Position.laidOut.roundTrips takes_openRecord, Form.roundTrips_choice _ _,
    Cascade.roundTrips_form, Rule.roundTrips_form, Form.roundTrips_choice _ _,
    AverageMethod.total_form.roundTrips, VolatilityMeasure.total_form.roundTrips,
    ChannelLine.total_form.roundTrips, Entry.laidOut.roundTrips takes_openRecord,
    PeriodConfig.completed.roundTrips, BarPeriodConfig.completed.roundTrips,
    EmptyConfig.completed.roundTrips, AverageConfig.completed.roundTrips,
    DeepConfig.completed.roundTrips, EfficiencyConfig.completed.roundTrips,
    MomentumConfig.completed.roundTrips, VolatilityConfig.completed.roundTrips,
    FractalConfig.completed.roundTrips, GammaConfig.completed.roundTrips,
    KalmanConfig.completed.roundTrips, RankConfig.completed.roundTrips,
    MacdConfig.completed.roundTrips, BollingerConfig.completed.roundTrips,
    DonchianConfig.completed.roundTrips, fun _ none => nomatch none⟩

/-- Types are told apart by their names. -/
theorem names_nodup : ((kinds : List (String × Kind α)).map Prod.fst).Nodup := by
  simp [kinds]

/-- A value that was read off some JSON, whichever of its spellings that was, is written as JSON
that reads as the same value, and that is not changed by being read and written again. -/
theorem reads_back (type : String) (kind : Kind α)
    (known : (type, kind) ∈ (kinds : List (String × Kind α))) (given : Json α) (x : kind.Carrier)
    (read : kind.form.decode given = .ok x) :
    kind.form.decode (kind.form.encode x) = .ok x ∧
      normalize type given = some (.ok (kind.form.encode x)) ∧
      normalize type (kind.form.encode x) = some (.ok (kind.form.encode x)) := by
  have roundTrips : kind.form.RoundTrips := Schema.roundTrips _ known
  have found : kinds.lookup type = some kind := lookup_of_mem names_nodup known
  have written : kind.form.normalize given = .ok (kind.form.encode x) := by
    rw [Form.normalize, read]
    rfl
  refine ⟨roundTrips given x read, ?_, ?_⟩
  · rw [normalize, found, Option.map_some, written]
  · rw [normalize, found, Option.map_some, roundTrips.normalize_idem written]

/-- An average by the code of its method, given by position and without its price. -/
theorem reads_back_whole :
    let kind : Kind Whole := ⟨_, AverageConfig.form⟩
    let given : Json Whole := .arr [.int 5, .int 1]
    let read : AverageConfig := { period := 5, method := .exponential }
    ("ma_config", kind) ∈ (kinds : List (String × Kind Whole)) ∧
      kind.form.decode given = .ok read ∧
      kind.form.decode (kind.form.encode read) = .ok read ∧
      normalize "ma_config" given = some (.ok (kind.form.encode read)) ∧
      normalize "ma_config" (kind.form.encode read) = some (.ok (kind.form.encode read)) :=
  have known := by simp [kinds]
  have read := rfl
  ⟨known, read, reads_back "ma_config" _ known _ _ read⟩

end Schema

end Chartist

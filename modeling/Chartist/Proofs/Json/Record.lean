import Chartist.Proofs.Json.Form
import Chartist.Proofs.Json.Members

/-!
# Records of fields

A record is laid out by a list of `Field`s. Its form writes one member for each of them, and reads
them one after the other (`Reads`), each from its member or by its default; `LaidOut` says so of a
form. What is read from such a form is written as JSON that reads as the same
(`LaidOut.roundTrips`), and members that were not given may be filled in with defaults
(`Completed.decode_overlay`).
-/

namespace Chartist.Json

variable {α C : Type}

/-- A field of the records in `C`. -/
structure Field (α C : Type) where
  name : String
  Value : Type
  form : Form α Value
  /-- The value where the field is not given; without one it has to be. -/
  default : Option Value
  get : C → Value

namespace Field

/-- Reads the field off the members that were given. -/
def read (f : Field α C) (r : Record α) : Decoded f.Value :=
  match f.default with
  | some d => r.field f.name f.form.decode d
  | none => r.required f.name f.form.decode

/-- The member that a record has for the field. -/
def member (f : Field α C) (c : C) : String × Json α := (f.name, f.form.encode (f.get c))

/-- What was read is written as a value that it is read off, and so is the default. -/
structure Sound (f : Field α C) : Prop where
  roundTrips : f.form.RoundTrips
  fits : ∀ d, f.default = some d → f.form.decode (f.form.encode d) = .ok d

theorem read_of_lookup {f : Field α C} {r : Record α} {j : Json α}
    (given : r.lookup f.name = some j) : f.read r = f.form.decode j := by
  unfold read
  split <;> simp only [Record.field, Record.required, given]

theorem read_of_absent {f : Field α C} {r : Record α} (absent : r.lookup f.name = none) :
    f.read r = match f.default with
      | some d => .ok d
      | none => .error (.missingField f.name) := by
  unfold read
  split <;> simp only [Record.field, Record.required, absent]

/-- A value that was read is read off what is written for it. -/
theorem Sound.decode_encode {f : Field α C} (sound : f.Sound) {r : Record α} {a : f.Value}
    (done : f.read r = .ok a) : f.form.decode (f.form.encode a) = .ok a := by
  cases given : r.lookup f.name with
  | some j => exact sound.roundTrips j a (read_of_lookup given ▸ done)
  | none =>
      rw [read_of_absent given] at done
      split at done
      next d known =>
        cases done
        exact sound.fits _ known
      next => cases done

/-- Filling in the default of a field that was not given changes nothing. -/
theorem Sound.read_overlay {f : Field α C} (sound : f.Sound) {base : List (String × Json α)}
    (filled : base.lookup f.name = f.default.map f.form.encode) (r : Record α) :
    f.read (overlay base r) = f.read r := by
  have found := lookup_overlay base r f.name
  cases given : r.lookup f.name with
  | some j =>
      rw [given] at found
      rw [read_of_lookup found, read_of_lookup given]
  | none =>
      rw [given, Option.none_or, filled] at found
      rw [read_of_absent given]
      split
      next d known =>
        rw [known, Option.map_some] at found
        rw [read_of_lookup found, sound.fits d known]
      next missing =>
        rw [missing, Option.map_none] at found
        rw [read_of_absent found, missing]

/-! Fields with and without a default -/

/-- A field that is that of a default record where it is not given. -/
@[simps]
def optional {τ : Type} (name : String) (form : Form α τ) (get : C → τ) (default : C) : Field α C :=
  ⟨name, τ, form, some (get default), get⟩

/-- A field that has to be given. -/
@[simps]
def required {τ : Type} (name : String) (form : Form α τ) (get : C → τ) : Field α C :=
  ⟨name, τ, form, none, get⟩

/-- Where the field is not given, it is that of the record. -/
def DefaultsTo (f : Field α C) (c : C) : Prop := f.default = some (f.get c)

variable {τ : Type} {name : String} {default : C}

@[simp]
theorem defaultsTo_optional {form : Form α τ} {get : C → τ} :
    (optional name form get default).DefaultsTo default := rfl

@[simp]
theorem sound_required {form : Form α τ} {get : C → τ} (roundTrips : form.RoundTrips) :
    (required name form get).Sound :=
  ⟨roundTrips, fun _ none => nomatch none⟩

theorem sound_optional_of_fits {form : Form α τ} {get : C → τ} (roundTrips : form.RoundTrips)
    (fits : form.decode (form.encode (get default)) = .ok (get default)) :
    (optional name form get default).Sound := by
  refine ⟨roundTrips, fun d same => ?_⟩
  cases same
  exact fits

@[simp]
theorem sound_optional {form : Form α τ} {get : C → τ} (total : form.Total) :
    (optional name form get default).Sound :=
  sound_optional_of_fits total.roundTrips (total _)

/-- A count as default has to fit its bits. -/
@[simp]
theorem sound_optional_nat {get : C → Nat} (fits : get default < 2 ^ 64) :
    (optional name (.nat : Form α Nat) get default).Sound :=
  sound_optional_of_fits Form.roundTrips_nat (Form.decode_nat fits)

@[simp]
theorem sound_optional_nat32 {get : C → Nat} (fits : get default < 2 ^ 32) :
    (optional name (.nat32 : Form α Nat) get default).Sound :=
  sound_optional_of_fits Form.roundTrips_nat32 (Form.decode_nat32 fits)

end Field

/-- The reader takes the fields off a record one after the other, and returns what has their values
and whatever `holds` says. -/
inductive Reads : List (Field α C) → (C → Prop) → (Record α → Decoded C) → Prop where
  | done {holds : C → Prop} {c : C} (all : holds c) : Reads [] holds fun _ => pure c
  | field {f : Field α C} {fields : List (Field α C)} {holds : C → Prop}
      {next : f.Value → Record α → Decoded C}
      (rest : ∀ a, Reads fields (fun c => holds c ∧ f.get c = a) (next a)) :
      Reads (f :: fields) holds fun r => f.read r >>= fun a => next a r

namespace Reads

variable {fields : List (Field α C)} {holds : C → Prop} {read : Record α → Decoded C}

/-- What is read has the values that were read for its fields, so it is read off every record that
has its members. -/
theorem again (reads : Reads fields holds read) (sound : ∀ f ∈ fields, f.Sound) {r : Record α} {c : C}
    (done : read r = .ok c) :
    holds c ∧ ∀ r' : Record α, (∀ f ∈ fields, r'.lookup f.name = some (f.member c).2) →
      read r' = .ok c := by
  -- along the fields; `holds` carries back from the record the values that were read before
  induction reads generalizing r with
  | done all =>
      cases done
      exact ⟨all, fun _ _ => rfl⟩
  | @field f fields holds next rest ih =>
      obtain ⟨a, first, later⟩ := exists_of_bind_ok done
      obtain ⟨⟨kept, rfl⟩, again⟩ := ih a (fun f member => sound f (List.mem_cons_of_mem _ member)) later
      refine ⟨kept, fun r' members => ?_⟩
      have value := (sound f List.mem_cons_self).decode_encode first
      show f.read r' >>= (next · r') = .ok c
      rw [Field.read_of_lookup (members f List.mem_cons_self), Field.member, value]
      exact again r' fun f member => members f (List.mem_cons_of_mem _ member)

/-- Filling in defaults changes nothing of what is read. -/
theorem overlay (reads : Reads fields holds read) (sound : ∀ f ∈ fields, f.Sound)
    {base : List (String × Json α)}
    (filled : ∀ f ∈ fields, base.lookup f.name = f.default.map f.form.encode) (r : Record α) :
    read (overlay base r) = read r := by
  induction reads with
  | done all => rfl
  | @field f fields holds next rest ih =>
      have first := (sound f List.mem_cons_self).read_overlay (filled f List.mem_cons_self) r
      simp only [first]
      refine congrArg (f.read r >>= ·) (funext fun a => ?_)
      exact ih a (fun f member => sound f (List.mem_cons_of_mem _ member)) fun f member =>
        filled f (List.mem_cons_of_mem _ member)

end Reads

/-- The names of the members that a record is written with are those of its fields. -/
theorem names_member (fields : List (Field α C)) (c : C) :
    (fields.map (·.member c)).map Prod.fst = fields.map Field.name := by
  rw [List.map_map]
  rfl

/-! ## Which members are known -/

/-- Members with known names are taken off an object. -/
def Takes (take : List String → Json α → Decoded (Record α)) : Prop :=
  ∀ names members, (∀ name ∈ members.map Prod.fst, name ∈ names) →
    take names (.obj members) = .ok members

theorem takes_record : Takes (record : List String → Json α → Decoded (Record α)) := by
  intro names members known
  simp only [record]
  rw [List.find?_eq_none.mpr]
  intro entry member
  simpa using known entry.1 (List.mem_map_of_mem member)

theorem takes_openRecord : Takes (openRecord : List String → Json α → Decoded (Record α)) :=
  fun _ _ _ => rfl

/-- A record is refused for a member that it has no field for. -/
theorem record_unknown {names : List String} {members : List (String × Json α)} {name : String}
    (given : name ∈ members.map Prod.fst) (unknown : name ∉ names) :
    ∃ e, record names (.obj members) = .error e := by
  obtain ⟨entry, member, rfl⟩ := List.mem_map.mp given
  simp only [record]
  split
  next => exact ⟨_, rfl⟩
  next found =>
    rw [List.find?_eq_none] at found
    exact absurd (by simpa using unknown) (found entry member)

/-! ## Forms of records -/

/-- The form writes a record by its fields, and reads the fields off the members that `take` leaves. -/
structure LaidOut (take : List String → Json α → Decoded (Record α)) (fields : List (Field α C))
    (form : Form α C) : Prop where
  encode : ∀ c, form.encode c = object (fields.map (·.member c))
  decode : ∃ read, (∀ j, form.decode j = take (fields.map Field.name) j >>= read) ∧
    Reads fields (fun _ => True) read
  sound : ∀ f ∈ fields, f.Sound
  distinct : (fields.map Field.name).Nodup

namespace LaidOut

variable {take : List String → Json α → Decoded (Record α)} {fields : List (Field α C)}
  {form : Form α C}

theorem lookup (laid : LaidOut take fields form) (c : C) {f : Field α C} (member : f ∈ fields) :
    (sorted (fields.map (·.member c))).lookup f.name = some (f.member c).2 := by
  have distinct : ((fields.map (·.member c)).map Prod.fst).Nodup := names_member fields c ▸ laid.distinct
  rw [lookup_sorted distinct]
  exact lookup_of_mem distinct (List.mem_map_of_mem (f := fun f => f.member c) member)

theorem mem_names (laid : LaidOut take fields form) (c : C) {name : String} :
    name ∈ (sorted (fields.map (·.member c))).map Prod.fst ↔ name ∈ fields.map Field.name := by
  rw [mem_sorted (names_member fields c ▸ laid.distinct), names_member]

theorem roundTrips (laid : LaidOut take fields form) (takes : Takes take) : form.RoundTrips := by
  intro j c done
  obtain ⟨read, decode, reads⟩ := laid.decode
  rw [decode] at done
  obtain ⟨r, -, done⟩ := exists_of_bind_ok done
  have again := (reads.again laid.sound done).2 _ fun f member => laid.lookup c member
  rw [decode, laid.encode, object_eq, takes _ _ fun name => (laid.mem_names c).mp]
  exact again

end LaidOut

/-! ## Defaults -/

/-- The form knows no members but those of its fields, and completes a record by those of another. -/
structure Completed (fields : List (Field α C)) (form : Form α C) (default : C) : Prop
    extends laidOut : LaidOut record fields form where
  defaults : ∀ f ∈ fields, f.DefaultsTo default

namespace Completed

variable {fields : List (Field α C)} {form : Form α C} {default : C}

theorem roundTrips (completed : Completed fields form default) : form.RoundTrips :=
  completed.laidOut.roundTrips takes_record

/-- The default has a member for every field. -/
theorem lookup_default (completed : Completed fields form default) {f : Field α C}
    (member : f ∈ fields) :
    (sorted (fields.map (·.member default))).lookup f.name = f.default.map f.form.encode := by
  have filled : f.default = some (f.get default) := completed.defaults f member
  rw [completed.laidOut.lookup default member, filled]
  rfl

/-- Members for fields alone may be laid over those of the default. -/
theorem decode_overlay (completed : Completed fields form default) {members : List (String × Json α)}
    (known : ∀ name ∈ members.map Prod.fst, name ∈ fields.map Field.name) :
    form.decode (.obj (overlay (sorted (fields.map (·.member default))) members)) =
      form.decode (.obj members) := by
  obtain ⟨read, decode, reads⟩ := completed.decode
  have all : ∀ name ∈ (overlay (sorted (fields.map (·.member default))) members).map Prod.fst,
      name ∈ fields.map Field.name := by
    intro name given
    rcases mem_overlay.mp given with given | base
    · exact known name given
    · exact (completed.laidOut.mem_names default).mp base
  rw [decode, decode, takes_record _ _ all, takes_record _ _ known]
  exact reads.overlay completed.sound (fun f member => completed.lookup_default member) members

/-- A member that there is no field for makes the reader fail. -/
theorem decode_unknown (completed : Completed fields form default) {members : List (String × Json α)}
    {name : String} (given : name ∈ members.map Prod.fst) (unknown : name ∉ fields.map Field.name) :
    ∃ e, form.decode (.obj members) = .error e := by
  obtain ⟨read, decode, -⟩ := completed.decode
  obtain ⟨e, refused⟩ := record_unknown given unknown
  refine ⟨e, ?_⟩
  rw [decode, refused]
  rfl

end Completed

end Chartist.Json

import Subscription.Alteration.Request
import Subscription.Alteration.Occasion
import Subscription.Proofs.FieldReading
import Subscription.Proofs.Rereading
import Subscription.Proofs.Tiers
import Subscription.Document.Basic
import Subscription.Replay.Record

/-! # Stored forms

A value is read back from its stored form (`LawfulStored.decode?_encode`).  For scalars and
lists this is shown once.  An object is written field by field, under the names that its
reader asks for, so it is read back when each field is (`Table.required_bind`,
`Table.defaulted_bind`); what a reader makes of an array, of a missing field or of one that it
does not know plays no part.  Whatever a value was first read from, its stored form is then
rewritten to itself (`LawfulStored.roundTrips`).

States and records carry the fields of their facets unread, and of those the medium decides:
they are read back exactly if no name occurs twice, the numerals are read back and nothing nests
too deep (`Table.decode?_encode_facets_iff`).  `RoundTripsIn` says what this comes to;
`storedForms_roundTrip` puts the stored types together, and `handedOn_roundTrip` says what is left
of the conditions where nothing is written out.
-/
namespace Subscription

open Stored

/-- A type whose values are read back from their stored forms. -/
class LawfulStored (α : Type) [Stored α] : Prop where
  decode?_encode : ∀ a : α, decode? (encode a) = some a

export LawfulStored (decode?_encode)

/-- A type of which no value is stored as null, so that null can stand for no value. -/
class NeverNull (α : Type) [Stored α] : Prop where
  encode_ne_null : ∀ a : α, encode a ≠ .null

/-! ## Scalars -/

instance : LawfulStored Bool where
  decode?_encode _ := rfl

instance : LawfulStored String where
  decode?_encode _ := rfl

instance : LawfulStored UInt32 where
  decode?_encode _ := decode?_uint32_eq_some_iff.mpr rfl

instance : LawfulStored UInt64 where
  decode?_encode n := by
    show (if 0 ≤ (n.toNat : Int) ∧ (n.toNat : Int).toNat < UInt64.size then _ else _) = _
    rw [if_pos ⟨Int.natCast_nonneg _, by rw [Int.toNat_natCast]; exact n.toNat_lt⟩,
      Int.toNat_natCast, UInt64.ofNat_toNat]

instance : LawfulStored Seconds where
  decode?_encode _ := decode?_seconds_eq_some_iff.mpr rfl

instance : NeverNull Bool := ⟨fun _ => Value.noConfusion⟩
instance : NeverNull String := ⟨fun _ => Value.noConfusion⟩
instance : NeverNull UInt32 := ⟨fun _ => Value.noConfusion⟩
instance : NeverNull Seconds := ⟨fun _ => Value.noConfusion⟩

/-! ## Containers -/

section Containers
variable {α : Type} [Stored α] [LawfulStored α]

instance : LawfulStored (List α) where
  decode?_encode xs := by
    show (xs.map encode).mapM decode? = some xs
    rw [List.mapM_map]
    exact mapM_eq_self_iff.mpr fun x _ => decode?_encode x

instance [NeverNull α] : LawfulStored (Option α) where
  decode?_encode
    | none => rfl
    | some a => by
      have hread : (decode? (encode a) : Option (Option α)) = (decode? (encode a)).map some := by
        have hne := NeverNull.encode_ne_null a
        show (match encode a with | .null => some none | v => (decode? v).map some) = _
        split
        · rename_i h
          exact absurd h hne
        · rfl
      show decode? (encode a) = _
      rw [hread, decode?_encode]
      rfl

end Containers

/-! ## Names -/

instance : LawfulStored Facet where
  decode?_encode f := by cases f <;> rfl

instance : LawfulStored Availability where
  decode?_encode a := by cases a <;> rfl

instance : LawfulStored Method where
  decode?_encode m := by cases m <;> rfl

instance : LawfulStored TrialState where
  decode?_encode s := by cases s <;> rfl

instance : LawfulStored ActiveReason where
  decode?_encode r := by cases r <;> rfl

instance : LawfulStored ActionKind where
  decode?_encode k := by cases k <;> rfl

instance : LawfulStored TrialBehaviour where
  decode?_encode b := by cases b <;> rfl

instance : LawfulStored ExtendRule where
  decode?_encode r := by cases r <;> rfl

/-! ## Objects -/

section Objects
variable {α β : Type} [Stored α] {t : Fields} {names : List String} {least : Nat}
variable {name : String} {v : Value}

/-- A structure is read from the object that was written. -/
theorem Value.struct?_bind {f : Fields → Option β}
    (hnames : decide (t.names.filter names.contains).Nodup = true) :
    ((object t).struct? names least).bind f = f t := by
  show (if _ then some t else none).bind f = _
  rw [if_pos (of_decide_eq_true hnames)]
  rfl

/-- No field is written that the reader does not know. -/
theorem Value.closedStruct?_bind {f : Fields → Option β}
    (hnames : decide (t.names.filter names.contains).Nodup = true)
    (hknown : t.names.all names.contains = true) :
    ((object t).closedStruct? names least).bind f = f t := by
  show ((if _ then some t else none).filter _).bind f = _
  rw [if_pos (of_decide_eq_true hnames), Option.filter_some, if_pos hknown]
  rfl

namespace Table

/-- A field that is there does not take its default. -/
theorem defaulted_of_get? {default : α} (hget : t.get? name = some v) :
    t.defaulted name default = decode? v := by
  unfold defaulted
  rw [hget]

theorem defaulted_map {default : α} {g : α → β} (hget : t.get? name = some v) :
    (t.defaulted name default).bind (fun a => some (g a)) = (decode? v).map g := by
  rw [defaulted_of_get? hget]
  exact (Option.map_eq_bind ..).symm

variable [LawfulStored α] {a : α} {f : α → Option β}

/-- A required field is read as what was written to it. -/
theorem required_bind (hget : t.get? name = some (encode a)) :
    (t.required name).bind f = f a := by
  unfold required
  rw [hget, Option.bind_some, decode?_encode, Option.bind_some]

theorem defaulted_bind {default : α} (hget : t.get? name = some (encode a)) :
    (t.defaulted name default).bind f = f a := by
  rw [defaulted_of_get? hget, decode?_encode, Option.bind_some]

end Table
end Objects

instance : LawfulStored Status where
  decode?_encode s := by
    refine (Value.struct?_bind (by rfl)).trans ?_
    refine (Table.required_bind (a := s.availability) rfl).trans ?_
    refine (Table.required_bind (a := s.code) rfl).trans ?_
    exact Table.required_bind (a := s.message) rfl

instance : LawfulStored Circumstance where
  decode?_encode c := by
    refine (Value.struct?_bind (by rfl)).trans ?_
    refine (Table.required_bind (a := c.occupancy) rfl).trans ?_
    exact Table.required_bind (a := c.postpaymentPeriod) rfl

/-- The rule is written first and tells whether a value follows. -/
instance : LawfulStored Prolongation where
  decode?_encode
    | .extend delta => by
      show (Table.required _ "value").bind _ = _
      exact Table.required_bind (a := delta) rfl
    | .set expiry => by
      show (Table.required _ "value").bind _ = _
      exact Table.required_bind (a := expiry) rfl
    | .infinite => rfl
    | .none => rfl

/-- The one field of the object tells what is expected. -/
instance [Medium] : LawfulStored ExpectedExpiry where
  decode?_encode
    | .none => rfl
    | .strict value => by
      show (decode? (encode value)).map ExpectedExpiry.strict = _
      rw [decode?_encode]
      rfl
    | .range value delta => by
      show (Table.required _ "value").bind _ = _
      refine (Table.required_bind (a := value) rfl).trans ?_
      exact Table.required_bind (a := delta) rfl

/-- A catalog is checked again when it is read, and passes. -/
instance : LawfulStored Catalog where
  decode?_encode c := by
    refine (Value.struct?_bind (by rfl)).trans ?_
    refine (Table.required_bind (a := c.tiers.toList) rfl).trans ?_
    refine (Table.defaulted_bind (a := c.free) rfl).trans ?_
    show (Catalog.ofTiers c.tiers.toList c.free).toOption = some c
    rw [Catalog.ofTiers_eq_ok_iff.mpr ⟨rfl, rfl⟩]
    rfl

/-! ## Documents

No other fields than those written are let in. -/

instance : LawfulStored Span where
  decode?_encode s := by
    refine (Value.closedStruct?_bind (by rfl) (by rfl)).trans ?_
    refine (Table.required_bind (a := s.first) rfl).trans ?_
    refine (Table.required_bind (a := s.last) rfl).trans ?_
    exact Table.defaulted_bind (a := s.step) rfl

instance : LawfulStored DeclaredRules where
  decode?_encode r := by
    refine (Value.closedStruct?_bind (by rfl) (by rfl)).trans ?_
    refine (Table.defaulted_bind (a := r.exceedAllowsPlainProlongation) rfl).trans ?_
    refine (Table.defaulted_bind (a := r.blockUntilTrialStarted) rfl).trans ?_
    exact Table.defaulted_bind (a := r.freeChangesDuringTrial) rfl

instance : LawfulStored DeclaredDefaults where
  decode?_encode d := by
    refine (Value.closedStruct?_bind (by rfl) (by rfl)).trans ?_
    refine (Table.defaulted_bind (a := d.limit) rfl).trans ?_
    refine (Table.defaulted_bind (a := d.extendPolicy) rfl).trans ?_
    refine (Table.defaulted_bind (a := d.restrictActiveFrom) rfl).trans ?_
    exact Table.defaulted_bind (a := d.demoActiveUntil) rfl

instance : LawfulStored Declaration where
  decode?_encode d := by
    refine (Value.closedStruct?_bind (by rfl) (by rfl)).trans ?_
    refine (Table.required_bind (a := d.name) rfl).trans ?_
    refine (Table.required_bind (a := d.id) rfl).trans ?_
    refine (Table.required_bind (a := d.variants) rfl).trans ?_
    refine (Table.required_bind (a := d.facets) rfl).trans ?_
    refine (Table.defaulted_bind (a := d.spans) rfl).trans ?_
    refine (Table.defaulted_bind (a := d.freeTiers) rfl).trans ?_
    refine (Table.defaulted_bind (a := d.trialThreshold) rfl).trans ?_
    refine (Table.defaulted_bind (a := d.rules) rfl).trans ?_
    exact Table.defaulted_bind (a := d.defaults) rfl

instance : LawfulStored Document where
  decode?_encode d := by
    refine (Value.closedStruct?_bind (by rfl) (by rfl)).trans ?_
    exact Table.defaulted_bind (a := d.families) rfl

/-! ## Rewriting -/

/-- Reads a value and writes what was read. -/
def rewrite? (α : Type) [Stored α] (v : Value) : Option Value :=
  (decode? v : Option α).map encode

/-- Every value is read back from its stored form, and whatever can be read at all is
rewritten to a form that rewriting leaves alone. -/
structure RoundTrips (α : Type) [Stored α] : Prop where
  read_written : ∀ a : α, decode? (encode a) = some a
  rewrite_rewritten : ∀ v w : Value, rewrite? α v = some w → rewrite? α w = some w

theorem LawfulStored.roundTrips {α : Type} [Stored α] [LawfulStored α] : RoundTrips α where
  read_written a := decode?_encode a
  rewrite_rewritten v w h := by
    obtain ⟨a, -, rfl⟩ := Option.map_eq_some_iff.mp h
    unfold rewrite?
    rw [decode?_encode]
    rfl

/-! ## Fields of facets -/

namespace Table

/-- No name occurs twice, among the facets or within their fields, and every numeral has the
property. -/
structure Regular (P : String → Prop) (facets : Table Fields) : Prop where
  names_nodup : facets.names.Nodup
  fields_regular : ∀ e ∈ facets.entries, (Value.object e.2).Regular P

theorem Regular.imp {P Q : String → Prop} {facets : Table Fields} (h : facets.Regular P)
    (hPQ : ∀ numeral, P numeral → Q numeral) : facets.Regular Q :=
  ⟨h.names_nodup, fun e he => (h.fields_regular e he).imp hPQ⟩

variable [Medium] {facets : Table Fields}

/-- No fields nest deeper than is read. -/
def Fit (facets : Table Fields) : Prop :=
  ∀ e ∈ facets.entries, Medium.admits (Value.object e.2).nesting = true

theorem decode?_encode_facets_iff :
    decode? (encode facets) = some facets ↔ facets.Regular Medium.ReadsBack ∧ facets.Fit := by
  have hfields (fields : Fields) : decode? (encode fields) = some fields ↔ _ :=
    Value.readFields?_eq_self_iff
  refine Iff.trans (b := facets.names.Nodup ∧ _) readEach_map_eq_iff ?_
  constructor
  · rintro ⟨hnames, hread⟩
    exact ⟨⟨hnames, fun e he => ((hfields e.2).mp (hread e he)).1⟩,
      fun e he => ((hfields e.2).mp (hread e he)).2⟩
  · rintro ⟨⟨hnames, hregular⟩, hfit⟩
    exact ⟨hnames, fun e he => (hfields e.2).mpr ⟨hregular e he, hfit e he⟩⟩

/-- Whatever facets are read from, their fields can be read again, up to their numerals. -/
theorem regular_of_decode? {v : Value} (h : decode? v = some facets) :
    facets.Regular Medium.IsRewritten ∧ facets.Fit := by
  cases v with
  | object entries =>
    have hread : entries.readEach decode? = some facets := h
    have hfields : ∀ e ∈ facets.entries, (Value.object e.2).Regular Medium.IsRewritten ∧
        Medium.admits (Value.object e.2).nesting = true := by
      intro e he
      obtain ⟨u, -, hu⟩ := exists_of_mem_readEach hread he
      obtain ⟨fields, -, hfields⟩ := Option.bind_eq_some_iff.mp hu
      exact Value.regular_of_readFields? hfields
    exact ⟨⟨names_nodup_of_readEach hread, fun e he => (hfields e he).1⟩,
      fun e he => (hfields e he).2⟩
  | _ => cases h

/-- Facets that are missing are read as none. -/
theorem regular_of_defaulted {t : Fields} {name : String}
    (h : t.defaulted name {} = some facets) :
    facets.Regular Medium.IsRewritten ∧ facets.Fit := by
  unfold defaulted at h
  split at h
  · cases h
    exact ⟨⟨List.nodup_nil, nofun⟩, nofun⟩
  · exact regular_of_decode? h

end Table

/-- A type whose values carry the fields of facets goes round as far as its medium lets it.  A
value is read back exactly if its fields are.  In a faithful medium this is every value whose
tables are maps, with no name twice, and whose numerals are written for numbers.  Whatever is read
has maps and numerals of numbers that were read, and a stable medium rewrites it to itself. -/
structure RoundTripsIn (α : Type) [Stored α] [Medium] (facets : α → Table Fields) : Prop where
  read_written_iff : ∀ a : α, decode? (encode a) = some a ↔
    (facets a).Regular Medium.ReadsBack ∧ (facets a).Fit
  read_written : Medium.Faithful → ∀ a : α, (facets a).Regular Medium.IsWritten →
    decode? (encode a) = some a
  regular_of_read : ∀ (v : Value) (a : α), decode? v = some a →
    (facets a).Regular Medium.IsRewritten ∧ (facets a).Fit
  rewrite_rewritten : Medium.Stable → ∀ v w : Value, rewrite? α v = some w →
    rewrite? α w = some w

section Facets
variable [Medium]

/-- It is enough that a value is read back when its facets are. -/
theorem roundTripsIn_of_facets {α : Type} [Stored α] {facets : α → Table Fields}
    (hencode : ∀ a : α, decode? (encode a) = some a ↔
      decode? (encode (facets a)) = some (facets a))
    (hdecode : ∀ (v : Value) (a : α), decode? v = some a →
      (facets a).Regular Medium.IsRewritten ∧ (facets a).Fit) : RoundTripsIn α facets := by
  have hiff (a : α) := (hencode a).trans Table.decode?_encode_facets_iff
  refine ⟨hiff, fun hmedium a ha => ?_, hdecode, fun hmedium v w h => ?_⟩
  · exact (hiff a).mpr ⟨ha.imp fun _ => hmedium.readsBack, fun e _ => hmedium.admits _⟩
  · obtain ⟨a, ha, rfl⟩ := Option.map_eq_some_iff.mp h
    obtain ⟨hregular, hfit⟩ := hdecode v a ha
    unfold rewrite?
    rw [(hiff a).mpr ⟨hregular.imp fun _ => hmedium.readsBack, hfit⟩]
    rfl

theorem StoredState.roundTripsIn : RoundTripsIn StoredState StoredState.facets := by
  refine roundTripsIn_of_facets (fun s => ?_) fun v s h => ?_
  · have hread : decode? (encode s) =
        (decode? (encode s.facets)).map fun facets => { s with facets := facets } := by
      refine (Value.struct?_bind (by rfl)).trans ?_
      refine (Table.required_bind (a := s.planType) rfl).trans ?_
      refine (Table.required_bind (a := s.variant) rfl).trans ?_
      refine (Table.required_bind (a := s.validUntil) rfl).trans ?_
      refine (Table.required_bind (a := s.activeUntil) rfl).trans ?_
      refine (Table.required_bind (a := s.freeActiveUntil) rfl).trans ?_
      exact Table.defaulted_map (v := encode s.facets) rfl
    rw [hread]
    cases s
    simp
  · obtain ⟨t, -, h⟩ := Option.bind_eq_some_iff.mp h
    obtain ⟨_, -, h⟩ := Option.bind_eq_some_iff.mp h
    obtain ⟨_, -, h⟩ := Option.bind_eq_some_iff.mp h
    obtain ⟨_, -, h⟩ := Option.bind_eq_some_iff.mp h
    obtain ⟨_, -, h⟩ := Option.bind_eq_some_iff.mp h
    obtain ⟨_, -, h⟩ := Option.bind_eq_some_iff.mp h
    obtain ⟨facets, hfacets, h⟩ := Option.bind_eq_some_iff.mp h
    cases h
    exact Table.regular_of_defaulted hfacets

theorem Record.roundTripsIn : RoundTripsIn Record Record.facets := by
  refine roundTripsIn_of_facets (fun r => ?_) fun v r h => ?_
  · have hread : decode? (encode r) =
        (decode? (encode r.facets)).map fun facets => { r with facets := facets } := by
      refine (Value.struct?_bind (by rfl)).trans ?_
      refine (Table.required_bind (a := r.id) rfl).trans ?_
      refine (Table.required_bind (a := r.variant) rfl).trans ?_
      refine (Table.required_bind (a := r.activeUntil) rfl).trans ?_
      refine (Table.required_bind (a := r.freeActiveUntil) rfl).trans ?_
      exact Table.defaulted_map (v := encode r.facets) rfl
    rw [hread]
    cases r
    simp
  · obtain ⟨t, -, h⟩ := Option.bind_eq_some_iff.mp h
    obtain ⟨_, -, h⟩ := Option.bind_eq_some_iff.mp h
    obtain ⟨_, -, h⟩ := Option.bind_eq_some_iff.mp h
    obtain ⟨_, -, h⟩ := Option.bind_eq_some_iff.mp h
    obtain ⟨_, -, h⟩ := Option.bind_eq_some_iff.mp h
    obtain ⟨facets, hfacets, h⟩ := Option.bind_eq_some_iff.mp h
    cases h
    exact Table.regular_of_defaulted hfacets

/-- **All stored types go round.**  What is written is read back as it was, for statuses,
catalogs, documents with their declarations, the numbers of variants, circumstances and
everything that occasions and requests name.  States and records, whatever fields their facets
have, go round as far as their medium lets them. -/
theorem storedForms_roundTrip :
    (RoundTrips Availability ∧ RoundTrips Status ∧ RoundTrips Catalog ∧
      RoundTrips Document ∧ RoundTrips Declaration ∧ RoundTrips DeclaredRules ∧
      RoundTrips DeclaredDefaults ∧ RoundTrips Span ∧ RoundTrips Facet ∧
      RoundTrips UInt32 ∧ RoundTrips Circumstance ∧ RoundTrips Method ∧
      RoundTrips TrialState ∧ RoundTrips ActiveReason ∧ RoundTrips ActionKind ∧
      RoundTrips Prolongation ∧ RoundTrips TrialBehaviour ∧ RoundTrips ExpectedExpiry ∧
      RoundTrips ExtendRule) ∧
    RoundTripsIn StoredState StoredState.facets ∧ RoundTripsIn Record Record.facets := by
  refine ⟨?_, StoredState.roundTripsIn, Record.roundTripsIn⟩
  and_intros
  all_goals exact LawfulStored.roundTrips

end Facets

/-- Where values are handed on as they are, a state or record is read back unless a name occurs
twice in its facets. -/
theorem handedOn_roundTrip :
    (∀ s : StoredState, s.facets.Regular (fun _ => True) → decode? (encode s) = some s) ∧
      ∀ r : Record, r.facets.Regular (fun _ => True) → decode? (encode r) = some r :=
  ⟨fun s hs => StoredState.roundTripsIn.read_written Medium.faithful_verbatim s
      (hs.imp fun numeral _ => ⟨numeral, rfl⟩),
    fun r hr => Record.roundTripsIn.read_written Medium.faithful_verbatim r
      (hr.imp fun numeral _ => ⟨numeral, rfl⟩)⟩

/-! ## One half -/

/-- A medium that knows two numerals for one half and no other number. -/
@[reducible] def Medium.half : Medium where
  Number := Unit
  read? numeral := if numeral = "0.5" ∨ numeral = "5e-1" then some () else none
  write _ := "0.5"
  depth? := none
  listsCases := true

/-- A state with a limit of 20 and a share of it. -/
def StoredState.sharing (share : String) : StoredState :=
  ⟨10, 1001, validForever, 2000, 0, ⟨[("limit", ⟨[("value", .int 20), ("share", .real share)]⟩)]⟩⟩

/-- An array for it, in which the limit is given twice and the share in its other numeral. -/
def StoredState.repeated : Value :=
  .array [.int 10, .int 1001, .int 2147483647, .int 2000, .int 0, .object ⟨[
    ("limit", .object ⟨[("value", .int 10)]⟩),
    ("limit", .object ⟨[("value", .int 10), ("value", .int 20), ("share", .real "5e-1")]⟩)]⟩]

theorem StoredState.regular_sharing_iff {P : String → Prop} {share : String} :
    (sharing share).facets.Regular P ↔ P share := by
  constructor
  · intro h
    cases h.fields_regular _ List.mem_cons_self with
    | object _ hentries =>
      cases hentries ("share", .real share) (by simp) with
      | real h => exact h
  · intro h
    refine ⟨of_decide_eq_true (by rfl), fun e he => ?_⟩
    cases List.mem_singleton.mp he
    refine .object (of_decide_eq_true (by rfl)) fun e he => ?_
    obtain rfl | he := List.mem_cons.mp he
    · exact .int 20
    · cases List.mem_singleton.mp he
      exact .real h

/-- What the array is read as is written as the state, which is read back and stays.  A share
that is no half is lost. -/
theorem rewritten_repeated :
    letI := Medium.half
    rewrite? StoredState StoredState.repeated = some (encode (StoredState.sharing "0.5")) ∧
      rewrite? StoredState (encode (StoredState.sharing "0.5")) =
        some (encode (StoredState.sharing "0.5")) ∧
      decode? (encode (StoredState.sharing "0.5")) = some (StoredState.sharing "0.5") ∧
      decode? (encode (StoredState.sharing "1e999")) ≠ some (StoredState.sharing "1e999") := by
  let _ := Medium.half
  have hfaithful : Medium.Faithful := ⟨fun _ => rfl, rfl⟩
  have hstates := storedForms_roundTrip.2.1
  have hread : rewrite? StoredState StoredState.repeated =
      some (encode (StoredState.sharing "0.5")) := rfl
  refine ⟨hread, hstates.rewrite_rewritten hfaithful.stable _ _ hread, ?_, fun hlost => ?_⟩
  · exact hstates.read_written hfaithful _ (StoredState.regular_sharing_iff.mpr ⟨(), rfl⟩)
  · have hregular := ((hstates.read_written_iff _).mp hlost).1
    cases StoredState.regular_sharing_iff.mp hregular

/-- A span without a step is written with the step that it has. -/
example : rewrite? Span (.object ⟨[("to", .int 30), ("from", .int 10)]⟩) =
    some (.object ⟨[("from", .int 10), ("to", .int 30), ("step", .int 1)]⟩) := by rfl

/-- An array of the two bounds is read as the same span, and a bound given twice is refused. -/
example : rewrite? Span (.array [.int 10, .int 30]) =
      some (.object ⟨[("from", .int 10), ("to", .int 30), ("step", .int 1)]⟩) ∧
    rewrite? Span (.object ⟨[("from", .int 10), ("from", .int 10), ("to", .int 30)]⟩) = none :=
  ⟨by rfl, by rfl⟩

end Subscription

import Subscription.Snapshot

/-! # History records

A record is one stored state of a plan, under an id that grows over time but
need not be contiguous.
-/

namespace Subscription

structure Record where
  id : UInt64
  variant : UInt32
  activeUntil : Seconds
  freeActiveUntil : Seconds
  /-- Stored fields by facet name; a record may leave facets out. -/
  facets : Table Fields := {}

namespace Record

/-- The stored fields of a facet, if the record mentions it. -/
def facet? (r : Record) (f : Facet) : Option Fields := r.facets.get? f.name

/-- The record of a stored state under an id. -/
def ofStored (id : UInt64) (s : StoredState) : Record :=
  ⟨id, s.variant, s.activeUntil, s.freeActiveUntil, s.facets⟩

/-- The record of the greatest id; of equal ones, the last. -/
def last? (records : List Record) : Option Record :=
  records.foldl (fun best r =>
    match best with
    | none => some r
    | some b => if b.id ≤ r.id then some r else some b) none

instance [Medium] : Stored Record where
  encode r := .object ⟨[
    ("id", Stored.encode r.id),
    ("plan_id", Stored.encode r.variant),
    ("active_till", Stored.encode r.activeUntil),
    ("free_active_till", Stored.encode r.freeActiveUntil),
    ("option_list", Stored.encode r.facets)]⟩
  decode? v := do
    let t ← v.struct? ["id", "plan_id", "active_till", "free_active_till", "option_list"] 4
    return {
      id := ← t.required "id"
      variant := ← t.required "plan_id"
      activeUntil := ← t.required "active_till"
      freeActiveUntil := ← t.required "free_active_till"
      facets := ← t.defaulted "option_list" {} }

end Record
end Subscription

import Subscription.Plan.Replay
import Subscription.Proofs.Newest

/-! # When a plan loads, and as what

A stored state and a history are each loaded in stages, and any stage may fail.
The statements here put the stages side by side: the loading succeeds exactly
when every stage does, and the plan is then the one written on the right
(`ofStored_eq_ok_iff`, `replay_eq_ok_iff`, `ofHistory_eq_ok_iff`).  A loading that
fails has the error of one of its stages (`ofStored_error_cases`,
`replay_error_cases`, `ofHistory_error_cases`).
-/
namespace Subscription

theorem Family.checkVariant_eq_ok_iff {m : Family} {variant : UInt32} :
    m.checkVariant variant = .ok () ↔ m.admits variant = true := by
  unfold checkVariant
  split
  · rename_i h
    exact ⟨fun _ => h, fun _ => rfl⟩
  · rename_i h
    exact ⟨nofun, fun e => absurd e h⟩

theorem Family.checkVariant_eq_error_iff {m : Family} {variant : UInt32} {e : LoadError} :
    m.checkVariant variant = .error e ↔
      m.admits variant = false ∧ e = .variantMismatch m.name variant := by
  unfold checkVariant
  split
  · rename_i h
    exact ⟨nofun, fun h' => absurd (h'.1.symm.trans h) (by decide)⟩
  · rename_i h
    rw [Except.error.injEq, eq_comm, and_iff_right (Bool.eq_false_iff.mpr h)]

/-- A history is replayed when there is a record at all and every facet can be
read from its folded fields. -/
theorem replay_eq_ok_iff {m : Family} {records : List Record} {r : Replayed} :
    replay m records = .ok r ↔
      ∃ last first settings, Record.last? records = some last ∧
        Record.first? records = some first ∧
        (m.decodeAll fun f => some (replayedFields m records f)) = .ok settings ∧
        r = ⟨last.variant, first.activeUntil, first.freeActiveUntil, settings⟩ := by
  unfold replay
  cases hl : Record.last? records with
  | none => simp
  | some last =>
    cases hf : Record.first? records with
    | none =>
      rw [first?_eq_none_iff.mp hf] at hl
      cases hl
    | some first =>
      dsimp only
      rw [foldDates_eq, hf, bind_eq_ok_iff]
      constructor
      · rintro ⟨settings, hs, hr⟩
        refine ⟨last, first, settings, rfl, rfl, mapError_eq_ok_iff.mp hs, ?_⟩
        exact (Except.ok.inj hr).symm
      · rintro ⟨last', first', settings, hl', hf', hs, rfl⟩
        cases hl'
        cases hf'
        exact ⟨settings, mapError_eq_ok_iff.mpr hs, rfl⟩

/-- What cannot be replayed has no record or a facet that cannot be read. -/
theorem replay_error_cases {m : Family} {records : List Record} {e : LoadError}
    (h : replay m records = .error e) : e = .emptyHistory ∨ ∃ fault, e = .facet fault := by
  unfold replay at h
  split at h
  · rcases bind_eq_error_iff.mp h with h | ⟨settings, -, h⟩
    · obtain ⟨fault, -, rfl⟩ := mapError_eq_error_iff.mp h
      exact Or.inr ⟨fault, rfl⟩
    · cases h
  · exact Or.inl (Except.error.inj h).symm

namespace Plan
variable {m : Family} {p : Plan}

/-- A stored state is loaded when it is of the family, of a variant that the
family admits, and every facet can be read. -/
theorem ofStored_eq_ok_iff {s : StoredState} :
    ofStored m s = .ok p ↔
      s.planType = m.id ∧ m.admits s.variant = true ∧
        ∃ settings, m.decodeAll s.facet? = .ok settings ∧
          p = ofSnapshot m s.variant ⟨s.activeUntil, s.freeActiveUntil, settings⟩ := by
  have stages : ofStored m s = .ok p ↔
      s.planType = m.id ∧ m.checkVariant s.variant = .ok () ∧
        ∃ settings, (m.decodeAll s.facet?).mapError LoadError.facet = .ok settings ∧
          p = ofSnapshot m s.variant ⟨s.activeUntil, s.freeActiveUntil, settings⟩ := by
    unfold ofStored
    by_cases ht : s.planType = m.id
    · rw [if_neg (not_not_intro ht)]
      show (m.checkVariant s.variant >>= _) = _ ↔ _
      rw [bind_eq_ok_iff]
      constructor
      · rintro ⟨u, hu, h⟩
        obtain ⟨settings, hs, hp⟩ := bind_eq_ok_iff.mp h
        exact ⟨ht, hu, settings, hs, (Except.ok.inj hp).symm⟩
      · rintro ⟨-, hu, settings, hs, rfl⟩
        exact ⟨(), hu, bind_eq_ok_iff.mpr ⟨settings, hs, rfl⟩⟩
    · rw [if_pos ht]
      exact ⟨nofun, fun h => absurd h.1 ht⟩
  rw [stages, Family.checkVariant_eq_ok_iff]
  simp only [mapError_eq_ok_iff]

/-- The error of a stored state is about its plan type, its variant or its facets. -/
theorem ofStored_error_cases {s : StoredState} {e : LoadError}
    (h : ofStored m s = .error e) :
    e = .familyMismatch m.name m.id s.planType ∨
      (m.admits s.variant = false ∧ e = .variantMismatch m.name s.variant) ∨
        ∃ fault, e = .facet fault := by
  unfold ofStored at h
  by_cases ht : s.planType = m.id
  · rw [if_neg (not_not_intro ht)] at h
    change (m.checkVariant s.variant >>= _) = _ at h
    rcases bind_eq_error_iff.mp h with h | ⟨-, -, h⟩
    · exact Or.inr (Or.inl (Family.checkVariant_eq_error_iff.mp h))
    · rcases bind_eq_error_iff.mp h with h | ⟨settings, -, h⟩
      · obtain ⟨fault, -, rfl⟩ := mapError_eq_error_iff.mp h
        exact Or.inr (Or.inr ⟨fault, rfl⟩)
      · cases h
  · rw [if_pos ht] at h
    exact Or.inl (Except.error.inj h).symm

/-- Of a state of the family, the error is that of reading its facets. -/
theorem ofStored_eq_error_of_facet {s : StoredState} (ht : s.planType = m.id)
    (hv : m.admits s.variant = true) {e : FacetError} (he : m.decodeAll s.facet? = .error e) :
    ofStored m s = .error (.facet e) := by
  unfold ofStored
  rw [if_neg (not_not_intro ht)]
  show (m.checkVariant s.variant >>= _) = _
  rw [Family.checkVariant_eq_ok_iff.mpr hv]
  show ((m.decodeAll s.facet?).mapError LoadError.facet >>= _) = _
  rw [he]
  rfl

/-- A history is loaded when it can be replayed and its variant is admitted. -/
theorem ofHistory_eq_ok_iff {records : List Record} :
    ofHistory m records = .ok p ↔
      ∃ r, replay m records = .ok r ∧ m.admits r.variant = true ∧
        p = ofSnapshot m r.variant r.snapshot := by
  unfold ofHistory
  rw [bind_eq_ok_iff]
  refine exists_congr fun r => and_congr_right fun _ => ?_
  rw [bind_eq_ok_iff]
  constructor
  · rintro ⟨u, hu, hp⟩
    exact ⟨Family.checkVariant_eq_ok_iff.mp hu, (Except.ok.inj hp).symm⟩
  · rintro ⟨hv, rfl⟩
    exact ⟨(), Family.checkVariant_eq_ok_iff.mpr hv, rfl⟩

/-- The error of a history is that of its replay, or that the family does not admit the
variant of the last record. -/
theorem ofHistory_error_cases {records : List Record} {e : LoadError}
    (h : ofHistory m records = .error e) :
    e = .emptyHistory ∨ (∃ fault, e = .facet fault) ∨
      ∃ last, Record.last? records = some last ∧ m.admits last.variant = false ∧
        e = .variantMismatch m.name last.variant := by
  unfold ofHistory at h
  rcases bind_eq_error_iff.mp h with h | ⟨replayed, hreplayed, h⟩
  · exact (replay_error_cases h).imp_right Or.inl
  · rcases bind_eq_error_iff.mp h with h | ⟨-, -, h⟩
    · obtain ⟨last, first, settings, hlast, -, -, rfl⟩ := replay_eq_ok_iff.mp hreplayed
      exact Or.inr (Or.inr ⟨last, hlast, Family.checkVariant_eq_error_iff.mp h⟩)
    · cases h

end Plan

/-! ## A family of seats

One family and one plan of it, at which the statements about loaded plans are
tried. -/

namespace Seats

/-- Four tiers, the least of them free. -/
def catalog : Catalog where
  tiers := #[10, 20, 30, 50]
  free := [10]
  nonempty := by decide
  ascending := by decide
  free_mem := by simp

/-- All four facets, with room to exceed the limit and changes free in a trial. -/
def family : Family where
  name := "seats"
  id := 1000
  facets := [.extendPolicy, .limit, .restrictPolicy, .demo]
  catalog := some catalog
  limitRules := { exceedAllowsPlainProlongation := true, freeChangesDuringTrial := true }
  trialThreshold := some 10
  facets_ne_nil := by decide
  facets_nodup := by decide
  catalog_of_limit := fun _ => rfl

/-- Twenty seats until 2000. -/
def stored : StoredState where
  planType := 1000
  variant := 1001
  activeUntil := 2000
  freeActiveUntil := 0
  facets := ⟨[("limit", ⟨[("value", .int 20)]⟩)]⟩

/-- The plan of `stored`. -/
def plan : Plan := .ofSnapshot family 1001 ⟨2000, 0, {
  limit := some ⟨20⟩
  extendPolicy := some ⟨.free, .unbounded⟩
  restrictPolicy := some ⟨0⟩
  demo := some ⟨0⟩ }⟩

theorem ofStored_stored : Plan.ofStored family stored = .ok plan := rfl

/-- The state of `stored` with another number of seats. -/
def storedAt (tier : UInt32) : StoredState :=
  { stored with facets := ⟨[("limit", ⟨[("value", Stored.encode tier)]⟩)]⟩ }

/-- The plan of `storedAt`, if the number is that of a tier. -/
def planAt (tier : UInt32) : Plan :=
  .ofSnapshot family 1001 { plan.current with
    settings := { plan.current.settings with limit := some ⟨tier⟩ } }

end Seats
end Subscription

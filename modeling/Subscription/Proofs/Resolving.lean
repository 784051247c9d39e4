import Subscription.Proofs.Newest
import Subscription.Proofs.Registering

/-! # What a registry resolves

A document need not be sound as a whole for its registry to be made: names, ids and variants
may be declared again, and the last declaration of a variant has it
(`Registry.resolve_eq_ok_iff`).  A variant is unknown exactly when no declaration has it
(`Registry.resolve_eq_error_iff`), and whatever is resolved admits the variant it was resolved
for (`Registry.admits_of_resolve`).  A plan is loaded in the family that its own variant is
resolved to, so that family always admits it (`Registry.ofDocument_resolves`).
-/
namespace Subscription

/-! ## The last declaration -/

/-- The last declaration of a variant has it, and no later one does. -/
theorem Document.lastOf?_eq_some_iff {d : Document} {v : UInt32} {e : Declaration} :
    d.lastOf? v = some e ↔ ∃ before after, d.families = before ++ e :: after ∧
      v ∈ e.variants ∧ ∀ e' ∈ after, v ∉ e'.variants := by
  unfold lastOf?
  rw [List.find?_eq_some_iff_append]
  simp only [decide_eq_true_eq, Bool.not_eq_true', decide_eq_false_iff_not]
  constructor
  · rintro ⟨hv, after, before, hsplit, hafter⟩
    refine ⟨before.reverse, after.reverse, ?_, hv, fun e' he' => ?_⟩
    · rw [← List.reverse_reverse d.families, hsplit]
      simp
    · exact hafter e' (List.mem_reverse.mp he')
  · rintro ⟨before, after, hsplit, hv, hafter⟩
    refine ⟨hv, after.reverse, before.reverse, ?_, fun e' he' => ?_⟩
    · rw [hsplit]
      simp
    · exact hafter e' (List.mem_reverse.mp he')

namespace Registry
variable {d : Document} {r : Registry} {v : UInt32} {m : Family}

/-- A variant is resolved to the family of its last declaration. -/
theorem resolve_eq_ok_iff (h : ofDocument d = .ok r) :
    r.resolve v = .ok m ↔ ∃ e, d.lastOf? v = some e ∧ Family.ofDeclaration e = .ok m := by
  have hsound := exists_ofDocument_iff.mp ⟨r, h⟩
  unfold resolve
  rcases family?_ofDocument h v with ⟨e, m', hlast, hm', hv⟩ | ⟨hlast, hv⟩
  · have hm : Family.ofDeclaration e = .ok m' :=
      Family.ofDeclaration_eq_ok_iff.mpr ⟨hsound e (Document.mem_of_lastOf? hlast).1, hm'⟩
    rw [hv, hlast]
    simp [hm]
  · rw [hv, hlast]
    simp

/-- A variant is not resolved exactly when it is not declared. -/
theorem resolve_eq_error_iff (h : ofDocument d = .ok r) {e : LoadError} :
    r.resolve v = .error e ↔ (∀ e' ∈ d.families, v ∉ e'.variants) ∧ e = .unknownVariant v := by
  rw [← Document.lastOf?_eq_none_iff]
  unfold resolve
  rcases family?_ofDocument h v with ⟨e', m, hlast, -, hv⟩ | ⟨hlast, hv⟩
  · rw [hv, hlast]
    simp
  · rw [hv, hlast]
    simp [eq_comm]

/-- The family of a variant admits it. -/
theorem admits_of_resolve (h : ofDocument d = .ok r) (hv : r.resolve v = .ok m) :
    m.admits v = true := by
  obtain ⟨e, hlast, hm⟩ := (resolve_eq_ok_iff h).mp hv
  obtain ⟨hsound, hdescribes⟩ := Family.ofDeclaration_eq_ok_iff.mp hm
  exact (hdescribes.admits_iff hsound).mpr (Document.mem_of_lastOf? hlast).2

/-- A history is never taken to a family that does not admit its variant. -/
theorem loadHistory_ne_variantMismatch (h : ofDocument d = .ok r) (records : List Record)
    (name : String) : r.loadHistory records ≠ .error (.variantMismatch name v) := by
  intro herror
  cases hlast : Record.last? records with
  | none =>
    rw [Record.last?_eq_none_iff.mp hlast] at herror
    cases herror
  | some last =>
    rw [loadHistory_eq hlast] at herror
    rcases bind_eq_error_iff.mp herror with hv | ⟨m, hm, herror⟩
    · cases ((resolve_eq_error_iff h).mp hv).2
    · have hadmits := admits_of_resolve h hm
      rcases Plan.ofHistory_error_cases herror with he | ⟨_, he⟩ | ⟨last', hlast', hnot, -⟩
      · cases he
      · cases he
      · -- The replay takes its variant from the record that the registry looked up.
        cases hlast.symm.trans hlast'
        exact absurd (hnot.symm.trans hadmits) (by decide)

/-- A stored state is never taken to a family that does not admit its variant. -/
theorem loadStored_ne_variantMismatch (h : ofDocument d = .ok r) (s : StoredState)
    (name : String) : r.loadStored s ≠ .error (.variantMismatch name v) := by
  intro herror
  unfold loadStored at herror
  rcases bind_eq_error_iff.mp herror with hv | ⟨m, hm, herror⟩
  · cases ((resolve_eq_error_iff h).mp hv).2
  · have hadmits := admits_of_resolve h hm
    rcases Plan.ofStored_error_cases herror with he | ⟨hnot, -⟩ | ⟨_, he⟩
    · cases he
    · exact absurd (hnot.symm.trans hadmits) (by decide)
    · cases he

/-- The variant of a history is unknown exactly when no declaration has the variant of its
last record. -/
theorem loadHistory_eq_unknownVariant_iff (h : ofDocument d = .ok r) {records : List Record}
    {last : Record} (hlast : Record.last? records = some last) :
    r.loadHistory records = .error (.unknownVariant v) ↔
      v = last.variant ∧ ∀ e ∈ d.families, last.variant ∉ e.variants := by
  rw [loadHistory_eq hlast, bind_eq_error_iff, resolve_eq_error_iff h]
  constructor
  · rintro (⟨hnone, he⟩ | ⟨m, -, herror⟩)
    · exact ⟨LoadError.unknownVariant.inj he, hnone⟩
    · rcases Plan.ofHistory_error_cases herror with he | ⟨_, he⟩ | ⟨_, -, -, he⟩ <;> cases he
  · rintro ⟨rfl, hnone⟩
    exact Or.inl ⟨hnone, rfl⟩

/-- **A registry resolves what its document declares, and nothing else**, whether or not the
document is sound as a whole.  It is made exactly when every declaration passes its own check.
A variant is then resolved to the family of the last declaration that has it, which admits it,
and is unknown when no declaration has it.  So no history and no stored state is taken to a
family that does not admit its variant, and a history with a record is of an unknown variant
exactly when no declaration has the variant of its last record. -/
theorem ofDocument_resolves (d : Document) :
    ((∃ r, ofDocument d = .ok r) ↔ ∀ e ∈ d.families, e.validate = .ok ()) ∧
      ∀ r, ofDocument d = .ok r →
        (∀ v m, r.resolve v = .ok m ↔ ∃ before e after, d.families = before ++ e :: after ∧
          v ∈ e.variants ∧ (∀ e' ∈ after, v ∉ e'.variants) ∧ Family.ofDeclaration e = .ok m) ∧
        (∀ v, (∃ m, r.resolve v = .ok m) ↔ ∃ e ∈ d.families, v ∈ e.variants) ∧
        (∀ v m, r.resolve v = .ok m → m.admits v = true) ∧
        (∀ records name v, r.loadHistory records ≠ .error (.variantMismatch name v)) ∧
        (∀ s name v, r.loadStored s ≠ .error (.variantMismatch name v)) ∧
        ∀ records, records ≠ [] → ∃ last, Record.last? records = some last ∧
          ((∃ v, r.loadHistory records = .error (.unknownVariant v)) ↔
            ∀ e ∈ d.families, last.variant ∉ e.variants) := by
  constructor
  · simp only [exists_ofDocument_iff, Declaration.validate_eq_ok_iff]
  intro r hr
  refine ⟨fun v m => ?_, fun v => ?_, fun v m => admits_of_resolve hr,
    fun records name v => loadHistory_ne_variantMismatch hr records name,
    fun s name v => loadStored_ne_variantMismatch hr s name, fun records hne => ?_⟩
  · simp only [resolve_eq_ok_iff hr, Document.lastOf?_eq_some_iff]
    constructor
    · rintro ⟨e, ⟨before, after, hsplit, hv, hafter⟩, hm⟩
      exact ⟨before, e, after, hsplit, hv, hafter, hm⟩
    · rintro ⟨before, e, after, hsplit, hv, hafter, hm⟩
      exact ⟨e, ⟨before, after, hsplit, hv, hafter⟩, hm⟩
  · cases hv : r.resolve v with
    | ok m =>
      obtain ⟨e, hlast, -⟩ := (resolve_eq_ok_iff hr).mp hv
      exact ⟨fun _ => ⟨e, Document.mem_of_lastOf? hlast⟩, fun _ => ⟨m, rfl⟩⟩
    | error fault =>
      obtain ⟨hnone, -⟩ := (resolve_eq_error_iff hr).mp hv
      exact ⟨fun ⟨_, hm⟩ => (nomatch hm), fun ⟨e, he, hve⟩ => absurd hve (hnone e he)⟩
  · obtain ⟨last, hlast⟩ :=
      Option.ne_none_iff_exists'.mp (mt Record.last?_eq_none_iff.mp hne)
    refine ⟨last, hlast, ?_⟩
    simp only [loadHistory_eq_unknownVariant_iff hr hlast, exists_eq_left]

end Registry

namespace Seats

/-- The seats and demos again, and after them trials, which take a variant of the seats. -/
def contestedDocument : Document where
  families := document.families ++ [
    { name := "trials", id := 3000, variants := [1002, 3001], facets := [.extendPolicy]
      defaults := { extendPolicy := some "trial" } }]

/-- Two records of one id, of which the later has a variant that is not declared. -/
def undeclaredHistory : List Record :=
  [{ id := 4, variant := 1002, activeUntil := 2000, freeActiveUntil := 0 },
    { id := 4, variant := 4001, activeUntil := 2000, freeActiveUntil := 0 }]

/-- The document fails its checks and has a registry all the same.  The contested variant is
resolved to the trials, the other one to the seats still, and of the history the variant is
unknown. -/
theorem resolves_contestedDocument :
    contestedDocument.validate = .error (.repeatedVariant 1002) ∧
      ∃ r, Registry.ofDocument contestedDocument = .ok r ∧
        (∃ m, r.resolve 1002 = .ok m ∧ m.name = "trials" ∧ m.admits 1002 = true) ∧
        (∃ m, r.resolve 1001 = .ok m ∧ m.name = "seats" ∧ m.admits 1001 = true) ∧
        ∃ v, r.loadHistory undeclaredHistory = .error (.unknownVariant v) := by
  obtain ⟨hexists, hall⟩ := Registry.ofDocument_resolves contestedDocument
  obtain ⟨r, hr⟩ := hexists.mpr (by decide)
  obtain ⟨hresolve, -, hadmits, -, -, hunknown⟩ := hall r hr
  refine ⟨by rfl, r, hr, ?_, ?_, ?_⟩
  · have htrials : r.resolve 1002 = .ok _ :=
      (hresolve 1002 _).mpr ⟨document.families, _, [], rfl, by decide, by decide, rfl⟩
    exact ⟨_, htrials, rfl, hadmits 1002 _ htrials⟩
  · have hseats : r.resolve 1001 = .ok _ :=
      (hresolve 1001 _).mpr ⟨[], _, _, rfl, by decide, by decide, rfl⟩
    exact ⟨_, hseats, rfl, hadmits 1001 _ hseats⟩
  · obtain ⟨last, hlast, hiff⟩ := hunknown undeclaredHistory (by decide)
    cases hlast
    exact hiff.mpr (by decide)

end Seats
end Subscription

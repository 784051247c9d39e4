import Mathlib.Data.List.Nodup
import Mathlib.Data.List.Pairwise
import Subscription.Proofs.DeclaredFamilies
import Subscription.Registry

/-! # The registry of a document

A document's declarations are entered one after another, and a variant that is entered
again is given to the later family (`Registry.family?_foldlM_enter`).  So the registry of a
document, which exists exactly when every declaration is sound
(`Registry.exists_ofDocument_iff`), gives each variant to the family that the last
declaration of it describes (`Registry.family?_ofDocument`).  The checks of a document leave
one declaration for each variant, and everything that is declared can then be loaded
(`Registry.ofDocument_of_validate`).
-/
namespace Subscription

namespace Document
variable {d : Document} {v : UInt32} {e e' : Declaration}

/-- The last declaration of a variant. -/
def lastOf? (d : Document) (v : UInt32) : Option Declaration :=
  d.families.reverse.find? (v ∈ ·.variants)

theorem mem_of_lastOf? (h : d.lastOf? v = some e) : e ∈ d.families ∧ v ∈ e.variants :=
  ⟨List.mem_reverse.mp (List.mem_of_find?_eq_some h), by simpa using List.find?_some h⟩

theorem lastOf?_eq_none_iff : d.lastOf? v = none ↔ ∀ e ∈ d.families, v ∉ e.variants := by
  simp [lastOf?]

/-- In a sound document, a variant has one declaration. -/
theorem Sound.eq_of_mem_variants (hd : d.Sound) (he : e ∈ d.families) (he' : e' ∈ d.families)
    (hv : v ∈ e.variants) (hv' : v ∈ e'.variants) : e = e' := by
  by_contra hne
  have hdisjoint := (List.nodup_flatMap.mp hd.variants).2
  have : Std.Symm (Function.onFun List.Disjoint Declaration.variants) :=
    ⟨fun _ _ h _ hv' hv => h hv hv'⟩
  exact hdisjoint.forall he he' hne hv hv'

end Document

namespace Registry

/-! ## Registering variants -/

/-- The variants that are registered. -/
def variants (r : Registry) : List UInt32 := r.entries.map Prod.fst

variable {r r' : Registry} {d : Declaration} {m : Family}

theorem family?_registerAll (r : Registry) (vs : List UInt32) (m : Family) (v : UInt32) :
    (r.registerAll vs m).family? v = if v ∈ vs then some m else r.family? v := by
  unfold registerAll
  induction vs generalizing r with
  | nil => rfl
  | cons w vs ih =>
    rw [List.foldl_cons, ih, family?_register]
    by_cases hv : v ∈ vs
    · simp [hv]
    · simp [hv]

/-- A variant that is registered again is not registered twice. -/
theorem nodup_registerAll (h : r.variants.Nodup) (vs : List UInt32) (m : Family) :
    (r.registerAll vs m).variants.Nodup := by
  unfold registerAll
  induction vs generalizing r with
  | nil => exact h
  | cons v vs ih =>
    refine ih (r := r.register v m) ?_
    show (v :: (r.entries.filter (·.1 ≠ v)).map Prod.fst).Nodup
    refine List.nodup_cons.mpr ⟨fun hv => ?_, h.sublist (List.filter_sublist.map _)⟩
    obtain ⟨e, he, hev⟩ := List.mem_map.mp hv
    exact absurd hev (by simpa using (List.mem_filter.mp he).2)

theorem mem_variants_iff {v : UInt32} : v ∈ r.variants ↔ (r.family? v).isSome := by
  unfold variants family?
  induction r.entries with
  | nil => simp
  | cons e entries ih =>
    rw [List.map_cons, List.mem_cons, ih, List.lookup_cons]
    by_cases hv : v = e.1
    · simp [hv]
    · have hb : (v == e.1) = false := by simpa using hv
      simp [hv, hb]

/-! ## Entering declarations -/

/-- Enters a declaration's variants. -/
def enter (r : Registry) (d : Declaration) : Except LoadError Registry := do
  let m ← Family.ofDeclaration d
  return r.registerAll d.variants m

theorem ofDocument_eq (d : Document) : ofDocument d = d.families.foldlM enter {} := rfl

theorem enter_eq_ok_iff :
    r.enter d = .ok r' ↔ d.Sound ∧ ∃ m, d.Describes m ∧ r' = r.registerAll d.variants m := by
  unfold enter
  simp only [bind_eq_ok_iff, Family.ofDeclaration_eq_ok_iff]
  constructor
  · rintro ⟨m, ⟨hd, hm⟩, h⟩
    exact ⟨hd, m, hm, (Except.ok.inj h).symm⟩
  · rintro ⟨hd, m, hm, rfl⟩
    exact ⟨m, ⟨hd, hm⟩, rfl⟩

theorem exists_foldlM_enter_iff {ds : List Declaration} :
    (∃ r', ds.foldlM enter r = .ok r') ↔ ∀ d ∈ ds, d.Sound := by
  induction ds generalizing r with
  | nil => exact ⟨fun _ _ h => absurd h List.not_mem_nil, fun _ => ⟨r, rfl⟩⟩
  | cons d ds ih =>
    rw [List.forall_mem_cons]
    simp only [List.foldlM_cons, bind_eq_ok_iff]
    constructor
    · rintro ⟨r', next, hnext, hr'⟩
      exact ⟨(enter_eq_ok_iff.mp hnext).1, ih.mp ⟨r', hr'⟩⟩
    · rintro ⟨hd, hds⟩
      obtain ⟨m, hm⟩ := hd.exists_describes
      obtain ⟨r', hr'⟩ := ih.mpr hds
      exact ⟨r', r.registerAll d.variants m, enter_eq_ok_iff.mpr ⟨hd, m, hm, rfl⟩, hr'⟩

/-- Each variant is given to the family of its last declaration, or keeps the one it had
when there is none. -/
theorem family?_foldlM_enter {ds : List Declaration} (h : ds.foldlM enter r = .ok r')
    (v : UInt32) :
    (∃ d m, ds.reverse.find? (v ∈ ·.variants) = some d ∧ d.Describes m ∧ r'.family? v = some m) ∨
      ds.reverse.find? (v ∈ ·.variants) = none ∧ r'.family? v = r.family? v := by
  induction ds generalizing r with
  | nil =>
    cases h
    exact Or.inr ⟨rfl, rfl⟩
  | cons d ds ih =>
    rw [List.foldlM_cons] at h
    obtain ⟨next, hnext, h⟩ := bind_eq_ok_iff.mp h
    obtain ⟨-, m, hm, rfl⟩ := enter_eq_ok_iff.mp hnext
    rw [List.reverse_cons, List.find?_append]
    rcases ih h with ⟨d', m', hfind, hd', hr'⟩ | ⟨hfind, hr'⟩
    · exact Or.inl ⟨d', m', by rw [hfind]; rfl, hd', hr'⟩
    · rw [hfind, Option.none_or, hr', family?_registerAll]
      by_cases hv : v ∈ d.variants
      · exact Or.inl ⟨d, m, by simp [hv], hm, by rw [if_pos hv]⟩
      · exact Or.inr ⟨by simp [hv], by rw [if_neg hv]⟩

theorem nodup_foldlM_enter {ds : List Declaration} (hr : r.variants.Nodup)
    (h : ds.foldlM enter r = .ok r') : r'.variants.Nodup := by
  induction ds generalizing r with
  | nil =>
    cases h
    exact hr
  | cons d ds ih =>
    rw [List.foldlM_cons] at h
    obtain ⟨next, hnext, h⟩ := bind_eq_ok_iff.mp h
    obtain ⟨-, m, -, rfl⟩ := enter_eq_ok_iff.mp hnext
    exact ih (nodup_registerAll hr d.variants m) h

/-! ## The registry of a document -/

section OfDocument
variable {d : Document}

/-- A document has a registry exactly when each declaration by itself is sound. -/
theorem exists_ofDocument_iff : (∃ r, ofDocument d = .ok r) ↔ ∀ e ∈ d.families, e.Sound := by
  simp only [ofDocument_eq, exists_foldlM_enter_iff]

/-- **The registry of a document** has, for each variant, the family of its last
declaration. -/
theorem family?_ofDocument (h : ofDocument d = .ok r) (v : UInt32) :
    (∃ e m, d.lastOf? v = some e ∧ e.Describes m ∧ r.family? v = some m) ∨
      d.lastOf? v = none ∧ r.family? v = none := by
  rw [ofDocument_eq] at h
  exact family?_foldlM_enter h v

/-- What is registered is what is declared. -/
theorem mem_variants_ofDocument_iff (h : ofDocument d = .ok r) {v : UInt32} :
    v ∈ r.variants ↔ v ∈ d.families.flatMap Declaration.variants := by
  rw [mem_variants_iff, List.mem_flatMap]
  rcases family?_ofDocument h v with ⟨e, m, hlast, -, hv⟩ | ⟨hlast, hv⟩
  · simp only [hv, Option.isSome_some, true_iff]
    exact ⟨e, Document.mem_of_lastOf? hlast⟩
  · simp only [hv, Option.isSome_none, Bool.false_eq_true, false_iff]
    rintro ⟨e, he, hve⟩
    exact Document.lastOf?_eq_none_iff.mp hlast e he hve

/-- Without repeated variants, each declared one is registered, and counted, once. -/
theorem size_ofDocument (h : ofDocument d = .ok r)
    (hnodup : (d.families.flatMap Declaration.variants).Nodup) :
    r.size = (d.families.flatMap Declaration.variants).length := by
  have hperm : r.variants.Perm (d.families.flatMap Declaration.variants) :=
    (List.perm_ext_iff_of_nodup (nodup_foldlM_enter (r := {}) List.nodup_nil h) hnodup).mpr
      fun _ => mem_variants_ofDocument_iff h
  rw [← hperm.length_eq]
  exact (List.length_map _).symm

/-- The registry of a sound document has the family of each declaration under all its
variants. -/
theorem exists_resolve (hd : d.Sound) (h : ofDocument d = .ok r) {e : Declaration}
    (he : e ∈ d.families) : ∃ m, e.Describes m ∧ ∀ v ∈ e.variants, r.resolve v = .ok m := by
  have hsound : e.Sound := hd.declarations e he
  obtain ⟨m, hm⟩ := hsound.exists_describes
  refine ⟨m, hm, fun v hv => ?_⟩
  unfold resolve
  rcases family?_ofDocument h v with ⟨e', m', hlast, hm', hv'⟩ | ⟨hlast, -⟩
  · obtain ⟨he', hve'⟩ := Document.mem_of_lastOf? hlast
    obtain rfl : e = e' := hd.eq_of_mem_variants he he' hv hve'
    rw [hv', hsound.describes_unique hm hm']
  · exact absurd hv (Document.lastOf?_eq_none_iff.mp hlast e he)

theorem loadStored_of_resolve {s : StoredState} (h : r.resolve s.variant = .ok m) :
    r.loadStored s = Plan.ofStored m s := by
  unfold loadStored
  rw [h]
  rfl

/-- A history is loaded in the family that the variant of its last record is resolved to. -/
theorem loadHistory_eq {records : List Record} {last : Record}
    (hlast : Record.last? records = some last) :
    r.loadHistory records = r.resolve last.variant >>= fun m => Plan.ofHistory m records := by
  unfold loadHistory
  rw [hlast]

theorem loadHistory_of_resolve {records : List Record} {last : Record}
    (hlast : Record.last? records = some last) (h : r.resolve last.variant = .ok m) :
    r.loadHistory records = Plan.ofHistory m records := by
  rw [loadHistory_eq hlast, h]
  rfl

/-- **A document that passes its checks can be loaded from.**  It has a registry, of as many
variants as are declared.  Each declaration's variants are resolved to the one family that it
describes, which admits them and no others, so none of another declaration.  And whatever the
dates are, a state of such a variant without facets and a history of one record without facets
are both loaded, with the same state, which has the declared defaults. -/
theorem ofDocument_of_validate (h : d.validate = .ok ()) :
    ∃ r, ofDocument d = .ok r ∧ r.size = (d.families.flatMap Declaration.variants).length ∧
      ∀ e ∈ d.families, ∃ m settings, e.Describes m ∧ e.Defaults settings ∧
        (∀ v, m.admits v = true ↔ v ∈ e.variants) ∧
        (∀ e' ∈ d.families, e' ≠ e → ∀ v ∈ e'.variants, m.admits v = false) ∧
        ∀ v ∈ e.variants, r.resolve v = .ok m ∧
          ∀ (activeUntil freeActiveUntil : Seconds) (id : UInt64),
            r.loadStored { planType := e.id, variant := v, activeUntil, freeActiveUntil } =
                .ok (.ofSnapshot m v ⟨activeUntil, freeActiveUntil, settings⟩) ∧
              r.loadHistory [{ id, variant := v, activeUntil, freeActiveUntil }] =
                .ok (.ofSnapshot m v ⟨activeUntil, freeActiveUntil, settings⟩) := by
  have hd : d.Sound := Document.validate_eq_ok_iff.mp h
  obtain ⟨r, hr⟩ := exists_ofDocument_iff.mpr hd.declarations
  refine ⟨r, hr, size_ofDocument hr hd.variants, fun e he => ?_⟩
  have hsound : e.Sound := hd.declarations e he
  obtain ⟨m, hm, hresolve⟩ := exists_resolve hd hr he
  have hadmits (v : UInt32) : m.admits v = true ↔ v ∈ e.variants := hm.admits_iff hsound
  refine ⟨m, m.initial, hm, hm.defaults_initial hsound, hadmits, ?_, fun v hv => ?_⟩
  · intro e' he' hne v hv'
    refine Bool.eq_false_iff.mpr fun hv => hne ?_
    exact hd.eq_of_mem_variants he' he hv' ((hadmits v).mp hv)
  refine ⟨hresolve v hv, fun activeUntil freeActiveUntil id => ⟨?_, ?_⟩⟩
  · rw [loadStored_of_resolve (hresolve v hv)]
    exact Plan.ofStored_initial (hm.defaultsToTier hsound) hm.id.symm ((hadmits v).mpr hv)
      fun _ _ => rfl
  · let record : Record := { id, variant := v, activeUntil, freeActiveUntil }
    have hlast : Record.last? [record] = some record := rfl
    have hfirst : Record.first? [record] = some record := rfl
    show r.loadHistory [record] = _
    rw [loadHistory_of_resolve hlast (hresolve v hv)]
    refine Plan.ofHistory_initial (hm.defaultsToTier hsound) hlast hfirst ((hadmits v).mpr hv) ?_
    intro r' hr' f _
    rw [List.mem_singleton.mp hr']
    rfl

end OfDocument
end Registry

namespace Seats

/-- Seats under two variants, at four tiers of which no default is named, and demos, which
have no tiers. -/
def document : Document where
  families := [
    { name := "seats", id := 1000, variants := [1001, 1002]
      facets := [.extendPolicy, .limit, .restrictPolicy]
      spans := [⟨10, 30, 10⟩, ⟨50, 50, 1⟩]
      freeTiers := [10]
      defaults := { extendPolicy := some "trial" } },
    { name := "demos", id := 2000, variants := [2001], facets := [.demo]
      defaults := { demoActiveUntil := some 500 } }]

/-- Of the three variants, the second one of the seats is loaded on trial and with the least
of the tiers. -/
theorem loads_document :
    document.validate = .ok () ∧ ∃ r p, Registry.ofDocument document = .ok r ∧ r.size = 3 ∧
      r.loadStored { planType := 1000, variant := 1002, activeUntil := 2000, freeActiveUntil := 0 }
        = .ok p ∧
      r.loadHistory [{ id := 7, variant := 1002, activeUntil := 2000, freeActiveUntil := 0 }]
        = .ok p ∧
      p.limit = some 10 := by
  have hvalid : document.validate = .ok () := by rfl
  obtain ⟨r, hr, hsize, hall⟩ := Registry.ofDocument_of_validate hvalid
  obtain ⟨m, s, -, hs, -, -, hload⟩ := hall _ List.mem_cons_self
  obtain ⟨-, hdates⟩ := hload 1002 (by decide)
  obtain ⟨hstored, hhistory⟩ := hdates 2000 0 7
  refine ⟨hvalid, r, _, hr, hsize, hstored, hhistory, ?_⟩
  obtain ⟨⟨tier⟩, hl⟩ := hs.covers.exists_limit (by decide)
  have hleast : ∀ t ∈ [10, 20, 30, 50], tier ≤ t :=
    ((hs.limit ⟨tier⟩ hl).2.resolve_left nofun).2
  have hmem : tier ∈ [10, 20, 30, 50] := (hs.limit ⟨tier⟩ hl).1
  show s.limit.map Limit.tier = some 10
  rw [hl]
  have hle : tier ≤ 10 := hleast 10 List.mem_cons_self
  simp only [List.mem_cons, List.not_mem_nil, or_false] at hmem
  rcases hmem with rfl | rfl | rfl | rfl
  · rfl
  all_goals exact absurd hle (by decide)

end Seats
end Subscription

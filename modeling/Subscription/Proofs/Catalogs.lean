import Mathlib.Data.List.Chain
import Subscription.Proofs.LeastTier

/-! # What makes a catalog

A list of tiers and a list of free ones either make a catalog of just these or are refused for one
reason, which is that of the first check that they fail (`Catalog.Faulty`): there are no tiers, two
neighbours do not ascend, or a free tier is not a tier.  A list in which all neighbours ascend is
ascending as a whole, and by then the halving search is exact, so the last check may use it
(`Catalog.find?_foreign_eq_some_iff`).  Every catalog answers exactly by its list
(`Catalog.ofTiers_exact`).
-/
namespace Subscription
open scoped TierOrder

namespace Catalog
variable {tiers free : List UInt32} {a b tier : UInt32}

/-- The tier is the second of the first two neighbours that do not ascend. -/
def IsFirstDescent (tiers : List UInt32) (tier : UInt32) : Prop :=
  ∃ before previous after, tiers = before ++ previous :: tier :: after ∧
    (before ++ [previous]).IsChain (· < ·) ∧ tier ≤ previous

/-- The tier is the first free one that is not a tier. -/
def IsFirstForeign (tiers free : List UInt32) (tier : UInt32) : Prop :=
  ∃ before after, free = before ++ tier :: after ∧ (∀ t ∈ before, t ∈ tiers) ∧ tier ∉ tiers

/-- What is wrong with tiers and free tiers, each fault counting only without those before it. -/
inductive Faulty (tiers free : List UInt32) : CatalogError → Prop where
  | empty (h : tiers = []) : Faulty tiers free .empty
  | notAscending {tier : UInt32} (h : IsFirstDescent tiers tier) :
      Faulty tiers free (.notAscending tier)
  | unknownFreeTier {tier : UInt32} (nonempty : tiers ≠ []) (ascending : tiers.Pairwise (· < ·))
      (h : IsFirstForeign tiers free tier) : Faulty tiers free (.unknownFreeTier tier)

/-! ## The first descent -/

theorem IsFirstDescent.ne_nil (h : IsFirstDescent tiers tier) : tiers ≠ [] := by
  obtain ⟨before, previous, after, rfl, -⟩ := h
  simp

/-- A list up to some place begins with its first member. -/
theorem head?_of_split {rest before after : List UInt32} {previous : UInt32}
    (h : b :: rest = before ++ previous :: after) : (before ++ [previous]).head? = some b := by
  cases before with
  | nil => exact congrArg some (List.cons.inj h).1.symm
  | cons x before => exact congrArg some (List.cons.inj h).1.symm

/-- Two neighbours that do not ascend are the first at the head of a list. -/
theorem isFirstDescent_cons_of_le (h : b ≤ a) (rest : List UInt32) :
    IsFirstDescent (a :: b :: rest) tier ↔ b = tier := by
  constructor
  · rintro ⟨before, previous, after, htiers, hchain, -⟩
    cases before with
    | nil => exact (List.cons.inj (List.cons.inj htiers).2).1
    | cons x before =>
      obtain ⟨rfl, hrest⟩ := List.cons.inj htiers
      obtain ⟨hascend, -⟩ := List.isChain_cons.mp hchain
      exact absurd h (hascend b (head?_of_split hrest)).not_ge
  · rintro rfl
    exact ⟨[], a, rest, rfl, List.isChain_singleton a, h⟩

/-- Two neighbours that ascend leave the first descent to what follows. -/
theorem isFirstDescent_cons_of_lt (h : a < b) (rest : List UInt32) :
    IsFirstDescent (a :: b :: rest) tier ↔ IsFirstDescent (b :: rest) tier := by
  constructor
  · rintro ⟨before, previous, after, htiers, hchain, hle⟩
    cases before with
    | nil =>
      obtain ⟨rfl, hrest⟩ := List.cons.inj htiers
      obtain ⟨rfl, -⟩ := List.cons.inj hrest
      exact absurd hle h.not_ge
    | cons x before =>
      obtain ⟨rfl, hrest⟩ := List.cons.inj htiers
      exact ⟨before, previous, after, hrest, (List.isChain_cons.mp hchain).2, hle⟩
  · rintro ⟨before, previous, after, htiers, hchain, hle⟩
    refine ⟨a :: before, previous, after, congrArg (a :: ·) htiers, ?_, hle⟩
    refine List.isChain_cons.mpr ⟨fun x hx => ?_, hchain⟩
    obtain rfl : b = x := Option.some.inj ((head?_of_split htiers).symm.trans hx)
    exact h

/-- No descent is found in a list of fewer than two. -/
theorem not_isFirstDescent_of_length (h : tiers.length < 2) : ¬ IsFirstDescent tiers tier := by
  rintro ⟨before, previous, after, rfl, -⟩
  simp only [List.length_append, List.length_cons] at h
  omega

/-- **The search for a descent finds the first one.** -/
theorem firstDescent_eq_some_iff :
    firstDescent tiers = some tier ↔ IsFirstDescent tiers tier := by
  induction tiers with
  | nil => exact iff_of_false nofun (not_isFirstDescent_of_length (by decide))
  | cons a tiers ih =>
    cases tiers with
    | nil => exact iff_of_false nofun (not_isFirstDescent_of_length Nat.one_lt_two)
    | cons b rest =>
      rw [firstDescent]
      split
      · rename_i hlt
        rw [ih, isFirstDescent_cons_of_lt hlt]
      · rename_i hge
        rw [Option.some.injEq, isFirstDescent_cons_of_le (not_lt.mp hge)]

theorem IsFirstDescent.not_ascending (h : IsFirstDescent tiers tier) :
    ¬ tiers.Pairwise (· < ·) := by
  intro hasc
  have hnone := firstDescent_eq_none_iff.mpr hasc
  rw [firstDescent_eq_some_iff.mpr h] at hnone
  cases hnone

theorem IsFirstDescent.unique {tier' : UInt32} (h : IsFirstDescent tiers tier)
    (h' : IsFirstDescent tiers tier') : tier = tier' :=
  Option.some.inj ((firstDescent_eq_some_iff.mpr h).symm.trans (firstDescent_eq_some_iff.mpr h'))

/-! ## The first foreign tier -/

/-- In an ascending list, the search for a free tier that is none finds the first one. -/
theorem find?_foreign_eq_some_iff (hasc : tiers.Pairwise (· < ·)) :
    (free.find? fun t => !halving tiers.toArray t tiers.length 0 tiers.length) = some tier ↔
      IsFirstForeign tiers free tier := by
  have hhalving (t : UInt32) :
      halving tiers.toArray t tiers.length 0 tiers.length = true ↔ t ∈ tiers := by
    have hmem : halving tiers.toArray t tiers.toArray.size 0 tiers.toArray.size = true ↔
        t ∈ tiers.toArray := halving_size_iff_mem hasc
    rwa [List.size_toArray, List.mem_toArray] at hmem
  simp only [List.find?_eq_some_iff_append, Bool.not_not, hhalving, Bool.not_eq_true',
    ← Bool.not_eq_true]
  constructor
  · rintro ⟨hforeign, before, after, hfree, hbefore⟩
    exact ⟨before, after, hfree, hbefore, hforeign⟩
  · rintro ⟨before, after, hfree, hbefore, hforeign⟩
    exact ⟨hforeign, before, after, hfree, hbefore⟩

theorem IsFirstForeign.unique {tier' : UInt32} (h : IsFirstForeign tiers free tier)
    (hasc : tiers.Pairwise (· < ·)) (h' : IsFirstForeign tiers free tier') : tier = tier' :=
  Option.some.inj
    (((find?_foreign_eq_some_iff hasc).mpr h).symm.trans ((find?_foreign_eq_some_iff hasc).mpr h'))

/-! ## Catalogs and faults -/

/-- The error of tiers that are refused is a fault of theirs. -/
theorem faulty_of_ofTiers {e : CatalogError} (h : ofTiers tiers free = .error e) :
    Faulty tiers free e := by
  unfold ofTiers at h
  split at h
  · rename_i hempty
    cases h
    exact .empty (by simpa using hempty)
  · rename_i hne
    split at h
    · rename_i t hdescent
      cases h
      exact .notAscending (firstDescent_eq_some_iff.mp hdescent)
    · rename_i hnone
      have hasc := pairwise_of_firstDescent_eq_none hnone
      split at h
      · rename_i t hforeign
        cases h
        exact .unknownFreeTier (by simpa using hne) hasc
          ((find?_foreign_eq_some_iff hasc).mp hforeign)
      · cases h

/-- Tiers have one fault at most, as each counts only without those before it. -/
theorem Faulty.unique {e e' : CatalogError} (h : Faulty tiers free e) (h' : Faulty tiers free e') :
    e = e' := by
  cases h with
  | empty hempty =>
    cases h' with
    | empty _ => rfl
    | notAscending hdescent => exact absurd hempty hdescent.ne_nil
    | unknownFreeTier hne _ _ => exact absurd hempty hne
  | notAscending hdescent =>
    cases h' with
    | empty hempty => exact absurd hempty hdescent.ne_nil
    | notAscending hdescent' => rw [hdescent.unique hdescent']
    | unknownFreeTier _ hasc _ => exact absurd hasc hdescent.not_ascending
  | unknownFreeTier hne hasc hforeign =>
    cases h' with
    | empty hempty => exact absurd hempty hne
    | notAscending hdescent => exact absurd hasc hdescent.not_ascending
    | unknownFreeTier _ _ hforeign' => rw [hforeign.unique hasc hforeign']

/-- No catalog is made of tiers with a fault. -/
theorem Faulty.not_made {e : CatalogError} (h : Faulty tiers free e) :
    ¬ ∃ c, ofTiers tiers free = .ok c := by
  intro hmade
  obtain ⟨hne, hasc, hfree⟩ := exists_ofTiers_iff.mp hmade
  cases h with
  | empty hempty => exact hne hempty
  | notAscending hdescent => exact hdescent.not_ascending hasc
  | unknownFreeTier _ _ hforeign =>
    obtain ⟨before, after, rfl, -, hnot⟩ := hforeign
    exact hnot (hfree _ (by simp))

/-- Tiers are refused exactly for the fault that they have. -/
theorem ofTiers_eq_error_iff {e : CatalogError} :
    ofTiers tiers free = .error e ↔ Faulty tiers free e := by
  refine ⟨faulty_of_ofTiers, fun h => ?_⟩
  cases hresult : ofTiers tiers free with
  | ok c => exact absurd ⟨c, hresult⟩ h.not_made
  | error e' => rw [h.unique (faulty_of_ofTiers hresult)]

/-- **Catalogs are made and searched exactly.**  Tiers make a catalog when there are any, they
ascend and the free ones are among them; what is refused otherwise is refused for its first fault.
Of the catalog that is made, the tiers and the free ones are those given, the halving search finds
exactly the members, the ascending one finds the least tier that is not below a value, or the
greatest if there is none, and the greatest tier is known. -/
theorem ofTiers_exact (tiers free : List UInt32) :
    ((∃ c, ofTiers tiers free = .ok c) ↔
        tiers ≠ [] ∧ tiers.Pairwise (· < ·) ∧ ∀ t ∈ free, t ∈ tiers) ∧
      (∀ e, ofTiers tiers free = .error e ↔ Faulty tiers free e) ∧
      ∀ c, ofTiers tiers free = .ok c →
        c.tiers.toList = tiers ∧ c.free = free ∧ IsGreatest {t | t ∈ tiers} c.max ∧
          ∀ value, (c.contains value = true ↔ value ∈ tiers) ∧
            c.IsTierFor value (c.smallestFitting value) := by
  refine ⟨exists_ofTiers_iff, fun _ => ofTiers_eq_error_iff, fun c hc => ?_⟩
  obtain ⟨rfl, hfree⟩ := ofTiers_eq_ok_iff.mp hc
  refine ⟨rfl, hfree, ?_, fun value => ⟨?_, c.isTierFor_smallestFitting value⟩⟩
  · simpa only [Array.mem_toList_iff] using c.isGreatest_max
  · rw [Array.mem_toList_iff]
    exact c.contains_iff_mem value

end Catalog

namespace Seats

/-- Four tiers make the catalog of seats, which has no tier for thirty-one but the next one.  With
two descents the first is reported before a foreign free tier, and of two foreign free tiers the
first. -/
theorem ofTiers_seats :
    Catalog.ofTiers [10, 20, 30, 50] [10] = .ok catalog ∧
      catalog.contains 30 = true ∧ catalog.contains 31 = false ∧
      catalog.IsTierFor 31 50 ∧ IsGreatest {t | t ∈ ([10, 20, 30, 50] : List UInt32)} 50 ∧
      Catalog.ofTiers [10, 30, 20, 20] [7] = .error (.notAscending 20) ∧
      Catalog.ofTiers [10, 20] [10, 7, 8] = .error (.unknownFreeTier 7) := by
  have hmade : Catalog.ofTiers [10, 20, 30, 50] [10] = .ok catalog := rfl
  obtain ⟨-, -, hexact⟩ := Catalog.ofTiers_exact [10, 20, 30, 50] [10]
  obtain ⟨-, -, hmax, hsearch⟩ := hexact catalog hmade
  have hdescent : Catalog.Faulty [10, 30, 20, 20] [7] (.notAscending 20) :=
    .notAscending ⟨[10], 30, [20], rfl, by decide, by decide⟩
  have hforeign : Catalog.Faulty [10, 20] [10, 7, 8] (.unknownFreeTier 7) :=
    .unknownFreeTier (by decide) (by decide) ⟨[10], [8], rfl, by simp, by decide⟩
  refine ⟨hmade, (hsearch 30).1.mpr (by decide), ?_, (hsearch 31).2, hmax,
    ((Catalog.ofTiers_exact _ _).2.1 _).mpr hdescent,
    ((Catalog.ofTiers_exact _ _).2.1 _).mpr hforeign⟩
  exact Bool.eq_false_iff.mpr fun h => absurd ((hsearch 31).1.mp h) (by decide)

end Seats
end Subscription

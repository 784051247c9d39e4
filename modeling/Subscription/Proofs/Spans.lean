import Mathlib.Data.List.Chain
import Subscription.Proofs.SoundDocuments

/-! # Catalogs written as spans

A sound span writes out the arithmetic run from its first value up to the greatest one that is
not above its last (`Span.mem_values_iff`), and none of the sums leaves the 32-bit range
(`Span.toNat_values`).  Whether spans make a catalog is therefore a question about
neighbours: the greatest value of each has to be below the first value of the next
(`Declaration.tiers_ascending_iff`).  The declared end of a span does not matter for that, only
the value that the run reaches.
-/
namespace Subscription

namespace Span
variable {s t : Span}

/-- The greatest value of the run. -/
def greatest (s : Span) : Nat :=
  s.first.toNat + (s.last.toNat - s.first.toNat) / s.step.toNat * s.step.toNat

/-- The value is one of the run: a whole number of steps from its start, and not beyond its
end. -/
def Covers (s : Span) (value : UInt32) : Prop :=
  s.first ≤ value ∧ value ≤ s.last ∧ s.step.toNat ∣ value.toNat - s.first.toNat

instance (s : Span) (value : UInt32) : Decidable (s.Covers value) :=
  inferInstanceAs (Decidable (_ ∧ _ ∧ _))

/-- The run of `s` ends before that of `t` starts. -/
def Before (s t : Span) : Prop := s.greatest < t.first.toNat

instance (s t : Span) : Decidable (s.Before t) := inferInstanceAs (Decidable (_ < _))

theorem first_le_greatest (s : Span) : s.first.toNat ≤ s.greatest := Nat.le_add_right _ _

instance : Trans Before Before Before where
  trans {a b c} hab hbc :=
    show a.greatest < c.first.toNat from
      Nat.lt_trans (Nat.lt_of_lt_of_le hab b.first_le_greatest) hbc

/-! ## The values of a sound span -/

theorem Sound.step_pos (h : s.Sound) : 0 < s.step.toNat := by
  have hne : s.step.toNat ≠ 0 := fun h0 => h.step (UInt32.toNat_inj.mp h0)
  omega

theorem Sound.stride_eq (h : s.Sound) : s.stride = s.step.toNat := by
  have hpos := h.step_pos
  simp only [stride]
  omega

theorem Sound.count_eq (h : s.Sound) :
    s.count = (s.last.toNat - s.first.toNat) / s.step.toNat + 1 := by
  simp only [count, h.bounds, h.stride_eq, if_true]

/-- The places in the list of values are those from which the run does not leave the span. -/
theorem Sound.lt_count_iff (h : s.Sound) {i : Nat} :
    i < s.count ↔ s.first.toNat + i * s.step.toNat ≤ s.last.toNat := by
  have hbounds := UInt32.le_iff_toNat_le.mp h.bounds
  rw [h.count_eq, Nat.lt_succ_iff, Nat.le_div_iff_mul_le h.step_pos]
  omega

/-- **No sum of a run leaves the 32-bit range.** -/
theorem Sound.toNat_value (h : s.Sound) {i : Nat} (hi : i < s.count) :
    (UInt32.ofNat (s.first.toNat + i * s.stride)).toNat = s.first.toNat + i * s.step.toNat := by
  have hle := h.lt_count_iff.mp hi
  have hlast := s.last.toNat_lt
  rw [h.stride_eq]
  exact UInt32.toNat_ofNat_of_lt' (show _ < 2 ^ 32 by omega)

/-- The values are the terms of the progression, in its order. -/
theorem Sound.toNat_values (h : s.Sound) :
    s.values.map UInt32.toNat =
      (List.range ((s.last.toNat - s.first.toNat) / s.step.toNat + 1)).map
        (s.first.toNat + · * s.step.toNat) := by
  rw [values, List.map_map, ← h.count_eq]
  refine List.map_congr_left fun i hi => ?_
  exact h.toNat_value (List.mem_range.mp hi)

theorem Sound.exists_of_mem_values (h : s.Sound) {value : UInt32} (hv : value ∈ s.values) :
    ∃ i, i < s.count ∧ value.toNat = s.first.toNat + i * s.step.toNat := by
  obtain ⟨i, hi, rfl⟩ := List.mem_map.mp hv
  have hlt := List.mem_range.mp hi
  exact ⟨i, hlt, h.toNat_value hlt⟩

theorem Sound.mem_values_of_toNat (h : s.Sound) {value : UInt32} {i : Nat} (hi : i < s.count)
    (hv : value.toNat = s.first.toNat + i * s.step.toNat) : value ∈ s.values := by
  refine List.mem_map.mpr ⟨i, List.mem_range.mpr hi, UInt32.toNat_inj.mp ?_⟩
  rw [h.toNat_value hi, hv]

/-- **The values of a span** are those that its run covers. -/
theorem Sound.mem_values_iff (h : s.Sound) {value : UInt32} :
    value ∈ s.values ↔ s.Covers value := by
  constructor
  · intro hv
    obtain ⟨i, hi, hi'⟩ := h.exists_of_mem_values hv
    have hle := h.lt_count_iff.mp hi
    refine ⟨?_, ?_, i, ?_⟩
    · rw [UInt32.le_iff_toNat_le]
      omega
    · rw [UInt32.le_iff_toNat_le]
      omega
    · rw [hi', Nat.add_sub_cancel_left, Nat.mul_comm]
  · rintro ⟨hfirst, hlast, i, hi⟩
    rw [UInt32.le_iff_toNat_le] at hfirst hlast
    rw [Nat.mul_comm] at hi
    have hv : value.toNat = s.first.toNat + i * s.step.toNat := by omega
    exact h.mem_values_of_toNat (h.lt_count_iff.mpr (hv ▸ hlast)) hv

theorem Sound.values_ascending (h : s.Sound) : s.values.Pairwise (· < ·) := by
  have hnat : (s.values.map UInt32.toNat).Pairwise (· < ·) := by
    rw [h.toNat_values, List.pairwise_map]
    refine List.pairwise_lt_range.imp fun hij => ?_
    exact Nat.add_lt_add_left (Nat.mul_lt_mul_of_pos_right hij h.step_pos) _
  exact (List.pairwise_map.mp hnat).imp UInt32.lt_iff_toNat_lt.mpr

theorem Sound.first_mem_values (h : s.Sound) : s.first ∈ s.values :=
  h.mem_values_iff.mpr ⟨UInt32.le_refl _, h.bounds, by simp⟩

theorem Sound.values_ne_nil (h : s.Sound) : s.values ≠ [] :=
  List.ne_nil_of_mem h.first_mem_values

/-- The run reaches its greatest value, and no other is above it. -/
theorem Sound.greatest_spec (h : s.Sound) :
    (∃ value ∈ s.values, value.toNat = s.greatest) ∧ ∀ value ∈ s.values, value.toNat ≤ s.greatest := by
  constructor
  · have hlast : (s.last.toNat - s.first.toNat) / s.step.toNat < s.count := by
      rw [h.count_eq]
      omega
    exact ⟨_, List.mem_map.mpr ⟨_, List.mem_range.mpr hlast, rfl⟩, h.toNat_value hlast⟩
  · intro value hv
    obtain ⟨i, hi, hi'⟩ := h.exists_of_mem_values hv
    rw [h.count_eq] at hi
    have hmul := Nat.mul_le_mul_right s.step.toNat (Nat.lt_succ_iff.mp hi)
    simp only [greatest]
    omega

/-- All values of one span are below all of another exactly when its run ends first. -/
theorem Sound.values_lt_iff (hs : s.Sound) (ht : t.Sound) :
    (∀ a ∈ s.values, ∀ b ∈ t.values, a < b) ↔ s.Before t := by
  obtain ⟨⟨top, htop, htop'⟩, hle⟩ := hs.greatest_spec
  constructor
  · intro hall
    have hlt := UInt32.lt_iff_toNat_lt.mp (hall top htop t.first ht.first_mem_values)
    rwa [htop'] at hlt
  · intro hbefore a ha b hb
    have hfirst := UInt32.le_iff_toNat_le.mp (ht.mem_values_iff.mp hb).1
    have hab : a.toNat < b.toNat :=
      Nat.lt_of_lt_of_le (Nat.lt_of_le_of_lt (hle a ha) hbefore) hfirst
    exact UInt32.lt_iff_toNat_lt.mpr hab

end Span

namespace Declaration
variable {d : Declaration}

/-- The tiers are those that the runs of the spans cover. -/
theorem mem_tiers_iff (hspans : ∀ s ∈ d.spans, s.Sound) {value : UInt32} :
    value ∈ d.tiers ↔ ∃ s ∈ d.spans, s.Covers value := by
  rw [tiers, List.mem_flatMap]
  exact exists_congr fun s => and_congr_right fun hs => (hspans s hs).mem_values_iff

theorem tiers_ne_nil_iff (hspans : ∀ s ∈ d.spans, s.Sound) : d.tiers ≠ [] ↔ d.spans ≠ [] := by
  rw [tiers, ne_eq, List.flatMap_eq_nil_iff, ne_eq, not_iff_not]
  constructor
  · intro hall
    refine List.eq_nil_iff_forall_not_mem.mpr fun s hs => ?_
    exact (hspans s hs).values_ne_nil (hall s hs)
  · intro hnil s hs
    rw [hnil] at hs
    cases hs

/-- **Tiers ascend** exactly when each span's run ends before the next one starts. -/
theorem tiers_ascending_iff (hspans : ∀ s ∈ d.spans, s.Sound) :
    d.tiers.Pairwise (· < ·) ↔ d.spans.IsChain Span.Before := by
  rw [tiers, List.pairwise_flatMap, List.isChain_iff_pairwise,
    and_iff_right fun s hs => (hspans s hs).values_ascending]
  -- Of any two spans, the condition on their values is that on their ends.
  constructor
  · exact List.Pairwise.imp_of_mem fun hs ht => ((hspans _ hs).values_lt_iff (hspans _ ht)).mp
  · exact List.Pairwise.imp_of_mem fun hs ht => ((hspans _ hs).values_lt_iff (hspans _ ht)).mpr

/-- **Which spans make a catalog.**  Let every span pass its own check.  There is a catalog
exactly when there is a span, the greatest value of each span is below the first value of the
next, and every free tier is a whole number of steps from the start of some span and not beyond
its end.  The tiers of the catalog are then the terms of all the progressions, one span after
the other and none of them out of the 32-bit range.  They ascend, and a value is a tier exactly
when some span covers it. -/
theorem catalog_of_spans (hspans : ∀ s ∈ d.spans, s.validate = .ok ()) :
    ((∃ c, d.catalog = .ok c) ↔
        d.spans ≠ [] ∧ d.spans.IsChain Span.Before ∧
          ∀ t ∈ d.freeTiers, ∃ s ∈ d.spans, s.Covers t) ∧
      ∀ c, d.catalog = .ok c →
        c.free = d.freeTiers ∧
        c.tiers.toList.Pairwise (· < ·) ∧
        (∀ t, t ∈ c.tiers ↔ ∃ s ∈ d.spans, s.Covers t) ∧
        c.tiers.toList.map UInt32.toNat =
          d.spans.flatMap fun s =>
            (List.range ((s.last.toNat - s.first.toNat) / s.step.toNat + 1)).map
              (s.first.toNat + · * s.step.toNat) := by
  have hsound : ∀ s ∈ d.spans, s.Sound := fun s hs => Span.validate_eq_ok_iff.mp (hspans s hs)
  refine ⟨?_, fun c hc => ?_⟩
  · rw [exists_catalog_iff, tiers_ne_nil_iff hsound, tiers_ascending_iff hsound]
    simp only [mem_tiers_iff hsound]
  · obtain ⟨htiers, hfree⟩ := catalog_eq_ok_iff.mp hc
    refine ⟨hfree, c.ascending, fun t => ?_, ?_⟩
    · rw [← Array.mem_toList_iff, htiers]
      exact mem_tiers_iff hsound
    · rw [htiers, tiers, List.map_flatMap]
      refine List.flatMap_congr fun s hs => ?_
      exact (hsound s hs).toNat_values

end Declaration

namespace Seats

/-- Seats in tens, then by threes, then at the end of the 32-bit range.  The first span is
declared to end above the start of the second, which its run does not reach. -/
def spannedSeats : Declaration where
  name := "seats"
  id := 1000
  variants := [1001]
  facets := [.limit]
  spans := [⟨10, 35, 10⟩, ⟨31, 40, 3⟩, ⟨4294967290, 4294967295, 4⟩]
  freeTiers := [10, 37]

/-- The spans make a catalog, whose last tier is one step from where the range ends. -/
theorem spannedSeats_catalog :
    (∀ s ∈ spannedSeats.spans, s.validate = .ok ()) ∧ (∃ c, spannedSeats.catalog = .ok c) ∧
      ∀ c, spannedSeats.catalog = .ok c →
        c.tiers.toList.map UInt32.toNat = [10, 20, 30, 31, 34, 37, 40, 4294967290, 4294967294] := by
  have hspans : ∀ s ∈ spannedSeats.spans, s.validate = .ok () := by decide
  have hfree : ∀ t ∈ spannedSeats.freeTiers, ∃ s ∈ spannedSeats.spans, s.Covers t := by
    simp only [spannedSeats, List.forall_mem_cons]
    exact ⟨⟨⟨10, 35, 10⟩, by decide, by decide⟩, ⟨⟨31, 40, 3⟩, by decide, by decide⟩, nofun⟩
  obtain ⟨hexists, htiers⟩ := Declaration.catalog_of_spans hspans
  refine ⟨hspans, hexists.mpr ⟨by decide, by decide, hfree⟩, fun c hc => ?_⟩
  obtain ⟨-, -, -, hvalues⟩ := htiers c hc
  rw [hvalues]
  decide

end Seats
end Subscription

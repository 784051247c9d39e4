import Subscription.Proofs.Decoding

/-! # The fields that a facet is read from

The limit, the restriction and the demo are each read from one stored field
(`Facet.field`), and a setting is read exactly when that field is what the
setting would be stored as; a limit has to be a tier besides
(`Family.decode_eq_ok_iff`).  Other fields do not matter (`decode_congr`), and
without its field a facet is read as if it were not stored (`decode_of_missing`).
The extend policy is read from a rule, which has to be there, and a deadline
(`Family.decode_extendPolicy_eq_ok_iff`).
-/
namespace Subscription

/-- The field that a facet is read from; of the extend policy's, the rule. -/
def Facet.field : Facet → String
  | .limit => "value"
  | .extendPolicy => "rule"
  | .restrictPolicy => "active_from"
  | .demo => "active_till"

/-! ## Numbers are read from their stored form only -/

theorem decode?_uint32_eq_some_iff {v : Value} {n : UInt32} :
    Stored.decode? v = some n ↔ v = Stored.encode n := by
  constructor
  · intro h
    cases v with
    | int k =>
      change (if 0 ≤ k ∧ k.toNat < UInt32.size then some (UInt32.ofNat k.toNat) else none) = _ at h
      split at h
      · rename_i hk
        cases h
        have hnat : (UInt32.ofNat k.toNat).toNat = k.toNat := UInt32.toNat_ofNat_of_lt' hk.2
        show _ = Value.int _
        rw [hnat, Int.toNat_of_nonneg hk.1]
      · cases h
    | _ => cases h
  · rintro rfl
    show (if 0 ≤ (n.toNat : Int) ∧ (n.toNat : Int).toNat < UInt32.size then _ else _) = _
    rw [if_pos ⟨Int.natCast_nonneg _, by rw [Int.toNat_natCast]; exact n.toNat_lt⟩,
      Int.toNat_natCast, UInt32.ofNat_toNat]

theorem decode?_seconds_eq_some_iff {v : Value} {s : Seconds} :
    Stored.decode? v = some s ↔ v = Stored.encode s := by
  cases v with
  | int k =>
    show Seconds.ofInt? k = some s ↔ Value.int k = Value.int s.val
    rw [Seconds.ofInt?_eq_some_iff, Value.int.injEq, eq_comm]
  | _ => exact ⟨nofun, nofun⟩

theorem Table.required_eq_some_iff {α : Type} [Stored α] {t : Fields} {name : String} {a : α}
    (law : ∀ {v : Value}, Stored.decode? v = some a ↔ v = Stored.encode a) :
    t.required name = some a ↔ t.get? name = some (Stored.encode a) := by
  unfold required
  rw [Option.bind_eq_some_iff]
  constructor
  · rintro ⟨v, hv, ha⟩
    rw [hv, law.mp ha]
  · intro h
    exact ⟨_, h, law.mpr rfl⟩

/-! ## One kind of setting at a time -/

theorem Limit.ofFields_eq_ok_iff {fields : Fields} {c : Catalog} {l : Limit} :
    Limit.ofFields fields c = .ok l ↔
      fields.get? "value" = some (Stored.encode l.tier) ∧ c.contains l.tier = true := by
  rw [← Table.required_eq_some_iff decode?_uint32_eq_some_iff]
  have htier (tier : UInt32) : Limit.ofTier tier c = .ok l ↔
      tier = l.tier ∧ c.contains l.tier = true := by
    unfold Limit.ofTier Catalog.require
    cases l
    by_cases hc : c.contains tier = true
    · rw [if_pos hc]
      constructor
      · intro h
        cases h
        exact ⟨rfl, hc⟩
      · rintro ⟨rfl, -⟩
        rfl
    · rw [if_neg hc]
      exact ⟨nofun, fun ⟨he, h⟩ => absurd (he ▸ h) hc⟩
  unfold Limit.ofFields
  cases fields.required (α := UInt32) "value" with
  | none => exact ⟨nofun, nofun⟩
  | some tier =>
    rw [Option.some.injEq]
    exact htier tier

theorem RestrictPolicy.ofFields_eq_ok_iff {fields : Fields} {p : RestrictPolicy} :
    RestrictPolicy.ofFields fields = .ok p ↔
      fields.get? "active_from" = some (Stored.encode p.activeFrom) := by
  rw [← Table.required_eq_some_iff decode?_seconds_eq_some_iff]
  unfold RestrictPolicy.ofFields
  cases fields.required (α := Seconds) "active_from" with
  | none => exact ⟨nofun, nofun⟩
  | some t => cases p; simp

theorem DemoWindow.ofFields_eq_ok_iff {fields : Fields} {w : DemoWindow} :
    DemoWindow.ofFields fields = .ok w ↔
      fields.get? "active_till" = some (Stored.encode w.activeUntil) := by
  rw [← Table.required_eq_some_iff decode?_seconds_eq_some_iff]
  unfold DemoWindow.ofFields
  cases fields.required (α := Seconds) "active_till" with
  | none => exact ⟨nofun, nofun⟩
  | some t => cases w; simp

theorem ExtendRule.ofName?_eq_some_iff {name : String} {rule : ExtendRule} :
    ExtendRule.ofName? name = some rule ↔ name = rule.name := by
  constructor
  · intro h
    exact (Named.name_of_ofName? h).symm
  · rintro rfl
    cases rule <;> decide

theorem ExtendPolicy.ofFields_eq_ok_iff {fields : Fields} {p : ExtendPolicy} :
    ExtendPolicy.ofFields fields = .ok p ↔
      ∃ deadline : Option Seconds, fields.get? "rule" = some (.string p.rule.name) ∧
        fields.optional "trial_till" = some deadline ∧ p.trialUntil = deadline.getD .unbounded := by
  have hrule (name : String) : fields.required "rule" = some name ↔
      fields.get? "rule" = some (.string name) :=
    Table.required_eq_some_iff fun {v} => by cases v <;> simp [Stored.decode?, Stored.encode,
      Value.string?]
  unfold ExtendPolicy.ofFields
  cases hr : fields.required (α := String) "rule" with
  | none =>
    constructor
    · intro h
      cases h
    · rintro ⟨d, h, -⟩
      rw [(hrule _).mpr h] at hr
      cases hr
  | some name =>
    rw [(hrule name).mp hr]
    cases ho : fields.optional (α := Seconds) "trial_till" with
    | none => exact ⟨nofun, fun ⟨_, _, h, _⟩ => nomatch h⟩
    | some deadline =>
      dsimp only
      rw [map_eq_ok_iff]
      unfold ExtendRule.parse
      constructor
      · rintro ⟨rule, hrule, rfl⟩
        cases hn : ExtendRule.ofName? name with
        | none => rw [hn] at hrule; cases hrule
        | some rule' =>
          rw [hn] at hrule
          cases hrule
          exact ⟨deadline, by rw [ExtendRule.ofName?_eq_some_iff.mp hn], rfl, rfl⟩
      · rintro ⟨d, hname, hd, htrial⟩
        cases hd
        refine ⟨p.rule, ?_, by rw [← htrial]⟩
        rw [ExtendRule.ofName?_eq_some_iff.mpr (Value.string.inj (Option.some.inj hname))]

namespace Family
variable (m : Family)

/-- The fields that a facet is read from: those stored, over the defaults. -/
def laidOver (f : Facet) (stored : Option Fields) : Fields :=
  (m.defaultFields f).overlay (stored.getD .empty)

theorem get?_laidOver (f : Facet) (stored : Option Fields) (name : String) :
    (m.laidOver f stored).get? name =
      ((stored.getD .empty).get? name).or ((m.defaultFields f).get? name) :=
  Table.get?_overlay _ _ _

variable {m} {f : Facet}

/-- **What a facet with one field is read as**: the setting that would be stored
under that field as it is; a limit at one of the family's tiers. -/
theorem decode_eq_ok_iff (hf : f ≠ .extendPolicy) (hm : f ∈ m.facets)
    {stored : Option Fields} {x : Setting} :
    m.decode f stored = .ok x ↔
      x.facet = f ∧ x.fields.get? f.field = (m.laidOver f stored).get? f.field ∧
        ∀ l, x = .limit l → ∃ c, m.catalog = some c ∧ c.contains l.tier = true := by
  unfold decode
  rw [if_pos (m.hasFacet_iff.mpr hm)]
  cases f with
  | extendPolicy => exact absurd rfl hf
  | limit =>
    dsimp only
    cases m.catalog with
    | none =>
      constructor
      · intro h
        cases h
      · rintro ⟨hx, -, hc⟩
        cases x with
        | limit l => obtain ⟨c, hc, -⟩ := hc l rfl; cases hc
        | _ => cases hx
    | some c =>
      rw [map_eq_ok_iff]
      constructor
      · rintro ⟨l, hl, rfl⟩
        obtain ⟨hv, hc⟩ := Limit.ofFields_eq_ok_iff.mp hl
        exact ⟨rfl, hv.symm, fun l' hl' => ⟨c, rfl, by cases hl'; exact hc⟩⟩
      · rintro ⟨hx, hv, hc⟩
        cases x with
        | limit l =>
          obtain ⟨c', hc', hl⟩ := hc l rfl
          cases hc'
          exact ⟨l, Limit.ofFields_eq_ok_iff.mpr ⟨hv.symm, hl⟩, rfl⟩
        | _ => cases hx
  | restrictPolicy =>
    rw [map_eq_ok_iff]
    constructor
    · rintro ⟨p, hp, rfl⟩
      exact ⟨rfl, (RestrictPolicy.ofFields_eq_ok_iff.mp hp).symm, nofun⟩
    · rintro ⟨hx, hv, -⟩
      cases x with
      | restrictPolicy p => exact ⟨p, RestrictPolicy.ofFields_eq_ok_iff.mpr hv.symm, rfl⟩
      | _ => cases hx
  | demo =>
    rw [map_eq_ok_iff]
    constructor
    · rintro ⟨w, hw, rfl⟩
      exact ⟨rfl, (DemoWindow.ofFields_eq_ok_iff.mp hw).symm, nofun⟩
    · rintro ⟨hx, hv, -⟩
      cases x with
      | demo w => exact ⟨w, DemoWindow.ofFields_eq_ok_iff.mpr hv.symm, rfl⟩
      | _ => cases hx

/-- What is read depends on the one field alone. -/
theorem decode_congr (hf : f ≠ .extendPolicy) {stored stored' : Option Fields}
    (h : (m.laidOver f stored).get? f.field = (m.laidOver f stored').get? f.field)
    {x : Setting} : m.decode f stored = .ok x ↔ m.decode f stored' = .ok x := by
  by_cases hm : f ∈ m.facets
  · rw [decode_eq_ok_iff hf hm, decode_eq_ok_iff hf hm, h]
  · rw [m.decode_of_not_mem hm, m.decode_of_not_mem hm]

/-- A stored facet without its field is read as if it were not stored. -/
theorem decode_of_missing (hf : f ≠ .extendPolicy) {fields : Fields}
    (h : fields.get? f.field = none) {x : Setting} :
    m.decode f (some fields) = .ok x ↔ m.decode f none = .ok x := by
  refine decode_congr hf ?_
  rw [get?_laidOver, get?_laidOver, Option.getD_some, h]
  rfl

/-- What the extend policy is read as: its rule by name, and its deadline if it has
one. -/
theorem decode_extendPolicy_eq_ok_iff (hm : .extendPolicy ∈ m.facets)
    {stored : Option Fields} {x : Setting} :
    m.decode .extendPolicy stored = .ok x ↔
      ∃ rule deadline, x = .extendPolicy ⟨rule, Option.getD deadline .unbounded⟩ ∧
        (m.laidOver .extendPolicy stored).get? "rule" = some (.string rule.name) ∧
        (m.laidOver .extendPolicy stored).optional "trial_till" = some deadline := by
  unfold decode
  rw [if_pos (m.hasFacet_iff.mpr hm)]
  rw [map_eq_ok_iff]
  constructor
  · rintro ⟨⟨rule, trialUntil⟩, hp, rfl⟩
    obtain ⟨deadline, hrule, hd, rfl⟩ := ExtendPolicy.ofFields_eq_ok_iff.mp hp
    exact ⟨rule, deadline, rfl, hrule, hd⟩
  · rintro ⟨rule, deadline, rfl, hrule, hd⟩
    refine ⟨⟨rule, deadline.getD .unbounded⟩, ?_, rfl⟩
    exact ExtendPolicy.ofFields_eq_ok_iff.mpr ⟨deadline, hrule, hd, rfl⟩

/-- The extend policy is read back from its rule's name and its deadline, which is left
out when it never passes. -/
theorem decode_extendPolicy_of_get? (hm : .extendPolicy ∈ m.facets) {p : ExtendPolicy}
    {fields : Fields} (hrule : fields.get? "rule" = some (.string p.rule.name))
    (hdeadline : fields.get? "trial_till" =
      if p.trialUntil = .unbounded then none else some (Stored.encode p.trialUntil)) :
    m.decode .extendPolicy (some fields) = .ok (.extendPolicy p) := by
  have hdefault : (m.defaultFields .extendPolicy).get? "trial_till" = none := rfl
  have hname : (m.laidOver .extendPolicy (some fields)).get? "rule" =
      some (.string p.rule.name) := by
    rw [m.get?_laidOver, Option.getD_some, hrule]
    rfl
  have hstored : (m.laidOver .extendPolicy (some fields)).get? "trial_till" =
      if p.trialUntil = .unbounded then none else some (Stored.encode p.trialUntil) := by
    rw [m.get?_laidOver, Option.getD_some, hdeadline, hdefault, Option.or_none]
  refine (decode_extendPolicy_eq_ok_iff hm).mpr ?_
  by_cases hu : p.trialUntil = .unbounded
  · rw [if_pos hu] at hstored
    refine ⟨p.rule, none, ?_, hname, ?_⟩
    · rw [Option.getD_none, ← hu]
    · unfold Table.optional Table.defaulted
      rw [hstored]
  · rw [if_neg hu] at hstored
    refine ⟨p.rule, some p.trialUntil, rfl, hname, ?_⟩
    unfold Table.optional Table.defaulted
    rw [hstored]
    show (Seconds.ofInt? p.trialUntil.val).map some = _
    rw [Seconds.ofInt?_val]
    rfl

end Family
end Subscription

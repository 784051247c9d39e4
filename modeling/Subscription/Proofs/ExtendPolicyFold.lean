import Subscription.Proofs.FieldReading
import Subscription.Proofs.Deadlines

/-! # The extend policy of a history

The extend policy is folded from every record that mentions it, whatever its id.
The rule is the latest of the default and all the rules that records give
(`ExtendFold.isGreatest_rule`), and the deadline is the least of those that records
set (`ExtendFold.trialUntil_foldl`).  A record whose rule is not one makes the whole
policy unreadable (`decode_foldExtendPolicy`).
-/
namespace Subscription

open Record

namespace ExtendFold
variable (acc : ExtendFold) (r : Record)

/-- What a record does to the fold: nothing, or it is taken under a rule, its own or
without one the rule so far, or the name of its rule is kept as unknown. -/
theorem step_cases :
    (r.facet? .extendPolicy = none ∧ acc.step r = acc) ∨
      (∃ fields rule, r.facet? .extendPolicy = some fields ∧
        (r.ownRule = some rule ∨ r.ruleName? = none ∧ rule = acc.rule) ∧
        acc.step r = acc.accept r rule fields) ∨
      (∃ name, r.ruleName? = some name ∧ ExtendRule.ofName? name = none ∧
        acc.step r = { acc with unknown := acc.unknown.or (some name) }) := by
  unfold step ownRule ruleName?
  cases hf : r.facet? .extendPolicy with
  | none => exact Or.inl ⟨rfl, rfl⟩
  | some fields =>
    refine Or.inr ?_
    dsimp only [Option.bind_some]
    cases hn : (fields.get? "rule").bind Value.string? with
    | none => exact Or.inl ⟨fields, acc.rule, rfl, Or.inr ⟨rfl, rfl⟩, rfl⟩
    | some name =>
      cases hr : ExtendRule.ofName? name with
      | none => exact Or.inr ⟨name, rfl, hr, by simp only [hr]⟩
      | some rule => exact Or.inl ⟨fields, rule, rfl, Or.inl hr, by simp only [hr]⟩

theorem rule_accept (rule : ExtendRule) (fields : Fields) :
    (acc.accept r rule fields).rule = max acc.rule rule := by
  unfold accept
  dsimp only
  split
  · rename_i h
    exact (max_eq_right h.2).symm
  · rename_i h
    refine (max_eq_left ?_).symm
    by_cases hn : acc.rule = .never
    · rw [hn]
      cases rule <;> decide
    · exact le_of_not_ge fun hle => h ⟨hn, hle⟩

theorem rule_step : (acc.step r).rule = r.ruleAfter acc.rule := by
  unfold ruleAfter
  rcases acc.step_cases r with ⟨hf, h⟩ | ⟨fields, rule, -, hr | ⟨hr, rfl⟩, h⟩ | ⟨name, hn, ho, h⟩
  · rw [h, ownRule_of_unnamed (ruleName?_of_unmentioned hf)]
    rfl
  · rw [h, rule_accept, hr]
    rfl
  · rw [h, rule_accept, ownRule_of_unnamed hr]
    exact max_self _
  · unfold ownRule
    rw [h, hn, Option.bind_some, ho]
    rfl

theorem trialUntil_accept (rule : ExtendRule) (fields : Fields) :
    (acc.accept r rule fields).trialUntil =
      ((deadline rule fields r).filter (· ≠ .infinite)).toList.foldl min acc.trialUntil := by
  unfold accept
  dsimp only
  split <;> cases deadline rule fields r with
  | none => rfl
  | some d =>
    by_cases hd : d = .infinite
    · simp [hd, Option.filter_some]
    · simp [hd, Option.filter_some]

/-- The deadline under which a record is taken is the one that it sets. -/
theorem filter_deadline {r : Record} {fields : Fields} {rule : ExtendRule}
    (hf : r.facet? .extendPolicy = some fields)
    (hr : r.ownRule = some rule ∨ r.ruleName? = none ∧ rule = acc.rule) :
    (deadline rule fields r).filter (· ≠ .infinite) = r.deadlineAfter acc.rule := by
  have hstated : r.statedDeadline = fields.required "trial_till" := by
    unfold statedDeadline
    rw [hf]
    rfl
  unfold deadline
  rcases hr with hr | ⟨hr, rfl⟩
  · have hb : ¬ r.Borrows := fun hb => by
      rw [hb.ownRule_eq_none] at hr
      cases hr
    rw [deadlineAfter_of_not_borrows hb]
    unfold ownDeadline
    rw [hstated, hr]
    cases fields.required (α := Seconds) "trial_till" <;> simp
  · by_cases hb : r.Borrows
    · rw [hb.deadlineAfter_eq, ← hstated, hb.stated]
      by_cases ht : acc.rule = .trial <;> simp [ht, hb.finite, Option.filter_some]
    · rw [deadlineAfter_of_not_borrows hb]
      unfold ownDeadline
      rw [hstated, ownRule_of_unnamed hr]
      cases hs : fields.required (α := Seconds) "trial_till" with
      | some d => simp
      | none =>
        have hinf : r.activeUntil = .infinite := Decidable.not_not.mp fun hinf =>
          hb ⟨mentions_iff.mpr ⟨fields, hf⟩, hr, hstated.trans hs, hinf⟩
        by_cases ht : acc.rule = .trial <;> simp [ht, hinf, Option.filter_some]

theorem trialUntil_step {r : Record} (hr : r.NamesRule) :
    (acc.step r).trialUntil = (r.deadlineAfter acc.rule).toList.foldl min acc.trialUntil := by
  rcases acc.step_cases r with ⟨hf, h⟩ | ⟨fields, rule, hf, hrule, h⟩ | ⟨name, hn, ho, -⟩
  · rw [h, deadlineAfter_of_unmentioned hf]
    rfl
  · rw [h, trialUntil_accept, acc.filter_deadline hf hrule]
  · have hsome := hr name hn
    rw [ho] at hsome
    cases hsome

/-- No record makes an unknown name out of that of a rule. -/
theorem unknown_step {r : Record} :
    (r.NamesRule ∧ (acc.step r).unknown = acc.unknown) ∨
      ∃ name, ExtendRule.ofName? name = none ∧ ¬ r.NamesRule ∧
        (acc.step r).unknown = acc.unknown.or (some name) := by
  rcases acc.step_cases r with ⟨hf, h⟩ | ⟨fields, rule, -, hr, h⟩ | ⟨name, hn, ho, h⟩
  · exact Or.inl ⟨namesRule_of_unnamed (ruleName?_of_unmentioned hf), by rw [h]⟩
  · refine Or.inl ⟨?_, ?_⟩
    · exact hr.elim namesRule_of_ownRule fun hr => namesRule_of_unnamed hr.1
    · rw [h]
      unfold accept
      dsimp only
      split <;> rfl
  · refine Or.inr ⟨name, ho, fun hnames => ?_, by rw [h]⟩
    have hsome := hnames name hn
    rw [ho] at hsome
    cases hsome

section Histories
variable (records : List Record)

theorem rule_foldl :
    (records.foldl step acc).rule = (records.filterMap ownRule).foldl max acc.rule := by
  induction records generalizing acc with
  | nil => rfl
  | cons r records ih =>
    rw [List.foldl_cons, ih, rule_step]
    unfold ruleAfter
    cases hr : r.ownRule with
    | none => rw [List.filterMap_cons_none hr]; rfl
    | some rule => rw [List.filterMap_cons_some hr]; rfl

/-- **The rule of a history** is the latest of the one before it and those that the
records give. -/
theorem isGreatest_rule :
    IsGreatest {rule | rule = acc.rule ∨ ∃ r ∈ records, r.ownRule = some rule}
      (records.foldl step acc).rule := by
  rw [rule_foldl]
  simpa only [List.mem_filterMap] using isGreatest_foldl_max (records.filterMap ownRule) acc.rule

/-- The deadline of a history is the least of the one before it and those that the
records set. -/
theorem trialUntil_foldl (hr : ∀ r ∈ records, r.NamesRule) :
    (records.foldl step acc).trialUntil =
      (deadlines acc.rule records).foldl min acc.trialUntil := by
  induction records generalizing acc with
  | nil => rfl
  | cons r records ih =>
    rw [List.foldl_cons, ih _ fun s hs => hr s (List.mem_cons_of_mem _ hs), rule_step,
      acc.trialUntil_step (hr r List.mem_cons_self), deadlines, List.foldl_append]

theorem unknown_foldl_eq_none_iff :
    (records.foldl step acc).unknown = none ↔
      acc.unknown = none ∧ ∀ r ∈ records, r.NamesRule := by
  induction records generalizing acc with
  | nil => exact ⟨fun h => ⟨h, fun r hr => absurd hr List.not_mem_nil⟩, And.left⟩
  | cons r records ih =>
    rw [List.foldl_cons, ih, List.forall_mem_cons]
    rcases acc.unknown_step (r := r) with ⟨hr, h⟩ | ⟨name, -, hr, h⟩
    · rw [h]
      exact and_congr_right fun _ => (and_iff_right hr).symm
    · rw [h]
      constructor
      · rintro ⟨h, -⟩
        cases (Option.or_eq_none_iff.mp h).2
      · rintro ⟨-, h, -⟩
        exact absurd h hr

/-- What is kept as unknown is not the name of a rule. -/
theorem ofName?_unknown_foldl (h : ∀ name, acc.unknown = some name → ExtendRule.ofName? name = none)
    {name : String} (hn : (records.foldl step acc).unknown = some name) :
    ExtendRule.ofName? name = none := by
  induction records generalizing acc with
  | nil => exact h name hn
  | cons r records ih =>
    refine ih (acc.step r) (fun name' hname' => ?_) hn
    rcases acc.unknown_step (r := r) with ⟨-, hu⟩ | ⟨first, hfirst, -, hu⟩
    · exact h name' (hu ▸ hname')
    · rw [hu] at hname'
      rcases Option.or_eq_some_iff.mp hname' with hacc | ⟨-, hname'⟩
      · exact h name' hacc
      · cases hname'
        exact hfirst

end Histories

/-! ## Reading the fold -/

theorem get?_finish_rule :
    acc.finish.get? "rule" = some (.string (acc.unknown.getD acc.rule.name)) := by
  unfold finish
  dsimp only
  split
  · rw [Table.get?_erase, if_neg (by decide), Table.get?_insert, if_pos rfl]
  · rw [Table.get?_insert, if_neg (by decide), Table.get?_insert, if_pos rfl]

theorem get?_finish_deadline :
    acc.finish.get? "trial_till" =
      if acc.trialUntil = .unbounded then none else some (Stored.encode acc.trialUntil) := by
  unfold finish
  dsimp only
  split
  · rw [Table.get?_erase, if_pos rfl]
  · rw [Table.get?_insert, if_pos rfl]

end ExtendFold

/-- The fold of a family's extend policy, before it is stored. -/
def foldPolicy (m : Family) (records : List Record) : ExtendFold :=
  records.foldl ExtendFold.step { rule := m.defaults.extendRule }

/-- Records that name no unknown rule leave the earliest of the deadlines they set. -/
theorem trialUntil_foldPolicy {m : Family} {records : List Record}
    (hr : ∀ r ∈ records, r.NamesRule) :
    (foldPolicy m records).trialUntil = earliestDeadline m.defaults.extendRule records :=
  ExtendFold.trialUntil_foldl _ records hr

theorem foldExtendPolicy_eq (m : Family) (records : List Record) :
    foldExtendPolicy m records = (foldPolicy m records).finish := rfl

/-- The reading of a stored fold: the rule and the deadline come back, unless an
unknown name stands in the rule's place. -/
theorem ExtendFold.decode_finish {m : Family} (hm : .extendPolicy ∈ m.facets) {acc : ExtendFold}
    (hacc : ∀ name, acc.unknown = some name → ExtendRule.ofName? name = none) {x : Setting} :
    m.decode .extendPolicy (some acc.finish) = .ok x ↔
      acc.unknown = none ∧ x = .extendPolicy ⟨acc.rule, acc.trialUntil⟩ := by
  cases hu : acc.unknown with
  | none =>
    have hread : m.decode .extendPolicy (some acc.finish) =
        .ok (.extendPolicy ⟨acc.rule, acc.trialUntil⟩) :=
      Family.decode_extendPolicy_of_get? hm (by rw [get?_finish_rule, hu]; rfl)
        acc.get?_finish_deadline
    rw [hread]
    constructor
    · intro h
      exact ⟨rfl, (Except.ok.inj h).symm⟩
    · rintro ⟨-, rfl⟩
      rfl
  | some name =>
    refine ⟨fun h => ?_, nofun⟩
    -- An unknown name in the place of the rule is not read as one.
    obtain ⟨rule, deadline, -, hrule, -⟩ := (Family.decode_extendPolicy_eq_ok_iff hm).mp h
    rw [m.get?_laidOver, Option.getD_some, get?_finish_rule, hu] at hrule
    have hname : name = rule.name := Value.string.inj (Option.some.inj hrule)
    have hnone := hacc name hu
    rw [ExtendRule.ofName?_eq_some_iff.mpr hname] at hnone
    cases hnone

/-- **The extend policy of a history** is read exactly when no record names an
unknown rule, and it is then the folded one. -/
theorem decode_foldExtendPolicy {m : Family} (hm : .extendPolicy ∈ m.facets)
    {records : List Record} {x : Setting} :
    m.decode .extendPolicy (some (foldExtendPolicy m records)) = .ok x ↔
      (∀ r ∈ records, r.NamesRule) ∧
        x = .extendPolicy ⟨(foldPolicy m records).rule, (foldPolicy m records).trialUntil⟩ := by
  have hunknown : (foldPolicy m records).unknown = none ↔ ∀ r ∈ records, r.NamesRule :=
    (ExtendFold.unknown_foldl_eq_none_iff _ records).trans (and_iff_right rfl)
  rw [foldExtendPolicy_eq, ExtendFold.decode_finish hm, hunknown]
  exact fun name => ExtendFold.ofName?_unknown_foldl _ records fun _ h => by cases h

end Subscription

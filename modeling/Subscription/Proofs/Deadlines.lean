import Subscription.Proofs.Newest
import Subscription.Proofs.Order

/-! # What records say of the extend policy

A record may give the rule of the extend policy (`ownRule`), and a deadline: by
itself (`ownDeadline`), or by lending its expiry because the rule so far is `trial`
although the record gives none (`Borrows`).  The deadlines of a history
(`deadlines`) always have those that records set by themselves, in any order; which
of the lent ones they have depends on when the rule is `trial`
(`mem_deadlines`, `activeUntil_mem_deadlines`).
-/
namespace Subscription

namespace Record
variable (r : Record)

/-- The name that a record gives for the rule. -/
def ruleName? : Option String :=
  ((r.facet? .extendPolicy).bind (·.get? "rule")).bind Value.string?

/-- The rule that a record gives. -/
def ownRule : Option ExtendRule := r.ruleName?.bind ExtendRule.ofName?

/-- Whether the name that the record gives, if any, is that of a rule. -/
def NamesRule : Prop := ∀ name, r.ruleName? = some name → (ExtendRule.ofName? name).isSome

/-- The deadline that a record states. -/
def statedDeadline : Option Seconds :=
  (r.facet? .extendPolicy).bind (·.required "trial_till")

/-- The deadline that a record sets by itself: the stated one, or else the expiry
of a plan on trial; never an infinite one. -/
def ownDeadline : Option Seconds :=
  (r.statedDeadline.or (if r.ownRule = some .trial then some r.activeUntil else none)).filter
    (· ≠ .infinite)

/-- The record mentions the extend policy with neither a rule nor a deadline, so its
expiry is a deadline if the rule so far is `trial`. -/
structure Borrows : Prop where
  mentions : r.mentions .extendPolicy = true
  ruleName : r.ruleName? = none
  stated : r.statedDeadline = none
  finite : r.activeUntil ≠ .infinite

instance : Decidable r.Borrows :=
  decidable_of_iff (r.mentions .extendPolicy = true ∧ r.ruleName? = none ∧
      r.statedDeadline = none ∧ r.activeUntil ≠ .infinite)
    ⟨fun ⟨h, hn, hs, hf⟩ => ⟨h, hn, hs, hf⟩, fun ⟨h, hn, hs, hf⟩ => ⟨h, hn, hs, hf⟩⟩

/-- The rule after a record. -/
def ruleAfter (rule : ExtendRule) : ExtendRule := r.ownRule.elim rule (max rule)

/-- The deadline that a record sets when the rule so far is `rule`. -/
def deadlineAfter (rule : ExtendRule) : Option Seconds :=
  r.ownDeadline.or (if r.Borrows ∧ rule = .trial then some r.activeUntil else none)

variable {r}

theorem ownRule_of_unnamed (h : r.ruleName? = none) : r.ownRule = none := by
  unfold ownRule
  rw [h]
  rfl

theorem namesRule_of_unnamed (h : r.ruleName? = none) : r.NamesRule := by
  intro name hname
  rw [h] at hname
  cases hname

theorem namesRule_of_ownRule {rule : ExtendRule} (h : r.ownRule = some rule) : r.NamesRule := by
  intro name hname
  unfold ownRule at h
  rw [hname] at h
  exact Option.isSome_iff_exists.mpr ⟨rule, h⟩

theorem Borrows.ownRule_eq_none (hb : r.Borrows) : r.ownRule = none :=
  ownRule_of_unnamed hb.ruleName

theorem deadlineAfter_of_not_borrows (hb : ¬ r.Borrows) (rule : ExtendRule) :
    r.deadlineAfter rule = r.ownDeadline := by
  unfold deadlineAfter
  rw [if_neg fun h => hb h.1, Option.or_none]

theorem Borrows.deadlineAfter_eq (hb : r.Borrows) (rule : ExtendRule) :
    r.deadlineAfter rule = if rule = .trial then some r.activeUntil else none := by
  unfold deadlineAfter ownDeadline
  rw [hb.stated, hb.ownRule_eq_none]
  simp [hb]

section Unmentioned
variable (h : r.facet? .extendPolicy = none)
include h

theorem ruleName?_of_unmentioned : r.ruleName? = none := by
  unfold ruleName?
  rw [h]
  rfl

theorem deadlineAfter_of_unmentioned (rule : ExtendRule) : r.deadlineAfter rule = none := by
  have hb : ¬ r.Borrows := fun hb => by
    obtain ⟨fields, hfields⟩ := mentions_iff.mp hb.mentions
    rw [h] at hfields
    cases hfields
  rw [deadlineAfter_of_not_borrows hb]
  unfold ownDeadline statedDeadline
  rw [ownRule_of_unnamed (ruleName?_of_unmentioned h), h]
  rfl

end Unmentioned

end Record

open Record

/-- The deadlines that records set, one after another. -/
def deadlines (rule : ExtendRule) : List Record → List Seconds
  | [] => []
  | r :: rest => (r.deadlineAfter rule).toList ++ deadlines (r.ruleAfter rule) rest

theorem ruleAfter_of_silent {r : Record} (h : r.ownRule = none) (rule : ExtendRule) :
    r.ruleAfter rule = rule := by
  unfold ruleAfter
  rw [h]
  rfl

theorem ruleAfter_eq_trial {r : Record} {rule : ExtendRule} (h : r.ruleAfter rule = .trial) :
    rule = .trial ∨ rule = .free ∧ r.ownRule = some .trial := by
  unfold ruleAfter at h
  revert h
  cases r.ownRule with
  | none => exact Or.inl
  | some own =>
    cases rule <;> cases own <;> decide

theorem ruleAfter_eq_free {r : Record} {rule : ExtendRule} (h : r.ruleAfter rule = .free) :
    rule = .free := by
  unfold ruleAfter at h
  revert h
  cases r.ownRule with
  | none => exact id
  | some own =>
    cases rule <;> cases own <;> decide

theorem ruleAfter_trial {r : Record} (h : r.ownRule ≠ some .never) :
    r.ruleAfter .trial = .trial := by
  unfold ruleAfter
  revert h
  cases r.ownRule with
  | none => exact fun _ => rfl
  | some own => cases own <;> decide

section Deadlines
variable {rule : ExtendRule} {records : List Record} {r : Record} {d : Seconds}

theorem ownDeadline_mem_deadlines (hr : r ∈ records) (hd : r.ownDeadline = some d) :
    d ∈ deadlines rule records := by
  induction records generalizing rule with
  | nil => cases hr
  | cons s records ih =>
    rw [deadlines, List.mem_append]
    rcases List.mem_cons.mp hr with rfl | hr
    · left
      unfold deadlineAfter
      rw [hd]
      exact List.mem_singleton_self d
    · exact Or.inr (ih hr)

/-- **Where a deadline comes from**: a record sets it by itself, or lends it while
the rule is `trial`, from the start or because a record made it so. -/
theorem mem_deadlines (hd : d ∈ deadlines rule records) :
    (∃ r ∈ records, r.ownDeadline = some d) ∨
      (∃ r ∈ records, r.Borrows ∧ r.activeUntil = d) ∧
        (rule = .trial ∨ rule = .free ∧ ∃ s ∈ records, s.ownRule = some .trial) := by
  induction records generalizing rule with
  | nil => cases hd
  | cons s records ih =>
    rw [deadlines, List.mem_append, Option.mem_toList] at hd
    rcases hd with hd | hd
    · by_cases hb : s.Borrows
      · rw [hb.deadlineAfter_eq] at hd
        split at hd
        · rename_i ht
          exact Or.inr ⟨⟨s, List.mem_cons_self, hb, Option.some.inj hd⟩, Or.inl ht⟩
        · cases hd
      · rw [deadlineAfter_of_not_borrows hb] at hd
        exact Or.inl ⟨s, List.mem_cons_self, hd⟩
    · rcases ih hd with ⟨r, hr, hown⟩ | ⟨⟨r, hr, hb⟩, hrule⟩
      · exact Or.inl ⟨r, List.mem_cons_of_mem _ hr, hown⟩
      · refine Or.inr ⟨⟨r, List.mem_cons_of_mem _ hr, hb⟩, ?_⟩
        -- The rule after `s` is `trial` only if it was so before, or `s` made it so.
        rcases hrule with ht | ⟨hf, t, ht, htrial⟩
        · exact (ruleAfter_eq_trial ht).imp_right fun ⟨hf, hs⟩ => ⟨hf, s, List.mem_cons_self, hs⟩
        · exact Or.inr ⟨ruleAfter_eq_free hf, t, List.mem_cons_of_mem _ ht, htrial⟩

/-- No record sets an infinite deadline. -/
theorem ne_infinite_of_mem_deadlines (hd : d ∈ deadlines rule records) : d ≠ .infinite := by
  rcases mem_deadlines hd with ⟨s, -, hs⟩ | ⟨⟨s, -, hb, rfl⟩, -⟩
  · unfold ownDeadline at hs
    simpa using (Option.filter_eq_some_iff.mp hs).2
  · exact hb.finite

/-- While the rule is `trial` from start to end, every lent deadline counts. -/
theorem activeUntil_mem_deadlines (hnever : ∀ s ∈ records, s.ownRule ≠ some .never)
    (hr : r ∈ records) (hb : r.Borrows) : r.activeUntil ∈ deadlines .trial records := by
  induction records with
  | nil => cases hr
  | cons s records ih =>
    rw [deadlines, List.mem_append]
    rcases List.mem_cons.mp hr with rfl | hr
    · left
      rw [hb.deadlineAfter_eq, if_pos rfl]
      exact List.mem_singleton_self _
    · right
      rw [ruleAfter_trial (hnever s List.mem_cons_self)]
      exact ih (fun t ht => hnever t (List.mem_cons_of_mem _ ht)) hr

/-- Records that give no rule leave it to the ones after them. -/
theorem deadlines_append_of_silent {silent rest : List Record}
    (h : ∀ s ∈ silent, s.ownRule = none) :
    deadlines rule (silent ++ rest) = deadlines rule silent ++ deadlines rule rest := by
  induction silent with
  | nil => rfl
  | cons s silent ih =>
    rw [List.cons_append, deadlines, deadlines, ruleAfter_of_silent (h s List.mem_cons_self),
      ih fun t ht => h t (List.mem_cons_of_mem _ ht), List.append_assoc]

/-- The least of the deadlines that records set. -/
def earliestDeadline (rule : ExtendRule) (records : List Record) : Seconds :=
  (deadlines rule records).foldl min .unbounded

theorem isLeast_earliestDeadline (rule : ExtendRule) (records : List Record) :
    IsLeast {d | d = .unbounded ∨ d ∈ deadlines rule records} (earliestDeadline rule records) :=
  isLeast_foldl_min _ _

theorem earliestDeadline_ne_infinite (rule : ExtendRule) (records : List Record) :
    earliestDeadline rule records ≠ .infinite := by
  rcases (isLeast_earliestDeadline rule records).1 with h | h
  · rw [h]
    decide
  · exact ne_infinite_of_mem_deadlines h

/-- A single record that gives a rule leaves the deadline that it sets by itself. -/
theorem earliestDeadline_singleton {own : ExtendRule} (hr : r.ownRule = some own) :
    earliestDeadline rule [r] = r.ownDeadline.getD .unbounded := by
  have hb : ¬ r.Borrows := by
    intro hb
    rw [hb.ownRule_eq_none] at hr
    cases hr
  unfold earliestDeadline
  rw [deadlines, deadlineAfter_of_not_borrows hb]
  cases r.ownDeadline with
  | none => rfl
  | some d => exact min_eq_right d.le_unbounded

end Deadlines
end Subscription

import Subscription.Proofs.ClosedForm
import Subscription.Proofs.Storing

/-! # Extend policies that are not well-formed

A record may hold fields for the extend policy from which none could be read, because the rule
is not the name of one or the deadline is not a number of seconds (`Record.illFormed_iff`).  The
fold of a history looks for the forms that it knows and does not miss the others.  It keeps one
kind of fault, a name that is no rule, and then nothing is read.  Any other ill-formed field
counts as if it were not there (`Record.legible`), and in the end the folded rule and deadline
take its place.  So a history with ill-formed policies is refused only for such a name, or for
what else it would be refused for (`replay_error_iff_legible`).
-/
namespace Subscription

/-- What a reader refuses anyway may be left out before it reads. -/
theorem bind_filter {α β : Type} {o : Option α} {p : α → Bool} {f : α → Option β}
    (h : ∀ v b, o = some v → f v = some b → p v = true) : (o.filter p).bind f = o.bind f := by
  cases o with
  | none => rfl
  | some v =>
    by_cases hp : p v = true
    · rw [Option.filter_some_pos hp]
    · rw [Option.filter_some, if_neg hp]
      cases hf : f v with
      | none => exact hf.symm
      | some b => exact absurd (h v b rfl hf) hp

namespace Table
variable {α : Type} (t : Table α) (name : String) (p : α → Bool)

/-- The table without the entry of a name, if it is not as it should be. -/
def retain : Table α := if (t.get? name).all p then t else t.erase name

theorem get?_retain (other : String) :
    (t.retain name p).get? other =
      if other = name then (t.get? name).filter p else t.get? other := by
  unfold retain
  by_cases ho : other = name
  · subst ho
    cases hv : t.get? other with
    | none => simp [hv]
    | some v =>
      by_cases hp : p v = true <;> simp [hp, hv, get?_erase, Option.filter_some]
  · rw [if_neg ho]
    split
    · rfl
    · rw [get?_erase, if_neg ho]

end Table

namespace Value

/-- The name of a rule. -/
def isRule (v : Value) : Bool := (v.string?.bind ExtendRule.ofName?).isSome

/-- A number of seconds, or null for none. -/
def isDeadline (v : Value) : Bool := (Stored.decode? v : Option (Option Seconds)).isSome

theorem isRule_iff {v : Value} : v.isRule = true ↔ ∃ rule : ExtendRule, v = .string rule.name := by
  unfold isRule
  rw [Option.isSome_iff_exists]
  refine exists_congr fun rule => ?_
  rw [Option.bind_eq_some_iff]
  simp only [ExtendRule.ofName?_eq_some_iff]
  cases v <;> simp [string?]

end Value

/-- The fields of an extend policy without those that could not be read. -/
def Fields.legible (fields : Fields) : Fields :=
  (fields.retain "rule" Value.isRule).retain "trial_till" Value.isDeadline

theorem Fields.get?_legible_rule (fields : Fields) :
    (Fields.legible fields).get? "rule" = (fields.get? "rule").filter Value.isRule := by
  unfold legible
  rw [Table.get?_retain, if_neg (by decide), Table.get?_retain, if_pos rfl]

theorem Fields.get?_legible_deadline (fields : Fields) :
    (Fields.legible fields).get? "trial_till" =
      (fields.get? "trial_till").filter Value.isDeadline := by
  unfold legible
  rw [Table.get?_retain, if_pos rfl, Table.get?_retain, if_neg (by decide)]

/-- A policy is read exactly when each of its two fields is as it should be or not there. -/
theorem Family.exists_decode_extendPolicy_iff {m : Family} (hm : .extendPolicy ∈ m.facets)
    (fields : Fields) :
    (∃ x, m.decode .extendPolicy (some fields) = .ok x) ↔
      (fields.get? "rule").all Value.isRule = true ∧
        (fields.get? "trial_till").all Value.isDeadline = true := by
  have hrule : (m.laidOver .extendPolicy (some fields)).get? "rule" =
      some ((fields.get? "rule").getD (.string m.defaults.extendRule.name)) := by
    rw [m.get?_laidOver, Option.getD_some]
    cases fields.get? "rule" <;> rfl
  have hdeadline : (m.laidOver .extendPolicy (some fields)).get? "trial_till" =
      fields.get? "trial_till" := by
    rw [m.get?_laidOver, Option.getD_some]
    exact Option.or_none
  have hnamed : (fields.get? "rule").all Value.isRule = true ↔
      ∃ rule : ExtendRule, (m.laidOver .extendPolicy (some fields)).get? "rule" =
        some (.string rule.name) := by
    simp only [hrule, Option.some.injEq]
    rw [← Value.isRule_iff]
    cases fields.get? "rule" with
    | none => exact iff_of_true rfl (Value.isRule_iff.mpr ⟨_, rfl⟩)
    | some v => exact Iff.rfl
  have hdated : (fields.get? "trial_till").all Value.isDeadline = true ↔
      ∃ deadline : Option Seconds,
        (m.laidOver .extendPolicy (some fields)).optional "trial_till" = some deadline := by
    unfold Table.optional Table.defaulted
    rw [hdeadline]
    cases fields.get? "trial_till" with
    | none => exact iff_of_true rfl ⟨none, rfl⟩
    | some v => exact Option.isSome_iff_exists
  rw [hnamed, hdated]
  simp only [Family.decode_extendPolicy_eq_ok_iff hm]
  constructor
  · rintro ⟨x, rule, deadline, -, hr, hd⟩
    exact ⟨⟨rule, hr⟩, deadline, hd⟩
  · rintro ⟨⟨rule, hr⟩, deadline, hd⟩
    exact ⟨_, rule, deadline, rfl, hr, hd⟩

namespace Record
variable (m : Family) (r : Record)

/-- A field that the record has for the extend policy. -/
def policyField? (name : String) : Option Value := (r.facet? .extendPolicy).bind (·.get? name)

/-- The record mentions the extend policy with fields from which the family reads none. -/
def IllFormed : Prop :=
  ∃ fields e, r.facet? .extendPolicy = some fields ∧
    m.decode .extendPolicy (some fields) = .error e

/-- The policy of a record is ill-formed by its rule or by its deadline. -/
theorem illFormed_iff {m : Family} (hm : .extendPolicy ∈ m.facets) :
    r.IllFormed m ↔
      ¬ ((r.policyField? "rule").all Value.isRule = true ∧
        (r.policyField? "trial_till").all Value.isDeadline = true) := by
  unfold IllFormed policyField?
  cases r.facet? .extendPolicy with
  | none => exact iff_of_false nofun (not_not_intro ⟨rfl, rfl⟩)
  | some fields =>
    rw [Option.bind_some, Option.bind_some, ← Family.exists_decode_extendPolicy_iff hm]
    cases hd : m.decode .extendPolicy (some fields) with
    | error e =>
      refine iff_of_true ⟨fields, e, rfl, hd⟩ fun hwell => ?_
      obtain ⟨x, hx⟩ := hwell
      cases hx
    | ok x =>
      refine iff_of_false ?_ (not_not_intro ⟨x, rfl⟩)
      rintro ⟨fields', e, hf, he⟩
      rw [← Option.some.inj hf, hd] at he
      cases he

/-- A record that names a rule, if any, has no other string in the rule's place. -/
theorem namesRule_iff :
    r.NamesRule ↔ ∀ v name, r.policyField? "rule" = some v → v.string? = some name →
      v.isRule = true := by
  have hrule {v : Value} {name : String} (h : v.string? = some name) :
      v.isRule = (ExtendRule.ofName? name).isSome := by
    unfold Value.isRule
    rw [h]
    rfl
  constructor
  · intro h v name hv hname
    rw [hrule hname]
    exact h name (Option.bind_eq_some_iff.mpr ⟨v, hv, hname⟩)
  · intro h name hnamed
    obtain ⟨v, hv, hname⟩ := Option.bind_eq_some_iff.mp hnamed
    rw [← hrule hname]
    exact h v name hv hname

/-- A name that is no rule makes the policy of a record ill-formed. -/
theorem illFormed_of_not_namesRule {m : Family} (hm : .extendPolicy ∈ m.facets)
    (h : ¬ r.NamesRule) : r.IllFormed m := by
  refine (r.illFormed_iff hm).mpr fun hwell => h (r.namesRule_iff.mpr fun v _ hv _ => ?_)
  exact (Option.all_eq_true _ _).mp hwell.1 v hv

/-! ## Leaving ill-formed fields out -/

/-- The record without the fields for which its policy could not be read. -/
def legible : Record :=
  match r.facet? .extendPolicy with
  | none => r
  | some fields =>
    { r with facets := r.facets.insert Facet.extendPolicy.name (Fields.legible fields) }

theorem legible_eq : r.legible = { r with facets := r.legible.facets } := by
  unfold legible
  split <;> rfl

theorem facet?_legible (f : Facet) :
    r.legible.facet? f =
      if f = .extendPolicy then (r.facet? .extendPolicy).map Fields.legible else r.facet? f := by
  unfold legible
  split
  · rename_i hnone
    by_cases hf : f = .extendPolicy
    · rw [if_pos hf, hf, hnone]
      rfl
    · rw [if_neg hf]
  · rename_i fields hfields
    unfold facet?
    rw [Table.get?_insert]
    by_cases hf : f = .extendPolicy
    · rw [if_pos (hf ▸ rfl), if_pos hf, show r.facets.get? Facet.extendPolicy.name = _ from hfields]
      rfl
    · rw [if_neg fun hname => hf (Facet.name_injective hname), if_neg hf]

theorem mentions_legible : r.legible.mentions .extendPolicy = r.mentions .extendPolicy := by
  unfold mentions
  rw [facet?_legible, if_pos rfl, Option.isSome_map]

/-- Of a field, what is as it should be is left. -/
theorem policyField?_legible {name : String} {p : Value → Bool}
    (h : ∀ fields : Fields, (Fields.legible fields).get? name = (fields.get? name).filter p) :
    r.legible.policyField? name = (r.policyField? name).filter p := by
  unfold policyField?
  rw [facet?_legible, if_pos rfl]
  cases r.facet? .extendPolicy with
  | none => rfl
  | some fields => exact h fields

/-- What is left is well-formed. -/
theorem not_illFormed_legible {m : Family} (hm : .extendPolicy ∈ m.facets) :
    ¬ r.legible.IllFormed m := by
  have hall {p : Value → Bool} (o : Option Value) : (o.filter p).all p = true :=
    (Option.all_eq_true _ _).mpr fun _ hv => (Option.filter_eq_some_iff.mp hv).2
  rw [illFormed_iff _ hm, r.policyField?_legible Fields.get?_legible_rule,
    r.policyField?_legible Fields.get?_legible_deadline]
  exact not_not_intro ⟨hall _, hall _⟩

theorem namesRule_legible : r.legible.NamesRule := by
  refine r.legible.namesRule_iff.mpr fun v _ hv _ => ?_
  rw [r.policyField?_legible Fields.get?_legible_rule] at hv
  exact (Option.filter_eq_some_iff.mp hv).2

/-- A deadline that is read is not left out. -/
theorem statedDeadline_legible : r.legible.statedDeadline = r.statedDeadline := by
  have hread (s : Record) :
      s.statedDeadline = (s.policyField? "trial_till").bind Stored.decode? :=
    (Option.bind_assoc _ _ _).symm
  rw [hread, hread, r.policyField?_legible Fields.get?_legible_deadline]
  refine bind_filter fun v d _ hd => ?_
  rw [decode?_seconds_eq_some_iff.mp hd]
  show ((Seconds.ofInt? d.val).map some).isSome = true
  rw [Seconds.ofInt?_val]
  rfl

section NamesRule
variable {r} (h : r.NamesRule)
include h

/-- Neither is a name, if it is that of a rule. -/
theorem NamesRule.ruleName?_legible : r.legible.ruleName? = r.ruleName? := by
  show (r.legible.policyField? "rule").bind Value.string? = (r.policyField? "rule").bind _
  rw [r.policyField?_legible Fields.get?_legible_rule]
  exact bind_filter (r.namesRule_iff.mp h)

theorem NamesRule.ownRule_legible : r.legible.ownRule = r.ownRule := by
  unfold ownRule
  rw [h.ruleName?_legible]

theorem NamesRule.deadlineAfter_legible (rule : ExtendRule) :
    r.legible.deadlineAfter rule = r.deadlineAfter rule := by
  have hactive : r.legible.activeUntil = r.activeUntil := by rw [legible_eq]
  have hborrows : r.legible.Borrows ↔ r.Borrows := by
    constructor
    · rintro ⟨hm, hn, hs, hf⟩
      exact ⟨r.mentions_legible ▸ hm, h.ruleName?_legible ▸ hn, r.statedDeadline_legible ▸ hs,
        hactive ▸ hf⟩
    · rintro ⟨hm, hn, hs, hf⟩
      exact ⟨r.mentions_legible ▸ hm, h.ruleName?_legible ▸ hn, r.statedDeadline_legible ▸ hs,
        hactive ▸ hf⟩
  unfold deadlineAfter ownDeadline
  simp only [statedDeadline_legible, h.ownRule_legible, hactive, hborrows]

end NamesRule
end Record

/-! ## Histories -/

open Record

variable {m : Family} {records : List Record}

/-- The fields of other facets stay. -/
theorem foldFacet_legible {f : Facet} (hf : f ≠ .extendPolicy) :
    foldFacet f (records.map legible) = foldFacet f records := by
  have hstep : (fun acc r => FacetFold.step f acc (legible r)) = FacetFold.step f := by
    funext acc r
    unfold FacetFold.step
    rw [facet?_legible, if_neg hf, legible_eq]
  unfold foldFacet
  rw [List.foldl_map, hstep]

theorem rule_foldPolicy_legible (h : ∀ r ∈ records, r.NamesRule) :
    (foldPolicy m (records.map legible)).rule = (foldPolicy m records).rule := by
  have hrules : records.filterMap (ownRule ∘ legible) = records.filterMap ownRule :=
    List.filterMap_congr fun r hr => (h r hr).ownRule_legible
  unfold foldPolicy
  rw [ExtendFold.rule_foldl, ExtendFold.rule_foldl, List.filterMap_map, hrules]

theorem deadlines_legible (h : ∀ r ∈ records, r.NamesRule) (rule : ExtendRule) :
    deadlines rule (records.map legible) = deadlines rule records := by
  induction records generalizing rule with
  | nil => rfl
  | cons r records ih =>
    obtain ⟨hr, hrest⟩ := List.forall_mem_cons.mp h
    have hafter : r.legible.ruleAfter rule = r.ruleAfter rule := by
      unfold ruleAfter
      rw [hr.ownRule_legible]
    rw [List.map_cons, deadlines, deadlines, hr.deadlineAfter_legible, hafter, ih hrest]

/-- Ill-formed fields have no part in what is read, unless they name an unknown rule. -/
theorem decode_replayedFields_legible (h : ∀ r ∈ records, r.NamesRule) {f : Facet}
    (hf : f ∈ m.facets) :
    m.decode f (some (replayedFields m (records.map legible) f)) =
      m.decode f (some (replayedFields m records f)) := by
  by_cases hpolicy : f = .extendPolicy
  · subst hpolicy
    have hread {rs : List Record} (hn : ∀ r ∈ rs, r.NamesRule) :
        m.decode .extendPolicy (some (foldExtendPolicy m rs)) =
          .ok (.extendPolicy
            ⟨(foldPolicy m rs).rule, earliestDeadline m.defaults.extendRule rs⟩) := by
      rw [← trialUntil_foldPolicy hn]
      exact (decode_foldExtendPolicy hf).mpr ⟨hn, rfl⟩
    have hlegible : ∀ r ∈ records.map legible, r.NamesRule :=
      List.forall_mem_map.mpr fun r _ => r.namesRule_legible
    show m.decode .extendPolicy (some (foldExtendPolicy m (records.map legible))) =
      m.decode .extendPolicy (some (foldExtendPolicy m records))
    rw [hread hlegible, hread h, rule_foldPolicy_legible h]
    unfold earliestDeadline
    rw [deadlines_legible h]
  · rw [replayedFields_of_ne hpolicy, replayedFields_of_ne hpolicy, foldFacet_legible hpolicy]

/-- **What is ill-formed is swallowed**, unless it names an unknown rule: the history replays as it
does without. -/
theorem replay_legible (h : ∀ r ∈ records, r.NamesRule) :
    replay m (records.map legible) = replay m records := by
  have hid (r : Record) : r.legible.id = r.id := by rw [legible_eq]
  have hread := m.decodeAll_congr fun f hf => decode_replayedFields_legible h hf
  have hdates : foldDates (records.map legible) = foldDates records := by
    rw [foldDates_eq, foldDates_eq, first?_map hid]
    cases first? records with
    | none => rfl
    | some first => rw [Option.map_some, first.legible_eq]
  unfold replay
  rw [last?_map hid, hdates, hread]
  cases last? records with
  | none => rfl
  | some last => rw [Option.map_some, last.legible_eq]

/-- A name that is no rule is not swallowed. -/
theorem namesRule_of_replay (hm : .extendPolicy ∈ m.facets) {q : Replayed}
    (h : replay m records = .ok q) : ∀ r ∈ records, r.NamesRule :=
  (extendPolicy_of_replay hm h).1

/-- **Which ill-formed policies a replay reports.**  A name that is no rule makes a record
ill-formed, and a history with one is refused.  Where no record has such a name, a history is
replayed as it is without its ill-formed fields: it is refused for what else is wrong with it, and
for nothing that is ill-formed in an extend policy. -/
theorem replay_error_iff_legible (hm : .extendPolicy ∈ m.facets) (records : List Record) :
    ((∃ e, replay m records = .error e) ↔
        (∃ r ∈ records, ¬ r.NamesRule) ∨ ∃ e, replay m (records.map legible) = .error e) ∧
      ((∀ r ∈ records, r.NamesRule) → replay m (records.map legible) = replay m records) ∧
      ∀ r : Record, (¬ r.NamesRule → r.IllFormed m) ∧ ¬ r.legible.IllFormed m := by
  refine ⟨?_, replay_legible, fun r => ⟨r.illFormed_of_not_namesRule hm,
    r.not_illFormed_legible hm⟩⟩
  by_cases h : ∀ r ∈ records, r.NamesRule
  · have hnone : ¬ ∃ r ∈ records, ¬ r.NamesRule := fun ⟨r, hr, hn⟩ => hn (h r hr)
    rw [or_iff_right hnone, replay_legible h]
  · refine iff_of_true ?_ (Or.inl (by simpa using h))
    cases hq : replay m records with
    | error e => exact ⟨e, rfl⟩
    | ok q => exact absurd (namesRule_of_replay hm hq) h

namespace Seats

/-- A record of a plan until 2000 with the given extend policy. -/
def recordWith (id : UInt64) (policy : Fields) : Record :=
  ⟨id, 1001, 2000, 0, ⟨[("extend_policy", policy)]⟩⟩

/-- The rule is a number. -/
def numberedRule : Record := recordWith 1 ⟨[("rule", .int 5)]⟩

/-- The deadline of the trial is a word. -/
def wordedDeadline : Record :=
  recordWith 2 ⟨[("rule", .string "trial"), ("trial_till", .string "soon")]⟩

/-- The name of the rule is that of none. -/
def unknownRule : Record := recordWith 3 ⟨[("rule", .string "later")]⟩

/-- One name that is no rule is reported among whatever else is ill-formed. -/
theorem refused_unknownRule :
    Facet.extendPolicy ∈ family.facets ∧ unknownRule.IllFormed family ∧
      ∃ e, replay family [numberedRule, wordedDeadline, unknownRule] = .error e := by
  have hm : Facet.extendPolicy ∈ family.facets := by decide
  have hname : ¬ unknownRule.NamesRule := fun h => absurd (h "later" rfl) (by decide)
  obtain ⟨hiff, -, hrecord⟩ :=
    replay_error_iff_legible hm [numberedRule, wordedDeadline, unknownRule]
  exact ⟨hm, (hrecord unknownRule).1 hname,
    hiff.mpr (Or.inl ⟨unknownRule, by simp, hname⟩)⟩

/-- **A history may swallow a policy from which nothing can be read**: with a number for its rule it
is replayed as free, and with a word for its deadline as on trial until the plan expires. -/
theorem replay_illFormed :
    Facet.extendPolicy ∈ family.facets ∧ numberedRule.IllFormed family ∧
      wordedDeadline.IllFormed family ∧
      replay family [numberedRule] = .ok ⟨1001, ⟨2000, 0, {
        limit := some ⟨10⟩
        extendPolicy := some ⟨.free, .unbounded⟩
        restrictPolicy := some ⟨0⟩
        demo := some ⟨0⟩ }⟩⟩ ∧
      replay family [wordedDeadline] = .ok ⟨1001, ⟨2000, 0, {
        limit := some ⟨10⟩
        extendPolicy := some ⟨.trial, 2000⟩
        restrictPolicy := some ⟨0⟩
        demo := some ⟨0⟩ }⟩⟩ :=
  ⟨by decide, ⟨_, .malformed .extendPolicy, rfl, rfl⟩, ⟨_, .malformed .extendPolicy, rfl, rfl⟩,
    rfl, rfl⟩

end Seats
end Subscription

import Subscription.Proofs.ClosedForm

/-! # The extend policy of a longer history

Records that are appended to a history reach its extend policy after all others, whatever their
ids.  A record may give a rule, or none and so keep the one so far; it may state a deadline, lend
its expiry, or have unreadable fields in the place of both.  None of this moves the rule back or
puts the deadline off (`ExtendFold.hardens_step`), also once the rule is `never`.  So the policy
hardens along any records (`ExtendFold.hardens_foldl`), and what is read of the fold in the end
is its rule and its deadline (`replay_append_hardens`).
-/
namespace Subscription

/-- The rule of the second policy is not before that of the first, and its deadline not after. -/
structure ExtendPolicy.HardensTo (p q : ExtendPolicy) : Prop where
  rule : p.rule ≤ q.rule
  deadline : q.trialUntil ≤ p.trialUntil

theorem ExtendPolicy.HardensTo.refl (p : ExtendPolicy) : p.HardensTo p :=
  ⟨le_refl _, le_refl _⟩

theorem ExtendPolicy.HardensTo.trans {p q s : ExtendPolicy} (h : p.HardensTo q)
    (h' : q.HardensTo s) : p.HardensTo s :=
  ⟨h.rule.trans h'.rule, h'.deadline.trans h.deadline⟩

namespace ExtendFold
variable (acc : ExtendFold)

/-- The policy so far. -/
def policy : ExtendPolicy := ⟨acc.rule, acc.trialUntil⟩

/-- A record is taken under a rule that stays or moves on; its deadline counts if it is earlier. -/
theorem hardens_accept (r : Record) (rule : ExtendRule) (fields : Fields) :
    acc.policy.HardensTo (acc.accept r rule fields).policy where
  rule := by
    show acc.rule ≤ (acc.accept r rule fields).rule
    rw [rule_accept]
    exact le_max_left _ _
  deadline := by
    show (acc.accept r rule fields).trialUntil ≤ acc.trialUntil
    rw [trialUntil_accept]
    exact (isLeast_foldl_min _ _).2 (Or.inl rfl)

/-- **No record softens the policy**, whatever it has in the place of a rule and a deadline. -/
theorem hardens_step (r : Record) : acc.policy.HardensTo (acc.step r).policy := by
  rcases acc.step_cases r with ⟨-, h⟩ | ⟨fields, rule, -, -, h⟩ | ⟨name, -, -, h⟩
  · rw [h]
    exact .refl _
  · rw [h]
    exact acc.hardens_accept r rule fields
  · -- The name of an unknown rule is kept beside the policy.
    rw [h]
    exact .refl _

theorem hardens_foldl (records : List Record) :
    acc.policy.HardensTo (records.foldl step acc).policy := by
  induction records generalizing acc with
  | nil => exact .refl _
  | cons r records ih =>
    rw [List.foldl_cons]
    exact (acc.hardens_step r).trans (ih (acc.step r))

end ExtendFold

section Append
variable {m : Family} {xs ys : List Record} {q q' : Replayed}

theorem hardens_foldPolicy_append (m : Family) (xs ys : List Record) :
    (foldPolicy m xs).policy.HardensTo (foldPolicy m (xs ++ ys)).policy := by
  unfold foldPolicy
  rw [List.foldl_append]
  exact ExtendFold.hardens_foldl _ ys

/-- **A longer history has no softer extend policy.**  Where a history and the same history with
any records appended to it can both be replayed, the rule of the longer one is not before that of
the shorter one, and its trial does not end later. -/
theorem replay_append_hardens (hm : .extendPolicy ∈ m.facets) (hx : replay m xs = .ok q)
    (hxy : replay m (xs ++ ys) = .ok q') :
    ∃ p p', q.snapshot.settings.extendPolicy = some p ∧
      q'.snapshot.settings.extendPolicy = some p' ∧ p.rule ≤ p'.rule ∧
      p'.trialUntil ≤ p.trialUntil := by
  have hp := (extendPolicy_of_replay hm hx).2
  have hp' := (extendPolicy_of_replay hm hxy).2
  obtain ⟨hrule, hdeadline⟩ := hardens_foldPolicy_append m xs ys
  exact ⟨_, _, hp, hp', hrule, hdeadline⟩

end Append

namespace Seats

/-- A trial until 2000. -/
def begun : List Record := [
  ⟨5, 1001, 2000, 0, ⟨[("extend_policy", ⟨[("rule", .string "trial")]⟩)]⟩⟩]

/-- The id of the trial again, with a rule that cannot be read and an earlier expiry; the end of
all trials, with a deadline that is none; and, older than both, a rule further back with a later
deadline. -/
def disordered : List Record := [
  ⟨5, 1001, 1800, 0, ⟨[("extend_policy", ⟨[("rule", .int 0)]⟩)]⟩⟩,
  ⟨9, 1001, 0, 0, ⟨[("extend_policy", ⟨[("rule", .string "never"), ("trial_till", .int 0)]⟩)]⟩⟩,
  ⟨1, 1002, 0, 0, ⟨[("extend_policy", ⟨[("rule", .string "free"), ("trial_till", .int 9000)]⟩)]⟩⟩]

/-- The trial is over, and its deadline is the expiry that the first of the records lends. -/
theorem hardens_disordered :
    Facet.extendPolicy ∈ family.facets ∧
      (∃ q, replay family begun = .ok q ∧
        q.snapshot.settings.extendPolicy = some ⟨.trial, 2000⟩) ∧
      (∃ q', replay family (begun ++ disordered) = .ok q' ∧
        q'.snapshot.settings.extendPolicy = some ⟨.never, 1800⟩) ∧
      ExtendRule.trial ≤ .never ∧ (1800 : Seconds) ≤ 2000 := by
  have hm : Facet.extendPolicy ∈ family.facets := by decide
  obtain ⟨q, hq, hp⟩ : ∃ q, replay family begun = .ok q ∧
      q.snapshot.settings.extendPolicy = some ⟨.trial, 2000⟩ := ⟨_, rfl, rfl⟩
  obtain ⟨q', hq', hp'⟩ : ∃ q', replay family (begun ++ disordered) = .ok q' ∧
      q'.snapshot.settings.extendPolicy = some ⟨.never, 1800⟩ := ⟨_, rfl, rfl⟩
  obtain ⟨p, p', he, he', hrule, hdeadline⟩ := replay_append_hardens hm hq hq'
  obtain rfl := Option.some.inj (hp.symm.trans he)
  obtain rfl := Option.some.inj (hp'.symm.trans he')
  exact ⟨hm, ⟨q, hq, hp⟩, ⟨q', hq', hp'⟩, hrule, hdeadline⟩

end Seats
end Subscription

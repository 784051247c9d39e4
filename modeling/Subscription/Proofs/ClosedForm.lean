import Subscription.Proofs.ExtendPolicyFold
import Subscription.Proofs.Loading
import Subscription.Proofs.Settled

/-! # What a replay amounts to

A replay is put together from parts that do not depend on one another: the newest
record, and what each facet's fold is read as (`replay_eq_ok_iff_parts`).  When every
record that mentions a facet says in full what it has to say of it (`Complete`), each
part is a greatest or a least element over all the records, in whatever order they are
listed (`ClosedForm`, `replay_closedForm`).
-/
namespace Subscription

open Record

section Parts
variable {m : Family} {records : List Record} {q : Replayed}

/-- A replay, part by part. -/
theorem replay_eq_ok_iff_parts (hd : Distinct records) :
    replay m records = .ok q ↔
      (∃ last, last? records = some last ∧ q.variant = last.variant ∧
        q.snapshot.activeUntil = last.activeUntil ∧
        q.snapshot.freeActiveUntil = last.freeActiveUntil) ∧
      ∀ f, (f ∈ m.facets → ∃ x, m.decode f (some (replayedFields m records f)) = .ok x ∧
          q.snapshot.settings.get? f = some x) ∧
        (f ∉ m.facets → q.snapshot.settings.get? f = none) := by
  rw [replay_eq_ok_iff]
  constructor
  · rintro ⟨last, first, settings, hl, hf, hs, rfl⟩
    rw [first?_eq_last? hd, hl] at hf
    cases hf
    exact ⟨⟨last, hl, rfl, rfl, rfl⟩, (m.decodeAll_eq_ok_iff _).mp hs⟩
  · rintro ⟨⟨last, hl, hv, ha, hfree⟩, hs⟩
    refine ⟨last, last, q.snapshot.settings, hl, ?_, (m.decodeAll_eq_ok_iff _).mpr hs, ?_⟩
    · rw [first?_eq_last? hd, hl]
    · rw [← hv, ← ha, ← hfree]

theorem exists_replay_iff :
    (∃ q, replay m records = .ok q) ↔
      records ≠ [] ∧
        ∀ f ∈ m.facets, ∃ x, m.decode f (some (replayedFields m records f)) = .ok x := by
  rw [← m.decodeAll_isOk_iff fun f => some (replayedFields m records f)]
  simp only [replay_eq_ok_iff]
  constructor
  · rintro ⟨q, last, first, settings, hl, -, hs, -⟩
    refine ⟨fun hne => ?_, settings, hs⟩
    rw [last?_eq_none_iff.mpr hne] at hl
    cases hl
  · rintro ⟨hne, settings, hs⟩
    obtain ⟨last, hl⟩ := Option.ne_none_iff_exists'.mp (mt last?_eq_none_iff.mp hne)
    have hrev : records.reverse ≠ [] := mt List.reverse_eq_nil_iff.mp hne
    obtain ⟨first, hf⟩ := Option.ne_none_iff_exists'.mp (mt last?_eq_none_iff.mp hrev)
    exact ⟨_, last, first, settings, hl, hf, hs, rfl⟩

/-- A replay has the extend policy that its records fold to, and no record names an unknown
rule. -/
theorem extendPolicy_of_replay (hm : .extendPolicy ∈ m.facets) (h : replay m records = .ok q) :
    (∀ r ∈ records, r.NamesRule) ∧ q.snapshot.settings.extendPolicy =
      some ⟨(foldPolicy m records).rule, (foldPolicy m records).trialUntil⟩ := by
  obtain ⟨last, first, settings, -, -, hs, rfl⟩ := replay_eq_ok_iff.mp h
  obtain ⟨x, hx, hget⟩ := ((m.decodeAll_eq_ok_iff _).mp hs .extendPolicy).1 hm
  obtain ⟨hnames, rfl⟩ := (decode_foldExtendPolicy hm).mp hx
  exact ⟨hnames, Settings.get?_extendPolicy_iff.mp hget⟩

theorem replayedFields_of_ne {f : Facet} (hf : f ≠ .extendPolicy) :
    replayedFields m records f = foldFacet f records := by
  cases f with
  | extendPolicy => exact absurd rfl hf
  | _ => rfl

end Parts

/-- No record mentions a facet of the family without the field that it is read from, nor
the extend policy without a rule. -/
structure Complete (m : Family) (records : List Record) : Prop where
  field : ∀ f ∈ m.facets, f ≠ .extendPolicy → ∀ r ∈ records, ∀ fields,
    r.facet? f = some fields → (fields.get? f.field).isSome
  rule : .extendPolicy ∈ m.facets → ∀ r ∈ records,
    r.mentions .extendPolicy = true → ∃ rule, r.ownRule = some rule

/-- The field of a facet in the newest record that mentions it, or else the default. -/
def newestField (m : Family) (f : Facet) (records : List Record) : Option Value :=
  ((newestFields f records).getD (m.defaultFields f)).get? f.field

/-- What a history amounts to, without a word of its order. -/
structure ClosedForm (m : Family) (records : List Record) (q : Replayed) : Prop where
  /-- The variant and the dates are those of the record with the greatest id. -/
  newest : ∃ last ∈ records, (∀ r ∈ records, r.id ≤ last.id) ∧ q.variant = last.variant ∧
    q.snapshot.activeUntil = last.activeUntil ∧ q.snapshot.freeActiveUntil = last.freeActiveUntil
  /-- A facet other than the extend policy is read from its newest mention. -/
  setting : ∀ f ∈ m.facets, f ≠ .extendPolicy → ∃ x, q.snapshot.settings.get? f = some x ∧
    m.decode f (newestFields f records) = .ok x ∧ x.fields.get? f.field = newestField m f records
  /-- The extend policy has the latest rule of all, and the earliest deadline. -/
  extend : .extendPolicy ∈ m.facets → ∃ p, q.snapshot.settings.extendPolicy = some p ∧
    IsGreatest {rule | rule = m.defaults.extendRule ∨ ∃ r ∈ records, r.ownRule = some rule}
      p.rule ∧
    IsLeast {d | d = .unbounded ∨ ∃ r ∈ records, r.ownDeadline = some d} p.trialUntil
  /-- There is nothing of any other facet. -/
  absent : ∀ f ∉ m.facets, q.snapshot.settings.get? f = none

section Complete
variable {m : Family} {records : List Record} {q : Replayed}

theorem Complete.settled (hc : Complete m records) {f : Facet} (hm : f ∈ m.facets)
    (hf : f ≠ .extendPolicy) : FacetSettled m f records :=
  facetSettled_of_carried (hc.field f hm hf)

theorem Complete.namesRule (hc : Complete m records) (hm : .extendPolicy ∈ m.facets) :
    ∀ r ∈ records, r.NamesRule := by
  intro r hr
  cases hf : r.facet? .extendPolicy with
  | none => exact namesRule_of_unnamed (ruleName?_of_unmentioned hf)
  | some fields =>
    obtain ⟨rule, hrule⟩ := hc.rule hm r hr (mentions_iff.mpr ⟨fields, hf⟩)
    exact namesRule_of_ownRule hrule

/-- Complete records lend nothing, so all their deadlines are their own. -/
theorem Complete.mem_deadlines_iff (hc : Complete m records) (hm : .extendPolicy ∈ m.facets)
    {rule : ExtendRule} {d : Seconds} :
    d ∈ deadlines rule records ↔ ∃ r ∈ records, r.ownDeadline = some d := by
  constructor
  · intro hd
    rcases mem_deadlines hd with hown | ⟨⟨r, hr, hb, -⟩, -⟩
    · exact hown
    · obtain ⟨rule, hrule⟩ := hc.rule hm r hr hb.mentions
      rw [hb.ownRule_eq_none] at hrule
      cases hrule
  · rintro ⟨r, hr, hown⟩
    exact ownDeadline_mem_deadlines hr hown

theorem Complete.decode_extendPolicy (hc : Complete m records) (hm : .extendPolicy ∈ m.facets) :
    ∃ p, (∀ x, m.decode .extendPolicy (some (replayedFields m records .extendPolicy)) = .ok x ↔
        x = .extendPolicy p) ∧
      IsGreatest {rule | rule = m.defaults.extendRule ∨ ∃ r ∈ records, r.ownRule = some rule}
        p.rule ∧
      IsLeast {d | d = .unbounded ∨ ∃ r ∈ records, r.ownDeadline = some d} p.trialUntil := by
  have hnames := hc.namesRule hm
  refine ⟨⟨(foldPolicy m records).rule, (foldPolicy m records).trialUntil⟩, ?_, ?_, ?_⟩
  · intro x
    exact (decode_foldExtendPolicy hm).trans (and_iff_right hnames)
  · exact ExtendFold.isGreatest_rule _ records
  · have hleast := isLeast_earliestDeadline m.defaults.extendRule records
    simp only [hc.mem_deadlines_iff hm] at hleast
    rw [trialUntil_foldPolicy hnames]
    exact hleast

/-- The setting that a newest mention is read as has its field. -/
theorem Complete.get?_fields (hc : Complete m records) {f : Facet} (hm : f ∈ m.facets)
    (hf : f ≠ .extendPolicy) {x : Setting} (hx : m.decode f (newestFields f records) = .ok x) :
    x.fields.get? f.field = newestField m f records := by
  obtain ⟨-, hfield, -⟩ := (Family.decode_eq_ok_iff hf hm).mp hx
  rw [hfield, m.get?_laidOver]
  unfold newestField
  rcases newestFields_cases f records with ⟨hn, -⟩ | ⟨r, hr, fields, hfields, -, hn⟩
  · rw [hn]
    exact Option.none_or
  · obtain ⟨v, hv⟩ := Option.isSome_iff_exists.mp (hc.field f hm hf r hr fields hfields)
    rw [hn, Option.getD_some, Option.getD_some, hv]
    rfl

/-- What replays from complete records is in closed form. -/
theorem Complete.closedForm (hc : Complete m records) (hd : Distinct records)
    (hq : replay m records = .ok q) : ClosedForm m records q := by
  obtain ⟨⟨last, hl, hdates⟩, hs⟩ := (replay_eq_ok_iff_parts hd).mp hq
  refine ⟨?_, ?_, ?_, fun f hf => (hs f).2 hf⟩
  · obtain ⟨hmem, hmax⟩ := last?_spec hl
    exact ⟨last, hmem, hmax, hdates⟩
  · intro f hm hf
    obtain ⟨x, hx, hget⟩ := (hs f).1 hm
    rw [replayedFields_of_ne hf, decode_foldFacet_of_settled hf hd (hc.settled hm hf)] at hx
    exact ⟨x, hget, hx, hc.get?_fields hm hf hx⟩
  · intro hm
    obtain ⟨x, hx, hget⟩ := (hs .extendPolicy).1 hm
    obtain ⟨p, hp, hrule, hdeadline⟩ := hc.decode_extendPolicy hm
    obtain rfl := (hp x).mp hx
    obtain ⟨p', hp', he⟩ := Option.map_eq_some_iff.mp hget
    obtain rfl := Setting.extendPolicy.inj he
    exact ⟨p', hp', hrule, hdeadline⟩

/-- A history without repeated ids has one closed form at most. -/
theorem ClosedForm.unique (hd : Distinct records) {q' : Replayed} (h : ClosedForm m records q)
    (h' : ClosedForm m records q') : q = q' := by
  obtain ⟨last, hl, hmax, hv, ha, hfree⟩ := h.newest
  obtain ⟨last', hl', hmax', hv', ha', hfree'⟩ := h'.newest
  obtain rfl : last = last' :=
    hd.eq_of_id hl hl' (UInt64.le_antisymm (hmax' last hl) (hmax last' hl'))
  have hsettings : q.snapshot.settings = q'.snapshot.settings := by
    refine Settings.ext_get? fun f => ?_
    by_cases hm : f ∈ m.facets
    · by_cases hf : f = .extendPolicy
      · subst hf
        obtain ⟨⟨rule, trialUntil⟩, hp, hrule, hleast⟩ := h.extend hm
        obtain ⟨⟨rule', trialUntil'⟩, hp', hrule', hleast'⟩ := h'.extend hm
        obtain rfl : rule = rule' := hrule.unique hrule'
        obtain rfl : trialUntil = trialUntil' := hleast.unique hleast'
        show q.snapshot.settings.extendPolicy.map _ = q'.snapshot.settings.extendPolicy.map _
        rw [hp, hp']
      · obtain ⟨x, hget, hx, -⟩ := h.setting f hm hf
        obtain ⟨x', hget', hx', -⟩ := h'.setting f hm hf
        rw [hget, hget', Except.ok.inj (hx.symm.trans hx')]
    · rw [h.absent f hm, h'.absent f hm]
  obtain ⟨variant, ⟨activeUntil, freeActiveUntil, settings⟩⟩ := q
  obtain ⟨variant', ⟨activeUntil', freeActiveUntil', settings'⟩⟩ := q'
  dsimp only at hv hv' ha ha' hfree hfree' hsettings
  rw [hv, ha, hfree, hsettings, hv', ha', hfree']

/-- **The replay of complete records**, in any order and without repeated ids, succeeds
exactly when every facet but the extend policy can be read from its newest mention, and
it is the closed form of the history. -/
theorem replay_closedForm (hne : records ≠ []) (hd : Distinct records)
    (hc : Complete m records) :
    ((∃ q, replay m records = .ok q) ↔
      ∀ f ∈ m.facets, f ≠ .extendPolicy → ∃ x, m.decode f (newestFields f records) = .ok x) ∧
    ∀ q, replay m records = .ok q ↔ ClosedForm m records q := by
  have hexists : (∃ q, replay m records = .ok q) ↔
      ∀ f ∈ m.facets, f ≠ .extendPolicy → ∃ x, m.decode f (newestFields f records) = .ok x := by
    rw [exists_replay_iff, and_iff_right hne]
    refine forall₂_congr fun f hm => ?_
    by_cases hf : f = .extendPolicy
    · subst hf
      obtain ⟨p, hp, -⟩ := hc.decode_extendPolicy hm
      exact ⟨fun _ h => absurd rfl h, fun _ => ⟨_, (hp _).mpr rfl⟩⟩
    · simp only [replayedFields_of_ne hf, decode_foldFacet_of_settled hf hd (hc.settled hm hf)]
      exact ⟨fun h _ => h, fun h => h hf⟩
  refine ⟨hexists, fun q => ⟨hc.closedForm hd, fun h => ?_⟩⟩
  -- What has the closed form is the replay, which exists and has it too.
  obtain ⟨q', hq'⟩ := hexists.mpr fun f hm hf => by
    obtain ⟨x, -, hx, -⟩ := h.setting f hm hf
    exact ⟨x, hx⟩
  rw [h.unique hd (hc.closedForm hd hq')]
  exact hq'

end Complete

namespace Seats

/-- Three records of a plan, the newest first: a trial that is extended, and over. -/
def history : List Record := [
  ⟨7, 1001, 3000, 0, ⟨[("extend_policy", ⟨[("rule", .string "never")]⟩),
    ("limit", ⟨[("value", .int 30)]⟩)]⟩⟩,
  ⟨2, 1001, 1000, 0, ⟨[("extend_policy", ⟨[("rule", .string "trial")]⟩),
    ("limit", ⟨[("value", .int 20)]⟩)]⟩⟩,
  ⟨5, 1002, 2000, 100, ⟨[("extend_policy",
    ⟨[("rule", .string "trial"), ("trial_till", .int 1500)]⟩)]⟩⟩]

/-- What `history` amounts to. -/
def replayed : Replayed := ⟨1001, ⟨3000, 0, {
  limit := some ⟨30⟩
  extendPolicy := some ⟨.never, 1000⟩
  restrictPolicy := some ⟨0⟩
  demo := some ⟨0⟩ }⟩⟩

theorem distinct_history : Record.Distinct history := by
  unfold Record.Distinct
  decide

theorem complete_history : Complete family history where
  field := by
    intro f hm hf r hr fields h
    have hfields : ∀ r ∈ history, ∀ f ∈ [Facet.limit, .restrictPolicy, .demo],
        (r.facet? f).all fun fields => (fields.get? f.field).isSome := by decide
    have hmem : f ∈ [Facet.limit, .restrictPolicy, .demo] := by
      cases f with
      | extendPolicy => exact absurd rfl hf
      | _ => decide
    have hall := hfields r hr f hmem
    rw [h] at hall
    exact hall
  rule := by
    intro hm r hr h
    have hrules : ∀ r ∈ history, r.ownRule.isSome := by decide
    exact Option.isSome_iff_exists.mp (hrules r hr)

/-- The limit is that of the newest record, the rule the latest of the three, and the
deadline the expiry of the oldest. -/
theorem closedForm_history :
    history ≠ [] ∧ Record.Distinct history ∧ Complete family history ∧
      ClosedForm family history replayed := by
  have hne : history ≠ [] := List.cons_ne_nil _ _
  have hreplay : replay family history = .ok replayed := rfl
  exact ⟨hne, distinct_history, complete_history,
    ((replay_closedForm hne distinct_history complete_history).2 replayed).mp hreplay⟩

end Seats
end Subscription

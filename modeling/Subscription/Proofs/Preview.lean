import Subscription.Proofs.Judging

/-! # Submitting what a preview returns

A preview hands the request back as it was arranged: normalised, and narrowed by every verdict.
Its caller may show it, preview it again, and submit it in place of the one that was made.  Nothing
is lost or gained by that (`Plan.arrange_apply_arranged`).  What was normalised stays as it is, the
verdicts do not look at the status that they narrow, and a status that they have narrowed is not
narrowed by them again (`Status.narrowAll_narrowAll`), whatever seed it came from.
-/
namespace Subscription

namespace Status

/-- Candidates of no greater rank leave a status as it is. -/
theorem narrowAll_eq_self {s : Status} {cs : List Status} (h : ∀ c ∈ cs, c.rank ≤ s.rank) :
    s.narrowAll cs = s := by
  induction cs with
  | nil => rfl
  | cons c cs ih =>
    have hc : s.narrow c = s := by
      unfold narrow
      exact if_neg (Nat.not_lt.mpr (h c List.mem_cons_self))
    rw [narrowAll_cons, hc]
    exact ih fun d hd => h d (List.mem_cons_of_mem c hd)

/-- Narrowing by the same candidates again changes nothing.  A tie keeps the code and message
that came first, so this holds of the whole status and not of its rank alone. -/
theorem narrowAll_narrowAll (s : Status) (cs : List Status) :
    (s.narrowAll cs).narrowAll cs = s.narrowAll cs :=
  narrowAll_eq_self fun _ hc => s.rank_le_narrowAll_of_mem hc

end Status

namespace Plan
variable (p : Plan) (a : Alteration)

/-- The alteration with the request that its preview returns. -/
def arranged : Alteration := { a with request := p.arrange a }

/-- What a request would lead to does not depend on the status that it starts from. -/
theorem proposal_withAvailability (r : Request) (s : Status) (c : Circumstance) (o : Occasion) :
    p.proposal { r with availability := s } c o = p.proposal r c o := rfl

/-- An arranged request has been normalised. -/
theorem normalise_arrange : p.normalise (p.arrange a) = p.arrange a := by
  unfold arrange
  rw [normalise_withAvailability, normalise_normalise]

/-- An arranged request meets with the verdicts that it was arranged by. -/
theorem verdicts_arrange (c : Circumstance) (o : Occasion) :
    p.verdicts (p.normalise (p.arrange a)) c o = p.verdicts (p.normalise a.request) c o := by
  rw [normalise_arrange]
  exact p.verdicts_withAvailability (p.normalise a.request) _ c o

theorem arrange_arranged : p.arrange (p.arranged a) = p.arrange a := by
  -- Only the status could differ, and the same verdicts have narrowed it before.
  have hstatus : (p.arrange (p.arranged a)).availability = (p.arrange a).availability := by
    rw [availability_arrange]
    show (p.arrange a).availability.narrowAll (p.verdicts (p.normalise (p.arrange a))
      a.circumstance (p.occasion a.method a.time)) = _
    rw [verdicts_arrange, availability_arrange, Status.narrowAll_narrowAll]
  show { p.normalise (p.arrange a) with availability := (p.arrange (p.arranged a)).availability } =
    p.arrange a
  rw [normalise_arrange, hstatus]

/-- What would come of an arranged request is what would come of the request as it was made. -/
theorem altered_arranged : p.altered (p.arranged a) = p.altered a := by
  have hrequest : p.normalise (p.arranged a).request =
      { p.normalise a.request with availability := (p.arrange a).availability } :=
    p.normalise_arrange a
  unfold altered
  rw [hrequest, proposal_withAvailability]
  rfl

theorem apply_arranged : p.apply (p.arranged a) = p.apply a := by
  have hmethod : (p.arranged a).method = a.method := rfl
  unfold apply
  rw [altered_arranged, arrange_arranged, hmethod]

/-- **A preview can be repeated and submitted.**  Previewing the request that a preview returned
returns the same request, with its actions, prolongation, settings, status and all; and submitting
it, by whatever method, has the outcome and leaves the plan of the request as it was made. -/
theorem arrange_apply_arranged :
    p.arrange (p.arranged a) = p.arrange a ∧ p.apply (p.arranged a) = p.apply a :=
  ⟨p.arrange_arranged a, p.apply_arranged a⟩

end Plan

namespace Seats

/-- Down to the ten seats that are free, asked for as a change and nothing else. -/
def downToFree : Alteration where
  method := .detached
  request := {
    availability := .detached
    actions := .ofList [.change]
    desired := { limit := some ⟨10⟩ } }
  circumstance := { occupancy := 5 }
  time := 1000

/-- The preview makes it a prolongation without an end, which costs nothing.  In that form it is
previewed as before, and its submission leaves the plan without an expiry. -/
theorem arranged_downToFree :
    downToFree.request.isProlongation = false ∧
      (plan.arrange downToFree).isProlongation = true ∧
      (plan.arrange downToFree).prolongation = .infinite ∧
      (plan.arrange downToFree).availability = .free ∧
      plan.arrange (plan.arranged downToFree) = plan.arrange downToFree ∧
      (plan.apply (plan.arranged downToFree)).2 = .applied false ∧
      (plan.apply (plan.arranged downToFree)).1.activeUntil = .infinite := by
  obtain ⟨hagain, hsubmitted⟩ := plan.arrange_apply_arranged downToFree
  rw [hsubmitted]
  exact ⟨by decide, by decide, by decide, by decide, hagain, by decide, by decide⟩

end Seats
end Subscription

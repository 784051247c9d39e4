import Subscription.Proofs.Judging

/-! # What is decided, and what is said of it

An alteration that is not forced is decided by the status that its preview shows: it is carried out
when that permits it, and otherwise the plan stays as it is and the outcome says why.  What it says
can be relied on as long as the caller keeps to the pairing of statuses, by which a refusal has a
code and a message, and nothing else has either (`Status.make`).  Every objection and every
judgment is paired (`Setting.paired_judge`), so the arranged status is (`Plan.paired_arrange`), and
no rejection passes for a success by its code (`Plan.apply_decides`).
-/
namespace Subscription

namespace Status
variable {s : Status}

/-- The code and the message are those that go with the rank. -/
def Paired (s : Status) : Prop := make s.availability s.code s.message = .ok s

theorem Refuses.paired (h : s.Refuses) : s.Paired := by
  have hun : ¬ s.availability.isAvailable = true := Bool.eq_false_iff.mp h.unavailable
  unfold Paired make
  rw [if_neg hun, if_neg (not_or.mpr ⟨h.code, h.message⟩)]

theorem Paired.refuses (h : s.Paired) (hun : s.isAvailable = false) : s.Refuses := by
  have hun' : ¬ s.availability.isAvailable = true := Bool.eq_false_iff.mp hun
  unfold Paired make at h
  rw [if_neg hun'] at h
  split at h
  · cases h
  · rename_i hnone
    obtain ⟨hc, hm⟩ := not_or.mp hnone
    exact ⟨hun, hc, hm⟩

/-- Narrowing does not take the code and message of one status to the rank of another. -/
theorem paired_narrowAll {cs : List Status} (hs : s.Paired) (hcs : ∀ c ∈ cs, c.Paired) :
    (s.narrowAll cs).Paired := by
  rcases s.narrowAll_eq_or_mem cs with he | hm
  · rwa [he]
  · exact hcs _ hm

end Status

/-! ## What a rule answers is paired -/

theorem Limit.paired_charge (l target : Limit) (t : Transition) : (l.charge target t).Paired := by
  unfold charge
  dsimp only
  repeat' split
  all_goals rfl

theorem Limit.paired_judge (l : Limit) (t : Transition) : (l.judge t).Paired := by
  cases ht : t.prospective.settings.limit with
  | none =>
    unfold judge
    rw [ht]
    rfl
  | some target =>
    rw [l.judge_eq target t ht]
    cases hr : l.refusal? target t with
    | none => exact l.paired_charge target t
    | some s => exact (l.refuses_of_refusal target t hr).paired

theorem Setting.paired_judge (t : Transition) (x : Setting) : (x.judge t).Paired := by
  rcases x.judge_cases t with ⟨l, rfl⟩ | hdetached | hrefuses
  · exact l.paired_judge t
  · rw [hdetached]
    rfl
  · exact hrefuses.paired

namespace Plan
variable {p : Plan} {a : Alteration}

theorem paired_of_mem_verdicts {r : Request} {c : Circumstance} {o : Occasion}
    (hconds : ∀ e ∈ r.extraConditions, (e p).Paired) {s : Status} (h : s ∈ p.verdicts r c o) :
    s.Paired := by
  rcases verdict_cases h with h | ⟨x, -, rfl⟩ | ⟨e, he, rfl⟩
  · exact (refuses_of_mem_objections h).paired
  · exact x.paired_judge _
  · exact hconds e he

/-- A preview of a paired seed under paired conditions shows a paired status. -/
theorem paired_arrange (hseed : a.request.availability.Paired)
    (hconds : ∀ e ∈ a.request.extraConditions, (e p).Paired) :
    (p.arrange a).availability.Paired := by
  rw [availability_arrange]
  refine Status.paired_narrowAll hseed fun s hs => paired_of_mem_verdicts ?_ hs
  rwa [normalise_extraConditions]

/-! ## What comes of an alteration that is not forced -/

/-- What is refused, while the statuses of the caller are paired, is refused with a code and a
message. -/
theorem code_message_of_rejected (hf : a.method ≠ .force)
    (hpaired : (p.arrange a).availability.Paired) (h : ¬ p.Allows a) :
    (p.apply a).2.code ≠ 0 ∧ (p.apply a).2.message ≠ "" := by
  rcases Status.not_permits_iff.mp h with hun | ⟨hreason, hfund⟩
  · rw [apply_of_unavailable hf hun]
    have hrefuses := hpaired.refuses hun
    exact ⟨hrefuses.code, hrefuses.message⟩
  · have hcode : Status.Code.reasonRequired ≠ 0 := by decide
    have hmessage : "payment required" ≠ "" := by decide
    rw [apply_of_unfunded hf hreason hfund]
    exact ⟨hcode, hmessage⟩

/-- **An alteration that is not forced is decided by what its preview shows.**  It is carried out
exactly when that is available and does not need a reason that is missing.  If it is not, the plan
stays as it is, and the outcome has the code and message of the preview, or says that a payment is
required where the preview was available.  As long as the caller's own statuses are paired, the
code of the outcome is zero exactly when the alteration was carried out, and no rejection is
without a message. -/
theorem apply_decides (hf : a.method ≠ .force) :
    ((p.apply a).2.isSuccess = true ↔
        (p.arrange a).availability.isAvailable = true ∧
          ¬ ((p.arrange a).availability.availability = .reasonRequired ∧
            a.method.hasReason = false)) ∧
      ((p.apply a).2.isSuccess = true → p.apply a = (p.altered a, .applied false)) ∧
      ((p.apply a).2.isSuccess = false →
        (p.apply a).1 = p ∧
          (p.apply a).2 =
            if (p.arrange a).availability.isAvailable then
              .rejected Status.Code.reasonRequired "payment required"
            else .rejected (p.arrange a).availability.code (p.arrange a).availability.message) ∧
      (a.request.availability.Paired → (∀ e ∈ a.request.extraConditions, (e p).Paired) →
        ((p.apply a).2.code = 0 ↔ (p.apply a).2.isSuccess = true) ∧
          ((p.apply a).2.isSuccess = false → (p.apply a).2.message ≠ "")) := by
  have hiff := p.isSuccess_iff_allows a hf
  have happlied (hs : (p.apply a).2.isSuccess = true) : p.apply a = (p.altered a, .applied false) :=
    apply_of_allows hf (hiff.mp hs)
  have hrefused (hs : (p.apply a).2.isSuccess = false) : ¬ p.Allows a :=
    fun hallows => Bool.eq_false_iff.mp hs (hiff.mpr hallows)
  refine ⟨hiff.trans Status.permits_iff, happlied, fun hs => ?_, fun hseed hconds => ?_⟩
  · rcases Status.not_permits_iff.mp (hrefused hs) with hun | ⟨hreason, hfund⟩
    · rw [apply_of_unavailable hf hun, hun]
      exact ⟨rfl, rfl⟩
    · have hav := Status.isAvailable_of_reasonRequired hreason
      rw [apply_of_unfunded hf hreason hfund, hav]
      exact ⟨rfl, rfl⟩
  · have hcoded := code_message_of_rejected hf (paired_arrange hseed hconds)
    refine ⟨⟨fun hcode => ?_, fun hs => ?_⟩, fun hs => (hcoded (hrefused hs)).2⟩
    · cases hs : (p.apply a).2.isSuccess with
      | true => rfl
      | false => exact absurd hcode (hcoded (hrefused hs)).1
    · rw [happlied hs]
      rfl

end Plan

namespace Seats

/-- A month, granted only to a plan of more than `least` seats. -/
def monthAbove (least : UInt32) (method : Method) : Alteration where
  method
  request := {
    availability := .detached
    prolongation := .extend 500
    extraConditions := [fun q =>
      if q.limit.any (least < ·) then .detached else .unappropriated 77 "too few seats"] }
  circumstance := { occupancy := 12 }
  time := 1000

theorem paired_monthAbove (least : UInt32) (method : Method) :
    (monthAbove least method).request.availability.Paired ∧
      ∀ e ∈ (monthAbove least method).request.extraConditions, (e plan).Paired := by
  refine ⟨rfl, fun e he => ?_⟩
  obtain rfl := List.mem_singleton.mp he
  dsimp only
  split <;> rfl

/-- Paid for, the month is granted above ten seats, so that the plan expires at 2500 and not at
2000, and refused above thirty with the code of the condition; with nobody to pay, it is refused
for want of a payment. -/
theorem decided_monthAbove :
    plan.apply (monthAbove 10 .payment) = (plan.altered (monthAbove 10 .payment), .applied false) ∧
      plan.activeUntil = 2000 ∧ (plan.apply (monthAbove 10 .payment)).1.activeUntil = 2500 ∧
      (plan.apply (monthAbove 30 .payment)).1 = plan ∧
      (plan.apply (monthAbove 30 .payment)).2 = .rejected 77 "too few seats" ∧
      (plan.apply (monthAbove 10 .detached)).1 = plan ∧
      (plan.apply (monthAbove 10 .detached)).2 =
        .rejected Status.Code.reasonRequired "payment required" ∧
      (plan.apply (monthAbove 30 .payment)).2.message ≠ "" := by
  have hpaid : (plan.apply (monthAbove 10 .payment)).2.isSuccess = true := by decide
  have hfew : (plan.apply (monthAbove 30 .payment)).2.isSuccess = false := by decide
  have hunpaid : (plan.apply (monthAbove 10 .detached)).2.isSuccess = false := by decide
  obtain ⟨hseed, hconds⟩ := paired_monthAbove 30 .payment
  obtain ⟨-, happlied, -, -⟩ := Plan.apply_decides (p := plan) (a := monthAbove 10 .payment) nofun
  obtain ⟨-, -, hkept, hcoded⟩ :=
    Plan.apply_decides (p := plan) (a := monthAbove 30 .payment) nofun
  obtain ⟨-, -, hlacking, -⟩ :=
    Plan.apply_decides (p := plan) (a := monthAbove 10 .detached) nofun
  obtain ⟨hsame, houtcome⟩ := hkept hfew
  obtain ⟨hsame', houtcome'⟩ := hlacking hunpaid
  exact ⟨happlied hpaid, by decide, by decide, hsame, houtcome.trans (by decide), hsame', houtcome'.trans (by decide),
    (hcoded hseed hconds).2 hfew⟩

end Seats
end Subscription

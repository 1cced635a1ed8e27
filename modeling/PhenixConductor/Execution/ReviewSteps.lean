import PhenixConductor.Execution.ReviewCalls

/-! # What an event leaves of the review service

An event opens a call or takes one further.
-/
namespace PhenixConductor.Execution
open Collections

namespace ReviewSystem
variable {self : ReviewSystem} {command : ExecutionReviewCommand}

/-- What an event changes: a new call, a reply to one, a commit of one, or nothing but the answer
to one. -/
inductive Effect (self : ReviewSystem) : ReviewEvent → ReviewSystem → Prop
  | ignored {event : ReviewEvent} : Effect self event self
  | opened {id : ℕ} {command : ExecutionReviewCommand} {read : Except String Unit}
      (fresh : self.calls.get? id = none) : Effect self (.call id command read)
        (self.putCall id command (.of (Review.handle (read.map fun _ => self.projection) command)))
  | replied {id : ℕ} {response : Except String WorkspaceResponse} {changed : Bool}
      {command : ExecutionReviewCommand} {old : ReviewProjection} {reviewId : String}
      {stored : StoredReview}
      (found : self.calls.get? id = some ⟨command,.applying old reviewId stored⟩) :
      Effect self (.reply id response changed)
        { self.putCall id command (.of (Review.accept old reviewId stored response)) with
          applied := self.applied ++ written reviewId stored changed response }
  | committed {id : ℕ} {command : ExecutionReviewCommand} {next : ReviewProjection}
      {review : ReviewRecord}
      (found : self.calls.get? id = some ⟨command,.persisting self.projection next review⟩) :
      Effect self (.commit id (.ok ()))
        { self.putCall id command (.answered (.ok (.review review))) with projection := next }
  | refused {id : ℕ} {outcome : Except String Unit} {command : ExecutionReviewCommand}
      {old next : ReviewProjection} {review : ReviewRecord} (error : String)
      (found : self.calls.get? id = some ⟨command,.persisting old next review⟩) :
      Effect self (.commit id outcome) (self.putCall id command (.answered (.error error)))

variable {next : ReviewProjection}

theorem transact_eq_ok {old projection : ReviewProjection} {outcome : Except String Unit}
    (h : self.transact old next outcome = .ok projection) :
    self.projection = old ∧ outcome = .ok () ∧ projection = next := by
  unfold transact at h
  by_cases hold : self.projection = old
  · simp only [hold, ne_eq, not_true_eq_false, if_false] at h
    obtain ⟨⟨⟩,houtcome,h⟩ := bind_eq_ok.mp h
    cases h
    exact ⟨hold,houtcome,rfl⟩
  · simp only [hold, ne_eq, not_false_eq_true, if_true] at h
    cases h

theorem effect_step (event : ReviewEvent) : self.Effect event (self.step event) := by
  cases event with
  | call id command read =>
    cases hget : self.calls.get? id with
    | none =>
      simp only [step, hget]
      exact .opened hget
    | some call =>
      simp only [step, hget]
      exact .ignored
  | reply id response changed =>
    cases hget : self.calls.get? id with
    | none =>
      simp only [step, hget]
      exact .ignored
    | some call =>
      obtain ⟨command,progress⟩ := call
      cases progress with
      | applying old reviewId stored =>
        simp only [step, hget]
        exact .replied hget
      | answered | persisting =>
        simp only [step, hget]
        exact .ignored
  | commit id outcome =>
    cases hget : self.calls.get? id with
    | none =>
      simp only [step, hget]
      exact .ignored
    | some call =>
      obtain ⟨command,progress⟩ := call
      cases progress with
      | persisting old next review =>
        cases htransact : self.transact old next outcome with
        | error error =>
          simp only [step, hget, htransact]
          exact .refused error hget
        | ok projection =>
          simp only [step, hget, htransact]
          obtain ⟨rfl,rfl,rfl⟩ := transact_eq_ok htransact
          exact .committed hget
      | answered | applying =>
        simp only [step, hget]
        exact .ignored

/-- What holds after any events. -/
structure Kept (now : ReviewSystem) : Prop where
  named : now.projection.Named
  stands : ∀ id call, now.calls.get? id = some call → now.Stands call.command call.progress
  accepted : ∀ id stored, now.projection.reviews.get? id = some stored →
    stored.record.state = .accepted → now.Written id
  revision : ∀ id, now.projection.revision id = now.decisions id

theorem kept_empty : empty.Kept where
  named _ _ h := by cases (BTreeMap.get?_empty _).symm.trans h
  stands _ _ h := by cases (BTreeMap.get?_empty _).symm.trans h
  accepted _ _ h := by cases (BTreeMap.get?_empty _).symm.trans h
  revision _ := rfl

variable {id : ℕ} {progress : ReviewProgress} {reviewId : String}

/-- A call that is not answered with a decision leaves the number of decisions. -/
theorem decisions_putCall (hnew : (ReviewCall.mk command progress).decides reviewId = false)
    (hold : ∀ call, self.calls.get? id = some call → call.decides reviewId = false) :
    (self.putCall id command progress).decisions reviewId = self.decisions reviewId := by
  unfold decisions putCall
  cases hget : self.calls.get? id with
  | none =>
    have hfresh : id ∉ self.calls.keys := (BTreeMap.get?_eq_none _).mp hget
    rw [length_filter_insert_of_notMem _ _ hfresh, hnew]
    rfl
  | some call =>
    exact length_filter_insert_of_get _ hget (hnew.trans (hold call hget).symm)

variable {review : ReviewRecord}

/-- The answer to a decision counts once. -/
theorem decisions_answered {input : ReviewDecisionInput}
    (hget : self.calls.get? id = some ⟨.decide input,progress⟩)
    (hopen : (ReviewCall.mk (.decide input) progress).decides reviewId = false) :
    (self.putCall id (.decide input) (.answered (.ok (.review review)))).decisions reviewId =
      self.decisions reviewId + if reviewId = input.reviewId then 1 else 0 := by
  have hadd := length_filter_insert_add (p := fun call => call.decides reviewId) self.calls hget
    ⟨.decide input,.answered (.ok (.review review))⟩
  have hdecides : (ReviewCall.mk (.decide input) (.answered (.ok (.review review)))).decides
      reviewId = decide (input.reviewId = reviewId) := rfl
  simp only [hopen, hdecides, Bool.false_eq_true, if_false, Nat.add_zero, decide_eq_true_eq,
    eq_comm (a := input.reviewId)] at hadd
  exact hadd

theorem decides_accept (command : ExecutionReviewCommand) (old : ReviewProjection)
    (reviewId : String) (stored : StoredReview) (response : Except String WorkspaceResponse)
    (other : String) :
    (ReviewCall.mk command (.of (Review.accept old reviewId stored response))).decides other =
      false := by
  cases haccept : Review.accept old reviewId stored response with
  | error error => cases command <;> rfl
  | ok progress =>
    obtain ⟨_,-,haccept⟩ := bind_eq_ok.mp haccept
    obtain ⟨_,-,haccept⟩ := bind_eq_ok.mp haccept
    obtain ⟨_,-,haccept⟩ := bind_eq_ok.mp haccept
    cases haccept
    cases command <;> rfl

/-- The other calls stand as before when one of them goes on. -/
theorem Kept.stands_put (h : self.Kept) {next : ReviewSystem}
    (hcalls : next.calls = self.calls.insert id ⟨command,progress⟩)
    (hfollows : self.projection.Follows next.projection)
    (hwritten : ∀ reviewId, self.Written reviewId → next.Written reviewId)
    (hnew : next.Stands command progress) (other : ℕ) (call : ReviewCall)
    (hget : next.calls.get? other = some call) : next.Stands call.command call.progress := by
  rw [hcalls, BTreeMap.get?_insert] at hget
  split_ifs at hget
  · cases hget
    exact hnew
  · exact (h.stands other call hget).mono hfollows hwritten

theorem Kept.opened (h : self.Kept) (read : Except String Unit) (hfresh : self.calls.get? id = none) :
    (self.putCall id command
      (.of (Review.handle (read.map fun _ => self.projection) command))).Kept where
  named := h.named
  stands := h.stands_put rfl .refl (fun _ hwritten => hwritten)
    ((stands_handle read command).mono .refl fun _ hwritten => hwritten)
  accepted := h.accepted
  revision reviewId := by
    rw [decisions_putCall (decides_handle _ _ _) fun call hcall => by cases hfresh.symm.trans hcall]
    exact h.revision reviewId

theorem Written.append {next : ReviewSystem} {batches : List AppliedBatch}
    (happlied : next.applied = self.applied ++ batches) (h : self.Written reviewId) :
    next.Written reviewId := by
  obtain ⟨batch,hbatch,hreview⟩ := h
  exact ⟨batch,happlied ▸ List.mem_append_left _ hbatch,hreview⟩

theorem Kept.replied (h : self.Kept) (response : Except String WorkspaceResponse) (changed : Bool)
    {old : ReviewProjection} {stored : StoredReview}
    (hfound : self.calls.get? id = some ⟨command,.applying old reviewId stored⟩) :
    Kept { self.putCall id command (.of (Review.accept old reviewId stored response)) with
      applied := self.applied ++ written reviewId stored changed response } where
  named := h.named
  stands := by
    refine h.stands_put rfl .refl (fun _ => Written.append rfl) ?_
    cases h.stands _ _ hfound with
    | applying found pending now becomes =>
      cases haccept : Review.accept old reviewId stored response with
      | error error => exact .answered _
      | ok progress =>
        obtain ⟨next,review,rfl,hchange,haccepted⟩ :=
          accept_eq_ok ⟨reviewId,stored.record.revision,.accept⟩ found pending haccept
        refine .persisting hchange fun input hinput hstate => ?_
        cases hinput
        cases haccepted hstate
        exact ⟨_,List.mem_append_right _ (List.mem_singleton.mpr rfl),rfl⟩
  accepted id stored hget hstate := (h.accepted id stored hget hstate).append rfl
  revision other := by
    have hdecisions := decisions_putCall
      (decides_accept command old reviewId stored response other) fun call hcall => by
        cases hfound.symm.trans hcall
        cases command <;> rfl
    exact (h.revision other).trans hdecisions.symm

theorem Kept.refused (h : self.Kept) {old : ReviewProjection} (error : String)
    (hfound : self.calls.get? id = some ⟨command,.persisting old next review⟩) :
    (self.putCall id command (.answered (.error error))).Kept where
  named := h.named
  stands := h.stands_put rfl .refl (fun _ hwritten => hwritten) (.answered _)
  accepted := h.accepted
  revision other := by
    rw [decisions_putCall (by cases command <;> rfl) fun call hcall => by
      cases hfound.symm.trans hcall
      cases command <;> rfl]
    exact h.revision other

theorem Kept.change (h : self.Kept)
    (hfound : self.calls.get? id = some ⟨command,.persisting self.projection next review⟩) :
    ReviewChange self.projection command next review := by
  cases h.stands _ _ hfound with
  | persisting change => exact change

theorem Kept.revision_committed (h : self.Kept)
    (hfound : self.calls.get? id = some ⟨command,.persisting self.projection next review⟩)
    (reviewId : String) : next.revision reviewId =
      (self.putCall id command (.answered (.ok (.review review)))).decisions reviewId := by
  have hbefore := h.revision reviewId
  cases h.change hfound with
  | prepared fresh identity revision pending =>
    rw [decisions_putCall rfl (fun call hcall => by cases hfound.symm.trans hcall; rfl), ← hbefore,
      ReviewProjection.revision_put]
    split_ifs with hid
    · simp [ReviewProjection.revision, hid, fresh, revision]
    · rfl
  | decided found pending identity revision closed =>
    rw [decisions_answered hfound rfl, ← hbefore, ReviewProjection.revision_put]
    split_ifs with hid
    · simp [ReviewProjection.revision, hid, found, revision]
    · rfl

theorem Kept.committed (h : self.Kept)
    (hfound : self.calls.get? id = some ⟨command,.persisting self.projection next review⟩) :
    Kept { self.putCall id command (.answered (.ok (.review review))) with projection := next } where
  named := (h.change hfound).named h.named
  stands := h.stands_put rfl (h.change hfound).follows (fun _ hwritten => hwritten) (.answered _)
  accepted other stored hget hstate := by
    rcases (h.change hfound).get? h.named hget with ⟨hrecord,hid⟩ | hold
    · rw [hrecord] at hstate
      cases h.stands _ _ hfound with
      | persisting change accepted =>
        cases change with
        | prepared _ _ _ pending => cases pending.symm.trans hstate
        | decided found pending identity revision closed =>
          have hwritten := accepted _ rfl hstate
          rw [← hid, identity, h.named _ _ found]
          exact hwritten
    · exact h.accepted other stored hold hstate
  revision := h.revision_committed hfound

theorem Kept.effect (h : self.Kept) {event : ReviewEvent} {next : ReviewSystem}
    (heffect : self.Effect event next) : next.Kept := by
  cases heffect with
  | ignored => exact h
  | opened fresh => exact h.opened _ fresh
  | replied found => exact h.replied _ _ found
  | committed found => exact h.committed found
  | refused error found => exact h.refused error found

theorem kept_run (events : List ReviewEvent) : (run events).Kept :=
  runAll_invariant (fun self event h => h.effect (self.effect_step event)) events kept_empty

/-- An event loses no review and leaves a decided one as it is. -/
theorem Kept.follows (h : self.Kept) {event : ReviewEvent} {next : ReviewSystem}
    (heffect : self.Effect event next) : self.projection.Follows next.projection := by
  cases heffect with
  | ignored | opened | replied | refused => exact .refl
  | committed found => exact (h.change found).follows

end ReviewSystem

end PhenixConductor.Execution
